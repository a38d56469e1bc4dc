/-!
What the host's file system answers when it refuses a request.
-/

namespace ImageLayer

/-- A refusal by the host's file system. -/
inductive HostFault where
  /-- The call is reserved to a privileged process. -/
  | notPermitted
  /-- A part of the path does not exist. -/
  | notFound
  /-- Something exists at the path already. -/
  | exists
  /-- A part of the path before the last is no directory. -/
  | notDirectory
  /-- The path names a directory where a file is needed. -/
  | isDirectory
  /-- The path has too many bytes, in one name or in all. -/
  | nameTooLong
  /-- Following symbolic links does not come to an end. -/
  | linkLoop
  /-- The path names something that cannot be opened. -/
  | noDevice
  /-- A file read as text is not UTF-8. -/
  | notText
  /-- The path contains a zero byte. -/
  | zeroByte
  deriving DecidableEq, Repr

/-- The wording of a refusal, with the number that the system gives to it. -/
def HostFault.message : HostFault → String
  | .notPermitted => "Operation not permitted (os error 1)"
  | .notFound => "No such file or directory (os error 2)"
  | .exists => "File exists (os error 17)"
  | .notDirectory => "Not a directory (os error 20)"
  | .isDirectory => "Is a directory (os error 21)"
  | .nameTooLong => "File name too long (os error 36)"
  | .linkLoop => "Too many levels of symbolic links (os error 40)"
  | .noDevice => "No such device or address (os error 6)"
  | .notText => "stream did not contain valid UTF-8"
  | .zeroByte => "file name contained an unexpected NUL byte"

end ImageLayer
