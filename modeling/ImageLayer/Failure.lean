import ImageLayer.Tree.Path
import ImageLayer.Text.Numeral
import ImageLayer.Build.Step
import ImageLayer.Host.Fault
/-!
Everything that can go wrong, as data, and the words for it.

A `Failure` is a cause, possibly inside statements of what was being done when it arose. Its `message` is what
is said first and its `causes` are what is said after it, outermost first. Causes belong to the part of the
program that they come from: trees, archives, configuration files, the host.

Callers tell some failures from others. A `Failure.Kind` is what they go by, and a failure keeps it inside any
context (`Failure.kind`), so that saying more about a failure never changes what is done about it. Of all kinds
one is worth no more than a warning (`Failure.isRecoverable`).

Not every computation that gives no result has failed. Reading a file through hard links that lead back to
themselves goes on for ever, or rather until the program that does it is stopped. There is nobody to report
this, and no step comes after it. `NoResult` has both: a failure, which can be said, and what never comes to an
end, of which nothing is said and no context is added.
-/

namespace ImageLayer

/-- Why an operation on a tree was refused. -/
inductive TreeFault where
  /-- Following symbolic links does not come to an end. -/
  | tooManyLinks
  /-- The path has no last part that could name an entry. -/
  | noFinalComponent
  /-- The directory that should hold the entry does not exist. -/
  | parentMissing
  /-- There is no entry at the path. -/
  | notFound
  /-- A hard link names a location without an entry. -/
  | sourceMissing
  /-- There is an entry at the path already. -/
  | exists
  /-- The entry is no directory. -/
  | notDirectory
  /-- The entry is no regular file. -/
  | notRegular
  /-- A hard link may only be made to a regular file. -/
  | sourceNotRegular
  /-- The named package recorded the path, but the tree has no entry there. -/
  | recordedButMissing (package : String)
  /-- A reason given in words. -/
  | described (reason : String)
  deriving DecidableEq, Repr

/-- The wording of a fault in a tree. -/
def TreeFault.message : TreeFault → String
  | .tooManyLinks => "too many levels of symbolic links"
  | .noFinalComponent => "path has no final component"
  | .parentMissing => "parent directory does not exist"
  | .notFound => "no such file or directory"
  | .sourceMissing => "hardlink source is missing"
  | .exists => "file exists"
  | .notDirectory => "not a directory"
  | .notRegular => "not a regular file"
  | .sourceNotRegular => "hardlink source is not a regular file"
  | .recordedButMissing package =>
    s!"listed by package {package} in the installed database but missing from the tree"
  | .described reason => reason

/-- Why a path cannot be written into a member's header. -/
inductive MemberNameFault where
  /-- It starts at the root. -/
  | absolute
  /-- It has a step up. -/
  | stepUp
  /-- It has no part. -/
  | empty
  /-- It has more bytes than the field. -/
  | tooLong
  /-- It has a zero byte, which would end it early. -/
  | zeroByte
  deriving DecidableEq, Repr

/-- The wording of a fault in a member's name. -/
def MemberNameFault.message : MemberNameFault → String
  | .absolute => "paths in archives must be relative"
  | .stepUp => "paths in archives must not have `..`"
  | .empty => "paths in archives must have at least one component"
  | .tooLong => "provided value is too long"
  | .zeroByte => "provided value contains a nul byte"

/-- Which of a member's two paths is meant. -/
inductive MemberField where
  /-- The member's own path. -/
  | path
  /-- The path that a link points to. -/
  | linkName
  deriving DecidableEq, Repr

/-- How a field is called in messages. -/
def MemberField.label : MemberField → String
  | .path => "path"
  | .linkName => "link name"

/-- Why a layer could not be written. -/
inductive ArchiveFault where
  /-- The host refused the file. -/
  | host (fault : HostFault)
  /-- The host refused the directory for all output. -/
  | outputDirectory (fault : HostFault)
  /-- A path of the entry at `member` does not fit into a header; `written` is what the header's
  path field held by then. -/
  | name (member : Path) (fault : MemberNameFault) (field : MemberField) (written : String)
  /-- A reason given in words. -/
  | described (reason : String)
  deriving DecidableEq, Repr

/-- The wording of a fault in writing a layer. -/
def ArchiveFault.message : ArchiveFault → String
  | .host fault => fault.message
  | .outputDirectory fault => "Failed to create output directory: " ++ fault.message
  | .name member fault field written =>
    "Failed to add " ++ member.display ++ ": " ++ fault.message ++ " when setting " ++
      field.label ++ " for " ++ written
  | .described reason => reason

/-- What is wrong with a configuration. -/
inductive ConfigurationFault where
  /-- A user, by position, has a blank name. -/
  | blankUser (index : Nat)
  /-- A group, by position, has a blank name. -/
  | blankGroup (index : Nat)
  /-- A path change, by position, has a blank path. -/
  | blankPath (index : Nat)
  /-- A path change that makes a link does not say to what. -/
  | linkWithoutSource (index : Nat) (path : String)
  /-- The architecture is not known. -/
  | architecture (name : String)
  /-- A document format is not known. -/
  | format (name : String)
  /-- The image index cannot be read. -/
  | indexUnreadable (path : Path) (fault : HostFault)
  /-- The variable for the source date does not hold a number. -/
  | epochNotNumber (value : String)
  /-- The source date is outside the calendar. -/
  | epochOutOfRange (seconds : Int)
  /-- A reason given in words. -/
  | described (reason : String)
  deriving DecidableEq, Repr

/-- What is said of an architecture that is not known. -/
def unsupportedArchitecture (name : String) : String :=
  "Unsupported architecture: " ++ name ++
    ". Expected an apk name (x86_64, aarch64, ...) or an OCI name (amd64, arm64, ...)"

/-- What is said of a document format that is not known. -/
def unsupportedFormat (name : String) : String :=
  "Invalid SBOM format: " ++ name ++ ". Please specify 'spdx' or 'cyclonedx'"

/-- The name of the variable that may hold the source date. -/
def epochVariable : String := "SOURCE_DATE_EPOCH"

/-- The wording of a fault in a configuration. -/
def ConfigurationFault.message : ConfigurationFault → String
  | .blankUser index =>
    s!"accounts.users[{index}].username must not be empty.\n\n" ++
      "💡 Hint: Each user needs a 'username' (e.g., \"nonroot\")."
  | .blankGroup index =>
    s!"accounts.groups[{index}].groupname must not be empty.\n\n" ++
      "💡 Hint: Each group needs a 'groupname' (e.g., \"nonroot\")."
  | .blankPath index => s!"paths[{index}].path must not be empty."
  | .linkWithoutSource index path =>
    s!"paths[{index}] ({path}) is a link and has no source.\n\n" ++
      "💡 Hint: Set 'source' to the path the link points to."
  | .architecture name => "architecture: " ++ unsupportedArchitecture name
  | .format name => unsupportedFormat name
  | .indexUnreadable path fault =>
    "Failed to read image index " ++ path.display ++ ": " ++ fault.message
  | .epochNotNumber value =>
    epochVariable ++ " must be an integer number of seconds, got '" ++ value ++ "'"
  | .epochOutOfRange seconds => s!"Source date epoch {seconds} is out of range"
  | .described reason => reason

/-- Why a directory cannot serve as the root of a tree. -/
inductive RootFault where
  /-- The host refused it. -/
  | host (fault : HostFault)
  /-- It is something other than a directory. -/
  | notDirectory
  /-- A reason given in words. -/
  | described (reason : String)
  deriving DecidableEq, Repr

/-- The wording of a fault in the root directory. -/
def RootFault.message : RootFault → String
  | .host fault => fault.message
  | .notDirectory => "not a directory"
  | .described reason => reason

/-- What was being done when a failure arose. -/
inductive Context where
  /-- Splitting a line of the installed database into key and value. -/
  | databaseLine (line : Nat)
  /-- Decoding a checksum in the installed database. -/
  | databaseChecksum (line : Nat)
  /-- Reading ownership and mode in the installed database. -/
  | databaseAttributes (line : Nat)
  /-- Parsing a file of the tree. -/
  | parse (path : Path)
  /-- Reading a file. -/
  | read (path : Path)
  /-- Writing a file. -/
  | write (path : Path)
  /-- Creating a home directory. -/
  | homeDirectory (path : Path)
  /-- Applying a change to a path. -/
  | pathChange (path : String)
  /-- Writing the script of a service. -/
  | runScript (service : String)
  /-- Linking an applet. -/
  | appletLink (path : Path)
  /-- Making a link. -/
  | link (path : Path)
  /-- Creating a device. -/
  | device (path : Path)
  /-- Setting permissions on the host. -/
  | permissions (path : Path)
  /-- Reading a configuration file. -/
  | readConfiguration (path : Path)
  /-- Parsing a configuration file. -/
  | parseConfiguration (path : Path)
  deriving DecidableEq, Repr

/-- The wording of a context. -/
def Context.message : Context → String
  | .databaseLine line => s!"Malformed installed database line {line}"
  | .databaseChecksum line => s!"Invalid checksum on installed database line {line}"
  | .databaseAttributes line => s!"Invalid attributes on installed database line {line}"
  | .parse path => "Failed to parse " ++ path.display
  | .read path => "Failed to read " ++ path.display
  | .write path => "Failed to write " ++ path.display
  | .homeDirectory path => "Failed to create home directory " ++ path.display
  | .pathChange path => "Failed to apply path mutation to " ++ path
  | .runScript service => "Failed to write run script for service " ++ service
  | .appletLink path => "Failed to link busybox applet " ++ path.display
  | .link path => "Failed to link " ++ path.display
  | .device path => "Failed to create device " ++ path.display
  | .permissions path => "Failed to set permissions on " ++ path.display
  | .readConfiguration path =>
    "Failed to read config file: " ++ path.display ++
      "\n\n💡 Hint: Check that the file exists and is readable."
  | .parseConfiguration path =>
    "Failed to parse config file: " ++ path.display ++
      "\n\n💡 Hint: Ensure the file contains valid YAML syntax."

/-- Something that went wrong. -/
inductive Failure where
  /-- A step of the assembly failed; the steps after it did not run. -/
  | stepFailed (step : Step) (cause : Failure)
  /-- The file that identifies the operating system exists already. -/
  | osReleasePresent (path : Path)
  /-- An operation on the tree was refused. -/
  | tree (path : Path) (fault : TreeFault)
  /-- The layer could not be written. -/
  | archive (path : Path) (fault : ArchiveFault)
  /-- A bill of materials could not be written. -/
  | sbomWrite (path : Path) (details : String)
  /-- The configuration does not make sense. -/
  | configuration (fault : ConfigurationFault)
  /-- The root directory cannot be loaded. -/
  | rootfs (path : Path) (fault : RootFault)
  /-- The host refused a request. -/
  | host (fault : HostFault)
  /-- A text is not a number. -/
  | numeral (fault : NumeralFault)
  /-- A text is not base 64. -/
  | base64
  /-- A text is not hexadecimal. -/
  | hexadecimal
  /-- A text is not a YAML document of the expected shape. -/
  | yaml
  /-- A line of the installed database has no key. -/
  | lineWithoutKey (line : String)
  /-- Ownership and mode in the installed database are not three fields. -/
  | attributesIncomplete (value : String)
  /-- A change that makes a link does not say to what; `label` names the kind of change. -/
  | sourceRequired (label : String)
  /-- A service cannot have this name. -/
  | serviceName (name : String)
  /-- An architecture is not known. -/
  | architecture (name : String)
  /-- A document format is not known. -/
  | format (name : String)
  /-- The output directory does not exist. -/
  | outputMissing (directory : Path)
  /-- The file to write is a symbolic link. -/
  | outputIsLink (path : Path)
  /-- A failure given in words. -/
  | described (message : String)
  /-- A failure that arose while something was being done. -/
  | within (context : Context) (cause : Failure)
  deriving DecidableEq, Repr

namespace Failure

/-- Kinds that callers tell apart. -/
inductive Kind where
  /-- See `Failure.stepFailed`. -/
  | stepFailed
  /-- See `Failure.osReleasePresent`. -/
  | osReleasePresent
  /-- See `Failure.tree`. -/
  | tree
  /-- See `Failure.archive`. -/
  | archive
  /-- See `Failure.sbomWrite`. -/
  | sbomWrite
  /-- See `Failure.configuration`. -/
  | configuration
  /-- See `Failure.rootfs`. -/
  | rootfs
  /-- Any other failure. -/
  | other
  deriving DecidableEq, Repr

/-- The kind of a failure, whatever the context it arose in. -/
def kind : Failure → Kind
  | .stepFailed .. => .stepFailed
  | .osReleasePresent _ => .osReleasePresent
  | .tree .. => .tree
  | .archive .. => .archive
  | .sbomWrite .. => .sbomWrite
  | .configuration _ => .configuration
  | .rootfs .. => .rootfs
  | .within _ cause => cause.kind
  | _ => .other

/-- The advice that follows a refused output file. -/
def outputHint : String :=
  "\n\n💡 Hint: Please verify that the directory exists and you have write permissions"

/-- What is said first. -/
def message : Failure → String
  | .stepFailed step cause => "Build step '" ++ step.name ++ "' failed: " ++ cause.message
  | .osReleasePresent path => path.display ++ " already exists; not overwriting it"
  | .tree path fault => "Filesystem tree error at " ++ path.display ++ ": " ++ fault.message
  | .archive path fault =>
    "Failed to write layer tarball: " ++ path.display ++ "\nDetails: " ++ fault.message ++ outputHint
  | .sbomWrite path details =>
    "Failed to write SBOM: " ++ path.display ++ "\nDetails: " ++ details ++ outputHint
  | .configuration fault => "Invalid configuration: " ++ fault.message
  | .rootfs path fault =>
    "Invalid rootfs directory: " ++ path.display ++ "\nReason: " ++ fault.message ++
      "\n\n💡 Hint: Point --rootfs at the directory the package installer populated"
  | .host fault => fault.message
  | .numeral fault => fault.message
  | .base64 => "<base64>"
  | .hexadecimal => "<hex>"
  | .yaml => "<yaml>"
  | .lineWithoutKey line => "expected '<key>:<value>', found '" ++ line ++ "'"
  | .attributesIncomplete value => "expected 'uid:gid:mode', found '" ++ value ++ "'"
  | .sourceRequired label => "a " ++ label ++ " mutation requires a source"
  | .serviceName name => "Invalid service name '" ++ name ++ "'"
  | .architecture name => unsupportedArchitecture name
  | .format name => unsupportedFormat name
  | .outputMissing directory => "Output directory does not exist: " ++ directory.display
  | .outputIsLink path =>
    "Security: " ++ path.display ++ " is a symbolic link. " ++
      "For security reasons, writing to symbolic links is not allowed."
  | .described message => message
  | .within context _ => context.message

/-- What is said after the message, outermost cause first. -/
def causes : Failure → List String
  | .stepFailed _ cause => cause.message :: cause.causes
  | .within _ cause => cause.message :: cause.causes
  | _ => []

/-- Whether the assembly goes on after a failure: only an existing file that identifies the
operating system is worth no more than a warning. -/
def isRecoverable (f : Failure) : Bool := f.kind = .osReleasePresent

end Failure

/-- Says what was being done when a failure arises. -/
def inContext {α : Type} (context : Context) : Except Failure α → Except Failure α :=
  Except.mapError (.within context)

/-- Why a computation gives no result. -/
inductive NoResult where
  /-- It fails. -/
  | failure (e : Failure)
  /-- It never comes to an end. -/
  | endless
  deriving DecidableEq, Repr

/-- Says what was being done when a failure arises; what never comes to an end says nothing. -/
def NoResult.within (context : Context) : NoResult → NoResult
  | .failure e => .failure (.within context e)
  | .endless => .endless

end ImageLayer
