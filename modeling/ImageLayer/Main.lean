import ImageLayer.CommandLine.Outcome
import ImageLayer.Host.Listing
/-!
The program: a command line, whose files are listed on standard input.

What is on the host comes from the listing. The lines of the outcome go to the two outputs, and the
files that were written are written for real; nothing is decided here.
-/

namespace ImageLayer

/-- Reads a stream to its end. -/
partial def readAll (stream : IO.FS.Stream) (before : String) : IO String := do
  let line ← stream.getLine
  if line.isEmpty then return before
  readAll stream (before ++ line)

/-- Writes a file, with the directories that lead to it. -/
def writeOut (p : Path) (contents : Bytes) : IO Unit := do
  let directory := HostEdit.pathOf p.lead p.parts.reverse.tail
  if !directory.bytes.isEmpty then IO.FS.createDirAll directory.display
  IO.FS.writeBinFile p.display (ByteArray.mk contents.toArray)

/-- The host with the files of a listing, in a working directory of a given name. -/
def listedHost (directory listing : String) : Except String Host :=
  match readListing? listing with
  | none => .error "The listing on standard input cannot be read."
  | some entries =>
    ((Host.fresh (Bytes.ofString directory)).addListed entries).mapError HostFault.message

end ImageLayer

open ImageLayer in
/-- Carries out a command line. -/
def main (words : List String) : IO UInt32 := do
  let listing ← readAll (← IO.getStdin) ""
  match listedHost "work" listing with
  | .error reason =>
    IO.eprintln reason
    return ExitCode.applicationError.number.toUInt32
  | .ok host =>
    let outcome := Outcome.ofWords words (← IO.getEnv epochVariable) host
    outcome.results.forM IO.println
    outcome.remarks.forM IO.eprintln
    outcome.written.forM fun (p, contents) => writeOut p contents
    match outcome.code with
    | some code => return code.number.toUInt32
    | none =>
      -- There is nothing to wait for: this is the number of a program that was stopped.
      return 134
