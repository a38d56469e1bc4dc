import ImageLayer.Tree.Operation
import ImageLayer.Image.Configuration
import ImageLayer.Image.Metadata
import ImageLayer.Text.Blank
/-!
The file that identifies an operating system: a text of assignments, one to a line.

Writing puts the values that are meant for people between double quotes and the others as they are, and leaves
out what is empty or not declared. It escapes nothing. Reading knows three of the keys and drops blanks, and
then any run of quotes, from both ends of a value. Of two assignments to one key the later counts.

The file is written only where nothing is. Anything at its path, a symbolic link that leads nowhere included, is
taken for such a file, and that it is there is told as a failure (`Failure.osReleasePresent`), which the
assembly only warns of.
-/

namespace ImageLayer

namespace OsRelease

/-- Where a tree keeps the file. -/
def location : Path := .ofString "etc/os-release"

/-- An assignment of a value as it is; an empty value or none is left out. -/
def bareLine (key : String) (value : Option String) : String :=
  match value.filter fun v => !v.isEmpty with
  | some v => key ++ "=" ++ v ++ "\n"
  | none => ""

/-- An assignment of a value between double quotes; an empty value or none is left out. -/
def quotedLine (key : String) (value : Option String) : String :=
  match value.filter fun v => !v.isEmpty with
  | some v => key ++ "=\"" ++ v ++ "\"\n"
  | none => ""

/-- The text of the file. -/
def render (r : OsRelease) : String :=
  bareLine "ID" r.id ++ quotedLine "NAME" r.name ++ quotedLine "PRETTY_NAME" r.prettyName ++
    bareLine "VERSION_ID" r.versionId ++ quotedLine "HOME_URL" r.homeUrl ++
    quotedLine "BUG_REPORT_URL" r.bugReportUrl

end OsRelease

namespace OsInfo

/-- Whether a character may quote a value. -/
def isQuote (c : Char) : Bool := c = '"' || c = '\''

/-- Takes one line of the file into what is known. -/
def addLine (info : OsInfo) (line : List Char) : OsInfo :=
  match Text.splitFirst? '=' line with
  | none => info
  | some (key, value) =>
    let value := String.ofList (Text.trimBoth isQuote (Text.trim value))
    match String.ofList (Text.trim key) with
    | "ID" => { info with id := value }
    | "NAME" => { info with name := value }
    | "VERSION_ID" => { info with version := value }
    | _ => info

/-- Reads the text of the file; of two assignments to one key the later counts. -/
def parse (contents : String) : OsInfo := (Text.lines contents.toList).foldl addLine {}

end OsInfo

namespace Edit

/-- Writes the file unless there is one. -/
def writeOsRelease (r : OsRelease) : Edit Unit := do
  ask fun t =>
    if t.exists? OsRelease.location then .error (.osReleasePresent OsRelease.location) else .ok ()
  makeDirectories (.ofString "etc") 0o755
  change (·.writeFile OsRelease.location (Bytes.ofString r.render) 0o644)

end Edit

end ImageLayer
