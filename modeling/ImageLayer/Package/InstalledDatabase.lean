import ImageLayer.Package.Basic
import ImageLayer.Text.Base64
import ImageLayer.Failure
/-!
The database of installed packages.

The database is text. A record stands for one package and ends at a blank line; each of its lines is a key of
one character, a colon and a value.

* Lines with a scalar value set one field of the package. The last one counts.
* `F` opens a directory and `R` names a file in the directory opened last.
* `M` and `a` give owner and permissions for the path named last, the first if that is a directory and the
  second if it is a file. Elsewhere they say nothing.
* Lines with other keys are passed over, but need the same form.

A line without a key and a colon, and a value that cannot be read, refuse the database as a whole. The failure
names the line. Any one character is taken as a key, not only letters.

Reading goes through the lines with the record that is open (`readLines`). One is opened by the first line of
any kind that is not blank, so that blank lines in a row make no records.
-/

namespace ImageLayer.InstalledDatabase

/-- Where a tree keeps its database. -/
def location : Path := .ofString "lib/apk/db/installed"

/-- The key and the value of a line. -/
def splitLine (line : List Char) : Except Failure (Char × List Char) :=
  match line with
  | key :: ':' :: value => .ok (key, value)
  | _ => .error (.lineWithoutKey (String.ofList line))

/-- A checksum: base 64 behind the mark `Q1`, hexadecimal otherwise. -/
def readChecksum (value : List Char) : Except Failure Bytes :=
  match value with
  | 'Q' :: '1' :: digits =>
    match Base64.decode? digits with
    | some bytes => .ok bytes
    | none => .error .base64
  | _ =>
    match Bytes.ofHex? value with
    | some bytes => .ok bytes
    | none => .error .hexadecimal

/-- A number of 32 bits in a given base. -/
def readWord (base : Nat) (digits : List Char) : Except Failure Nat :=
  (Numeral.natural base Numeral.maxWord digits).mapError .numeral

/-- Owner and permissions: user and group in decimal and the mode in octal, with colons between. -/
def readAttributes (value : List Char) : Except Failure PathAttributes :=
  match Text.splitFirst? ':' value with
  | none => .error (.attributesIncomplete (String.ofList value))
  | some (uid, rest) =>
    match Text.splitFirst? ':' rest with
    | none => .error (.attributesIncomplete (String.ofList value))
    | some (gid, mode) => do
      let uid ← readWord 10 uid
      let gid ← readWord 10 gid
      let mode ← readWord 8 mode
      return ⟨⟨UInt32.ofNat uid, UInt32.ofNat gid⟩, mode⟩

/-- A record that is being read, and the directory that its files are in. -/
structure Record where
  /-- The package as far as it is known. -/
  installed : InstalledPackage
  /-- The directory opened last. -/
  directory : Path

namespace Record

/-- The record before its first line. -/
def empty : Record := ⟨{}, ⟨[]⟩⟩

/-- Changes the package of a record. -/
def mapPackage (r : Record) (f : Package → Package) : Record :=
  { r with installed := { r.installed with package := f r.installed.package } }

/-- Adds a path to a record. -/
def addPath (r : Record) (p : InstalledPath) : Record :=
  { r with installed := { r.installed with paths := r.installed.paths ++ [p] } }

/-- Gives attributes to the path named last, if it is a directory or not as expected. -/
def attach (r : Record) (isDirectory : Bool) (a : PathAttributes) : Record :=
  match r.installed.paths.getLast? with
  | some p =>
    if p.isDirectory = isDirectory then
      let paths := r.installed.paths.dropLast ++ [{ p with attributes := some a }]
      { r with installed := { r.installed with paths := paths } }
    else r
  | none => r

/-- Takes line number `line` into a record. -/
def addLine (r : Record) (line : Nat) (key : Char) (value : List Char) : Except Failure Record :=
  let text := String.ofList value
  let path := Path.ofString text
  match key with
  | 'P' => .ok (r.mapPackage ({ · with name := text }))
  | 'V' => .ok (r.mapPackage ({ · with version := text }))
  | 'A' => .ok (r.mapPackage ({ · with architecture := text }))
  | 'L' => .ok (r.mapPackage ({ · with license := text }))
  | 'm' => .ok (r.mapPackage ({ · with maintainer := text }))
  | 'T' => .ok (r.mapPackage ({ · with description := text }))
  | 'U' => .ok (r.mapPackage ({ · with url := text }))
  | 'o' => .ok (r.mapPackage ({ · with origin := text }))
  | 'C' => do
    let checksum ← inContext (.databaseChecksum line) (readChecksum value)
    return r.mapPackage ({ · with checksum := checksum })
  | 'F' => .ok ({ r with directory := path }.addPath ⟨path, true, none⟩)
  | 'R' => .ok (r.addPath ⟨r.directory.join path, false, none⟩)
  | 'M' => do
    let a ← inContext (.databaseAttributes line) (readAttributes value)
    return r.attach true a
  | 'a' => do
    let a ← inContext (.databaseAttributes line) (readAttributes value)
    return r.attach false a
  | _ => .ok r

end Record

/-- Whether a line ends a record. -/
def isBlankLine (line : List Char) : Bool := line.all Text.isBlank

/-- Reads lines from number `line` on into the records they make up; `current` is the one that is
open. -/
def readLines (line : Nat) (current : Option Record) :
    List (List Char) → Except Failure (List InstalledPackage)
  | [] => .ok (current.map Record.installed).toList
  | text :: rest =>
    if isBlankLine text then do
      let more ← readLines (line + 1) none rest
      return (current.map Record.installed).toList ++ more
    else do
      let (key, value) ← inContext (.databaseLine line) (splitLine text)
      let record ← (current.getD .empty).addLine line key value
      readLines (line + 1) (some record) rest

/-- The packages that a database records, in order. -/
def parse (contents : String) : Except Failure (List InstalledPackage) :=
  readLines 1 none (Text.lines contents.toList)

end ImageLayer.InstalledDatabase
