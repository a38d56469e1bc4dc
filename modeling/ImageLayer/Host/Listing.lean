import ImageLayer.Host.Operation
import ImageLayer.Text.Blank
import ImageLayer.Text.Numeral
/-!
Listings of what is on a host.

A listing says entry by entry how to make a host's files, in an order in which that works. In its written form
every entry is a line of fields between tabs: the kind, the path and what the kind needs. Permissions are octal
and contents are hexadecimal.

This is how the program gets to know the files it works on. It never reads the host itself: what it is told is
the host, and what it would write is an output. So a run is a function of its words, one variable of the
environment and the listing.

A listing that cannot be carried out is refused as a whole, with what the host answers to the entry that it
refuses.
-/

namespace ImageLayer

/-- An entry of a listing. -/
inductive ListedEntry where
  /-- A directory, with those that lead to it. -/
  | directory (path : Path) (mode : Nat)
  /-- A regular file. -/
  | file (path : Path) (contents : Bytes) (mode : Nat)
  /-- A symbolic link. -/
  | symlink (target path : Path)
  /-- A further name of a file. -/
  | hardlink (source path : Path)
  /-- A character device. -/
  | charDevice (path : Path) (mode number : Nat)
  /-- Something that can be neither read nor written. -/
  | other (path : Path)
  deriving DecidableEq, Repr

namespace ListedEntry

/-- Makes an entry on a host. -/
def make : ListedEntry → HostEdit Unit
  | .directory p mode => do
    HostEdit.makeDirectories p
    HostEdit.change (·.setMode p mode)
  | .file p contents mode => do
    HostEdit.change (·.writeFile p contents)
    HostEdit.change (·.setMode p mode)
  | .symlink target p => HostEdit.change (·.makeSymlink target p)
  | .hardlink source p => HostEdit.change (·.makeHardlink source p)
  | .charDevice p mode number => HostEdit.change (·.makeNode p (.charDevice mode number))
  | .other p => HostEdit.change (·.makeNode p .other)

/-- Permissions in octal digits. -/
def mode? (field : List Char) : Option Nat := (Numeral.natural 8 0o7777 field).toOption

/-- A path as a field. -/
def pathOf (field : List Char) : Path := .ofString (String.ofList field)

/-- The entry that the fields of a line mean. -/
def ofFields? : List (List Char) → Option ListedEntry
  | [kind, p, detail] =>
    match String.ofList kind with
    | "directory" => (mode? detail).map (.directory (pathOf p))
    | "symlink" => some (.symlink (pathOf detail) (pathOf p))
    | "hardlink" => some (.hardlink (pathOf detail) (pathOf p))
    | _ => none
  | [kind, p, mode, detail] =>
    match String.ofList kind with
    | "file" => do return .file (pathOf p) (← Bytes.ofHex? detail) (← mode? mode)
    | "device" => do
      return .charDevice (pathOf p) (← mode? mode)
        (← (Numeral.natural 10 0xFFFFFFFFFFFFFFFF detail).toOption)
    | _ => none
  | [kind, p] => if String.ofList kind = "other" then some (.other (pathOf p)) else none
  | _ => none

end ListedEntry

/-- The entries of a listing in its written form. -/
def readListing? (text : String) : Option (List ListedEntry) :=
  ((Text.lines text.toList).filter fun line => !line.isEmpty).mapM fun line =>
    ListedEntry.ofFields? (Text.splitAt '\t' line)

/-- The host with the entries of a listing. -/
def Host.addListed (h : Host) (entries : List ListedEntry) : Except HostFault Host :=
  match (entries.forM ListedEntry.make : HostEdit Unit) h with
  | .ok _ h => .ok h
  | .error e _ => .error e

end ImageLayer
