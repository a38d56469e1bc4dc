import ImageLayer.Tree.Basic
import ImageLayer.Archive.Header
import ImageLayer.Archive.MemberName
/-!
The entries of a tree as members of an archive.

A member is its header and its contents, filled up with zero bytes to whole blocks. A path or a link path that
does not fit into the header is written in full as the contents of a member of its own in front, and the header
keeps as much of it as it can. The archive ends with two blocks of zeros.

Two things are left out of an archive: the root, which has no name, and times of entries, in place of which all
members have the one that the build is given. So equal trees make equal archives.

An entry may be impossible to write, for instance one that has a zero byte in a path. The archive then holds the
entries before it and still ends properly (`Archive.ofTree`), and the fault is told besides.
-/

namespace ImageLayer.Archive

/-- Contents filled up with zero bytes to whole blocks. -/
def filled (contents : Bytes) : Bytes :=
  contents ++ List.replicate ((512 - contents.length % 512) % 512) 0

/-- The member that holds a path in full for the member after it. -/
def longName (type : MemberType) (path : Bytes) : Bytes :=
  let name := Bytes.fit MemberName.capacity (Bytes.ofString "././@LongLink")
  let header : Header := ⟨name, 0o644, 0, 0, path.length + 1, 0, type, List.replicate 100 0, none⟩
  header.block ++ filled (path ++ [0])

/-- Bytes of an archive, and the fault that ended the writing. -/
abbrev Written := Bytes × Option ArchiveFault

/-- The path field of a header: what has to be written in front of the member, and either the field or
the fault. -/
def pathField (p : Path) : Bytes × Except ArchiveFault Bytes :=
  let (field, fault) := MemberName.write .member p (List.replicate MemberName.capacity 0)
  match fault with
  | none => ([], .ok field)
  | some fault =>
    if p.bytes.length < MemberName.capacity then
      ([], .error (.name p fault .path (MemberName.shown field)))
    else
      let beginning : Path := ⟨Utf8.wellFormedPart (p.bytes.take MemberName.capacity)⟩
      let (field, fault) := MemberName.write .beginning beginning field
      match fault with
      | none => (longName .longPath p.bytes, .ok field)
      | some fault =>
        (longName .longPath p.bytes, .error (.name p fault .path (MemberName.shown field)))

/-- The link field of a header: what has to be written in front of the member, and either the field or
the fault. A path without room is left in the field as far as it was written. -/
def linkField (p target : Path) (name : Bytes) : Bytes × Except ArchiveFault Bytes :=
  let (field, fault) := MemberName.write .link target (List.replicate MemberName.capacity 0)
  match fault with
  | none => ([], .ok field)
  | some fault =>
    if target.bytes.length < MemberName.capacity then
      ([], .error (.name p fault .linkName (MemberName.shown name)))
    else (longName .longLink target.bytes, .ok field)

/-- The type of the member for an entry. -/
def memberType : EntryKind → MemberType
  | .directory => .directory
  | .file _ => .file
  | .symlink _ => .symlink
  | .hardlink _ => .hardlink
  | .charDevice .. => .charDevice

/-- The contents of the member for an entry. -/
def memberContents : EntryKind → Bytes
  | .file contents => contents
  | _ => []

/-- The link path of the member for an entry. -/
def linkTarget? : EntryKind → Option Path
  | .symlink target => some target
  | .hardlink source => some source
  | _ => none

/-- The device numbers of the member for an entry. -/
def deviceNumbers? : EntryKind → Option (Nat × Nat)
  | .charDevice major minor => some (major.toNat, minor.toNat)
  | _ => none

/-- The header of the member for an entry with given name fields. -/
def headerOf (time : Nat) (e : Entry) (name linkName : Bytes) : Header where
  name := name
  mode := e.mode
  uid := e.ownership.uid.toNat
  gid := e.ownership.gid.toNat
  size := (memberContents e.kind).length
  time := time
  type := memberType e.kind
  linkName := linkName
  device := deviceNumbers? e.kind

/-- The member for an entry with given name fields. -/
def memberBlocks (time : Nat) (e : Entry) (name linkName : Bytes) : Bytes :=
  (headerOf time e name linkName).block ++ filled (memberContents e.kind)

/-- What is written for an entry. -/
def writeEntry (time : Nat) (l : Location) (e : Entry) : Written :=
  match pathField l.path with
  | (front, .error fault) => (front, some fault)
  | (front, .ok name) =>
    match linkTarget? e.kind with
    | none => (front ++ memberBlocks time e name (List.replicate MemberName.capacity 0), none)
    | some target =>
      match linkField l.path target name with
      | (front', .error fault) => (front ++ front', some fault)
      | (front', .ok linkName) => (front ++ front' ++ memberBlocks time e name linkName, none)

/-- What is written for entries in order, up to the first fault. -/
def writeEntries (time : Nat) : List (Location × Entry) → Written
  | [] => ([], none)
  | (l, e) :: rest =>
    match writeEntry time l e with
    | (bytes, some fault) => (bytes, some fault)
    | (bytes, none) =>
      let (more, fault) := writeEntries time rest
      (bytes ++ more, fault)

/-- The end of an archive. -/
def ending : Bytes := List.replicate 1024 0

/-- The archive of a tree whose members were all changed at one second, the start of 1970 at the
earliest. After a fault the archive holds the entries before it. -/
def ofTree (sourceDate : Int) (t : Tree) : Written :=
  let (bytes, fault) := writeEntries sourceDate.toNat t.walk
  (bytes ++ ending, fault)

end ImageLayer.Archive
