import ImageLayer.Tree.Path
/-!
The file tree of a layer: its root and its entries by location.

The tree is flat: an entry is found under the whole list of parts that leads to it, and nothing in the type says
that its parent is a directory. So there are trees in which an entry stands below a file or below nothing.
Operations can make such trees, by way of symbolic links, and a tree that is closed in this sense has to be
spoken of as such. Listing the entries in the order of their locations lists every directory before what is
below it.

Permissions are kept with their twelve bits (`permissionBits`), and whatever stores a mode takes the others
away. An owner is optional: an entry has none until one is set, and archives then record the user and the group
with the number zero.

A hard link is an entry of its own, with the path of the file it stands for and with a copy of the file's
permissions and owner. Which entries are names of one file is therefore a matter of paths.

The root is kept apart from the entries. It has no name and is never listed, and what is asked of a location
answers for the root at the empty one.
-/

namespace ImageLayer

/-- The numbers of the user and the group that own an entry. -/
structure Ownership where
  /-- The user. -/
  uid : UInt32
  /-- The group. -/
  gid : UInt32
  deriving DecidableEq, Repr

/-- What an entry is. -/
inductive EntryKind where
  /-- A directory. -/
  | directory
  /-- A regular file with its contents. -/
  | file (contents : Bytes)
  /-- A symbolic link with its target as written. -/
  | symlink (target : Path)
  /-- A further name of the file at a location, which is written as a path from the root. -/
  | hardlink (source : Path)
  /-- A character device. -/
  | charDevice (major minor : UInt32)
  deriving DecidableEq, Repr

/-- The bits of a mode that are permissions. -/
def permissionBits (mode : Nat) : Nat := mode % 4096

/-- One entry of a tree. -/
structure Entry where
  /-- What the entry is. -/
  kind : EntryKind
  /-- Its permissions. -/
  mode : Nat
  /-- Its owner, if one was set; archives record the superuser otherwise. -/
  owner : Option Ownership
  deriving DecidableEq, Repr

namespace Entry

/-- An entry of a kind, with the permission bits of a mode and no owner. -/
def ofKind (kind : EntryKind) (mode : Nat) : Entry := ⟨kind, permissionBits mode, none⟩

/-- A directory. -/
def directory (mode : Nat) : Entry := ofKind .directory mode

/-- A regular file. -/
def file (contents : Bytes) (mode : Nat) : Entry := ofKind (.file contents) mode

/-- A symbolic link, whose permissions are never restricted. -/
def symlink (target : Path) : Entry := ofKind (.symlink target) 0o777

/-- Whether the entry is a directory. -/
def isDirectory (e : Entry) : Bool := e.kind matches .directory

/-- Whether the entry is a regular file under its first name. -/
def isFile (e : Entry) : Bool := e.kind matches .file _

/-- Whether the entry is a symbolic link. -/
def isSymlink (e : Entry) : Bool := e.kind matches .symlink _

/-- The owner that archives record. -/
def ownership (e : Entry) : Ownership := e.owner.getD ⟨0, 0⟩

/-- The entry with the permission bits of a mode. -/
def withMode (mode : Nat) (e : Entry) : Entry := { e with mode := permissionBits mode }

/-- The entry with an owner. -/
def withOwner (owner : Ownership) (e : Entry) : Entry := { e with owner := some owner }

end Entry

/-- A file tree. -/
structure Tree where
  /-- The entry at the root itself. -/
  root : Entry
  /-- The entries below the root. -/
  entries : SortedMap Location Entry
  deriving DecidableEq

namespace Tree

/-- The tree that holds nothing but its root. -/
def empty : Tree := ⟨.directory 0o755, .empty⟩

instance : Inhabited Tree := ⟨empty⟩

/-- The entry at a location, the root's at the empty one. -/
def get? (t : Tree) (l : Location) : Option Entry :=
  if l = [] then some t.root else t.entries.get? l

/-- Stores an entry at a location, instead of the one that is there. -/
def set (t : Tree) (l : Location) (e : Entry) : Tree :=
  if l = [] then { t with root := e } else { t with entries := t.entries.insert l e }

/-- Stores an entry at the location that a path spells out, as written: nothing is resolved and
no parent is asked for. -/
def insert (t : Tree) (p : Path) (e : Entry) : Tree := t.set p.parts e

/-- The entries in the order of their locations. -/
def walk (t : Tree) : List (Location × Entry) := t.entries.toList

/-- The number of entries below the root. -/
def size (t : Tree) : Nat := t.entries.size

/-- Whether a location is the root or holds a directory. -/
def isDirectoryAt (t : Tree) (l : Location) : Bool :=
  l = [] || (t.entries.get? l).any Entry.isDirectory

/-- The target of the symbolic link at a location below the root. -/
def linkAt (t : Tree) (l : Location) : Option Path :=
  match (t.entries.get? l).map Entry.kind with
  | some (.symlink target) => some target
  | _ => none

end Tree

end ImageLayer
