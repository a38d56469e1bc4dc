import ImageLayer.Host.Walk
/-!
Reading and changing the files of the host.

Each operation is refused as the system refuses it, with the same answer (`HostFault`), and then nothing has
changed. New files and directories get the permissions that remain after the usual mask.

Making directories is the exception. It tries the innermost first, goes outwards as long as something is
missing, and comes back making one after the other, and a refusal on the way leaves those that were made. What
is there already is fine if it leads to a directory. The recursion is on the parts of the path, the last part
first (`HostEdit.makeDirectoriesTo`).

A name that is to be new must not be taken, not even by a symbolic link that leads nowhere (`Host.newPlace`),
whereas writing a file follows a link at the end and makes the file behind it.
-/

namespace ImageLayer

namespace Host

/-! ## Reading -/

/-- Whether a path leads to a directory. -/
def isDirectory (h : Host) (p : Path) : Bool :=
  match h.node .target p with
  | .ok (.directory ..) => true
  | _ => false

/-- Whether a path leads to something. -/
def exists? (h : Host) (p : Path) : Bool := (h.node .target p).toOption.isSome

/-- Whether a path names a symbolic link. -/
def isSymlink (h : Host) (p : Path) : Bool :=
  match h.node .entry p with
  | .ok (.symlink _) => true
  | _ => false

/-- The file with a number. -/
def file (h : Host) (inode : Nat) : HostFile := h.files.getD inode default

/-- The regular file that a path leads to. -/
def regularFile (h : Host) (p : Path) : Except HostFault HostFile := do
  match ← h.node .target p with
  | .file inode => .ok (h.file inode)
  | .directory .. => .error .isDirectory
  | _ => .error .noDevice

/-- The contents of the file that a path leads to. -/
def contentsAt (h : Host) (p : Path) : Except HostFault Bytes := return (← h.regularFile p).contents

/-- The contents of the file that a path leads to as text. -/
def readText (h : Host) (p : Path) : Except HostFault String := do
  match Utf8.decode? (← h.contentsAt p) with
  | some text => .ok text
  | none => .error .notText

/-! ## Changing -/

/-- Stores a file under its number. -/
def setFile (h : Host) (inode : Nat) (f : HostFile) : Host :=
  { h with files := h.files.set inode f }

/-- Writes a file: new contents for one that exists, and otherwise a new file. -/
def writeFile (h : Host) (p : Path) (contents : Bytes) : Except HostFault Host := do
  match ← h.walk .writing p with
  | .existing l =>
    match h.node? l with
    | some (.file inode) => .ok (h.setFile inode { h.file inode with contents := contents })
    | some (.directory ..) => .error .isDirectory
    | _ => .error .noDevice
  | .missing parent n =>
    let files := h.files ++ [⟨0o644, contents⟩]
    .ok ({ h with files := files }.setNode (parent ++ [n]) (.file h.files.length))

/-- The pieces before the last one, a slash at the end not counted. -/
def leadingPieces (pieces : List Piece) : List Piece :=
  if pieces.getLast? = some .slash then pieces.dropLast.dropLast else pieces.dropLast

/-- The name that a path ends in, a slash behind it not counted. -/
def lastName? (pieces : List Piece) : Option Name :=
  match pieces.reverse with
  | .name n :: _ | .slash :: .name n :: _ => some n
  | _ => none

/-- The place where a path lets something new be made. The directory above has to exist, and nothing
may stand under the name; a slash behind the name is fine where a directory is made. -/
def newPlace (h : Host) (ofDirectory : Bool) (p : Path) : Except HostFault Place := do
  let pieces := piecesOf p
  let found ← h.walkPieces .target p (leadingPieces pieces ++ [.stay])
  match found, lastName? pieces with
  | .existing parent, some n =>
    if maxName < n.length then .error .nameTooLong
    else if (h.node? (parent ++ [n])).isSome then .error .exists
    else if pieces.getLast? = some .slash ∧ ¬ ofDirectory then .error .notFound
    else .ok (parent ++ [n])
  | .existing _, none => .error .exists
  | .missing .., _ => .error .notFound

/-- Stores a node at a new place. -/
def makeNode (h : Host) (p : Path) (node : HostNode) : Except HostFault Host :=
  return h.setNode (← h.newPlace false p) node

/-- Makes a symbolic link. Its target is not walked, but has to be a path. -/
def makeSymlink (h : Host) (target p : Path) : Except HostFault Host :=
  match refusal? target with
  | some fault => .error fault
  | none => h.makeNode p (.symlink target)

/-- Makes one directory. -/
def makeDirectory (h : Host) (p : Path) : Except HostFault Host :=
  return h.setNode (← h.newPlace true p) (.directory 0o755 [])

/-- Makes a further name for what a path names, if that is no directory. -/
def makeHardlink (h : Host) (source p : Path) : Except HostFault Host := do
  let node ← h.node .entry source
  let l ← h.newPlace false p
  match node with
  | .directory .. => .error .notPermitted
  | node => .ok (h.setNode l node)

/-- Sets the permissions of what a path leads to. -/
def setMode (h : Host) (p : Path) (mode : Nat) : Except HostFault Host := do
  let l ← h.place .target p
  match h.node? l with
  | some (.directory _ children) => .ok (h.setNode l (.directory mode children))
  | some (.file inode) => .ok (h.setFile inode { h.file inode with mode := mode })
  | some (.charDevice _ number) => .ok (h.setNode l (.charDevice mode number))
  | _ => .ok h

end Host

/-- A computation that changes the host and may fail; a failure keeps the changes made before it. -/
abbrev HostEdit := EStateM HostFault Host

namespace HostEdit

/-- A change of the host that happens wholly or not at all. -/
def change (f : Host → Except HostFault Host) : HostEdit Unit := fun h =>
  match f h with
  | .ok h' => .ok () h'
  | .error e => .error e h

/-- Makes a directory; a refusal is fine where the path leads to a directory, and where something on
the way is missing `above` is made first. -/
def makeDirectoryAfter (p : Path) (above : HostEdit Unit) : HostEdit Unit := fun h =>
  match h.makeDirectory p with
  | .ok h' => .ok () h'
  | .error .notFound =>
    match above h with
    | .error e h' => .error e h'
    | .ok _ h' =>
      match h'.makeDirectory p with
      | .ok h'' => .ok () h''
      | .error e => if h'.isDirectory p then .ok () h' else .error e h'
  | .error e => if h.isDirectory p then .ok () h else .error e h

/-- The path with a lead and parts, the last part first. -/
def pathOf (lead : Lead) (reversed : List Part) : Path :=
  let below := Location.path reversed.reverse
  match lead with
  | .root => ⟨0x2F :: below.bytes⟩
  | .dot => ⟨0x2E :: 0x2F :: below.bytes⟩
  | .plain => below

/-- Makes the directories that lead to a path given by its lead and its parts, the last part
first. -/
def makeDirectoriesTo (lead : Lead) : (reversed : List Part) → HostEdit Unit
  | [] => pure ()
  | part :: above =>
    makeDirectoryAfter (pathOf lead (part :: above)) (makeDirectoriesTo lead above)

/-- Makes the directory at a path and all that lead to it. -/
def makeDirectories (p : Path) : HostEdit Unit :=
  if p.bytes = [] then pure ()
  else makeDirectoryAfter p (makeDirectoriesTo p.lead p.parts.reverse.tail)

end HostEdit

end ImageLayer
