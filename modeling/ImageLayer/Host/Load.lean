import ImageLayer.Host.Operation
import ImageLayer.Tree.Operation
/-!
Loading a directory of the host as a tree.

Directories are walked in the order of names, whatever the order in which the host enumerates them, and links
are not followed. Of a file under several names the first one met is the file and the others are hard links to
it. As names are met in the order of locations, the file stands before its links in the tree as well.

What is taken over is what a layer can hold: directories, files, symbolic links and character devices, with
their permissions. Owners are not taken over, since a tree is unpacked by whoever builds the image, and what
else there is on a host is passed over.

The host gives a device by one number, in which both of its numbers lie in two pieces each (`splitDevice`).
`makeDeviceNumber` puts them together again. It is not needed for loading, and says what the number means.
-/

namespace ImageLayer

namespace HostNode

/-- Puts a node into a list in the order of names. -/
def insertByName (n : Name) (node : HostNode) :
    List (Name × HostNode) → List (Name × HostNode)
  | [] => [(n, node)]
  | (n', node') :: rest =>
    if (compare n n').isLE then (n, node) :: (n', node') :: rest
    else (n', node') :: insertByName n node rest

mutual

/-- The node with every directory in the order of names. -/
def sorted : HostNode → HostNode
  | .directory mode children => .directory mode (sortedChildren children)
  | node => node

/-- Nodes in the order of names, and so is every directory below. -/
def sortedChildren : List (Name × HostNode) → List (Name × HostNode)
  | [] => []
  | (n, node) :: rest => insertByName n node.sorted (sortedChildren rest)

end

end HostNode

/-- The two numbers that a device number is made of. The first has twelve bits from bit eight on and
the rest from bit forty-four on, the second eight bits at the start and the rest from bit twenty on. -/
def splitDevice (number : UInt64) : UInt32 × UInt32 :=
  let low : UInt64 := 0xff
  let middle : UInt64 := 0xfff
  (((number >>> 8 &&& middle) ||| (number >>> 32 &&& ~~~middle)).toUInt32,
    ((number &&& low) ||| (number >>> 12 &&& ~~~low)).toUInt32)

/-- The device number made of two numbers. -/
def makeDeviceNumber (major minor : UInt32) : UInt64 :=
  let low : UInt64 := 0xff
  let middle : UInt64 := 0xfff
  let major := major.toUInt64
  let minor := minor.toUInt64
  ((major &&& middle) <<< 8) ||| ((major &&& ~~~middle) <<< 32) ||| (minor &&& low) |||
    ((minor &&& ~~~low) <<< 12)

/-- A tree that is being loaded, and where files that were met are in it. -/
structure Loading where
  /-- The tree so far. -/
  tree : Tree
  /-- The location of every file met, by number. -/
  met : List (Nat × Location)

namespace Loading

/-- Adds an entry without owner. -/
def add (s : Loading) (l : Location) (kind : EntryKind) (mode : Nat) : Loading :=
  { s with tree := s.tree.set l (.ofKind kind mode) }

/-- Adds a regular file, or a hard link if it was met before. -/
def addFile (s : Loading) (l : Location) (inode : Nat) (f : HostFile) : Loading :=
  match s.met.lookup inode with
  | some first => s.add l (.hardlink first.path) f.mode
  | none => { s.add l (.file f.contents) f.mode with met := (inode, l) :: s.met }

mutual

/-- Adds a node at a location, and everything below it. -/
def addNode (files : List HostFile) (l : Location) : HostNode → Loading → Loading
  | .directory mode children, s => addChildren files l children (s.add l .directory mode)
  | .file inode, s => s.addFile l inode (files.getD inode default)
  | .symlink target, s => s.add l (.symlink target) 0o777
  | .charDevice mode number, s =>
    let (major, minor) := splitDevice (UInt64.ofNat number)
    s.add l (.charDevice major minor) mode
  | .other, s => s

/-- Adds the nodes of the directory at a location. -/
def addChildren (files : List HostFile) (l : Location) :
    List (Name × HostNode) → Loading → Loading
  | [], s => s
  | (n, node) :: rest, s => addChildren files l rest (addNode files (l ++ [.name n]) node s)

end

end Loading

/-- The tree of the nodes of a directory. -/
def Tree.ofChildren (files : List HostFile) (children : List (Name × HostNode)) : Tree :=
  (Loading.addChildren files [] (HostNode.sortedChildren children) ⟨.empty, []⟩).tree

/-- Loads the directory that a path names; a symbolic link to one is refused. -/
def Host.loadTree (h : Host) (p : Path) : Except Failure Tree :=
  match h.node .entry p with
  | .error fault => .error (.rootfs p (.host fault))
  | .ok (.directory _ children) => .ok (.ofChildren h.files children)
  | .ok _ => .error (.rootfs p .notDirectory)

end ImageLayer
