import ImageLayer.Tree.Path
/-!
The file system of the host: directories that hold named nodes, and files apart from their names.

A directory lists its nodes in the order in which the host enumerates them, which means nothing. So what is made
of a directory must not depend on this order, and that can only be said if there is one. A new name comes last
(`HostNode.placeChild`).

A regular file is a number into a table, so that one file may stand under several names. Permissions and
contents belong to the file. Directories and links have theirs in place.

What is here is what a build reads and writes: names, links, contents, permissions and device numbers. Owners,
times and who may do what on the host are left out, as nothing that is written depends on them.
-/

namespace ImageLayer

/-- What stands under a name. -/
inductive HostNode where
  /-- A directory with its permissions. -/
  | directory (mode : Nat) (children : List (Name × HostNode))
  /-- The regular file with a number. -/
  | file (inode : Nat)
  /-- A symbolic link. -/
  | symlink (target : Path)
  /-- A character device with its permissions and its number. -/
  | charDevice (mode : Nat) (number : Nat)
  /-- Something that can be neither read nor written: a socket, a pipe or a block device. -/
  | other

instance : Inhabited HostNode := ⟨.other⟩

/-- A regular file of the host. -/
structure HostFile where
  /-- Its permissions. -/
  mode : Nat
  /-- Its contents. -/
  contents : Bytes
  deriving DecidableEq, Repr, Inhabited

/-- A place on the host: the names that lead to it from the root, without links. -/
abbrev Place := List Name

/-- The file system of the host, as one process sees it. -/
structure Host where
  /-- What stands at the root. -/
  root : HostNode
  /-- The regular files by number. -/
  files : List HostFile
  /-- Where relative paths start. -/
  workingDirectory : Place

namespace HostNode

/-- The node of a directory under a name. -/
def child? (n : Name) : List (Name × HostNode) → Option HostNode
  | [] => none
  | (n', node) :: rest => if n = n' then some node else child? n rest

/-- The nodes of a directory with `node` under a name; a new name comes last. -/
def placeChild (n : Name) (node : HostNode) : List (Name × HostNode) → List (Name × HostNode)
  | [] => [(n, node)]
  | (n', node') :: rest =>
    if n = n' then (n, node) :: rest else (n', node') :: placeChild n node rest

/-- The node at a place below a node. -/
def get? : HostNode → Place → Option HostNode
  | node, [] => some node
  | .directory _ children, n :: rest => (child? n children).bind (·.get? rest)
  | _, _ :: _ => none

/-- The node with another one at a place below it; nothing changes where no directory leads there. -/
def set : HostNode → Place → HostNode → HostNode
  | _, [], node => node
  | .directory mode children, n :: rest, node =>
    match child? n children, rest with
    | some c, _ => .directory mode (placeChild n (c.set rest node) children)
    | none, [] => .directory mode (placeChild n node children)
    | none, _ :: _ => .directory mode children
  | unchanged, _ :: _, _ => unchanged

end HostNode

namespace Host

/-- The node at a place. -/
def node? (h : Host) (l : Place) : Option HostNode := h.root.get? l

/-- The host with a node at a place. -/
def setNode (h : Host) (l : Place) (node : HostNode) : Host := { h with root := h.root.set l node }

/-- The working directory as a path. -/
def workingPath (h : Host) : Path := ⟨h.workingDirectory.flatMap fun n => 0x2F :: n⟩

/-- A host with nothing but an empty working directory of the given name. -/
def fresh (name : Name) : Host :=
  ⟨.directory 0o755 [(name, .directory 0o755 [])], [], [name]⟩

end Host

end ImageLayer
