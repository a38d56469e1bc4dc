import ImageLayer.Tree.Resolve
/-!
The operations on a tree.

Each operation takes a path as written, finds the location it leads to and reads or changes the entry there. An
operation that is refused leaves the tree as it was, but for making directories, which keeps those it made
before the refusal.

* Reading a file goes on at the source of a hard link for as long as there is one. Where hard links lead back to
  one of themselves, through symbolic links on the way, it never comes to an end. That is an outcome of its own
  and no failure (`NoResult.endless`), and no other operation has it.
* Making an entry asks for a vacant name in a directory (`Tree.insertNew`). Writing a file is the same where
  nothing is, and new contents where a file is. Making directories follows the whole path, also a symbolic link
  at its end.
* Permissions and ownership belong to a file under all its names: a change through one hard link reaches the
  file and every other link to it.

A computation on a tree (`Edit`) is a sequence of questions and changes. What it changed before it stopped is
kept.
-/

namespace ImageLayer

namespace Tree

/-! ## Reading -/

/-- Whether there is an entry at a path, the last part not followed. -/
def exists? (t : Tree) (p : Path) : Bool :=
  match t.locate? false p.parts with
  | some l => (t.get? l).isSome
  | none => false

/-- The entry at a path, the last part not followed. -/
def entryAt (t : Tree) (p : Path) : Except Failure Entry := do
  let l ← t.resolve p false
  match t.get? l with
  | some e => .ok e
  | none => .error (.tree p .notFound)

/-- What a path shows of a file. -/
inductive Reading where
  /-- It names the file itself, with these contents. -/
  | contents (bytes : Bytes)
  /-- It names a hard link, and the file is to be read at the source. -/
  | further (source : Path)

/-- What the entry that a path leads to shows of a file. -/
def readingAt (t : Tree) (p : Path) : Except Failure Reading := do
  let l ← t.resolve p true
  match (t.get? l).map Entry.kind with
  | some (.file contents) => .ok (.contents contents)
  | some (.hardlink source) => .ok (.further source)
  | some _ => .error (.tree p .notRegular)
  | none => .error (.tree p .notFound)

/-- The contents of the file at a path, seen through at most `links` hard links. -/
def readThrough (t : Tree) (links : Nat) (p : Path) : Except NoResult Bytes :=
  match t.readingAt p with
  | .ok (.contents contents) => .ok contents
  | .ok (.further source) =>
    match links with
    | 0 => .error .endless
    | links + 1 => t.readThrough links source
  | .error e => .error (.failure e)

/-- The contents of the file at a path. The root and the entries are all that can be a hard link,
so that more links in a row come back to one of them and go round for ever. -/
def contentsAt (t : Tree) (p : Path) : Except NoResult Bytes := t.readThrough (t.size + 1) p

/-- The entries from a location on up to the first that is not below it. -/
def scan (t : Tree) (l : Location) : List (Location × Entry) :=
  (t.walk.dropWhile fun e => compare e.1 l = .lt).takeWhile fun e => l.isPrefixOf e.1

/-- The name of a location directly in the directory `l`. -/
def childName? (l : Location) (child : Location) : Option Name :=
  if child.dropLast = l then
    match child.getLast? with
    | some (.name n) => some n
    | _ => none
  else none

/-- The names of the entries directly in a directory, in order. -/
def readDirectory (t : Tree) (p : Path) : Except Failure (List Name) := do
  let l ← t.resolve p true
  if t.isDirectoryAt l then .ok ((t.scan l).filterMap fun e => childName? l e.1)
  else .error (.tree p .notDirectory)

/-! ## Making entries -/

/-- Stores an entry at a new location. -/
def insertNew (t : Tree) (shown : Path) (parts : List Part) (e : Entry) : Except Failure Tree := do
  let l ← t.resolveNew shown parts
  if t.entries.contains l then .error (.tree shown .exists)
  else .ok (t.set l e)

/-- Makes a directory where `parts` lead to, unless there is one. -/
def ensureDirectory (t : Tree) (mode : Nat) (parts : Location) : Except Failure Tree :=
  match t.locate? true parts with
  | none => .error (.tree parts.path .tooManyLinks)
  | some l =>
    match t.get? l with
    | some e => if e.isDirectory then .ok t else .error (.tree parts.path .notDirectory)
    | none => .ok (t.set l (.directory mode))

/-- Writes a file: new contents for an existing one, and otherwise a new entry. -/
def writeFile (t : Tree) (p : Path) (contents : Bytes) (mode : Nat) : Except Failure Tree := do
  let l ← t.resolve p true
  match t.get? l with
  | some e =>
    match e.kind with
    | .file _ => .ok (t.set l { e with kind := .file contents })
    | _ => .error (.tree p .notRegular)
  | none => t.insertNew l.path l (.file contents mode)

/-- Makes a symbolic link at `link` to `target`. -/
def symlink (t : Tree) (target link : Path) : Except Failure Tree :=
  t.insertNew link link.parts (.symlink target)

/-- Makes a further name at `link` for the file at `source`. -/
def hardlink (t : Tree) (source link : Path) : Except Failure Tree := do
  let l ← t.resolve source true
  match t.get? l with
  | none => .error (.tree source .notFound)
  | some e =>
    if e.isFile then t.insertNew link link.parts { e with kind := .hardlink l.path }
    else .error (.tree source .sourceNotRegular)

/-- Makes a character device. -/
def makeDevice (t : Tree) (p : Path) (mode : Nat) (major minor : UInt32) : Except Failure Tree :=
  t.insertNew p p.parts (.ofKind (.charDevice major minor) mode)

/-! ## Permissions and ownership -/

/-- The location of the first name of what a path leads to. -/
def inodeOf (t : Tree) (p : Path) : Except Failure Location := do
  let l ← t.resolve p true
  match t.get? l with
  | none => .error (.tree p .notFound)
  | some e =>
    match e.kind with
    | .hardlink source =>
      match source.location? with
      | some l' => if (t.get? l').isSome then .ok l' else .error (.tree source .sourceMissing)
      | none => .error (.tree source .sourceMissing)
    | _ => .ok l

/-- Whether an entry is a further name of the file at a location. -/
def isLinkTo (l : Location) (e : Entry) : Bool :=
  match e.kind with
  | .hardlink source => source.location? = some l
  | _ => false

/-- Changes the entry at a location and every hard link to it. -/
def mapNames (t : Tree) (l : Location) (f : Entry → Entry) : Tree where
  root := if l = [] then f t.root else t.root
  entries := t.entries.mapWithKey fun k e => if k = l || isLinkTo l e then f e else e

/-- Sets the permissions of what a path leads to. -/
def chmod (t : Tree) (p : Path) (mode : Nat) : Except Failure Tree := do
  return t.mapNames (← t.inodeOf p) (.withMode mode)

/-- Sets the owner of what a path leads to. -/
def chown (t : Tree) (p : Path) (owner : Ownership) : Except Failure Tree := do
  return t.mapNames (← t.inodeOf p) (.withOwner owner)

end Tree

/-! ## Sequences of operations -/

/-- A computation that reads and changes a tree and may give no result; the changes made before
are kept. -/
abbrev Edit := EStateM NoResult Tree

namespace Edit

/-- A question to the tree. -/
def ask {α : Type} (f : Tree → Except Failure α) : Edit α := fun t =>
  match f t with
  | .ok a => .ok a t
  | .error e => .error (.failure e) t

/-- A question to the tree that reads a file, which may never come to an end. -/
def consult {α : Type} (f : Tree → Except NoResult α) : Edit α := fun t =>
  match f t with
  | .ok a => .ok a t
  | .error r => .error r t

/-- A change of the tree that happens wholly or not at all. -/
def change (f : Tree → Except Failure Tree) : Edit Unit := fun t =>
  match f t with
  | .ok t' => .ok () t'
  | .error e => .error (.failure e) t

/-- Says what was being done when a computation fails. -/
def inContext {α : Type} (context : Context) (x : Edit α) : Edit α := fun t =>
  match x t with
  | .ok a t' => .ok a t'
  | .error r t' => .error (r.within context) t'

/-- Makes directories for longer and longer beginnings of a path, of which `done` are made. -/
def ensureDirectories (mode : Nat) (done : Location) : List Part → Edit Unit
  | [] => pure ()
  | part :: rest => do
    change (·.ensureDirectory mode (done ++ [part]))
    ensureDirectories mode (done ++ [part]) rest

/-- Makes the directory at a path and all that lead to it; those that exist keep their mode. -/
def makeDirectories (p : Path) (mode : Nat) : Edit Unit := ensureDirectories mode [] p.parts

end Edit

/-- One operation that may change a tree. -/
inductive Operation where
  /-- See `Edit.makeDirectories`. -/
  | makeDirectories (path : Path) (mode : Nat)
  /-- See `Tree.writeFile`. -/
  | writeFile (path : Path) (contents : Bytes) (mode : Nat)
  /-- See `Tree.symlink`. -/
  | symlink (target link : Path)
  /-- See `Tree.hardlink`. -/
  | hardlink (source link : Path)
  /-- See `Tree.makeDevice`. -/
  | makeDevice (path : Path) (mode : Nat) (major minor : UInt32)
  /-- See `Tree.chmod`. -/
  | chmod (path : Path) (mode : Nat)
  /-- See `Tree.chown`. -/
  | chown (path : Path) (owner : Ownership)
  deriving DecidableEq, Repr

namespace Operation

/-- Performs an operation. -/
def run : Operation → Edit Unit
  | .makeDirectories path mode => Edit.makeDirectories path mode
  | .writeFile path contents mode => Edit.change (·.writeFile path contents mode)
  | .symlink target link => Edit.change (·.symlink target link)
  | .hardlink source link => Edit.change (·.hardlink source link)
  | .makeDevice path mode major minor => Edit.change (·.makeDevice path mode major minor)
  | .chmod path mode => Edit.change (·.chmod path mode)
  | .chown path owner => Edit.change (·.chown path owner)

/-- The tree after an operation, whether it succeeds or not. -/
def after (op : Operation) (t : Tree) : Tree :=
  match op.run t with
  | .ok _ t' => t'
  | .error _ t' => t'

end Operation

end ImageLayer
