import ImageLayer.Tree.Operation
import ImageLayer.Image.Configuration
/-!
Applying declared changes to paths, in the order in which they are declared.

A change makes a directory, an empty file, a hard link or a symbolic link, or only sets permissions and owner.
All but symbolic links get the permissions and the owner that are declared. Links need something that they are
made to, and are refused without it (`Failure.sourceRequired`).

A change that is recursive reaches everything below a directory but for what lies behind symbolic links, so that
it never leaves the directory. It goes down directory by directory, by the names that each of them lists, and
looks at each entry under its own path.

The way down is bounded by the number of entries in the tree. Nothing lies deeper than that, since every
directory on the way is an entry of its own, so that the bound is never reached. It is there for the recursion,
and one that did reach it would count as never coming to an end.
-/

namespace ImageLayer.Edit

/-- What a change makes a link to; it must be declared. -/
def requireTarget (c : PathChange) : Edit Path := ask fun _ =>
  match c.target? with
  | some target => .ok (.ofString target)
  | none => .error (.sourceRequired c.kind.label)

/-- Sets permissions and owner of a path as a change declares them. -/
def setAttributes (p : Path) (c : PathChange) : Edit Unit := do
  change (·.chmod p c.permissions)
  change (·.chown p c.owner)

/-- Sets permissions and owner of everything below a directory; a way down of `depth` directories or
more counts as one without an end. -/
def setAttributesBelow (c : PathChange) : (depth : Nat) → Path → Edit Unit
  | 0, _ => throw .endless
  | depth + 1, directory => do
    let names ← ask (·.readDirectory directory)
    names.forM fun name => do
      let child := directory.join ⟨name⟩
      let e ← ask (·.entryAt child)
      if e.isSymlink then pure ()
      else do
        setAttributes child c
        if e.isDirectory then setAttributesBelow c depth child else pure ()

/-- What a change does to its path alone. -/
def applyToPath (c : PathChange) (p : Path) : Edit Unit :=
  match c.kind with
  | .directory => do
    makeDirectories p c.permissions
    setAttributes p c
  | .emptyFile => do
    change (·.writeFile p [] c.permissions)
    setAttributes p c
  | .hardlink => do
    let source ← requireTarget c
    change (·.hardlink source p)
    setAttributes p c
  | .symlink => do
    let target ← requireTarget c
    change (·.symlink target p)
  | .permissions => setAttributes p c

/-- Applies a change. Nothing lies deeper below a path than there are entries. -/
def applyChange (c : PathChange) : Edit Unit := do
  let p := Path.ofString c.path
  applyToPath c p
  if c.recursive then
    let e ← ask (·.entryAt p)
    if e.isDirectory then setAttributesBelow c ((← get).size + 1) p else pure ()
  else pure ()

/-- Applies changes in order. -/
def applyChanges (changes : List PathChange) : Edit Unit :=
  changes.forM fun c => inContext (.pathChange c.path) (applyChange c)

end ImageLayer.Edit
