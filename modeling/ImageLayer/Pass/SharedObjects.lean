import ImageLayer.Tree.Operation
import ImageLayer.Elf.Soname
import ImageLayer.Text.Blank
/-!
Links that make shared objects found under their sonames.

In each library directory a regular file with `.so` in its name may be a shared object that wants to be found
under another name. A link of that name is made to it unless the name is taken.

All files of a directory are read before the first link is made, so that links that were made just now are not
taken for shared objects. Hard links are read like the files they stand for; symbolic links are not followed. A
file that is no shared object, or one without a soname, is passed over, but a file that cannot be read is a
failure.

The soname is joined to the directory as it stands in the file, whatever it says.
-/

namespace ImageLayer

namespace SharedObject

/-- The library directories, in order. -/
def directories : List Path := [.ofString "lib", .ofString "usr/lib"]

/-- Whether a file of this name may be a shared object. -/
def isCandidate (name : String) : Bool := Text.occursIn ".so".toList name.toList

/-- Whether an entry has contents that may be those of a shared object. -/
def hasContents (e : Entry) : Bool :=
  match e.kind with
  | .file _ | .hardlink _ => true
  | _ => false

/-- What contents want to be called, if it is not their name. -/
def otherName? (name : String) (contents : Bytes) : Option String :=
  (Elf.soname? contents).filter (· ≠ name)

end SharedObject

namespace Edit

/-- The soname of one file in a directory, together with its name, if the two differ. -/
def sonameIn (directory : Path) (name : Name) : Edit (Option (String × String)) := do
  match Utf8.decode? name with
  | none => return none
  | some text =>
    if !SharedObject.isCandidate text then return none
    let p := directory.join ⟨name⟩
    let e ← ask (·.entryAt p)
    if !SharedObject.hasContents e then return none
    let contents ← inContext (.read p) (consult (·.contentsAt p))
    return (SharedObject.otherName? text contents).map fun soname => (soname, text)

/-- Links a file under its soname unless the name is taken; says how many links were made. -/
def linkSoname (directory : Path) (soname name : String) : Edit Nat := do
  let link := directory.join (.ofString soname)
  if (← get).exists? link then return 0
  inContext (.link link) (change (·.symlink (.ofString name) link))
  return 1

/-- Links the shared objects of one directory, if it is there, after reading all of them. -/
def linkSonamesIn (directory : Path) : Edit Nat := do
  if !(← get).exists? directory then return 0
  let names ← ask (·.readDirectory directory)
  let found ← names.mapM (sonameIn directory)
  (found.filterMap id).foldlM
    (fun made (soname, name) => return made + (← linkSoname directory soname name)) 0

/-- Links the shared objects of all library directories; says how many links were made. -/
def linkSonames : Edit Nat :=
  SharedObject.directories.foldlM (fun made d => return made + (← linkSonamesIn d)) 0

end Edit

end ImageLayer
