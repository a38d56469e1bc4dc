import ImageLayer.Tree.Operation
import ImageLayer.Package.InstalledDatabase
/-!
Giving installed paths the owner and the permissions that their packages recorded, whoever unpacked them.

The database of a tree says which paths have something recorded. They are taken in its order, and the first that
is missing stops the pass, with those before it done. Whether a path is there is asked without following its
last part, and permissions and owner are then set of what the path leads to when it is followed.

A tree without a database records nothing.
-/

namespace ImageLayer

namespace Tree

/-- The packages that the database in a tree records; none where there is no database. -/
def installedPackages (t : Tree) : Except NoResult (List InstalledPackage) :=
  if t.exists? InstalledDatabase.location then do
    let contents ← (t.contentsAt InstalledDatabase.location).mapError
      (.within (.read InstalledDatabase.location))
    (inContext (.parse InstalledDatabase.location)
      (InstalledDatabase.parse (Utf8.lossy contents))).mapError .failure
  else .ok []

end Tree

namespace Edit

/-- Gives a path of the named package what was recorded for it. -/
def applyRecorded (package : String) (p : InstalledPath) : Edit Unit :=
  match p.attributes with
  | none => pure ()
  | some a => do
    ask fun t =>
      if t.exists? p.path then .ok () else .error (.tree p.path (.recordedButMissing package))
    change (·.chmod p.path a.mode)
    change (·.chown p.path a.owner)

/-- Gives every recorded path what was recorded for it, in the order of the database. -/
def applyAllRecorded : Edit Unit := do
  let packages ← consult (·.installedPackages)
  packages.forM fun p => p.paths.forM (applyRecorded p.package.name)

end Edit

end ImageLayer
