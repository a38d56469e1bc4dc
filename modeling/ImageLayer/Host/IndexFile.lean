import ImageLayer.Host.Operation
import ImageLayer.Failure
/-!
Writing the index of an image, which others have made, next to its layer.
-/

namespace ImageLayer

namespace IndexFile

/-- How the file of an index is called. -/
def name : Path := .ofString "index.json"

/-- The file of an index in a directory. -/
def path (directory : Path) : Path := directory.join name

end IndexFile

/-- Writes an index into a directory as it is, readable for all. The directory must exist, and a
symbolic link in place of the file is refused. -/
def Host.writeIndex (h : Host) (directory : Path) (raw : Bytes) : Except Failure Host := do
  let p := IndexFile.path directory
  if !h.isDirectory directory then .error (.outputMissing directory)
  else if h.isSymlink p then .error (.outputIsLink p)
  else
    let h ← inContext (.write p) ((h.writeFile p raw).mapError .host)
    inContext (.permissions p) ((h.setMode p 0o644).mapError .host)

end ImageLayer
