import ImageLayer.Build.Assemble
import ImageLayer.Archive.Member
import ImageLayer.Archive.Gzip
import ImageLayer.Host.IndexFile
import ImageLayer.Sbom.Format
/-!
Building a layer: assembling its tree, writing the tree as a compressed archive, and writing documents about it.

The documents name the digest of the file that was written and so come last. The first failure stops the build;
files that were written by then stay.

A build works on a site: the workspace of the assembly, the host, and the files that were written, in their
order. The host takes a file wholly or refuses it, so that what is recorded is what is there.

How the archive is compressed is left to the caller, who gives a `Compressor`: what comes of it has to be undone
by a decompressor, and a build relies on nothing else. The digest and the size of a layer are those of the
compressed file, and so depend on the compressor.

Two parts read from the tree that was assembled. The operating system is read from the file that identifies it,
unless the order says it; a file that cannot be read is warned of. The packages are those of the database,
unless the order gives them; a database that cannot be read is a failure. Either file may be one that has no
end, and then the build never returns, with the layer written already.
-/

namespace ImageLayer

/-- An order to build a layer. -/
structure BuildRequest where
  /-- What the build is about and where it writes. -/
  metadata : BuildMetadata
  /-- What the image declares about its tree. -/
  configuration : Configuration
  /-- The formats of documents to write. -/
  formats : List SbomFormat := [.spdx]
  /-- The packages to document; those that the tree records where none are given. -/
  packages : Option (List Package) := none
  /-- The index of the image, to be written as it is. -/
  index : Option Bytes := none

/-- A layer that was written. -/
structure Layer where
  /-- The file of the layer. -/
  path : Path
  /-- Digest of the archive before compression. -/
  diffId : ContentDigest
  /-- Digest of the file. -/
  digest : ContentDigest
  /-- Number of bytes of the file. -/
  size : Nat
  deriving DecidableEq, Repr

/-- What a build leads to. -/
structure BuildResponse where
  /-- The layer. -/
  layer : Layer
  /-- The documents. -/
  sboms : List Path
  /-- The tags of the image. -/
  tags : List String
  /-- The operating system of the image. -/
  os : OsInfo
  /-- The file of the index. -/
  index : Option Path
  deriving DecidableEq, Repr

/-- What a build works on. -/
structure Site where
  /-- The tree, the tags and what was said. -/
  workspace : Workspace
  /-- The file system that is written to. -/
  host : Host
  /-- The files that were written, in order. -/
  written : List (Path × Bytes)

/-- A computation on a site that may give no result; the changes made before are kept. -/
abbrev Build := EStateM NoResult Site

namespace Build

/-- A computation on the workspace alone. -/
def assembly {α : Type} (x : Assembly α) : Build α := fun s =>
  match x s.workspace with
  | .ok a w => .ok a { s with workspace := w }
  | .error r w => .error r { s with workspace := w }

/-- Says something. -/
def say (m : Message) : Build Unit := assembly (Assembly.say m)

/-- Writes a file in a way that the host takes wholly or not at all. -/
def write (p : Path) (contents : Bytes) (f : Host → Except Failure Host) : Build Unit := fun s =>
  match f s.host with
  | .ok h => .ok () { s with host := h, written := s.written ++ [(p, contents)] }
  | .error e => .error (.failure e) s

/-- Refuses to go on if there is a fault. -/
def stopAt (fault : Option Failure) : Build Unit :=
  match fault with
  | some e => throw (.failure e)
  | none => pure ()

/-- Writes the tree as a compressed archive. -/
def writeLayer (z : Compressor) (sourceDate : Int) (p : Path) : Build Layer := do
  say (.report ("📦 Writing layer to: " ++ p.display))
  let (archive, fault) := Archive.ofTree sourceDate (← get).workspace.tree
  let file := z.compress archive
  write p file fun h => (h.writeFile p file).mapError fun e => .archive p (.host e)
  stopAt (fault.map (.archive p ·))
  let layer : Layer := ⟨p, .ofBytes archive, .ofBytes file, file.length⟩
  say (.completion ("✅ Layer written: " ++ layer.digest.text ++ s!" ({layer.size} bytes)"))
  return layer

/-- The operating system that the tree says it is, unless one is known. A file that cannot be read is
only warned of, but one that can never be read to its end is never got past. -/
def detectOs (known : OsInfo) : Build OsInfo := do
  let tree := (← get).workspace.tree
  if !known.id.isEmpty || !tree.exists? OsRelease.location then return known
  match tree.contentsAt OsRelease.location with
  | .ok contents => return .parse (Utf8.lossy contents)
  | .error (.failure e) =>
    say (.warning ("Could not read " ++ OsRelease.location.display ++ ": " ++ e.message))
    return known
  | .error .endless => throw .endless

/-- The packages that the tree records. -/
def recordedPackages : Build (List Package) := do
  let installed ← assembly (Assembly.edit (Edit.consult (·.installedPackages)))
  return installed.map InstalledPackage.package

/-- The file of the document in a format. -/
def sbomPath (m : BuildMetadata) (f : SbomFormat) : Path :=
  let platform := (m.image.architecture.map Architecture.packageName).getD "noarch"
  m.output.directory.join (.ofString ("sbom-" ++ platform ++ "." ++ f.extension))

/-- Writes the document in a format. -/
def writeSbom (m : BuildMetadata) (packages : List Package) (f : SbomFormat) : Build Path := do
  let p := sbomPath m f
  say (.report f.announcement)
  let contents := Bytes.ofString (f.render m packages)
  write p contents fun h =>
    (h.writeFile p contents).mapError fun e => .sbomWrite p e.message
  return p

/-- Formats without those that were there before. -/
def distinct (formats : List SbomFormat) : List SbomFormat :=
  formats.foldl (fun found f => if found.contains f then found else found ++ [f]) []

/-- Writes the documents in all formats. -/
def writeSboms (m : BuildMetadata) (packages : List Package) (formats : List SbomFormat) :
    Build (List Path) := do
  let paths ← (distinct formats).mapM (writeSbom m packages)
  if !paths.isEmpty then
    say (.completion
      (s!"✅ {paths.length} SBOM document(s) describing {packages.length} package(s)"))
  return paths

/-- Writes the index. -/
def writeIndex (directory : Path) (raw : Bytes) : Build Path := do
  let p := IndexFile.path directory
  write p raw fun h => h.writeIndex directory raw
  say (.report ("🗂️  Wrote image index: " ++ p.display ++ s!" ({raw.length} bytes)"))
  return p

/-- The packages to document: those that an order gives, or else those that the tree records. -/
def packagesOf (r : BuildRequest) : Build (List Package) :=
  match r.packages with
  | some packages => pure packages
  | none => recordedPackages

/-- Writes the index that an order gives, if it gives one. -/
def writeIndexOf (r : BuildRequest) : Build (Option Path) :=
  match r.index with
  | some raw => some <$> writeIndex r.metadata.output.directory raw
  | none => pure none

/-- Writes the tree as a layer, and what an order asks for besides. -/
def deliver (z : Compressor) (r : BuildRequest) : Build BuildResponse := do
  let layer ← writeLayer z r.metadata.image.sourceDate r.metadata.output.layer
  let tags := (← get).workspace.tags
  let image := { r.metadata.image with tags := tags, layerDigest := layer.digest.text }
  let os ← detectOs r.metadata.os
  let packages ← packagesOf r
  let sboms ← writeSboms ⟨image, os, r.metadata.output⟩ packages r.formats
  let index ← writeIndexOf r
  return ⟨layer, sboms, tags, os, index⟩

/-- Carries out an order. -/
def run (z : Compressor) (r : BuildRequest) : Build BuildResponse := do
  assembly (Assembly.run r.metadata.image.name r.configuration)
  deliver z r

end Build

/-- The site of an order before it is carried out. -/
def BuildRequest.site (r : BuildRequest) (tree : Tree) (host : Host) : Site :=
  ⟨⟨tree, r.metadata.image.tags, []⟩, host, []⟩

end ImageLayer
