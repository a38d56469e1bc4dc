import ImageLayer.Image.Architecture
import ImageLayer.Image.Reference
/-!
What is known about the image that a layer belongs to, and where its files go.
-/

namespace ImageLayer

/-- The image that a layer belongs to. -/
structure ImageInfo where
  /-- Name of the image. -/
  name : String
  /-- Repository that the image is kept in. -/
  repository : Option String := none
  /-- Tags and tagged references of the image. -/
  tags : List String := []
  /-- The reference that the image was asked for under. -/
  reference : Option String := none
  /-- Digest of the finished image. -/
  imageDigest : Option String := none
  /-- Digest of the layer, as far as it is known. -/
  layerDigest : String := ""
  /-- Architecture of the image. -/
  architecture : Option Architecture := none
  /-- Seconds since the epoch that every date in the output is set to. -/
  sourceDate : Int
  deriving DecidableEq, Repr

/-- The tag of the first of the image's tags, which may be a whole reference. -/
def ImageInfo.primaryTag (image : ImageInfo) : Option String :=
  image.tags.head?.map fun first => (Reference.splitTag first).2.getD first

/-- The operating system found in a tree. -/
structure OsInfo where
  /-- Short name. -/
  id : String := ""
  /-- Full name. -/
  name : String := ""
  /-- Version. -/
  version : String := ""
  deriving DecidableEq, Repr

/-- Where the output goes. -/
structure OutputPaths where
  /-- The directory for everything without a path of its own. -/
  directory : Path
  /-- A path of its own for the layer. -/
  tarball : Option Path := none
  deriving DecidableEq, Repr

namespace OutputPaths

/-- How the layer's file is called unless it has a path of its own. -/
def layerFile : Path := .ofString "layer.tar.gz"

/-- The path of the layer's file. -/
def layer (output : OutputPaths) : Path := output.tarball.getD (output.directory.join layerFile)

end OutputPaths

/-- What a build is about and where it writes. -/
structure BuildMetadata where
  /-- The image. -/
  image : ImageInfo
  /-- Its operating system. -/
  os : OsInfo
  /-- Where the output goes. -/
  output : OutputPaths
  deriving DecidableEq, Repr

end ImageLayer
