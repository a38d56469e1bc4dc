import ImageLayer.Image.Metadata
import ImageLayer.Package.Basic
import ImageLayer.Package.Url
/-!
What a bill of materials is about, under the names and locators that all formats share.

The digest of the layer is always known when a document is written, since the layer comes first. That of the
image may be given from outside, and an empty one counts as not known (`ImageInfo.knownDigest?`). Formats agree
on names and locators, so that one node can be recognised in the documents of all of them.
-/

namespace ImageLayer

/-- The name and the version of this program in the documents it writes. -/
def toolName : String := "layercraft"

/-- The version of this program. -/
def toolVersion : String := "0.4.0"

namespace ImageInfo

/-- Where a reference without a slash is looked up. -/
def defaultRegistry : String := "index.docker.io/library/"

/-- The digest of the image, if it is known. -/
def knownDigest? (image : ImageInfo) : Option String := image.imageDigest.filter fun d => !d.isEmpty

/-- The name of the layer: the reference that the image was asked for under, in full, and without one
the name of the image, if it has one, and the digest of the layer. -/
def layerName (image : ImageInfo) : String :=
  match image.reference.filter fun r => !r.isEmpty with
  | some reference =>
    "SPDXRef-" ++ (if reference.toList.contains '/' then "" else defaultRegistry) ++ reference
  | none =>
    if image.name.isEmpty then image.layerDigest else image.name ++ "@" ++ image.layerDigest

/-- The locator of the image, or of a part of it, at a digest. -/
def locator (image : ImageInfo) (digest : String) : PackageUrl :=
  ({ type := "oci", name := image.name } : PackageUrl)
    |>.withVersion digest
    |>.withQualifier "tag" image.primaryTag
    |>.withQualifier "repository_url" image.repository
    |>.withQualifier "arch" (image.architecture.map Architecture.imageName)

/-- The locator of the layer. -/
def layerLocator (image : ImageInfo) : PackageUrl := image.locator image.layerDigest

end ImageInfo

namespace BuildMetadata

/-- The locator of a package in the image's operating system. -/
def packageLocator (m : BuildMetadata) (p : Package) : PackageUrl :=
  ({ type := "apk", name := p.name } : PackageUrl)
    |>.withNamespace m.os.id
    |>.withVersion p.version
    |>.withQualifier "arch" (m.image.architecture.map Architecture.packageName)

end BuildMetadata

end ImageLayer
