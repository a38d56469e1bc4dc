import ImageLayer.Sbom.Json
import ImageLayer.Sbom.Identifier
import ImageLayer.Sbom.Subject
import ImageLayer.Digest.Content
import ImageLayer.Text.Calendar
/-!
Bills of materials in the format SPDX 2.2.

A document has a node for the layer and one for each package, contained in the layer. If the digest of the image
is known there is a node for the image too, which contains the layer and is then what the document describes.

Nodes have identifiers, which are made of names and digests by `Identifier.sanitize`. That of a package has the
one of its layer in it, so that packages of different layers can be told apart when documents are put together.

A document is built as data first (`document`) and has its written form from there (`Document.toJson`). Where
nothing is known it says so (`noAssertion`), since the format asks for a value.
-/

namespace ImageLayer.Spdx

/-- What is written where nothing is known. -/
def noAssertion : String := "NOASSERTION"

/-- A text, or that nothing is known. -/
def orNoAssertion (s : String) : String := if s.isEmpty then noAssertion else s

/-- A checksum of a node. -/
structure Checksum where
  /-- Name of the algorithm. -/
  algorithm : String
  /-- The digits. -/
  value : String
  deriving DecidableEq, Repr

/-- A node of a document. -/
structure Node where
  /-- Identifier of the node. -/
  id : String
  /-- Its name. -/
  name : String
  /-- Its version. -/
  version : String := ""
  /-- Its licence. -/
  license : String := noAssertion
  /-- One line about it. -/
  description : String
  /-- Where it can be had. -/
  downloadLocation : String := noAssertion
  /-- Who it comes from. -/
  originator : String := ""
  /-- Where this information comes from. -/
  sourceInfo : String := ""
  /-- Its checksums. -/
  checksums : List Checksum := []
  /-- Its locator. -/
  locator : PackageUrl
  deriving DecidableEq

/-- That one node contains another. -/
structure Containment where
  /-- Identifier of the node that contains. -/
  outer : String
  /-- Identifier of the node that is contained. -/
  inner : String
  deriving DecidableEq, Repr

/-- A document. -/
structure Document where
  /-- Name of the document. -/
  name : String
  /-- The second that it was made in. -/
  created : Int
  /-- Identifiers of the nodes that it describes. -/
  describes : List String
  /-- Its nodes. -/
  nodes : List Node
  /-- What contains what. -/
  containments : List Containment
  deriving DecidableEq

/-! ## Building a document -/

/-- The node of the layer. -/
def layerNode (m : BuildMetadata) : Node where
  id := "SPDXRef-Package-" ++ Identifier.sanitize m.image.layerName
  name := m.image.layerName
  version := m.os.version
  description := "layercraft operating system layer"
  locator := m.image.layerLocator

/-- The node of an image with a known digest. -/
def imageNode (image : ImageInfo) (digest : String) : Node where
  id := Identifier.sanitize ("SPDXRef-Package-" ++ digest)
  name := image.name ++ "@" ++ digest
  description := "layercraft container image"
  checksums :=
    [⟨Text.upper (ContentDigest.parse digest).algorithm, (ContentDigest.parse digest).hex⟩]
  locator := image.locator digest

/-- The node of a package in the layer with a given identifier, which keeps equal packages of
different layers apart. -/
def packageNode (m : BuildMetadata) (layerId : String) (p : Package) : Node where
  id := Identifier.sanitize ("SPDXRef-Package-" ++ layerId ++ "-" ++ p.name ++ "-" ++ p.version)
  name := p.name
  version := p.version
  license := orNoAssertion p.license
  description := p.description
  downloadLocation := orNoAssertion p.url
  originator := p.maintainer
  sourceInfo := "Package info from apk database"
  checksums := [⟨"SHA1", Bytes.toHex p.checksum⟩]
  locator := m.packageLocator p

/-- The document about packages in a layer. -/
def document (m : BuildMetadata) (packages : List Package) : Document :=
  let layer := layerNode m
  let parts := packages.map (packageNode m layer.id)
  let name := if m.image.layerDigest.isEmpty then "sbom" else "sbom-" ++ m.image.layerDigest
  let contained := parts.map fun p => ⟨layer.id, p.id⟩
  match m.image.knownDigest? with
  | some digest =>
    let image := imageNode m.image digest
    ⟨name, m.image.sourceDate, [image.id], image :: layer :: parts,
      ⟨image.id, layer.id⟩ :: contained⟩
  | none => ⟨name, m.image.sourceDate, [layer.id], layer :: parts, contained⟩

/-! ## Its written form -/

/-- The JSON form of a node. -/
def Node.toJson (n : Node) : Json :=
  .object [
    ("SPDXID", .text n.id),
    ("name", .text n.name),
    ("versionInfo", .text n.version),
    ("filesAnalyzed", .bool false),
    ("licenseConcluded", .text n.license),
    ("licenseDeclared", .text noAssertion),
    ("description", .text n.description),
    ("downloadLocation", .text n.downloadLocation),
    ("originator", .text n.originator),
    ("sourceInfo", .text n.sourceInfo),
    ("copyrightText", .text noAssertion),
    ("checksums", .array (n.checksums.map fun c =>
      .object [("algorithm", .text c.algorithm), ("checksumValue", .text c.value)])),
    ("externalRefs", .array [.object [
      ("referenceCategory", .text "PACKAGE_MANAGER"),
      ("referenceLocator", .text n.locator.text),
      ("referenceType", .text "purl")]])]

/-- The JSON form of a containment. -/
def Containment.toJson (c : Containment) : Json :=
  .object [
    ("spdxElementId", .text c.outer),
    ("relationshipType", .text "CONTAINS"),
    ("relatedSpdxElement", .text c.inner)]

/-- The JSON form of a document. -/
def Document.toJson (d : Document) : Json :=
  .object [
    ("SPDXID", .text "SPDXRef-DOCUMENT"),
    ("name", .text d.name),
    ("spdxVersion", .text "SPDX-2.2"),
    ("creationInfo", .object [
      ("created", .text (Calendar.timestamp d.created)),
      ("creators", .texts ["Tool: " ++ toolName ++ " (" ++ toolVersion ++ ")"]),
      ("licenseListVersion", .text "3.16")]),
    ("dataLicense", .text "CC0-1.0"),
    ("documentNamespace", .text "https://spdx.org/spdxdocs/layercraft/"),
    ("documentDescribes", .texts d.describes),
    ("packages", .array (d.nodes.map Node.toJson)),
    ("relationships", .array (d.containments.map Containment.toJson))]

end ImageLayer.Spdx
