import ImageLayer.Sbom.Json
import ImageLayer.Sbom.Subject
import ImageLayer.Digest.Content
import ImageLayer.Digest.Sha1
import ImageLayer.Text.Calendar
/-!
Bills of materials in the format CycloneDX 1.4.

The subject of a bill is the image if its digest is known and the layer otherwise; everything else is a
component, and what a node contains is what it depends on. A component is referred to by its locator. The serial
number is made of the layer's digest, so that equal builds have equal bills.

A bill is built as data first (`bill`) and has its written form from there (`Bill.toJson`), where members
without a value are left out.
-/

namespace ImageLayer.CycloneDx

/-- A hash of a component. -/
structure Hash where
  /-- Name of the algorithm. -/
  algorithm : String
  /-- The digits. -/
  content : String
  deriving DecidableEq, Repr

/-- A component of a bill; its reference is its locator. -/
structure Component where
  /-- Kind of the component. -/
  type : String
  /-- Its name. -/
  name : String
  /-- Its version; left out if empty. -/
  version : String := ""
  /-- Who it comes from; left out if empty. -/
  author : String := ""
  /-- One line about it; left out if empty. -/
  description : String := ""
  /-- Its hashes. -/
  hashes : List Hash := []
  /-- Its licence; left out if empty. -/
  license : String := ""
  /-- Its locator in written form. -/
  locator : String
  deriving DecidableEq, Repr

/-- What a component depends on. -/
structure Dependency where
  /-- Reference of the component. -/
  of : String
  /-- References of what it depends on. -/
  on : List String
  deriving DecidableEq, Repr

/-- A bill. -/
structure Bill where
  /-- The bytes that the serial number is made of. -/
  serial : Bytes
  /-- The second that it was made in. -/
  created : Int
  /-- What the bill is about. -/
  subject : Component
  /-- What the subject consists of. -/
  components : List Component
  /-- What depends on what. -/
  dependencies : List Dependency
  deriving DecidableEq, Repr

/-! ## Building a bill -/

/-- The name of an algorithm in this format, which has a hyphen before the number of bits. -/
def algorithmName (algorithm : String) : String :=
  let upper := Text.upper algorithm
  match upper.toList with
  | 'S' :: 'H' :: 'A' :: '-' :: _ => upper
  | 'S' :: 'H' :: 'A' :: bits => String.ofList ('S' :: 'H' :: 'A' :: '-' :: bits)
  | _ => upper

/-- The layer. -/
def layerComponent (m : BuildMetadata) : Component where
  type := "operating-system"
  name := m.image.layerName
  version := m.os.version
  description := "layercraft operating system layer"
  locator := m.image.layerLocator.text

/-- An image with a known digest. -/
def imageComponent (image : ImageInfo) (digest : String) : Component where
  type := "container"
  name := image.name ++ "@" ++ digest
  description := "layercraft container image"
  hashes :=
    [⟨algorithmName (ContentDigest.parse digest).algorithm, (ContentDigest.parse digest).hex⟩]
  locator := (image.locator digest).text

/-- A package. -/
def packageComponent (m : BuildMetadata) (p : Package) : Component where
  type := "library"
  name := p.name
  version := p.version
  author := p.maintainer
  description := p.description
  hashes := if p.checksum.isEmpty then [] else [⟨"SHA-1", Bytes.toHex p.checksum⟩]
  license := p.license
  locator := (m.packageLocator p).text

/-- The bill of packages in a layer. -/
def bill (m : BuildMetadata) (packages : List Package) : Bill :=
  let layer := layerComponent m
  let parts := packages.map (packageComponent m)
  let contained : Dependency := ⟨layer.locator, parts.map Component.locator⟩
  let serial := Bytes.ofString m.image.layerDigest
  match m.image.knownDigest? with
  | some digest =>
    let image := imageComponent m.image digest
    ⟨serial, m.image.sourceDate, image, layer :: parts,
      [⟨image.locator, [layer.locator]⟩, contained]⟩
  | none => ⟨serial, m.image.sourceDate, layer, parts, [contained]⟩

/-! ## Its written form -/

/-- A member unless its text is empty. -/
def member (name value : String) : List (String × Json) :=
  if value.isEmpty then [] else [(name, .text value)]

/-- The JSON form of a component. -/
def Component.toJson (c : Component) : Json :=
  .object <|
    [("bom-ref", .text c.locator), ("type", .text c.type), ("name", .text c.name)] ++
    member "version" c.version ++ member "author" c.author ++
    member "description" c.description ++
    (if c.hashes.isEmpty then []
      else [("hashes", .array (c.hashes.map fun h =>
        .object [("alg", .text h.algorithm), ("content", .text h.content)]))]) ++
    (if c.license.isEmpty then []
      else [("licenses", .array [.object [("license", .object [("name", .text c.license)])]])]) ++
    [("purl", .text c.locator)]

/-- The JSON form of a dependency. -/
def Dependency.toJson (d : Dependency) : Json :=
  .object [("ref", .text d.of), ("dependsOn", .texts d.on)]

/-- The JSON form of a bill. -/
def Bill.toJson (b : Bill) : Json :=
  .object [
    ("bomFormat", .text "CycloneDX"),
    ("specVersion", .text "1.4"),
    ("serialNumber", .text ("urn:uuid:" ++ Digest.nameIdentifier Digest.locatorSpace b.serial)),
    ("version", .number 1),
    ("metadata", .object [
      ("timestamp", .text (Calendar.timestamp b.created)),
      ("tools", .array [.object [
        ("vendor", .text toolName), ("name", .text toolName), ("version", .text toolVersion)]]),
      ("component", b.subject.toJson)]),
    ("components", .array (b.components.map Component.toJson)),
    ("dependencies", .array (b.dependencies.map Dependency.toJson))]

end ImageLayer.CycloneDx
