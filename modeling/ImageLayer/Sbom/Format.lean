import ImageLayer.Sbom.Spdx
import ImageLayer.Sbom.CycloneDx
import ImageLayer.Failure
/-!
The formats of bills of materials.
-/

namespace ImageLayer

/-- A format of bills of materials. -/
inductive SbomFormat where
  /-- SPDX 2.2. -/
  | spdx
  /-- CycloneDX 1.4. -/
  | cycloneDx
  deriving DecidableEq, Repr

namespace SbomFormat

/-- All formats. -/
def all : List SbomFormat := [.spdx, .cycloneDx]

/-- The short name of a format. -/
def key : SbomFormat → String
  | .spdx => "spdx"
  | .cycloneDx => "cyclonedx"

/-- What the names of files in a format end in, behind a full stop. -/
def extension : SbomFormat → String
  | .spdx => "spdx.json"
  | .cycloneDx => "cdx"

/-- What is said before a document is written. -/
def announcement : SbomFormat → String
  | .spdx => "📝 Generating SPDX 2.2 JSON SBOM..."
  | .cycloneDx => "📝 Generating CycloneDX 1.4 JSON SBOM..."

/-- The format with a short name. -/
def ofKey? (name : String) : Option SbomFormat := all.find? (·.key = name)

/-- Reads the name of a format in any case. -/
def parse? (text : String) : Option SbomFormat :=
  match Text.lower text with
  | "spdx" | "spdx-json" => some .spdx
  | "cyclonedx" | "cdx" => some .cycloneDx
  | _ => none

/-- Reads the name of a format in any case, or says that it is not known. -/
def parse (text : String) : Except Failure SbomFormat :=
  match parse? text with
  | some f => .ok f
  | none => .error (.format text)

/-- The text of the document about packages in a layer. -/
def render (f : SbomFormat) (m : BuildMetadata) (packages : List Package) : String :=
  match f with
  | .spdx => (Spdx.document m packages).toJson.render
  | .cycloneDx => (CycloneDx.bill m packages).toJson.render

end SbomFormat

end ImageLayer
