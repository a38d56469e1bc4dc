import ImageLayer.SortedMap
import ImageLayer.Text.Case
import ImageLayer.Text.Blank
import ImageLayer.Text.Percent
/-!
Package locators of the form `pkg:type/namespace/name@version?key=value&key=value`.

Everything but the type and the keys is percent-encoded, so that the separators stand out. Empty parts are left
out, and qualifiers are written in the order of their keys. A name space is written segment by segment, and
empty segments are dropped.

A locator is put together by setting one part after the other, and an empty value sets nothing (`withNamespace`,
`withVersion`, `withQualifier`), so that an empty part and one that was never given are the same locator.
-/

namespace ImageLayer

/-- A package locator. -/
structure PackageUrl where
  /-- The kind of package. -/
  type : String
  /-- Where the name is valid; slashes divide it into segments. -/
  nameSpace : Option String := none
  /-- Name of the package. -/
  name : String
  /-- Its version. -/
  version : Option String := none
  /-- Further particulars. -/
  qualifiers : SortedMap String String := .empty
  deriving DecidableEq

namespace PackageUrl

/-- A text unless it is empty. -/
def nonEmpty? (s : String) : Option String := if s.isEmpty then none else some s

/-- The locator in a name space; an empty one is none. -/
def withNamespace (u : PackageUrl) (nameSpace : String) : PackageUrl :=
  { u with nameSpace := nonEmpty? nameSpace }

/-- The locator at a version; an empty one is none. -/
def withVersion (u : PackageUrl) (version : String) : PackageUrl :=
  { u with version := nonEmpty? version }

/-- The locator with a qualifier; an empty value or none changes nothing. -/
def withQualifier (u : PackageUrl) (key : String) (value : Option String) : PackageUrl :=
  match value.bind nonEmpty? with
  | some v => { u with qualifiers := u.qualifiers.insert key v }
  | none => u

/-- The value of a qualifier. -/
def qualifier? (u : PackageUrl) (key : String) : Option String := u.qualifiers.get? key

/-- The segments of a name space that are not empty. -/
def segments (nameSpace : String) : List String :=
  ((Text.splitAt '/' nameSpace.toList).filter fun s => !s.isEmpty).map String.ofList

/-- The qualifiers in written form; the first follows a question mark. -/
def qualifierText (u : PackageUrl) : String :=
  match u.qualifiers.toList.map fun (key, value) => key ++ "=" ++ Percent.encode value with
  | [] => ""
  | first :: rest => "?" ++ "&".intercalate (first :: rest)

/-- The written form of a locator. -/
def text (u : PackageUrl) : String :=
  let spaces := (u.nameSpace.map segments).getD []
  "pkg:" ++ Text.lower u.type ++ "/" ++ String.join (spaces.map fun s => Percent.encode s ++ "/") ++
    Percent.encode u.name ++ ((u.version.map fun v => "@" ++ Percent.encode v).getD "") ++
    u.qualifierText

end PackageUrl

end ImageLayer
