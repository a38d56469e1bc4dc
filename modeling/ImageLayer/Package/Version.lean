import ImageLayer.Text.Blank
import ImageLayer.Text.Case
import ImageLayer.Image.Reference
import ImageLayer.Image.Configuration
/-!
Tags that follow the version of a package.

The release suffix of a version is a hyphen, the letter `r` and decimal digits of any script at its end
(`withoutRelease`). The stems of a version are what is left without that suffix, and what is left of that when
the last dot and all behind it are cut off, again and again (`beginnings`). Cutting makes a text shorter, which
is why it comes to an end.

A tag for a version is made of a tag that the image has, whose repository it keeps, and of a version or one of
its stems behind a lead that the configuration gives (`candidates`). Of these only those are new that the image
does not have, each once (`newTags`).
-/

namespace ImageLayer.Version

/-- The version without its release suffix. -/
def withoutRelease (version : List Char) : List Char :=
  let digits := version.reverse.takeWhile Text.isDecimalDigit
  match digits, version.reverse.drop digits.length with
  | [], _ => version
  | _, 'r' :: '-' :: base => base.reverse
  | _, _ => version

/-- A text, and what is left of it when it is cut at its last dot, again and again. -/
def beginnings (s : List Char) : List (List Char) :=
  match _ : Text.splitLast? '.' s with
  | some (front, _) => s :: beginnings front
  | none => [s]
termination_by s.length
decreasing_by exact Text.length_lt_of_splitLast? ‹_›

/-- The versions that a package at a version is tagged with: the version itself, and its stems if
they are asked for. None is empty and none appears twice. -/
def stems (version : String) (withStems : Bool) : List String :=
  if withStems then
    (beginnings (withoutRelease version.toList)).foldl
      (fun found stem =>
        let stem := String.ofList stem
        if stem.isEmpty || found.contains stem then found else found ++ [stem])
      [version]
  else [version]

/-- Every combination of a tag's repository with a version, behind the configured lead. -/
def candidates (tags : List String) (version : String) (tagging : VersionTagging) : List String :=
  tags.flatMap fun tag =>
    (stems version tagging.stems).map fun v =>
      (Reference.splitTag tag).1 ++ ":" ++ tagging.lead.getD "" ++ v

/-- The new tags for a package at a version: the combinations that are neither present nor made
twice. -/
def newTags (tags : List String) (version : String) (tagging : VersionTagging) : List String :=
  (candidates tags version tagging).foldl
    (fun found tag => if tags.contains tag || found.contains tag then found else found ++ [tag]) []

end ImageLayer.Version
