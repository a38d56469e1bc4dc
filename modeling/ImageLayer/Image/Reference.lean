import ImageLayer.Text.Blank
/-!
Image references: a repository, perhaps followed by a colon and a tag.

A colon belongs to the tag only behind the last slash, since an earlier one introduces the port of
a registry.
-/

namespace ImageLayer.Reference

/-- The text up to and with its last slash, and what follows it. -/
def lastSegment (text : List Char) : List Char × List Char :=
  match Text.splitLast? '/' text with
  | some (before, after) => (before ++ ['/'], after)
  | none => ([], text)

/-- The repository and the tag of a reference. -/
def splitTag (reference : String) : String × Option String :=
  let (lead, segment) := lastSegment reference.toList
  match Text.splitLast? ':' segment with
  | some (name, tag) => (String.ofList (lead ++ name), some (String.ofList tag))
  | none => (reference, none)

end ImageLayer.Reference
