import ImageLayer.Text.CaseTable
/-!
Lower and upper case of whole texts, by the full Unicode mappings.

A capital sigma becomes a final sigma where a word ends: a cased letter stands before it and
none after it, characters that case ignores being skipped on both sides.
-/

namespace ImageLayer.Text

/-- The mapping of one character by a table of runs and a table of special forms. -/
def mapCase (runs : List CaseRun) (special : List (Nat × List Nat)) (c : Char) : List Char :=
  match special.lookup c.toNat with
  | some ns => ns.map Char.ofNat
  | none =>
    match runs.find? (·.covers c.toNat) with
    | some r => [Char.ofNat (c.toNat + r.offset).toNat]
    | none => [c]

/-- Whether the first character that case does not ignore is cased. -/
def meetsCased (s : List Char) : Bool :=
  match s.dropWhile fun c => inSpans caseIgnorable c.toNat with
  | [] => false
  | c :: _ => inSpans cased c.toNat

/-- Lower case of `rest`, where `before` are the characters in front of it, nearest first. -/
def lowerAfter (before : List Char) : List Char → List Char
  | [] => []
  | c :: rest =>
    (if c = 'Σ' then [if meetsCased before && !meetsCased rest then 'ς' else 'σ']
      else mapCase lowerRuns lowerSpecial c) ++ lowerAfter (c :: before) rest

/-- A text in lower case. -/
def lower (s : String) : String := String.ofList (lowerAfter [] s.toList)

/-- A text in upper case. -/
def upper (s : String) : String :=
  String.ofList (s.toList.flatMap (mapCase upperRuns upperSpecial))

/-- Whether a character is a decimal digit of some script. -/
def isDecimalDigit (c : Char) : Bool := inSpans decimalDigits c.toNat

end ImageLayer.Text
