import ImageLayer.Yaml.Decode
/-!
Values of no particular kind.

A plain scalar means what its words say. The keys of a mapping are different from each other as
values, so that `1` and `0x1` are the same key.
-/

namespace ImageLayer.Yaml

/-- A value. -/
inductive Value where
  /-- Nothing. -/
  | null
  /-- A truth value. -/
  | bool (b : Bool)
  /-- A whole number. -/
  | integer (n : Int)
  /-- A floating point number, by the bits of its standard form. -/
  | float (bits : UInt64)
  /-- A text. -/
  | text (s : String)
  /-- A list. -/
  | list (items : List Value)
  /-- A mapping. -/
  | map (entries : List (Value × Value))
  deriving Repr

namespace Value

/-- Whether two values that are nested less than `depth` deep are the same. The order of the entries of a
mapping says nothing. -/
def same : (depth : Nat) → Value → Value → Bool
  | 0, _, _ => false
  | depth + 1, a, b =>
    match a, b with
    | .null, .null => true
    | .bool a, .bool b => a = b
    | .integer a, .integer b => a = b
    | .float a, .float b => a = b
    | .text a, .text b => a = b
    | .list a, .list b =>
      a.length = b.length && (a.zip b).all fun (x, y) => same depth x y
    | .map a, .map b =>
      a.length = b.length &&
        a.all fun (k, v) => b.any fun (k', v') => same depth k k' && same depth v v'
    | _, _ => false

/-- A floating point number; there is one zero and one value that is no number. -/
def ofFloat (x : Float) : Value :=
  if x == 0 then .float 0 else if x.isNaN then .float 0x7FF8000000000000 else .float x.toBits

/-- The greatest whole number that is a value. -/
def maxInteger : Nat := 0xFFFFFFFFFFFFFFFF

/-- The greatest whole number that is read as one. -/
def maxReadable : Nat := 0xFFFFFFFFFFFFFFFFFFFFFFFFFFFFFFFF

/-- The greatest whole number that is read as one with a sign. -/
def maxSigned : Nat := 0x7FFFFFFFFFFFFFFFFFFFFFFFFFFFFFFF

/-- The whole number that a word means. -/
def integer? (word : String) : Option Int :=
  ((natural? maxInteger word).map Int.ofNat).or (Yaml.integer? Numeral.maxLong word)

/-- Whether a word means a whole number that is too far from zero to be a value. -/
def isOutOfRange (word : String) : Bool :=
  (integer? word).isNone &&
    ((natural? maxReadable word).isSome || (Yaml.integer? maxSigned word).isSome)

/-- Whether a word is digits behind a leading zero, with or without a sign. -/
def isZeroLedWord (word : String) : Bool :=
  match word.toList with
  | '-' :: rest => isZeroLed rest
  | rest => isZeroLed (withoutPlus rest)

/-- What a plain word means. -/
def ofWord (word : String) : Option Value :=
  if word.isEmpty || isNullWord word then some .null
  else match truth? word, integer? word with
  | some b, _ => some (.bool b)
  | none, some n => some (.integer n)
  | none, none =>
    if isOutOfRange word then none
    else if isZeroLedWord word then some (.text word)
    else some (((float? word).map ofFloat).getD (.text word))

/-- What a scalar means. A standard tag demands a word of its kind. -/
def ofScalar (tag : Option Bytes) (style : Style) (text : String) : Option Value :=
  let free := if style = .plain then ofWord text else some (.text text)
  match tag with
  | none => free
  | some tag =>
    if tag = standardTag "bool" then (truth? text).map .bool
    else if tag = standardTag "int" then (integer? text).map .integer
    else if tag = standardTag "float" then (float? text).map ofFloat
    else if tag = standardTag "null" then (if isNullWord text then some .null else none)
    else if tag.head? = some 0x21 then free
    else some (.text text)

/-- How deep collections may be nested in a document. -/
def maxDepth : Nat := 128

end Value

namespace Decode

/-- Entries that have different keys. -/
def distinctKeys : List (Value × Value) → Bool
  | [] => true
  | (k, _) :: rest => !rest.any (fun e => k.same Value.maxDepth e.1) && distinctKeys rest

/-- A value of any kind in which collections are nested at most `depth` deep. No part of it may have
a tag that only its document understands. -/
def value : (depth : Nat) → Node → Decode Value
  | depth, n => do
    let n ← follow n
    if (localTag? n.tag?).isSome then failure
    match n, depth with
    | .scalar tag style text, _ => (Value.ofScalar tag style text : Option Value)
    | .sequence _ items, depth + 1 => return .list (← items.mapM (value depth))
    | .mapping _ entries, depth + 1 =>
      let entries ← entries.mapM fun (k, v) => return (← value depth k, ← value depth v)
      if distinctKeys entries then return .map entries else failure
    | _, _ => failure

end Decode

end ImageLayer.Yaml
