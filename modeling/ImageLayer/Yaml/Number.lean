import ImageLayer.Text.Numeral
/-!
Words of plain scalars that mean more than their text: nothing, truth and numbers.

A whole number may be written in base 16, 8 or 2 behind `0x`, `0o` or `0b`. Digits behind a leading zero
are no number.
-/

namespace ImageLayer.Yaml

/-- Whether a word means that there is nothing. -/
def isNullWord (word : String) : Bool := ["null", "Null", "NULL", "~"].contains word

/-- The truth value that a word means. -/
def truth? (word : String) : Option Bool :=
  if ["true", "True", "TRUE"].contains word then some true
  else if ["false", "False", "FALSE"].contains word then some false
  else none

/-! ## Whole numbers -/

/-- The base that a number is written in, and what follows the letters that say so. -/
def base? : List Char → Option (Nat × List Char)
  | '0' :: 'x' :: rest => some (16, rest)
  | '0' :: 'o' :: rest => some (8, rest)
  | '0' :: 'b' :: rest => some (2, rest)
  | _ => none

/-- Whether digits start with a zero that is not all of them. -/
def isZeroLed (word : List Char) : Bool :=
  1 < word.length && word.head? = some '0' && word.all Char.isDigit

/-- The number that digits of a base mean, up to a bound. -/
def digits? (base bound : Nat) (word : List Char) : Option Nat :=
  if word.isEmpty then none else (Numeral.digits base bound 0 word).toOption

/-- The number that a word without a sign means, up to a bound. -/
def magnitude? (bound : Nat) (word : List Char) : Option Nat :=
  match base? word with
  | some (base, rest) => digits? base bound rest
  | none => if isZeroLed word then none else digits? 10 bound word

/-- A word without a plus sign at its start. -/
def withoutPlus : List Char → List Char
  | '+' :: rest => rest
  | word => word

/-- The number from zero to a bound that a word means. -/
def natural? (bound : Nat) (word : String) : Option Nat :=
  magnitude? bound (withoutPlus word.toList)

/-- The number from `-bound - 1` to `bound` that a word means. -/
def integer? (bound : Nat) (word : String) : Option Int :=
  match word.toList with
  | '-' :: rest => (magnitude? (bound + 1) rest).map fun n => -(n : Int)
  | rest => (magnitude? bound (withoutPlus rest)).map Int.ofNat

/-! ## Other numbers -/

/-- A number as digits and a power of ten to multiply them with. -/
structure Decimal where
  /-- The digits. -/
  digits : Nat
  /-- The power of ten. -/
  exponent : Int
  deriving DecidableEq, Repr

/-- The number that decimal digits mean. -/
def digitsValue (ds : List Char) : Nat := ds.foldl (fun n d => n * 10 + (d.toNat - 48)) 0

/-- The power of ten that stands at the end of a number. -/
def exponent? : List Char → Option Int
  | [] => some 0
  | e :: rest =>
    if e = 'e' || e = 'E' then
      let (negative, ds) := match rest with
        | '-' :: ds => (true, ds)
        | '+' :: ds => (false, ds)
        | ds => (false, ds)
      if !ds.isEmpty && ds.all Char.isDigit then
        some (if negative then -(digitsValue ds : Int) else digitsValue ds)
      else none
    else none

/-- The decimal that a word without a sign means: digits, of which some may stand behind a point, and a
power of ten. -/
def decimal? (word : List Char) : Option Decimal :=
  let whole := word.takeWhile Char.isDigit
  let rest := word.dropWhile Char.isDigit
  let (fraction, rest) := match rest with
    | '.' :: rest => (rest.takeWhile Char.isDigit, rest.dropWhile Char.isDigit)
    | rest => ([], rest)
  if whole.isEmpty && fraction.isEmpty then none
  else (exponent? rest).map fun e => ⟨digitsValue (whole ++ fraction), e - fraction.length⟩

/-- The floating point number closest to a decimal. A decimal that is out of reach is not computed. -/
def Decimal.toFloat (d : Decimal) : Float :=
  let magnitude := (Nat.toDigits 10 d.digits).length + d.exponent
  if d.digits = 0 || magnitude < -400 then 0
  else if 400 < magnitude then 1 / 0
  else if d.exponent < 0 then Float.ofScientific d.digits true (-d.exponent).toNat
  else Float.ofScientific d.digits false d.exponent.toNat

/-- The floating point number that a word means. What is too large to be finite is none, unless a word
says that it is infinite. -/
def float? (word : String) : Option Float :=
  if [".nan", ".NaN", ".NAN"].contains word then some (0 / 0)
  else if ["-.inf", "-.Inf", "-.INF"].contains word then some (-1 / 0)
  else if [".inf", ".Inf", ".INF", "+.inf", "+.Inf", "+.INF"].contains word then some (1 / 0)
  else
    let (negative, rest) := match word.toList with
      | '-' :: rest => (true, rest)
      | rest => (false, withoutPlus rest)
    match decimal? rest with
    | none => none
    | some d => if d.toFloat.isFinite then some (if negative then -d.toFloat else d.toFloat) else none

end ImageLayer.Yaml
