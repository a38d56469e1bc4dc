import ImageLayer.Bytes
/-!
Percent-encoding of text: letters, digits and `-`, `_`, `.`, `~` stand for themselves and every
other byte of the UTF-8 form is written as `%` and two upper-case hexadecimal digits.
-/

namespace ImageLayer.Percent

/-- The bytes that are written as they are. -/
def isUnreserved (b : UInt8) : Bool :=
  let c := Char.ofNat b.toNat
  c.isAlphanum || c = '-' || c = '_' || c = '.' || c = '~'

/-- The upper-case digit of a value below sixteen. -/
def digit (n : Nat) : Char :=
  if n < 10 then Char.ofNat (48 + n) else Char.ofNat (55 + n)

/-- How one byte is written. -/
def encodeByte (b : UInt8) : List Char :=
  if isUnreserved b then [Char.ofNat b.toNat]
  else ['%', digit (b.toNat / 16), digit (b.toNat % 16)]

/-- The encoded form of a text. -/
def encode (s : String) : String := String.ofList ((Bytes.ofString s).flatMap encodeByte)

end ImageLayer.Percent
