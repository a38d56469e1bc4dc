/-!
Byte strings and the numbers and hexadecimal digits written in them.

File names, link targets, file contents and archive streams are sequences of bytes that
need not be text, so the whole library speaks of `Bytes`. A byte string is a list: every
format below is read and written from front to back.
-/

namespace ImageLayer

/-- A sequence of bytes. -/
abbrev Bytes := List UInt8

namespace Bytes

/-- The UTF-8 bytes of a text. -/
def ofString (s : String) : Bytes := s.toList.flatMap String.utf8EncodeChar

/-! ## Numbers in bytes -/

/-- The number whose digits in base 256, most significant first, are the bytes. -/
def bigEndian (bs : Bytes) : Nat := bs.foldl (fun n b => n * 256 + b.toNat) 0

/-- The number whose digits in base 256, least significant first, are the bytes. -/
def littleEndian (bs : Bytes) : Nat := bs.foldr (fun b n => b.toNat + 256 * n) 0

/-- The `width` lowest base 256 digits of `n`, least significant first. -/
def ofLittleEndian : (width : Nat) → (n : Nat) → Bytes
  | 0, _ => []
  | width + 1, n => UInt8.ofNat (n % 256) :: ofLittleEndian width (n / 256)

/-- The `width` lowest base 256 digits of `n`, most significant first. -/
def ofBigEndian (width n : Nat) : Bytes := (ofLittleEndian width n).reverse

/-! ## Hexadecimal -/

/-- The lower-case digit of a value below sixteen. -/
def hexDigit (n : Nat) : Char :=
  if n < 10 then Char.ofNat (48 + n) else Char.ofNat (87 + n)

/-- Two lower-case hexadecimal digits for each byte. -/
def toHex (bs : Bytes) : String :=
  String.ofList (bs.flatMap fun b => [hexDigit (b.toNat / 16), hexDigit (b.toNat % 16)])

/-- The value of a hexadecimal digit of either case. -/
def hexValue? (c : Char) : Option Nat :=
  if '0' ≤ c ∧ c ≤ '9' then some (c.toNat - 48)
  else if 'a' ≤ c ∧ c ≤ 'f' then some (c.toNat - 87)
  else if 'A' ≤ c ∧ c ≤ 'F' then some (c.toNat - 55)
  else none

/-- Reads pairs of hexadecimal digits; refuses an odd count and any other character. -/
def ofHex? : List Char → Option Bytes
  | [] => some []
  | [_] => none
  | h :: l :: rest => do
    let h ← hexValue? h
    let l ← hexValue? l
    let tail ← ofHex? rest
    return UInt8.ofNat (16 * h + l) :: tail

/-! ## Fixed width -/

/-- `bs` cut or filled up with zero bytes to exactly `width` bytes. -/
def fit (width : Nat) (bs : Bytes) : Bytes :=
  bs.take width ++ List.replicate (width - bs.length) 0

end Bytes

end ImageLayer
