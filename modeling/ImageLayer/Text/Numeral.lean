/-!
Reading and writing whole numbers in a given base.

A numeral is read from the left. A plus sign may stand in front; where negative numbers are
possible so may a minus sign. Reading stops at the first fault: an empty numeral, a character
that is no digit of the base, or a value outside the bounds. A character is examined before the
value is, so a bad character wins over an overflow that its position would cause, and loses
against one caused further left.
-/

namespace ImageLayer

/-- Why a text is not a number in the expected range. -/
inductive NumeralFault where
  /-- There is no character to read. -/
  | empty
  /-- A character is no digit of the base. -/
  | invalidDigit
  /-- The value is above the greatest allowed. -/
  | tooLarge
  /-- The value is below the least allowed. -/
  | tooSmall
  deriving DecidableEq, Repr

namespace NumeralFault

/-- The wording of a fault. -/
def message : NumeralFault → String
  | .empty => "cannot parse integer from empty string"
  | .invalidDigit => "invalid digit found in string"
  | .tooLarge => "number too large to fit in target type"
  | .tooSmall => "number too small to fit in target type"

end NumeralFault

namespace Numeral

/-- The value of a digit in a base of at most thirty-six, letters of either case above nine. -/
def digit? (base : Nat) (c : Char) : Option Nat :=
  let value :=
    if '0' ≤ c ∧ c ≤ '9' then some (c.toNat - 48)
    else if 'a' ≤ c ∧ c ≤ 'z' then some (c.toNat - 87)
    else if 'A' ≤ c ∧ c ≤ 'Z' then some (c.toNat - 55)
    else none
  value.filter (· < base)

/-- Reads the remaining digits onto the value so far; every intermediate value is kept at most
`bound`. -/
def digits (base bound : Nat) : (value : Nat) → List Char → Except NumeralFault Nat
  | value, [] => .ok value
  | value, c :: rest =>
    match digit? base c with
    | none => .error .invalidDigit
    | some d =>
      if value * base + d ≤ bound then digits base bound (value * base + d) rest
      else .error .tooLarge

/-- A number from zero to `bound`. A sign alone is a bad digit, and so is any minus sign. -/
def natural (base bound : Nat) : List Char → Except NumeralFault Nat
  | [] => .error .empty
  | ['+'] | ['-'] => .error .invalidDigit
  | '+' :: rest => digits base bound 0 rest
  | s => digits base bound 0 s

/-- A number from `-bound - 1` to `bound`. -/
def integer (base bound : Nat) : List Char → Except NumeralFault Int
  | [] => .error .empty
  | ['+'] | ['-'] => .error .invalidDigit
  | '+' :: rest => (digits base bound 0 rest).map Int.ofNat
  | '-' :: rest =>
    match digits base (bound + 1) 0 rest with
    | .ok n => .ok (-(n : Int))
    | .error .tooLarge => .error .tooSmall
    | .error fault => .error fault
  | s => (digits base bound 0 s).map Int.ofNat

/-- The greatest value of 32 bits. -/
def maxWord : Nat := 0xFFFFFFFF

/-- The greatest value of 63 bits. -/
def maxLong : Nat := 0x7FFFFFFFFFFFFFFF

/-- The octal digits of a number without leading zeros. -/
def octal (n : Nat) : String := String.ofList (Nat.toDigits 8 n)

end Numeral

end ImageLayer
