import ImageLayer.Bytes
/-!
Reading UTF-8 that may be broken.

`Utf8.read` splits a byte string into its well-formed characters and its faults, a fault being
the longest run of bytes that starts a character but cannot be completed, or one byte that can
start none. It is a machine that looks at each byte once: a byte that does not continue the
character begun before it ends that character with a fault and is then taken as a first byte.
Strict decoding refuses any fault; lossy decoding writes one replacement character for each.
-/

namespace ImageLayer.Utf8

/-- Where the machine stands: between two characters, or inside one that has `left` bytes to
come, the next of which lies between `least` and `greatest`. -/
inductive State where
  /-- Between two characters. -/
  | between
  /-- Inside a character whose bits so far are `value`. -/
  | inside (left value : Nat) (least greatest : UInt8)
  deriving DecidableEq, Repr

/-- The values that the second byte may take after a first byte of three or four bytes' width.
They exclude overlong forms, surrogates and everything above the last code point. -/
def secondRange (first : UInt8) : UInt8 × UInt8 :=
  if first = 0xE0 then (0xA0, 0xBF)
  else if first = 0xED then (0x80, 0x9F)
  else if first = 0xF0 then (0x90, 0xBF)
  else if first = 0xF4 then (0x80, 0x8F)
  else (0x80, 0xBF)

/-- Takes a byte as the first of a character. -/
def start (b : UInt8) : List (Option Char) × State :=
  if b < 0x80 then ([some (Char.ofNat b.toNat)], .between)
  else if b < 0xC2 || 0xF4 < b then ([none], .between)
  else if b < 0xE0 then ([], .inside 1 (b.toNat % 32) 0x80 0xBF)
  else
    let (least, greatest) := secondRange b
    if b < 0xF0 then ([], .inside 2 (b.toNat % 16) least greatest)
    else ([], .inside 3 (b.toNat % 8) least greatest)

/-- Takes one byte: the characters and faults it completes, and the state after it. -/
def step : State → UInt8 → List (Option Char) × State
  | .between, b => start b
  | .inside left value least greatest, b =>
    if least ≤ b && b ≤ greatest then
      let value := value * 64 + b.toNat % 64
      if left ≤ 1 then ([some (Char.ofNat value)], .between)
      else ([], .inside (left - 1) value 0x80 0xBF)
    else
      let (found, state) := start b
      (none :: found, state)

/-- The characters of a byte string from a state on, `none` for each fault. -/
def readFrom : State → Bytes → List (Option Char)
  | .between, [] => []
  | .inside .., [] => [none]
  | s, b :: rest => (step s b).1 ++ readFrom (step s b).2 rest

/-- The characters of a byte string in order, `none` for each fault. -/
def read (bs : Bytes) : List (Option Char) := readFrom .between bs

/-- The text of a byte string without faults. -/
def decode? (bs : Bytes) : Option String := ((read bs).mapM id).map String.ofList

/-- The text of a byte string, each fault written as U+FFFD. -/
def lossy (bs : Bytes) : String := String.ofList ((read bs).map (·.getD '\uFFFD'))

/-- The longest part of a byte string, from its start, that is well formed. -/
def wellFormedPart (bs : Bytes) : Bytes :=
  (((read bs).takeWhile Option.isSome).filterMap id).flatMap String.utf8EncodeChar

end ImageLayer.Utf8
