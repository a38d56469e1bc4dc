import ImageLayer.Bytes
/-!
Identifiers for the elements of a document.

An identifier may contain letters, digits, hyphens and full stops of ASCII. Any other text is made
into one by replacing each run of other characters byte by byte: `C` and the byte's number for a
character of ASCII, and `C65533`, the number of the replacement character, for each byte of a longer
one.
-/

namespace ImageLayer.Identifier

/-- The characters of identifiers. -/
def isAllowed (c : Char) : Bool := c.isAlphanum || c = '-' || c = '.'

/-- The number written for a byte. -/
def codeOf (b : UInt8) : Nat := if b < 0x80 then b.toNat else 0xFFFD

/-- What is written for characters that are not allowed: `C` and a number for each of their bytes. -/
def escapeRun (run : List Char) : List Char :=
  (run.flatMap String.utf8EncodeChar).flatMap fun b => 'C' :: Nat.toDigits 10 (codeOf b)

/-- A text cut into the longest runs of characters of which all are allowed or none is. -/
def runs (cs : List Char) : List (List Char) := cs.splitBy fun c d => isAllowed c = isAllowed d

/-- The identifier made of a text. -/
def sanitize (s : String) : String :=
  String.ofList ((runs s.toList).flatMap fun run => if run.all isAllowed then run else escapeRun run)

end ImageLayer.Identifier
