/-!
The characters of a YAML stream.

A stream may hold tabs, line breaks and printable characters only. The many ways to end a line are read
as one line feed each, but for the two separators that keep their own character.
-/

namespace ImageLayer.Yaml

/-- Whether a stream may hold a character. -/
def isPrintable (c : Char) : Bool :=
  c = '\t' || c = '\n' || c = '\r' || (' ' ≤ c && c ≤ '~') || c = '\u0085' ||
    ('\u00A0' ≤ c && c ≤ '\uFFFD') || 0x10000 ≤ c.toNat

/-- The mark that may stand at the start of a line and says nothing, but takes up a column. -/
def byteOrderMark : Char := '\uFEFF'

/-- A text in which every line ends in a line feed or in one of the two separators. -/
def unifyBreaks : List Char → List Char
  | [] => []
  | '\r' :: '\n' :: rest => '\n' :: unifyBreaks rest
  | c :: rest => (if c = '\r' || c = '\u0085' then '\n' else c) :: unifyBreaks rest

/-- Whether a character ends a line. -/
def isBreak (c : Char) : Bool := c = '\n' || c = '\u2028' || c = '\u2029'

/-- Whether a character separates words in a line. -/
def isBlank (c : Char) : Bool := c = ' ' || c = '\t'

/-- Whether a text is at its end, or goes on with a blank or a break. -/
def endsWord (text : List Char) : Bool :=
  match text with
  | [] => true
  | c :: _ => isBlank c || isBreak c

/-- The characters of names. -/
def isWord (c : Char) : Bool := c.isAlphanum || c = '_' || c = '-'

/-- Whether a line starts with a mark of three equal characters on its own. -/
def startsWithMark (c : Char) (text : List Char) : Bool :=
  match text with
  | a :: b :: d :: rest => a = c && b = c && d = c && endsWord rest
  | _ => false

/-- Whether a line starts with the mark that begins or the one that ends a document. -/
def startsWithDocumentMark (text : List Char) : Bool :=
  startsWithMark '-' text || startsWithMark '.' text

/-- A position in a text. -/
structure Mark where
  /-- The line, counted from zero. -/
  line : Nat
  /-- The column, counted from zero. -/
  column : Nat
  /-- The number of bytes that the line has before it in UTF-8. -/
  offset : Nat
  deriving DecidableEq, Repr

namespace Mark

/-- The position behind a character in the same line. -/
def past (m : Mark) (c : Char) : Mark := ⟨m.line, m.column + 1, m.offset + c.utf8Size⟩

/-- The position so many characters of one byte further in the same line. -/
def right (m : Mark) (count : Nat) : Mark := ⟨m.line, m.column + count, m.offset + count⟩

/-- The start of the next line. -/
def down (m : Mark) : Mark := ⟨m.line + 1, 0, 0⟩

end Mark

/-- What is left of a text, and where it starts. -/
structure Cursor where
  /-- What is left. -/
  rest : List Char
  /-- Where it starts. -/
  mark : Mark
  deriving DecidableEq, Repr

/-- Passes over the rest of a line that holds nothing but blanks and a comment; `inComment` says
whether the comment has begun. Anything else refuses. -/
def lineEndFrom (inComment : Bool) (m : Mark) : List Char → Option Cursor
  | [] => some ⟨[], m⟩
  | c :: rest =>
    if isBreak c then some ⟨rest, m.down⟩
    else if inComment || isBlank c then lineEndFrom inComment (m.past c) rest
    else if c = '#' then lineEndFrom true (m.right 1) rest
    else none

/-- Passes over the rest of a line that holds nothing but blanks and a comment. -/
def Cursor.lineEnd (c : Cursor) : Option Cursor := lineEndFrom false c.mark c.rest

end ImageLayer.Yaml
