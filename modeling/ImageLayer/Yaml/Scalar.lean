import ImageLayer.Bytes
import ImageLayer.Yaml.Text
/-!
Scalars as they are written: plain, between quotes, or as a block of lines.

What stands between two words of a plain or quoted scalar is a gap (`Gap`). Blanks in one line are kept; a
single break becomes a blank, and of several breaks the first is dropped.

A plain scalar ends where an indicator or a comment starts, or where a line is not indented further than those
around it. A quoted one ends at its quote, whatever lines it reaches over, and the escapes in it are replaced.
In a block every line that is indented as far as the first one belongs to the scalar, and the header of the
block says whether its lines are joined and what becomes of the breaks at its end (`BlockHeader`).

Every reader goes through the text character by character, with what was read so far reversed, and gives back
the text that follows.
-/

namespace ImageLayer.Yaml

/-- How a scalar is written. -/
inductive Style where
  /-- Without quotes. -/
  | plain
  /-- Between quotes of either kind. -/
  | quoted
  /-- As a block whose breaks are kept. -/
  | literal
  /-- As a block whose lines are joined. -/
  | folded
  deriving DecidableEq, Repr

/-! ## Gaps -/

/-- What was met between two words. -/
inductive Gap where
  /-- Nothing. -/
  | none
  /-- Blanks, the last one first. -/
  | blanks (reversed : List Char)
  /-- A break, if it was not escaped, and the further breaks, the last one first. -/
  | breaks (first : Option Char) (reversed : List Char)
  deriving DecidableEq, Repr

namespace Gap

/-- The gap with a further blank, which says nothing behind a break. -/
def addBlank (c : Char) : Gap → Gap
  | .none => .blanks [c]
  | .blanks l => .blanks (c :: l)
  | g => g

/-- The gap with a further break, before which blanks say nothing. -/
def addBreak (c : Char) : Gap → Gap
  | .breaks first l => .breaks first (c :: l)
  | _ => .breaks (some c) []

/-- Whether the gap reaches over a break. -/
def isBroken : Gap → Bool
  | .breaks .. => true
  | _ => false

/-- What the gap stands for, the last character first. -/
def reversed : Gap → List Char
  | .none => []
  | .blanks l => l
  | .breaks first l =>
    if first = some '\n' then (if l.isEmpty then [' '] else l) else l ++ first.toList

end Gap

/-! ## Plain scalars -/

/-- A plain scalar that was read. -/
structure PlainScalar where
  /-- Its text. -/
  text : List Char
  /-- Whether breaks follow it. -/
  broken : Bool
  /-- What follows it. -/
  cursor : Cursor

/-- The characters that end a plain scalar inside brackets. -/
def isFlowEnd (c : Char) : Bool := c = ',' || c = '[' || c = ']' || c = '\x7b' || c = '\x7d'

/-- Whether a gap ends a plain scalar at the text that follows it. -/
def gapEnds (flow : Bool) (indent : Nat) (m : Mark) (text : List Char) : Bool :=
  (!flow && m.column < indent) || (m.column = 0 && startsWithDocumentMark text) ||
    text.head? = some '#'

/-- Whether a colon that must not stand in a plain scalar inside brackets comes next. -/
def misplacedColon (flow : Bool) (text : List Char) : Bool :=
  match text with
  | ':' :: c :: _ => flow && (isFlowEnd c || c = '?')
  | _ => false

/-- Whether an indicator that ends a plain scalar comes next. -/
def indicatorEnds (flow : Bool) (text : List Char) : Bool :=
  match text with
  | [] => true
  | c :: rest => (c = ':' && endsWord rest) || (flow && isFlowEnd c)

/-- Reads on in a plain scalar, of which `before` was read, the last character first. -/
def plainFrom (flow : Bool) (indent : Nat) (before : List Char) (gap : Gap) (m : Mark) :
    List Char → Option PlainScalar
  | [] => some ⟨before.reverse, gap.isBroken, ⟨[], m⟩⟩
  | c :: rest =>
    if isBlank c then
      if gap.isBroken && m.column < indent && c = '\t' then none
      else plainFrom flow indent before (gap.addBlank c) (m.right 1) rest
    else if isBreak c then plainFrom flow indent before (gap.addBreak c) m.down rest
    else if gap ≠ .none && gapEnds flow indent m (c :: rest) then
      some ⟨before.reverse, gap.isBroken, ⟨c :: rest, m⟩⟩
    else if misplacedColon flow (c :: rest) then none
    else if indicatorEnds flow (c :: rest) then
      some ⟨before.reverse, gap.isBroken, ⟨c :: rest, m⟩⟩
    else plainFrom flow indent (c :: (gap.reversed ++ before)) .none (m.past c) rest

/-! ## Quoted scalars -/

/-- The character that an escape of one character stands for. -/
def escaped? (c : Char) : Option Char :=
  match c with
  | '0' => some '\x00'
  | 'a' => some '\x07'
  | 'b' => some '\x08'
  | 't' | '\t' => some '\t'
  | 'n' => some '\n'
  | 'v' => some '\x0b'
  | 'f' => some '\x0c'
  | 'r' => some '\r'
  | 'e' => some '\x1b'
  | ' ' => some ' '
  | '"' => some '"'
  | '/' => some '/'
  | '\\' => some '\\'
  | 'N' => some '\u0085'
  | '_' => some '\u00A0'
  | 'L' => some '\u2028'
  | 'P' => some '\u2029'
  | _ => none

/-- How many digits follow an escape by number. -/
def escapeWidth? (c : Char) : Option Nat :=
  match c with
  | 'x' => some 2
  | 'u' => some 4
  | 'U' => some 8
  | _ => none

/-- Reads on in a scalar between double quotes, of which `before` was read, the last character first.
An escape by number that was begun has some digits left and a value so far. -/
def doubleFrom (before : List Char) (gap : Gap) (number : Option (Nat × Nat)) (m : Mark) :
    List Char → Option (List Char × Cursor)
  | [] => none
  | c :: rest =>
    match number with
    | some (left, value) =>
      match Bytes.hexValue? c with
      | none => none
      | some d =>
        let value := value * 16 + d
        if 1 < left then doubleFrom before .none (some (left - 1, value)) (m.right 1) rest
        else if value.isValidChar then
          doubleFrom (Char.ofNat value :: before) .none none (m.right 1) rest
        else none
    | none =>
      if isBlank c then doubleFrom before (gap.addBlank c) none (m.right 1) rest
      else if isBreak c then doubleFrom before (gap.addBreak c) none m.down rest
      else if m.column = 0 && startsWithDocumentMark (c :: rest) then none
      else
        let before := gap.reversed ++ before
        if c = '"' then some (before.reverse, ⟨rest, m.right 1⟩)
        else if c = '\\' then
          match rest with
          | [] => none
          | e :: rest =>
            if isBreak e then doubleFrom before (.breaks none []) none m.down rest
            else match escapeWidth? e, escaped? e with
              | some width, _ => doubleFrom before .none (some (width, 0)) (m.right 2) rest
              | none, some ch => doubleFrom (ch :: before) .none none (m.right 2) rest
              | none, none => none
        else doubleFrom (c :: before) .none none (m.past c) rest

/-- Reads on in a scalar between single quotes, of which `before` was read, the last character first.
A quote is written twice. -/
def singleFrom (before : List Char) (gap : Gap) (m : Mark) :
    List Char → Option (List Char × Cursor)
  | [] => none
  | '\'' :: '\'' :: rest =>
    singleFrom ('\'' :: (gap.reversed ++ before)) .none (m.right 2) rest
  | c :: rest =>
    if isBlank c then singleFrom before (gap.addBlank c) (m.right 1) rest
    else if isBreak c then singleFrom before (gap.addBreak c) m.down rest
    else if m.column = 0 && startsWithDocumentMark (c :: rest) then none
    else if c = '\'' then some ((gap.reversed ++ before).reverse, ⟨rest, m.right 1⟩)
    else singleFrom (c :: (gap.reversed ++ before)) .none (m.past c) rest

/-! ## Blocks -/

/-- What happens to the breaks at the end of a block. -/
inductive Chomping where
  /-- All are dropped. -/
  | strip
  /-- One is kept. -/
  | clip
  /-- All are kept. -/
  | keep
  deriving DecidableEq, Repr

/-- What the first line of a block says about it. -/
structure BlockHeader where
  /-- What happens to the breaks at the end. -/
  chomping : Chomping
  /-- How far the lines are indented, unless it is for the first line to say. -/
  increment : Option Nat
  deriving DecidableEq, Repr

/-- The chomping that a character asks for. -/
def chomping? (c : Char) : Option Chomping :=
  if c = '+' then some .keep else if c = '-' then some .strip else none

/-- The increment that a character asks for. -/
def increment? (c : Char) : Option Nat :=
  if '1' ≤ c && c ≤ '9' then some (c.toNat - 48) else none

/-- Reads the indicators of a block, in either order, and how many there are. A zero is left, and is
then no comment. -/
def blockHeader (text : List Char) : BlockHeader × Nat :=
  match text with
  | [] => (⟨.clip, none⟩, 0)
  | a :: rest =>
    match chomping? a, increment? a with
    | some chomping, _ =>
      match rest.head?.bind increment? with
      | some n => (⟨chomping, some n⟩, 2)
      | none => (⟨chomping, none⟩, 1)
    | none, some n =>
      match rest.head?.bind chomping? with
      | some chomping => (⟨chomping, some n⟩, 2)
      | none => (⟨.clip, some n⟩, 1)
    | none, none => (⟨.clip, none⟩, 0)

/-- A block that is being read. -/
structure Block where
  /-- How far its lines are indented; zero until that is known. -/
  indent : Nat
  /-- The furthest that a line was indented before that. -/
  widest : Nat := 0
  /-- The text so far, the last character first. -/
  text : List Char := []
  /-- The break that ended the last line of text. -/
  lineBreak : Option Char := none
  /-- The breaks behind that, the last one first. -/
  breaks : List Char := []
  /-- Whether the last line of text started with a blank. -/
  blankStart : Bool := false
  /-- Whether a line of text is being read. -/
  inLine : Bool := false

namespace Block

/-- Starts a line of text with its first character. Lines are joined where breaks are folded, unless
one of the two starts with a blank. -/
def startLine (folded : Bool) (b : Block) (c : Char) : Block :=
  let joins := folded && b.lineBreak = some '\n' && !b.blankStart && !isBlank c
  let first := if joins then (if b.breaks.isEmpty then [' '] else []) else b.lineBreak.toList
  { b with
    text := c :: (b.breaks ++ (first ++ b.text)), lineBreak := none, breaks := []
    blankStart := isBlank c, inLine := true }

/-- The text of a block at its end. -/
def finish (b : Block) (chomping : Chomping) : List Char :=
  let ending := match chomping with
    | .strip => []
    | .clip => b.lineBreak.toList
    | .keep => b.breaks ++ b.lineBreak.toList
  (ending ++ b.text).reverse

end Block

/-- Reads on in a block whose lines are indented by `least` at least. -/
def blockFrom (folded : Bool) (least : Nat) (b : Block) (m : Mark) :
    List Char → Option (Block × Cursor)
  | [] => some (b, ⟨[], m⟩)
  | c :: rest =>
    if b.inLine then
      if isBreak c then
        blockFrom folded least { b with inLine := false, lineBreak := some c } m.down rest
      else blockFrom folded least { b with text := c :: b.text } (m.past c) rest
    else
      let isOpen := b.indent = 0 || m.column < b.indent
      if isOpen && c = ' ' then blockFrom folded least b (m.right 1) rest
      else if isOpen && c = '\t' then none
      else
        let b := { b with widest := max b.widest m.column }
        if isBreak c then blockFrom folded least { b with breaks := c :: b.breaks } m.down rest
        else
          let b := if b.indent = 0 then { b with indent := max b.widest least } else b
          if m.column = b.indent then
            blockFrom folded least (b.startLine folded c) (m.past c) rest
          else some (b, ⟨c :: rest, m⟩)

/-- Reads a block behind its indicator, where the lines around it are indented by `outer`. -/
def readBlock (folded : Bool) (outer : Int) (start : Cursor) : Option (List Char × Cursor) := do
  let (header, count) := blockHeader start.rest
  let body ← Cursor.lineEnd ⟨start.rest.drop count, start.mark.right count⟩
  let indent := (header.increment.map fun n => outer.toNat + n).getD 0
  let least := max (outer + 1).toNat 1
  let (b, cursor) ← blockFrom folded least { indent := indent } body.mark body.rest
  return (b.finish header.chomping, cursor)

end ImageLayer.Yaml
