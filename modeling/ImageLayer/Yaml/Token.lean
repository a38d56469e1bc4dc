import ImageLayer.Yaml.Scalar
import ImageLayer.Yaml.Tag
/-!
The tokens of a YAML stream.

Indentation is made explicit: a line that is indented further than those around it starts a block, and a line
that is indented less ends one. Whether a scalar is the key of a mapping shows only at the colon behind it, so
every place where a key may start is remembered (`PendingKey`), and the key token is put there afterwards. Such
a key ends in the line it starts in and within 1024 bytes.

Sections:

* The state of a scan: the text that is left, the tokens so far, the columns of the blocks that are open, and
  the keys that may have started.
* Indentation. Starting a block and ending all blocks that are further in than a column.
* Between tokens: blanks, comments and breaks. A break may let a key start, and may end blocks.
* Tokens, one computation for each, chosen by the characters that come next (`Scan.tokenAt`).

A scan refuses the stream as a whole and does not say where. It takes a character at least for each token, so
that the length of the text is fuel enough for all of it.
-/

namespace ImageLayer.Yaml

/-- A token. -/
inductive Token where
  /-- The end of the stream. -/
  | streamEnd
  /-- The mark that begins a document. -/
  | documentStart
  /-- The mark that ends a document. -/
  | documentEnd
  /-- A directive. -/
  | directive (value : Directive)
  /-- The start of a sequence by lines. -/
  | blockSequence
  /-- The start of a mapping by lines. -/
  | blockMapping
  /-- The end of a sequence or a mapping by lines. -/
  | blockEnd
  /-- The start of a sequence in brackets. -/
  | flowSequence
  /-- The end of a sequence in brackets. -/
  | flowSequenceEnd
  /-- The start of a mapping in braces. -/
  | flowMapping
  /-- The end of a mapping in braces. -/
  | flowMappingEnd
  /-- The dash in front of an item. -/
  | entry
  /-- The comma between items. -/
  | separator
  /-- The start of a key. -/
  | key
  /-- The start of a value. -/
  | value
  /-- A use of an anchored node. -/
  | alias (name : String)
  /-- The name of the node that follows. -/
  | anchor (name : String)
  /-- The tag of the node that follows. -/
  | tag (name : TagName)
  /-- A scalar. -/
  | scalar (style : Style) (text : String)
  deriving DecidableEq, Repr

/-! ## The state of a scan -/

/-- A place where a key may have started. -/
structure PendingKey where
  /-- Whether there is no other way to read what starts there. -/
  required : Bool
  /-- The number of tokens before it. -/
  index : Nat
  /-- The place. -/
  mark : Mark
  deriving DecidableEq, Repr

/-- How many bytes a key may reach over. -/
def keyReach : Nat := 1024

/-- Whether a key that started at a place would have ended before another place. -/
def PendingKey.isPast (k : PendingKey) (m : Mark) : Bool :=
  k.mark.line < m.line || k.mark.offset + keyReach < m.offset

/-- The state between two tokens. -/
structure Scanner where
  /-- What is left of the stream. -/
  cursor : Cursor
  /-- The tokens so far, the last one first. -/
  tokens : List Token
  /-- The column of the innermost block, less than zero outside of all. -/
  indent : Int
  /-- The columns of the blocks around it, the innermost first. -/
  indents : List Int
  /-- Whether a key may start here. -/
  keyAllowed : Bool
  /-- The key that may have started inside the innermost brackets. -/
  pending : Option PendingKey
  /-- The keys that may have started outside of the brackets, from the innermost on. -/
  levels : List (Option PendingKey)

/-- A computation on the state that may refuse the stream. -/
abbrev Scan := StateT Scanner Option

/-- The state at the start of a text. -/
def Scanner.start (text : List Char) : Scanner := ⟨⟨text, ⟨0, 0, 0⟩⟩, [], -1, [], true, none, []⟩

/-- Whether there are brackets around. -/
def Scanner.inFlow (s : Scanner) : Bool := !s.levels.isEmpty

namespace Scan

/-- Adds a token at the end. -/
def emit (t : Token) : Scan Unit := modify fun s => { s with tokens := t :: s.tokens }

/-- Puts tokens behind the first `index` ones. -/
def insertAt (index : Nat) (new : List Token) : Scan Unit := modify fun s =>
  let later := s.tokens.length - index
  { s with tokens := s.tokens.take later ++ (new.reverse ++ s.tokens.drop later) }

/-- Goes on behind some characters. -/
def moveTo (c : Cursor) : Scan Unit := modify fun s => { s with cursor := c }

/-- Goes on behind some characters of the line. -/
def skip (count : Nat) : Scan Unit := do moveTo ((← get).cursor.skip count)

/-- Says whether a key may start here. -/
def allowKey (allowed : Bool) : Scan Unit := modify fun s => { s with keyAllowed := allowed }

/-- Gives up the key that may have started. -/
def dropKey : Scan Unit := do
  if (← get).pending.any (·.required) then failure
  modify fun s => { s with pending := none }

/-- Remembers that a key may start here. -/
def saveKey : Scan Unit := do
  if (← get).keyAllowed then
    dropKey
    modify fun s => { s with
      pending := some ⟨!s.inFlow && s.indent = s.cursor.mark.column, s.tokens.length,
        s.cursor.mark⟩ }

/-- A pending key as it is at a place: given up once it is past. -/
def freshKey (m : Mark) (key : Option PendingKey) : Option (Option PendingKey) :=
  match key with
  | some k => if k.isPast m then (if k.required then none else some none) else some (some k)
  | none => some none

/-- Gives up all keys that are past. -/
def dropPastKeys : Scan Unit := do
  let s ← get
  let pending ← freshKey s.cursor.mark s.pending
  let levels ← (s.levels.mapM (freshKey s.cursor.mark) : Option _)
  set { s with pending := pending, levels := levels }

/-! ## Indentation -/

/-- Starts a block at a column if it is further in than the lines around it; its token comes behind the
first `index` tokens. -/
def openBlock (column index : Nat) (t : Token) : Scan Unit := do
  let s ← get
  if !s.inFlow && s.indent < column then
    set { s with indent := column, indents := s.indent :: s.indents }
    insertAt index [t]

/-- The innermost column that is not further in than a column, the columns around it, and the number of
blocks that end. -/
def outdent (column indent : Int) : List Int → Int × List Int × Nat
  | [] => (indent, [], 0)
  | i :: rest =>
    if column < indent then
      let (indent, indents, count) := outdent column i rest
      (indent, indents, count + 1)
    else (indent, i :: rest, 0)

/-- Ends all blocks that are further in than a column. -/
def closeBlocks (column : Int) : Scan Unit := do
  let s ← get
  if !s.inFlow then
    let (indent, indents, count) := outdent column s.indent s.indents
    set { s with
      indent := indent, indents := indents
      tokens := List.replicate count Token.blockEnd ++ s.tokens }

/-! ## Between tokens -/

/-- Passes over blanks, comments and breaks. Outside of brackets a key may start behind a break; where
one may start, tabs are no blanks. -/
def gapFrom (flow keyAllowed inComment : Bool) (m : Mark) : List Char → Bool × Cursor
  | [] => (keyAllowed, ⟨[], m⟩)
  | c :: rest =>
    if isBreak c then gapFrom flow (keyAllowed || !flow) false m.down rest
    else if inComment || c = ' ' || (c = '\t' && (flow || !keyAllowed)) ||
        (c = byteOrderMark && m.column = 0) then
      gapFrom flow keyAllowed inComment (m.past c) rest
    else if c = '#' then gapFrom flow keyAllowed true (m.right 1) rest
    else (keyAllowed, ⟨c :: rest, m⟩)

/-- Passes over what stands between two tokens, and ends the blocks that end there. -/
def toNext : Scan Unit := do
  let s ← get
  let (keyAllowed, cursor) := gapFrom s.inFlow s.keyAllowed false s.cursor.mark s.cursor.rest
  set { s with keyAllowed := keyAllowed, cursor := cursor }
  dropPastKeys
  closeBlocks cursor.mark.column

/-! ## Tokens -/

/-- Leaves all blocks, as a mark or a directive at the start of a line does. -/
def leaveBlocks : Scan Unit := do
  closeBlocks (-1)
  dropKey
  allowKey false

/-- A mark of three characters. -/
def documentMark (t : Token) : Scan Unit := do
  leaveBlocks
  emit t
  skip 3

/-- A directive. -/
def directive : Scan Unit := do
  leaveBlocks
  let (value, after) ← ((← get).cursor.skip 1).directive?
  emit (.directive value)
  moveTo after

/-- An opening bracket. -/
def openFlow (t : Token) : Scan Unit := do
  saveKey
  modify fun s => { s with levels := s.pending :: s.levels, pending := none }
  allowKey true
  emit t
  skip 1

/-- A closing bracket. -/
def closeFlow (t : Token) : Scan Unit := do
  dropKey
  modify fun s => match s.levels with
    | [] => s
    | pending :: levels => { s with pending := pending, levels := levels }
  allowKey false
  emit t
  skip 1

/-- A comma between items. -/
def separator : Scan Unit := do
  dropKey
  allowKey true
  emit .separator
  skip 1

/-- Starts a block here outside of brackets, where a key must be allowed for that. -/
def openBlockHere (t : Token) : Scan Unit := do
  let s ← get
  if !s.inFlow then
    if !s.keyAllowed then failure
    openBlock s.cursor.mark.column s.tokens.length t

/-- A dash in front of an item. -/
def entry : Scan Unit := do
  openBlockHere .blockSequence
  dropKey
  allowKey true
  emit .entry
  skip 1

/-- A question mark in front of a key. -/
def explicitKey : Scan Unit := do
  openBlockHere .blockMapping
  dropKey
  allowKey (!(← get).inFlow)
  emit .key
  skip 1

/-- A colon in front of a value. If a key may have started, it did. -/
def value : Scan Unit := do
  match (← get).pending with
  | some k =>
    insertAt k.index [.key]
    openBlock k.mark.column k.index .blockMapping
    modify fun s => { s with pending := none }
    allowKey false
  | none =>
    openBlockHere .blockMapping
    allowKey (!(← get).inFlow)
  emit .value
  skip 1

/-- A token that may be a key or the start of one, read from the text. -/
def inline {α : Type} (read : Cursor → Option (α × Cursor)) (token : α → Token) : Scan Unit := do
  saveKey
  allowKey false
  let (value, after) ← read (← get).cursor
  emit (token value)
  moveTo after

/-- A scalar between quotes. -/
def quoted (read : Mark → List Char → Option (List Char × Cursor)) : Scan Unit :=
  inline (fun c => read (c.mark.right 1) (c.rest.drop 1)) fun text =>
    .scalar .quoted (String.ofList text)

/-- A plain scalar. A key may start behind one that breaks follow. -/
def plain : Scan Unit := do
  saveKey
  allowKey false
  let s ← get
  let scalar ←
    plainFrom s.inFlow (s.indent + 1).toNat [] .none s.cursor.mark s.cursor.rest
  if scalar.broken then allowKey true
  emit (.scalar .plain (String.ofList scalar.text))
  moveTo scalar.cursor

/-- A block of lines. -/
def block (folded : Bool) : Scan Unit := do
  dropKey
  allowKey true
  let s ← get
  let (text, after) ← readBlock folded s.indent (s.cursor.skip 1)
  emit (.scalar (if folded then .folded else .literal) (String.ofList text))
  moveTo after

/-- The characters that start something other than a plain scalar. -/
def isIndicator (c : Char) : Bool := "-?:,[]\x7b\x7d#&*!|>'\"%@\x60".toList.contains c

/-- Whether a plain scalar starts with a character in front of a text, where no other token starts. -/
def startsPlain (flow : Bool) (c : Char) (rest : List Char) : Bool :=
  !(isIndicator c || isBlank c) || (c = '-' && !rest.head?.any isBlank) ||
    (!flow && (c = '?' || c = ':') && !endsWord rest)

/-- The token that starts with a character in front of a text. -/
def tokenAt (s : Scanner) (c : Char) (rest : List Char) : Scan Unit :=
  let flow := s.inFlow
  let ends := endsWord rest
  let atStart := s.cursor.mark.column = 0
  if atStart && c = '%' then directive
  else if atStart && startsWithMark '-' (c :: rest) then documentMark .documentStart
  else if atStart && startsWithMark '.' (c :: rest) then documentMark .documentEnd
  else if c = '[' then openFlow .flowSequence
  else if c = '\x7b' then openFlow .flowMapping
  else if c = ']' then closeFlow .flowSequenceEnd
  else if c = '\x7d' then closeFlow .flowMappingEnd
  else if c = ',' then separator
  else if c = '-' && ends then entry
  else if c = '?' && (flow || ends) then explicitKey
  else if c = ':' && (flow || ends) then value
  else if c = '*' then inline (fun c => (c.skip 1).anchor?) .alias
  else if c = '&' then inline (fun c => (c.skip 1).anchor?) .anchor
  else if c = '!' then inline (·.tag? flow) .tag
  else if c = '|' && !flow then block false
  else if c = '>' && !flow then block true
  else if c = '\'' then quoted (singleFrom [] .none)
  else if c = '"' then quoted (doubleFrom [] .none none)
  else if startsPlain flow c rest then plain
  else failure

/-- Reads tokens up to the end of the stream. Every token has a character at least, so the length of
the text is fuel enough. -/
def toEnd : (fuel : Nat) → Scan Unit
  | 0 => failure
  | fuel + 1 => do
    toNext
    let s ← get
    match s.cursor.rest with
    | [] =>
      leaveBlocks
      emit .streamEnd
    | c :: rest =>
      tokenAt s c rest
      toEnd fuel

end Scan

/-- The tokens of a stream, unless it has a character or a token that it must not have. -/
def Token.scan (stream : String) : Option (List Token) :=
  if stream.toList.all isPrintable then
    let text := unifyBreaks stream.toList
    match Scan.toEnd (text.length + 1) (Scanner.start text) with
    | some (_, s) => some s.tokens.reverse
    | none => none
  else none

end ImageLayer.Yaml
