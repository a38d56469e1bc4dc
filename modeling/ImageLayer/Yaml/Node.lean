import ImageLayer.Yaml.Token
/-!
The nodes of a YAML document.

A document is one node: a scalar, a sequence or a mapping. A node may have an anchor, under which an alias
further on names it again. Aliases are kept as they are (`Node.alias`), and what they stand for is looked up
when they are followed.

`Document.ofTokens?` reads a document by descent, with one function for each form of a node. These call each
other, and each call passes over a token or goes on to a smaller form, so that they are given fuel by the number
of tokens. Where the grammar lets a node be left out, an empty plain scalar stands for it (`Node.blank`).

Sections:

* Properties: an anchor and a tag, in either order, in front of a node. A tag is written with a handle, whose
  meaning comes from the document or from a fixed list.
* Nodes: sequences and mappings by lines and in brackets.
* Documents. A stream holds one document, with directives in front of it.
-/

namespace ImageLayer.Yaml

/-- A node. -/
inductive Node where
  /-- A scalar. -/
  | scalar (tag : Option Bytes) (style : Style) (text : String)
  /-- A sequence. -/
  | sequence (tag : Option Bytes) (items : List Node)
  /-- A mapping, its entries as they are written. -/
  | mapping (tag : Option Bytes) (entries : List (Node × Node))
  /-- A node that stands elsewhere, under the number of its anchor. -/
  | alias (anchor : Nat)
  deriving Repr

/-- What is read where a node is left out. -/
def Node.blank : Node := .scalar none .plain ""

instance : Inhabited Node := ⟨.blank⟩

/-- The tag of a node. -/
def Node.tag? : Node → Option Bytes
  | .scalar tag .. | .sequence tag _ | .mapping tag _ => tag
  | .alias _ => none

/-- A node with an anchor. -/
structure Anchored where
  /-- The number of the anchor. -/
  anchor : Nat
  /-- The number of parts of nodes before it. -/
  position : Nat
  /-- The node. -/
  node : Node

/-- A document. -/
structure Document where
  /-- Its node. -/
  root : Node
  /-- The number of parts of nodes: one for a scalar or an alias, two for anything else. -/
  parts : Nat
  /-- The nodes with anchors. -/
  anchored : List Anchored

namespace Document

/-- Of two nodes with anchors the one that starts later. -/
def later (a : Option Anchored) (b : Anchored) : Option Anchored :=
  match a with
  | some a => if b.position < a.position then some a else some b
  | none => some b

/-- The node that an anchor stands for: of several the one that starts last. -/
def target? (d : Document) (anchor : Nat) : Option Node :=
  ((d.anchored.filter (·.anchor = anchor)).foldl later none).map Anchored.node

end Document

/-! ## Reading a document -/

/-- The state of reading a document. -/
structure Reading where
  /-- The tokens that are left. -/
  tokens : List Token
  /-- What the handles of tags stand for. -/
  handles : List (String × Bytes)
  /-- The numbers of the anchors so far, the last one first. -/
  anchors : List (String × Nat)
  /-- The nodes with anchors so far. -/
  anchored : List Anchored
  /-- The parts of nodes so far. -/
  parts : Nat

/-- A computation on tokens that may refuse them. -/
abbrev Reader := StateT Reading Option

namespace Reader

/-- The next token. -/
def peek : Reader Token := do
  match (← get).tokens with
  | t :: _ => return t
  | [] => failure

/-- Passes over a token. -/
def advance : Reader Unit := modify fun s => { s with tokens := s.tokens.tail }

/-- Passes over a token if it comes next, and says whether it did. -/
def accept (t : Token) : Reader Bool := do
  if (← peek) = t then
    advance
    return true
  return false

/-- Passes over a token that must come next. -/
def expect (t : Token) : Reader Unit := do
  if !(← accept t) then failure

/-- Counts parts of nodes. -/
def count (n : Nat) : Reader Unit := modify fun s => { s with parts := s.parts + n }

/-- An empty scalar for a node that is left out. -/
def blank : Reader Node := do
  count 1
  return .blank

/-! ## Properties -/

/-- What stands in front of a node. -/
structure Properties where
  /-- The name of its anchor. -/
  anchor : Option String := none
  /-- Its tag. -/
  tag : Option TagName := none

/-- Reads the properties of a node, an anchor and a tag in either order. -/
def properties : Reader Properties := do
  match ← peek with
  | .anchor anchor =>
    advance
    match ← peek with
    | .tag tag =>
      advance
      return ⟨some anchor, some tag⟩
    | _ => return ⟨some anchor, none⟩
  | .tag tag =>
    advance
    match ← peek with
    | .anchor anchor =>
      advance
      return ⟨some anchor, some tag⟩
    | _ => return ⟨none, some tag⟩
  | _ => return {}

/-- The meaning of a tag. -/
def meaning (tag : TagName) : Reader Bytes := do
  if tag.handle.isEmpty then return tag.suffix
  let lead ← ((← get).handles.lookup tag.handle : Option Bytes)
  return lead ++ tag.suffix

/-- Gives a number to an anchor: the number of names that were given to anchors before. -/
def register (name : String) : Reader Nat := do
  let s ← get
  let number := s.anchors.length
  set { s with anchors := (name, number) :: s.anchors.filter fun a => a.1 ≠ name }
  return number

/-- Notes the node of an anchor, which starts behind a number of parts. -/
def note (position : Nat) (n : Node) (anchor : Nat) : Reader Unit :=
  modify fun s => { s with anchored := ⟨anchor, position, n⟩ :: s.anchored }

/-! ## Nodes -/

/-- Whether a token is among those that stand where a node is left out. -/
def isOneOf (ts : List Token) : Reader Bool := return ts.contains (← peek)

mutual

/-- Reads a node. Blocks are read where `block` allows them, and items without an indentation of their
own where `indentless` does. -/
def node : (fuel : Nat) → (block indentless : Bool) → Reader Node
  | 0, _, _ => failure
  | fuel + 1, block, indentless => do
    match ← peek with
    | .alias name =>
      advance
      count 1
      return .alias (← ((← get).anchors.lookup name : Option Nat))
    | _ =>
      let p ← properties
      let tag ← p.tag.mapM meaning
      let position := (← get).parts
      let anchor ← p.anchor.mapM register
      let n ← content fuel block indentless tag (p.anchor.isSome || p.tag.isSome)
      anchor.forM (note position n)
      return n

/-- Reads a node behind its properties. It may be left out if there are any. -/
def content : (fuel : Nat) → (block indentless : Bool) → (tag : Option Bytes) →
    (optional : Bool) → Reader Node
  | 0, _, _, _, _ => failure
  | fuel + 1, block, indentless, tag, optional => do
    match ← peek, block, indentless with
    | .entry, _, true =>
      count 2
      return .sequence tag (← indentlessItems fuel)
    | .scalar style text, _, _ =>
      advance
      count 1
      return .scalar tag style text
    | .flowSequence, _, _ =>
      advance
      count 2
      return .sequence tag (← flowItems fuel true)
    | .flowMapping, _, _ =>
      advance
      count 2
      return .mapping tag (← flowEntries fuel true)
    | .blockSequence, true, _ =>
      advance
      count 2
      return .sequence tag (← blockItems fuel)
    | .blockMapping, true, _ =>
      advance
      count 2
      return .mapping tag (← blockEntries fuel)
    | _, _, _ =>
      if !optional then failure
      count 1
      return .scalar tag .plain ""

/-- Reads the items of a sequence by lines. -/
def blockItems : (fuel : Nat) → Reader (List Node)
  | 0 => failure
  | fuel + 1 => do
    if ← accept .blockEnd then return []
    expect .entry
    let item ← if ← isOneOf [.entry, .blockEnd] then blank else node fuel true false
    return item :: (← blockItems fuel)

/-- Reads the items of a sequence by lines that has no indentation of its own. -/
def indentlessItems : (fuel : Nat) → Reader (List Node)
  | 0 => failure
  | fuel + 1 => do
    if !(← accept .entry) then return []
    let item ←
      if ← isOneOf [.entry, .key, .value, .blockEnd] then blank else node fuel true false
    return item :: (← indentlessItems fuel)

/-- Reads the entries of a mapping by lines. -/
def blockEntries : (fuel : Nat) → Reader (List (Node × Node))
  | 0 => failure
  | fuel + 1 => do
    if ← accept .blockEnd then return []
    expect .key
    let key ← if ← isOneOf [.key, .value, .blockEnd] then blank else node fuel true true
    let value ← if ← accept .value then
        (if ← isOneOf [.key, .value, .blockEnd] then blank else node fuel true true)
      else blank
    return (key, value) :: (← blockEntries fuel)

/-- Reads the items of a sequence in brackets. -/
def flowItems : (fuel : Nat) → (first : Bool) → Reader (List Node)
  | 0, _ => failure
  | fuel + 1, first => do
    if ← accept .flowSequenceEnd then return []
    if !first then expect .separator
    if ← accept .flowSequenceEnd then return []
    let item ← if ← accept .key then pair fuel else node fuel false false
    return item :: (← flowItems fuel false)

/-- Reads a mapping of one entry behind the start of its key. Where the key is left out, the next token
is passed over. -/
def pair : (fuel : Nat) → Reader Node
  | 0 => failure
  | fuel + 1 => do
    count 2
    let key ←
      if ← isOneOf [.value, .separator, .flowSequenceEnd] then do
        advance
        blank
      else node fuel false false
    let value ← if ← accept .value then
        (if ← isOneOf [.separator, .flowSequenceEnd] then blank else node fuel false false)
      else blank
    return .mapping none [(key, value)]

/-- Reads the entries of a mapping in braces. -/
def flowEntries : (fuel : Nat) → (first : Bool) → Reader (List (Node × Node))
  | 0, _ => failure
  | fuel + 1, first => do
    if ← accept .flowMappingEnd then return []
    if !first then expect .separator
    if ← accept .flowMappingEnd then return []
    let isKey ← accept .key
    if !isKey then
      let key ← node fuel false false
      let value ← blank
      return (key, value) :: (← flowEntries fuel false)
    let key ←
      if ← isOneOf [.value, .separator, .flowMappingEnd] then blank else node fuel false false
    let value ← if ← accept .value then
        (if ← isOneOf [.separator, .flowMappingEnd] then blank else node fuel false false)
      else blank
    return (key, value) :: (← flowEntries fuel false)

end

/-! ## Documents -/

/-- What the directives in front of a document said. -/
structure Preamble where
  /-- Whether the version was given. -/
  versioned : Bool := false
  /-- The meanings of handles. -/
  handles : List (String × Bytes) := []

/-- Takes note of a directive. The versions are 1.1 and 1.2; nothing may be said twice. -/
def Preamble.add (p : Preamble) : Directive → Option Preamble
  | .version major minor =>
    if !p.versioned && major = 1 && (minor = 1 || minor = 2) then
      some { p with versioned := true }
    else none
  | .tag handle lead =>
    if (p.handles.lookup handle).isSome then none
    else some { p with handles := p.handles ++ [(handle, lead)] }

/-- Reads the directives in front of a document. -/
def preambleFrom (p : Preamble) : List Token → Option (Preamble × List Token)
  | .directive d :: rest => do preambleFrom (← p.add d) rest
  | rest => some (p, rest)

/-- What handles stand for where a document does not say it. -/
def standardHandles : List (String × Bytes) :=
  [("!", [0x21]), ("!!", Bytes.ofString "tag:yaml.org,2002:")]

/-- Whether there is nothing between the start of a document and a token. -/
def isEmptyBefore : Token → Bool
  | .directive _ | .documentStart | .documentEnd | .streamEnd => true
  | _ => false

/-- Reads the node of a document behind its start. A node that stands there without a mark must not be
left out. -/
def document (fuel : Nat) (marked : Bool) : Reader Document := do
  let t ← peek
  let root ← if marked && isEmptyBefore t then blank else node fuel true false
  let s ← get
  return ⟨root, s.parts, s.anchored⟩

/-- Whether the stream ends behind a document. -/
def isLast : List Token → Bool
  | .documentEnd :: rest => isLast rest
  | ts => ts = [.streamEnd]

end Reader

/-- The one document of a stream. An empty stream is an empty mapping. -/
def Document.ofTokens? (ts : List Token) : Option Document := do
  if ts = [.streamEnd] then return ⟨.mapping none [], 1, []⟩
  let (preamble, rest) ← Reader.preambleFrom {} ts
  let marked := rest.head? = some .documentStart
  if !marked && rest.length < ts.length then none
  let start : Reading :=
    ⟨if marked then rest.tail else rest, preamble.handles ++ Reader.standardHandles, [], [], 0⟩
  let (d, s) ← Reader.document (3 * ts.length + 8) marked start
  if Reader.isLast s.tokens then some d else none

/-- The one document of a stream as a text. -/
def Document.parse? (stream : String) : Option Document := do
  Document.ofTokens? (← Token.scan stream)

end ImageLayer.Yaml
