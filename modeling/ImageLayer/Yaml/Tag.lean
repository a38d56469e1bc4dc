import ImageLayer.Bytes
import ImageLayer.Yaml.Text
/-!
Names, tags and directives as they are written.

A tag is a handle, which the document may give a meaning, and a suffix. What a tag spells with escapes
need not be text, so tags are bytes; a zero byte ends one.
-/

namespace ImageLayer.Yaml

namespace Cursor

/-- The place so many characters of one byte further in the same line. -/
def skip (c : Cursor) (count : Nat) : Cursor := ⟨c.rest.drop count, c.mark.right count⟩

/-- The longest run of characters of a kind, each of one byte and none a break, and what follows it. -/
def span (p : Char → Bool) (c : Cursor) : List Char × Cursor :=
  let run := c.rest.takeWhile p
  (run, c.skip run.length)

/-- Passes over blanks. -/
def blanks (c : Cursor) : Cursor := (c.span isBlank).2

/-- Whether a given character comes next. -/
def startsWith (c : Cursor) (next : Char) : Bool := c.rest.head? = some next

end Cursor

/-! ## Anchors -/

/-- What may follow the name of an anchor or an alias directly. -/
def isNameEnd (c : Char) : Bool := "?:,]\x7d%@\x60".toList.contains c

/-- Reads the name of an anchor or an alias behind its indicator. -/
def Cursor.anchor? (c : Cursor) : Option (String × Cursor) :=
  let (name, after) := c.span isWord
  if !name.isEmpty && (endsWord after.rest || after.rest.head?.any isNameEnd) then
    some (String.ofList name, after)
  else none

/-! ## Tags -/

/-- A tag as it is written. -/
structure TagName where
  /-- The part that the document may give a meaning; empty where the suffix is the whole tag. -/
  handle : String
  /-- The rest of the tag. -/
  suffix : Bytes
  deriving DecidableEq, Repr

/-- The characters of a tag's text; some stand there only if the whole tag is written out. -/
def isTagCharacter (whole : Bool) (c : Char) : Bool :=
  isWord c || ";/?:@&=+$.!~*'()".toList.contains c || (whole && ",[]".toList.contains c)

/-- How many bytes follow the first byte of a character. -/
def followers? (b : UInt8) : Option Nat :=
  if b < 0x80 then some 0
  else if b < 0xC0 then none
  else if b < 0xE0 then some 1
  else if b < 0xF0 then some 2
  else if b < 0xF8 then some 3
  else none

/-- Whether a byte can follow the first byte of a character. -/
def isFollower (b : UInt8) : Bool := 0x80 ≤ b && b < 0xC0

/-- Reads on in a tag's text, of which `before` was read, the last byte first, and in which `left`
further escapes must follow for the last one to make sense. -/
def tagTextFrom (whole : Bool) (before : Bytes) (left : Nat) (m : Mark) :
    List Char → Option (Bytes × Cursor)
  | [] => if left = 0 then some (before.reverse, ⟨[], m⟩) else none
  | c :: rest =>
    if c = '%' then
      match rest with
      | high :: low :: rest => do
        let b := UInt8.ofNat (16 * (← Bytes.hexValue? high) + (← Bytes.hexValue? low))
        let left ← if left = 0 then followers? b
          else if isFollower b then some (left - 1) else none
        tagTextFrom whole (b :: before) left (m.right 3) rest
      | _ => none
    else if left ≠ 0 then none
    else if isTagCharacter whole c then
      tagTextFrom whole (UInt8.ofNat c.toNat :: before) 0 (m.right 1) rest
    else some (before.reverse, ⟨c :: rest, m⟩)

/-- The bytes before the first zero byte. -/
def untilZero (bs : Bytes) : Bytes := bs.takeWhile (· ≠ 0)

/-- Reads a tag's text, which is not empty. -/
def Cursor.tagText? (whole : Bool) (c : Cursor) : Option (Bytes × Cursor) := do
  let (text, after) ← tagTextFrom whole [] 0 c.mark c.rest
  if text.isEmpty then none else some (untilZero text, after)

/-- Reads a handle. It starts with an exclamation mark, and is `closed` if it ends in another one. -/
def Cursor.handle? (c : Cursor) : Option (String × Bool × Cursor) :=
  if c.startsWith '!' then
    let (name, after) := (c.skip 1).span isWord
    if after.startsWith '!' then some (String.ofList ('!' :: name ++ ['!']), true, after.skip 1)
    else some (String.ofList ('!' :: name), false, after)
  else none

/-- Whether a tag is over at a text: blanks and breaks end it, and a comma does inside brackets. -/
def endsTag (flow : Bool) (text : List Char) : Bool :=
  endsWord text || (flow && text.head? = some ',')

/-- Reads a tag. One that is a mere exclamation mark has no handle. -/
def Cursor.tag? (flow : Bool) (c : Cursor) : Option (TagName × Cursor) := do
  let (tag, after) ←
    if (c.skip 1).startsWith '<' then do
      let (text, after) ← (c.skip 2).tagText? true
      if after.startsWith '>' then some ((⟨"", text⟩ : TagName), after.skip 1) else none
    else do
      let (handle, closed, after) ← c.handle?
      if closed then
        let (suffix, after) ← after.tagText? false
        some ((⟨handle, suffix⟩ : TagName), after)
      else
        let (more, after) ← tagTextFrom false [] 0 after.mark after.rest
        let suffix := untilZero (Bytes.ofString handle ++ more).tail
        some (if suffix.isEmpty then (⟨"", [0x21]⟩ : TagName) else ⟨"!", suffix⟩, after)
  if endsTag flow after.rest then some (tag, after) else none

/-! ## Directives -/

/-- What a document may say before it starts. -/
inductive Directive where
  /-- The version of the language. -/
  | version (major minor : Nat)
  /-- What a handle stands for. -/
  | tag (handle : String) (lead : Bytes)
  deriving DecidableEq, Repr

/-- Reads a number of at most nine digits. -/
def Cursor.number? (c : Cursor) : Option (Nat × Cursor) :=
  let (digits, after) := c.span Char.isDigit
  if digits.isEmpty || 9 < digits.length then none
  else some (digits.foldl (fun n d => n * 10 + (d.toNat - 48)) 0, after)

/-- Reads what follows the name of a directive. -/
def Cursor.directiveValue? (name : String) (c : Cursor) : Option (Directive × Cursor) := do
  let c := c.blanks
  if name = "YAML" then
    let (major, c) ← c.number?
    if !c.startsWith '.' then none
    let (minor, c) ← (c.skip 1).number?
    some (.version major minor, c)
  else if name = "TAG" then
    let (handle, closed, c) ← c.handle?
    if !closed && handle ≠ "!" then none
    if !c.rest.head?.any isBlank then none
    let (lead, c) ← c.blanks.tagText? true
    if endsWord c.rest then some (.tag handle lead, c) else none
  else none

/-- Reads a directive behind its indicator, to the end of its line. -/
def Cursor.directive? (c : Cursor) : Option (Directive × Cursor) := do
  let (name, after) := c.span isWord
  if name.isEmpty || !endsWord after.rest then none
  let (directive, after) ← after.directiveValue? (String.ofList name)
  some (directive, ← after.lineEnd)

end ImageLayer.Yaml
