import ImageLayer.Yaml.Node
import ImageLayer.Yaml.Number
import ImageLayer.Text.Utf8
/-!
Reading values of an expected kind from the nodes of a document.

What is expected decides how a node is read: a text takes any scalar as it is written, a number only a plain one
that means a number. A node that means nothing is read only where nothing is expected as well. Lists and
mappings may be left out if they are empty.

A record is a mapping under known names, none of which may stand there twice. Its fields are read one by one, as
they are required, have a value of their own, or may be absent.

Following aliases is counted, so that a small document cannot mean a huge value. How many may be followed
depends on how many parts the document has (`Decode.aliasesForPart`).
-/

namespace ImageLayer.Yaml

/-- A computation on a document that counts the aliases it follows and may refuse the document. -/
abbrev Decode := ReaderT Document (StateT Nat Option)

/-- How many aliases may be followed for each part of a node. -/
def aliasesForPart : Nat := 100

/-- A mark that stands for a kind of value wherever it is understood. -/
def standardTag (name : String) : Bytes := Bytes.ofString ("tag:yaml.org,2002:" ++ name)

/-- The name of a tag that only its document understands; it may be empty. -/
def localTag? (tag : Option Bytes) : Option String :=
  match tag with
  | some (0x21 :: rest) => Utf8.decode? rest
  | _ => none

namespace Decode

/-- The node itself, or the one that an alias stands for. -/
def follow (n : Node) : Decode Node := do
  match n with
  | .alias anchor =>
    let d ← read
    let followed ← get
    if aliasesForPart * d.parts ≤ followed then failure
    set (followed + 1)
    (d.target? anchor : Option Node)
  | n => return n

/-! ## Scalars -/

/-- A text: any scalar. -/
def text (n : Node) : Decode String := do
  match ← follow n with
  | .scalar _ _ text => return text
  | _ => failure

/-- Whether a node means nothing, where something else is possible. -/
def isNothing : Node → Option Bool
  | .scalar tag .plain text =>
    match tag with
    | none => some (text.isEmpty || isNullWord text)
    | some tag =>
      if tag = standardTag "null" then (if isNullWord text then some true else none)
      else some false
  | _ => some false

/-- Something or nothing. -/
def optional {α : Type} (decode : Node → Decode α) (n : Node) : Decode (Option α) := do
  let n ← follow n
  if ← (isNothing n : Option Bool) then return none
  return some (← decode n)

/-- The text of a scalar that may mean more than its text: a plain one, or a block with the tag of what
is expected. -/
def word? (expected : String) : Node → Option String
  | .scalar _ .plain text => some text
  | .scalar (some tag) .literal text => if tag = standardTag expected then some text else none
  | _ => none

/-- A truth value. -/
def truth (n : Node) : Decode Bool := do
  ((word? "bool" (← follow n)).bind truth? : Option Bool)

/-- A number from zero to a bound. -/
def natural (bound : Nat) (n : Node) : Decode Nat := do
  ((word? "int" (← follow n)).bind (natural? bound) : Option Nat)

/-- A number from `-bound - 1` to `bound`. -/
def integer (bound : Nat) (n : Node) : Decode Int := do
  ((word? "int" (← follow n)).bind (integer? bound) : Option Int)

/-- One of some named choices: the name as a scalar, or as a tag on nothing. -/
def choice {α : Type} (ofName? : String → Option α) (n : Node) : Decode α := do
  let n ← follow n
  match localTag? n.tag?, n with
  | some name, .scalar _ .plain text =>
    if text.isEmpty || isNullWord text then (ofName? name : Option α) else failure
  | none, .scalar _ _ text => (ofName? text : Option α)
  | _, _ => failure

/-! ## Collections -/

/-- Whether a node is left out. -/
def isBlank : Node → Bool
  | .scalar _ .plain text => text.isEmpty
  | _ => false

/-- A list: a sequence, which may be left out if it is empty. -/
def list {α : Type} (decode : Node → Decode α) (n : Node) : Decode (List α) := do
  let n ← follow n
  match n with
  | .sequence _ items => items.mapM decode
  | _ => if isBlank n then return [] else failure

/-- The entries of a mapping, which may be left out if it is empty. -/
def entries (n : Node) : Decode (List (Node × Node)) := do
  let n ← follow n
  match n with
  | .mapping _ entries => return entries
  | _ => if isBlank n then return [] else failure

/-- Named nodes. -/
abbrev Fields := List (String × Node)

/-- The entries of a mapping whose keys are texts. -/
def fields (n : Node) : Decode Fields := do
  (← entries n).mapM fun (k, v) => return (← text k, v)

/-- A record: the entries of a mapping under known names, none of which may stand there twice. -/
def record (known : List String) (n : Node) : Decode Fields := do
  let found := (← fields n).filter fun f => known.contains f.1
  if (found.map Prod.fst).Nodup then return found else failure

/-- A field that must be there. -/
def required {α : Type} (fs : Fields) (name : String) (decode : Node → Decode α) : Decode α := do
  decode (← (fs.lookup name : Option Node))

/-- A field that has a value of its own if it is not there. -/
def withDefault {α : Type} (fs : Fields) (name : String) (decode : Node → Decode α) (value : α) :
    Decode α := do
  match fs.lookup name with
  | some n => decode n
  | none => return value

/-- A field that may be absent or mean nothing. -/
def optionalField {α : Type} (fs : Fields) (name : String) (decode : Node → Decode α) :
    Decode (Option α) :=
  withDefault fs name (optional decode) none

/-- The value that a stream holds. -/
def parse {α : Type} (decode : Node → Decode α) (stream : String) : Option α := do
  let d ← Document.parse? stream
  ((decode d.root).run d).run' 0

end Decode

end ImageLayer.Yaml
