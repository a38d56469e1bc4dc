import ImageLayer.Failure
/-!
Writing paths into the fields of a member's header.

A field has a fixed number of bytes. A path goes in part by part, with a slash between two parts and a zero byte
after the last if there is room; what was written before a fault stays in the field. Empty pieces and dots
between slashes are dropped on the way, and a slash at the end is kept.

There are three rules for what a field takes (`MemberName.Rule`).

* A member's own path must lead downwards from the root: it has no root, no step up, and is not empty.
* The path in a link may be any: it keeps its root, its dots and its steps up.
* A path that is cut off at the end of the field may end in what looks like a step up, since that is the
  beginning of a longer name.

A path that has no room is no fault of the path. Where a fault comes up in a path that has as many bytes as the
field or more, whoever writes the member puts the whole path in front of it instead.
-/

namespace ImageLayer.MemberName

/-- A field that is being filled. -/
structure Field where
  /-- All bytes of the field. -/
  bytes : Bytes
  /-- How many of them are taken. -/
  used : Nat
  deriving DecidableEq, Repr

/-- How many bytes a path may have in a header. -/
def capacity : Nat := 100

/-- A field without content. -/
def Field.blank : Field := ⟨List.replicate capacity 0, 0⟩

/-- The content of a field: what stands before the first zero byte. -/
def Field.content (f : Field) : Bytes := f.bytes.takeWhile (· ≠ 0)

/-- A computation that fills a field; a fault keeps what was written before it. -/
abbrev Fill := EStateM MemberNameFault Field

/-- Which paths a field takes. -/
inductive Rule where
  /-- The path of a member. -/
  | member
  /-- The beginning of a member's path, as far as it fits. -/
  | beginning
  /-- The path in a link. -/
  | link
  deriving DecidableEq, Repr

/-- Writes bytes, and a zero byte behind them if there is room. -/
def put (bs : Bytes) : Fill Unit := do
  let f ← get
  if f.bytes.length < f.used + bs.length then throw .tooLong
  if bs.contains 0 then throw .zeroByte
  let used := f.used + bs.length
  let rest := f.bytes.drop used
  set (⟨f.bytes.take f.used ++ bs ++ (if rest = [] then [] else 0 :: rest.drop 1), used⟩ : Field)

/-- Writes the lead of a path; says whether a slash is needed before what follows, and whether
anything was written. -/
def putLead (rule : Rule) (p : Path) : Fill (Bool × Bool) :=
  match p.lead with
  | .plain => pure (false, false)
  | .root => do
    if rule = .link then
      put [0x2F]
      return (false, true)
    else throw .absolute
  | .dot => do
    if rule = .link || p.parts.isEmpty then
      put [0x2E]
      return (true, true)
    else return (false, false)

/-- Writes parts, each behind a slash but for the first if none is needed there. -/
def putParts (rule : Rule) : (slash : Bool) → List Part → Fill Unit
  | _, [] => pure ()
  | slash, part :: rest => do
    if part = .up && (rule = .member || (rule = .beginning && !rest.isEmpty)) then throw .stepUp
    if slash then put [0x2F]
    put part.bytes
    putParts rule true rest

/-- Writes a path. -/
def putPath (rule : Rule) (p : Path) : Fill Unit := do
  let (slash, written) ← putLead rule p
  putParts rule slash p.parts
  if !written && p.parts.isEmpty then throw .empty
  if p.bytes.getLast? = some 0x2F then put [0x2F]

/-- A field after an attempt to write a path from its start, and the fault if there was one. -/
def write (rule : Rule) (p : Path) (field : Bytes) : Bytes × Option MemberNameFault :=
  match putPath rule p ⟨field, 0⟩ with
  | .ok _ f => (f.bytes, none)
  | .error fault f => (f.bytes, some fault)

/-- What a field shows to people. -/
def shown (field : Bytes) : String := Utf8.lossy (field.takeWhile (· ≠ 0))

end ImageLayer.MemberName
