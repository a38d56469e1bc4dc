import ImageLayer.SortedMap
import ImageLayer.Text.Utf8
import ImageLayer.Text.Blank
/-!
Paths as they are written, and the places in a tree that they lead to.

A `Path` is any byte string. Read as a path it has a lead (it starts at the root, with a single dot, or plainly)
and parts: the names between its slashes and the steps up written `..`; empty pieces and further dots say
nothing. Two paths are the same if lead and parts are (`Path.same`), however many slashes are between them.

A `Location` is a list of parts, the steps that lead to an entry from the root. Locations are ordered part by
part, a step up before every name and names byte by byte, so that a directory stands directly before everything
below it. The order of written paths would be another one, in which bytes below the slash come between a
directory and what is in it.

A path is shown to people as text. Faults in its UTF-8 become replacement characters then and only then:
wherever a path is followed, compared or written to an archive, it is its bytes.
-/

namespace ImageLayer

/-- A file name: bytes other than the slash. -/
abbrev Name := Bytes

/-- One part of a path. -/
inductive Part where
  /-- A step to the parent directory. -/
  | up
  /-- A step to an entry of the current directory. -/
  | name (n : Name)
  deriving DecidableEq, Repr

namespace Part

/-- The bytes a part is written with. -/
def bytes : Part → Bytes
  | .up => [0x2E, 0x2E]
  | .name n => n

/-- A step up comes before every name. -/
def order : Part → Part → Ordering
  | .up, .up => .eq
  | .up, .name _ => .lt
  | .name _, .up => .gt
  | .name a, .name b => compare a b

instance : Ord Part := ⟨order⟩

instance : Std.TransOrd Part where
  eq_swap := by
    intro a b
    cases a with
    | up => cases b <;> rfl
    | name n =>
      cases b with
      | up => rfl
      | name m => exact Std.OrientedOrd.eq_swap (α := Bytes)
  isLE_trans := by
    intro a b c hab hbc
    cases a with
    | up => cases c <;> rfl
    | name n =>
      cases b with
      | up => cases hab
      | name m =>
        cases c with
        | up => cases hbc
        | name k => exact Std.TransOrd.isLE_trans (α := Bytes) hab hbc

instance : Std.LawfulEqOrd Part where
  compare_self := by
    intro a
    cases a with
    | up => rfl
    | name n => exact Std.ReflOrd.compare_self (α := Bytes)
  eq_of_compare := by
    intro a b h
    cases a with
    | up =>
      cases b with
      | up => rfl
      | name m => cases h
    | name n =>
      cases b with
      | up => cases h
      | name m => exact congrArg Part.name (Std.LawfulEqOrd.eq_of_compare (α := Bytes) h)

/-- The part that a piece between two slashes stands for, if it says anything. -/
def ofPiece? (piece : Bytes) : Option Part :=
  if piece = [] ∨ piece = [0x2E] then none
  else if piece = [0x2E, 0x2E] then some .up
  else some (.name piece)

end Part

/-- A place in a tree, as the steps that lead to it from the root. -/
abbrev Location := List Part

/-- How a path begins. -/
inductive Lead where
  /-- With a slash: at the root. -/
  | root
  /-- With a dot of its own: explicitly at the current directory. -/
  | dot
  /-- With its first part. -/
  | plain
  deriving DecidableEq, Repr

/-- A path as it is written. -/
structure Path where
  /-- The bytes of the path. -/
  bytes : Bytes
  deriving DecidableEq, Repr

namespace Path

/-- The path written as the given text. -/
def ofString (s : String) : Path := ⟨Bytes.ofString s⟩

/-- How a path is shown to people: faults in its UTF-8 as replacement characters. -/
def display (p : Path) : String := Utf8.lossy p.bytes

/-- The pieces between slashes. -/
def pieces (p : Path) : List Bytes := Text.splitAt 0x2F p.bytes

/-- Whether the path starts at the root. -/
def isAbsolute (p : Path) : Bool := p.bytes.head? = some 0x2F

/-- How the path begins. -/
def lead (p : Path) : Lead :=
  if p.isAbsolute then .root
  else if p.pieces.head? = some [0x2E] then .dot
  else .plain

/-- The parts of the path. -/
def parts (p : Path) : List Part := p.pieces.filterMap Part.ofPiece?

/-- Whether two paths have the same lead and the same parts. -/
def same (p q : Path) : Bool := p.lead = q.lead && p.parts = q.parts

/-- The location whose parts the path spells out, if it names one without a root or a dot. -/
def location? (p : Path) : Option Location := if p.lead = .plain then some p.parts else none

/-- Continues a path by another: an absolute path replaces it, and otherwise one slash stands
between the two unless the first is empty or ends in a slash. -/
def join (p q : Path) : Path :=
  if q.isAbsolute then q
  else if p.bytes = [] ∨ p.bytes.getLast? = some 0x2F then ⟨p.bytes ++ q.bytes⟩
  else ⟨p.bytes ++ 0x2F :: q.bytes⟩

end Path

namespace Location

/-- The path that spells out a location. -/
def path (l : Location) : Path :=
  ⟨(l.map Part.bytes).intersperse [0x2F] |>.flatten⟩

end Location

end ImageLayer
