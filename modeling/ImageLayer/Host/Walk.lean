import ImageLayer.Host.Basic
import ImageLayer.Host.Fault
/-!
How the host finds what a path names.

Pieces are taken one at a time, and every one but the last has to lead through a directory; a slash at the end
counts as one more piece that stays where it is. Links are followed, at most forty on one path, the last piece's
only where the aim of the walk asks for that. A missing last name is no fault here: it is where a file may be
made. A file can be written at no name with a slash behind it, whatever stands there.

The host differs from a tree in this (`Tree.resolve`). A tree takes any name on the way, also one without an
entry and one of a file, and it counts a step up wherever it stands. The host has to find a directory under each
name before it goes on, so that a step up from a name that is not there is refused. And it refuses names and
paths that are too long, and empty ones (`Host.refusal?`), before it looks for them.
-/

namespace ImageLayer.Host

/-- A piece of a path. -/
inductive Piece where
  /-- Stay in the directory. -/
  | stay
  /-- Go to the directory above. -/
  | up
  /-- Go to what stands under a name. -/
  | name (n : Name)
  /-- Stay in the directory, because of a slash at the end. -/
  | slash
  deriving DecidableEq, Repr

/-- What a walk is made for. -/
inductive Aim where
  /-- To find what the path names, be it a link. -/
  | entry
  /-- To find what the path leads to. -/
  | target
  /-- To write the file that the path leads to, which may be made. -/
  | writing
  deriving DecidableEq, Repr

/-- The pieces of a path. A slash at the end, like a dot there, asks for a directory. -/
def piecesOf (p : Path) : List Piece :=
  let named := p.pieces.filterMap fun piece =>
    if piece = [] then none
    else if piece = [0x2E] then some .stay
    else if piece = [0x2E, 0x2E] then some .up
    else some (.name piece)
  if p.bytes.getLast? = some 0x2F then named ++ [.slash] else named

/-- Where a path leads. -/
inductive Found where
  /-- To something that exists. -/
  | existing (l : Place)
  /-- To a name that is missing from a directory. -/
  | missing (parent : Place) (n : Name)
  deriving DecidableEq, Repr

/-- Where a walk along pieces stops. -/
inductive Stop where
  /-- At its end. -/
  | found (f : Found)
  /-- At a link in a directory, with pieces still to come. -/
  | link (l : Place) (target : Path) (rest : List Piece)

/-- How many links are followed on one path. -/
def maxLinks : Nat := 40

/-- The greatest length of a name. -/
def maxName : Nat := 255

/-- The length that a path has to stay below. -/
def pathLimit : Nat := 4096

/-- Walks from a directory along pieces until a link has to be followed. -/
def advance (h : Host) (aim : Aim) : Place → List Piece → Except HostFault Stop
  | l, [] => .ok (.found (.existing l))
  | l, .stay :: rest | l, .slash :: rest => advance h aim l rest
  | l, .up :: rest => advance h aim l.dropLast rest
  | l, .name n :: rest =>
    if aim = .writing ∧ rest = [.slash] then .error .isDirectory
    else if maxName < n.length then .error .nameTooLong
    else match h.node? (l ++ [n]) with
      | none => if rest.isEmpty then .ok (.found (.missing l n)) else .error .notFound
      | some (.directory ..) => advance h aim (l ++ [n]) rest
      | some (.symlink target) =>
        if rest.isEmpty ∧ aim = .entry then .ok (.found (.existing (l ++ [n])))
        else .ok (.link l target rest)
      | some _ =>
        if rest.isEmpty then .ok (.found (.existing (l ++ [n]))) else .error .notDirectory

/-- Walks from a directory along pieces, following at most `links` links. -/
def walkFrom (h : Host) (aim : Aim) : (links : Nat) → Place → List Piece →
    Except HostFault Found
  | links, l, pieces =>
    match advance h aim l pieces with
    | .error fault => .error fault
    | .ok (.found f) => .ok f
    | .ok (.link l' target rest) =>
      match links with
      | 0 => .error .linkLoop
      | links + 1 =>
        walkFrom h aim links (if target.isAbsolute then [] else l') (piecesOf target ++ rest)

/-- What a path can be refused for before it is walked. -/
def refusal? (p : Path) : Option HostFault :=
  if p.bytes.contains 0 then some .zeroByte
  else if p.bytes = [] then some .notFound
  else if pathLimit ≤ p.bytes.length then some .nameTooLong
  else none

/-- Where pieces of a path lead. -/
def walkPieces (h : Host) (aim : Aim) (p : Path) (pieces : List Piece) : Except HostFault Found :=
  match refusal? p with
  | some fault => .error fault
  | none => walkFrom h aim maxLinks (if p.isAbsolute then [] else h.workingDirectory) pieces

/-- Where a path leads. -/
def walk (h : Host) (aim : Aim) (p : Path) : Except HostFault Found :=
  walkPieces h aim p (piecesOf p)

/-- The place that a path leads to. -/
def place (h : Host) (aim : Aim) (p : Path) : Except HostFault Place :=
  match h.walk aim p with
  | .error fault => .error fault
  | .ok (.existing l) => .ok l
  | .ok (.missing ..) => .error .notFound

/-- The node that a path leads to. -/
def node (h : Host) (aim : Aim) (p : Path) : Except HostFault HostNode := do
  return (h.node? (← h.place aim p)).getD .other

end ImageLayer.Host
