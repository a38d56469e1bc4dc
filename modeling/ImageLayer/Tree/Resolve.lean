import ImageLayer.Tree.Basic
import ImageLayer.Failure
/-!
Following a path through a tree.

Parts are taken one at a time, from the root on.

* A step up drops the last part of the location reached so far. At the root it changes nothing.
* A name that is a symbolic link is replaced by the parts of the link's target, which start over at the root if
  the target is absolute. Only the last part of the path may be left unfollowed.
* A name without an entry is taken as it stands, so that paths of entries yet to be made have a location. So is
  the name of a file with parts behind it. Whether what is found is of use is asked by the operations.

The number of links that may be followed is bounded, so that every path comes to an end, and this is the only
thing that a path can be refused for (`TreeFault.tooManyLinks`).

The walk is cut into stretches between links: `advance` is structural on the parts, and `resolveFrom` is
structural on the number of links that are left.
-/

namespace ImageLayer.Tree

/-- How many symbolic links may be followed on one path. -/
def maxLinks : Nat := 40

/-- Where a walk along parts stops. -/
inductive Stop where
  /-- At its end. -/
  | arrived (l : Location)
  /-- At a link to `target` in the directory `l`, with `rest` still to come. -/
  | link (l : Location) (target : Path) (rest : List Part)
  deriving DecidableEq

/-- Walks from a location along parts until a link has to be followed. -/
def advance (t : Tree) (followLast : Bool) : Location → List Part → Stop
  | l, [] => .arrived l
  | l, .up :: rest => advance t followLast l.dropLast rest
  | l, .name n :: rest =>
    match t.linkAt (l ++ [.name n]) with
    | some target =>
      if rest.isEmpty && !followLast then advance t followLast (l ++ [.name n]) rest
      else .link l target rest
    | none => advance t followLast (l ++ [.name n]) rest

/-- Walks from a location along parts, following at most `links` links. -/
def resolveFrom (t : Tree) (followLast : Bool) : (links : Nat) → Location → List Part →
    Option Location
  | links, l, parts =>
    match advance t followLast l parts with
    | .arrived l' => some l'
    | .link l' target rest =>
      match links with
      | 0 => none
      | links + 1 =>
        resolveFrom t followLast links (if target.isAbsolute then [] else l') (target.parts ++ rest)

/-- The location that parts lead to from the root. -/
def locate? (t : Tree) (followLast : Bool) (parts : List Part) : Option Location :=
  t.resolveFrom followLast maxLinks [] parts

/-- The location that a path leads to. -/
def resolve (t : Tree) (p : Path) (followLast : Bool) : Except Failure Location :=
  match t.locate? followLast p.parts with
  | some l => .ok l
  | none => .error (.tree p .tooManyLinks)

/-- The location at which parts would make a new entry: the directory that the others lead to, and
the last, which has to be a name. A refusal names the path `shown`. -/
def resolveNew (t : Tree) (shown : Path) (parts : List Part) : Except Failure Location :=
  match parts.getLast? with
  | some (.name n) =>
    let above : Location := parts.dropLast
    match t.locate? true above with
    | none => .error (.tree above.path .tooManyLinks)
    | some parent =>
      if t.isDirectoryAt parent then .ok (parent ++ [.name n])
      else .error (.tree shown .parentMissing)
  | _ => .error (.tree shown .noFinalComponent)

end ImageLayer.Tree
