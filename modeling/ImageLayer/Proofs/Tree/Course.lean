import Mathlib.Logic.Relation
import ImageLayer.Proofs.Tree.Resolve
/-!
The course of a walk along a path.

A walk takes the parts of a path one by one, and a symbolic link on the way puts the parts of its target in
front of those that are still to come. `Turn` says what happens to one part, with the number of links that were
followed before but no limit on it. Resolving a path is walking to the end under a limit, and
`resolve_canonical`, the main statement, says so in full: that it comes to an end, where it leads, when it fails
and with what message, what the place it leads to looks like, and that the beginning of a path may be replaced
by where it leads. It has no condition on the tree, and links may go round in circles.

Sections:

* One turn. There is one way to go on (`Turn.unique`). Turns within the limit come to an end
  (`wellFounded_turn`), since either a link is followed or there are fewer parts to come. No such order is there
  without the limit.
* Walks. The definition takes parts in stretches, from one link to the next. `course_advance` says that a
  stretch is a course of turns, and `course_resolveFrom` that resolving is one: to the end of the path, or over
  one link more than may be followed.
* Where paths lead. Since turns are unique, a walk that comes to an end passes all that it ever comes to
  (`Course.to_end`), and so does not come over the limit behind it. From this follow both directions for success
  and for failure (`resolve_eq_ok_iff_course`, `resolve_eq_error_iff_course`).

A path fails only for links. A name without an entry is reached all the same: what is missing, or is no
directory, shows when something is asked of the place.
-/

namespace ImageLayer.Tree

/-- Where a walk along a path stands. -/
structure Position where
  /-- The location reached so far. -/
  reached : Location
  /-- The parts still to come. -/
  pending : List Part
  /-- How many symbolic links were followed. -/
  followed : Nat

/-- What becomes of the first of the parts still to come. -/
inductive Turn (t : Tree) (followLast : Bool) : Position → Position → Prop where
  /-- A step up drops the last name that was reached, if there is one. -/
  | up (l : Location) (rest : List Part) (k : Nat) :
      Turn t followLast ⟨l, .up :: rest, k⟩ ⟨l.dropLast, rest, k⟩
  /-- A name is reached if it is no link, or a link at the end that is not to be followed. -/
  | name {l : Location} {n : Name} {rest : List Part} {k : Nat}
      (stays : t.linkAt (l ++ [.name n]) = none ∨ rest = [] ∧ followLast = false) :
      Turn t followLast ⟨l, .name n :: rest, k⟩ ⟨l ++ [.name n], rest, k⟩
  /-- Any other link is followed, from the root if its target is absolute. -/
  | link {l : Location} {n : Name} {rest : List Part} {k : Nat} {target : Path}
      (link : t.linkAt (l ++ [.name n]) = some target) (goes : rest ≠ [] ∨ followLast = true) :
      Turn t followLast ⟨l, .name n :: rest, k⟩
        ⟨if target.isAbsolute then [] else l, target.parts ++ rest, k + 1⟩

/-- Turns in order. -/
abbrev Course (t : Tree) (followLast : Bool) : Position → Position → Prop :=
  Relation.ReflTransGen (Turn t followLast)

variable {t : Tree} {followLast : Bool}

/-! ## One turn -/

/-- There is one way to go on. -/
theorem Turn.unique {a b c : Position} (h : Turn t followLast a b) (h' : Turn t followLast a c) :
    b = c := by
  cases h with
  | up l rest k =>
    cases h'
    rfl
  | name stays =>
    cases h' with
    | name => rfl
    | link link goes =>
      rcases stays with hnone | ⟨rfl, rfl⟩
      · simp [hnone] at link
      · simp at goes
  | link link goes =>
    cases h' with
    | name stays =>
      rcases stays with hnone | ⟨rfl, rfl⟩
      · simp [hnone] at link
      · simp at goes
    | link link' =>
      obtain rfl := Option.some.inj (link.symm.trans link')
      rfl

theorem not_turn_of_arrived {a b : Position} (ha : a.pending = []) : ¬ Turn t followLast a b := by
  intro h
  cases h <;> cases ha

theorem Turn.followed_le {a b : Position} (h : Turn t followLast a b) : a.followed ≤ b.followed := by
  cases h with
  | up => exact Nat.le_refl _
  | name => exact Nat.le_refl _
  | link => exact Nat.le_succ _

theorem Course.followed_le {a b : Position} (h : t.Course followLast a b) :
    a.followed ≤ b.followed := by
  induction h with
  | refl => exact Nat.le_refl _
  | tail _ last ih => exact Nat.le_trans ih last.followed_le

/-- Turns come to an end as long as the links followed so far are within the limit: a turn follows one more
link, or leaves fewer parts to come. -/
theorem wellFounded_turn (t : Tree) (followLast : Bool) :
    WellFounded fun b a : Position => a.followed ≤ maxLinks ∧ Turn t followLast a b := by
  let measure (a : Position) : Nat × Nat := (maxLinks + 1 - a.followed, a.pending.length)
  refine Subrelation.wf (r := InvImage (Prod.Lex (· < ·) (· < ·)) measure) ?_
    (InvImage.wf measure (Prod.lex Nat.lt_wfRel Nat.lt_wfRel).wf)
  rintro b a ⟨hle, hturn⟩
  cases hturn with
  | up l rest k => exact Prod.Lex.right _ (Nat.lt_succ_self _)
  | name => exact Prod.Lex.right _ (Nat.lt_succ_self _)
  | link =>
    refine Prod.Lex.left _ _ ?_
    simp only at hle ⊢
    omega

/-! ## Walks -/

/-- Where a walk stands behind a stop, with the link followed that it stopped at. -/
def Stop.behind (k : Nat) : Stop → Position
  | .arrived l => ⟨l, [], k⟩
  | .link l target rest => ⟨if target.isAbsolute then [] else l, target.parts ++ rest, k + 1⟩

/-- Up to a link that has to be followed, and over it, a walk goes on turn by turn. -/
theorem course_advance (t : Tree) (followLast : Bool) (l : Location) (parts : List Part) (k : Nat) :
    t.Course followLast ⟨l, parts, k⟩ ((advance t followLast l parts).behind k) := by
  fun_induction advance t followLast l parts with
  | case1 l => exact .refl
  | case2 l rest ih => exact .head (.up l rest k) ih
  | case3 l n rest target htarget hlast ih => exact .head (.name (Or.inr (by simpa using hlast))) ih
  | case4 l n rest target htarget hlast =>
    refine .single (.link htarget ?_)
    simpa [Decidable.imp_iff_not_or] using hlast
  | case5 l n rest hnone ih => exact .head (.name (Or.inl hnone)) ih

/-- Resolving walks to the end of the path, or over one link more than may be followed. -/
theorem course_resolveFrom (t : Tree) (followLast : Bool) (links : Nat) (l : Location)
    (parts : List Part) (k : Nat) :
    match t.resolveFrom followLast links l parts with
    | some l' => ∃ k' ≤ k + links, t.Course followLast ⟨l, parts, k⟩ ⟨l', [], k'⟩
    | none => ∃ a, t.Course followLast ⟨l, parts, k⟩ a ∧ k + links < a.followed := by
  have hcourse := course_advance t followLast l parts k
  fun_induction resolveFrom t followLast links l parts generalizing k with
  | case1 links l parts l₁ hadv =>
    rw [hadv] at hcourse
    exact ⟨k, Nat.le_add_right k links, hcourse⟩
  | case2 l parts l₁ target rest hadv =>
    rw [hadv] at hcourse
    exact ⟨_, hcourse, Nat.lt_succ_self k⟩
  | case3 l parts l₁ target rest hadv links ih =>
    rw [hadv] at hcourse
    have hlinks : k + 1 + links = k + (links + 1) := by omega
    have hmore := ih (k + 1) (course_advance t followLast _ _ _)
    rw [hlinks] at hmore
    cases hresult : t.resolveFrom followLast links (if target.isAbsolute then [] else l₁)
        (target.parts ++ rest) with
    | some l' =>
      rw [hresult] at hmore
      obtain ⟨k', hk', hend⟩ := hmore
      exact ⟨k', hk', hcourse.trans hend⟩
    | none =>
      rw [hresult] at hmore
      obtain ⟨a, hend, ha⟩ := hmore
      exact ⟨a, hcourse.trans hend, ha⟩

/-- A walk that comes to the end comes to one end, and has passed everything that it ever comes to. -/
theorem Course.to_end {a b : Position} {l : Location} {k : Nat} (h : t.Course followLast a b)
    (hend : t.Course followLast a ⟨l, [], k⟩) : t.Course followLast b ⟨l, [], k⟩ := by
  have hunique : Relator.RightUnique (Turn t followLast) := fun _ _ _ => Turn.unique
  rcases Relation.ReflTransGen.total_of_right_unique hunique h hend with hmore | hback
  · exact hmore
  · rcases Relation.ReflTransGen.cases_head hback with rfl | ⟨c, hturn, -⟩
    · exact .refl
    · exact absurd hturn (not_turn_of_arrived rfl)

theorem Course.followed_le_of_end {a b : Position} {l : Location} {k : Nat}
    (h : t.Course followLast a b) (hend : t.Course followLast a ⟨l, [], k⟩) : b.followed ≤ k :=
  (h.to_end hend).followed_le

theorem resolve_eq_ok_iff_course {p : Path} {l : Location} :
    t.resolve p followLast = .ok l ↔
      ∃ k ≤ maxLinks, t.Course followLast ⟨[], p.parts, 0⟩ ⟨l, [], k⟩ := by
  rw [resolve_eq_ok_iff, locate?]
  have hcourse := course_resolveFrom t followLast maxLinks [] p.parts 0
  rw [Nat.zero_add] at hcourse
  cases hresult : t.resolveFrom followLast maxLinks [] p.parts with
  | some l' =>
    rw [hresult] at hcourse
    obtain ⟨k', hk', hend'⟩ := hcourse
    constructor
    · intro h
      exact ⟨k', hk', Option.some.inj h ▸ hend'⟩
    · rintro ⟨k, -, hend⟩
      rcases Relation.ReflTransGen.cases_head (hend'.to_end hend) with heq | ⟨c, hturn, -⟩
      · rw [(Position.mk.inj heq).1]
      · exact absurd hturn (not_turn_of_arrived rfl)
  | none =>
    rw [hresult] at hcourse
    obtain ⟨a, hpast, ha⟩ := hcourse
    constructor
    · intro h
      cases h
    · rintro ⟨k, hk, hend⟩
      exact absurd (hpast.followed_le_of_end hend) (Nat.not_le_of_lt (Nat.lt_of_le_of_lt hk ha))

theorem resolve_eq_error_iff_course {p : Path} {e : Failure} :
    t.resolve p followLast = .error e ↔
      e = .tree p .tooManyLinks ∧
        ∃ a, t.Course followLast ⟨[], p.parts, 0⟩ a ∧ maxLinks < a.followed := by
  cases hresult : t.resolve p followLast with
  | ok l =>
    obtain ⟨k, hk, hend⟩ := resolve_eq_ok_iff_course.1 hresult
    constructor
    · intro h
      cases h
    · rintro ⟨-, a, hpast, ha⟩
      exact absurd (hpast.followed_le_of_end hend) (Nat.not_le_of_lt (Nat.lt_of_le_of_lt hk ha))
  | error e' =>
    have hcourse := course_resolveFrom t followLast maxLinks [] p.parts 0
    rw [Nat.zero_add] at hcourse
    unfold resolve locate? at hresult
    cases hnone : t.resolveFrom followLast maxLinks [] p.parts with
    | some l' => simp [hnone] at hresult
    | none =>
      simp only [hnone, Except.error.injEq] at hresult
      rw [hnone] at hcourse
      rw [Except.error.injEq, ← hresult, eq_comm]
      exact (and_iff_left hcourse).symm

/-! ## Where paths lead -/

/-- Resolving a path comes to an end. It leads to where the walk along the path ends, and fails only where more
than forty links would have to be followed. It leads to proper names with no symbolic link above, nor at the
end if that is followed, and the path that spells these out leads there again. The beginning of a path may
be replaced by where it leads. -/
theorem resolve_canonical (t : Tree) (p : Path) (followLast : Bool) :
    (WellFounded fun b a : Position => a.followed ≤ 40 ∧ Turn t followLast a b) ∧
      (∀ r, t.resolve p followLast = .ok r ↔
        ∃ k ≤ 40, t.Course followLast ⟨[], p.parts, 0⟩ ⟨r, [], k⟩) ∧
      (∀ e, t.resolve p followLast = .error e ↔ e = .tree p .tooManyLinks ∧
        ∃ a, t.Course followLast ⟨[], p.parts, 0⟩ a ∧ 40 < a.followed) ∧
      TreeFault.tooManyLinks.message = "too many levels of symbolic links" ∧
      (∀ r, t.resolve p followLast = .ok r → r.Proper ∧
        (∀ k e, k <+: r → k ≠ [] → k ≠ r ∨ followLast → t.get? k = some e → e.isSymlink = false) ∧
        t.resolve r.path followLast = .ok r) ∧
      ∀ q r s, q.isAbsolute = false → q.parts ≠ [] → t.resolve p true = .ok r →
        t.resolve (p.join q) followLast = .ok s → t.resolve (r.path.join q) followLast = .ok s := by
  refine ⟨wellFounded_turn t followLast, fun r => resolve_eq_ok_iff_course,
    fun e => resolve_eq_error_iff_course, rfl, fun r hr => ?_, fun q r s hq hparts hr hs => ?_⟩
  · rw [resolve_eq_ok_iff] at hr
    have hproper : r.Proper := locate?_proper (fun _ => Path.spelled_of_mem_parts) hr
    refine ⟨hproper, fun k e hk hne hlast hget => ?_, ?_⟩
    · exact (linkAt_eq_none_iff hne).1 (locate?_canonical hr k hk hne hlast) e hget
    · rw [resolve_eq_ok_iff, Location.parts_path hproper.spelled]
      exact (locate?_canonical hr).locate? hproper
  · rw [resolve_eq_ok_iff] at hr hs ⊢
    have hproper : r.Proper := locate?_proper (fun _ => Path.spelled_of_mem_parts) hr
    rw [Path.parts_join p hq] at hs
    rw [Path.parts_join _ hq, Location.parts_path hproper.spelled]
    exact locate?_append hproper hparts hr hs

/-- A link `a` over a directory and back to a link `b` to nothing, and a link `c` to itself: through `a` a path
leads to where it leads from there, and `c` leads nowhere. -/
theorem resolve_canonical_dangling :
    let a : Path := .ofString "a"
    let t : Tree := [("a", "/d/../b"), ("b", "x/y"), ("c", "c")].foldl
      (fun t link => t.insert (.ofString link.1) (.symlink (.ofString link.2)))
      (empty.insert (.ofString "d") (.directory 0o755))
    let x : Part := .name (Bytes.ofString "x")
    let y : Part := .name (Bytes.ofString "y")
    let z : Part := .name (Bytes.ofString "z")
    let q : Path := .ofString "../z"
    t.resolve a true = .ok [x, y] ∧ t.resolve (Location.path [x, y]) true = .ok [x, y] ∧
      t.resolve ((Location.path [x, y]).join q) true = .ok [x, z] ∧
      ∃ b, t.Course true ⟨[], (Path.ofString "c").parts, 0⟩ b ∧ 40 < b.followed := by
  intro a t x y z q
  have ha : t.resolve a true = .ok [x, y] := by decide +kernel
  have hq : t.resolve (a.join q) true = .ok [x, z] := by decide +kernel
  have hc : t.resolve (.ofString "c") true = .error (.tree (.ofString "c") .tooManyLinks) := by
    decide +kernel
  obtain ⟨-, -, -, -, hcanonical, happend⟩ := resolve_canonical t a true
  obtain ⟨-, -, herror, -⟩ := resolve_canonical t (.ofString "c") true
  exact ⟨ha, (hcanonical _ ha).2.2, happend q _ _ (by decide +kernel) (by decide +kernel) ha hq,
    ((herror _).1 hc).2⟩

end ImageLayer.Tree
