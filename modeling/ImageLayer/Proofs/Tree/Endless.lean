import Mathlib.Data.Finset.Card
import Mathlib.Data.Finset.Range
import ImageLayer.Proofs.Tree.Inode
/-!
Reading that never comes to an end.

Where a path leads to a hard link, the file is read at the source of the link, wherever that leads by then.
Nothing keeps the source from being a hard link itself: what a link was made to can be hidden later by a
symbolic link above it. If such links lead back to each other there is nothing to be read, and looking
for it goes on for ever. `Tree.Endless` says so of a path without counting: the path is one of several, each
of which leads to a hard link whose source is one of them again.

The library reads through a bounded number of hard links and gives up behind them. This module says that the
bound is no limit: `contentsAt_eq_endless_iff`, the main statement, says that the outcome
`NoResult.endless` is had exactly for the paths that are `Endless`. So a path that is not has its contents
read, or a failure, however many hard links lead to them.

How the proof goes:

* What a path shows depends on the location it leads to and on nothing else (`readingAt_eq_ok_iff`).
* An endless path exhausts every bound, since each link leaves another endless path
  (`readThrough_of_endless`, by induction on the bound).
* A path that exhausts the bound has a trail of hard links that is longer than the bound (`follow`,
  `isSome_follow_of_readThrough`). Hard links stand at the root or at an entry, and these are fewer than the
  links of the trail, so that two of them stand at one location (`exists_same_place`). The trail up to
  the second is the set of paths that is asked for: what follows the second is what followed the first.

The root counts as a place here, since nothing in the type of a tree says that it is a directory. That is why
the bound is one more than the number of entries, and not that number.
-/

namespace ImageLayer.Tree

variable {t : Tree} {p q source : Path}

/-- Reading the file at a path never comes to an end: the path is one of several that all lead to hard links, the
source of each being one of them. -/
def Endless (t : Tree) (p : Path) : Prop :=
  ∃ among : Path → Prop, among p ∧
    ∀ q, among q → ∃ source, t.readingAt q = .ok (.further source) ∧ among source

/-! ## What a path shows -/

/-- The kind of an entry that shows this. -/
def Reading.kind : Reading → EntryKind
  | .contents bytes => .file bytes
  | .further source => .hardlink source

theorem readingAt_eq_ok_iff {r : Reading} : t.readingAt p = .ok r ↔
    ∃ l e, t.locate? true p.parts = some l ∧ t.get? l = some e ∧ e.kind = r.kind := by
  unfold readingAt resolve
  cases hloc : t.locate? true p.parts with
  | none => simp [bind, Except.bind]
  | some l =>
    cases hget : t.get? l with
    | none => simp [bind, Except.bind, hget]
    | some e => cases hkind : e.kind <;> cases r <;> simp [bind, Except.bind, hget, hkind, Reading.kind]

theorem readThrough_of_contents {contents : Bytes} (h : t.readingAt p = .ok (.contents contents)) (links : Nat) :
    t.readThrough links p = .ok contents := by
  cases links <;> rw [readThrough, h]

theorem readThrough_of_further (h : t.readingAt p = .ok (.further source)) (links : Nat) :
    t.readThrough (links + 1) p = t.readThrough links source := by
  rw [readThrough, h]

theorem readThrough_of_error {e : Failure} (h : t.readingAt p = .error e) (links : Nat) :
    t.readThrough links p = .error (.failure e) := by
  cases links <;> rw [readThrough, h]

theorem Endless.further (h : t.Endless p) :
    ∃ source, t.readingAt p = .ok (.further source) ∧ t.Endless source := by
  obtain ⟨among, hp, hamong⟩ := h
  obtain ⟨source, hsource, hmem⟩ := hamong p hp
  exact ⟨source, hsource, among, hmem, hamong⟩

/-- There is something at a path that goes on for ever. -/
theorem Endless.exists? (h : t.Endless p) : t.exists? p := by
  obtain ⟨source, hsource, -⟩ := h.further
  obtain ⟨l, e, hloc, hget, -⟩ := readingAt_eq_ok_iff.1 hsource
  exact exists?_of_inode? (inode?_eq_some.2 ⟨l, e, hloc, hget, rfl⟩)

/-- However many hard links may be followed, there is one more. -/
theorem readThrough_of_endless (h : t.Endless p) (links : Nat) :
    t.readThrough links p = .error .endless := by
  induction links generalizing p with
  | zero =>
    obtain ⟨source, hsource, -⟩ := h.further
    rw [readThrough, hsource]
  | succ links ih =>
    obtain ⟨source, hsource, hendless⟩ := h.further
    exact (readThrough_of_further hsource links).trans (ih hendless)

/-! ## Trails of hard links -/

/-- The path behind `n` hard links, if there are as many in a row. -/
def follow (t : Tree) : (n : Nat) → Path → Option Path
  | 0, p => some p
  | n + 1, p =>
    match t.readingAt p with
    | .ok (.further source) => t.follow n source
    | _ => none

theorem follow_add (m n : Nat) (p : Path) : t.follow (m + n) p = (t.follow m p).bind (t.follow n) := by
  induction m generalizing p with
  | zero => rw [Nat.zero_add, follow, Option.bind_some]
  | succ m ih =>
    rw [Nat.add_right_comm, follow, follow]
    split
    · exact ih _
    · rfl

theorem follow_one_eq_some : t.follow 1 p = some q ↔ t.readingAt p = .ok (.further q) := by
  unfold follow
  split
  · rename_i source hsource
    rw [hsource, follow, Option.some.injEq, Except.ok.injEq, Reading.further.injEq]
  · rename_i hnone
    exact ⟨nofun, fun h => absurd h (hnone q)⟩

theorem isSome_follow_of_le {m n : Nat} (h : (t.follow n p).isSome) (hle : m ≤ n) :
    (t.follow m p).isSome := by
  rw [← Nat.add_sub_cancel' hle, follow_add] at h
  cases hm : t.follow m p with
  | none => simp [hm] at h
  | some q => rfl

theorem isSome_follow_of_readThrough {links : Nat} (h : t.readThrough links p = .error .endless) :
    (t.follow (links + 1) p).isSome := by
  induction links generalizing p with
  | zero =>
    rw [readThrough] at h
    split at h
    · cases h
    · rename_i source hsource
      rw [follow, hsource]
      rfl
    · cases h
  | succ links ih =>
    rw [readThrough] at h
    split at h
    · cases h
    · rename_i source hsource
      rw [follow, hsource]
      exact ih h
    · cases h

/-- Where the path behind `n` hard links leads. -/
def placeBehind (t : Tree) (p : Path) (n : Nat) : Location :=
  ((t.follow n p).bind fun q => t.locate? true q.parts).getD []

/-- On a trail of more hard links than there are places for them, two stand at one place. -/
theorem exists_same_place (h : (t.follow (t.size + 2) p).isSome) :
    ∃ i j, i < j ∧ j < t.size + 2 ∧ t.placeBehind p i = t.placeBehind p j := by
  let places : List Location := [] :: t.walk.map Prod.fst
  have hplaces : ∀ n ∈ Finset.range (t.size + 2), t.placeBehind p n ∈ places.toFinset := by
    intro n hn
    have hnext : (t.follow (n + 1) p).isSome := isSome_follow_of_le h (Finset.mem_range.1 hn)
    rw [follow_add] at hnext
    obtain ⟨q, hq⟩ := Option.isSome_iff_exists.1 (isSome_follow_of_le h (Nat.le_of_lt (Finset.mem_range.1 hn)))
    rw [hq, Option.bind_some] at hnext
    obtain ⟨source, hsource⟩ := Option.isSome_iff_exists.1 hnext
    obtain ⟨l, e, hloc, hget, -⟩ := readingAt_eq_ok_iff.1 (follow_one_eq_some.1 hsource)
    have hplace : t.placeBehind p n = l := by rw [placeBehind, hq, Option.bind_some, hloc, Option.getD_some]
    rw [hplace, List.mem_toFinset]
    by_cases hl : l = []
    · exact hl ▸ List.mem_cons_self
    · rw [get?_of_ne_nil t hl] at hget
      exact List.mem_cons_of_mem _ (List.mem_map_of_mem (mem_walk.2 hget))
  have hfew : places.toFinset.card < (Finset.range (t.size + 2)).card := by
    have hcard := places.toFinset_card_le
    have hlength : places.length = t.size + 1 := by simp [places, Tree.size, SortedMap.size, walk]
    rw [Finset.card_range]
    omega
  obtain ⟨i, hi, j, hj, hne, hsame⟩ := Finset.exists_ne_map_eq_of_card_lt_of_maps_to hfew hplaces
  rcases Nat.lt_or_gt_of_ne hne with hlt | hlt
  · exact ⟨i, j, hlt, Finset.mem_range.1 hj, hsame⟩
  · exact ⟨j, i, hlt, Finset.mem_range.1 hi, hsame.symm⟩

/-- What follows a place on a trail depends on the place alone. -/
theorem follow_succ_congr {i j : Nat} (h : t.placeBehind p i = t.placeBehind p j) {q r : Path}
    (hi : t.follow (i + 1) p = some q) (hj : t.follow (j + 1) p = some r) : q = r := by
  have hlast : ∀ {n : Nat} {s : Path}, t.follow (n + 1) p = some s →
      ∃ e, t.get? (t.placeBehind p n) = some e ∧ e.kind = .hardlink s := by
    intro n s hs
    rw [follow_add, Option.bind_eq_some_iff] at hs
    obtain ⟨behind, hbehind, hs⟩ := hs
    obtain ⟨l, e, hloc, hget, hkind⟩ := readingAt_eq_ok_iff.1 (follow_one_eq_some.1 hs)
    refine ⟨e, ?_, hkind⟩
    rw [placeBehind, hbehind, Option.bind_some, hloc, Option.getD_some, hget]
  obtain ⟨e, he, hkind⟩ := hlast hi
  obtain ⟨f, hf, hkind'⟩ := hlast hj
  rw [h, hf, Option.some.injEq] at he
  rw [he, hkind, EntryKind.hardlink.injEq] at hkind'
  exact hkind'

/-- Reading a file never comes to an end exactly if there is always another hard link. -/
theorem contentsAt_eq_endless_iff : t.contentsAt p = .error .endless ↔ t.Endless p := by
  constructor
  · intro h
    have hlong : (t.follow (t.size + 2) p).isSome := isSome_follow_of_readThrough h
    obtain ⟨i, j, hij, hj, hsame⟩ := exists_same_place hlong
    have hget : ∀ n ≤ j + 1, ∃ q, t.follow n p = some q := fun n hn =>
      Option.isSome_iff_exists.1 (isSome_follow_of_le hlong (Nat.le_trans hn hj))
    refine ⟨fun q => ∃ n ≤ j, t.follow n p = some q, ⟨0, Nat.zero_le j, rfl⟩, ?_⟩
    rintro q ⟨n, hn, hq⟩
    obtain ⟨source, hsource⟩ := hget (n + 1) (Nat.succ_le_succ hn)
    have hfurther : t.readingAt q = .ok (.further source) := by
      rw [follow_add, hq, Option.bind_some] at hsource
      exact follow_one_eq_some.1 hsource
    refine ⟨source, hfurther, ?_⟩
    rcases Nat.lt_or_eq_of_le hn with hlt | rfl
    · exact ⟨n + 1, hlt, hsource⟩
    · -- The trail has come back to where it was.
      obtain ⟨r, hr⟩ := hget (i + 1) (Nat.succ_le_succ (Nat.le_of_lt hij))
      exact ⟨i + 1, hij, follow_succ_congr hsame hr hsource ▸ hr⟩
  · exact fun h => readThrough_of_endless h _

end ImageLayer.Tree
