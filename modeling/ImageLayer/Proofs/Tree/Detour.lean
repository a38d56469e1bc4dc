import ImageLayer.Proofs.Tree.Course
import ImageLayer.Proofs.Tree.Directories
/-!
A symbolic link to an entry beside it.

A new link may change where paths lead: those that went over its place, as over any name without an entry, now
follow it. This module says what becomes of them for a link to an entry beside it, as it is made for a shared
object. The main statement is `Neighbour.resolve`: a path leads to where it led before, or to the place beside
it.

Before the link was there, a path could go on below its name, through names of nothing and steps up, and come
back to the directory. Now the walk takes a detour: over the link to the entry beside it, and on below that.
Nothing stands below either of the two, so that the walk makes the same turns, only in another place, until a
step up takes it back to the directory. `Beside` relates the two places, and the proof is a simulation.

* `Neighbour.turn` is one step: each turn of the old walk is the same turn of the new one, or is the detour,
  which follows one more link (`Neighbour.course_link`).
* `Neighbour.course` is the whole walk, by induction. The number of links is left open, and may come over the
  limit, so that a path that led somewhere may lead nowhere now.

The last section says where this is put to use. In a closed tree a name without an entry has nothing below it,
and neither has an entry that is neither a directory nor a link (`ParentClosed.neighbour`). And the path of the
link itself leads to the entry (`Founded.locate?_link`).
-/

namespace ImageLayer.Tree

/-- `t'` is `t` with a symbolic link `s` to the entry `n` beside it in the directory `d`. -/
structure Neighbour (t t' : Tree) (d : Location) (s n : Name) : Prop where
  /-- The link is there. -/
  link : t'.linkAt (d ++ [.name s]) = some ⟨n⟩
  /-- There are no others but those that were there. -/
  others : ∀ {k}, k ≠ [] → k ≠ d ++ [.name s] → t'.linkAt k = t.linkAt k
  /-- It was no link before, and there was none below. -/
  before : ∀ {k}, d ++ [.name s] <+: k → t.linkAt k = none
  /-- The entry beside it is no link, and there is none below. -/
  beside : ∀ {k}, d ++ [.name n] <+: k → t.linkAt k = none
  /-- The name of that entry can be spelled. -/
  proper : n.Proper
  /-- It is not the name of the link. -/
  different : s ≠ n

/-- Where a walk stands now and where it stood when there was no link. -/
inductive Beside (d : Location) (s n : Name) : Location → Location → Prop where
  /-- It was not at the link or below. -/
  | same {l : Location} (apart : ¬ d ++ [.name s] <+: l) : Beside d s n l l
  /-- It was, and is at the entry beside it or below. -/
  | below (rest : List Part) : Beside d s n (d ++ [.name s] ++ rest) (d ++ [.name n] ++ rest)

section

variable {t t' : Tree} {d : Location} {s n : Name}

theorem Beside.dropLast {l l' : Location} (h : Beside d s n l l') : Beside d s n l.dropLast l'.dropLast := by
  cases h with
  | same apart => exact .same fun hbelow => apart (hbelow.trans (List.dropLast_prefix l))
  | below rest =>
    by_cases hrest : rest = []
    · subst hrest
      rw [List.append_nil, List.append_nil, List.dropLast_concat, List.dropLast_concat]
      refine .same fun hbelow => ?_
      have hle := hbelow.length_le
      rw [List.length_append, List.length_singleton] at hle
      exact absurd hle (Nat.not_succ_le_self _)
    · rw [List.dropLast_append_of_ne_nil hrest, List.dropLast_append_of_ne_nil hrest]
      exact .below rest.dropLast

theorem Beside.below_concat (rest : List Part) (p : Part) :
    Beside d s n (d ++ [.name s] ++ rest ++ [p]) (d ++ [.name n] ++ rest ++ [p]) := by
  have h := Beside.below (d := d) (s := s) (n := n) (rest ++ [p])
  rwa [← List.append_assoc, ← List.append_assoc] at h

theorem Neighbour.linkAt_beside (h : Neighbour t t' d s n) (rest : List Part) :
    t'.linkAt (d ++ [.name n] ++ rest) = none := by
  rw [h.others (by simp), h.beside (List.prefix_append _ rest)]
  intro heq
  rw [List.append_assoc] at heq
  have hcons := List.append_cancel_left heq
  rw [List.singleton_append, List.cons.injEq, Part.name.injEq] at hcons
  exact h.different hcons.1.symm

/-- The detour over the link. -/
theorem Neighbour.course_link (h : Neighbour t t' d s n) (rest : List Part) (k : Nat) :
    t'.Course true ⟨d, .name s :: rest, k⟩ ⟨d ++ [.name n], rest, k + 1⟩ := by
  have hfollow : Turn t' true ⟨d, .name s :: rest, k⟩ _ := .link h.link (Or.inr rfl)
  rw [Path.isAbsolute_name h.proper, Path.parts_name h.proper, if_neg Bool.false_ne_true] at hfollow
  refine .head hfollow (.single (.name (Or.inl ?_)))
  have hbeside := h.linkAt_beside []
  rwa [List.append_nil] at hbeside

/-- What was one turn is the same turn, or the detour. -/
theorem Neighbour.turn (h : Neighbour t t' d s n) {a b : Position} (hturn : Turn t true a b) {l' : Location}
    (hl : Beside d s n a.reached l') (k : Nat) :
    ∃ m k', Beside d s n b.reached m ∧ t'.Course true ⟨l', a.pending, k⟩ ⟨m, b.pending, k'⟩ := by
  cases hturn with
  | up l rest k₀ => exact ⟨l'.dropLast, k, hl.dropLast, .single (.up l' rest k)⟩
  | @name l m rest k₀ stays =>
    have hnone : t.linkAt (l ++ [.name m]) = none := stays.resolve_right fun hlast => by simp at hlast
    cases hl with
    | same apart =>
      by_cases hlink : l ++ [.name m] = d ++ [.name s]
      · obtain ⟨rfl, hname⟩ := List.append_inj' hlink rfl
        obtain rfl := Part.name.inj (List.singleton_inj.1 hname)
        refine ⟨_, k + 1, ?_, h.course_link rest k⟩
        have hbelow := Beside.below (d := l) (s := m) (n := n) []
        rwa [List.append_nil, List.append_nil] at hbelow
      · refine ⟨_, k, .same fun hbelow => ?_, .single (.name (Or.inl ?_))⟩
        · rcases List.prefix_concat_iff.1 hbelow with heq | hbelow
          · exact hlink heq.symm
          · exact apart hbelow
        · rw [h.others (by simp) hlink, hnone]
    | below more =>
      refine ⟨_, k, .below_concat more (.name m), .single (.name (Or.inl ?_))⟩
      rw [List.append_assoc]
      exact h.linkAt_beside _
  | @link l m rest k₀ target link goes =>
    have hapart : ¬ d ++ [.name s] <+: l ++ [.name m] := fun hbelow => by
      rw [h.before hbelow] at link
      cases link
    cases hl with
    | same apart =>
      refine ⟨_, k + 1, ?_, .single (.link ?_ goes)⟩
      · split
        · exact .same fun hbelow => by simp at hbelow
        · exact .same apart
      · rw [h.others (by simp) fun heq => hapart (heq ▸ List.prefix_refl _), link]
    | below more =>
      exact absurd ((List.prefix_append _ more).trans (List.prefix_append _ [.name m])) hapart

theorem Neighbour.course (h : Neighbour t t' d s n) {a b : Position} (hcourse : t.Course true a b)
    {l' : Location} (hl : Beside d s n a.reached l') (k : Nat) :
    ∃ m k', Beside d s n b.reached m ∧ t'.Course true ⟨l', a.pending, k⟩ ⟨m, b.pending, k'⟩ := by
  induction hcourse with
  | refl => exact ⟨l', k, hl, .refl⟩
  | tail _ hturn ih =>
    obtain ⟨m, k', hm, hfirst⟩ := ih
    obtain ⟨m', k'', hm', hlast⟩ := h.turn hturn hm k'
    exact ⟨m', k'', hm', hfirst.trans hlast⟩

/-- Where a path leads now, if it still leads anywhere, is where it led before, or beside it. -/
theorem Neighbour.resolve (h : Neighbour t t' d s n) {p : Path} {l l' : Location}
    (hl : t.resolve p true = .ok l) (hl' : t'.resolve p true = .ok l') : Beside d s n l l' := by
  obtain ⟨k, -, hcourse⟩ := resolve_eq_ok_iff_course.1 hl
  obtain ⟨k', -, hcourse'⟩ := resolve_eq_ok_iff_course.1 hl'
  obtain ⟨m, k'', hm, hdetour⟩ := h.course hcourse (.same fun hbelow => by simp at hbelow) 0
  rcases Relation.ReflTransGen.cases_head (hcourse'.to_end hdetour) with heq | ⟨c, hturn, -⟩
  · rw [(Position.mk.inj heq).1]
    exact hm
  · exact absurd hturn (not_turn_of_arrived rfl)

theorem Beside.eq_or_below {l l' : Location} (h : Beside d s n l l') :
    l' = l ∨ d ++ [.name s] <+: l := by
  cases h with
  | same apart => exact Or.inl rfl
  | below rest => exact Or.inr (List.prefix_append _ rest)

/-! ## Links in closed trees -/

theorem VacantBelow.linkAt {l k : Location} (h : t.VacantBelow l) (hl : t.linkAt l = none) (hk : l <+: k) :
    t.linkAt k = none := by
  by_cases hne : k = l
  · exact hne ▸ hl
  · have hnone := h k hk hne
    exact (linkAt_eq_none_iff (ne_nil_of_get?_eq_none hnone)).2 (by simp [hnone])

/-- A new link to an entry beside it that is neither a link nor a directory. -/
theorem ParentClosed.neighbour (h : t.ParentClosed) (vacant : t.get? (d ++ [.name s]) = none) {e : Entry}
    (hget : t.get? (d ++ [.name n]) = some e) (hlink : e.isSymlink = false) (hdir : e.isDirectory = false)
    (hn : n.Proper) : Neighbour t (t.set (d ++ [.name s]) (.symlink ⟨n⟩)) d s n where
  link := by
    rw [linkAt, entries_set t (by simp), if_pos rfl]
    rfl
  others {k} _ hne := by
    rw [linkAt, linkAt, entries_set t (by simp), if_neg hne]
  before hk := (h.vacantBelow vacant).linkAt ((linkAt_eq_none_iff (by simp)).2 (by simp [vacant])) hk
  beside hk := by
    refine VacantBelow.linkAt (h.vacantBelow_of_not (not_isDirectoryAt (by simp) fun e' he' => ?_)) ?_ hk
    · rw [Option.some.inj (he'.symm.trans hget), hdir]
    · refine (linkAt_eq_none_iff (by simp)).2 fun e' he' => ?_
      rw [Option.some.inj (he'.symm.trans hget), hlink]
  proper := hn
  different := by
    rintro rfl
    rw [vacant] at hget
    cases hget

/-- Below directories the path that spells out a link to an entry beside it leads to that entry. -/
theorem Founded.locate?_link {target : Path} {e : Entry} (h : t.Founded (d ++ [.name s])) (hd : d.Proper)
    (hlink : t.linkAt (d ++ [.name s]) = some target) (htarget : target = ⟨n⟩) (hn : n.Proper)
    (hget : t.get? (d ++ [.name n]) = some e) (hplain : e.isSymlink = false) :
    t.locate? true (d ++ [.name s]) = some (d ++ [.name n]) := by
  subst htarget
  have hfree : t.LinkFree d := by
    refine (h.of_prefix (List.prefix_append d _)).linkFree fun hne => ?_
    exact linkAt_of_isDirectoryAt (h d (List.prefix_append d _) (by simp)) hne
  have hnone : t.linkAt (d ++ [.name n]) = none := by
    refine (linkAt_eq_none_iff (by simp)).2 fun e' he' => ?_
    rw [Option.some.inj (he'.symm.trans hget), hplain]
  rw [locate?, resolveFrom_of_linkFree true maxLinks hd hfree (List.cons_ne_nil _ _)]
  have hstop : advance t true d [.name s] = .link d ⟨n⟩ [] := by
    rw [advance, hlink]
    rfl
  rw [resolveFrom, hstop]
  simp only [maxLinks, Path.isAbsolute_name hn, Path.parts_name hn, List.append_nil]
  exact resolveFrom_name true _ (Or.inr hnone)

end

end ImageLayer.Tree
