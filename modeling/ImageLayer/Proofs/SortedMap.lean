import Mathlib.Data.List.Sort
import ImageLayer.SortedMap
/-!
What a sorted map holds.

A sorted map is a list of entries whose keys increase. Proofs about it speak of keys and not of the list, and
this module is the bridge between the two.

* An entry stands in the list exactly if it is found under its key (`mem_toList_iff`). That rests on
  `mem_iff_find`, by induction on the list: a key that is greater than the first is not in front of it, and a
  key that is smaller is nowhere.
* A map is known by what is found in it (`ext_get?`): two increasing lists with the same entries are one list.
  So equations between maps are proved key by key, as in `insert_of_get?` and `insert_comm`.
* `get?_mapWithKey` is the equation for changing all values at once, and `idxOf_lt_of_compare` reads the order
  of two entries in the list off their keys, which is what the order of an archive is about.

The order of keys is an ordering of a type in the sense of `Std.TransOrd` and `Std.LawfulEqOrd`; nothing is said
here of which one.
-/

namespace ImageLayer.SortedMap

variable {κ α β : Type} [Ord κ] [Std.TransOrd κ] [Std.LawfulEqOrd κ]

omit [Std.TransOrd κ] in
/-- An entry stands in an increasing list exactly if looking up its key finds it. -/
theorem mem_iff_find {k : κ} {x : α} {l : List (κ × α)}
    (h : l.Pairwise fun a b => compare a.1 b.1 = .lt) : (k, x) ∈ l ↔ find k l = some x := by
  induction l with
  | nil => simp [find]
  | cons hd tl ih =>
    obtain ⟨k', x'⟩ := hd
    obtain ⟨hhd, htl⟩ := List.pairwise_cons.1 h
    rw [find]
    split
    · rename_i heq
      have hk : k = k' := Std.compare_eq_iff_eq.1 heq
      subst hk
      constructor
      · intro hmem
        rcases List.mem_cons.1 hmem with he | he
        · simp_all
        · exact absurd (hhd _ he) (by simp)
      · intro hx
        simp_all
    · rename_i hne
      rw [← ih htl]
      constructor
      · intro hmem
        rcases List.mem_cons.1 hmem with he | he
        · exact absurd (Std.compare_eq_iff_eq.2 (Prod.mk.inj he).1) hne
        · exact he
      · exact List.mem_cons_of_mem _

omit [Std.TransOrd κ] in
theorem mem_toList_iff {m : SortedMap κ α} {k : κ} {x : α} :
    (k, x) ∈ m.toList ↔ m.get? k = some x := mem_iff_find m.sorted

omit [Std.TransOrd κ] in
@[simp] theorem get?_mapWithKey (f : κ → α → β) (m : SortedMap κ α) (k : κ) :
    (m.mapWithKey f).get? k = (m.get? k).map (f k) := by
  obtain ⟨l, hl⟩ := m
  change find k (l.map fun e => (e.1, f e.1 e.2)) = (find k l).map (f k)
  clear hl
  induction l with
  | nil => rfl
  | cons hd tl ih =>
    rw [List.map_cons, find, find, ih]
    by_cases h : compare k hd.1 = .eq
    · have hk : k = hd.1 := Std.compare_eq_iff_eq.1 h
      subst hk
      simp
    · simp [h]

/-- Storing under a key what is stored there changes nothing. -/
theorem insert_of_get? {m : SortedMap κ α} {k : κ} {x : α} (h : m.get? k = some x) : m.insert k x = m := by
  have hplace : ∀ l : List (κ × α), (l.Pairwise fun a b => compare a.1 b.1 = .lt) → (k, x) ∈ l →
      place k x l = l := by
    intro l hl hmem
    induction l with
    | nil => cases hmem
    | cons hd tl ih =>
      obtain ⟨hhd, htl⟩ := List.pairwise_cons.1 hl
      rcases List.mem_cons.1 hmem with rfl | hmem
      · simp [place]
      · have hgt : compare k hd.1 = .gt := Std.OrientedCmp.gt_of_lt (hhd _ hmem)
        rw [place, hgt]
        exact congrArg _ (ih htl hmem)
  exact SortedMap.ext (hplace m.toList m.sorted (mem_toList_iff.2 h))

/-- Of two entries the one with the smaller key stands before the other. -/
theorem idxOf_lt_of_compare {m : SortedMap κ α} {i j : Nat} {a b : κ × α}
    (hi : m.toList[i]? = some a) (hj : m.toList[j]? = some b) (h : compare a.1 b.1 = .lt) :
    i < j := by
  obtain ⟨hi', rfl⟩ := List.getElem?_eq_some_iff.1 hi
  obtain ⟨hj', rfl⟩ := List.getElem?_eq_some_iff.1 hj
  rcases Nat.lt_trichotomy i j with hlt | heq | hgt
  · exact hlt
  · subst heq
    simp at h
  · have := List.pairwise_iff_getElem.1 m.sorted j i hj' hi' hgt
    exact absurd (Std.TransCmp.lt_trans h this) (by simp)

/-- A map is known by what is found in it. -/
theorem ext_get? {m n : SortedMap κ α} (h : ∀ k, m.get? k = n.get? k) : m = n := by
  have hasymm : ∀ {a b : κ × α}, compare a.1 b.1 = .lt → compare b.1 a.1 ≠ .lt := by
    intro a b hab hba
    simpa using Std.TransCmp.lt_trans hab hba
  have hantisymm : Std.Antisymm fun a b : κ × α => compare a.1 b.1 = .lt :=
    ⟨fun a b hab hba => absurd hba (hasymm hab)⟩
  have hirrefl : Std.Irrefl fun a b : κ × α => compare a.1 b.1 = .lt := ⟨fun a ha => hasymm ha ha⟩
  refine SortedMap.ext (m.sorted.eq_of_mem_iff n.sorted ?_)
  rintro ⟨k, x⟩
  rw [mem_toList_iff, mem_toList_iff, h]

/-- Values under different keys can be stored in either order. -/
theorem insert_comm [DecidableEq κ] (m : SortedMap κ α) {k k' : κ} (hk : k ≠ k') (x x' : α) :
    (m.insert k x).insert k' x' = (m.insert k' x').insert k x := by
  refine ext_get? fun j => ?_
  rw [get?_insert, get?_insert, get?_insert, get?_insert]
  by_cases hj : j = k
  · simp [hj, hk]
  · simp [hj]

end ImageLayer.SortedMap
