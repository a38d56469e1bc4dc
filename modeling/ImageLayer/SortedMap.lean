/-!
Finite maps listed in the order of their keys.

A `SortedMap` holds its entries as a list in strictly increasing key order, so that listing it is reading the
field, and a scan over a range of keys is a `dropWhile` followed by a `takeWhile`. The order is part of the
type: every operation here keeps it, and two maps with the same entries are equal (`SortedMap.ext`).

Everything that is proved of a map goes through looking up (`SortedMap.get?`), with one equation for each
operation at the end of this module. The list itself matters where its order does.
-/

namespace ImageLayer

open Std

/-- A finite map whose entries stand in strictly increasing order of their keys. -/
structure SortedMap (κ : Type) (α : Type) [Ord κ] where
  /-- The entries, keys strictly increasing. -/
  toList : List (κ × α)
  /-- Each key is smaller than every later one. -/
  sorted : toList.Pairwise fun a b => compare a.1 b.1 = .lt

namespace SortedMap

variable {κ α β : Type} [Ord κ]

/-- The map without entries. -/
def empty : SortedMap κ α := ⟨[], .nil⟩

instance : Inhabited (SortedMap κ α) := ⟨empty⟩

instance : EmptyCollection (SortedMap κ α) := ⟨empty⟩

@[ext] theorem ext {m n : SortedMap κ α} (h : m.toList = n.toList) : m = n := by
  cases m; cases n; cases h; rfl

instance [DecidableEq κ] [DecidableEq α] : DecidableEq (SortedMap κ α) := fun m n =>
  decidable_of_iff (m.toList = n.toList) ⟨ext, fun h => h ▸ rfl⟩

/-- The number of entries. -/
def size (m : SortedMap κ α) : Nat := m.toList.length

/-- Whether there is no entry. -/
def isEmpty (m : SortedMap κ α) : Bool := m.toList.isEmpty

/-! ## Looking up -/

/-- The value of the first entry of a list under key `k`. -/
def find (k : κ) : List (κ × α) → Option α
  | [] => none
  | (k', x) :: rest => if compare k k' = .eq then some x else find k rest

/-- The value stored under `k`. -/
def get? (m : SortedMap κ α) (k : κ) : Option α := find k m.toList

/-- Whether a value is stored under `k`. -/
def contains (m : SortedMap κ α) (k : κ) : Bool := (m.get? k).isSome

/-! ## Inserting -/

/-- Places `x` under `k` in an increasing list, instead of the entry of that key if there
is one. -/
def place (k : κ) (x : α) : List (κ × α) → List (κ × α)
  | [] => [(k, x)]
  | (k', x') :: rest =>
    match compare k k' with
    | .lt => (k, x) :: (k', x') :: rest
    | .eq => (k, x) :: rest
    | .gt => (k', x') :: place k x rest

theorem mem_place {k : κ} {x : α} {e : κ × α} {l : List (κ × α)} (h : e ∈ place k x l) :
    e = (k, x) ∨ e ∈ l := by
  induction l with
  | nil => simpa [place] using h
  | cons hd tl ih => grind [place]

variable [TransOrd κ] [LawfulEqOrd κ]

theorem pairwise_place {k : κ} {x : α} {l : List (κ × α)}
    (h : l.Pairwise fun a b => compare a.1 b.1 = .lt) :
    (place k x l).Pairwise fun a b => compare a.1 b.1 = .lt := by
  induction l with
  | nil => simp [place]
  | cons hd tl ih =>
    obtain ⟨k', x'⟩ := hd
    obtain ⟨hhd, htl⟩ := List.pairwise_cons.1 h
    rw [place]
    split
    · rename_i hlt
      exact List.pairwise_cons.2 ⟨fun e he => by
        rcases List.mem_cons.1 he with rfl | he
        · exact hlt
        · exact TransCmp.lt_trans hlt (hhd e he), h⟩
    · rename_i heq
      have hk : k = k' := Std.compare_eq_iff_eq.1 heq
      subst hk
      exact List.pairwise_cons.2 ⟨hhd, htl⟩
    · rename_i hgt
      refine List.pairwise_cons.2 ⟨fun e he => ?_, ih htl⟩
      rcases mem_place he with rfl | he
      · exact OrientedCmp.lt_of_gt hgt
      · exact hhd e he

/-- Stores `x` under `k`. -/
def insert (m : SortedMap κ α) (k : κ) (x : α) : SortedMap κ α :=
  ⟨place k x m.toList, pairwise_place m.sorted⟩

/-- The map of a list of entries; of two entries under one key the later counts. -/
def ofList (l : List (κ × α)) : SortedMap κ α := l.foldl (fun m e => m.insert e.1 e.2) empty

omit [TransOrd κ] [LawfulEqOrd κ] in
/-- Replaces every value by one computed from its key and itself. -/
def mapWithKey (f : κ → α → β) (m : SortedMap κ α) : SortedMap κ β where
  toList := m.toList.map fun e => (e.1, f e.1 e.2)
  sorted := List.pairwise_map.2 m.sorted

/-- Replaces the value under `k`, if there is one. -/
def modify (m : SortedMap κ α) (k : κ) (f : α → α) : SortedMap κ α :=
  m.mapWithKey fun k' x => if compare k k' = .eq then f x else x

/-! ## What the operations do to the view -/

omit [TransOrd κ] [LawfulEqOrd κ] in
@[simp] theorem get?_empty (k : κ) : (empty : SortedMap κ α).get? k = none := rfl

omit [TransOrd κ] in
theorem find_place [DecidableEq κ] (k k' : κ) (x : α) (l : List (κ × α)) :
    find k' (place k x l) = if k' = k then some x else find k' l := by
  induction l with
  | nil => simp [place, find]
  | cons hd tl ih =>
    obtain ⟨k₁, x₁⟩ := hd
    rw [place]
    split
    · simp only [find, Std.compare_eq_iff_eq]
    · rename_i heq
      have hk : k = k₁ := Std.compare_eq_iff_eq.1 heq
      subst hk
      simp only [find, Std.compare_eq_iff_eq]
      split <;> simp_all
    · rename_i hgt
      simp only [find, ih, Std.compare_eq_iff_eq]
      by_cases h₁ : k' = k₁
      · subst h₁
        have hne : k' ≠ k := by
          rintro rfl
          simp at hgt
        simp [hne]
      · simp [h₁]

@[simp] theorem get?_insert [DecidableEq κ] (m : SortedMap κ α) (k k' : κ) (x : α) :
    (m.insert k x).get? k' = if k' = k then some x else m.get? k' := find_place k k' x m.toList

end SortedMap

end ImageLayer
