import ImageLayer.Tree.Operation
import ImageLayer.Proofs.SortedMap
/-!
What a tree holds, seen through looking up.

A tree is kept as a root and a sorted list of entries at locations. Statements about trees are not made in terms
of the list: `Tree.get?`, what is found at a location, is the view that all of them are made in. Each way of
changing a tree has one equation in this view.

* An entry that is set is found at its location, and everything else where it was (`get?_set`).
* A change of all names of a file is made at its location and at every hard link to it (`get?_mapNames`).

With these nobody looks at the list again but for questions of order, and for those `mem_walk` leads from the
list to the view and back.

The root is the exception that all lemmas with `l ≠ []` are about. It is found at the location without parts and
does not stand in the list, so that it is never listed. What is found at other locations stands in the list
(`get?_of_ne_nil`).
-/

namespace ImageLayer

/-! ## Entries -/

namespace Entry

theorem isSymlink_congr {e e' : Entry} (h : e'.kind = e.kind) : e'.isSymlink = e.isSymlink := by
  unfold isSymlink
  rw [h]

theorem isDirectory_congr {e e' : Entry} (h : e'.kind = e.kind) : e'.isDirectory = e.isDirectory := by
  unfold isDirectory
  rw [h]

theorem isFile_iff {e : Entry} : e.isFile ↔ ∃ contents, e.kind = .file contents := by
  unfold isFile
  cases e.kind <;> simp

theorem isSymlink_of_isFile {e : Entry} (h : e.isFile) : e.isSymlink = false := by
  unfold isFile at h
  unfold isSymlink
  split at h <;> simp_all

theorem isSymlink_of_isDirectory {e : Entry} (h : e.isDirectory) : e.isSymlink = false := by
  unfold isDirectory at h
  unfold isSymlink
  split at h <;> simp_all

end Entry

/-! ## Trees -/

namespace Tree

@[simp] theorem get?_nil (t : Tree) : t.get? [] = some t.root := by simp [get?]

theorem get?_of_ne_nil (t : Tree) {l : Location} (h : l ≠ []) : t.get? l = t.entries.get? l := by
  simp [get?, h]

theorem ne_nil_of_get?_eq_none {t : Tree} {l : Location} (h : t.get? l = none) : l ≠ [] := by
  rintro rfl
  simp at h

/-- Where the root is a directory, nothing else can be found at it. -/
theorem ne_nil_of_isDirectory_eq_false {t : Tree} (h : t.root.isDirectory) {l : Location} {e : Entry}
    (hget : t.get? l = some e) (he : e.isDirectory = false) : l ≠ [] := by
  rintro rfl
  rw [get?_nil, Option.some.injEq] at hget
  rw [hget, he] at h
  cases h

@[simp] theorem entries_empty (l : Location) : empty.entries.get? l = none := rfl

@[simp] theorem get?_set (t : Tree) (l : Location) (e : Entry) (k : Location) :
    (t.set l e).get? k = if k = l then some e else t.get? k := by
  unfold set get?
  by_cases hl : l = []
  · subst hl
    by_cases hk : k = [] <;> simp [hk]
  · by_cases hk : k = []
    · subst hk
      simp [hl, Ne.symm hl]
    · simp [hl, hk]

theorem set_of_get? {t : Tree} {l : Location} {e : Entry} (h : t.get? l = some e) : t.set l e = t := by
  unfold get? at h
  unfold set
  split
  · rename_i hl
    rw [if_pos hl, Option.some.injEq] at h
    rw [← h]
  · rename_i hl
    rw [if_neg hl] at h
    rw [SortedMap.insert_of_get? h]

theorem entries_set (t : Tree) {l : Location} (hl : l ≠ []) (e : Entry) (k : Location) :
    (t.set l e).entries.get? k = if k = l then some e else t.entries.get? k := by
  simp [set, hl]

@[simp] theorem root_set (t : Tree) {l : Location} (hl : l ≠ []) (e : Entry) :
    (t.set l e).root = t.root := by
  simp [set, hl]

@[simp] theorem entries_mapNames (t : Tree) (l : Location) (f : Entry → Entry) (k : Location) :
    (t.mapNames l f).entries.get? k
      = (t.entries.get? k).map fun e => if k = l ∨ isLinkTo l e then f e else e := by
  simp [mapNames]

theorem get?_mapNames (t : Tree) (l : Location) (f : Entry → Entry) (k : Location) :
    (t.mapNames l f).get? k
      = (t.get? k).map fun e => if k = l ∨ k ≠ [] ∧ isLinkTo l e then f e else e := by
  by_cases hk : k = []
  · subst hk
    simp only [get?_nil, Option.map_some, mapNames]
    by_cases hl : l = []
    · simp [hl]
    · simp [hl, Ne.symm hl]
  · simp [get?_of_ne_nil _ hk, hk]

theorem mem_walk {t : Tree} {l : Location} {e : Entry} :
    (l, e) ∈ t.walk ↔ t.entries.get? l = some e := SortedMap.mem_toList_iff

theorem isDirectoryAt_iff {t : Tree} {l : Location} :
    t.isDirectoryAt l ↔ l = [] ∨ ∃ e, t.entries.get? l = some e ∧ e.isDirectory := by
  rw [isDirectoryAt, Bool.or_eq_true, decide_eq_true_iff]
  cases t.entries.get? l <;> simp

theorem linkAt_eq_none_iff {t : Tree} {l : Location} (hl : l ≠ []) :
    t.linkAt l = none ↔ ∀ e, t.get? l = some e → e.isSymlink = false := by
  rw [get?_of_ne_nil t hl]
  unfold linkAt Entry.isSymlink
  cases t.entries.get? l with
  | none => simp
  | some e => cases hkind : e.kind <;> simp [hkind]

end Tree

end ImageLayer
