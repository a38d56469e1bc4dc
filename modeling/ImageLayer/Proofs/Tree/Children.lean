import ImageLayer.Proofs.Tree.Resolve
/-!
What is listed of a directory.

The entries below a directory are found by going to its place in the sorted list of all entries and reading on
as long as they are below it. `readDirectory_lists`, the main statement, says that this finds all of them, and
that what is listed of a directory are the last names of exactly the entries whose parent it is, each of them
once and in the order of their bytes.

Sections:

* Scanning. In the order of locations all that is below a directory stands in one piece behind it
  (`prefix_of_between`), as locations are compared part by part. So the scan is a filter of the list
  (`scan_eq_filter`). It would not be in the order of written paths, where names such as `a-b` stand between `a`
  and `a/b` (`readDirectory_lists_between` has some).
* Listing. Of what is below a directory the entries with one more name are listed. A listing succeeds where the
  path leads to a directory, after symbolic links, and only there (`readDirectory_eq_ok_iff`).
* The order of a listing, which is that of the list, since locations in one directory are in the order of their
  names (`children_sorted`).

An entry whose location ends in a step up would be in the directory by its location and have no name to be
listed. So locations are taken to be made of proper names (`map_children`), as operations keep them
(`proper_run`).
-/

namespace ImageLayer

theorem Bytes.lt_of_compare {a b : Bytes} (h : compare a b = .lt) : a < b := by
  induction a generalizing b with
  | nil =>
    cases b with
    | nil => simp at h
    | cons y b => exact List.nil_lt_cons y b
  | cons x a ih =>
    cases b with
    | nil => simp at h
    | cons y b =>
      rw [List.compare_cons_cons] at h
      cases hxy : compare x y with
      | lt => exact List.cons_lt_cons_iff.2 (Or.inl (Std.compare_eq_lt.1 hxy))
      | gt => simp [hxy] at h
      | eq =>
        rw [hxy] at h
        exact List.cons_lt_cons_iff.2 (Or.inr ⟨Std.compare_eq_iff_eq.1 hxy, ih h⟩)

/-- What stands between a location and something below it is below it as well. -/
theorem Location.prefix_of_between {l k m : Location} (hlk : compare l k ≠ .gt) (hkm : compare k m = .lt)
    (hm : l <+: m) : l <+: k := by
  induction l generalizing k m with
  | nil => exact List.nil_prefix
  | cons p l ih =>
    obtain ⟨rest, rfl⟩ := hm
    cases k with
    | nil => exact absurd rfl hlk
    | cons q k =>
      rw [List.cons_append] at hkm
      rw [List.compare_cons_cons] at hlk hkm
      have hswap : compare q p = (compare p q).swap := Std.OrientedOrd.eq_swap
      cases hpq : compare p q with
      | lt => simp [hswap, hpq] at hkm
      | gt => simp [hpq] at hlk
      | eq =>
        obtain rfl := Std.compare_eq_iff_eq.1 hpq
        simp only [Std.compare_self, Ordering.eq_then] at hlk hkm
        exact List.cons_prefix_cons.2 ⟨rfl, ih hlk hkm (List.prefix_append l rest)⟩

theorem Location.compare_ne_gt_of_prefix {l k : Location} (h : l <+: k) : compare l k ≠ .gt := by
  obtain ⟨rest, rfl⟩ := h
  cases rest with
  | nil => simp
  | cons p rest => simp [Location.compare_append l p rest]

namespace Tree

/-! ## Scanning -/

/-- The part of an ordered list that is not in front of `l` begins with all that is below `l`. -/
theorem takeWhile_eq_filter {l : Location} {xs : List (Location × Entry)}
    (hsorted : xs.Pairwise fun a b => compare a.1 b.1 = .lt) (hfrom : ∀ x ∈ xs, compare l x.1 ≠ .gt) :
    (xs.takeWhile fun x => l.isPrefixOf x.1) = xs.filter fun x => l.isPrefixOf x.1 := by
  induction xs with
  | nil => rfl
  | cons x xs ih =>
    obtain ⟨hx, hxs⟩ := List.pairwise_cons.1 hsorted
    rw [List.takeWhile_cons, List.filter_cons, ih hxs fun y hy => hfrom y (List.mem_cons_of_mem _ hy)]
    split
    · rfl
    · rename_i hprefix
      refine (List.filter_eq_nil_iff.2 fun y hy hbelow => hprefix ?_).symm
      rw [List.isPrefixOf_iff_prefix] at hbelow ⊢
      exact Location.prefix_of_between (hfrom x List.mem_cons_self) (hx y hy) hbelow

theorem dropWhile_takeWhile_eq_filter {l : Location} {xs : List (Location × Entry)}
    (hsorted : xs.Pairwise fun a b => compare a.1 b.1 = .lt) :
    ((xs.dropWhile fun x => compare x.1 l = .lt).takeWhile fun x => l.isPrefixOf x.1)
      = xs.filter fun x => l.isPrefixOf x.1 := by
  induction xs with
  | nil => rfl
  | cons x xs ih =>
    obtain ⟨hx, hxs⟩ := List.pairwise_cons.1 hsorted
    have hswap : ∀ k : Location, compare l k = (compare k l).swap := fun _ => Std.OrientedOrd.eq_swap
    rw [List.dropWhile_cons]
    split
    · rename_i hlt
      rw [ih hxs, List.filter_cons_of_neg]
      intro hprefix
      refine Location.compare_ne_gt_of_prefix (List.isPrefixOf_iff_prefix.1 hprefix) ?_
      rw [hswap, of_decide_eq_true hlt]
      rfl
    · rename_i hnot
      refine takeWhile_eq_filter hsorted fun y hy hgt => ?_
      have hyl : compare y.1 l = .lt := by
        have := hswap y.1
        cases hc : compare y.1 l with
        | lt => rfl
        | _ => simp [hc, hgt] at this
      rcases List.mem_cons.1 hy with rfl | hy
      · exact hnot (decide_eq_true hyl)
      · exact hnot (decide_eq_true (Std.TransCmp.lt_trans (hx y hy) hyl))

/-- The scan from a location finds all entries below it, and the entry there. -/
theorem scan_eq_filter (t : Tree) (l : Location) :
    t.scan l = t.walk.filter fun x => l.isPrefixOf x.1 :=
  dropWhile_takeWhile_eq_filter t.entries.sorted

/-! ## Listing -/

theorem childName?_eq_some {l k : Location} {n : Name} :
    childName? l k = some n ↔ k = l ++ [.name n] := by
  unfold childName?
  constructor
  · intro h
    split at h
    · rename_i hl
      split at h
      · rename_i m hm
        obtain rfl := Option.some.inj h
        obtain ⟨d, rfl⟩ := List.getLast?_eq_some_iff.1 hm
        rw [← hl, List.dropLast_concat]
      · cases h
    · cases h
  · rintro rfl
    simp

/-- The names of the entries directly in a directory. -/
def children (t : Tree) (l : Location) : List Name :=
  (t.walk.filter fun x => l.isPrefixOf x.1).filterMap fun x => childName? l x.1

theorem mem_children {t : Tree} {l : Location} {n : Name} :
    n ∈ t.children l ↔ ∃ e, t.get? (l ++ [.name n]) = some e := by
  rw [get?_of_ne_nil t (List.append_ne_nil_of_right_ne_nil l (List.cons_ne_nil _ _))]
  simp only [children, List.mem_filterMap, List.mem_filter, childName?_eq_some, Prod.exists]
  constructor
  · rintro ⟨_, e, ⟨hmem, -⟩, rfl⟩
    exact ⟨e, mem_walk.1 hmem⟩
  · rintro ⟨e, hget⟩
    exact ⟨_, e, ⟨mem_walk.2 hget, List.isPrefixOf_iff_prefix.2 (List.prefix_append l _)⟩, rfl⟩

/-- A directory is listed where the path leads to one. -/
theorem readDirectory_eq_ok_iff {t : Tree} {p : Path} {names : List Name} :
    t.readDirectory p = .ok names ↔
      ∃ l, t.locate? true p.parts = some l ∧ t.isDirectoryAt l ∧ names = t.children l := by
  unfold readDirectory resolve children
  cases hloc : t.locate? true p.parts with
  | none => simp [bind, Except.bind]
  | some l =>
    simp only [bind, Except.bind, ← scan_eq_filter]
    split
    · rename_i hdir
      simp [hdir, @eq_comm _ names]
    · rename_i hdir
      simp [hdir]

/-- A name is listed exactly if there is an entry of this name directly in the directory. -/
theorem mem_readDirectory {t : Tree} {p : Path} {l : Location} (hloc : t.locate? true p.parts = some l)
    (hdir : t.isDirectoryAt l) :
    ∃ names, t.readDirectory p = .ok names ∧ ∀ n, n ∈ names ↔ ∃ e, t.get? (l ++ [.name n]) = some e :=
  ⟨t.children l, readDirectory_eq_ok_iff.2 ⟨l, hloc, hdir, rfl⟩, fun _ => mem_children⟩

/-! ## The order of a listing -/

/-- A location of proper names is listed exactly if it is directly in the directory. -/
theorem childName?_proper {d k : Location} (hk : k.Proper) :
    (if d.isPrefixOf k then (childName? d k).map fun n => d ++ [.name n] else none)
      = if k ≠ [] ∧ k.dropLast = d then some k else none := by
  rcases List.eq_nil_or_concat k with rfl | ⟨parent, part, hconcat⟩
  · simp [childName?]
  · rw [List.concat_eq_append] at hconcat
    subst hconcat
    cases part with
    | up => exact absurd (hk _ (List.mem_append_right parent (List.mem_singleton.2 rfl))) id
    | name n => by_cases hparent : parent = d <;> simp [childName?, hparent]

theorem map_children {t : Tree} (hproper : ∀ x ∈ t.walk, x.1.Proper) (d : Location) :
    (t.children d).map (fun n => d ++ [.name n])
      = (t.walk.map Prod.fst).filter fun k => k ≠ [] ∧ k.dropLast = d := by
  rw [children, List.map_filterMap, List.filterMap_filter, List.filter_map, ← List.filterMap_eq_filter,
    List.map_filterMap]
  refine List.filterMap_congr fun x hx => ?_
  simpa [Option.guard] using childName?_proper (d := d) (hproper x hx)

/-- Locations in one directory are in the order of their names. -/
theorem children_sorted (t : Tree) (d : Location) : (t.children d).Pairwise (· < ·) := by
  refine List.pairwise_filterMap.2 ((t.entries.sorted.filter _).imp fun {x y} hxy n hn m hm => ?_)
  rw [childName?_eq_some] at hn hm
  rw [hn, hm, Location.compare_append_append, List.compare_cons_cons] at hxy
  have hnames : compare (Part.name n) (Part.name m) = .lt := by simpa using hxy
  exact Bytes.lt_of_compare hnames

/-- Where a path leads to a directory, the scan finds all that is below it, and what is listed are the last names of
exactly the locations whose parent is the directory, each once and in the order of their bytes. -/
theorem readDirectory_lists {t : Tree} (hproper : ∀ x ∈ t.walk, x.1.Proper) {p : Path} {d : Location}
    (hloc : t.resolve p true = .ok d) (hdir : t.isDirectoryAt d) :
    t.scan d = (t.walk.filter fun x => d.isPrefixOf x.1) ∧
      ∃ names, t.readDirectory p = .ok names ∧
        names.map (fun n => d ++ [.name n])
          = ((t.walk.map Prod.fst).filter fun k => k ≠ [] ∧ k.dropLast = d) ∧
        names.Pairwise (· < ·) := by
  have hread : t.readDirectory p = .ok (t.children d) :=
    readDirectory_eq_ok_iff.2 ⟨d, resolve_eq_ok_iff.1 hloc, hdir, rfl⟩
  exact ⟨scan_eq_filter t d, t.children d, hread, map_children hproper d, children_sorted t d⟩

/-- Names of which the bytes stand between those of the directory `a` and of what is in it, and more below that. The
path leads to the directory through a link. -/
theorem readDirectory_lists_between :
    let placed : List (String × Entry) := [("a", .directory 0o755), ("a/c", .directory 0o755),
      ("a/c/d", .file [] 0o644), ("a/b", .file [] 0o644), ("a-b", .file [] 0o644), ("a.d", .file [] 0o644),
      ("l", .symlink (.ofString "b/../a"))]
    let t := placed.foldl (fun t x => t.insert (.ofString x.1) x.2) empty
    let d : Location := (Path.ofString "a").parts
    (∀ x ∈ t.walk, x.1.Proper) ∧ t.resolve (.ofString "l") true = .ok d ∧ t.isDirectoryAt d ∧
      ∃ names, t.readDirectory (.ofString "l") = .ok names ∧ names.Pairwise (· < ·) ∧
        names.map (fun n => d ++ [.name n]) = [(Path.ofString "a/b").parts, (Path.ofString "a/c").parts] := by
  intro placed t d
  have hproper : ∀ x ∈ t.walk, x.1.Proper := by decide +kernel
  have hloc : t.resolve (.ofString "l") true = .ok d := by decide +kernel
  have hdir : t.isDirectoryAt d := by decide +kernel
  obtain ⟨-, names, hread, hnames, hsorted⟩ := readDirectory_lists hproper hloc hdir
  exact ⟨hproper, hloc, hdir, names, hread, hsorted, hnames.trans (by decide +kernel)⟩

end Tree

end ImageLayer
