import ImageLayer.Proofs.Tree.Loading
/-!
Hard links in the order of a tree.

A reader of an archive meets the entries of a tree in the order of `Tree.walk`, and can make a hard link only to
a file that it has met. `linksFollowFiles_run_iff`, the main statement, says exactly when it can, after any
sequence of operations on the empty tree or a loaded one: if every link that an operation made lies behind the
file it was made to. In a loaded tree every link does. An operation that makes a link takes both names as they
come.

In a sound tree a link spells out the location of its file, and the list is in the order of locations. So the
question is one of locations only (`Sound.linksFollowFiles_iff`): whether each link has a location behind that
of its source.

The rest counts links. `Change.isLink_iff` says that a change adds the hard link that it says it makes and no
other, and takes none away. By induction the links at the end are those at the start and those that were made
(`Changes.isLink_iff`). Since a link never moves and never gets another source, each of them is in order exactly
if it was so when it was made.

There is a link in front of its file already after two operations (`not_linksFollowFiles_link_in_front`).
-/

namespace ImageLayer.Tree

/-- Every hard link is listed behind the file that it spells out. -/
def LinksFollowFiles (t : Tree) : Prop :=
  ∀ (j : Nat) (l : Location) (e : Entry) (p : Path), t.walk[j]? = some (l, e) → e.kind = .hardlink p →
    ∃ (i : Nat) (s : Location) (f : Entry),
      i < j ∧ t.walk[i]? = some (s, f) ∧ p.location? = some s ∧ f.isFile

/-- In a sound tree the order of the list is the order of the locations. -/
theorem Sound.linksFollowFiles_iff {t : Tree} (h : t.Sound) :
    t.LinksFollowFiles ↔ t.LinksBackward := by
  constructor
  · intro hfollow l e p hget hkind
    have hl : l ≠ [] :=
      ne_nil_of_isDirectory_eq_false h.root hget (by simp [Entry.isDirectory, hkind])
    rw [get?_of_ne_nil t hl] at hget
    obtain ⟨j, hj⟩ := List.getElem?_of_mem (mem_walk.2 hget)
    obtain ⟨i, s, f, hij, hi, hp, -⟩ := hfollow j l e p hj hkind
    refine ⟨s, hp, ?_⟩
    obtain ⟨hi', heqi⟩ := List.getElem?_eq_some_iff.1 hi
    obtain ⟨hj', heqj⟩ := List.getElem?_eq_some_iff.1 hj
    -- The list is sorted, so that positions compare as locations do.
    have := List.pairwise_iff_getElem.1 t.entries.sorted i j hi' hj' hij
    change compare (t.walk[i]).1 (t.walk[j]).1 = .lt at this
    rwa [heqi, heqj] at this
  · intro hback j l e p hj hkind
    have hmem := mem_walk.1 (List.mem_of_getElem? hj)
    have hl : l ≠ [] := by
      rintro rfl
      simp [h.rootOnce] at hmem
    rw [← get?_of_ne_nil t hl] at hmem
    obtain ⟨s, f, hs, rfl, hf, hfile, -⟩ := h.source hmem hkind
    have hsne : s ≠ [] :=
      ne_nil_of_isDirectory_eq_false h.root hf (not_isDirectory_of_isFile hfile)
    rw [get?_of_ne_nil t hsne] at hf
    obtain ⟨i, hi⟩ := List.getElem?_of_mem (mem_walk.2 hf)
    obtain ⟨s', hs', hlt⟩ := hback l e s.path hmem hkind
    rw [Location.location?_path hs, Option.some.injEq] at hs'
    subst hs'
    exact ⟨i, s, f, SortedMap.idxOf_lt_of_compare hi hj hlt, hi, Location.location?_path hs, hfile⟩

/-! ## Which links there are -/

/-- There is a hard link at a location that spells out a path. -/
def IsLink (t : Tree) (l : Location) (p : Path) : Prop :=
  ∃ e, t.get? l = some e ∧ e.kind = .hardlink p

theorem linksBackward_iff {t : Tree} : t.LinksBackward ↔
    ∀ l p, t.IsLink l p → ∃ s, p.location? = some s ∧ compare s l = .lt :=
  ⟨fun h l p ⟨e, hget, hkind⟩ => h l e p hget hkind, fun h l e p hget hkind => h l p ⟨e, hget, hkind⟩⟩

theorem isLink_set_vacant {t : Tree} {l : Location} {e : Entry} (vacant : t.get? l = none)
    {k : Location} {p : Path} :
    (t.set l e).IsLink k p ↔ t.IsLink k p ∨ k = l ∧ e.kind = .hardlink p := by
  unfold IsLink
  rw [get?_set]
  by_cases hk : k = l
  · subst hk
    simp [vacant]
  · simp [hk]

/-- A change adds the hard link that it says it makes, and no other. -/
theorem Change.isLink_iff {t t' : Tree} {made : List Made} (h : Change t made t') {l : Location}
    {p : Path} :
    t'.IsLink l p ↔ t.IsLink l p ∨ ∃ s, Made.link s l ∈ made ∧ p = s.path := by
  cases h with
  | directory proper vacant beside =>
    rw [isLink_set_vacant vacant]
    simp [Entry.directory, Entry.ofKind]
  | @entry parent n kind mode proper inside vacant plain =>
    rw [isLink_set_vacant vacant]
    simp [Entry.ofKind, plain p]
  | @link source parent n e sourceProper file isFile proper inside vacant =>
    rw [isLink_set_vacant vacant]
    simp only [List.mem_singleton, Made.link.injEq, EntryKind.hardlink.injEq]
    refine or_congr_right ?_
    constructor
    · rintro ⟨hl, hp⟩
      exact ⟨source, ⟨rfl, hl⟩, hp.symm⟩
    · rintro ⟨s, ⟨rfl, hl⟩, hp⟩
      exact ⟨hl, hp.symm⟩
  -- What is overwritten was no link and is none afterwards.
  | @contents k e bytes file isFile =>
    have hold : ¬ t.IsLink k p := by
      rintro ⟨e', hget, hkind⟩
      rw [file] at hget
      obtain rfl := Option.some.inj hget
      simp [Entry.isFile, hkind] at isFile
    unfold IsLink at hold ⊢
    rw [get?_set]
    by_cases hk : l = k
    · subst hk
      simpa using hold
    · simp [hk]
  | @attributes q k f inode change =>
    unfold IsLink
    rw [get?_mapNames]
    cases t.get? l with
    | none => simp
    | some e =>
      by_cases hname : l = k ∨ l ≠ [] ∧ isLinkTo k e
      · simp [hname, change.kind]
      · simp [hname]

theorem Changes.isLink_iff {t t' : Tree} {made : List Made} (h : Changes t made t') {l : Location}
    {p : Path} :
    t'.IsLink l p ↔ t.IsLink l p ∨ ∃ s, Made.link s l ∈ made ∧ p = s.path := by
  induction h with
  | nil t => simp
  | cons first rest ih =>
    rw [ih, first.isLink_iff]
    simp only [List.mem_append, or_and_right, exists_or, or_assoc]

/-- The file that a link was made to has a location of proper names. -/
theorem Changes.source_proper {t t' : Tree} {made : List Made} (h : Changes t made t')
    {s l : Location} (hmade : Made.link s l ∈ made) : s.Proper := by
  induction h with
  | nil t => simp at hmade
  | cons first rest ih =>
    rcases List.mem_append.1 hmade with hmade | hmade
    · cases first with
      | link sourceProper file isFile proper inside vacant =>
        obtain ⟨rfl, -⟩ := Made.link.inj (List.mem_singleton.1 hmade)
        exact sourceProper
      | _ => simp at hmade
    · exact ih hmade

theorem Changes.linksBackward_iff {t t' : Tree} {made : List Made} (h : Changes t made t') :
    t'.LinksBackward ↔
      t.LinksBackward ∧ ∀ s l, Made.link s l ∈ made → compare s l = .lt := by
  rw [Tree.linksBackward_iff, Tree.linksBackward_iff]
  constructor
  · intro hback
    refine ⟨fun l p hlink => hback l p (h.isLink_iff.2 (Or.inl hlink)), fun s l hmade => ?_⟩
    obtain ⟨s', hs', hlt⟩ := hback l s.path (h.isLink_iff.2 (Or.inr ⟨s, hmade, rfl⟩))
    rw [Location.location?_path (h.source_proper hmade), Option.some.injEq] at hs'
    exact hs' ▸ hlt
  · rintro ⟨hback, hmade⟩ l p hlink
    rcases h.isLink_iff.1 hlink with hold | ⟨s, hs, rfl⟩
    · exact hback l p hold
    · exact ⟨s, Location.location?_path (h.source_proper hs), hmade s l hs⟩

/-! ## All sequences of operations -/

/-- Whatever operations made of the empty tree or of a loaded one: hard links are listed behind their
files exactly if each link that an operation made lies behind the file it was made to. -/
theorem linksFollowFiles_run_iff {t : Tree} (h : t.Initial) (ops : List Operation) :
    (t.run ops).LinksFollowFiles ↔
      ∀ s l, Made.link s l ∈ t.madeBy ops → compare s l = .lt := by
  rw [(h.sound.run ops).linksFollowFiles_iff, (run_changes t ops).linksBackward_iff]
  exact and_iff_right h.linksBackward

/-- A link made behind its file: the file `a` and the link `b` to it. -/
theorem linksFollowFiles_link_behind :
    empty.Initial ∧
      (empty.run [.writeFile ⟨[0x61]⟩ [1] 0o644, .hardlink ⟨[0x61]⟩ ⟨[0x62]⟩]).LinksFollowFiles := by
  refine ⟨initial_empty, (linksFollowFiles_run_iff initial_empty _).2 fun s l hmade => ?_⟩
  have hmade' : Made.link s l ∈ [Made.link [.name [0x61]] [.name [0x62]]] := hmade
  obtain ⟨rfl, rfl⟩ := Made.link.inj (List.mem_singleton.1 hmade')
  decide

/-- A link made in front of its file: the file `b` and the link `a` to it. -/
theorem not_linksFollowFiles_link_in_front :
    ¬ (empty.run [.writeFile ⟨[0x62]⟩ [1] 0o644, .hardlink ⟨[0x62]⟩ ⟨[0x61]⟩]).LinksFollowFiles := by
  intro h
  obtain ⟨i, s, f, hi, -⟩ := h 0 [.name [0x61]] ⟨.hardlink ⟨[0x62]⟩, 0o644, none⟩ ⟨[0x62]⟩
    (by decide +kernel) rfl
  exact absurd hi (Nat.not_lt_zero i)

end ImageLayer.Tree
