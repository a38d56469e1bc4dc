import ImageLayer.Proofs.Tree.Agreement
/-!
What holds in every tree that operations lead to.

`Tree.Sound` is the invariant of all operations: the root is a directory, every location is made of proper
names, permissions are within their bits, and behind every hard link is a file that has the same permissions and
the same owner, whose location the link spells out part by part. The empty tree is sound, and so is every tree
that is loaded from a host. Most statements about trees that operations lead to are proved for sound trees, so
that they hold of both.

The invariant consists of three that are kept for different reasons (`sound_iff`).

* The root is a directory (`RootDirectory`). Nothing is put in its place, since a new entry has a name.
* The names of every file agree. This is shown in `ImageLayer.Proofs.Tree.Agreement`, for roots of any other
  kind too.
* Links are spelled in one way (`LinksSpelled`). A link is made with the location of its file, written as a
  path. So the path of the source determines the location, and the other way round.

Each change keeps all three (`Change.sound`), and so does every sequence of operations (`Sound.run`).

Besides, no change takes an entry away or makes it something else, but for the contents of files
(`Change.kind`). This has no part in the invariant but is proved by the same case analysis, and is what "a
directory stays a directory" comes from. That names are proper is kept in every tree and not only in sound ones
(`proper_run`).
-/

namespace ImageLayer.Tree

theorem not_isDirectory_of_isFile {e : Entry} (h : e.isFile) : e.isDirectory = false := by
  unfold Entry.isFile at h
  unfold Entry.isDirectory
  split at h <;> simp_all

/-- The invariant of all operations. -/
structure Sound (t : Tree) : Prop where
  /-- The root is a directory. -/
  root : t.root.isDirectory
  /-- The root's entry is not stored a second time. -/
  rootOnce : t.entries.get? [] = none
  /-- Locations are made of proper names. -/
  proper : ∀ {l e}, t.get? l = some e → l.Proper
  /-- Permissions are within their bits. -/
  mode : ∀ {l e}, t.get? l = some e → e.mode < 4096
  /-- A hard link spells out the location of a file with which it shares permissions and owner. -/
  source : ∀ {l e p}, t.get? l = some e → e.kind = .hardlink p →
    ∃ s e', s.Proper ∧ p = s.path ∧ t.get? s = some e' ∧ e'.isFile ∧
      e'.mode = e.mode ∧ e'.owner = e.owner

/-- Every hard link spells out the location of its file part by part. -/
structure LinksSpelled (t : Tree) : Prop where
  /-- A source is the path of a location. -/
  source : ∀ {l e p}, (l, e) ∈ t.walk → e.kind = .hardlink p → ∃ s : Location, s.Proper ∧ p = s.path

/-- The root is a directory with its permissions within their bits. -/
structure RootDirectory (t : Tree) : Prop where
  /-- It is a directory. -/
  directory : t.root.isDirectory
  /-- Its permissions are within their bits. -/
  mode : t.root.mode < 4096

theorem RootDirectory.apart {t : Tree} (h : t.RootDirectory) : t.RootApart := by
  have hdir := h.directory
  refine ⟨?_, fun p hp => ?_⟩
  · cases hfile : t.root.isFile with
    | false => rfl
    | true => simp [not_isDirectory_of_isFile hfile] at hdir
  · simp [Entry.isDirectory, hp] at hdir

theorem Sound.ne_nil {t : Tree} (h : t.Sound) {l : Location} {e : Entry} (hmem : (l, e) ∈ t.walk) :
    l ≠ [] := by
  rintro rfl
  rw [mem_walk, h.rootOnce] at hmem
  cases hmem

theorem Sound.get? {t : Tree} (h : t.Sound) {l : Location} {e : Entry} (hmem : (l, e) ∈ t.walk) :
    t.get? l = some e := by
  rw [get?_of_ne_nil t (h.ne_nil hmem)]
  exact mem_walk.1 hmem

/-- What is sound about a tree: its root, its names and the spelling of its hard links. -/
theorem sound_iff {t : Tree} : t.Sound ↔ t.RootDirectory ∧ t.NamesAgree ∧ t.LinksSpelled := by
  constructor
  · intro h
    refine ⟨⟨h.root, h.mode (get?_nil t)⟩, ⟨fun hmem => ?_, fun hmem => ?_, fun hmem hkind => ?_⟩,
      ⟨fun hmem hkind => ?_⟩⟩
    · exact ⟨h.ne_nil hmem, h.proper (h.get? hmem)⟩
    · exact Nat.le_of_lt_succ (h.mode (h.get? hmem))
    · obtain ⟨s, f, hs, rfl, hf, hfile, hagree⟩ := h.source (h.get? hmem) hkind
      have hnil := ne_nil_of_isDirectory_eq_false h.root hf (not_isDirectory_of_isFile hfile)
      rw [get?_of_ne_nil t hnil] at hf
      exact ⟨s, f, Location.location?_path hs, mem_walk.2 hf, hfile, hagree⟩
    · obtain ⟨s, -, hs, hp, -⟩ := h.source (h.get? hmem) hkind
      exact ⟨s, hs, hp⟩
  · rintro ⟨hroot, hagree, hspelled⟩
    have hwalk : ∀ {l e}, t.get? l = some e → l = [] ∧ e = t.root ∨ (l, e) ∈ t.walk := by
      intro l e hget
      by_cases hl : l = []
      · subst hl
        rw [get?_nil, Option.some.injEq] at hget
        exact Or.inl ⟨rfl, hget.symm⟩
      · rw [get?_of_ne_nil t hl] at hget
        exact Or.inr (mem_walk.2 hget)
    refine ⟨hroot.directory, ?_, fun hget => ?_, fun hget => ?_, fun hget hkind => ?_⟩
    · cases hnil : t.entries.get? [] with
      | none => rfl
      | some e => exact absurd rfl (hagree.proper (mem_walk.2 hnil)).1
    · rcases hwalk hget with ⟨rfl, -⟩ | hmem
      · exact Location.proper_nil
      · exact (hagree.proper hmem).2
    · rcases hwalk hget with ⟨-, rfl⟩ | hmem
      · exact hroot.mode
      · exact Nat.lt_succ_of_le (hagree.mode hmem)
    · rcases hwalk hget with ⟨-, rfl⟩ | hmem
      · exact absurd hkind (hroot.apart.link _)
      · obtain ⟨s, hs, rfl⟩ := hspelled.source hmem hkind
        obtain ⟨s', f, hs', hfmem, hfile, hfagree⟩ := hagree.source hmem hkind
        rw [Location.location?_path hs] at hs'
        obtain rfl := Option.some.inj hs'
        exact ⟨s, f, hs, rfl, hagree.get? hfmem, hfile, hfagree⟩

theorem sound_empty : Sound empty :=
  sound_iff.2 ⟨⟨rfl, by decide⟩, namesAgree_empty, ⟨fun hmem => by simp [mem_walk] at hmem⟩⟩

theorem Sound.linksToFiles {t : Tree} (h : t.Sound) : t.LinksToFiles where
  root := h.root
  source hget hkind := by
    obtain ⟨s, f, hs, rfl, hf, hfile, -⟩ := h.source hget hkind
    exact ⟨s, f, Location.location?_path hs, hf, hfile⟩

/-! ## All changes -/

/-- An entry stays, and it stays what it is but for the contents of a file. -/
theorem Change.kind {t t' : Tree} {made : List Made} (h : Change t made t') {l : Location}
    {e : Entry} (hget : t.get? l = some e) :
    ∃ e', t'.get? l = some e' ∧ (e'.kind = e.kind ∨ e.isFile ∧ e'.isFile) := by
  have hset : ∀ {k new}, t.get? k = none → (t.set k new).get? l = some e := by
    intro k new vacant
    have hne : l ≠ k := by
      rintro rfl
      simp [vacant] at hget
    rw [get?_set, if_neg hne, hget]
  cases h with
  | directory proper vacant beside => exact ⟨e, hset vacant, Or.inl rfl⟩
  | entry proper inside vacant plain => exact ⟨e, hset vacant, Or.inl rfl⟩
  | link sourceProper file isFile proper inside vacant => exact ⟨e, hset vacant, Or.inl rfl⟩
  | @contents k e' bytes file isFile =>
    by_cases hk : l = k
    · subst hk
      rw [hget] at file
      obtain rfl := Option.some.inj file
      exact ⟨_, by rw [get?_set, if_pos rfl], Or.inr ⟨isFile, rfl⟩⟩
    · exact ⟨e, by rw [get?_set, if_neg hk, hget], Or.inl rfl⟩
  | attributes inode change =>
    refine ⟨_, by rw [get?_mapNames, hget, Option.map_some], Or.inl ?_⟩
    split
    · exact change.kind e
    · rfl

theorem Change.rootDirectory {t t' : Tree} {made : List Made} (h : Change t made t')
    (ht : t.RootDirectory) : t'.RootDirectory := by
  have hset : ∀ {l e}, l ≠ [] → (t.set l e).RootDirectory := by
    intro l e hl
    exact ⟨by rw [root_set t hl]; exact ht.directory, by rw [root_set t hl]; exact ht.mode⟩
  cases h with
  | directory proper vacant beside => exact hset (ne_nil_of_get?_eq_none vacant)
  | entry proper inside vacant plain => exact hset (ne_nil_of_get?_eq_none vacant)
  | link sourceProper file isFile proper inside vacant =>
    exact hset (ne_nil_of_get?_eq_none vacant)
  | contents file isFile => exact hset (ht.apart.ne_nil file isFile)
  | attributes inode change =>
    unfold mapNames
    split
    · exact ⟨by rw [Entry.isDirectory, change.kind]; exact ht.directory, change.mode _ ht.mode⟩
    · exact ⟨ht.directory, ht.mode⟩

theorem LinksSpelled.set {t : Tree} (h : t.LinksSpelled) {l : Location} (hl : l ≠ []) {e : Entry}
    (source : ∀ p, e.kind = .hardlink p → ∃ s : Location, s.Proper ∧ p = s.path) :
    (t.set l e).LinksSpelled := by
  refine ⟨fun hmem hkind => ?_⟩
  rcases (mem_walk_set hl).1 hmem with ⟨-, rfl⟩ | ⟨-, hold⟩
  · exact source _ hkind
  · exact h.source hold hkind

theorem Change.linksSpelled {t t' : Tree} {made : List Made} (h : Change t made t')
    (hroot : t.RootApart) (ht : t.LinksSpelled) : t'.LinksSpelled := by
  cases h with
  | directory proper vacant beside =>
    exact ht.set (ne_nil_of_get?_eq_none vacant) (by simp [Entry.directory, Entry.ofKind])
  | entry proper inside vacant plain =>
    exact ht.set (ne_nil_of_get?_eq_none vacant) fun p hp => absurd hp (plain p)
  | link sourceProper file isFile proper inside vacant =>
    exact ht.set (ne_nil_of_get?_eq_none vacant) fun p hp =>
      ⟨_, sourceProper, (EntryKind.hardlink.inj hp).symm⟩
  | contents file isFile => exact ht.set (hroot.ne_nil file isFile) (by simp)
  | attributes inode change =>
    refine ⟨fun hmem hkind => ?_⟩
    rw [mem_walk, entries_mapNames] at hmem
    obtain ⟨e, hold, rfl⟩ := Option.map_eq_some_iff.1 hmem
    refine ht.source (mem_walk.2 hold) ?_
    split at hkind
    · rwa [change.kind] at hkind
    · exact hkind

/-- Every change keeps a tree sound. -/
theorem Change.sound {t t' : Tree} {made : List Made} (h : Change t made t') (ht : t.Sound) :
    t'.Sound := by
  obtain ⟨hroot, hagree, hspelled⟩ := sound_iff.1 ht
  exact sound_iff.2 ⟨h.rootDirectory hroot, h.namesAgree hroot.apart hagree,
    h.linksSpelled hroot.apart hspelled⟩

theorem Sound.run {t : Tree} (h : t.Sound) (ops : List Operation) : (t.run ops).Sound :=
  (run_changes t ops).keep Change.sound h

/-- Every new location is made of proper names. -/
theorem Change.proper {t t' : Tree} {made : List Made} (h : Change t made t')
    (ht : ∀ x ∈ t.walk, x.1.Proper) : ∀ x ∈ t'.walk, x.1.Proper := by
  have hset : ∀ {l : Location} {e : Entry}, l ≠ [] → l.Proper → ∀ x ∈ (t.set l e).walk, x.1.Proper := by
    rintro l e hl hproper ⟨k, e'⟩ hmem
    rcases (mem_walk_set hl).1 hmem with ⟨rfl, -⟩ | ⟨-, hold⟩
    · exact hproper
    · exact ht _ hold
  cases h with
  | directory proper vacant beside => exact hset (ne_nil_of_get?_eq_none vacant) proper
  | entry proper inside vacant plain => exact hset (ne_nil_of_get?_eq_none vacant) proper
  | link sourceProper file isFile proper inside vacant => exact hset (ne_nil_of_get?_eq_none vacant) proper
  | @contents l e bytes file isFile =>
    by_cases hl : l = []
    · subst hl
      exact ht
    · rw [get?_of_ne_nil t hl] at file
      exact hset hl (ht _ (mem_walk.2 file))
  | attributes inode change =>
    rintro ⟨k, e'⟩ hmem
    rw [mem_walk, entries_mapNames] at hmem
    obtain ⟨e, hold, -⟩ := Option.map_eq_some_iff.1 hmem
    exact ht (k, e) (mem_walk.2 hold)

theorem proper_run {t : Tree} (ht : ∀ x ∈ t.walk, x.1.Proper) (ops : List Operation) :
    ∀ x ∈ (t.run ops).walk, x.1.Proper :=
  (run_changes t ops).keep Change.proper ht

/-- A directory stays a directory. -/
theorem Change.isDirectoryAt {t t' : Tree} {made : List Made} (h : Change t made t') {l : Location}
    (hl : t.isDirectoryAt l) : t'.isDirectoryAt l := by
  rw [isDirectoryAt_iff] at hl ⊢
  rcases hl with rfl | ⟨e, hget, hdir⟩
  · exact Or.inl rfl
  · by_cases hnil : l = []
    · exact Or.inl hnil
    · rw [← get?_of_ne_nil t hnil] at hget
      obtain ⟨e', hget', hkind⟩ := h.kind hget
      refine Or.inr ⟨e', by rwa [get?_of_ne_nil t' hnil] at hget', ?_⟩
      rcases hkind with hkind | ⟨hfile, -⟩
      · rwa [Entry.isDirectory, hkind]
      · simp [not_isDirectory_of_isFile hfile] at hdir

end ImageLayer.Tree
