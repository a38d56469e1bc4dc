import ImageLayer.Proofs.Tree.Resolve
/-!
The names of a file.

A file has the name that it was made under and those of the hard links to it. Permissions and owner are its own
and not those of a name, so that they are changed under all names at once. A tree keeps the file under its first
name and a hard link with the path of that name. `Tree.inode?` says which file a path is about, with the last
part followed or not, as the location of the first name.

Sections:

* Hard links that lead to files. How much is assumed varies with what is proved: that the source of every hard
  link is a file (`SourcesAreFiles`), besides that the root is none (`LinksLead`), or that it is a directory
  (`LinksToFiles`). In such a tree a hard link leads to its file in one step (`LinksLead.first_name`), and
  changing a file changes exactly the entries that have its first name (`LinksLead.get?_mapNames`).
* Paths with and without their last part followed. A path is about the same file either way unless it is one to
  a symbolic link (`inode?_of_not_namesSymlink`).
* Entries of the same kinds. What paths are about depends on nothing but the kinds of entries, so that it stays
  the same while permissions and owners change (`Alike.inode?`).

The source of a hard link is kept as a path, and read as a location part by part, not followed. Reading a file
follows it instead, which makes no difference where the tree is closed.
-/

namespace ImageLayer

/-- The location of the first name of the entry at a location. -/
def Entry.inode (l : Location) (e : Entry) : Location :=
  match e.kind with
  | .hardlink source => source.location?.getD l
  | _ => l

theorem Entry.inode_of_kind {l : Location} {e : Entry} (h : ∀ p, e.kind ≠ .hardlink p) :
    e.inode l = l := by
  unfold Entry.inode
  split
  · rename_i p hp
    exact absurd hp (h p)
  · rfl

theorem Entry.inode_of_isFile {l : Location} {e : Entry} (h : e.isFile) : e.inode l = l :=
  Entry.inode_of_kind fun p hp => by simp [Entry.isFile, hp] at h

theorem Entry.inode_congr {e e' : Entry} (h : e.kind = e'.kind) (l : Location) :
    e.inode l = e'.inode l := by
  rw [Entry.inode, Entry.inode, h]

namespace Tree

/-- The location of the first name of what a path leads to, its last part followed or not. -/
def inode? (t : Tree) (followLast : Bool) (p : Path) : Option Location := do
  let l ← t.locate? followLast p.parts
  let e ← t.get? l
  return e.inode l

/-- Every hard link spells out the location of a file. -/
def SourcesAreFiles (t : Tree) : Prop :=
  ∀ l e p, t.get? l = some e → e.kind = .hardlink p →
    ∃ s f, p.location? = some s ∧ t.get? s = some f ∧ f.isFile

/-- The root is a directory, and every hard link spells out the location of a file. -/
structure LinksToFiles (t : Tree) : Prop where
  /-- The root is a directory. -/
  root : t.root.isDirectory
  /-- Behind every hard link there is a file. -/
  source : ∀ {l e p}, t.get? l = some e → e.kind = .hardlink p →
    ∃ s f, p.location? = some s ∧ t.get? s = some f ∧ f.isFile

theorem inode?_eq_some {t : Tree} {followLast : Bool} {p : Path} {l : Location} :
    t.inode? followLast p = some l ↔
      ∃ k e, t.locate? followLast p.parts = some k ∧ t.get? k = some e ∧ e.inode k = l := by
  unfold inode?
  cases t.locate? followLast p.parts with
  | none => simp
  | some k => cases hget : t.get? k <;> simp [hget]

/-- Every hard link spells out the location of a file, and the root is none. -/
structure LinksLead (t : Tree) : Prop where
  /-- The root is no hard link. -/
  root : ∀ p, t.root.kind ≠ .hardlink p
  /-- Behind every hard link there is a file. -/
  source : ∀ {l e p}, t.get? l = some e → e.kind = .hardlink p →
    ∃ s f, p.location? = some s ∧ t.get? s = some f ∧ f.isFile

theorem LinksToFiles.lead {t : Tree} (h : t.LinksToFiles) : t.LinksLead where
  root p hp := by
    have hroot := h.root
    simp [Entry.isDirectory, hp] at hroot
  source := h.source

theorem LinksLead.sourcesAreFiles {t : Tree} (h : t.LinksLead) : t.SourcesAreFiles :=
  fun _ _ _ => h.source

/-- Changing permissions asks for the file that a path leads to when followed to its end. -/
theorem SourcesAreFiles.inodeOf_eq_ok {t : Tree} (h : t.SourcesAreFiles) {p : Path} {l : Location} :
    t.inodeOf p = .ok l ↔ t.inode? true p = some l := by
  unfold inodeOf resolve inode?
  cases t.locate? true p.parts with
  | none => simp [bind, Except.bind]
  | some k =>
    cases hget : t.get? k with
    | none => simp [bind, Except.bind, hget]
    | some e =>
      cases hkind : e.kind with
      | hardlink q =>
        obtain ⟨s, f, hq, hs, -⟩ := h k e q hget hkind
        simp [bind, Except.bind, hget, hkind, hq, hs, Entry.inode]
      | _ => simp [bind, Except.bind, hget, hkind, Entry.inode]

theorem LinksLead.inodeOf_eq_ok {t : Tree} (h : t.LinksLead) {p : Path} {l : Location} :
    t.inodeOf p = .ok l ↔ t.inode? true p = some l :=
  h.sourcesAreFiles.inodeOf_eq_ok

theorem LinksToFiles.inodeOf_eq_ok {t : Tree} (h : t.LinksToFiles) {p : Path} {l : Location} :
    t.inodeOf p = .ok l ↔ t.inode? true p = some l :=
  h.lead.inodeOf_eq_ok

/-- A hard link leads to its file in one step: what a path is about is no hard link. -/
theorem LinksLead.first_name {t : Tree} (h : t.LinksLead) {followLast : Bool} {p : Path}
    {l : Location} (hl : t.inode? followLast p = some l) :
    ∃ e, t.get? l = some e ∧ ∀ q, e.kind ≠ .hardlink q := by
  obtain ⟨k, e, -, hget, rfl⟩ := inode?_eq_some.1 hl
  by_cases hlink : ∃ q, e.kind = .hardlink q
  · obtain ⟨q, hkind⟩ := hlink
    obtain ⟨s, f, hq, hs, hfile⟩ := h.source hget hkind
    refine ⟨f, by rw [Entry.inode, hkind]; simp [hq, hs], fun q' hf => ?_⟩
    simp [Entry.isFile, hf] at hfile
  · rw [not_exists] at hlink
    rw [Entry.inode_of_kind hlink]
    exact ⟨e, hget, hlink⟩

/-- What a path is about is no hard link, and no symbolic link if the path is followed to its end. -/
theorem LinksToFiles.first_name {t : Tree} (h : t.LinksToFiles) {followLast : Bool} {p : Path}
    {l : Location} (hl : t.inode? followLast p = some l) :
    ∃ e, t.get? l = some e ∧ (∀ q, e.kind ≠ .hardlink q) ∧
      (followLast = true → e.isSymlink = false) := by
  obtain ⟨first, hfirst, hplain⟩ := h.lead.first_name hl
  refine ⟨first, hfirst, hplain, ?_⟩
  obtain ⟨k, e, hloc, hget, rfl⟩ := inode?_eq_some.1 hl
  rintro rfl
  by_cases hlink : ∃ q, e.kind = .hardlink q
  · obtain ⟨q, hkind⟩ := hlink
    obtain ⟨s, f, hq, hs, hfile⟩ := h.source hget hkind
    have hinode : e.inode k = s := by simp [Entry.inode, hkind, hq]
    rw [hinode, hs, Option.some.injEq] at hfirst
    subst hfirst
    exact Entry.isSymlink_of_isFile hfile
  · rw [not_exists] at hlink
    rw [Entry.inode_of_kind hlink, hget, Option.some.injEq] at hfirst
    subst hfirst
    by_cases hk : k = []
    · subst hk
      rw [get?_nil, Option.some.injEq] at hget
      exact Entry.isSymlink_of_isDirectory (hget ▸ h.root)
    -- Where the path was followed to its end, the location is not that of a symbolic link.
    · exact (linkAt_eq_none_iff hk).1 (locate?_linkFree hloc k (List.prefix_refl k) hk) e hget

/-- An entry is one of the names of a file exactly if its first name is that of the file. -/
theorem LinksLead.inode_eq_iff {t : Tree} (h : t.LinksLead) {followLast : Bool} {p : Path}
    {l : Location} (hl : t.inode? followLast p = some l) {k : Location} {e : Entry}
    (hk : t.get? k = some e) : e.inode k = l ↔ k = l ∨ k ≠ [] ∧ isLinkTo l e := by
  by_cases hlink : ∃ q, e.kind = .hardlink q
  · obtain ⟨q, hkind⟩ := hlink
    obtain ⟨s, f, hq, -⟩ := h.source hk hkind
    obtain ⟨first, hfirst, hplain⟩ := h.first_name hl
    have hkl : k ≠ l := by
      rintro rfl
      rw [hfirst] at hk
      exact hplain q (Option.some.inj hk ▸ hkind)
    have hnil : k ≠ [] := by
      rintro rfl
      rw [get?_nil, Option.some.injEq] at hk
      exact h.root q (hk ▸ hkind)
    simp [hkl, hnil, isLinkTo, Entry.inode, hkind, hq]
  · rw [not_exists] at hlink
    have hno : isLinkTo l e = false := by
      unfold isLinkTo
      split
      · rename_i q hq
        exact absurd hq (hlink q)
      · rfl
    simp [Entry.inode_of_kind hlink, hno]

/-- An entry is changed with a file exactly if its first name is that of the file. -/
theorem LinksLead.get?_mapNames {t : Tree} (h : t.LinksLead) {followLast : Bool} {p : Path}
    {l : Location} (hl : t.inode? followLast p = some l) (f : Entry → Entry) (k : Location) :
    (t.mapNames l f).get? k = (t.get? k).map fun e => if e.inode k = l then f e else e := by
  rw [Tree.get?_mapNames]
  cases hk : t.get? k with
  | none => rfl
  | some e => simp only [Option.map_some, h.inode_eq_iff hl hk]

theorem LinksToFiles.get?_mapNames {t : Tree} (h : t.LinksToFiles) {followLast : Bool} {p : Path}
    {l : Location} (hl : t.inode? followLast p = some l) (f : Entry → Entry) (k : Location) :
    (t.mapNames l f).get? k = (t.get? k).map fun e => if e.inode k = l then f e else e :=
  h.lead.get?_mapNames hl f k

/-! ## Paths with and without their last part followed -/

theorem exists?_eq (t : Tree) (p : Path) : t.exists? p = (t.inode? false p).isSome := by
  unfold exists? inode?
  cases t.locate? false p.parts with
  | none => rfl
  | some l => cases hget : t.get? l <;> simp [hget]

/-- What a path leads to can be named by it: the path itself is that of an entry. -/
theorem exists?_of_inode? {t : Tree} {p : Path} {l : Location} (h : t.inode? true p = some l) :
    t.exists? p := by
  obtain ⟨k, e, hloc, hget, -⟩ := inode?_eq_some.1 h
  unfold exists?
  rcases locate?_unfollowed hloc with hsame | ⟨k', hk', hne, hlink⟩
  · simp [hsame, hget]
  · obtain ⟨e', target, hget', -⟩ := exists_of_linkAt hlink hne
    simp [hk', hget']

/-- A path to a symbolic link. -/
def NamesSymlink (t : Tree) (p : Path) : Prop :=
  ∃ l e, t.locate? false p.parts = some l ∧ t.get? l = some e ∧ e.isSymlink

instance (t : Tree) (p : Path) : Decidable (t.NamesSymlink p) :=
  decidable_of_iff (((t.locate? false p.parts).bind t.get?).any Entry.isSymlink) <| by
    unfold NamesSymlink
    cases t.locate? false p.parts with
    | none => simp
    | some l => cases hget : t.get? l <;> simp [hget]

/-- A path to anything but a symbolic link is about the same file when followed to its end. -/
theorem inode?_of_not_namesSymlink {t : Tree} {p : Path} (h : ¬ t.NamesSymlink p) :
    t.inode? true p = t.inode? false p := by
  have hplain : ∀ k, t.locate? false p.parts = some k → k ≠ [] → t.linkAt k = none := by
    intro k hk hne
    cases hlink : t.linkAt k with
    | none => rfl
    | some target =>
      obtain ⟨e, target, hget, hkind⟩ := exists_of_linkAt (Option.isSome_of_eq_some hlink) hne
      exact absurd ⟨k, e, hk, hget, by simp [Entry.isSymlink, hkind]⟩ h
  have hloc : t.locate? true p.parts = t.locate? false p.parts := by
    cases hfalse : t.locate? false p.parts with
    | some k => exact locate?_followed hfalse (hplain k hfalse)
    | none =>
      cases htrue : t.locate? true p.parts with
      | none => rfl
      | some k => rcases locate?_unfollowed htrue with h' | ⟨k', h', -⟩ <;> simp [hfalse] at h'
  rw [inode?, inode?, hloc]

/-! ## Entries of the same kinds -/

/-- Both trees have entries of the same kinds at the same locations. -/
def Alike (t t' : Tree) : Prop := ∀ l, (t'.get? l).map Entry.kind = (t.get? l).map Entry.kind

theorem alike_mapNames (t : Tree) (l : Location) {f : Entry → Entry}
    (hf : ∀ e, (f e).kind = e.kind) : t.Alike (t.mapNames l f) := by
  intro k
  rw [Tree.get?_mapNames]
  cases t.get? k with
  | none => rfl
  | some e =>
    simp only [Option.map_some]
    split
    · rw [hf]
    · rfl

theorem Alike.symm {t t' : Tree} (h : t.Alike t') : t'.Alike t := fun l => (h l).symm

theorem Alike.trans {t t₁ t₂ : Tree} (h : t.Alike t₁) (h' : t₁.Alike t₂) : t.Alike t₂ :=
  fun l => (h' l).trans (h l)

theorem Alike.get? {t t' : Tree} (h : t.Alike t') {l : Location} {e : Entry} (hget : t.get? l = some e) :
    ∃ e', t'.get? l = some e' ∧ e'.kind = e.kind := by
  have hl := h l
  rw [hget, Option.map_some] at hl
  exact Option.map_eq_some_iff.1 hl

theorem Alike.isDirectoryAt {t t' : Tree} (h : t.Alike t') {d : Location} {e : Entry}
    (hget : t.get? d = some e) (hdir : e.isDirectory) : t'.isDirectoryAt d := by
  obtain ⟨e', hget', hkind⟩ := h.get? hget
  by_cases hd : d = []
  · exact isDirectoryAt_iff.2 (Or.inl hd)
  · rw [get?_of_ne_nil t' hd] at hget'
    exact isDirectoryAt_iff.2 (Or.inr ⟨e', hget', by rwa [Entry.isDirectory_congr hkind]⟩)

theorem Alike.linkAt {t t' : Tree} (h : t.Alike t') {l : Location} (hl : l ≠ []) :
    t'.linkAt l = t.linkAt l := by
  have := h l
  rw [get?_of_ne_nil t' hl, get?_of_ne_nil t hl] at this
  rw [Tree.linkAt, Tree.linkAt, this]

theorem Alike.inode? {t t' : Tree} (h : t.Alike t') (followLast : Bool) (p : Path) :
    t'.inode? followLast p = t.inode? followLast p := by
  rw [Tree.inode?, Tree.inode?, locate?_congr fun l hl => h.linkAt hl]
  cases t.locate? followLast p.parts with
  | none => rfl
  | some l =>
    have := h l
    cases hget : t.get? l <;> cases hget' : t'.get? l <;> simp [hget, hget'] at this
    · simp [hget, hget']
    · simp [hget, hget', Entry.inode_congr this]

theorem Alike.sourcesAreFiles {t t' : Tree} (h : t.Alike t') (ht : t.SourcesAreFiles) :
    t'.SourcesAreFiles := by
  intro l e p hget hkind
  obtain ⟨e₀, hget₀, hkind₀⟩ := h.symm.get? hget
  obtain ⟨s, f, hp, hs, hfile⟩ := ht l e₀ p hget₀ (hkind₀.trans hkind)
  obtain ⟨f', hs', hkind'⟩ := h.get? hs
  exact ⟨s, f', hp, hs', by rwa [Entry.isFile, hkind']⟩

theorem Alike.linksToFiles {t t' : Tree} (h : t.Alike t') (ht : t.LinksToFiles) :
    t'.LinksToFiles where
  root := by
    have hroot : t'.root.kind = t.root.kind := by simpa using h []
    have := ht.root
    rwa [Entry.isDirectory, ← hroot] at this
  source hget hkind := h.sourcesAreFiles ht.lead.sourcesAreFiles _ _ _ hget hkind

end Tree

end ImageLayer
