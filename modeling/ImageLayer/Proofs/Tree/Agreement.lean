import ImageLayer.Proofs.Tree.Change
import ImageLayer.Proofs.Tree.Inode
/-!
One file under several names.

A hard link keeps a copy of the permissions and the owner of its file. `namesAgree_run`, the main statement,
says that the copies stay equal under every sequence of operations, and that changing permissions or the owner
of a path changes the entries of one file, the one that the path leads to, and nothing else. It holds for the
empty tree and for every tree that starts out so.

There is one condition: the root is neither a regular file nor a hard link (`RootApart`). Operations keep this,
but a tree can be given an entry at its root directly, and then the copies come apart
(`not_namesAgree_of_root`). The root is found at no name, so that a hard link to it has a source without parts,
and a change that goes through the list of entries does not come to the root.

Sections:

* Names that agree: the property, and that it can be decided by looking at each entry in turn
  (`namesAgree_iff`).
* Single changes. A new entry in a vacant place leaves the names in agreement (`NamesAgree.set_vacant`),
  whatever hard links there are, as none of them can be to a place where nothing was. New contents do so since
  they are no part of what agrees. New permissions or a new owner reach all names of a file
  (`LinksLead.changesFile`).
* All changes, one case for each kind (`Change.namesAgree`).
* All sequences of operations.

A hard link takes its copy from the file when it is made. What is recorded as its source is the location of the
file, so that the spelling of the path which was asked for does not matter, nor how many links it went through.
-/

namespace ImageLayer.Tree

/-- Locations are made of proper names, permissions are within their bits, and every hard link spells
out the location of a file with the same permissions and the same owner. -/
structure NamesAgree (t : Tree) : Prop where
  /-- Locations are made of proper names, and none is that of the root. -/
  proper : ∀ {l e}, (l, e) ∈ t.walk → l ≠ [] ∧ l.Proper
  /-- Permissions are within their bits. -/
  mode : ∀ {l e}, (l, e) ∈ t.walk → e.mode ≤ 0o7777
  /-- Behind every hard link there is a file that it agrees with. -/
  source : ∀ {l e p}, (l, e) ∈ t.walk → e.kind = .hardlink p →
    ∃ s f, p.location? = some s ∧ (s, f) ∈ t.walk ∧ f.isFile ∧ f.mode = e.mode ∧ f.owner = e.owner

/-- The root is neither a regular file nor a hard link. -/
structure RootApart (t : Tree) : Prop where
  /-- It is no regular file. -/
  file : t.root.isFile = false
  /-- It is no hard link. -/
  link : ∀ p, t.root.kind ≠ .hardlink p

/-- In `t'` all names of the file at `l` are changed by `f`, and nothing else is. -/
structure ChangesFile (t : Tree) (l : Location) (f : Entry → Entry) (t' : Tree) : Prop where
  /-- The root is changed if it is meant itself. -/
  root : t'.root = if l = [] then f t.root else t.root
  /-- The entries whose first name is `l` are changed. -/
  walk : t'.walk = t.walk.map fun x => (x.1, if x.2.inode x.1 = l then f x.2 else x.2)
  /-- All stay where and what they are. -/
  kinds : t'.walk.map (fun x => (x.1, x.2.kind)) = t.walk.map fun x => (x.1, x.2.kind)

/-- Whether an entry of a tree is one that agrees with its file. -/
def AgreesIn (t : Tree) (e : Entry) : Prop :=
  match e.kind with
  | .hardlink p =>
    ∃ x ∈ t.walk, p.location? = some x.1 ∧ x.2.isFile ∧ x.2.mode = e.mode ∧ x.2.owner = e.owner
  | _ => True

instance (t : Tree) (e : Entry) : Decidable (t.AgreesIn e) := by
  unfold AgreesIn
  split <;> infer_instance

theorem namesAgree_iff {t : Tree} : t.NamesAgree ↔
    ∀ x ∈ t.walk, (x.1 ≠ [] ∧ x.1.Proper) ∧ x.2.mode ≤ 0o7777 ∧ t.AgreesIn x.2 := by
  constructor
  · intro h x hx
    refine ⟨h.proper hx, h.mode hx, ?_⟩
    unfold AgreesIn
    split
    · rename_i p hkind
      obtain ⟨s, f, hs, hmem, hagree⟩ := h.source hx hkind
      exact ⟨(s, f), hmem, hs, hagree⟩
    · trivial
  · intro h
    refine ⟨fun hx => (h _ hx).1, fun hx => (h _ hx).2.1, fun hx hkind => ?_⟩
    have hagrees := (h _ hx).2.2
    unfold AgreesIn at hagrees
    simp only [hkind] at hagrees
    obtain ⟨⟨s, f⟩, hmem, hs, hagree⟩ := hagrees
    exact ⟨s, f, hs, hmem, hagree⟩

instance (t : Tree) : Decidable t.NamesAgree := decidable_of_iff _ namesAgree_iff.symm

theorem namesAgree_empty : empty.NamesAgree where
  proper h := by simp [mem_walk] at h
  mode h := by simp [mem_walk] at h
  source h := by simp [mem_walk] at h

theorem rootApart_empty : empty.RootApart := ⟨rfl, by simp [empty, Entry.directory, Entry.ofKind]⟩

theorem RootApart.ne_nil {t : Tree} (h : t.RootApart) {l : Location} {e : Entry}
    (file : t.get? l = some e) (isFile : e.isFile) : l ≠ [] := by
  rintro rfl
  rw [get?_nil, Option.some.injEq] at file
  have := h.file
  rw [file, isFile] at this
  cases this

theorem NamesAgree.get? {t : Tree} (h : t.NamesAgree) {l : Location} {e : Entry}
    (hmem : (l, e) ∈ t.walk) : t.get? l = some e := by
  rw [get?_of_ne_nil t (h.proper hmem).1]
  exact mem_walk.1 hmem

theorem NamesAgree.lead {t : Tree} (h : t.NamesAgree) (hroot : t.RootApart) : t.LinksLead where
  root := hroot.link
  source {l e p} hget hkind := by
    have hl : l ≠ [] := by
      rintro rfl
      rw [get?_nil, Option.some.injEq] at hget
      exact hroot.link p (hget ▸ hkind)
    rw [get?_of_ne_nil t hl] at hget
    obtain ⟨s, f, hs, hmem, hfile, -⟩ := h.source (mem_walk.2 hget) hkind
    exact ⟨s, f, hs, h.get? hmem, hfile⟩

/-! ## Single changes -/

theorem mem_walk_set {t : Tree} {l k : Location} {e e' : Entry} (hl : l ≠ []) :
    (k, e') ∈ (t.set l e).walk ↔ k = l ∧ e' = e ∨ k ≠ l ∧ (k, e') ∈ t.walk := by
  rw [mem_walk, mem_walk, entries_set t hl]
  by_cases hk : k = l <;> simp [hk, eq_comm]

theorem NamesAgree.set_vacant {t : Tree} (h : t.NamesAgree) {l : Location} {e : Entry}
    (vacant : t.get? l = none) (proper : l.Proper) (mode : e.mode ≤ 0o7777)
    (source : ∀ p, e.kind = .hardlink p → ∃ s f, p.location? = some s ∧ (s, f) ∈ t.walk ∧ f.isFile ∧
      f.mode = e.mode ∧ f.owner = e.owner) : (t.set l e).NamesAgree := by
  have hl := ne_nil_of_get?_eq_none vacant
  refine ⟨fun {k e'} hk => ?_, fun {k e'} hk => ?_, fun {k e' p} hk hkind => ?_⟩
  · rcases (mem_walk_set hl).1 hk with ⟨rfl, -⟩ | ⟨-, hk⟩
    · exact ⟨hl, proper⟩
    · exact h.proper hk
  · rcases (mem_walk_set hl).1 hk with ⟨-, rfl⟩ | ⟨-, hk⟩
    · exact mode
    · exact h.mode hk
  · have hsource : ∃ s f, p.location? = some s ∧ (s, f) ∈ t.walk ∧ f.isFile ∧ f.mode = e'.mode ∧
        f.owner = e'.owner := by
      rcases (mem_walk_set hl).1 hk with ⟨-, rfl⟩ | ⟨-, hk⟩
      · exact source p hkind
      · exact h.source hk hkind
    obtain ⟨s, f, hs, hmem, hagree⟩ := hsource
    -- The file was there before, so it is not what was put in the vacant place.
    have hne : s ≠ l := by
      rintro rfl
      rw [h.get? hmem] at vacant
      cases vacant
    exact ⟨s, f, hs, (mem_walk_set hl).2 (Or.inr ⟨hne, hmem⟩), hagree⟩

theorem NamesAgree.set_contents {t : Tree} (h : t.NamesAgree) {l : Location} (hl : l ≠ [])
    {e : Entry} {bytes : Bytes} (file : t.get? l = some e) :
    (t.set l { e with kind := .file bytes }).NamesAgree := by
  rw [get?_of_ne_nil t hl] at file
  have hold := mem_walk.2 file
  refine ⟨fun {k e'} hk => ?_, fun {k e'} hk => ?_, fun {k e' p} hk hkind => ?_⟩
  · rcases (mem_walk_set hl).1 hk with ⟨rfl, -⟩ | ⟨-, hk⟩
    · exact h.proper hold
    · exact h.proper hk
  · rcases (mem_walk_set hl).1 hk with ⟨-, rfl⟩ | ⟨-, hk⟩
    · have hmode := h.mode hold
      exact hmode
    · exact h.mode hk
  · rcases (mem_walk_set hl).1 hk with ⟨-, rfl⟩ | ⟨-, hk⟩
    · cases hkind
    -- A link keeps its file: with new contents it is a file still, of the same mode and owner.
    · obtain ⟨s, f, hs, hmem, hfile, hmode, howner⟩ := h.source hk hkind
      by_cases hsl : s = l
      · subst hsl
        rw [mem_walk, file] at hmem
        obtain rfl := Option.some.inj hmem
        exact ⟨s, _, hs, (mem_walk_set hl).2 (Or.inl ⟨rfl, rfl⟩), rfl, hmode, howner⟩
      · exact ⟨s, f, hs, (mem_walk_set hl).2 (Or.inr ⟨hsl, hmem⟩), hfile, hmode, howner⟩

theorem LinksLead.changesFile {t : Tree} (h : t.LinksLead) (hproper : ∀ x ∈ t.walk, x.1 ≠ [])
    {p : Path} {l : Location} (hl : t.inode? true p = some l) {f : Entry → Entry}
    (hf : ∀ e, (f e).kind = e.kind) : t.ChangesFile l f (t.mapNames l f) := by
  have hwalk : (t.mapNames l f).walk
      = t.walk.map fun x => (x.1, if x.2.inode x.1 = l then f x.2 else x.2) := by
    change t.walk.map _ = _
    refine List.map_congr_left fun x hx => ?_
    have hget : t.get? x.1 = some x.2 := by
      rw [get?_of_ne_nil t (hproper x hx)]
      exact mem_walk.1 hx
    simp [h.inode_eq_iff hl hget, hproper x hx]
  refine ⟨rfl, hwalk, ?_⟩
  rw [hwalk, List.map_map]
  refine List.map_congr_left fun x _ => ?_
  simp only [Function.comp_apply]
  split
  · rw [hf]
  · rfl

theorem NamesAgree.mapNames {t : Tree} (h : t.NamesAgree) (hroot : t.RootApart) {p : Path}
    {l : Location} (hl : t.inode? true p = some l) {f : Entry → Entry} (hf : AttributeChange f) :
    (t.mapNames l f).NamesAgree := by
  have hwalk := ((h.lead hroot).changesFile (fun x hx => (h.proper hx).1) hl hf.kind).walk
  have hmem : ∀ {k e'}, (k, e') ∈ (t.mapNames l f).walk ↔
      ∃ e, (k, e) ∈ t.walk ∧ (if e.inode k = l then f e else e) = e' := by
    intro k e'
    rw [hwalk, List.mem_map]
    constructor
    · rintro ⟨⟨k, e⟩, hx, heq⟩
      obtain ⟨rfl, rfl⟩ := Prod.mk.inj heq
      exact ⟨e, hx, rfl⟩
    · rintro ⟨e, hx, rfl⟩
      exact ⟨(k, e), hx, rfl⟩
  refine ⟨fun {k e'} hk => ?_, fun {k e'} hk => ?_, fun {k e' q} hk hkind => ?_⟩
  · obtain ⟨e, hold, -⟩ := hmem.1 hk
    exact h.proper hold
  · obtain ⟨e, hold, rfl⟩ := hmem.1 hk
    have hmode := h.mode hold
    split
    · exact Nat.le_of_lt_succ (hf.mode e (Nat.lt_succ_of_le hmode))
    · exact hmode
  · obtain ⟨e, hold, rfl⟩ := hmem.1 hk
    have hkind₀ : e.kind = .hardlink q := by
      split at hkind
      · rwa [hf.kind] at hkind
      · exact hkind
    obtain ⟨s, file, hs, hsource, hfile, hmode, howner⟩ := h.source hold hkind₀
    -- The link and its file have one inode, so both are changed or neither is.
    have hinode : e.inode k = s := by simp [Entry.inode, hkind₀, hs]
    refine ⟨s, if s = l then f file else file, hs, hmem.2 ⟨file, hsource, ?_⟩, ?_, ?_⟩
    · rw [Entry.inode_of_isFile hfile]
    · split
      · rwa [Entry.isFile, hf.kind]
      · exact hfile
    · rw [hinode]
      split
      · exact hf.alike file e hmode howner
      · exact ⟨hmode, howner⟩

/-! ## All changes -/

theorem Change.rootApart {t t' : Tree} {made : List Made} (h : Change t made t')
    (ht : t.RootApart) : t'.RootApart := by
  have hset : ∀ {l e}, l ≠ [] → (t.set l e).RootApart := by
    intro l e hl
    exact ⟨by rw [root_set t hl]; exact ht.file, by rw [root_set t hl]; exact ht.link⟩
  cases h with
  | directory proper vacant beside => exact hset (ne_nil_of_get?_eq_none vacant)
  | entry proper inside vacant plain => exact hset (ne_nil_of_get?_eq_none vacant)
  | link sourceProper file isFile proper inside vacant =>
    exact hset (ne_nil_of_get?_eq_none vacant)
  | contents file isFile => exact hset (ht.ne_nil file isFile)
  | @attributes p l f inode change =>
    have hkind : (t.mapNames l f).root.kind = t.root.kind := by
      unfold mapNames
      split
      · exact change.kind t.root
      · rfl
    refine ⟨?_, by rw [hkind]; exact ht.link⟩
    have hfile := ht.file
    rwa [Entry.isFile, ← hkind] at hfile

/-- Every change keeps the names of a file in agreement. -/
theorem Change.namesAgree {t t' : Tree} {made : List Made} (h : Change t made t')
    (hroot : t.RootApart) (ht : t.NamesAgree) : t'.NamesAgree := by
  cases h with
  | directory proper vacant beside =>
    exact ht.set_vacant vacant proper (Nat.le_of_lt_succ (permissionBits_lt _))
      (by simp [Entry.directory, Entry.ofKind])
  | entry proper inside vacant plain =>
    exact ht.set_vacant vacant proper (Nat.le_of_lt_succ (permissionBits_lt _))
      fun p hp => absurd hp (plain p)
  | @link source parent n e sourceProper file isFile proper inside vacant =>
    have hmem : (source, e) ∈ t.walk := by
      rw [mem_walk, ← get?_of_ne_nil t (hroot.ne_nil file isFile)]
      exact file
    have hmode : e.mode ≤ 0o7777 := ht.mode hmem
    refine ht.set_vacant vacant proper hmode fun p hp => ?_
    obtain rfl := EntryKind.hardlink.inj hp
    exact ⟨source, e, Location.location?_path sourceProper, hmem, isFile, rfl, rfl⟩
  | contents file isFile => exact ht.set_contents (hroot.ne_nil file isFile) file
  | attributes inode change =>
    exact ht.mapNames hroot ((ht.lead hroot).inodeOf_eq_ok.1 inode) change

theorem Changes.namesAgree {t t' : Tree} {made : List Made} (h : Changes t made t')
    (ht : t.RootApart ∧ t.NamesAgree) : t'.RootApart ∧ t'.NamesAgree :=
  h.keep (P := fun t => t.RootApart ∧ t.NamesAgree)
    (fun hstep ht => ⟨hstep.rootApart ht.1, hstep.namesAgree ht.1 ht.2⟩) ht

theorem NamesAgree.attributes {t t' : Tree} (h : t.NamesAgree) (hroot : t.RootApart) {p : Path}
    {f : Entry → Entry} (hf : AttributeChange f)
    (hresult : (do return t.mapNames (← t.inodeOf p) f : Except Failure Tree) = .ok t') :
    ∃ l, t.inode? true p = some l ∧ t.ChangesFile l f t' := by
  obtain ⟨l, hinode, hresult⟩ := exists_of_bind_eq_ok hresult
  obtain rfl := Except.ok.inj hresult
  have hl := (h.lead hroot).inodeOf_eq_ok.1 hinode
  exact ⟨l, hl, (h.lead hroot).changesFile (fun x hx => (h.proper hx).1) hl hf.kind⟩

/-! ## All sequences of operations -/

/-- Whatever operations made of the empty tree, or of a tree in which names agree and whose root is
neither a regular file nor a hard link: names agree, and changing permissions or the owner changes the
entries of the one file that the path leads to. -/
theorem namesAgree_run {t : Tree} (h : t = empty ∨ t.RootApart ∧ t.NamesAgree)
    (ops : List Operation) :
    (t.run ops).NamesAgree ∧ ∀ (p : Path) (t' : Tree),
      (∀ mode, (t.run ops).chmod p mode = .ok t' →
        ∃ l, (t.run ops).inode? true p = some l ∧
          (t.run ops).ChangesFile l (.withMode mode) t') ∧
      (∀ owner, (t.run ops).chown p owner = .ok t' →
        ∃ l, (t.run ops).inode? true p = some l ∧
          (t.run ops).ChangesFile l (.withOwner owner) t') := by
  have hstart : t.RootApart ∧ t.NamesAgree := by
    rcases h with rfl | h
    · exact ⟨rootApart_empty, namesAgree_empty⟩
    · exact h
  obtain ⟨hroot, hagree⟩ := (run_changes t ops).namesAgree hstart
  exact ⟨hagree, fun p t' =>
    ⟨fun mode => hagree.attributes hroot (attributeChange_withMode mode),
      fun owner => hagree.attributes hroot (attributeChange_withOwner owner)⟩⟩

/-- A hard link `b` whose source is spelled with two slashes, a further link, and new permissions. -/
theorem namesAgree_run_doubled_slash :
    let a : Path := .ofString "d/a"
    let b : Path := .ofString "b"
    let t := ((empty.insert (.ofString "d") (.directory 0o755)).insert a (.file [1] 0o644)).insert b
      ⟨.hardlink (.ofString "d//a"), 0o644, none⟩
    let t₁ := t.run [.hardlink a (.ofString "d/c"), .chown b ⟨5, 6⟩]
    (t.RootApart ∧ t.NamesAgree) ∧ t₁.NamesAgree ∧ ∃ t', t₁.chmod b 0o600 = .ok t' ∧
      ∃ l, t₁.inode? true b = some l ∧ t₁.ChangesFile l (.withMode 0o600) t' := by
  intro a b t t₁
  have hroot : t.RootApart := ⟨rfl, fun _ => EntryKind.noConfusion⟩
  have hagree : t.NamesAgree := by decide +kernel
  have hrun := namesAgree_run (Or.inr ⟨hroot, hagree⟩) [.hardlink a (.ofString "d/c"), .chown b ⟨5, 6⟩]
  have hinode : t₁.inodeOf b = .ok a.parts := by decide +kernel
  have hchmod : t₁.chmod b 0o600 = .ok (t₁.mapNames a.parts (.withMode 0o600)) := by
    rw [chmod, hinode]
    rfl
  exact ⟨⟨hroot, hagree⟩, hrun.1, _, hchmod, (hrun.2 b _).1 0o600 hchmod⟩

/-- A hard link made to a regular file at the root has no entry behind it; and a hard link at the root
to the hard link `b` takes new permissions to `b` but not to its file `a`. -/
theorem not_namesAgree_of_root :
    let slash : Path := .ofString "/"
    let a : Path := .ofString "a"
    let b : Path := .ofString "b"
    let t := empty.insert slash (.file [1] 0o644)
    let t' := (empty.run [.writeFile a [1] 0o644, .hardlink a b]).insert slash ⟨.hardlink b, 0o644, none⟩
    (t.NamesAgree ∧ ¬ (t.run [.hardlink slash a]).NamesAgree) ∧
      t'.NamesAgree ∧ ¬ (t'.run [.chmod slash 0o600]).NamesAgree := by
  decide +kernel

end ImageLayer.Tree
