import ImageLayer.Proofs.Tree.Endless
import ImageLayer.Proofs.Tree.Loading
import ImageLayer.Proofs.Tree.Parents
/-!
What can be done to a file through its further names.

A hard link is meant to be as good a name of a file as the first one. `interchangeable_iff`, the main statement,
says for which operations it is. Reading a file and changing its permissions or its owner follow a hard link to
the file it stands for, so that it does not matter which of its names they are given. Writing the file and
making a further link to it ask for an entry that is a file itself, and through a hard link both are refused. So
a hard link and its source are interchangeable for an operation exactly if this follows hard links, or is
refused through the source anyway.

What is compared is what an operation does: whether it succeeds, what is read, and the trees afterwards, by what
every path reads in them and by permissions, owners and first names (`SameContents`).

Sections:

* A hard link and its file. `LeadsToLink` says that one path leads to a hard link and another to its file, and
  all operations are looked at under it, in two groups (`LeadsToLink.through_of_followsLinks`,
  `LeadsToLink.through_of_not_followsLinks`).
* All sequences of operations. In a sound and closed tree the paths that spell out both locations lead there
  (`Sound.leadsToLink`). Where a tree is not closed the path of an entry need not lead to it, by a link above.

In such a tree no name goes round in circles, so that reading always comes to an end. It is
`ImageLayer.Proofs.Tree.Endless` that looks at trees where it may not.
-/

namespace ImageLayer

/-- What is done to a file through one of its names. -/
inductive NameOperation where
  /-- See `Tree.contentsAt`. -/
  | read
  /-- See `Tree.writeFile`. -/
  | write (contents : Bytes) (mode : Nat)
  /-- See `Tree.chmod`. -/
  | chmod (mode : Nat)
  /-- See `Tree.chown`. -/
  | chown (owner : Ownership)
  /-- See `Tree.hardlink`; the name is that of the source. -/
  | link (new : Path)

namespace NameOperation

/-- Performs an operation through the name `p`: what was read, and the tree afterwards. -/
def through (op : NameOperation) (p : Path) (t : Tree) : Except NoResult (Option Bytes × Tree) :=
  match op with
  | .read => (t.contentsAt p).map fun contents => (some contents, t)
  | .write contents mode => changed (t.writeFile p contents mode)
  | .chmod mode => changed (t.chmod p mode)
  | .chown owner => changed (t.chown p owner)
  | .link new => changed (t.hardlink p new)
where
  /-- What comes of a change, by which nothing is read. -/
  changed (result : Except Failure Tree) : Except NoResult (Option Bytes × Tree) :=
    (result.map (none, ·)).mapError .failure

/-- Whether an operation follows a hard link to the file it stands for. -/
def FollowsLinks : NameOperation → Prop
  | .read | .chmod _ | .chown _ => True
  | .write .. | .link _ => False

end NameOperation

namespace Tree

/-- Every path reads the same, and the entries have the same permissions, owners and first names. -/
structure SameContents (t t' : Tree) : Prop where
  /-- Every path reads the same bytes, or cannot be read. -/
  bytes : ∀ p, (t.contentsAt p).toOption = (t'.contentsAt p).toOption
  /-- Entries have the same permissions and the same owner. -/
  attributes : ∀ l, (t.get? l).map (fun e => (e.mode, e.owner))
    = (t'.get? l).map fun e => (e.mode, e.owner)
  /-- Entries are names of the same files. -/
  inode : ∀ l, (t.get? l).map (Entry.inode l) = (t'.get? l).map (Entry.inode l)

theorem SameContents.refl (t : Tree) : t.SameContents t := ⟨fun _ => rfl, fun _ => rfl, fun _ => rfl⟩

/-- An operation succeeds through one name if it does through the other, and comes to the same. -/
def Interchangeable (t : Tree) (op : NameOperation) (p q : Path) : Prop :=
  (op.through p t).isOk = (op.through q t).isOk ∧
    ∀ b t₁ b' t₂, op.through p t = .ok (b, t₁) → op.through q t = .ok (b', t₂) →
      b = b' ∧ t₁.SameContents t₂

/-! ## A hard link and its file -/

/-- The path `p` leads to a hard link, and its source `q` to the file. -/
structure LeadsToLink (t : Tree) (p q : Path) : Prop where
  /-- Where `p` leads there is a hard link to `q`. -/
  link : ∃ l e, t.locate? true p.parts = some l ∧ t.get? l = some e ∧ e.kind = .hardlink q
  /-- Where `q` leads, which it spells out, there is a file. -/
  file : ∃ s f contents, q.location? = some s ∧ t.locate? true q.parts = some s ∧
    t.get? s = some f ∧ f.kind = .file contents

/-- In a closed tree the path of an entry leads to the entry, unless it is a symbolic link. -/
theorem ParentClosed.locate? {t : Tree} (h : t.ParentClosed) {l : Location} {e : Entry}
    (hl : l.Proper) (hmem : (l, e) ∈ t.walk) (hlink : e.isSymlink = false) :
    t.locate? true l = some l := by
  refine locate?_of_linkFree true hl ((h.founded hmem).linkFree fun hne => ?_)
  refine (linkAt_eq_none_iff hne).2 fun e' he' => ?_
  rw [get?_of_ne_nil t hne, mem_walk.1 hmem, Option.some.injEq] at he'
  exact he' ▸ hlink

theorem Sound.leadsToLink {t : Tree} (h : t.Sound) (hclosed : t.ParentClosed) {l : Location}
    {e : Entry} {q : Path} (hmem : (l, e) ∈ t.walk) (hkind : e.kind = .hardlink q) :
    t.LeadsToLink l.path q := by
  have hl : l ≠ [] := by
    rintro rfl
    rw [mem_walk, h.rootOnce] at hmem
    cases hmem
  have hget : t.get? l = some e := by
    rw [get?_of_ne_nil t hl]
    exact mem_walk.1 hmem
  have hproper := h.proper hget
  obtain ⟨s, f, hs, rfl, hf, hfile, -⟩ := h.source hget hkind
  have hsnil : s ≠ [] :=
    ne_nil_of_isDirectory_eq_false h.root hf (not_isDirectory_of_isFile hfile)
  have hsmem : (s, f) ∈ t.walk := by
    rw [mem_walk, ← get?_of_ne_nil t hsnil]
    exact hf
  obtain ⟨contents, hcontents⟩ := Entry.isFile_iff.1 hfile
  refine ⟨⟨l, e, ?_, hget, hkind⟩, ⟨s, f, contents, Location.location?_path hs, ?_, hf, hcontents⟩⟩
  · rw [Location.parts_path hproper.spelled]
    exact hclosed.locate? hproper hmem (by simp [Entry.isSymlink, hkind])
  · rw [Location.parts_path hs.spelled]
    exact hclosed.locate? hs hsmem (by simp [Entry.isSymlink, hcontents])

section

variable {t : Tree} {p q : Path}

theorem LeadsToLink.contentsAt (h : t.LeadsToLink p q) :
    ∃ contents, t.contentsAt p = .ok contents ∧ t.contentsAt q = .ok contents := by
  obtain ⟨l, e, hp, hget, hkind⟩ := h.link
  obtain ⟨s, f, contents, -, hq, hf, hcontents⟩ := h.file
  have hfile : t.readingAt q = .ok (.contents contents) :=
    readingAt_eq_ok_iff.2 ⟨s, f, hq, hf, hcontents⟩
  have hlink : t.readingAt p = .ok (.further q) := readingAt_eq_ok_iff.2 ⟨l, e, hp, hget, hkind⟩
  exact ⟨contents, (readThrough_of_further hlink t.size).trans (readThrough_of_contents hfile t.size),
    readThrough_of_contents hfile (t.size + 1)⟩

theorem LeadsToLink.inodeOf (h : t.LeadsToLink p q) :
    ∃ s, t.inodeOf p = .ok s ∧ t.inodeOf q = .ok s := by
  obtain ⟨l, e, hp, hget, hkind⟩ := h.link
  obtain ⟨s, f, contents, hs, hq, hf, hcontents⟩ := h.file
  refine ⟨s, ?_, ?_⟩
  · simp [Tree.inodeOf, resolve, hp, hget, hkind, hs, hf, bind, Except.bind]
  · simp [Tree.inodeOf, resolve, hq, hf, hcontents, bind, Except.bind]

/-- What follows hard links succeeds through both names, and comes to the same. -/
theorem LeadsToLink.through_of_followsLinks (h : t.LeadsToLink p q) {op : NameOperation}
    (hop : op.FollowsLinks) : ∃ r, op.through p t = .ok r ∧ op.through q t = .ok r := by
  obtain ⟨contents, hread, hread'⟩ := h.contentsAt
  obtain ⟨s, hinode, hinode'⟩ := h.inodeOf
  cases op with
  | read => exact ⟨(some contents, t), by simp [NameOperation.through, hread, hread', Except.map]⟩
  | write contents mode => exact absurd hop id
  | chmod mode =>
    refine ⟨(none, t.mapNames s (.withMode mode)), ?_⟩
    simp [NameOperation.through, NameOperation.through.changed, chmod, hinode, hinode', bind, Except.bind, pure,
      Except.pure, Except.map, Except.mapError]
  | chown owner =>
    refine ⟨(none, t.mapNames s (.withOwner owner)), ?_⟩
    simp [NameOperation.through, NameOperation.through.changed, chown, hinode, hinode', bind, Except.bind, pure,
      Except.pure, Except.map, Except.mapError]
  | link new => exact absurd hop id

/-- What does not follow hard links is refused through one. -/
theorem LeadsToLink.through_of_not_followsLinks (h : t.LeadsToLink p q) {op : NameOperation}
    (hop : ¬ op.FollowsLinks) : ∃ e, op.through p t = .error e := by
  obtain ⟨l, e, hp, hget, hkind⟩ := h.link
  cases op with
  | write contents mode =>
    refine ⟨.failure (.tree p .notRegular), ?_⟩
    simp [NameOperation.through, NameOperation.through.changed, writeFile, resolve, hp, hget, hkind, bind, Except.bind,
      Except.map, Except.mapError]
  | link new =>
    refine ⟨.failure (.tree p .sourceNotRegular), ?_⟩
    simp [NameOperation.through, NameOperation.through.changed, hardlink, resolve, hp, hget, hkind, Entry.isFile, bind,
      Except.bind, Except.map, Except.mapError]
  | _ => exact absurd trivial hop

theorem LeadsToLink.interchangeable_iff_follows (h : t.LeadsToLink p q) (op : NameOperation) :
    t.Interchangeable op p q ↔ op.FollowsLinks ∨ (op.through q t).isOk = false := by
  by_cases hop : op.FollowsLinks
  · obtain ⟨r, hp, hq⟩ := h.through_of_followsLinks hop
    refine iff_of_true ⟨by rw [hp, hq], ?_⟩ (Or.inl hop)
    intro b t₁ b' t₂ h₁ h₂
    rw [hp] at h₁
    rw [hq, h₁, Except.ok.injEq, Prod.mk.injEq] at h₂
    obtain ⟨rfl, rfl⟩ := h₂
    exact ⟨rfl, .refl t₁⟩
  · obtain ⟨e, hp⟩ := h.through_of_not_followsLinks hop
    constructor
    · intro hsame
      refine Or.inr ?_
      rw [← hsame.1, hp]
      rfl
    · intro hrefused
      refine ⟨?_, fun b t₁ b' t₂ h₁ => ?_⟩
      · rw [hp, hrefused.resolve_left hop]
        rfl
      · rw [hp] at h₁
        cases h₁

end

/-! ## All sequences of operations -/

/-- Whatever operations made of the empty tree or of a loaded one, as long as every entry is in a
directory: a hard link and its source are interchangeable for an operation exactly if it follows hard
links or is refused through the source. -/
theorem interchangeable_iff {t : Tree} (h : t.Initial) (ops : List Operation)
    (hclosed : (t.run ops).ParentClosed) {l : Location} {e : Entry} {source : Path}
    (hmem : (l, e) ∈ (t.run ops).walk) (hkind : e.kind = .hardlink source) (op : NameOperation) :
    (t.run ops).Interchangeable op l.path source ↔
      op.FollowsLinks ∨ (op.through source (t.run ops)).isOk = false :=
  ((h.sound.run ops).leadsToLink hclosed hmem hkind).interchangeable_iff_follows op

/-- New permissions through a hard link `b` to a file in a directory. -/
theorem interchangeable_chmod :
    let a : Path := .ofString "d/a"
    let b : Path := .ofString "b"
    let ops : List Operation :=
      [.makeDirectories (.ofString "d") 0o755, .writeFile a [1] 0o644, .hardlink a b]
    let e : Entry := ⟨.hardlink a, 0o644, none⟩
    empty.Initial ∧ (empty.run ops).ParentClosed ∧ (b.parts, e) ∈ (empty.run ops).walk ∧
      (empty.run ops).Interchangeable (.chmod 0o600) (Location.path b.parts) a := by
  intro a b ops e
  have hclosed : ∀ x ∈ (empty.run ops).walk, (empty.run ops).isDirectoryAt x.1.dropLast := by
    decide +kernel
  have hmem : (b.parts, e) ∈ (empty.run ops).walk := by decide +kernel
  have hsame := interchangeable_iff initial_empty ops (fun l e hl => hclosed (l, e) hl) hmem rfl
    (.chmod 0o600)
  exact ⟨initial_empty, fun l e hl => hclosed (l, e) hl, hmem, hsame.2 (Or.inl trivial)⟩

/-- Writing through a hard link `b` to the file `a`, or making a further link to it, is refused, while
both succeed through `a`. -/
theorem not_interchangeable_write_link :
    let a : Path := .ofString "a"
    let b : Path := .ofString "b"
    let t := empty.run [.writeFile a [1] 0o644, .hardlink a b]
    (∀ x ∈ t.walk, t.isDirectoryAt x.1.dropLast) ∧
      (b.parts, ⟨.hardlink a, 0o644, none⟩) ∈ t.walk ∧
      ¬ t.Interchangeable (.write [2] 0o644) b a ∧
      ¬ t.Interchangeable (.link (.ofString "c")) b a := by
  intro a b t
  refine ⟨by decide +kernel, by decide +kernel, fun h => ?_, fun h => ?_⟩
  · exact absurd h.1 (by decide +kernel)
  · exact absurd h.1 (by decide +kernel)

end Tree

end ImageLayer
