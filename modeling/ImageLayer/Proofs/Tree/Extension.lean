import ImageLayer.Proofs.Tree.Directories
import ImageLayer.Proofs.Tree.Writing
/-!
Trees that extend other trees.

Making directories, writing files and changing owners have in common that each entry stays what it is, except
that a file may get other contents, and that no symbolic link is added. `Extends` says this of two trees, with
the places of the files that may have been written to. Growth keeps contents, permissions and owners as well,
and this is what remains true of a pass that writes files and gives things away.

Sections:

* Changes that extend a tree: growth without links, a change of permissions or owners, and a file in a vacant
  place or in that of a file (`fileAt_of_writeFile`).
* What an extension keeps. Paths go on leading where they led (`Extends.locate?`), since the links are the same.
  Directories that were made stay, a file has the contents it had unless it was written to (`Extends.fileAt`),
  and what a path is about stays the same file (`Extends.inodeOf`).
* Where paths lead. A file that a path leads to is what the path reads (`FileAt.contentsAt`), and a path that
  can be read leads to something (`exists_of_contentsAt`).

`FileAt` is about a location and not about a path. A pass that writes several files is described by what is at
each location in the end and by where each path leads, and as extensions leave the second alone, the first can
be followed from step to step.
-/

namespace ImageLayer

namespace Tree

/-- A tree with more in it: each entry is of the kind it was, but for the contents of files in `written` places,
and no entry that is new is a symbolic link. -/
structure Extends (written : Location → Prop) (t t' : Tree) : Prop where
  /-- What was there is there. -/
  keeps : ∀ {l e}, t.get? l = some e →
    ∃ e', t'.get? l = some e' ∧ (e'.kind = e.kind ∨ written l ∧ e.isFile ∧ e'.isFile)
  /-- No symbolic link is new. -/
  added : ∀ {l e'}, t.get? l = none → t'.get? l = some e' → e'.isSymlink = false

/-- A file with these contents is at a location. -/
def FileAt (t : Tree) (l : Location) (contents : Bytes) : Prop :=
  ∃ e, t.get? l = some e ∧ e.kind = .file contents

variable {written : Location → Prop} {t t' t₁ : Tree}

theorem Extends.refl (written : Location → Prop) (t : Tree) : Extends written t t :=
  ⟨fun hget => ⟨_, hget, Or.inl rfl⟩, fun hnone hget => by simp [hnone] at hget⟩

theorem Extends.trans (h : Extends written t t₁) (h' : Extends written t₁ t') : Extends written t t' where
  keeps {l e} hget := by
    obtain ⟨e₁, hget₁, hkind⟩ := h.keeps hget
    obtain ⟨e', hget', hkind'⟩ := h'.keeps hget₁
    refine ⟨e', hget', ?_⟩
    rcases hkind with hkind | ⟨hwritten, hfile, hfile₁⟩
    · rw [← hkind, Entry.isFile, ← hkind, ← Entry.isFile]
      exact hkind'
    · rcases hkind' with hkind' | ⟨-, -, hfile'⟩
      · exact Or.inr ⟨hwritten, hfile, by rwa [Entry.isFile, hkind']⟩
      · exact Or.inr ⟨hwritten, hfile, hfile'⟩
  added {l e'} hnone hget' := by
    cases hget₁ : t₁.get? l with
    | none => exact h'.added hget₁ hget'
    | some e₁ =>
      obtain ⟨e, hget, hkind⟩ := h'.keeps hget₁
      obtain rfl := Option.some.inj (hget.symm.trans hget')
      rcases hkind with hkind | ⟨-, -, hfile⟩
      · rw [Entry.isSymlink_congr hkind]
        exact h.added hnone hget₁
      · exact Entry.isSymlink_of_isFile hfile

instance (written : Location → Prop) : IsPreorder Tree (Extends written) where
  refl := .refl written
  trans _ _ _ := .trans

theorem Extends.mono {written' : Location → Prop} (h : Extends written t t')
    (hle : ∀ l, written l → written' l) : Extends written' t t' where
  keeps hget := (h.keeps hget).imp fun _ he => he.imp_right fun hkind =>
    hkind.imp_right fun hfile => hfile.imp_left (hle _)
  added := h.added

/-! ## Changes that extend a tree -/

theorem GrowsBy.extends {P : Location → Entry → Prop} (h : GrowsBy P t t')
    (hP : ∀ l e, P l e → e.isSymlink = false) (written : Location → Prop) : Extends written t t' where
  keeps hget := ⟨_, h.keeps hget, Or.inl rfl⟩
  added {l e'} hnone hget' := by
    obtain ⟨new, hgrows, hnew⟩ := h
    exact hP l e' (hnew _ ((hgrows.only hget').resolve_left (by simp [hnone])))

theorem Alike.extends (h : t.Alike t') (written : Location → Prop) : Extends written t t' where
  keeps hget := (h.get? hget).imp fun _ he => he.imp_right Or.inl
  added {l e'} hnone hget' := by simpa [hnone, hget'] using h l

/-- A file in a vacant place, or in that of a file, is an extension. -/
theorem extends_of_fileAt {l : Location} {contents : Bytes} (hbefore : ∀ e, t.get? l = some e → e.isFile)
    (hafter : t'.FileAt l contents) (hothers : ∀ k, k ≠ l → t'.get? k = t.get? k) : Extends (· = l) t t' := by
  obtain ⟨e', hget', hkind'⟩ := hafter
  have hfile' : e'.isFile := Entry.isFile_iff.2 ⟨contents, hkind'⟩
  constructor
  · intro k e hget
    by_cases hk : k = l
    · subst hk
      exact ⟨e', hget', Or.inr ⟨rfl, hbefore e hget, hfile'⟩⟩
    · exact ⟨e, by rw [hothers k hk, hget], Or.inl rfl⟩
  · intro k e hnone hget
    by_cases hk : k = l
    · subst hk
      exact Option.some.inj (hget'.symm.trans hget) ▸ Entry.isSymlink_of_isFile hfile'
    · rw [hothers k hk, hnone] at hget
      cases hget

/-- Writing a file puts it where the path leads, if nothing is there or a file. -/
theorem fileAt_of_writeFile {p : Path} {contents : Bytes} {mode : Nat}
    (h : t.writeFile p contents mode = .ok t') :
    ∃ l, t.locate? true p.parts = some l ∧ t'.FileAt l contents ∧ (∀ old, t.get? l = some old → old.isFile) ∧
      ∀ k, k ≠ l → t'.get? k = t.get? k := by
  obtain ⟨l, e, hl, rfl, hplace⟩ := writeFile_eq_ok_iff.1 h
  refine ⟨l, hl, ⟨e, by rw [get?_set, if_pos rfl], ?_⟩, fun old hold => ?_, fun k hk => by rw [get?_set, if_neg hk]⟩
  · rcases hplace with ⟨old, -, -, rfl⟩ | ⟨-, -, rfl⟩ <;> rfl
  · rcases hplace with ⟨old', hold', hfile, -⟩ | ⟨hnone, -⟩
    · exact Option.some.inj (hold'.symm.trans hold) ▸ hfile
    · simp [hnone] at hold

/-! ## What an extension keeps -/

theorem Extends.linkAt (h : Extends written t t') {l : Location} (hl : l ≠ []) : t'.linkAt l = t.linkAt l := by
  cases hget : t.get? l with
  | none =>
    have hnone : t.linkAt l = none := (linkAt_eq_none_iff hl).2 (by simp [hget])
    rw [hnone]
    exact (linkAt_eq_none_iff hl).2 fun e' hget' => h.added hget hget'
  | some e =>
    obtain ⟨e', hget', hkind⟩ := h.keeps hget
    rcases hkind with hkind | ⟨-, hfile, hfile'⟩
    · rw [get?_of_ne_nil _ hl] at hget hget'
      rw [Tree.linkAt, Tree.linkAt, hget, hget', Option.map_some, Option.map_some, hkind]
    · have hplain : ∀ {s : Tree} {f : Entry}, s.get? l = some f → f.isFile → s.linkAt l = none := by
        intro s f hf hfile
        refine (linkAt_eq_none_iff hl).2 fun f' hf' => ?_
        exact Option.some.inj (hf.symm.trans hf') ▸ Entry.isSymlink_of_isFile hfile
      rw [hplain hget hfile, hplain hget' hfile']

theorem Extends.locate? (h : Extends written t t') (followLast : Bool) (parts : List Part) :
    t'.locate? followLast parts = t.locate? followLast parts :=
  locate?_congr (fun _ hl => h.linkAt hl) followLast parts

theorem Extends.leadsToDirectory (h : Extends written t t') {parts : List Part}
    (hleads : t.LeadsToDirectory parts) : t'.LeadsToDirectory parts := by
  obtain ⟨l, e, hloc, hget, hdir⟩ := hleads
  obtain ⟨e', hget', hkind⟩ := h.keeps hget
  refine ⟨l, e', by rw [h.locate?, hloc], hget', ?_⟩
  rcases hkind with hkind | ⟨-, hfile, -⟩
  · rwa [Entry.isDirectory_congr hkind]
  · rw [Entry.isDirectory] at hdir
    rw [Entry.isFile] at hfile
    split at hdir <;> simp_all

theorem Extends.leadsAlong (h : Extends written t t') {done parts : List Part}
    (hleads : t.LeadsAlong done parts) : t'.LeadsAlong done parts :=
  fun k hk hne => h.leadsToDirectory (hleads k hk hne)

theorem Extends.fileAt (h : Extends written t t') {l : Location} {contents : Bytes} (hfile : t.FileAt l contents)
    (hl : ¬ written l) : t'.FileAt l contents := by
  obtain ⟨e, hget, hkind⟩ := hfile
  obtain ⟨e', hget', hkind'⟩ := h.keeps hget
  exact ⟨e', hget', (hkind'.resolve_right fun hw => hl hw.1).trans hkind⟩

theorem Extends.vacant (h : Extends written t t') {l : Location} (hnone : t'.get? l = none) : t.get? l = none := by
  cases hget : t.get? l with
  | none => rfl
  | some e =>
    obtain ⟨e', hget', -⟩ := h.keeps hget
    simp [hnone] at hget'

theorem Extends.exists? (h : Extends written t t') {p : Path} (hexists : t.exists? p) : t'.exists? p := by
  unfold Tree.exists? at hexists ⊢
  rw [h.locate?]
  cases hloc : t.locate? false p.parts with
  | none => simp [hloc] at hexists
  | some l =>
    simp only [hloc] at hexists
    obtain ⟨e, hget⟩ := Option.isSome_iff_exists.1 hexists
    obtain ⟨e', hget', -⟩ := h.keeps hget
    simp [hget']

/-- The first name of what a path leads to is where it leads, or behind the hard link there. -/
theorem inodeOf_eq_ok_iff {p : Path} {l : Location} :
    t.inodeOf p = .ok l ↔ ∃ k e, t.locate? true p.parts = some k ∧ t.get? k = some e ∧
      ((∃ source, e.kind = .hardlink source ∧ source.location? = some l ∧ (t.get? l).isSome) ∨
        (∀ source, e.kind ≠ .hardlink source) ∧ l = k) := by
  unfold Tree.inodeOf resolve
  cases hloc : t.locate? true p.parts with
  | none => simp [bind, Except.bind]
  | some k =>
    cases hget : t.get? k with
    | none => simp [bind, Except.bind, hget]
    | some e =>
      cases hkind : e.kind with
      | hardlink source =>
        cases hsource : source.location? with
        | none => simp [bind, Except.bind, hget, hkind, hsource]
        | some s =>
          have hvia : (if (t.get? s).isSome then Except.ok s
              else .error (Failure.tree source .sourceMissing)) = .ok l ↔ s = l ∧ (t.get? l).isSome := by
            constructor
            · intro h
              split at h
              · obtain rfl := Except.ok.inj h
                exact ⟨rfl, ‹_›⟩
              · cases h
            · rintro ⟨rfl, hsome⟩
              exact if_pos hsome
          simpa [bind, Except.bind, hget, hkind, hsource] using hvia
      | _ => simp [bind, Except.bind, hget, hkind, @eq_comm _ l]

theorem isSome_of_inodeOf {p : Path} {l : Location} (h : t.inodeOf p = .ok l) : (t.get? l).isSome := by
  obtain ⟨k, e, -, hget, ⟨source, -, -, hsome⟩ | ⟨-, rfl⟩⟩ := inodeOf_eq_ok_iff.1 h
  · exact hsome
  · exact Option.isSome_of_eq_some hget

/-- The first name of what a path leads to stays where it is. -/
theorem Extends.inodeOf (h : Extends written t t') {p : Path} {l : Location} (hinode : t.inodeOf p = .ok l) :
    t'.inodeOf p = .ok l := by
  obtain ⟨k, e, hloc, hget, hfirst⟩ := inodeOf_eq_ok_iff.1 hinode
  obtain ⟨e', hget', hkind⟩ := h.keeps hget
  refine inodeOf_eq_ok_iff.2 ⟨k, e', by rw [h.locate?, hloc], hget', ?_⟩
  rcases hkind with hkind | ⟨-, hfile, hfile'⟩
  · rw [hkind]
    refine hfirst.imp_left fun ⟨source, hsource, hlocation, hsome⟩ => ⟨source, hsource, hlocation, ?_⟩
    obtain ⟨f, hf⟩ := Option.isSome_iff_exists.1 hsome
    obtain ⟨f', hf', -⟩ := h.keeps hf
    exact Option.isSome_of_eq_some hf'
  · obtain ⟨contents, hcontents⟩ := Entry.isFile_iff.1 hfile
    obtain ⟨contents', hcontents'⟩ := Entry.isFile_iff.1 hfile'
    simp only [hcontents, hcontents'] at hfirst ⊢
    simpa using hfirst

/-! ## Where paths lead -/

/-- A file that a path leads to is what the path reads. -/
theorem FileAt.contentsAt {p : Path} {l : Location} {contents : Bytes} (h : t.FileAt l contents)
    (hl : t.locate? true p.parts = some l) : t.contentsAt p = .ok contents := by
  obtain ⟨e, hget, hkind⟩ := h
  exact readThrough_of_file hl hget hkind (t.size + 1)

/-- A path that can be read leads to something. -/
theorem exists_of_contentsAt {p : Path} {contents : Bytes} (h : t.contentsAt p = .ok contents) :
    ∃ l e, t.locate? true p.parts = some l ∧ t.get? l = some e := by
  cases hshown : t.readingAt p with
  | ok r =>
    obtain ⟨l, e, hl, hget, -⟩ := readingAt_eq_ok_iff.1 hshown
    exact ⟨l, e, hl, hget⟩
  | error f =>
    rw [Tree.contentsAt, readThrough_of_error hshown] at h
    cases h

theorem exists?_of_get? {p : Path} {l : Location} {e : Entry} (hl : t.locate? true p.parts = some l)
    (hget : t.get? l = some e) : t.exists? p :=
  exists?_of_inode? (inode?_eq_some.2 ⟨l, e, hl, hget, rfl⟩)

/-- Where a path names nothing, it leads to a place of its last name in the directory that the others lead to. -/
theorem locate?_of_exists?_eq_false {p : Path} {parts : List Part} {n : Name} {d : Location}
    (hp : p.parts = parts ++ [.name n]) (hd : t.locate? true parts = some d) (hfree : t.exists? p = false) :
    t.locate? true p.parts = some (d ++ [.name n]) := by
  rw [hp]
  refine locate?_concat hd (Or.inr ?_)
  refine (linkAt_eq_none_iff (by simp)).2 fun e hget => ?_
  rw [Tree.exists?, hp, locate?_concat hd (Or.inl rfl)] at hfree
  simp [hget] at hfree

end Tree

namespace Edit

open ImageLayer.Tree

variable {t t' : Tree} {p : Path} {mode : Nat} {u : Unit}

theorem extends_makeDirectories (h : makeDirectories p mode t = .ok u t') (written : Location → Prop) :
    Extends written t t' :=
  ((within_ensureDirectories_grows mode [] p.parts).ok h).extends (fun _ _ he => he ▸ rfl) written

/-- Making directories puts no file anywhere. -/
theorem fileAt_of_makeDirectories (h : makeDirectories p mode t = .ok u t') {l : Location} {contents : Bytes}
    (hfile : t'.FileAt l contents) : t.FileAt l contents := by
  obtain ⟨e, hget, hkind⟩ := hfile
  obtain ⟨new, hgrows, hnew⟩ := (within_ensureDirectories_grows mode [] p.parts).ok h
  rcases hgrows.only hget with hold | hmem
  · exact ⟨e, hold, hkind⟩
  · have hdirectory : e = .directory mode := hnew _ hmem
    rw [hdirectory] at hkind
    cases hkind

end Edit

end ImageLayer
