import ImageLayer.Proofs.Tree.Effects
import ImageLayer.Proofs.Tree.Growth
import ImageLayer.Proofs.Tree.Parents
/-!
Making directories.

The directories on a path are made one after the other, each found again from the root.
`makeDirectories_outcome`, the main statement, says what comes of it. If it succeeds, every beginning of the
path leads to a directory, the tree is as it was but for new directories, and making them again changes nothing
(`WithDirectories`). If it fails, the tree is as it was, provided that every entry is in a directory and that
the path has no step up.

Sections:

* Paths along directories. `LeadsAlong` says that all beginnings of a path lead to directories.
* One directory. One that is there is left alone, whatever permissions are asked for. A new one is no symbolic
  link, so that all paths lead where they led.
* All directories on a path: what is added (`within_ensureDirectories_grows`), that it is enough
  (`ensureDirectories_leads`), and that it need not be done twice (`ensureDirectories_of_leads`).
* Paths that cannot be made. With directories above all entries, the first directory that is made has nothing
  below it. So nothing is in the way of those that follow, and none of them can fail
  (`ensureDirectories_of_vacantBelow`): either the path is refused before the tree is touched, or all of it is
  made.
* The outcome.

A step up would lead out of what was just made, back to where something may be in the way, and in a tree that is
not closed something may stand below a place where nothing is. In both cases directories may be made before the
failure.
-/

namespace ImageLayer

namespace Tree

/-- Parts lead to a directory. -/
def LeadsToDirectory (t : Tree) (parts : List Part) : Prop :=
  ∃ l e, t.locate? true parts = some l ∧ t.get? l = some e ∧ e.isDirectory

/-- Every beginning of `parts` leads to a directory from where `done` leads. -/
def LeadsAlong (t : Tree) (done parts : List Part) : Prop :=
  ∀ k, k <+: parts → k ≠ [] → t.LeadsToDirectory (done ++ k)

theorem leadsAlong_cons {t : Tree} {done : List Part} {part : Part} {rest : List Part} :
    t.LeadsAlong done (part :: rest) ↔
      t.LeadsToDirectory (done ++ [part]) ∧ t.LeadsAlong (done ++ [part]) rest := by
  constructor
  · intro h
    refine ⟨h [part] (by simp) (List.cons_ne_nil _ _), fun k hk _ => ?_⟩
    rw [List.append_assoc]
    exact h (part :: k) (List.prefix_cons_inj part |>.2 hk) (List.cons_ne_nil _ _)
  · rintro ⟨hpart, hrest⟩ k hk hne
    rcases List.prefix_cons_iff.1 hk with rfl | ⟨k, rfl, hrest'⟩
    · exact absurd rfl hne
    · by_cases hnil : k = []
      · exact hnil ▸ hpart
      · rw [List.append_cons]
        exact hrest k hrest' hnil

/-- New directories leave directories where they were found. -/
theorem LeadsToDirectory.grows {t t' : Tree} {mode : Nat} {parts : List Part}
    (h : t.LeadsToDirectory parts) (hgrows : GrowsBy (fun _ e => e = .directory mode) t t') :
    t'.LeadsToDirectory parts := by
  obtain ⟨l, e, hloc, hget, he⟩ := h
  refine ⟨l, e, ?_, hgrows.keeps hget, he⟩
  rw [hgrows.locate? (fun _ e he => he ▸ rfl), hloc]

/-! ## One directory -/

/-- A directory that is there is left alone, whatever mode is asked for. -/
theorem ensureDirectory_of_leads {t : Tree} {parts : Location} (h : t.LeadsToDirectory parts)
    (mode : Nat) : t.ensureDirectory mode parts = .ok t := by
  obtain ⟨l, e, hloc, hget, he⟩ := h
  simp [ensureDirectory, hloc, hget, he]

theorem locate?_set_directory {t : Tree} {l : Location} (vacant : t.get? l = none) (mode : Nat)
    (parts : List Part) :
    (t.set l (.directory mode)).locate? true parts = t.locate? true parts :=
  locate?_congr (fun k _ => linkAt_set_directory vacant mode k) true parts

theorem ensureDirectory_leads {t t' : Tree} {mode : Nat} {parts : Location}
    (h : t.ensureDirectory mode parts = .ok t') : t'.LeadsToDirectory parts := by
  obtain ⟨l, hloc, ⟨e, hget, he, rfl⟩ | ⟨hget, rfl⟩⟩ := ensureDirectory_eq_ok h
  · exact ⟨l, e, hloc, hget, he⟩
  · refine ⟨l, .directory mode, ?_, ?_, rfl⟩
    · rw [locate?_set_directory hget, hloc]
    · rw [get?_set, if_pos rfl]

/-! ## All directories on a path -/

theorem ensureDirectories_cons (mode : Nat) (done : Location) (part : Part) (rest : List Part)
    (t : Tree) :
    Edit.ensureDirectories mode done (part :: rest) t =
      match t.ensureDirectory mode (done ++ [part]) with
      | .ok t₁ => Edit.ensureDirectories mode (done ++ [part]) rest t₁
      | .error e => .error (.failure e) t := by
  simp only [Edit.ensureDirectories, bind, EStateM.bind, Edit.change]
  cases t.ensureDirectory mode (done ++ [part]) <;> rfl

/-- Nothing is added but directories, whether all are made or not. -/
theorem within_ensureDirectories_grows (mode : Nat) (done : Location) (parts : List Part) :
    Within (GrowsBy fun _ e => e = .directory mode) (Edit.ensureDirectories mode done parts) :=
  Edit.within_ensureDirectories
    (fun h => (ensureDirectory_grows h).mono fun _ _ hnew => hnew.2) done parts

theorem ensureDirectories_leads {t t' : Tree} {mode : Nat} {done : Location} {parts : List Part}
    {u : Unit} (h : Edit.ensureDirectories mode done parts t = .ok u t') :
    t'.LeadsAlong done parts := by
  induction parts generalizing t done with
  | nil => exact fun k hk hne => absurd (List.prefix_nil.1 hk) hne
  | cons part rest ih =>
    rw [ensureDirectories_cons] at h
    cases hstep : t.ensureDirectory mode (done ++ [part]) with
    | error e => simp [hstep] at h
    | ok t₁ =>
      simp only [hstep] at h
      have hgrows := (within_ensureDirectories_grows mode (done ++ [part]) rest).ok h
      exact leadsAlong_cons.2 ⟨(ensureDirectory_leads hstep).grows hgrows, ih h⟩

theorem ensureDirectories_of_leads {t : Tree} {done : Location} {parts : List Part}
    (h : t.LeadsAlong done parts) (mode : Nat) :
    Edit.ensureDirectories mode done parts t = .ok () t := by
  induction parts generalizing done with
  | nil => rfl
  | cons part rest ih =>
    obtain ⟨hpart, hrest⟩ := leadsAlong_cons.1 h
    rw [ensureDirectories_cons, ensureDirectory_of_leads hpart]
    exact ih hrest

/-! ## Paths that cannot be made -/

/-- Nothing is below a location. -/
def VacantBelow (t : Tree) (l : Location) : Prop := ∀ k, l <+: k → k ≠ l → t.get? k = none

theorem ParentClosed.vacantBelow_of_not {t : Tree} (h : t.ParentClosed) {l : Location}
    (hnot : ¬ t.isDirectoryAt l) : t.VacantBelow l := by
  intro k hk hne
  cases hget : t.get? k with
  | none => rfl
  | some e =>
    have hk' : k ≠ [] := by
      rintro rfl
      exact hne (List.prefix_nil.1 hk).symm
    rw [get?_of_ne_nil t hk'] at hget
    exact absurd (h.founded (mem_walk.2 hget) l hk (Ne.symm hne)) hnot

theorem not_isDirectoryAt {t : Tree} {l : Location} (hl : l ≠ [])
    (hplain : ∀ e, t.get? l = some e → e.isDirectory = false) : ¬ t.isDirectoryAt l := by
  rw [isDirectoryAt_iff, ← get?_of_ne_nil t hl]
  rintro (hnil | ⟨e, he, hdir⟩)
  · exact hl hnil
  · rw [hplain e he] at hdir
    cases hdir

theorem ParentClosed.vacantBelow {t : Tree} (h : t.ParentClosed) {l : Location}
    (vacant : t.get? l = none) : t.VacantBelow l :=
  h.vacantBelow_of_not (not_isDirectoryAt (ne_nil_of_get?_eq_none vacant) (by simp [vacant]))

theorem VacantBelow.set_directory {t : Tree} {l : Location} (h : t.VacantBelow l) (p : Part)
    (mode : Nat) : (t.set (l ++ [p]) (.directory mode)).VacantBelow (l ++ [p]) := by
  intro k hk hne
  rw [get?_set, if_neg hne]
  refine h k ((List.prefix_append l [p]).trans hk) ?_
  rintro rfl
  have hlength := hk.length_le
  simp only [List.length_append, List.length_singleton] at hlength
  omega

/-- Where nothing is in the way, a directory is made for every further name. -/
theorem ensureDirectories_of_vacantBelow {t : Tree} {mode : Nat} {done : Location} {rest : List Part}
    {l : Location} (hdone : t.locate? true done = some l) (hbelow : t.VacantBelow l)
    (hup : Part.up ∉ rest) : ∃ t', Edit.ensureDirectories mode done rest t = .ok () t' := by
  induction rest generalizing t done l with
  | nil => exact ⟨t, rfl⟩
  | cons part rest ih =>
    cases part with
    | up => exact absurd (List.mem_cons_self ..) hup
    | name n =>
      have vacant : t.get? (l ++ [.name n]) = none :=
        hbelow _ (List.prefix_append l _) (by simp)
      have hlink : t.linkAt (l ++ [.name n]) = none :=
        (linkAt_eq_none_iff (by simp)).2 (by simp [vacant])
      have hloc : t.locate? true (done ++ [.name n]) = some (l ++ [.name n]) :=
        locate?_concat hdone (Or.inr hlink)
      have hstep : t.ensureDirectory mode (done ++ [.name n])
          = .ok (t.set (l ++ [.name n]) (.directory mode)) := by
        simp [ensureDirectory, hloc, vacant]
      rw [ensureDirectories_cons, hstep]
      refine ih ?_ (hbelow.set_directory (.name n) mode) fun h => hup (List.mem_cons_of_mem _ h)
      rw [locate?_set_directory vacant, hloc]

theorem ensureDirectories_eq_error {t t' : Tree} {mode : Nat} {done : Location} {parts : List Part}
    {e : NoResult} (hclosed : t.ParentClosed) (hup : Part.up ∉ parts)
    (h : Edit.ensureDirectories mode done parts t = .error e t') : t' = t := by
  induction parts generalizing done with
  | nil => cases h
  | cons part rest ih =>
    have hrest : Part.up ∉ rest := fun hmem => hup (List.mem_cons_of_mem part hmem)
    rw [ensureDirectories_cons] at h
    cases hstep : t.ensureDirectory mode (done ++ [part]) with
    | error e' =>
      simp only [hstep] at h
      exact (EStateM.Result.error.inj h).2.symm
    | ok t₁ =>
      simp only [hstep] at h
      obtain ⟨l, hloc, ⟨-, -, -, rfl⟩ | ⟨vacant, rfl⟩⟩ := ensureDirectory_eq_ok hstep
      · exact ih hrest h
      · -- From the first new directory on nothing can fail.
        have hbelow : (t.set l (.directory mode)).VacantBelow l := by
          intro k hk hne
          rw [get?_set, if_neg hne]
          exact hclosed.vacantBelow vacant k hk hne
        rw [← locate?_set_directory vacant mode] at hloc
        obtain ⟨t₂, hok⟩ := ensureDirectories_of_vacantBelow hloc hbelow hrest
        rw [hok] at h
        cases h

/-! ## The outcome -/

/-- `t'` is `t` with the directories at a path and on the way to it. -/
structure WithDirectories (t : Tree) (p : Path) (mode : Nat) (t' : Tree) : Prop where
  /-- Every beginning of the path leads to a directory: the empty one to the root, the others to an entry that is
  a directory. -/
  leads : ∀ q : Path, q.parts <+: p.parts → ∃ l, t'.resolve q true = .ok l ∧ t'.isDirectoryAt l ∧
    (q.parts ≠ [] → ∃ e, t'.get? l = some e ∧ e.isDirectory)
  /-- What was there is there as it was. -/
  keeps : ∀ l e, t.get? l = some e → t'.get? l = some e
  /-- What is new is a directory that nobody owns, with the permission bits of the mode. -/
  only : ∀ l e, t'.get? l = some e → t.get? l = some e ∨
    t.get? l = none ∧ e = ⟨.directory, mode &&& 0o7777, none⟩
  /-- There is nothing left to make, whatever mode is asked for. -/
  again : ∀ mode', Edit.makeDirectories p mode' t' = .ok () t'

theorem makeDirectories_eq_ok {t t' : Tree} {p : Path} {mode : Nat} {u : Unit}
    (h : Edit.makeDirectories p mode t = .ok u t') : t.WithDirectories p mode t' := by
  have hleads : t'.LeadsAlong [] p.parts := ensureDirectories_leads h
  obtain ⟨new, hgrows, hnew⟩ := (within_ensureDirectories_grows mode [] p.parts).ok h
  refine ⟨fun q hq => ?_, fun l e => hgrows.keeps, fun l e hget => ?_, ensureDirectories_of_leads hleads⟩
  · by_cases hnil : q.parts = []
    · exact ⟨[], resolve_eq_ok_iff.2 (by rw [hnil]; rfl), isDirectoryAt_iff.2 (Or.inl rfl),
        fun hne => absurd hnil hne⟩
    · obtain ⟨l, e, hloc, hget, he⟩ := hleads q.parts hq hnil
      refine ⟨l, resolve_eq_ok_iff.2 hloc, isDirectoryAt_iff.2 ?_, fun _ => ⟨e, hget, he⟩⟩
      by_cases hl : l = []
      · exact Or.inl hl
      · exact Or.inr ⟨e, by rwa [← get?_of_ne_nil t' hl], he⟩
  · rcases hgrows.only hget with hold | hmem
    · exact Or.inl hold
    · refine Or.inr ⟨(hgrows.added hmem).1, ?_⟩
      rw [show e = .directory mode from hnew _ hmem, show (0o7777 : Nat) = 2 ^ 12 - 1 from rfl,
        Nat.and_two_pow_sub_one_eq_mod]
      rfl

/-- Making directories gives a tree with the directories on the path, which is the tree as it was and new
directories, and where making them again changes nothing. With a directory above every entry and no step up on the
path, the tree is left as it was if they cannot be made. -/
theorem makeDirectories_outcome (t : Tree) (p : Path) (mode : Nat) :
    (∀ t', Edit.makeDirectories p mode t = .ok () t' → t.WithDirectories p mode t') ∧
      (t.ParentClosed → Part.up ∉ p.parts →
        ∀ e t', Edit.makeDirectories p mode t = .error e t' → t' = t) :=
  ⟨fun _ => makeDirectories_eq_ok, fun hclosed hup _ _ => ensureDirectories_eq_error hclosed hup⟩

/-- Directories through a link `l` to a name in `d` that is not taken, and directories below a file `d/f`. -/
theorem makeDirectories_outcome_through_link :
    let d : Tree := empty.insert (.ofString "d") (.directory 0o700)
    let t := (d.insert (.ofString "d/f") (.file [] 0o644)).insert (.ofString "l")
      (.symlink (.ofString "d/x"))
    let p : Path := .ofString "l/y"
    let q : Path := .ofString "d/f/z"
    (∃ t', Edit.makeDirectories p 0o41750 t = .ok () t' ∧ t.WithDirectories p 0o41750 t') ∧
      t.ParentClosed ∧ Part.up ∉ q.parts ∧ ∃ e, Edit.makeDirectories q 0o755 t = .error e t := by
  intro d t p q
  have hclosed : ∀ x ∈ t.walk, t.isDirectoryAt x.1.dropLast := by decide +kernel
  have hup : Part.up ∉ q.parts := by decide +kernel
  have hp : Edit.makeDirectories p 0o41750 t matches .ok _ _ := by decide +kernel
  have hq : Edit.makeDirectories q 0o755 t matches .error _ _ := by decide +kernel
  refine ⟨?_, fun l e hmem => hclosed (l, e) hmem, hup, ?_⟩
  · cases hmade : Edit.makeDirectories p 0o41750 t with
    | ok u t' => exact ⟨t', rfl, (makeDirectories_outcome t p 0o41750).1 t' hmade⟩
    | error e t' => simp [hmade] at hp
  · cases hmade : Edit.makeDirectories q 0o755 t with
    | ok u t' => simp [hmade] at hq
    | error e t' =>
      have hsame := (makeDirectories_outcome t q 0o755).2 (fun l e hmem => hclosed (l, e) hmem) hup
      exact ⟨e, by rw [hsame e t' hmade]⟩

end Tree

end ImageLayer
