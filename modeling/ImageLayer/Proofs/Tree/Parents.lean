import ImageLayer.Proofs.Tree.Sound
/-!
Directories above entries.

A tree is closed under parents if every entry is in a directory. An archive of another tree could not be
unpacked, as it would not list the directory before what is in it. `parentClosed_run_iff`, the main statement,
says of every sequence of operations on the empty tree, refused ones included, exactly when the tree is closed
afterwards, and that then all directories above an entry are listed before it.

Every operation but one asks for the directory before it makes an entry. The one is making directories: it
follows a symbolic link at the end of the path and makes a directory wherever the link leads, also where nothing
or no directory is above. So the tree is closed exactly if above each directory that was made at the end of a
link there are only directories. This is asked of the tree at the end, as what is missing may have been made
since.

Sections:

* Closed trees. There, not only the parent of an entry is a directory but everything above it (`Founded`), and
  no link is among these, so that the path that spells out an entry leads to it. A closed tree stays closed with
  an entry in a directory (`ParentClosed.set`).
* What changes do. Nothing that a change does takes a directory away (`Changes.isDirectoryAt`). Each entry was
  there before, or stands next to a directory, or was made at the end of a link (`Change.origin`).
* All sequences of operations. If there are only directories above what was made at the end of links, then there
  are above every entry (`Changes.founded`). The induction is on the changes, with the tree at the end held
  fixed: what is a directory at the time is one at the end.
-/

namespace ImageLayer.Tree

/-- Every entry is in a directory. -/
def ParentClosed (t : Tree) : Prop := ∀ l e, (l, e) ∈ t.walk → t.isDirectoryAt l.dropLast

/-- Everything above a location is a directory. -/
def Founded (t : Tree) (l : Location) : Prop := ∀ k, k <+: l → k ≠ l → t.isDirectoryAt k

theorem founded_nil (t : Tree) : t.Founded [] := fun _ hk hne => absurd (List.prefix_nil.1 hk) hne

theorem Founded.of_prefix {t : Tree} {k l : Location} (h : t.Founded l) (hk : k <+: l) :
    t.Founded k := by
  intro j hj hne
  refine h j (hj.trans hk) ?_
  rintro rfl
  exact hne (hj.eq_of_length_le hk.length_le)

theorem Founded.append {t : Tree} {d : Location} (h : t.Founded d) (hdir : t.isDirectoryAt d)
    (p : Part) : t.Founded (d ++ [p]) := by
  intro k hk hne
  rcases List.prefix_concat_iff.1 hk with rfl | hk
  · exact absurd rfl hne
  · by_cases hkd : k = d
    · exact hkd ▸ hdir
    · exact h k hk hkd

theorem linkAt_of_isDirectoryAt {t : Tree} {l : Location} (h : t.isDirectoryAt l) (hl : l ≠ []) :
    t.linkAt l = none := by
  rcases isDirectoryAt_iff.1 h with hnil | ⟨d, hd, hdir⟩
  · exact absurd hnil hl
  · refine (linkAt_eq_none_iff hl).2 fun e he => ?_
    rw [get?_of_ne_nil t hl, hd, Option.some.injEq] at he
    exact Entry.isSymlink_of_isDirectory (he ▸ hdir)

/-- Directories are no links: where everything above is one, only the entry itself may be a link. -/
theorem Founded.linkFree {t : Tree} {l : Location} (h : t.Founded l)
    (hlink : l ≠ [] → t.linkAt l = none) : t.LinkFree l := by
  intro k hk hne
  by_cases hkl : k = l
  · exact hkl ▸ hlink (hkl ▸ hne)
  · exact linkAt_of_isDirectoryAt (h k hk hkl) hne

/-- In a closed tree there are only directories above an entry. -/
theorem ParentClosed.founded {t : Tree} (h : t.ParentClosed) {l : Location} {e : Entry}
    (hmem : (l, e) ∈ t.walk) : t.Founded l := by
  generalize hn : l.length = n
  induction n generalizing l e with
  | zero =>
    rw [List.eq_nil_of_length_eq_zero hn]
    exact founded_nil t
  | succ n ih =>
    have hl : l ≠ [] := by
      rintro rfl
      cases hn
    have hdir := h l e hmem
    have habove : t.Founded l.dropLast := by
      rcases isDirectoryAt_iff.1 hdir with hnil | ⟨d, hd, -⟩
      · rw [hnil]
        exact founded_nil t
      · exact ih (mem_walk.2 hd) (by simp [hn])
    rw [← List.dropLast_concat_getLast hl]
    exact habove.append hdir _

theorem parentClosed_iff_founded {t : Tree} :
    t.ParentClosed ↔ ∀ l e, (l, e) ∈ t.walk → t.Founded l := by
  constructor
  · exact fun h l e hmem => h.founded hmem
  · intro h l e hmem
    by_cases hl : l = []
    · subst hl
      exact isDirectoryAt_iff.2 (Or.inl rfl)
    · refine h l e hmem l.dropLast (List.dropLast_prefix l) fun heq => ?_
      have := congrArg List.length heq
      rw [List.length_dropLast] at this
      have := List.length_pos_iff.2 hl
      omega

/-- An entry that is no directory gives way to another one without taking a directory away. -/
theorem isDirectoryAt_set {t : Tree} {l d : Location} (hplain : ∀ old, t.get? l = some old → old.isDirectory = false)
    (e : Entry) (hd : t.isDirectoryAt d) : (t.set l e).isDirectoryAt d := by
  rcases isDirectoryAt_iff.1 hd with rfl | ⟨old, hold, hdir⟩
  · exact isDirectoryAt_iff.2 (Or.inl rfl)
  · by_cases hnil : d = []
    · exact isDirectoryAt_iff.2 (Or.inl hnil)
    · have hne : d ≠ l := by
        rintro rfl
        rw [← get?_of_ne_nil t hnil] at hold
        rw [hplain old hold] at hdir
        cases hdir
      refine isDirectoryAt_iff.2 (Or.inr ⟨old, ?_, hdir⟩)
      rw [← get?_of_ne_nil _ hnil, get?_set, if_neg hne, get?_of_ne_nil t hnil, hold]

theorem mem_walk_of_set {t : Tree} {l k : Location} {e e' : Entry} (hmem : (k, e') ∈ (t.set l e).walk) :
    k = l ∨ (k, e') ∈ t.walk := by
  by_cases hl : l = []
  · subst hl
    exact Or.inr hmem
  · rcases (mem_walk_set hl).1 hmem with ⟨rfl, -⟩ | ⟨-, hmem⟩
    · exact Or.inl rfl
    · exact Or.inr hmem

theorem ParentClosed.isDirectoryAt_dropLast {t : Tree} (h : t.ParentClosed) {l : Location} {e : Entry}
    (hget : t.get? l = some e) : t.isDirectoryAt l.dropLast := by
  by_cases hl : l = []
  · subst hl
    exact isDirectoryAt_iff.2 (Or.inl rfl)
  · rw [get?_of_ne_nil t hl] at hget
    exact h l e (mem_walk.2 hget)

/-- A closed tree stays closed with an entry in a directory, in a place where no directory was. -/
theorem ParentClosed.set {t : Tree} (h : t.ParentClosed) {l : Location}
    (hplain : ∀ old, t.get? l = some old → old.isDirectory = false) (hdir : t.isDirectoryAt l.dropLast)
    (e : Entry) : (t.set l e).ParentClosed := by
  intro k e' hmem
  refine isDirectoryAt_set hplain e ?_
  rcases mem_walk_of_set hmem with rfl | hmem
  · exact hdir
  · exact h k e' hmem

/-- A closed tree lists what is above an entry before the entry, and all of it is directories. -/
theorem ParentClosed.walk {t : Tree} (h : t.ParentClosed) {j : Nat} {l : Location} {e : Entry}
    (hj : t.walk[j]? = some (l, e)) {k : Location} (hnil : k ≠ []) (hk : k <+: l) (hne : k ≠ l) :
    ∃ i d, i < j ∧ t.walk[i]? = some (k, d) ∧ d.isDirectory := by
  have hdir := h.founded (List.mem_of_getElem? hj) k hk hne
  rcases isDirectoryAt_iff.1 hdir with habs | ⟨d, hd, hdirectory⟩
  · exact absurd habs hnil
  · obtain ⟨i, hi⟩ := List.getElem?_of_mem (mem_walk.2 hd)
    refine ⟨i, d, SortedMap.idxOf_lt_of_compare hi hj ?_, hi, hdirectory⟩
    obtain ⟨rest, rfl⟩ := hk
    cases rest with
    | nil => simp at hne
    | cons p rest => exact Location.compare_append k p rest

/-! ## What changes do -/

/-- An entry was there before a change, or stands next to a directory, or was made at the end of a
link. -/
theorem Change.origin {t t' : Tree} {made : List Made} (h : Change t made t') {l : Location}
    (hget : (t'.get? l).isSome) :
    (t.get? l).isSome ∨ Made.directory l true ∈ made ∨
      ∃ d, t.isDirectoryAt d ∧ (l = d.dropLast ∨ ∃ n, l = d ++ [.name n]) := by
  cases h with
  | @directory k linked mode proper vacant beside =>
    by_cases hk : l = k
    · subst hk
      cases linked with
      | true => exact Or.inr (Or.inl (List.mem_cons_self ..))
      | false => exact Or.inr (Or.inr (beside rfl))
    · rw [get?_set, if_neg hk] at hget
      exact Or.inl hget
  | @entry parent n kind mode proper inside vacant plain =>
    by_cases hk : l = parent ++ [.name n]
    · exact Or.inr (Or.inr ⟨parent, inside, Or.inr ⟨n, hk⟩⟩)
    · rw [get?_set, if_neg hk] at hget
      exact Or.inl hget
  | @link source parent n e sourceProper file isFile proper inside vacant =>
    by_cases hk : l = parent ++ [.name n]
    · exact Or.inr (Or.inr ⟨parent, inside, Or.inr ⟨n, hk⟩⟩)
    · rw [get?_set, if_neg hk] at hget
      exact Or.inl hget
  | @contents k e bytes file isFile =>
    by_cases hk : l = k
    · exact Or.inl (by rw [hk, file, Option.isSome_some])
    · rw [get?_set, if_neg hk] at hget
      exact Or.inl hget
  | attributes inode change =>
    rw [get?_mapNames, Option.isSome_map] at hget
    exact Or.inl hget

theorem Changes.isDirectoryAt {t t' : Tree} {made : List Made} (h : Changes t made t')
    {l : Location} (hl : t.isDirectoryAt l) : t'.isDirectoryAt l :=
  h.keep (P := fun t => t.isDirectoryAt l) (fun hstep => hstep.isDirectoryAt) hl

theorem Changes.isSome {t t' : Tree} {made : List Made} (h : Changes t made t') {l : Location}
    (hl : (t.get? l).isSome) : (t'.get? l).isSome := by
  refine h.keep (P := fun t => (t.get? l).isSome) (fun hstep hget => ?_) hl
  obtain ⟨e, he⟩ := Option.isSome_iff_exists.1 hget
  obtain ⟨e', he', -⟩ := hstep.kind he
  exact Option.isSome_of_eq_some he'

/-- If at the end there are only directories above what was there at the start, and above what was
made at the end of links, then there are above every entry. -/
theorem Changes.founded {t t' : Tree} {made : List Made} (h : Changes t made t')
    (hstart : ∀ l, (t.get? l).isSome → t'.Founded l)
    (hlinked : ∀ l, Made.directory l true ∈ made → t'.Founded l) :
    ∀ l, (t'.get? l).isSome → t'.Founded l := by
  -- All is asked of the last tree: a directory may be made after what is below it.
  induction h with
  | nil t => exact hstart
  | @cons t t₁ t₂ made more first rest ih =>
    -- For the other changes, what the first one made is there at the start.
    refine ih (fun l hl => ?_) fun l hl => hlinked l (List.mem_append_right made hl)
    rcases first.origin hl with hold | hmade | ⟨d, hdir, hplace⟩
    · exact hstart l hold
    · exact hlinked l (List.mem_append_left more hmade)
    · have hd : t₂.Founded d := by
        rcases isDirectoryAt_iff.1 hdir with rfl | ⟨e, he, -⟩
        · exact founded_nil t₂
        · by_cases hnil : d = []
          · exact hnil ▸ founded_nil t₂
          · exact hstart d (by rw [get?_of_ne_nil t hnil, he, Option.isSome_some])
      rcases hplace with rfl | ⟨n, rfl⟩
      · exact hd.of_prefix (List.dropLast_prefix d)
      · exact hd.append (rest.isDirectoryAt (first.isDirectoryAt hdir)) (.name n)

/-- A directory that was made is there at the end. -/
theorem Changes.isSome_of_made {t t' : Tree} {made : List Made} (h : Changes t made t')
    {l : Location} {linked : Bool} (hmade : Made.directory l linked ∈ made) :
    (t'.get? l).isSome := by
  induction h with
  | nil t => simp at hmade
  | cons first rest ih =>
    rcases List.mem_append.1 hmade with hmade | hmade
    · refine rest.isSome ?_
      cases first with
      | directory proper vacant beside =>
        obtain ⟨rfl, -⟩ := Made.directory.inj (List.mem_singleton.1 hmade)
        rw [get?_set, if_pos rfl, Option.isSome_some]
      | link => simp at hmade
      | _ => simp at hmade
    · exact ih hmade

/-! ## All sequences of operations -/

/-- Whatever operations made of the empty tree, successful or refused: every entry is in a directory
exactly if there are only directories above each directory that was made at the end of a symbolic
link. In that case whatever is above an entry is a directory that is listed before the entry. -/
theorem parentClosed_run_iff (ops : List Operation) :
    ((empty.run ops).ParentClosed ↔
        ∀ l, Made.directory l true ∈ empty.madeBy ops → (empty.run ops).Founded l) ∧
      ((empty.run ops).ParentClosed →
        ∀ j l e, (empty.run ops).walk[j]? = some (l, e) → ∀ k, k ≠ [] → k <+: l → k ≠ l →
          ∃ (i : Nat) (d : Entry),
            i < j ∧ (empty.run ops).walk[i]? = some (k, d) ∧ d.isDirectory) := by
  have hrun := run_changes empty ops
  refine ⟨⟨fun hclosed l hmade => ?_, fun hlinked => ?_⟩, fun hclosed j l e hj k hnil hk hne =>
    hclosed.walk hj hnil hk hne⟩
  · by_cases hl : l = []
    · exact hl ▸ founded_nil _
    · obtain ⟨e, he⟩ := Option.isSome_iff_exists.1 (hrun.isSome_of_made hmade)
      rw [get?_of_ne_nil _ hl] at he
      exact hclosed.founded (mem_walk.2 he)
  · have hstart : ∀ l, (empty.get? l).isSome → (empty.run ops).Founded l := by
      intro l hl
      by_cases hnil : l = []
      · exact hnil ▸ founded_nil _
      · simp [get?, hnil] at hl
    have hall := hrun.founded hstart hlinked
    refine parentClosed_iff_founded.2 fun l e hmem => ?_
    by_cases hl : l = []
    · exact hl ▸ founded_nil _
    · exact hall l (by rw [get?_of_ne_nil _ hl, mem_walk.1 hmem, Option.isSome_some])

/-- A directory made at the end of a link whose target names two missing directories: the outer one
is not made, and the inner one is in none. -/
theorem not_parentClosed_through_link :
    let link : Path := ⟨[0x61]⟩
    let target : Path := ⟨[0x78, 0x2F, 0x79]⟩
    ¬ (empty.run [.symlink target link, .makeDirectories link 0o755]).ParentClosed := by
  intro link target h
  have hmem : ([.name [0x78], .name [0x79]], Entry.directory 0o755) ∈
      (empty.run [.symlink target link, .makeDirectories link 0o755]).walk := by decide +kernel
  exact absurd (h _ _ hmem) (by decide +kernel)

end ImageLayer.Tree
