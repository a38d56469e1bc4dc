import ImageLayer.Proofs.Tree.Resolve
/-!
What an operation can do to a tree.

There are seven operations on trees, and each may be refused, may make several entries, and may stop after some
of them. No proof about all sequences of operations goes through these. Instead `Change` lists the five kinds of
change that there are, each with all that the tree says at that moment, and `after_changes` takes every
operation apart into them, whether it is refused or not. So what the changes keep holds in every tree that
operations lead to (`Changes.keep`), and to show that something is kept is to look at five cases.

A change says in `Made` whether it made a directory or a hard link. These are the entries that others rely on: a
directory holds what is below it, and a hard link needs its file. `madeBy` lists those that a sequence of
operations makes. For a directory it is recorded besides whether a symbolic link was at the end of the path,
since such a directory may stand where there is no directory above.

Sections:

* Operations in sequence: what they make, computed along with the tree.
* Changes, one and several in order.
* Every operation is a sequence of changes. Most make one or none. Making directories makes one after the other,
  each from the directory that the path led to before, and stops at the first that cannot be made
  (`left_ensureDirectories_changes`). Each of them is next to a directory unless a link was followed at the end
  (`beside_of_locate?`): a step up is next to it as well.

New permissions and owners are changes of all names of a file at once. The change only says that they leave the
kind of an entry alone (`AttributeChange`), for this is all that any proof needs of them.
-/

namespace ImageLayer

/-! ## Operations in sequence -/

/-- An entry that other entries rely on. -/
inductive Made where
  /-- A directory at a location; whether the path to it ended in a symbolic link. -/
  | directory (l : Location) (linked : Bool)
  /-- A hard link at `l` to the file at `source`. -/
  | link (source l : Location)
  deriving DecidableEq, Repr

namespace Tree

/-- The directory that is made where parts lead to nothing. -/
def directoryMade (t : Tree) (parts : Location) : List Made :=
  match t.locate? true parts with
  | some l =>
    if (t.get? l).isNone then [.directory l (decide (t.locate? false parts ≠ some l))] else []
  | none => []

/-- The directories that are made for longer and longer beginnings of a path, of which `done` are
made; see `Edit.ensureDirectories`. -/
def directoriesMade (mode : Nat) (t : Tree) (done : Location) : List Part → List Made
  | [] => []
  | part :: rest =>
    match t.ensureDirectory mode (done ++ [part]) with
    | .ok t' =>
      t.directoryMade (done ++ [part]) ++ directoriesMade mode t' (done ++ [part]) rest
    | .error _ => []

/-- The hard link that is made at `link`, unless that is refused. -/
def linkMade (t : Tree) (source link : Path) : List Made :=
  match t.resolve source true, t.resolveNew link link.parts, t.hardlink source link with
  | .ok s, .ok l, .ok _ => [.link s l]
  | _, _, _ => []

end Tree

/-- The directories and hard links that an operation makes. -/
def Operation.made (op : Operation) (t : Tree) : List Made :=
  match op with
  | .makeDirectories path mode => t.directoriesMade mode [] path.parts
  | .hardlink source link => t.linkMade source link
  | _ => []

namespace Tree

/-- The tree after operations in order, whether they succeed or not. -/
def run (t : Tree) : List Operation → Tree
  | [] => t
  | op :: rest => (op.after t).run rest

/-- The directories and hard links that operations in order make. -/
def madeBy (t : Tree) : List Operation → List Made
  | [] => []
  | op :: rest => op.made t ++ (op.after t).madeBy rest

/-! ## Changes -/

/-- A change of an entry in its permissions or its owner alone. -/
structure AttributeChange (f : Entry → Entry) : Prop where
  /-- The entry stays what it is. -/
  kind : ∀ e, (f e).kind = e.kind
  /-- The permissions stay within their bits. -/
  mode : ∀ e, e.mode < 4096 → (f e).mode < 4096
  /-- Entries with the same permissions and the same owner stay alike. -/
  alike : ∀ e e', e.mode = e'.mode → e.owner = e'.owner →
    (f e).mode = (f e').mode ∧ (f e).owner = (f e').owner

theorem permissionBits_lt (mode : Nat) : permissionBits mode < 4096 :=
  Nat.mod_lt _ (by decide)

theorem attributeChange_withMode (mode : Nat) : AttributeChange (Entry.withMode mode) where
  kind _ := rfl
  mode _ _ := permissionBits_lt mode
  alike _ _ _ howner := ⟨rfl, howner⟩

theorem attributeChange_withOwner (owner : Ownership) :
    AttributeChange (Entry.withOwner owner) where
  kind _ := rfl
  mode _ h := h
  alike _ _ hmode _ := ⟨hmode, rfl⟩

/-- One change that an operation makes to a tree, with the directory or hard link that it makes. -/
inductive Change (t : Tree) : List Made → Tree → Prop where
  /-- A directory where there is nothing. Without a symbolic link at the end of the path it is next
  to a directory; otherwise it may be anywhere. -/
  | directory {l : Location} {linked : Bool} {mode : Nat} (proper : l.Proper)
      (vacant : t.get? l = none)
      (beside : linked = false → ∃ d, t.isDirectoryAt d ∧ (l = d.dropLast ∨ ∃ n, l = d ++ [.name n])) :
      Change t [.directory l linked] (t.set l (.directory mode))
  /-- A file, a symbolic link or a device under a new name in a directory. -/
  | entry {parent : Location} {n : Name} {kind : EntryKind} {mode : Nat}
      (proper : Location.Proper (parent ++ [.name n])) (inside : t.isDirectoryAt parent)
      (vacant : t.get? (parent ++ [.name n]) = none)
      (plain : ∀ source, kind ≠ .hardlink source) :
      Change t [] (t.set (parent ++ [.name n]) (.ofKind kind mode))
  /-- A further name of a file in a directory. -/
  | link {source parent : Location} {n : Name} {e : Entry}
      (sourceProper : source.Proper) (file : t.get? source = some e) (isFile : e.isFile)
      (proper : Location.Proper (parent ++ [.name n])) (inside : t.isDirectoryAt parent)
      (vacant : t.get? (parent ++ [.name n]) = none) :
      Change t [.link source (parent ++ [.name n])]
        (t.set (parent ++ [.name n]) { e with kind := .hardlink source.path })
  /-- New contents of a file. -/
  | contents {l : Location} {e : Entry} {bytes : Bytes}
      (file : t.get? l = some e) (isFile : e.isFile) :
      Change t [] (t.set l { e with kind := .file bytes })
  /-- New permissions or a new owner of what a path leads to. -/
  | attributes {p : Path} {l : Location} {f : Entry → Entry}
      (inode : t.inodeOf p = .ok l) (change : AttributeChange f) :
      Change t [] (t.mapNames l f)

/-- Changes in order, with all directories and hard links that they make. -/
inductive Changes : Tree → List Made → Tree → Prop where
  /-- No change. -/
  | nil (t : Tree) : Changes t [] t
  /-- A change and those after it. -/
  | cons {t t' t'' : Tree} {made more : List Made} (first : Change t made t')
      (rest : Changes t' more t'') : Changes t (made ++ more) t''

theorem Change.changes {t t' : Tree} {made : List Made} (h : Change t made t') :
    Changes t made t' := by
  simpa using Changes.cons h (.nil t')

theorem Changes.append {t t' t'' : Tree} {made more : List Made} (h : Changes t made t')
    (h' : Changes t' more t'') : Changes t (made ++ more) t'' := by
  induction h with
  | nil t => exact h'
  | cons first rest ih =>
    rw [List.append_assoc]
    exact .cons first (ih h')

/-- What every single change keeps, changes in order keep. -/
theorem Changes.keep {P : Tree → Prop}
    (step : ∀ {t made t'}, Change t made t' → P t → P t') {t t' : Tree} {made : List Made}
    (h : Changes t made t') : P t → P t' := by
  induction h with
  | nil t => exact id
  | cons first rest ih => exact fun ht => ih (step first ht)

/-! ## Every operation is a sequence of changes -/

theorem exists_of_bind_eq_ok {α β : Type} {x : Except Failure α} {f : α → Except Failure β} {b : β}
    (h : (x >>= f) = .ok b) : ∃ a, x = .ok a ∧ f a = .ok b := by
  cases x with
  | error e => cases h
  | ok a => exact ⟨a, rfl, h⟩

theorem insertNew_eq_ok {t t' : Tree} {shown : Path} {parts : List Part} {e : Entry}
    (hparts : ∀ p ∈ parts, p.Spelled) (h : t.insertNew shown parts e = .ok t') :
    ∃ parent n, t.resolveNew shown parts = .ok (parent ++ [.name n]) ∧
      Location.Proper (parent ++ [.name n]) ∧ t.isDirectoryAt parent ∧
      t.get? (parent ++ [.name n]) = none ∧ t' = t.set (parent ++ [.name n]) e := by
  obtain ⟨l, hnew, h⟩ := exists_of_bind_eq_ok h
  obtain ⟨parent, n, -, -, hdir, rfl⟩ := resolveNew_eq_ok hnew
  split at h
  · cases h
  · rename_i hfree
    refine ⟨parent, n, hnew, resolveNew_proper hparts hnew, hdir, ?_, (Except.ok.inj h).symm⟩
    simpa [get?, SortedMap.contains] using hfree

theorem insertNew_changes {t t' : Tree} {shown : Path} {parts : List Part} {kind : EntryKind}
    {mode : Nat} (hparts : ∀ p ∈ parts, p.Spelled) (plain : ∀ source, kind ≠ .hardlink source)
    (h : t.insertNew shown parts (.ofKind kind mode) = .ok t') : Changes t [] t' := by
  obtain ⟨parent, n, -, hproper, hdir, hvacant, rfl⟩ := insertNew_eq_ok hparts h
  exact (Change.entry hproper hdir hvacant plain).changes

theorem writeFile_changes {t t' : Tree} {p : Path} {contents : Bytes} {mode : Nat}
    (h : t.writeFile p contents mode = .ok t') : Changes t [] t' := by
  obtain ⟨l, hloc, h⟩ := exists_of_bind_eq_ok h
  cases hget : t.get? l with
  | some e =>
    cases hkind : e.kind with
    | file old =>
      simp only [hget, hkind, Except.ok.injEq] at h
      subst h
      exact (Change.contents hget (by simp [Entry.isFile, hkind])).changes
    | _ => simp [hget, hkind] at h
  | none =>
    have hproper : l.Proper :=
      locate?_proper (fun _ => Path.spelled_of_mem_parts) (resolve_eq_ok_iff.1 hloc)
    simp only [hget] at h
    exact insertNew_changes hproper.spelled (by simp) h

theorem hardlink_changes {t t' : Tree} {source link : Path} (h : t.hardlink source link = .ok t') :
    Changes t (t.linkMade source link) t' := by
  rw [linkMade, h]
  obtain ⟨s, hloc, h⟩ := exists_of_bind_eq_ok h
  have hs : s.Proper :=
    locate?_proper (fun _ => Path.spelled_of_mem_parts) (resolve_eq_ok_iff.1 hloc)
  cases hget : t.get? s with
  | none => simp [hget] at h
  | some e =>
    simp only [hget] at h
    split at h
    · rename_i hfile
      obtain ⟨parent, n, hnew, hproper, hdir, hvacant, rfl⟩ :=
        insertNew_eq_ok (fun _ => Path.spelled_of_mem_parts) h
      simp only [hloc, hnew]
      exact (Change.link hs hget hfile hproper hdir hvacant).changes
    · cases h

theorem linkMade_of_error {t : Tree} {source link : Path} {e : Failure}
    (h : t.hardlink source link = .error e) : t.linkMade source link = [] := by
  rw [linkMade, h]
  cases t.resolve source true <;> cases t.resolveNew link link.parts <;> rfl

theorem attributes_changes {t t' : Tree} {p : Path} {f : Entry → Entry} (hf : AttributeChange f)
    (h : (do return t.mapNames (← t.inodeOf p) f : Except Failure Tree) = .ok t') :
    Changes t [] t' := by
  obtain ⟨l, hinode, h⟩ := exists_of_bind_eq_ok h
  obtain rfl := Except.ok.inj h
  exact (Change.attributes hinode hf).changes

/-- A directory that is made without a symbolic link at the end of the path is next to a directory. -/
theorem beside_of_locate? {t : Tree} {done : Location} {part : Part} {d l : Location}
    (hdone : t.locate? true done = some d) (hdir : t.isDirectoryAt d)
    (h : t.locate? false (done ++ [part]) = some l) :
    ∃ d, t.isDirectoryAt d ∧ (l = d.dropLast ∨ ∃ n, l = d ++ [.name n]) := by
  refine ⟨d, hdir, ?_⟩
  obtain ⟨left, -, hleft⟩ := resolveFrom_append false (List.cons_ne_nil part []) hdone
  rw [locate?, hleft] at h
  cases part with
  | up =>
    rw [resolveFrom_up] at h
    exact Or.inl (Option.some.inj h).symm
  | name n =>
    rw [resolveFrom_name false left (Or.inl rfl)] at h
    exact Or.inr ⟨n, (Option.some.inj h).symm⟩

/-- One directory is there already, or is made where the parts lead to nothing. -/
theorem ensureDirectory_eq_ok {t t' : Tree} {mode : Nat} {parts : Location}
    (h : t.ensureDirectory mode parts = .ok t') :
    ∃ l, t.locate? true parts = some l ∧
      ((∃ e, t.get? l = some e ∧ e.isDirectory ∧ t' = t) ∨
        t.get? l = none ∧ t' = t.set l (.directory mode)) := by
  unfold ensureDirectory at h
  cases hloc : t.locate? true parts with
  | none => simp [hloc] at h
  | some l =>
    simp only [hloc] at h
    refine ⟨l, rfl, ?_⟩
    cases hget : t.get? l with
    | some e =>
      simp only [hget] at h
      split at h
      · rename_i he
        exact Or.inl ⟨e, rfl, he, (Except.ok.inj h).symm⟩
      · cases h
    | none =>
      simp only [hget] at h
      exact Or.inr ⟨rfl, (Except.ok.inj h).symm⟩

theorem ensureDirectory_changes {t t' : Tree} {mode : Nat} {done : Location} {part : Part}
    {d : Location} (hparts : ∀ p ∈ done ++ [part], p.Spelled) (hdone : t.locate? true done = some d)
    (hdir : t.isDirectoryAt d) (h : t.ensureDirectory mode (done ++ [part]) = .ok t') :
    Changes t (t.directoryMade (done ++ [part])) t' ∧
      ∃ l, t'.locate? true (done ++ [part]) = some l ∧ t'.isDirectoryAt l := by
  unfold directoryMade
  obtain ⟨l, hloc, ⟨e, hget, he, rfl⟩ | ⟨hget, rfl⟩⟩ := ensureDirectory_eq_ok h
  · simp only [hloc, hget]
    refine ⟨.nil t', l, rfl, ?_⟩
    by_cases hl : l = []
    · exact isDirectoryAt_iff.2 (Or.inl hl)
    · exact isDirectoryAt_iff.2 (Or.inr ⟨e, by rwa [← get?_of_ne_nil t' hl], he⟩)
  · simp only [hloc, hget]
    -- A new directory is no link, so the path leads where it led, and now there is something there.
    refine ⟨(Change.directory (locate?_proper hparts hloc) hget fun hlinked => ?_).changes, l, ?_, ?_⟩
    · exact beside_of_locate? hdone hdir (by simpa using hlinked)
    · rw [locate?_congr fun k _ => linkAt_set_directory hget mode k, hloc]
    · refine isDirectoryAt_iff.2 (Or.inr ⟨.directory mode, ?_, rfl⟩)
      rw [entries_set t (ne_nil_of_get?_eq_none hget), if_pos rfl]

end Tree

/-- The tree that a computation leaves, whether it succeeds or not. -/
def Edit.left {α : Type} (x : Edit α) (t : Tree) : Tree :=
  match x t with
  | .ok _ t' => t'
  | .error _ t' => t'

theorem Operation.after_eq_left (op : Operation) (t : Tree) : op.after t = op.run.left t := by
  unfold Operation.after Edit.left
  cases op.run t <;> rfl

namespace Tree

/-- A change that happens wholly or not at all. -/
theorem left_change_changes {t : Tree} {made : List Made} {f : Tree → Except Failure Tree}
    (hok : ∀ t', f t = .ok t' → Changes t made t') (herror : ∀ e, f t = .error e → made = []) :
    Changes t made ((Edit.change f).left t) := by
  unfold Edit.left Edit.change
  cases hf : f t with
  | ok t' => exact hok t' hf
  | error e =>
    rw [herror e hf]
    exact .nil t

/-- Directories are made one after the other, each from the directory that the path led to before. -/
theorem left_ensureDirectories_changes {t : Tree} {mode : Nat} {done : Location} {parts : List Part}
    {d : Location} (hspelled : ∀ p ∈ done ++ parts, p.Spelled) (hdone : t.locate? true done = some d)
    (hdir : t.isDirectoryAt d) :
    Changes t (t.directoriesMade mode done parts)
      ((Edit.ensureDirectories mode done parts).left t) := by
  induction parts generalizing t done d with
  | nil => exact .nil t
  | cons part rest ih =>
    rw [List.append_cons] at hspelled
    have hnext : ∀ p ∈ done ++ [part], p.Spelled :=
      fun p hp => hspelled p (List.mem_append_left rest hp)
    unfold Edit.left Edit.ensureDirectories
    rw [directoriesMade]
    cases hstep : t.ensureDirectory mode (done ++ [part]) with
    | error e =>
      simp only [bind, EStateM.bind, Edit.change, hstep]
      exact .nil t
    | ok t' =>
      simp only [bind, EStateM.bind, Edit.change, hstep]
      -- `done` leads to a directory at every step: that is what the next one is made beside.
      obtain ⟨hfirst, l, hloc, hl⟩ := ensureDirectory_changes hnext hdone hdir hstep
      exact hfirst.append (ih hspelled hloc hl)

/-- An operation makes changes, and the directories and hard links that `made` says. -/
theorem after_changes (t : Tree) (op : Operation) : Changes t (op.made t) (op.after t) := by
  rw [Operation.after_eq_left]
  cases op with
  | makeDirectories path mode =>
    exact left_ensureDirectories_changes (d := []) (fun _ => Path.spelled_of_mem_parts) rfl
      (isDirectoryAt_iff.2 (Or.inl rfl))
  | writeFile path contents mode =>
    exact left_change_changes (fun _ => writeFile_changes) fun _ _ => rfl
  | symlink target link =>
    exact left_change_changes
      (fun _ => insertNew_changes (fun _ => Path.spelled_of_mem_parts) (by simp)) fun _ _ => rfl
  | hardlink source link =>
    exact left_change_changes (fun _ => hardlink_changes) fun _ => linkMade_of_error
  | makeDevice path mode major minor =>
    exact left_change_changes
      (fun _ => insertNew_changes (fun _ => Path.spelled_of_mem_parts) (by simp)) fun _ _ => rfl
  | chmod path mode =>
    exact left_change_changes
      (fun _ => attributes_changes (attributeChange_withMode mode)) fun _ _ => rfl
  | chown path owner =>
    exact left_change_changes
      (fun _ => attributes_changes (attributeChange_withOwner owner)) fun _ _ => rfl

theorem run_changes (t : Tree) (ops : List Operation) :
    Changes t (t.madeBy ops) (t.run ops) := by
  induction ops generalizing t with
  | nil => exact .nil t
  | cons op rest ih => exact (after_changes t op).append (ih (op.after t))

end Tree

end ImageLayer
