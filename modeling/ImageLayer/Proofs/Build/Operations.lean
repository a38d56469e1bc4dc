import ImageLayer.Proofs.Build.Steps
import ImageLayer.Proofs.Pass.Additions
/-!
The operations that the steps of the assembly perform.

A step of the assembly is a program, and what it does to a tree it does by operations on paths. Which of them it
may perform is declared for each step here, by `Step.Performs`, from what is configured and from the tree that
the operation finds. `Assembly.runStep_reaches` says that the declaration is right: every step makes of a tree
what such operations, one after the other, make of it, whether it succeeds, fails or never comes to an end. So
what a step can do to an entry is read off the operations, without looking at the step again (`Step.run_get?`).

Sections:

* The passes. There is one lemma for each, and their shape is that of the passes: reading does nothing, an
  operation is an operation, and what is built from computations within a relation stays within it (`Within`).
  The relation is that of being reached by permitted operations (`Reaches`), which is a preorder.
* The steps, which are passes with messages around them. A relation between trees is made one between workspaces
  (`Workspace.OfTrees`).
* What operations of a step do to an entry. Of all operations only writing a file changes contents, and only two
  change permissions or owner. `Step.MayRewrite` names the paths that a step may write to, and `Performs.reach`
  says that a step writes to nothing else unless the path names nothing.

For most steps the tree that an operation finds does not matter. It does for the file that identifies the
operating system, which is written only if nothing is there: that the path names nothing is part of what the
step may do, and an entry that was there before cannot be what the operation writes to. The attributes of
installed paths are taken from the database as the step found it, which is why `Step.Performs` speaks of the
tree at the start too.
-/

namespace ImageLayer

open ImageLayer.Tree

/-- The path of what is below a directory under the given names. -/
def Path.below (directory : Path) (names : List Name) : Path :=
  names.foldl (fun p name => p.join ⟨name⟩) directory

theorem Path.below_concat (directory : Path) (names : List Name) (name : Name) :
    directory.below (names ++ [name]) = (directory.below names).join ⟨name⟩ := by
  simp [below]

/-- The operation of a change on its path, but for setting permissions and owner. -/
def PathChange.operation? (c : PathChange) : Option Operation :=
  let p := Path.ofString c.path
  match c.kind with
  | .directory => some (.makeDirectories p c.permissions)
  | .emptyFile => some (.writeFile p [] c.permissions)
  | .hardlink => c.target?.map fun source => .hardlink (.ofString source) p
  | .symlink => c.target?.map fun target => .symlink (.ofString target) p
  | .permissions => none

/-- The operations that set the permissions and the owner of a path as a change declares them. -/
def PathChange.attributing (c : PathChange) (p : Path) : List Operation :=
  [.chmod p c.permissions, .chown p c.owner]

/-- That a step which starts in the tree `start` may perform an operation which finds the tree `found`. -/
def Step.Performs (c : Configuration) (start : Tree) (step : Step) (found : Tree) (op : Operation) :
    Prop :=
  match step with
  | .installPackages =>
    ∃ packages, start.installedPackages = .ok packages ∧ ∃ package ∈ packages, ∃ p ∈ package.paths,
      ∃ a, p.attributes = some a ∧ op ∈ [.chmod p.path a.mode, .chown p.path a.owner]
  | .additionalTags => False
  | .mutateAccounts =>
    op = .makeDirectories (.ofString "etc") 0o755 ∨
      (∃ file ∈ [AccountFile.groups, AccountFile.users], ∃ contents,
        op = .writeFile (.ofString file) contents 0o644) ∨
      ∃ u ∈ c.accounts.users, op ∈ [.makeDirectories (.ofString u.effectiveHome) 0o755,
        .chown (.ofString u.effectiveHome) ⟨u.uid, u.effectiveGid⟩]
  | .mutatePaths =>
    ∃ change ∈ c.paths, change.operation? = some op ∨
      ∃ names, (names = [] ∨ change.recursive) ∧
        op ∈ change.attributing ((Path.ofString change.path).below names)
  | .generateOsRelease => Edit.WritesOsRelease c.osRelease found op
  | .writeSupervisionTree =>
    ∃ service ∈ c.services.toList, op ∈ [.makeDirectories (Service.directoryOf service.1) 0o755,
      .writeFile (Service.scriptOf service.1) (Bytes.ofString (Service.script service.2)) 0o755]
  | .installBusyboxLinks =>
    ∃ p, op = .makeDirectories p 0o755 ∨ op = .symlink Applet.binary p
  | .installLdconfigLinks =>
    ∃ (directory : Path) (soname name : String),
      op = .symlink (.ofString name) (directory.join (.ofString soname))
  | .installCharDevices =>
    op = .makeDirectories Device.directory 0o755 ∨
      ∃ device ∈ Device.all, op = .makeDevice device.1 0o666 device.2.1 device.2.2

/-! ## The passes -/

namespace Edit

variable {permitted : Tree → Operation → Prop}

theorem applyRecorded_within (package : String) {p : InstalledPath}
    (h : ∀ t a, p.attributes = some a →
      ∀ op ∈ [Operation.chmod p.path a.mode, .chown p.path a.owner], permitted t op) :
    Within (Reaches permitted) (applyRecorded package p) := by
  unfold applyRecorded
  split
  · exact within_pure ()
  · rename_i a ha
    refine (within_ask _).bind fun _ => ?_
    exact (Operation.within_run (.chmod p.path a.mode) fun t => h t a ha _ (by simp)).bind fun _ =>
      Operation.within_run (.chown p.path a.owner) fun t => h t a ha _ (by simp)

theorem applyAllRecorded_reaches (c : Configuration) (t : Tree) :
    Reaches (Step.Performs c t .installPackages) t (applyAllRecorded.left t) := by
  rw [applyAllRecorded, left_bind, consult]
  cases hinstalled : t.installedPackages with
  | error e => exact refl_of _ t
  | ok packages =>
    refine related_left (Within.forM _ fun package hpackage => Within.forM _ fun p hp => ?_) t
    exact applyRecorded_within _ fun found a ha op hop =>
      ⟨packages, hinstalled, package, hpackage, p, hp, a, ha, hop⟩

theorem mergeRecords_within {file : String} (added : List String)
    (h : ∀ t contents, permitted t (.writeFile (.ofString file) contents 0o644)) :
    Within (Reaches permitted) (mergeRecords file added) := by
  unfold mergeRecords readTextIfPresent
  refine Within.bind (within_get.bind fun t => Within.ite ?_ (within_pure "")) fun contents => ?_
  · exact (within_inContext (within_consult _) _).bind fun _ => within_pure _
  · exact within_inContext (Operation.within_run (.writeFile _ _ 0o644) fun t => h t _) _

theorem mergeAccounts_within (c : Configuration) (start : Tree) :
    Within (Reaches (Step.Performs c start .mutateAccounts)) (mergeAccounts c.accounts) := by
  unfold mergeAccounts
  refine Within.ite (within_pure ()) ?_
  refine Within.bind (Operation.within_run (.makeDirectories (.ofString "etc") 0o755)
    fun t => Or.inl rfl) fun _ => ?_
  refine (mergeRecords_within _ fun t contents => ?_).bind fun _ =>
    (mergeRecords_within _ fun t contents => ?_).bind fun _ => Within.forM _ fun u hu => ?_
  · exact Or.inr (Or.inl ⟨AccountFile.groups, by simp, contents, rfl⟩)
  · exact Or.inr (Or.inl ⟨AccountFile.users, by simp, contents, rfl⟩)
  · unfold makeHome
    refine (within_inContext (Operation.within_run
      (.makeDirectories (.ofString u.effectiveHome) 0o755) fun t => ?_) _).bind fun _ =>
      Operation.within_run (.chown (.ofString u.effectiveHome) ⟨u.uid, u.effectiveGid⟩) fun t => ?_
    · exact Or.inr (Or.inr ⟨u, hu, by simp⟩)
    · exact Or.inr (Or.inr ⟨u, hu, by simp⟩)

theorem setAttributes_within {p : Path} {change : PathChange}
    (h : ∀ t, ∀ op ∈ change.attributing p, permitted t op) :
    Within (Reaches permitted) (setAttributes p change) :=
  (Operation.within_run (.chmod p change.permissions) fun t =>
    h t _ (by simp [PathChange.attributing])).bind fun _ =>
    Operation.within_run (.chown p change.owner) fun t => h t _ (by simp [PathChange.attributing])

theorem setAttributesBelow_within {directory : Path} {change : PathChange}
    (h : ∀ t names, ∀ op ∈ change.attributing (directory.below names), permitted t op)
    (depth : Nat) (names : List Name) :
    Within (Reaches permitted) (setAttributesBelow change depth (directory.below names)) := by
  induction depth generalizing names with
  | zero => exact within_throw _
  | succ depth ih =>
    rw [setAttributesBelow]
    refine (within_ask _).bind fun found => Within.forM found fun name _ => ?_
    rw [← Path.below_concat]
    refine (within_ask _).bind fun e => Within.ite (within_pure ()) ?_
    refine (setAttributes_within fun t => h t (names ++ [name])).bind fun _ => ?_
    exact Within.ite (ih (names ++ [name])) (within_pure ())

theorem requireTarget_bind_within {change : PathChange} {f : Path → Edit Unit}
    (h : ∀ target, change.target? = some target → Within (Reaches permitted) (f (.ofString target))) :
    Within (Reaches permitted) (requireTarget change >>= f) := by
  cases htarget : change.target? with
  | none =>
    have hrun : requireTarget change >>= f = ask fun _ => .error (.sourceRequired change.kind.label) := by
      funext t
      simp [requireTarget, htarget, bind, EStateM.bind, ask]
    exact hrun ▸ within_ask _
  | some target =>
    have hrun : requireTarget change >>= f = f (.ofString target) := by
      funext t
      simp [requireTarget, htarget, bind, EStateM.bind, ask]
    exact hrun ▸ h target htarget

theorem applyToPath_within {change : PathChange}
    (hown : ∀ t op, change.operation? = some op → permitted t op)
    (hset : ∀ t, ∀ op ∈ change.attributing (.ofString change.path), permitted t op) :
    Within (Reaches permitted) (applyToPath change (.ofString change.path)) := by
  have hattributes := setAttributes_within hset
  unfold PathChange.operation? at hown
  unfold applyToPath
  cases hkind : change.kind with
  | directory =>
    simp only [hkind] at hown ⊢
    exact (Operation.within_run (.makeDirectories _ _) fun t => hown t _ rfl).bind fun _ => hattributes
  | emptyFile =>
    simp only [hkind] at hown ⊢
    exact (Operation.within_run (.writeFile _ [] _) fun t => hown t _ rfl).bind fun _ => hattributes
  | hardlink =>
    simp only [hkind] at hown ⊢
    refine requireTarget_bind_within fun source hsource => ?_
    exact (Operation.within_run (.hardlink (.ofString source) _) fun t =>
      hown t _ (by rw [hsource]; rfl)).bind fun _ => hattributes
  | symlink =>
    simp only [hkind] at hown ⊢
    refine requireTarget_bind_within fun target htarget => ?_
    exact Operation.within_run (.symlink (.ofString target) _) fun t =>
      hown t _ (by rw [htarget]; rfl)
  | permissions => exact hattributes

theorem applyChanges_within (c : Configuration) (start : Tree) :
    Within (Reaches (Step.Performs c start .mutatePaths)) (applyChanges c.paths) := by
  refine Within.forM _ fun change hchange => within_inContext ?_ _
  unfold applyChange
  refine Within.bind (applyToPath_within (fun t op hop => ?_) fun t op hop => ?_) fun _ => ?_
  · exact ⟨change, hchange, Or.inl hop⟩
  · exact ⟨change, hchange, Or.inr ⟨[], Or.inl rfl, hop⟩⟩
  · by_cases hrecursive : change.recursive
    · rw [if_pos hrecursive]
      refine (within_ask _).bind fun e => Within.ite (within_get.bind fun t => ?_) (within_pure ())
      exact setAttributesBelow_within (fun t names op hop =>
        ⟨change, hchange, Or.inr ⟨names, Or.inr hrecursive, hop⟩⟩) _ []
    · rw [if_neg hrecursive]
      exact within_pure ()

theorem writeServices_within (c : Configuration) (start : Tree) :
    Within (Reaches (Step.Performs c start .writeSupervisionTree)) (writeServices c.services) := by
  refine Within.forM _ fun service hservice => (within_ask _).bind fun _ => ?_
  refine Within.bind (Operation.within_run (.makeDirectories _ 0o755) fun t => ?_) fun _ =>
    within_inContext (Operation.within_run (.writeFile _ _ 0o755) fun t => ?_) _
  · exact ⟨service, hservice, by simp⟩
  · exact ⟨service, hservice, by simp⟩

theorem linkApplets_within (c : Configuration) (start : Tree) (installed : List InstalledPackage) :
    Within (Reaches (Step.Performs c start .installBusyboxLinks)) (linkApplets installed) := by
  refine within_get.bind fun t => Within.ite ?_ (within_pure 0)
  refine listApplets_within.bind fun applets => ?_
  refine Within.foldlM (fun made applet => Within.bind ?_ fun _ => within_pure _) 0 applets
  refine within_get.bind fun t => Within.ite (within_pure 0) ?_
  refine Within.bind ?_ fun _ => (within_inContext (Operation.within_run
    (.symlink Applet.binary applet) fun t => ⟨applet, Or.inr rfl⟩) _).bind fun _ => within_pure 1
  -- The directories are those that lead to the path of the parts but for the last.
  have hparts : (Location.path applet.parts.dropLast).parts = applet.parts.dropLast :=
    Location.parts_path fun p hp => Path.spelled_of_mem_parts (List.dropLast_subset _ hp)
  have hmake : Within (Reaches (Step.Performs c start .installBusyboxLinks))
      (makeDirectories (Location.path applet.parts.dropLast) 0o755) :=
    Operation.within_run (.makeDirectories _ _) fun t => ⟨_, Or.inl rfl⟩
  rwa [makeDirectories, hparts] at hmake

theorem linkSonames_within (c : Configuration) (start : Tree) :
    Within (Reaches (Step.Performs c start .installLdconfigLinks)) linkSonames := by
  refine Within.foldlM (fun made directory => Within.bind ?_ fun _ => within_pure _) 0 _
  refine within_get.bind fun t => Within.ite (within_pure 0) ?_
  refine (within_ask _).bind fun names => ?_
  refine (Within.mapM (sonameIn_within directory) names).bind fun found => ?_
  refine Within.foldlM (fun made found => Within.bind ?_ fun _ => within_pure _) 0 _
  refine within_get.bind fun t => Within.ite (within_pure 0) ?_
  exact (within_inContext (Operation.within_run (.symlink _ _) fun t =>
    ⟨directory, found.1, found.2, rfl⟩) _).bind fun _ => within_pure 1

theorem makeDevices_within (c : Configuration) (start : Tree) :
    Within (Reaches (Step.Performs c start .installCharDevices)) makeDevices := by
  refine Within.bind (Operation.within_run (.makeDirectories Device.directory 0o755)
    fun t => Or.inl rfl) fun _ => Within.forM _ fun device hdevice => ?_
  refine within_get.bind fun t => Within.ite (within_pure ()) (within_inContext ?_ _)
  exact Operation.within_run (.makeDevice device.1 0o666 device.2.1 device.2.2) fun t =>
    Or.inr ⟨device, hdevice, rfl⟩

end Edit

/-! ## The steps -/

/-- A relation between trees as one between the workspaces that have them. -/
def Workspace.OfTrees (R : Tree → Tree → Prop) (w w' : Workspace) : Prop := R w.tree w'.tree

instance (R : Tree → Tree → Prop) [IsPreorder Tree R] : IsPreorder Workspace (Workspace.OfTrees R) where
  refl w := refl_of R w.tree
  trans _ _ _ := trans_of R

namespace Assembly

variable {α : Type} {R : Tree → Tree → Prop}

theorem tree_left_edit (x : Edit α) (w : Workspace) : ((edit x).left w).tree = x.left w.tree := by
  unfold left edit Edit.left
  cases x w.tree <;> rfl

theorem within_edit {x : Edit α} (h : Within R x) : Within (Workspace.OfTrees R) (edit x) := by
  constructor
  · intro w a w' hok
    unfold edit at hok
    split at hok
    · rename_i hx
      obtain ⟨-, rfl⟩ := EStateM.Result.ok.inj hok
      exact h.ok hx
    · cases hok
  · intro w e w' herror
    obtain ⟨t, hx, rfl⟩ := of_edit_eq_error herror
    exact h.error hx

variable [IsPreorder Tree R]

theorem within_say (m : Message) : Within (Workspace.OfTrees R) (say m) := by
  refine ⟨fun {w u w'} h => ?_, nofun⟩
  obtain ⟨-, rfl⟩ := EStateM.Result.ok.inj h
  exact refl_of R w.tree

theorem within_reportLinks (what : String) (made : Nat) :
    Within (Workspace.OfTrees R) (reportLinks what made) :=
  Within.ite (within_say _) (within_pure ())

theorem within_addVersionTags (tagging : VersionTagging) :
    Within (Workspace.OfTrees R) (addVersionTags tagging) := by
  have hsame : ∀ w, ((addVersionTags tagging).left w).tree = w.tree := fun w => by
    rcases addVersionTags_outcome tagging w.tree w.tags with ⟨e, -, h⟩ | ⟨added, said, -, h⟩
    · rw [left_of_error (h w.messages)]
    · rw [left_of_ok (h w.messages)]
  constructor
  · intro w a w' h
    have htree : w'.tree = w.tree := left_of_ok h ▸ hsame w
    rw [Workspace.OfTrees, htree]
    exact refl_of R w.tree
  · intro w e w' h
    have htree : w'.tree = w.tree := left_of_error h ▸ hsame w
    rw [Workspace.OfTrees, htree]
    exact refl_of R w.tree

/-- A step makes of the tree what operations that it may perform make of it. -/
theorem runStep_reaches (c : Configuration) (step : Step) (w : Workspace) :
    Reaches (step.Performs c w.tree) w.tree ((runStep c step).left w).tree := by
  have hleft : ∀ {x : Assembly Unit}, Within (Workspace.OfTrees (Reaches (step.Performs c w.tree))) x →
      Reaches (step.Performs c w.tree) w.tree (x.left w).tree := by
    intro x hx
    unfold left
    cases h : x w with
    | ok a w' => exact hx.ok h
    | error e w' => exact hx.error h
  cases step with
  | installPackages =>
    rw [runStep, tree_left_edit]
    exact Edit.applyAllRecorded_reaches c w.tree
  | additionalTags => exact hleft (within_addVersionTags _)
  | mutateAccounts => exact hleft (within_edit (Edit.mergeAccounts_within c w.tree))
  | mutatePaths => exact hleft (within_edit (Edit.applyChanges_within c w.tree))
  | generateOsRelease =>
    rw [runStep, tree_left_edit]
    exact Edit.writeOsRelease_reaches c.osRelease w.tree
  | writeSupervisionTree => exact hleft (within_edit (Edit.writeServices_within c w.tree))
  | installBusyboxLinks =>
    exact hleft <| (within_edit (Edit.within_consult _)).bind fun installed =>
      (within_edit (Edit.linkApplets_within c w.tree installed)).bind fun _ => within_reportLinks ..
  | installLdconfigLinks =>
    exact hleft <| (within_edit (Edit.linkSonames_within c w.tree)).bind fun _ =>
      within_reportLinks ..
  | installCharDevices => exact hleft (within_edit (Edit.makeDevices_within c w.tree))

end Assembly

/-! ## What operations of a step do to an entry -/

namespace Step

/-- The paths to which a step may write new contents for a file that is there. -/
def MayRewrite (c : Configuration) (step : Step) (p : Path) : Prop :=
  match step with
  | .mutateAccounts => p = .ofString AccountFile.groups ∨ p = .ofString AccountFile.users
  | .mutatePaths => ∃ change ∈ c.paths, change.kind = .emptyFile ∧ p = .ofString change.path
  | .writeSupervisionTree => ∃ service ∈ c.services.toList, p = Service.scriptOf service.1
  | _ => False

/-- The steps that may change permissions and owners. -/
def attributing : List Step := [.installPackages, .mutateAccounts, .mutatePaths]

theorem operation?_written {change : PathChange} {op : Operation} {p : Path}
    (hop : change.operation? = some op) (hp : op.written? = some p) :
    change.kind = .emptyFile ∧ p = .ofString change.path := by
  unfold PathChange.operation? at hop
  cases hkind : change.kind <;> simp only [hkind] at hop
  case emptyFile =>
    obtain rfl := Option.some.inj hop
    exact ⟨rfl, (Option.some.inj hp).symm⟩
  case permissions => cases hop
  case directory =>
    obtain rfl := Option.some.inj hop
    cases hp
  all_goals
    obtain ⟨target, -, rfl⟩ := Option.map_eq_some_iff.1 hop
    cases hp

theorem attributing_written {change : PathChange} {p : Path} {op : Operation}
    (hop : op ∈ change.attributing p) : op.written? = none := by
  simp only [PathChange.attributing, List.mem_cons, List.not_mem_nil, or_false] at hop
  obtain rfl | rfl := hop <;> rfl

/-- What a step writes to is a path that it may rewrite, or names nothing; only some steps set permissions or
owners. -/
theorem Performs.reach {c : Configuration} {start found : Tree} {step : Step} {op : Operation}
    (h : step.Performs c start found op) :
    (∀ p, op.written? = some p → step.MayRewrite c p ∨ found.exists? p = false) ∧
      ∀ p, op.attributed? = some p → step ∈ attributing := by
  cases step with
  | installPackages =>
    obtain ⟨-, -, -, -, q, -, a, -, hop⟩ := h
    simp only [List.mem_cons, List.not_mem_nil, or_false] at hop
    obtain rfl | rfl := hop <;> exact ⟨nofun, fun _ _ => by simp [attributing]⟩
  | additionalTags => exact h.elim
  | mutateAccounts =>
    refine ⟨fun p hp => Or.inl ?_, fun _ _ => by simp [attributing]⟩
    obtain rfl | ⟨file, hfile, contents, rfl⟩ | ⟨u, -, hop⟩ := h
    · cases hp
    · obtain rfl := Option.some.inj hp
      simp only [List.mem_cons, List.not_mem_nil, or_false] at hfile
      exact hfile.imp (congrArg Path.ofString) (congrArg Path.ofString)
    · simp only [List.mem_cons, List.not_mem_nil, or_false] at hop
      obtain rfl | rfl := hop <;> cases hp
  | mutatePaths =>
    refine ⟨fun p hp => Or.inl ?_, fun _ _ => by simp [attributing]⟩
    obtain ⟨change, hchange, hop | ⟨names, -, hop⟩⟩ := h
    · exact ⟨change, hchange, operation?_written hop hp⟩
    · rw [attributing_written hop] at hp
      cases hp
  | generateOsRelease =>
    obtain rfl | ⟨hfree, rfl⟩ := h
    · exact ⟨nofun, nofun⟩
    · exact ⟨fun p hp => Or.inr (Option.some.inj hp ▸ hfree), nofun⟩
  | writeSupervisionTree =>
    obtain ⟨service, hservice, hop⟩ := h
    simp only [List.mem_cons, List.not_mem_nil, or_false] at hop
    obtain rfl | rfl := hop
    · exact ⟨nofun, nofun⟩
    · exact ⟨fun p hp => Or.inl ⟨service, hservice, (Option.some.inj hp).symm⟩, nofun⟩
  | installBusyboxLinks =>
    obtain ⟨q, rfl | rfl⟩ := h <;> exact ⟨nofun, nofun⟩
  | installLdconfigLinks =>
    obtain ⟨directory, soname, name, rfl⟩ := h
    exact ⟨nofun, nofun⟩
  | installCharDevices =>
    obtain rfl | ⟨device, -, rfl⟩ := h <;> exact ⟨nofun, nofun⟩

/-- Operations of a step leave an entry what it is. Where the contents of a file, permissions or an owner
differ in the end, one of them made a difference, to a path that the step may rewrite or in a step that may
set permissions and owners. -/
theorem run_get? {c : Configuration} {t : Tree} {step : Step} {ops : List Operation}
    (hops : t.Follows (step.Performs c t) ops) {l : Location} {e : Entry} (hget : t.get? l = some e) :
    ∃ e', (t.run ops).get? l = some e' ∧
      KeepsEntry
        (∃ op found p, t.Finds ops op found ∧ op.written? = some p ∧
          found.locate? true p.parts = some l ∧ step.MayRewrite c p)
        (∃ op found p, t.Finds ops op found ∧ op.attributed? = some p ∧ found.NamesInode p l ∧
          step ∈ attributing) e e' := by
  obtain ⟨e', hget', hkeeps⟩ := Tree.run_get? ops hget
  refine ⟨e', hget', hkeeps.mono ?_ ?_⟩
  · rintro ⟨op, found, p, hfinds, hp, hloc⟩
    refine ⟨op, found, p, hfinds, hp, hloc, ((hops.permitted hfinds).reach.1 p hp).resolve_right ?_⟩
    -- The entry is there when the operation comes, so that the path to it names something.
    obtain ⟨before, after, -, rfl⟩ := hfinds
    obtain ⟨e₁, hget₁, hkind⟩ := Tree.run_get? before hget
    rw [exists?_of_inode? (inode?_eq_some.2 ⟨l, e₁, hloc, hget₁, rfl⟩)]
    simp
  · rintro ⟨op, found, p, hfinds, hp, hnames⟩
    exact ⟨op, found, p, hfinds, hp, hnames, (hops.permitted hfinds).reach.2 p hp⟩

end Step

end ImageLayer
