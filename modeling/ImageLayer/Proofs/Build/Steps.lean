import ImageLayer.Build.Assemble
import ImageLayer.Proofs.Pass.Failures
/-!
What one step of the assembly does.

A step never looks at what was said before it, and what it says itself are reports and warnings
(`Assembly.Remarks`). So a run of steps can be taken apart into what they do and what is said around them,
which is how the assembly is read as a composition of its steps.

Sections:

* What is said: `Remarks` composes, and every step has it (`Assembly.remarks_runStep`). Deriving tags looks
  at the tags in between and needs a lemma of its own (`Assembly.addVersionTags_outcome`), from which
  the later sections read off what they need as well.
* Tags: they are left alone by every step but one, which adds to them (`Assembly.runStep_tags`,
  `Assembly.exists_tags_runStep`).
* Reasons for having no result: what the passes stop for is what the steps stop for, in the tree of the
  workspace (`Assembly.runStep_stops`). Two steps are set apart. The one that writes the file that identifies
  the operating system stops also where that file exists, and it has changed nothing by then
  (`Assembly.runStep_osRelease`). The one that changes paths may be recursive, and what is said of it here is
  that its failures are plain (`Assembly.runStep_fails`).

From the last section follows what the assembly relies on when it goes on after a failure: such a failure
comes from one step only, which has done nothing (`Assembly.runStep_recoverable`). Anything in the place of
the file is enough for it, also a symbolic link that goes round in a circle, as the last example shows.
-/

namespace ImageLayer

/-- Whether a message is one that steps say themselves. -/
def Message.isRemark : Message → Bool
  | .report _ | .warning _ => true
  | _ => false

namespace Workspace

/-- The workspace in which other things were said before. -/
def after (said : List Message) (w : Workspace) : Workspace :=
  { w with messages := said ++ w.messages }

/-- The workspace in which nothing was said. -/
def silent (w : Workspace) : Workspace := { w with messages := [] }

@[simp] theorem messages_silent (w : Workspace) : w.silent.messages = [] := rfl

@[simp] theorem tags_silent (w : Workspace) : w.silent.tags = w.tags := rfl

theorem after_messages_silent (w : Workspace) : w.silent.after w.messages = w := by
  simp [after, silent]

end Workspace

namespace Assembly

variable {α β : Type}

/-- The workspace that a computation leaves, whether it succeeds or not. -/
def left (x : Assembly α) (w : Workspace) : Workspace :=
  match x w with
  | .ok _ w' => w'
  | .error _ w' => w'

theorem left_of_ok {x : Assembly α} {w w' : Workspace} {a : α} (h : x w = .ok a w') :
    x.left w = w' := by
  rw [left, h]

theorem left_of_error {x : Assembly α} {w w' : Workspace} {e : NoResult} (h : x w = .error e w') :
    x.left w = w' := by
  rw [left, h]

theorem left_bind (x : Assembly α) (f : α → Assembly β) (w : Workspace) :
    (x >>= f).left w = match x w with
      | .ok a w' => (f a).left w'
      | .error _ w' => w' := by
  simp only [left, bind, EStateM.bind]
  cases x w <;> rfl

@[simp] theorem get_apply (w : Workspace) : (get : Assembly Workspace) w = .ok w w := rfl

@[simp] theorem modify_apply (f : Workspace → Workspace) (w : Workspace) :
    (modify f : Assembly Unit) w = .ok () (f w) := rfl

@[simp] theorem say_apply (m : Message) (w : Workspace) :
    say m w = .ok () { w with messages := w.messages ++ [m] } := rfl

/-- A result in a workspace in which other things were said before. -/
def resultAfter (said : List Message) :
    EStateM.Result NoResult Workspace α → EStateM.Result NoResult Workspace α
  | .ok a w => .ok a (w.after said)
  | .error e w => .error e (w.after said)

/-! ## What is said -/

/-- A computation that says reports and warnings alone, and the same whatever was said before. -/
structure Remarks (x : Assembly α) : Prop where
  /-- What was said before makes no difference. -/
  apart : ∀ said w, x (w.after said) = resultAfter said (x w)
  /-- No other message is added. -/
  remarks : ∀ w, (∀ m ∈ w.messages, m.isRemark) → ∀ m ∈ (x.left w).messages, m.isRemark

theorem remarks_pure (a : α) : Remarks (pure a) := ⟨fun _ _ => rfl, fun _ h => h⟩

theorem Remarks.bind {x : Assembly α} {f : α → Assembly β} (hx : Remarks x)
    (hf : ∀ a, Remarks (f a)) : Remarks (x >>= f) := by
  constructor
  · intro said w
    simp only [Bind.bind, EStateM.bind, hx.apart said w]
    cases x w with
    | ok a w' => exact (hf a).apart said w'
    | error e w' => rfl
  · intro w hw
    have hleft := hx.remarks w hw
    rw [left_bind]
    cases h : x w with
    | ok a w' =>
      rw [left_of_ok h] at hleft
      exact (hf a).remarks w' hleft
    | error e w' =>
      rw [left_of_error h] at hleft
      exact hleft

theorem remarks_say {m : Message} (hm : m.isRemark) : Remarks (say m) := by
  constructor
  · intro said w
    change EStateM.Result.ok () _ = EStateM.Result.ok () _
    simp [Workspace.after]
  · intro w hw m' hm'
    rcases List.mem_append.1 hm' with hm' | hm'
    · exact hw m' hm'
    · rwa [List.mem_singleton.1 hm']

theorem remarks_edit (x : Edit α) : Remarks (edit x) := by
  constructor
  · intro said w
    unfold edit
    cases h : x w.tree <;> simp [Workspace.after, resultAfter, h]
  · intro w hw
    have hmessages : ((edit x).left w).messages = w.messages := by
      unfold left edit
      cases x w.tree <;> rfl
    rwa [hmessages]

theorem remarks_reportLinks (what : String) (made : Nat) : Remarks (reportLinks what made) := by
  unfold reportLinks
  split
  · exact remarks_say rfl
  · exact remarks_pure ()

/-- Deriving tags fails where the database cannot be read, and otherwise adds tags and remarks; neither
depends on what was said before. -/
theorem addVersionTags_outcome (tagging : VersionTagging) (t : Tree) (tags : List String) :
    (∃ e, t.installedPackages = .error e ∧ ∀ messages,
        addVersionTags tagging ⟨t, tags, messages⟩ = .error e ⟨t, tags, messages⟩) ∨
      ∃ added said, (∀ m ∈ said, Message.isRemark m) ∧ ∀ messages,
        addVersionTags tagging ⟨t, tags, messages⟩ = .ok () ⟨t, tags ++ added, messages ++ said⟩ := by
  cases hpackage : tagging.package with
  | none =>
    refine Or.inr ⟨[], [], by simp, fun messages => ?_⟩
    simp [addVersionTags, hpackage, pure, EStateM.pure]
  | some name =>
    cases hinstalled : t.installedPackages with
    | error e =>
      refine Or.inl ⟨e, rfl, fun messages => ?_⟩
      simp [addVersionTags, hpackage, bind, EStateM.bind, edit, Edit.consult, hinstalled]
    | ok installed =>
      refine Or.inr ?_
      cases hfind : installed.find? (·.package.name = name) with
      | none =>
        refine ⟨[], [.warning ("Package '" ++ name ++ "' is not installed; no version tags added")],
          by simp [Message.isRemark], fun messages => ?_⟩
        simp [addVersionTags, hpackage, bind, EStateM.bind, edit, Edit.consult, hinstalled, hfind]
      | some p =>
        by_cases hadded : Version.newTags tags p.package.version tagging = []
        · refine ⟨[], [], by simp, fun messages => ?_⟩
          simp [addVersionTags, hpackage, bind, EStateM.bind, edit, Edit.consult, hinstalled, hfind,
            hadded]
        · let added := Version.newTags tags p.package.version tagging
          refine ⟨added, [.report (s!"🏷️  Added {added.length} tag(s) from " ++ name ++ " " ++
            p.package.version)], by simp [Message.isRemark], fun messages => ?_⟩
          simp [addVersionTags, hpackage, bind, EStateM.bind, edit, Edit.consult, hinstalled, hfind,
            hadded, added]

theorem remarks_addVersionTags (tagging : VersionTagging) : Remarks (addVersionTags tagging) := by
  constructor
  · rintro said ⟨t, tags, messages⟩
    rcases addVersionTags_outcome tagging t tags with ⟨e, -, h⟩ | ⟨added, more, -, h⟩
    · rw [h messages]
      exact h (said ++ messages)
    · rw [h messages]
      refine (h (said ++ messages)).trans ?_
      rw [resultAfter, Workspace.after, List.append_assoc]
  · rintro ⟨t, tags, messages⟩ hw
    rcases addVersionTags_outcome tagging t tags with ⟨e, -, h⟩ | ⟨added, more, hmore, h⟩
    · rwa [left_of_error (h messages)]
    · rw [left_of_ok (h messages)]
      intro m hm
      rcases List.mem_append.1 hm with hm | hm
      · exact hw m hm
      · exact hmore m hm

theorem remarks_runStep (c : Configuration) (step : Step) : Remarks (runStep c step) := by
  cases step with
  | additionalTags => exact remarks_addVersionTags _
  | installBusyboxLinks =>
    exact (remarks_edit _).bind fun _ => (remarks_edit _).bind fun _ => remarks_reportLinks ..
  | installLdconfigLinks => exact (remarks_edit _).bind fun _ => remarks_reportLinks ..
  | _ => exact remarks_edit _

/-! ## Tags -/

/-- A computation that leaves the tags as they are. -/
structure KeepsTags (x : Assembly α) : Prop where
  /-- The tags are those of before. -/
  tags : ∀ w, (x.left w).tags = w.tags

theorem KeepsTags.bind {x : Assembly α} {f : α → Assembly β} (hx : KeepsTags x)
    (hf : ∀ a, KeepsTags (f a)) : KeepsTags (x >>= f) := by
  refine ⟨fun w => ?_⟩
  have hfirst := hx.tags w
  rw [left_bind]
  cases h : x w with
  | ok a w' =>
    rw [left_of_ok h] at hfirst
    exact ((hf a).tags w').trans hfirst
  | error e w' =>
    rw [left_of_error h] at hfirst
    exact hfirst

theorem keepsTags_edit (x : Edit α) : KeepsTags (edit x) := by
  refine ⟨fun w => ?_⟩
  unfold left edit
  cases x w.tree <;> rfl

theorem keepsTags_reportLinks (what : String) (made : Nat) : KeepsTags (reportLinks what made) := by
  refine ⟨fun w => ?_⟩
  unfold reportLinks
  split <;> rfl

/-- All steps but one leave the tags as they are. -/
theorem runStep_tags (c : Configuration) {step : Step} (h : step ≠ .additionalTags) (w : Workspace) :
    ((runStep c step).left w).tags = w.tags := by
  have hkeeps : KeepsTags (runStep c step) := by
    cases step with
    | additionalTags => exact absurd rfl h
    | installBusyboxLinks =>
      exact (keepsTags_edit _).bind fun _ => (keepsTags_edit _).bind fun _ => keepsTags_reportLinks ..
    | installLdconfigLinks => exact (keepsTags_edit _).bind fun _ => keepsTags_reportLinks ..
    | _ => exact keepsTags_edit _
  exact hkeeps.tags w

theorem exists_tags_addVersionTags (tagging : VersionTagging) (w : Workspace) :
    ∃ added, ((addVersionTags tagging).left w).tags = w.tags ++ added := by
  rcases addVersionTags_outcome tagging w.tree w.tags with ⟨e, -, h⟩ | ⟨added, said, -, h⟩
  · exact ⟨[], by rw [left_of_error (h w.messages), List.append_nil]⟩
  · exact ⟨added, by rw [left_of_ok (h w.messages)]⟩

theorem exists_tags_runStep (c : Configuration) (step : Step) (w : Workspace) :
    ∃ added, ((runStep c step).left w).tags = w.tags ++ added := by
  by_cases h : step = .additionalTags
  · subst h
    exact exists_tags_addVersionTags c.versionTagging w
  · exact ⟨[], by rw [runStep_tags c h, List.append_nil]⟩

/-! ## Reasons for having no result -/

/-- A reason in the tree of a workspace. -/
def InTree (Q : NoResult → Tree → Prop) (e : NoResult) (w : Workspace) : Prop := Q e w.tree

variable {Q : NoResult → Tree → Prop} {S : NoResult → Workspace → Prop}

theorem of_edit_eq_error {x : Edit α} {w w' : Workspace} {e : NoResult} (h : edit x w = .error e w') :
    ∃ t, x w.tree = .error e t ∧ w' = { w with tree := t } := by
  unfold edit at h
  split at h
  · cases h
  · obtain ⟨rfl, rfl⟩ := EStateM.Result.error.inj h
    exact ⟨_, ‹_›, rfl⟩

theorem stops_edit {x : Edit α} (hx : Stops Q x) : Stops (InTree Q) (edit x) := by
  refine ⟨fun {w e w'} h => ?_⟩
  obtain ⟨t, hstop, rfl⟩ := of_edit_eq_error h
  exact hx.reason hstop

theorem stops_say (m : Message) : Stops S (say m) := ⟨nofun⟩

theorem stops_reportLinks (what : String) (made : Nat) : Stops S (reportLinks what made) :=
  Stops.ite (stops_say _) (stops_pure ())

theorem stops_installed : Stops (InTree Plainly) (edit (Edit.consult (·.installedPackages))) :=
  stops_edit (Edit.consult_stops Tree.installedPackages_plainly)

theorem stops_addVersionTags (tagging : VersionTagging) :
    Stops (InTree Plainly) (addVersionTags tagging) := by
  refine ⟨fun {w e w'} h => ?_⟩
  rcases addVersionTags_outcome tagging w.tree w.tags with ⟨e', he', h'⟩ | ⟨added, said, -, h'⟩
  · obtain ⟨rfl, rfl⟩ := EStateM.Result.error.inj ((h' w.messages).symm.trans h)
    exact Tree.installedPackages_plainly he'
  · cases (h' w.messages).symm.trans h

/-- All steps but two give no result for plain reasons alone. -/
theorem runStep_stops (c : Configuration) {step : Step} (hos : step ≠ .generateOsRelease)
    (hpaths : step ≠ .mutatePaths) : Stops (InTree Plainly) (runStep c step) := by
  cases step with
  | installPackages => exact stops_edit Edit.applyAllRecorded_stops
  | additionalTags => exact stops_addVersionTags _
  | mutateAccounts => exact stops_edit (Edit.mergeAccounts_stops _)
  | mutatePaths => exact absurd rfl hpaths
  | generateOsRelease => exact absurd rfl hos
  | writeSupervisionTree => exact stops_edit (Edit.writeServices_stops _)
  | installBusyboxLinks =>
    exact stops_installed.bind fun installed =>
      (stops_edit (Edit.linkApplets_stops installed)).bind fun _ => stops_reportLinks ..
  | installLdconfigLinks =>
    exact (stops_edit Edit.linkSonames_stops).bind fun _ => stops_reportLinks ..
  | installCharDevices => exact stops_edit Edit.makeDevices_stops

/-- Writing the file that identifies the operating system as a step. -/
theorem runStep_osRelease {c : Configuration} {w w' : Workspace} {e : NoResult}
    (h : runStep c .generateOsRelease w = .error e w') :
    Plainly e w'.tree ∨ e = .failure (.osReleasePresent OsRelease.location) ∧ w' = w := by
  obtain ⟨t, hwrite, rfl⟩ := of_edit_eq_error (x := Edit.writeOsRelease c.osRelease) h
  exact (Edit.writeOsRelease_error hwrite).imp_right fun ⟨hpresent, htree⟩ => ⟨hpresent, by rw [htree]⟩

/-- All steps but one fail plainly. -/
theorem runStep_fails (c : Configuration) {step : Step} (h : step ≠ .generateOsRelease) :
    Stops (InTree FailsPlainly) (runStep c step) := by
  by_cases hpaths : step = .mutatePaths
  · subst hpaths
    exact stops_edit (Edit.applyChanges_stops _)
  · refine (runStep_stops c h hpaths).mono fun e w hplainly f heq => ?_
    subst heq
    exact hplainly

/-- A failure that the assembly can live with comes from the step that writes the file that identifies
the operating system; it says that the file exists, and the step has changed nothing. -/
theorem runStep_recoverable {c : Configuration} {step : Step} {w w' : Workspace} {e : Failure}
    (h : runStep c step w = .error (.failure e) w') (he : e.isRecoverable) :
    step = .generateOsRelease ∧ e = .osReleasePresent OsRelease.location ∧ w' = w := by
  have not_plain : ¬ e.Plain := fun hplain => by
    rw [hplain.isRecoverable] at he
    cases he
  by_cases hstep : step = .generateOsRelease
  · subst hstep
    rcases runStep_osRelease h with hplain | ⟨hpresent, hsame⟩
    · exact absurd hplain not_plain
    · exact ⟨rfl, NoResult.failure.inj hpresent, hsame⟩
  · exact absurd ((runStep_fails c hstep).reason h e rfl) not_plain

/-- A symbolic link that leads nowhere is enough of a file to be left alone. -/
example (c : Configuration) :
    let w : Workspace := ⟨Tree.empty.insert OsRelease.location (.symlink (.ofString "gone")), [], []⟩
    runStep c .generateOsRelease w = .error (.failure (.osReleasePresent OsRelease.location)) w := by
  rfl

end Assembly

end ImageLayer
