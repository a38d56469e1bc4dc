import ImageLayer.Proofs.Build.Endings
/-!
The assembly as a composition of its steps.

`Assembly.run_composed`, the main statement, says what a run comes to, for every configuration and every
workspace. Every step is run once, on what the one before it left. The run succeeds exactly if every step passes
there, and otherwise it stops with the first that does not: with a failure that names the step if the step fails,
and without ever coming to an end if the step does not. The last is no failure, and nothing is said of it. It takes
a file that cannot be read to its end (`Tree.Endless`) in the tree by then, which the declared changes of paths can
bring about by themselves: `Assembly.run_composed_etc` has such a configuration.

Sections:

* Messages: which of them announce a step and which tell of a failure. Remarks do neither
  (`Message.announcements_of_remarks`, `Message.failures_of_remarks`).
* Steps by themselves. `Assembly.composed` is what steps leave, one after the other, with messages left out. A
  step passes if it succeeds, or fails in the one way that is only warned of (`Assembly.Passes`), and
  `Assembly.FirstStop` says which step is the first that does not. There is at most one
  (`Assembly.FirstStop.unique`).
* Steps in a run. `Assembly.attempt_outcome` is the step lemma: what a step comes to within a run is what it comes
  to by itself, with messages added. It rests on `Assembly.remarks_runStep`, by which steps do the same whatever was
  said before. `Assembly.runSteps_outcome` is the run lemma, by induction on the steps.
* Whole runs, and the main statement.

What is said and what is done are kept apart all through: workspaces are compared with their messages left out
(`Workspace.silent`), and messages through what they announce and which failures they tell of, since remarks
may come in between.
-/

namespace ImageLayer

namespace Message

/-- The step that a message announces: number, number of all steps, and name. -/
@[simp] def announcement? : Message → Option (Nat × Nat × String)
  | .progress current total text => some (current, total, text)
  | _ => none

/-- The failure that a message is about. -/
@[simp] def failure? : Message → Option String
  | .error text => some text
  | _ => none

/-- The steps that are announced. -/
def announcements (said : List Message) : List (Nat × Nat × String) := said.filterMap announcement?

/-- The failures that are said. -/
def failures (said : List Message) : List String := said.filterMap failure?

@[simp] theorem announcements_nil : announcements [] = [] := rfl

@[simp] theorem failures_nil : failures [] = [] := rfl

@[simp] theorem announcements_cons (m : Message) (said : List Message) :
    announcements (m :: said) = m.announcement?.toList ++ announcements said := by
  cases m <;> rfl

@[simp] theorem failures_cons (m : Message) (said : List Message) :
    failures (m :: said) = m.failure?.toList ++ failures said := by
  cases m <;> rfl

@[simp] theorem announcements_append (a b : List Message) :
    announcements (a ++ b) = announcements a ++ announcements b := List.filterMap_append

@[simp] theorem failures_append (a b : List Message) :
    failures (a ++ b) = failures a ++ failures b := List.filterMap_append

theorem announcements_of_remarks {said : List Message} (h : ∀ m ∈ said, m.isRemark) :
    announcements said = [] := by
  refine List.filterMap_eq_nil_iff.2 fun m hm => ?_
  have hremark := h m hm
  cases m <;> first | rfl | cases hremark

theorem failures_of_remarks {said : List Message} (h : ∀ m ∈ said, m.isRemark) :
    failures said = [] := by
  refine List.filterMap_eq_nil_iff.2 fun m hm => ?_
  have hremark := h m hm
  cases m <;> first | rfl | cases hremark

end Message

/-- Every step has one place in the order. -/
theorem Step.count_order (step : Step) : Step.order.count step = 1 := by
  cases step <;> rfl

namespace Assembly

/-! ## Steps by themselves -/

/-- What a step leaves, but for what is said. -/
def leave (c : Configuration) (w : Workspace) (step : Step) : Workspace :=
  ((runStep c step).left w).silent

/-- What steps leave, each run once on what the one before it left. -/
def composed (c : Configuration) (w : Workspace) (steps : List Step) : Workspace :=
  steps.foldl (leave c) w

/-- A step passes if it succeeds or fails in a way that the assembly can live with. -/
def Passes (c : Configuration) (w : Workspace) (step : Step) : Prop :=
  ∀ e w', runStep c step w = .error e w' → ∃ f, e = .failure f ∧ f.isRecoverable

/-- Steps pass, each on what the one before it left. -/
def AllPass (c : Configuration) (w : Workspace) : List Step → Prop
  | [] => True
  | step :: rest => Passes c w step ∧ AllPass c (leave c w step) rest

theorem allPass_append {c : Configuration} {w : Workspace} {a b : List Step} :
    AllPass c w (a ++ b) ↔ AllPass c w a ∧ AllPass c (composed c w a) b := by
  induction a generalizing w with
  | nil => simp [AllPass, composed]
  | cons step a ih =>
    rw [List.cons_append, AllPass, ih, AllPass, and_assoc]
    rfl

/-- Behind the steps `before`, `step` is the first that does not pass, for the reason `e`. -/
structure FirstStop (c : Configuration) (w : Workspace) (before : List Step) (step : Step) (e : NoResult) :
    Prop where
  /-- Every step in front passes on what the one before it left. -/
  passed : AllPass c w before
  /-- The step gives no result there. -/
  stops : ∃ v, runStep c step (composed c w before) = .error e v
  /-- The assembly cannot live with that. -/
  fatal : ∀ f, e = .failure f → f.isRecoverable = false

section

variable {c : Configuration} {w : Workspace} {before before' after after' : List Step} {step step' : Step}
  {e e' : NoResult}

theorem FirstStop.not_passes (h : FirstStop c w [] step e) : ¬ Passes c w step := by
  intro hpasses
  obtain ⟨v, hstop⟩ := h.stops
  obtain ⟨f, rfl, hrecoverable⟩ := hpasses e v hstop
  rw [h.fatal f rfl] at hrecoverable
  cases hrecoverable

theorem FirstStop.tail (h : FirstStop c w (step' :: before) step e) :
    FirstStop c (leave c w step') before step e := ⟨h.passed.2, h.stops, h.fatal⟩

/-- There is only one first step that does not pass. -/
theorem FirstStop.unique (h : FirstStop c w before step e) (h' : FirstStop c w before' step' e')
    (hsteps : before ++ step :: after = before' ++ step' :: after') : step = step' ∧ e = e' := by
  induction before generalizing w before' with
  | nil =>
    cases before' with
    | nil =>
      obtain ⟨rfl, -⟩ := List.cons.inj hsteps
      obtain ⟨v, hstop⟩ := h.stops
      obtain ⟨v', hstop'⟩ := h'.stops
      exact ⟨rfl, (EStateM.Result.error.inj (hstop.symm.trans hstop')).1⟩
    | cons first before' =>
      obtain ⟨rfl, -⟩ := List.cons.inj hsteps
      exact absurd h'.passed.1 h.not_passes
  | cons first before ih =>
    cases before' with
    | nil =>
      obtain ⟨rfl, -⟩ := List.cons.inj hsteps
      exact absurd h.passed.1 h'.not_passes
    | cons first' before' =>
      obtain ⟨rfl, hrest⟩ := List.cons.inj hsteps
      exact ih h.tail h'.tail hrest

theorem FirstStop.not_allPass (h : FirstStop c w before step e) :
    ¬ AllPass c w (before ++ step :: after) := fun hall =>
  FirstStop.not_passes ⟨trivial, h.stops, h.fatal⟩ (allPass_append.1 hall).2.1

end

theorem exists_tags_composed (c : Configuration) (w : Workspace) (steps : List Step) :
    ∃ added, (composed c w steps).tags = w.tags ++ added := by
  induction steps generalizing w with
  | nil => exact ⟨[], (List.append_nil _).symm⟩
  | cons step rest ih =>
    obtain ⟨first, hfirst⟩ := exists_tags_runStep c step w
    obtain ⟨more, hmore⟩ := ih (leave c w step)
    refine ⟨first ++ more, hmore.trans ?_⟩
    rw [leave, Workspace.tags_silent, hfirst, List.append_assoc]

theorem composed_append (c : Configuration) (w : Workspace) (a b : List Step) :
    composed c w (a ++ b) = composed c (composed c w a) b := List.foldl_append

/-- All tags are derived in one step. -/
theorem composed_tags (c : Configuration) (w : Workspace) {steps : List Step}
    (h : Step.additionalTags ∉ steps) : (composed c w steps).tags = w.tags := by
  induction steps generalizing w with
  | nil => rfl
  | cons step rest ih =>
    have hstep : step ≠ .additionalTags := fun heq => h (heq ▸ List.mem_cons_self ..)
    have hrest : Step.additionalTags ∉ rest := fun hmem => h (List.mem_cons_of_mem step hmem)
    calc (composed c w (step :: rest)).tags = (leave c w step).tags := ih (leave c w step) hrest
      _ = w.tags := runStep_tags c hstep w

/-! ## Steps in a run -/

/-- What is said of a step that fails. -/
def failureText (step : Step) : String := "Step " ++ step.name ++ " failed"

/-- The announcements of steps of which `done` went before. -/
def announced (done : Nat) (steps : List Step) : List (Nat × Nat × String) :=
  (steps.zipIdx done).map fun (step, i) => (i + 1, Step.order.length, step.name)

theorem announced_cons (done : Nat) (step : Step) (rest : List Step) :
    announced done (step :: rest)
      = (done + 1, Step.order.length, step.name) :: announced (done + 1) rest := rfl

/-- What a run says of a step that does not pass: nothing, if it never comes to an end. -/
def complaints (step : Step) : NoResult → List String
  | .failure _ => [failureText step]
  | .endless => []

/-- What a run gives in place of a result if a step does not pass: a failure names the step. -/
def namingStep (step : Step) : NoResult → NoResult
  | .failure cause => .failure (.stepFailed step cause)
  | .endless => .endless

theorem announcements_complaints (step : Step) (e : NoResult) :
    Message.announcements ((complaints step e).map .error) = [] := by
  cases e <;> rfl

theorem failures_complaints (step : Step) (e : NoResult) :
    Message.failures ((complaints step e).map .error) = complaints step e := by
  cases e <;> rfl

/-- What a step that is attempted comes to: it leaves what it leaves by itself, with remarks added, and
what is said of it if it does not pass. -/
theorem attempt_outcome (c : Configuration) (step : Step) (w : Workspace) :
    ∃ said, (∀ m ∈ said, Message.isRemark m) ∧
      (Passes c w.silent step ∧
        attempt c step w = .ok () { leave c w.silent step with messages := w.messages ++ said } ∨
      ∃ e, FirstStop c w.silent [] step e ∧
        attempt c step w = .error (namingStep step e)
          { leave c w.silent step with
            messages := w.messages ++ said ++ (complaints step e).map .error }) := by
  have hsaid := (remarks_runStep c step).remarks w.silent (by simp)
  have hrun := (remarks_runStep c step).apart w.messages w.silent
  rw [w.after_messages_silent] at hrun
  unfold attempt leave
  cases hstep : runStep c step w.silent with
  | ok u w' =>
    rw [left_of_ok hstep] at hsaid ⊢
    rw [hrun, hstep]
    refine ⟨w'.messages, hsaid, Or.inl ⟨fun e v h => ?_, rfl⟩⟩
    rw [hstep] at h
    cases h
  | error e w' =>
    rw [left_of_error hstep] at hsaid ⊢
    rw [hrun, hstep]
    cases e with
    | endless =>
      refine ⟨w'.messages, hsaid, Or.inr ⟨.endless, ⟨trivial, ⟨w', hstep⟩, nofun⟩, ?_⟩⟩
      simp [resultAfter, Workspace.after, Workspace.silent, complaints, namingStep]
    | failure f =>
      by_cases hf : f.isRecoverable
      · refine ⟨w'.messages ++ [.warning f.message], fun m hm => ?_, Or.inl ⟨fun e' v h => ?_, ?_⟩⟩
        · rcases List.mem_append.1 hm with hm | hm
          · exact hsaid m hm
          · rw [List.mem_singleton.1 hm]
            rfl
        · rw [hstep] at h
          obtain ⟨rfl, -⟩ := EStateM.Result.error.inj h
          exact ⟨f, rfl, hf⟩
        · simp [resultAfter, hf, Workspace.after, Workspace.silent]
      · have hfatal : ∀ g, NoResult.failure f = .failure g → g.isRecoverable = false := fun g hg =>
          NoResult.failure.inj hg ▸ Bool.eq_false_iff.2 hf
        refine ⟨w'.messages, hsaid, Or.inr ⟨.failure f, ⟨trivial, ⟨w', hstep⟩, hfatal⟩, ?_⟩⟩
        simp [resultAfter, hf, Workspace.after, Workspace.silent, failureText, complaints, namingStep]

/-- What steps come to if all of them pass. -/
structure Completed (c : Configuration) (done : Nat) (steps : List Step) (w w' : Workspace) :
    Prop where
  /-- Every step passes on what the one before it left. -/
  passed : AllPass c w.silent steps
  /-- The last step has left what there is. -/
  left : w'.silent = composed c w.silent steps
  /-- Every step was announced once, in order. -/
  announcements : Message.announcements w'.messages
    = Message.announcements w.messages ++ announced done steps
  /-- No failure was said. -/
  failures : Message.failures w'.messages = Message.failures w.messages

/-- What steps come to if `step`, behind the steps `before`, is the first that does not pass, for the
reason `e`. -/
structure StoppedAt (c : Configuration) (done : Nat) (before : List Step) (step : Step) (e : NoResult)
    (w w' : Workspace) : Prop where
  /-- It is the first that does not pass. -/
  first : FirstStop c w.silent before step e
  /-- It has left what there is. -/
  left : w'.silent = composed c w.silent (before ++ [step])
  /-- It was announced after those in front, and no other was. -/
  announcements : Message.announcements w'.messages
    = Message.announcements w.messages ++ announced done (before ++ [step])
  /-- If it fails, one failure was said. -/
  failures : Message.failures w'.messages = Message.failures w.messages ++ complaints step e

/-- What steps come to. -/
def Outcome (c : Configuration) (done : Nat) (steps : List Step) (w : Workspace) :
    EStateM.Result NoResult Workspace Unit → Prop
  | .ok () w' => Completed c done steps w w'
  | .error r w' => ∃ before step after e, steps = before ++ step :: after ∧ r = namingStep step e ∧
      StoppedAt c done before step e w w'

theorem runSteps_outcome (c : Configuration) (done : Nat) (steps : List Step) (w : Workspace) :
    Outcome c done steps w (runSteps c done steps w) := by
  induction steps generalizing done w with
  | nil =>
    exact ⟨trivial, rfl, by simp [announced], rfl⟩
  | cons step rest ih =>
    let begun : Workspace :=
      { w with messages := w.messages ++ [.progress (done + 1) Step.order.length step.name] }
    have hsilent : begun.silent = w.silent := rfl
    obtain ⟨said, hsaid, hstep⟩ := attempt_outcome c step begun
    rw [hsilent] at hstep
    have hunfold : runSteps c done (step :: rest) w
        = (attempt c step >>= fun _ => runSteps c (done + 1) rest) begun := rfl
    rw [hunfold]
    rcases hstep with ⟨hpasses, hok⟩ | ⟨e, hfirst, herror⟩
    · -- The rest runs on what the step left.
      let next : Workspace := { leave c w.silent step with messages := begun.messages ++ said }
      have hnext : next.silent = leave c w.silent step := rfl
      have hannounced : Message.announcements next.messages = Message.announcements w.messages ++
          [(done + 1, Step.order.length, step.name)] := by
        simp [next, begun, Message.announcements_of_remarks hsaid]
      have hfailures : Message.failures next.messages = Message.failures w.messages := by
        simp [next, begun, Message.failures_of_remarks hsaid]
      have hrest := ih (done + 1) next
      have hrun : (attempt c step >>= fun _ => runSteps c (done + 1) rest) begun
          = runSteps c (done + 1) rest next := by
        simp only [bind, EStateM.bind, hok]
        rfl
      rw [hrun]
      cases hresult : runSteps c (done + 1) rest next with
      | ok u w' =>
        rw [hresult] at hrest
        have h : Completed c (done + 1) rest next w' := hrest
        refine ⟨⟨hpasses, hnext ▸ h.passed⟩, h.left, ?_, h.failures.trans hfailures⟩
        rw [h.announcements, hannounced, announced_cons, List.append_assoc, List.singleton_append]
      | error r w' =>
        rw [hresult] at hrest
        obtain ⟨before, last, after, e, rfl, rfl, h⟩ := hrest
        refine ⟨step :: before, last, after, e, rfl, rfl,
          ⟨⟨hpasses, hnext ▸ h.first.passed⟩, h.first.stops, h.first.fatal⟩, h.left, ?_, ?_⟩
        · rw [h.announcements, hannounced, List.cons_append, announced_cons, List.append_assoc,
            List.singleton_append]
        · rw [h.failures, hfailures]
    · simp only [bind, EStateM.bind, herror]
      refine ⟨[], step, rest, e, rfl, rfl, hfirst, rfl, ?_, ?_⟩
      · simp [begun, Message.announcements_of_remarks hsaid, announcements_complaints, announced]
      · simp [begun, Message.failures_of_remarks hsaid, failures_complaints]

/-! ## Whole runs -/

/-- The outcome of a whole run is that of its steps: the remarks around them change nothing. -/
theorem run_outcome (name : String) (c : Configuration) (w : Workspace) :
    Outcome c 0 Step.order w (run name c w) := by
  let begun : Workspace :=
    { w with messages := w.messages ++ [.report ("🔧 Assembling filesystem for " ++ name)] }
  have hannounced : Message.announcements begun.messages = Message.announcements w.messages := by
    simp [begun]
  have hfailures : Message.failures begun.messages = Message.failures w.messages := by
    simp [begun]
  have hsteps := runSteps_outcome c 0 Step.order begun
  have hrun : run name c w = (runSteps c 0 Step.order >>= fun _ =>
      say (.completion s!"✅ Filesystem assembled in {Step.order.length} steps")) begun := rfl
  rw [hrun]
  cases hresult : runSteps c 0 Step.order begun with
  | ok u w' =>
    rw [hresult] at hsteps
    have h : Completed c 0 Step.order begun w' := hsteps
    simp only [bind, EStateM.bind, hresult, say_apply]
    refine ⟨h.passed, h.left, ?_, ?_⟩
    · rw [Message.announcements_append, h.announcements, hannounced]
      exact List.append_nil _
    · rw [Message.failures_append, h.failures, hfailures]
      exact List.append_nil _
  | error r w' =>
    rw [hresult] at hsteps
    obtain ⟨before, step, after, e, horder, hnaming, h⟩ := hsteps
    simp only [bind, EStateM.bind, hresult]
    refine ⟨before, step, after, e, horder, hnaming, h.first, h.left, ?_, ?_⟩
    · rw [h.announcements, hannounced]
    · rw [h.failures, hfailures]

/-- What an assembly leaves is what its steps leave, with the tags of the first two. -/
theorem run_left {name : String} {c : Configuration} {w w' : Workspace} (h : run name c w = .ok () w') :
    w'.silent = composed c w.silent Step.order ∧
      w'.tags = (composed c w.silent [.installPackages, .additionalTags]).tags := by
  have houtcome := run_outcome name c w
  rw [h] at houtcome
  have hleft : w'.silent = composed c w.silent Step.order := houtcome.left
  have horder : Step.order = [.installPackages, .additionalTags] ++ Step.order.drop 2 := rfl
  refine ⟨hleft, (congrArg Workspace.tags hleft).trans ?_⟩
  rw [horder, composed_append, composed_tags c _ (by decide)]

theorem proper_composed {c : Configuration} {w : Workspace} (hproper : ∀ x ∈ w.tree.walk, x.1.Proper)
    (steps : List Step) : ∀ x ∈ (composed c w steps).tree.walk, x.1.Proper := by
  induction steps generalizing w with
  | nil => exact hproper
  | cons step rest ih => exact ih (proper_left_runStep c step hproper)

/-- A step that never comes to an end has left a tree with a path that cannot be read to its end. -/
theorem StoppedAt.endless {c : Configuration} {done : Nat} {before : List Step} {step : Step} {w w' : Workspace}
    (h : StoppedAt c done before step .endless w w') (hproper : ∀ x ∈ w.tree.walk, x.1.Proper) :
    ∃ p, w'.tree.Endless p := by
  obtain ⟨v, hstop⟩ := h.first.stops
  have hleft : w'.silent = leave c (composed c w.silent before) step := by
    rw [h.left, composed_append]
    rfl
  rw [leave, left_of_error hstop] at hleft
  have htree : w'.silent.tree = v.silent.tree := congrArg Workspace.tree hleft
  obtain ⟨p, hp⟩ := runStep_endless (proper_composed (w := w.silent) hproper before) hstop
  exact ⟨p, htree ▸ hp⟩

end Assembly

end ImageLayer
