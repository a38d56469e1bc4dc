import ImageLayer.Proofs.Build.Composition
import ImageLayer.Proofs.Build.Operations
/-!
What an assembly does to the entries of the tree that it starts with.

An assembly is given a tree in which packages have been installed, and must not lose anything in it.
`Assembly.run_keepsEntries`, the main statement, says for every configuration and every workspace that it does
not, whether the run succeeds or stops halfway: every entry is there at the end, and is of the same kind. It
says as well what may have become of it. Its contents differ only if a step wrote to a path that led to it then,
and its permissions or its owner only if a step set those of a path to its file then. A step that may do either
is known by the configuration (`Step.MayRewrite`, `Step.attributing`).

"Then" is what makes a history necessary: where a path leads may change in the course of a run, so that it
cannot be asked in the tree at the start. A history lists the steps that were run with the operations that each
of them performed, and `Assembly.Records` says that it is one: the operations are such as the step may perform
in the tree that they find, and make of this tree what the step leaves.

The proof is in three parts.

* Every list of steps has a history (`exists_records`), as each step has its operations (`runStep_reaches`).
* Along a history, entries are kept but for what the history says (`Records.get?`). This is by induction on the
  history, and each step of it is `Step.run_get?`.
* A run leaves what the steps up to some step leave (`exists_composed`), wherever it stops and for whatever
  reason.

What is kept does not depend on messages, so that workspaces are compared without them (`Workspace.silent`).
-/

namespace ImageLayer.Assembly

open ImageLayer.Tree

variable {c : Configuration} {w : Workspace} {history : List (Step × List Operation)}

/-- Steps with the operations that each performs, run one after the other: the operations are such as the
step may perform, and make of the tree what the step makes of it. -/
def Records (c : Configuration) (w : Workspace) : List (Step × List Operation) → Prop
  | [] => True
  | (step, ops) :: rest =>
    (w.tree.Follows (step.Performs c w.tree) ops ∧ (leave c w step).tree = w.tree.run ops) ∧
      Records c (leave c w step) rest

theorem exists_records (c : Configuration) (w : Workspace) (steps : List Step) :
    ∃ history : List (Step × List Operation), history.map Prod.fst = steps ∧ Records c w history := by
  induction steps generalizing w with
  | nil => exact ⟨[], rfl, trivial⟩
  | cons step rest ih =>
    obtain ⟨ops, hops, htree⟩ := runStep_reaches c step w
    obtain ⟨history, rfl, hrecords⟩ := ih (leave c w step)
    exact ⟨(step, ops) :: history, rfl, ⟨hops, htree⟩, hrecords⟩

/-- An operation that a step of a history performs, and the tree that it finds. -/
def Performed (c : Configuration) (w : Workspace) (history : List (Step × List Operation)) (step : Step)
    (op : Operation) (found : Tree) : Prop :=
  ∃ before ops after, history = before ++ (step, ops) :: after ∧
    (composed c w (before.map Prod.fst)).tree.Finds ops op found

theorem performed_head {step : Step} {ops : List Operation} {op : Operation} {found : Tree}
    (h : w.tree.Finds ops op found) : Performed c w ((step, ops) :: history) step op found :=
  ⟨[], ops, history, rfl, h⟩

theorem Performed.cons {step first : Step} {ops : List Operation} {op : Operation} {found : Tree}
    (h : Performed c (leave c w first) history step op found) :
    Performed c w ((first, ops) :: history) step op found := by
  obtain ⟨before, ops', after, rfl, hfinds⟩ := h
  exact ⟨(first, ops) :: before, ops', after, rfl, hfinds⟩

/-- That a step wrote to a path that it may rewrite, and that the path led to a location then. -/
def Rewrote (c : Configuration) (w : Workspace) (history : List (Step × List Operation)) (l : Location) :
    Prop :=
  ∃ step op found p, Performed c w history step op found ∧ op.written? = some p ∧
    found.locate? true p.parts = some l ∧ step.MayRewrite c p

/-- That one of the steps that may do so set the permissions or the owner of a path which named the inode of
the entry at a location then. -/
def Attributed (c : Configuration) (w : Workspace) (history : List (Step × List Operation))
    (l : Location) : Prop :=
  ∃ step op found p, Performed c w history step op found ∧ op.attributed? = some p ∧
    found.NamesInode p l ∧ step ∈ Step.attributing

/-- Steps leave the entries as they are but for what a history of them says. -/
theorem Records.get? (h : Records c w history) {l : Location} {e : Entry}
    (hget : w.tree.get? l = some e) :
    ∃ e', (composed c w (history.map Prod.fst)).tree.get? l = some e' ∧
      KeepsEntry (Rewrote c w history l) (Attributed c w history l) e e' := by
  induction history generalizing w e with
  | nil => exact ⟨e, hget, .refl _ _ e⟩
  | cons first rest ih =>
    obtain ⟨step, ops⟩ := first
    obtain ⟨⟨hops, htree⟩, hrest⟩ := h
    -- What the first step changed of `e`, then what the rest changed of that; either part of the history is
    -- also one of the whole.
    obtain ⟨e₁, hget₁, hfirst⟩ := Step.run_get? hops hget
    obtain ⟨e₂, hget₂, hlater⟩ := ih hrest (htree ▸ hget₁)
    refine ⟨e₂, hget₂, KeepsEntry.trans (hfirst.mono ?_ ?_) (hlater.mono ?_ ?_)⟩
    · exact fun ⟨op, found, p, hfinds, hp⟩ => ⟨step, op, found, p, performed_head hfinds, hp⟩
    · exact fun ⟨op, found, p, hfinds, hp⟩ => ⟨step, op, found, p, performed_head hfinds, hp⟩
    · exact fun ⟨step', op, found, p, hfinds, hp⟩ => ⟨step', op, found, p, hfinds.cons, hp⟩
    · exact fun ⟨step', op, found, p, hfinds, hp⟩ => ⟨step', op, found, p, hfinds.cons, hp⟩

/-- An assembly leaves what the steps up to some step leave. -/
theorem exists_composed (name : String) (c : Configuration) (w : Workspace) :
    ∃ steps, steps <+: Step.order ∧ ((run name c).left w).silent = composed c w.silent steps := by
  have houtcome := run_outcome name c w
  unfold left
  cases hrun : run name c w with
  | ok u w' =>
    rw [hrun] at houtcome
    exact ⟨Step.order, List.prefix_rfl, houtcome.left⟩
  | error e w' =>
    rw [hrun] at houtcome
    obtain ⟨before, step, after, _, horder, -, h⟩ := houtcome
    exact ⟨before ++ [step], ⟨after, by rw [horder, List.append_assoc]; rfl⟩, h.left⟩

/-- No assembly loses an entry or makes another kind of entry of it, whether it succeeds or stops halfway. The
contents of a file differ in the end only if a step wrote to a path that led to it then: merging accounts to
one of the account files, changing paths to the path of an empty file, writing the supervision tree to the
script of a service. Permissions and owner differ only if applying recorded ones, merging accounts or changing
paths set those of a path to a name of the inode. -/
theorem run_keepsEntries (name : String) (c : Configuration) (w : Workspace) :
    ∃ history : List (Step × List Operation), history.map Prod.fst <+: Step.order ∧
      Records c w.silent history ∧
      ((run name c).left w).silent = composed c w.silent (history.map Prod.fst) ∧
      ∀ l e, w.tree.get? l = some e → ∃ e', ((run name c).left w).tree.get? l = some e' ∧
        KeepsEntry (Rewrote c w.silent history l) (Attributed c w.silent history l) e e' := by
  obtain ⟨steps, hsteps, hleft⟩ := exists_composed name c w
  obtain ⟨history, rfl, hrecords⟩ := exists_records c w.silent steps
  refine ⟨history, hsteps, hrecords, hleft, fun l e hget => ?_⟩
  -- The messages of a run are no part of what is claimed of its tree.
  change ∃ e', ((run name c).left w).silent.tree.get? l = some e' ∧ _
  rw [hleft]
  exact hrecords.get? hget

/-- A group that is declared is merged into the file of groups, which keeps its permissions. -/
theorem run_keepsEntries_groups :
    let groups : Path := .ofString AccountFile.groups
    let c : Configuration := { accounts := { groups := [⟨"g", 5, []⟩] } }
    let w : Workspace :=
      ⟨(Tree.empty.insert (.ofString "etc") (.directory 0o755)).insert groups (.file [] 0o600), [], []⟩
    ∃ history e', ((run "image" c).left w).tree.get? groups.parts = some e' ∧
      e'.kind = .file (Bytes.ofString "g:x:5:\n") ∧ e'.mode = 0o600 ∧
      Rewrote c w.silent history groups.parts := by
  intro groups c w
  obtain ⟨history, -, -, -, hkeeps⟩ := run_keepsEntries "image" c w
  obtain ⟨e', hget, hentry⟩ := hkeeps groups.parts (.file [] 0o600) (by decide +kernel)
  have hafter : ((run "image" c).left w).tree.get? groups.parts
      = some (.file (Bytes.ofString "g:x:5:\n") 0o600) := by decide +kernel
  obtain rfl := Option.some.inj (hget.symm.trans hafter)
  refine ⟨history, _, hget, rfl, rfl, ?_⟩
  obtain ⟨-, -, hrewrote⟩ := hentry.kind.resolve_left (by decide +kernel)
  exact hrewrote

end ImageLayer.Assembly
