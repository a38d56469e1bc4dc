import ImageLayer.Proofs.Tree.Change
import Mathlib.Order.Defs.Unbundled
/-!
What computations do to the state they run on.

Passes over a tree are programs of many small computations, each of which may fail and leave the rest undone.
What such a program does to a tree is mostly of one form: however far it came, the tree it leaves stands in some
relation to the tree it was given. `Within R` says this of a computation, whether it succeeds, fails or never
comes to an end.

Sections:

* One computation after another. If the whole succeeded, so did its parts, and the state in between is named
  (`of_bind_eq_ok`). If it gave no result, that was the first part, or the second from where the first one led
  (`of_bind_eq_error`).
* Relations. For a preorder `Within` can be read off the text of a computation. One that does nothing stays
  within it, and so does one after the other (`Within.bind`), a choice (`Within.ite`), and a computation for
  each element of a list (`Within.forM`, `Within.foldlM`, `Within.mapM`). It is left to say what a change of the
  tree does (`Edit.within_change`). The relations that this is used with are growth by certain entries
  (`Tree.GrowsBy`), permissions that are kept, and being reached by operations (`Tree.Reaches`).
* Computations on trees, and what their results come from. The lemmas named `of_..._eq_ok` and `of_..._eq_error`
  go from a result to the parts, those named `..._of_eq_ok` from the parts to a result. Together they take
  proofs about a pass through its text without unfolding what a sequence is.

`Edit.left` is the tree that is left, and what is said of it holds of failures as well. It is what a run goes on
with where a failure is only warned of.
-/

namespace ImageLayer

/-! ## One computation after another -/

section

variable {α β σ : Type} {x : EStateM NoResult σ α} {f : α → EStateM NoResult σ β} {s s' : σ}

theorem of_bind_eq_ok {b : β} (h : (x >>= f) s = .ok b s') : ∃ a s₁, x s = .ok a s₁ ∧ f a s₁ = .ok b s' := by
  change EStateM.bind x f s = _ at h
  unfold EStateM.bind at h
  split at h
  · exact ⟨_, _, ‹_›, h⟩
  · cases h

theorem of_bind_eq_error {e : NoResult} (h : (x >>= f) s = .error e s') :
    x s = .error e s' ∨ ∃ a s₁, x s = .ok a s₁ ∧ f a s₁ = .error e s' := by
  change EStateM.bind x f s = _ at h
  unfold EStateM.bind at h
  split at h
  · exact Or.inr ⟨_, _, ‹_›, h⟩
  · obtain ⟨rfl, rfl⟩ := EStateM.Result.error.inj h
    exact Or.inl ‹_›

end

/-! ## Relations -/

/-- A computation that leads from every state to a related one, whether it succeeds or not. -/
structure Within {σ α : Type} (R : σ → σ → Prop) (x : EStateM NoResult σ α) : Prop where
  /-- Success leads to a related state. -/
  ok : ∀ {s a s'}, x s = .ok a s' → R s s'
  /-- Failure leads to a related state. -/
  error : ∀ {s e s'}, x s = .error e s' → R s s'

section

variable {α β σ : Type} {R : σ → σ → Prop}

variable [IsPreorder σ R]

theorem within_pure (a : α) : Within R (pure a : EStateM NoResult σ α) := by
  refine ⟨fun {s b s'} h => ?_, nofun⟩
  obtain ⟨-, rfl⟩ := EStateM.Result.ok.inj h
  exact refl_of R s

theorem within_throw (e : NoResult) : Within R (throw e : EStateM NoResult σ α) := by
  refine ⟨nofun, fun {s e' s'} h => ?_⟩
  obtain ⟨-, rfl⟩ := EStateM.Result.error.inj h
  exact refl_of R s

theorem within_get : Within R (get : EStateM NoResult σ σ) := by
  refine ⟨fun {s b s'} h => ?_, nofun⟩
  obtain ⟨-, rfl⟩ := EStateM.Result.ok.inj h
  exact refl_of R s

theorem Within.bind {x : EStateM NoResult σ α} {f : α → EStateM NoResult σ β} (hx : Within R x)
    (hf : ∀ a, Within R (f a)) : Within R (x >>= f) := by
  constructor
  · intro s b s' h
    obtain ⟨a, s₁, hfirst, hrest⟩ := of_bind_eq_ok h
    exact trans_of R (hx.ok hfirst) ((hf a).ok hrest)
  · intro s e s' h
    rcases of_bind_eq_error h with hfirst | ⟨a, s₁, hfirst, hrest⟩
    · exact hx.error hfirst
    · exact trans_of R (hx.ok hfirst) ((hf a).error hrest)

omit [IsPreorder σ R] in
theorem Within.ite {c : Prop} [Decidable c] {x y : EStateM NoResult σ α} (hx : Within R x)
    (hy : Within R y) : Within R (if c then x else y) := by
  split
  · exact hx
  · exact hy

theorem Within.forM {f : α → EStateM NoResult σ PUnit} (l : List α)
    (hf : ∀ a ∈ l, Within R (f a)) : Within R (l.forM f) := by
  induction l with
  | nil => exact within_pure _
  | cons a l ih =>
    exact (hf a (List.mem_cons_self ..)).bind fun _ =>
      ih fun b hb => hf b (List.mem_cons_of_mem a hb)

theorem Within.foldlM {f : β → α → EStateM NoResult σ β} (hf : ∀ b a, Within R (f b a)) (b : β)
    (l : List α) : Within R (l.foldlM f b) := by
  induction l generalizing b with
  | nil => exact within_pure b
  | cons a l ih => exact (hf b a).bind ih

theorem Within.mapM {f : α → EStateM NoResult σ β} (hf : ∀ a, Within R (f a)) (l : List α) :
    Within R (l.mapM f) := by
  induction l with
  | nil => exact within_pure []
  | cons a l ih =>
    rw [List.mapM_cons]
    exact (hf a).bind fun b => ih.bind fun bs => within_pure (b :: bs)

end

/-! ## Computations on trees -/

namespace Edit

variable {α : Type} {R : Tree → Tree → Prop}

theorem related_left {x : Edit α} (h : Within R x) (t : Tree) : R t (x.left t) := by
  unfold left
  cases hx : x t with
  | ok a t' => exact h.ok hx
  | error e t' => exact h.error hx

theorem left_of_ok {x : Edit α} {t t' : Tree} {a : α} (h : x t = .ok a t') : x.left t = t' := by
  rw [left, h]

theorem left_of_error {x : Edit α} {t t' : Tree} {e : NoResult} (h : x t = .error e t') :
    x.left t = t' := by
  rw [left, h]

/-- Whether a computation succeeds. -/
def succeeds (x : Edit α) (t : Tree) : Bool :=
  match x t with
  | .ok _ _ => true
  | .error _ _ => false

theorem exists_of_succeeds {x : Edit α} {t : Tree} (h : x.succeeds t) : ∃ a, x t = .ok a (x.left t) := by
  unfold succeeds at h
  unfold left
  cases hx : x t with
  | ok a t' => exact ⟨a, rfl⟩
  | error e t' => simp [hx] at h

theorem of_change_eq_ok {f : Tree → Except Failure Tree} {t t' : Tree} {u : Unit}
    (h : change f t = .ok u t') : f t = .ok t' := by
  unfold change at h
  split at h
  · rename_i t₁ hok
    obtain ⟨-, rfl⟩ := EStateM.Result.ok.inj h
    exact hok
  · cases h

theorem of_ask_eq_ok {f : Tree → Except Failure α} {t t' : Tree} {a : α} (h : ask f t = .ok a t') :
    f t = .ok a ∧ t' = t := by
  unfold ask at h
  split at h
  · obtain ⟨rfl, rfl⟩ := EStateM.Result.ok.inj h
    exact ⟨‹_›, rfl⟩
  · cases h

theorem of_consult_eq_ok {f : Tree → Except NoResult α} {t t' : Tree} {a : α} (h : consult f t = .ok a t') :
    f t = .ok a ∧ t' = t := by
  unfold consult at h
  split at h
  · obtain ⟨rfl, rfl⟩ := EStateM.Result.ok.inj h
    exact ⟨‹_›, rfl⟩
  · cases h

theorem of_inContext_eq_ok {context : Context} {x : Edit α} {t t' : Tree} {a : α}
    (h : inContext context x t = .ok a t') : x t = .ok a t' := by
  unfold inContext at h
  split at h
  · obtain ⟨rfl, rfl⟩ := EStateM.Result.ok.inj h
    assumption
  · cases h

theorem of_change_eq_error {f : Tree → Except Failure Tree} {t t' : Tree} {e : NoResult}
    (h : change f t = .error e t') : ∃ fault, f t = .error fault ∧ e = .failure fault ∧ t' = t := by
  unfold change at h
  split at h
  · cases h
  · obtain ⟨rfl, rfl⟩ := EStateM.Result.error.inj h
    exact ⟨_, ‹_›, rfl, rfl⟩

theorem of_ask_eq_error {f : Tree → Except Failure α} {t t' : Tree} {e : NoResult} (h : ask f t = .error e t') :
    ∃ fault, f t = .error fault ∧ e = .failure fault ∧ t' = t := by
  unfold ask at h
  split at h
  · cases h
  · obtain ⟨rfl, rfl⟩ := EStateM.Result.error.inj h
    exact ⟨_, ‹_›, rfl, rfl⟩

theorem of_consult_eq_error {f : Tree → Except NoResult α} {t t' : Tree} {e : NoResult}
    (h : consult f t = .error e t') : f t = .error e ∧ t' = t := by
  unfold consult at h
  split at h
  · cases h
  · obtain ⟨rfl, rfl⟩ := EStateM.Result.error.inj h
    exact ⟨‹_›, rfl⟩

theorem of_inContext_eq_error {context : Context} {x : Edit α} {t t' : Tree} {e : NoResult}
    (h : inContext context x t = .error e t') : ∃ cause, x t = .error cause t' ∧ e = cause.within context := by
  unfold inContext at h
  split at h
  · cases h
  · obtain ⟨rfl, rfl⟩ := EStateM.Result.error.inj h
    exact ⟨_, ‹_›, rfl⟩

theorem of_pure_eq_ok {t t' : Tree} {a b : α} (h : (pure a : Edit α) t = .ok b t') : b = a ∧ t' = t := by
  obtain ⟨rfl, rfl⟩ := EStateM.Result.ok.inj h
  exact ⟨rfl, rfl⟩

theorem of_get_eq_ok {t t' t₁ : Tree} (h : (get : Edit Tree) t = .ok t₁ t') : t₁ = t ∧ t' = t := by
  obtain ⟨rfl, rfl⟩ := EStateM.Result.ok.inj h
  exact ⟨rfl, rfl⟩

theorem bind_of_eq_ok {β : Type} {x : Edit α} {t t' : Tree} {a : α} (h : x t = .ok a t') (f : α → Edit β) :
    (x >>= f) t = f a t' := by
  simp only [bind, EStateM.bind, h]

theorem change_of_eq_ok {f : Tree → Except Failure Tree} {t t' : Tree} (h : f t = .ok t') :
    change f t = .ok () t' := by
  simp only [change, h]

theorem ask_of_eq_ok {f : Tree → Except Failure α} {t : Tree} {a : α} (h : f t = .ok a) :
    ask f t = .ok a t := by
  simp only [ask, h]

theorem consult_of_eq_ok {f : Tree → Except NoResult α} {t : Tree} {a : α} (h : f t = .ok a) :
    consult f t = .ok a t := by
  simp only [consult, h]

theorem inContext_of_eq_ok {x : Edit α} {t t' : Tree} {a : α} (context : Context) (h : x t = .ok a t') :
    inContext context x t = .ok a t' := by
  simp only [inContext, h]

theorem left_bind {β : Type} (x : Edit α) (f : α → Edit β) (t : Tree) :
    (x >>= f).left t = match x t with
      | .ok a t' => (f a).left t'
      | .error _ t' => t' := by
  simp only [left, bind, EStateM.bind]
  cases x t <;> rfl

theorem left_change (f : Tree → Except Failure Tree) (t : Tree) :
    (change f).left t = match f t with
      | .ok t' => t'
      | .error _ => t := by
  simp only [left, change]
  cases f t <;> rfl

theorem left_change_bind (f : Tree → Except Failure Tree) (g : Unit → Edit α) (t : Tree) :
    (change f >>= g).left t = match f t with
      | .ok t' => (g ()).left t'
      | .error _ => t := by
  rw [left_bind, change]
  cases f t <;> rfl

theorem within_inContext {x : Edit α} (hx : Within R x) (context : Context) :
    Within R (inContext context x) := by
  constructor
  · intro t a t' h
    exact hx.ok (of_inContext_eq_ok h)
  · intro t e t' h
    obtain ⟨cause, hcause, -⟩ := of_inContext_eq_error h
    exact hx.error hcause

variable [IsPreorder Tree R]

theorem within_ask (f : Tree → Except Failure α) : Within R (ask f) := by
  constructor
  · intro t a t' h
    obtain ⟨-, rfl⟩ := of_ask_eq_ok h
    exact refl_of R t'
  · intro t e t' h
    obtain ⟨fault, -, -, rfl⟩ := of_ask_eq_error h
    exact refl_of R t'

theorem within_consult (f : Tree → Except NoResult α) : Within R (consult f) := by
  constructor
  · intro t a t' h
    obtain ⟨-, rfl⟩ := of_consult_eq_ok h
    exact refl_of R t'
  · intro t e t' h
    obtain ⟨-, rfl⟩ := of_consult_eq_error h
    exact refl_of R t'

theorem within_change {f : Tree → Except Failure Tree} (hf : ∀ t t', f t = .ok t' → R t t') :
    Within R (change f) := by
  constructor
  · intro t a t' h
    exact hf t t' (of_change_eq_ok h)
  · intro t e t' h
    obtain ⟨fault, -, -, rfl⟩ := of_change_eq_error h
    exact refl_of R t'

theorem within_ensureDirectories {mode : Nat}
    (hR : ∀ {t t' parts}, t.ensureDirectory mode parts = .ok t' → R t t') (done : Location)
    (parts : List Part) : Within R (ensureDirectories mode done parts) := by
  induction parts generalizing done with
  | nil => exact within_pure ()
  | cons part rest ih => exact (within_change fun _ _ => hR).bind fun _ => ih (done ++ [part])

end Edit

end ImageLayer
