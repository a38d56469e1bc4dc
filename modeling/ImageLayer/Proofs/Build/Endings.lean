import ImageLayer.Proofs.Build.Operations
import ImageLayer.Proofs.Pass.Subtree
/-!
What it takes for a step never to come to an end.

Two things in the passes could go on for ever: reading a file through hard links, and going down a directory. The
first can happen, and then the tree that is left has a path that is `Tree.Endless`. The second cannot, as long
as the names in the tree are proper, and names are: no operation makes others (`Tree.proper_run`).

So this module proves of recursive changes that they come to an end, whatever else becomes of them. Unlike what is
said of them where they succeed, nothing is asked of hard links here, nor that anything is there.

How the proof goes:

* On its way a recursive change leaves the tree with entries of the same kinds (`Tree.Alike`), so that what it
  finds further down is what was there at the start. `EndsOn t x` says of a computation that it keeps to trees
  like `t`, and comes to an end on all of them; it composes like everything else that is said of computations.
* Every directory that the change enters stands in a chain of directories from the one it started with. The
  chain is as long as levels were used up, and no chain is longer than there are entries
  (`Tree.Reached.length_le`). The induction on the levels that are left carries just this: the length of the
  chain and the levels together are more than the number of entries (`setAttributesBelow_endsOn`).
* A change starts with more levels than there are entries (`recursion_ends`), and changes in order leave trees
  with proper names in between (`applyChanges_ends`).

With what the other passes stop for, `Assembly.runStep_endless` says it for every step of the assembly.
-/

namespace ImageLayer

/-- Operations keep names proper. -/
theorem Tree.Reaches.proper {permitted : Tree → Operation → Prop} {t t' : Tree} (h : Reaches permitted t t')
    (hproper : ∀ x ∈ t.walk, x.1.Proper) : ∀ x ∈ t'.walk, x.1.Proper := by
  obtain ⟨ops, -, rfl⟩ := h
  exact proper_run hproper ops

open ImageLayer.Tree

namespace Edit

/-! ## Trees with entries of the same kinds -/

/-- On trees that have entries of the same kinds as `t`, a computation comes to an end, and if it returns it leaves such
a tree. -/
structure EndsOn {α : Type} (t : Tree) (x : Edit α) : Prop where
  /-- Such a tree is left. -/
  alike : ∀ {t₁ a t₂}, t.Alike t₁ → x t₁ = .ok a t₂ → t.Alike t₂
  /-- There is an end. -/
  ends : ∀ {t₁ e t₂}, t.Alike t₁ → x t₁ = .error e t₂ → e ≠ .endless

section

variable {α β : Type} {t : Tree} {c : PathChange}

theorem endsOn_pure (a : α) : EndsOn t (pure a) :=
  ⟨fun halike h => (of_pure_eq_ok h).2 ▸ halike, nofun⟩

theorem EndsOn.bind {x : Edit α} {f : α → Edit β} (hx : EndsOn t x)
    (hf : ∀ {t₁ a t₂}, t.Alike t₁ → x t₁ = .ok a t₂ → EndsOn t (f a)) : EndsOn t (x >>= f) := by
  constructor
  · intro t₁ b t₃ halike h
    obtain ⟨a, t₂, hfirst, hrest⟩ := of_bind_eq_ok h
    exact (hf halike hfirst).alike (hx.alike halike hfirst) hrest
  · intro t₁ e t₃ halike h
    rcases of_bind_eq_error h with hfirst | ⟨a, t₂, hfirst, hrest⟩
    · exact hx.ends halike hfirst
    · exact (hf halike hfirst).ends (hx.alike halike hfirst) hrest

theorem EndsOn.forM {f : α → Edit Unit} {as : List α} (h : ∀ a ∈ as, EndsOn t (f a)) :
    EndsOn t (as.forM f) := by
  induction as with
  | nil => exact endsOn_pure ()
  | cons a as ih =>
    exact (h a List.mem_cons_self).bind fun _ _ => ih fun b hb => h b (List.mem_cons_of_mem a hb)

theorem endsOn_ask {f : Tree → Except Failure α} (hf : ∀ t, PlainResult (f t)) : EndsOn t (ask f) :=
  ⟨fun halike h => (of_ask_eq_ok h).2 ▸ halike, fun _ h => (ask_stops (Q := Ends) hf).reason h⟩

theorem endsOn_setAttributes (p : Path) : EndsOn t (setAttributes p c) := by
  refine ⟨fun {t₁ u t₂} halike h => ?_, fun _ h => (setAttributes_stops (Q := Ends) p c).reason h⟩
  have hchange : ∀ (f : Entry → Entry) {s s' : Tree}, (∀ e, (f e).kind = e.kind) →
      (do return s.mapNames (← s.inodeOf p) f : Except Failure Tree) = .ok s' → s.Alike s' := by
    intro f s s' hf hresult
    obtain ⟨l, -, hmap⟩ := exists_of_bind_eq_ok hresult
    exact Except.ok.inj hmap ▸ alike_mapNames s l hf
  obtain ⟨u', s, hmode, howner⟩ := of_bind_eq_ok h
  exact (halike.trans (hchange (.withMode c.permissions) (fun _ => rfl) (of_change_eq_ok hmode))).trans
    (hchange (.withOwner c.owner) (fun _ => rfl) (of_change_eq_ok howner))

end

/-! ## Recursive changes -/

section

variable {t : Tree} {c : PathChange}

/-- Visiting an entry comes to an end if going on below it does. -/
theorem endsOn_visit {below : Path → Edit Unit} {child : Path} {k : Location} {f : Entry}
    (hloc : t.locate? false child.parts = some k) (hget : t.get? k = some f)
    (hbelow : f.isSymlink = false → f.isDirectory → EndsOn t (below child)) :
    EndsOn t (visit c below child) := by
  refine (endsOn_ask fun t => t.entryAt_plain child).bind fun {t₁ e t₂} halike hask => ?_
  obtain ⟨f', hget', hkind⟩ := halike.get? hget
  have hentry : t₁.entryAt child = .ok f' := by
    rw [Tree.entryAt, Tree.resolve, ← Tree.locate?_congr fun l hl => (halike.linkAt hl).symm, hloc]
    simp [Bind.bind, Except.bind, hget']
  obtain rfl := Except.ok.inj (hentry.symm.trans (of_ask_eq_ok hask).1)
  rw [Entry.isSymlink_congr hkind, Entry.isDirectory_congr hkind]
  split
  · exact endsOn_pure ()
  · rename_i hplain
    refine (endsOn_setAttributes child).bind fun _ _ => ?_
    split
    · rename_i hdir
      exact hbelow (by simpa using hplain) hdir
    · exact endsOn_pure ()

/-- Below a directory in a chain of directories, a change comes to an end if the levels that it may still go down
make up for what is missing to the greatest length of a chain. -/
theorem setAttributesBelow_endsOn (hproper : ∀ x ∈ t.walk, x.1.Proper) {depth : Nat} {p : Path} {top d : Location}
    {e : Entry} (hloc : t.locate? true p.parts = some d) (hget : t.get? d = some e) (hdir : e.isDirectory)
    (hreached : t.Reached top d) (hdepth : top.length + t.size < d.length + depth) :
    EndsOn t (setAttributesBelow c depth p) := by
  induction depth generalizing p d e with
  | zero =>
    have hlength := hreached.length_le
    omega
  | succ depth ih =>
    change EndsOn t (ask (·.readDirectory p) >>= fun names =>
      names.forM fun n => visit c (setAttributesBelow c depth) (p.join ⟨n⟩))
    refine (endsOn_ask fun t => t.readDirectory_plain p).bind fun {t₁ names t₂} halike hask => ?_
    have hloc₁ : t₁.locate? true p.parts = some d := by
      rw [← Tree.locate?_congr fun l hl => (halike.linkAt hl).symm, hloc]
    obtain ⟨names', hnames, hmem⟩ := Tree.mem_readDirectory hloc₁ (halike.isDirectoryAt hget hdir)
    obtain rfl := Except.ok.inj (hnames.symm.trans (of_ask_eq_ok hask).1)
    refine EndsOn.forM fun n hn => ?_
    obtain ⟨f₁, hf₁⟩ := (hmem n).1 hn
    obtain ⟨f, hf, -⟩ := halike.symm.get? hf₁
    have hchild := locate?_join hproper hloc hf
    refine endsOn_visit hchild hf fun hplain hfdir =>
      ih (locate?_of_plain hchild hf hplain) hf hfdir (.child hreached hget hdir hf hplain) ?_
    rw [List.length_append, List.length_singleton]
    omega

theorem proper_of_applyToPath (hproper : ∀ x ∈ t.walk, x.1.Proper) {u : Unit} {t' : Tree}
    (h : applyToPath c (.ofString c.path) t = .ok u t') : ∀ x ∈ t'.walk, x.1.Proper := by
  have hwithin : Within (Reaches fun _ _ => True) (applyToPath c (.ofString c.path)) :=
    applyToPath_within (fun _ _ _ => trivial) fun _ _ _ => trivial
  exact (hwithin.ok h).proper hproper

/-- What a recursive change does behind its path comes to an end. -/
theorem recursion_ends (hproper : ∀ x ∈ t.walk, x.1.Proper) {p : Path} {e : NoResult} {t' : Tree}
    (h : (ask (·.entryAt p) >>= fun found =>
      if found.isDirectory then (get >>= fun s => setAttributesBelow c (s.size + 1) p : Edit Unit) else pure ()) t
        = .error e t') : e ≠ .endless := by
  rcases of_bind_eq_error h with hask | ⟨found, t₁, hask, hbelow⟩
  · exact (ask_stops (Q := Ends) fun t => t.entryAt_plain p).reason hask
  · obtain ⟨hentry, rfl⟩ := of_ask_eq_ok hask
    split at hbelow
    · rename_i hdir
      obtain ⟨d, hd, -⟩ := exists_of_bind_eq_ok hentry
      have hloc := resolve_eq_ok_iff.1 hd
      have hget := (entryAt_of_locate? hloc).1 hentry
      have hends := setAttributesBelow_endsOn (c := c) hproper
        (locate?_of_plain hloc hget (Entry.isSymlink_of_isDirectory hdir)) hget hdir .self
        (Nat.add_lt_add_left (Nat.lt_succ_self _) _)
      exact hends.ends (fun _ => rfl) hbelow
    · cases hbelow

theorem applyChange_ends (hproper : ∀ x ∈ t.walk, x.1.Proper) {e : NoResult} {t' : Tree}
    (h : applyChange c t = .error e t') : e ≠ .endless := by
  rcases of_bind_eq_error h with hpath | ⟨u, t₁, hpath, hrest⟩
  · exact (applyToPath_stops (Q := Ends) c _).reason hpath
  · split at hrest
    · exact recursion_ends (proper_of_applyToPath hproper hpath) hrest
    · cases hrest

/-- Changing paths comes to an end. -/
theorem applyChanges_ends (hproper : ∀ x ∈ t.walk, x.1.Proper) {changes : List PathChange} {e : NoResult}
    {t' : Tree} (h : applyChanges changes t = .error e t') : e ≠ .endless := by
  induction changes generalizing t with
  | nil => cases h
  | cons change rest ih =>
    rcases of_bind_eq_error h with hfirst | ⟨u, t₁, hfirst, hrest⟩
    · obtain ⟨cause, hcause, rfl⟩ := of_inContext_eq_error hfirst
      have hends : Ends cause t' := applyChange_ends hproper hcause
      exact Admits.within (.pathChange change.path) hends
    · have hrun : applyChanges [change] t = .ok () t₁ := (bind_of_eq_ok hfirst _).trans rfl
      exact ih (((applyChanges_within { paths := [change] } t).ok hrun).proper hproper) hrest

end

end Edit

/-! ## The steps -/

namespace Assembly

theorem proper_left_runStep (c : Configuration) (step : Step) {w : Workspace}
    (hproper : ∀ x ∈ w.tree.walk, x.1.Proper) : ∀ x ∈ ((runStep c step).left w).tree.walk, x.1.Proper :=
  (runStep_reaches c step w).proper hproper

/-- A step never comes to an end only where there is a path that cannot be read to its end. -/
theorem runStep_endless {c : Configuration} {step : Step} {w w' : Workspace}
    (hproper : ∀ x ∈ w.tree.walk, x.1.Proper) (h : runStep c step w = .error .endless w') :
    ∃ p, w'.tree.Endless p := by
  by_cases hos : step = .generateOsRelease
  · subst hos
    rcases runStep_osRelease h with hplain | ⟨hpresent, -⟩
    · exact hplain
    · cases hpresent
  · by_cases hpaths : step = .mutatePaths
    · subst hpaths
      obtain ⟨t, hstop, -⟩ := of_edit_eq_error (x := Edit.applyChanges c.paths) h
      exact absurd rfl (Edit.applyChanges_ends hproper hstop)
    · exact (runStep_stops c hos hpaths).reason h

end Assembly

end ImageLayer
