import ImageLayer.Proofs.Tree.Effects
import ImageLayer.Proofs.Tree.Growth
import ImageLayer.Proofs.Tree.Inode
/-!
What operations do to an entry that is there.

An entry stays what it is. Only the contents of a file may become others, by writing to a path that leads to it,
and only its permissions and its owner may, by changing those of a path to a name of its inode. `after_get?`
says this of one operation, whether it is refused or not. `run_get?` says it of operations in order, and there
the one that made the difference is named, and the tree that it found: where a path leads may have changed by
the time the operation comes.

Sections:

* What is kept of an entry (`KeepsEntry`), up to two things that may have happened to it. It composes
  (`KeepsEntry.trans`).
* One operation. Making directories and all kinds of links only add entries. What is written to and what is
  given other attributes is read off the operation (`Operation.written?`, `Operation.attributed?`).
* Operations in order, by induction on the list.
* Permitted operations. `Reaches` says that a tree is what operations in order make of another one, each
  permitted in the tree that it finds. It is a preorder, so that it can be read off the text of a computation,
  and every preorder that the permitted operations respect follows from it (`Reaches.related`).

Permission depends on the tree that is found, since a program looks at the tree before it decides what to do.
That it asked is then part of what is known of its operations.
-/

namespace ImageLayer

namespace Operation

/-- The path that an operation writes a file to. -/
def written? : Operation → Option Path
  | .writeFile path .. => some path
  | _ => none

/-- The path whose permissions or owner an operation sets. -/
def attributed? : Operation → Option Path
  | .chmod path _ | .chown path _ => some path
  | _ => none

end Operation

namespace Tree

/-- A path to a name of the inode of the entry at a location: where it leads, followed to its end and from a
hard link to its source, is the location or what the entry is a hard link to. -/
def NamesInode (t : Tree) (p : Path) (l : Location) : Prop :=
  ∃ k, t.inode? true p = some k ∧ (l = k ∨ ∃ e, t.get? l = some e ∧ isLinkTo k e)

/-- An entry as another tree may have it: the same but for what `written` and `attributed` allow. -/
structure KeepsEntry (written attributed : Prop) (e e' : Entry) : Prop where
  /-- It is what it was, unless it is a file that was written to. -/
  kind : e'.kind = e.kind ∨ e.isFile ∧ e'.isFile ∧ written
  /-- Its permissions and its owner are what they were, unless they were changed. -/
  attributes : e'.mode = e.mode ∧ e'.owner = e.owner ∨ attributed

theorem KeepsEntry.refl (written attributed : Prop) (e : Entry) : KeepsEntry written attributed e e :=
  ⟨Or.inl rfl, Or.inl ⟨rfl, rfl⟩⟩

theorem KeepsEntry.mono {written written' attributed attributed' : Prop} {e e' : Entry}
    (h : KeepsEntry written attributed e e') (hwritten : written → written')
    (hattributed : attributed → attributed') : KeepsEntry written' attributed' e e' :=
  ⟨h.kind.imp_right fun ⟨hfile, hfile', hw⟩ => ⟨hfile, hfile', hwritten hw⟩,
    h.attributes.imp_right hattributed⟩

theorem KeepsEntry.trans {written attributed : Prop} {e e₁ e₂ : Entry}
    (h : KeepsEntry written attributed e e₁) (h' : KeepsEntry written attributed e₁ e₂) :
    KeepsEntry written attributed e e₂ := by
  constructor
  · rcases h.kind with hkind | ⟨hfile, hfile₁, hwritten⟩
    · rcases h'.kind with hkind' | ⟨hfile₁, hfile₂, hwritten⟩
      · exact Or.inl (hkind'.trans hkind)
      · exact Or.inr ⟨by rwa [Entry.isFile, ← hkind], hfile₂, hwritten⟩
    · rcases h'.kind with hkind' | ⟨-, hfile₂, -⟩
      · exact Or.inr ⟨hfile, by rwa [Entry.isFile, hkind'], hwritten⟩
      · exact Or.inr ⟨hfile, hfile₂, hwritten⟩
  · rcases h.attributes with ⟨hmode, howner⟩ | hattributed
    · exact h'.attributes.imp_left fun hsame => ⟨hsame.1.trans hmode, hsame.2.trans howner⟩
    · exact Or.inr hattributed

/-! ## One operation -/

theorem left_makeDirectories_grows (t : Tree) (p : Path) (mode : Nat) :
    GrowsBy (fun _ e => e = .directory mode) t ((Edit.makeDirectories p mode).left t) := by
  refine Edit.related_left (Edit.within_ensureDirectories (fun h => ?_) [] p.parts) t
  exact (ensureDirectory_grows h).mono fun l e he => he.2

theorem inode?_of_inodeOf {t : Tree} {p : Path} {l : Location} (h : t.inodeOf p = .ok l) :
    t.inode? true p = some l := by
  obtain ⟨k, hloc, h⟩ := exists_of_bind_eq_ok h
  rw [resolve_eq_ok_iff] at hloc
  cases hget : t.get? k with
  | none => simp [hget] at h
  | some e =>
    refine inode?_eq_some.2 ⟨k, e, hloc, hget, ?_⟩
    cases hkind : e.kind with
    | hardlink source =>
      simp only [hget, hkind] at h
      cases hsource : source.location? with
      | none => simp [hsource] at h
      | some s =>
        simp only [hsource] at h
        split at h
        · rw [Entry.inode, hkind, ← Except.ok.inj h]
          simp [hsource]
        · cases h
    | _ =>
      simp only [hget, hkind] at h
      rw [Entry.inode, hkind, ← Except.ok.inj h]

theorem left_attributes_get? {t : Tree} {p : Path} {f : Entry → Entry} (hf : ∀ e, (f e).kind = e.kind)
    {l : Location} {e : Entry} (hget : t.get? l = some e) :
    ∃ e', ((Edit.change fun t => return t.mapNames (← t.inodeOf p) f).left t).get? l = some e' ∧
      KeepsEntry False (t.NamesInode p l) e e' := by
  rw [Edit.left_change]
  cases hinode : t.inodeOf p with
  | error _ => exact ⟨e, hget, .refl _ _ e⟩
  | ok k =>
    refine ⟨_, (get?_mapNames t k f l).trans (by rw [hget]; rfl), ?_⟩
    dsimp only
    split
    · rename_i hname
      refine ⟨Or.inl (hf e), Or.inr ⟨k, inode?_of_inodeOf hinode, ?_⟩⟩
      exact hname.imp_right fun hlink => ⟨e, hget, hlink.2⟩
    · exact .refl _ _ e

/-- An operation leaves an entry what it is. It gives other contents to a file only by writing to a path
that leads to it, and other permissions or another owner only through a name of the inode. -/
theorem after_get? (op : Operation) {t : Tree} {l : Location} {e : Entry} (hget : t.get? l = some e) :
    ∃ e', (op.after t).get? l = some e' ∧
      KeepsEntry (∃ p, op.written? = some p ∧ t.locate? true p.parts = some l)
        (∃ p, op.attributed? = some p ∧ t.NamesInode p l) e e' := by
  -- What only adds entries leaves this one as it is.
  have hadds : ∀ {f : Tree → Except Failure Tree} {written attributed : Prop},
      (∀ t', f t = .ok t' → ∃ new, t.Grows t' new) →
      ∃ e', ((Edit.change f).left t).get? l = some e' ∧ KeepsEntry written attributed e e' := by
    intro f written attributed hf
    rw [Edit.left_change]
    cases h : f t with
    | error _ => exact ⟨e, hget, .refl _ _ e⟩
    | ok t' =>
      obtain ⟨new, hnew⟩ := hf t' h
      exact ⟨e, hnew.keeps hget, .refl _ _ e⟩
  rw [Operation.after_eq_left]
  cases op with
  | makeDirectories path mode =>
    exact ⟨e, (left_makeDirectories_grows t path mode).keeps hget, .refl _ _ e⟩
  | writeFile path contents mode =>
    simp only [Operation.run, Edit.left_change]
    cases h : t.writeFile path contents mode with
    | error _ => exact ⟨e, hget, .refl _ _ e⟩
    | ok t' =>
      obtain ⟨k, hloc, ⟨file, hfile, hisFile, rfl⟩ | ⟨-, k', hgrows⟩⟩ := writeFile_eq_ok h
      · by_cases hl : l = k
        · subst hl
          obtain rfl := Option.some.inj (hget.symm.trans hfile)
          refine ⟨{ e with kind := .file contents }, by rw [get?_set, if_pos rfl], ?_⟩
          exact ⟨Or.inr ⟨hisFile, rfl, path, rfl, hloc⟩, Or.inl ⟨rfl, rfl⟩⟩
        · exact ⟨e, by rw [get?_set, if_neg hl, hget], .refl _ _ e⟩
      · exact ⟨e, hgrows.keeps hget, .refl _ _ e⟩
  | symlink target link =>
    refine hadds fun t' h => ?_
    obtain ⟨k, hk⟩ := symlink_grows h
    exact ⟨_, hk⟩
  | hardlink source link => exact hadds fun t' h => hardlink_grows h
  | makeDevice path mode major minor =>
    refine hadds fun t' h => ?_
    obtain ⟨k, hk⟩ := makeDevice_grows h
    exact ⟨_, hk⟩
  | chmod path mode =>
    obtain ⟨e', hget', hkeeps⟩ :=
      left_attributes_get? (p := path) (f := Entry.withMode mode) (fun _ => rfl) hget
    exact ⟨e', hget', hkeeps.mono False.elim fun h => ⟨path, rfl, h⟩⟩
  | chown path owner =>
    obtain ⟨e', hget', hkeeps⟩ :=
      left_attributes_get? (p := path) (f := Entry.withOwner owner) (fun _ => rfl) hget
    exact ⟨e', hget', hkeeps.mono False.elim fun h => ⟨path, rfl, h⟩⟩

/-! ## Operations in order -/

theorem run_append (t : Tree) (a b : List Operation) : t.run (a ++ b) = (t.run a).run b := by
  induction a generalizing t with
  | nil => rfl
  | cons op a ih => exact ih (op.after t)

/-- One of several operations in order, and the tree that it finds. -/
def Finds (t : Tree) (ops : List Operation) (op : Operation) (found : Tree) : Prop :=
  ∃ before after, ops = before ++ op :: after ∧ found = t.run before

theorem finds_head (t : Tree) (op : Operation) (rest : List Operation) : t.Finds (op :: rest) op t :=
  ⟨[], rest, rfl, rfl⟩

theorem Finds.cons {t : Tree} {first op : Operation} {rest : List Operation} {found : Tree}
    (h : (first.after t).Finds rest op found) : t.Finds (first :: rest) op found := by
  obtain ⟨before, after, rfl, rfl⟩ := h
  exact ⟨first :: before, after, rfl, rfl⟩

/-- Operations in order leave an entry what it is. Where the contents of a file, permissions or an owner
differ in the end, one of them made a difference in the tree that it found. -/
theorem run_get? (ops : List Operation) {t : Tree} {l : Location} {e : Entry}
    (hget : t.get? l = some e) :
    ∃ e', (t.run ops).get? l = some e' ∧
      KeepsEntry
        (∃ op found p, t.Finds ops op found ∧ op.written? = some p ∧
          found.locate? true p.parts = some l)
        (∃ op found p, t.Finds ops op found ∧ op.attributed? = some p ∧ found.NamesInode p l) e e' := by
  induction ops generalizing t e with
  | nil => exact ⟨e, hget, .refl _ _ e⟩
  | cons op rest ih =>
    obtain ⟨e₁, hget₁, hfirst⟩ := after_get? op hget
    obtain ⟨e₂, hget₂, hrest⟩ := ih hget₁
    refine ⟨e₂, hget₂, KeepsEntry.trans (hfirst.mono ?_ ?_) (hrest.mono ?_ ?_)⟩
    · exact fun ⟨p, hp⟩ => ⟨op, t, p, finds_head t op rest, hp⟩
    · exact fun ⟨p, hp⟩ => ⟨op, t, p, finds_head t op rest, hp⟩
    · exact fun ⟨op', found, p, hfinds, hp⟩ => ⟨op', found, p, hfinds.cons, hp⟩
    · exact fun ⟨op', found, p, hfinds, hp⟩ => ⟨op', found, p, hfinds.cons, hp⟩

/-! ## Permitted operations -/

/-- Operations in order, each of them permitted in the tree that it finds. -/
def Follows (permitted : Tree → Operation → Prop) (t : Tree) : List Operation → Prop
  | [] => True
  | op :: rest => permitted t op ∧ Follows permitted (op.after t) rest

theorem Follows.append {permitted : Tree → Operation → Prop} {t : Tree} {a b : List Operation}
    (ha : t.Follows permitted a) (hb : (t.run a).Follows permitted b) :
    t.Follows permitted (a ++ b) := by
  induction a generalizing t with
  | nil => exact hb
  | cons op a ih => exact ⟨ha.1, ih ha.2 hb⟩

theorem Follows.permitted {permitted : Tree → Operation → Prop} {t found : Tree}
    {ops : List Operation} {op : Operation} (h : t.Follows permitted ops)
    (hfinds : t.Finds ops op found) : permitted found op := by
  obtain ⟨before, after, rfl, rfl⟩ := hfinds
  induction before generalizing t with
  | nil => exact h.1
  | cons first before ih => exact ih h.2

/-- What permitted operations in order make of a tree. -/
def Reaches (permitted : Tree → Operation → Prop) (t t' : Tree) : Prop :=
  ∃ ops, t.Follows permitted ops ∧ t' = t.run ops

instance (permitted : Tree → Operation → Prop) : IsPreorder Tree (Reaches permitted) where
  refl t := ⟨[], trivial, rfl⟩
  trans := by
    rintro t t₁ t₂ ⟨a, ha, rfl⟩ ⟨b, hb, rfl⟩
    exact ⟨a ++ b, ha.append hb, (run_append t a b).symm⟩

/-- A preorder that every permitted operation keeps to holds between the trees at both ends. -/
theorem Reaches.related {permitted : Tree → Operation → Prop} {R : Tree → Tree → Prop}
    [IsPreorder Tree R] {t t' : Tree} (h : Reaches permitted t t')
    (hR : ∀ found op, permitted found op → R found (op.after found)) : R t t' := by
  obtain ⟨ops, hops, rfl⟩ := h
  induction ops generalizing t with
  | nil => exact refl_of R t
  | cons op rest ih => exact trans_of R (hR t op hops.1) (ih hops.2)

theorem reaches_after {permitted : Tree → Operation → Prop} {t : Tree} {op : Operation}
    (h : permitted t op) : Reaches permitted t (op.after t) :=
  ⟨[op], ⟨h, trivial⟩, rfl⟩

end Tree

/-- An operation that is permitted in every tree. -/
theorem Operation.within_run {permitted : Tree → Operation → Prop} (op : Operation)
    (h : ∀ t, permitted t op) : Within (Tree.Reaches permitted) op.run := by
  constructor
  · intro t a t' hok
    have hafter : op.after t = t' := by rw [after, hok]
    exact hafter ▸ Tree.reaches_after (h t)
  · intro t e t' herror
    have hafter : op.after t = t' := by rw [after, herror]
    exact hafter ▸ Tree.reaches_after (h t)

end ImageLayer
