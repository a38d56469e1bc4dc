import Mathlib.Data.List.Perm.Subperm
import ImageLayer.Pass.Paths
import ImageLayer.Proofs.Tree.Children
import ImageLayer.Proofs.Tree.Effects
import ImageLayer.Proofs.Tree.Sound
/-!
What a recursive change of permissions reaches.

The change walks along paths: it lists a directory, writes each name behind the path of the directory, and goes
on below what is a directory again. Permissions and owner, however, belong to inodes, and what the change sets
through one path shows under every other name of the same inode, inside the directory or out of it. The main
statement, `applyChanges_subtree`, says which entries differ in the end: all names of the inodes that
stand in the directory, or in a directory in it, and so on, with symbolic links left out; nothing else does.

Sections:

* Chains of directories. `Tree.Reached` is what stands below a directory, as an inductive relation on locations,
  without paths and without a bound. It is read from either end: a chain grows at its far end (the
  constructor) and is taken apart at its near end (`Reached.eq_or_below`), as the walk does it. The entries on a chain
  are all different, so that no chain is longer than there are entries (`Reached.length_le`).
* Marked inodes. `Tree.Marked` compares two trees through the inodes whose names were changed in
  between. It composes, and it determines the second tree (`Marked.unique`).
* Computations that mark inodes (`Marks`), by binding and looping. What such a computation asks of the tree on its
  way depends on the kinds of entries alone, which it never changes (`marks_ask_bind`).
* Every path that is made up leads to the entry that was listed (`locate?_join`), so that visiting an entry
  marks what is reached from it (`marks_visit`), and a directory what is reached below it
  (`marks_below`, by induction on the levels).
* The whole change.

The walk counts its levels and gives up when none is left. That never happens: it may go down as many levels as
there are entries and one more, which is more than any chain has. The induction in `marks_below` carries this as
its hypothesis on the levels, and the case without levels contradicts it.
-/

namespace ImageLayer

namespace Tree

/-- What stands in a directory, or in a directory in it, and so on: the directory itself and all that can be
reached from it without following a symbolic link. -/
inductive Reached (t : Tree) (d : Location) : Location → Prop where
  /-- The directory itself. -/
  | self : Reached t d d
  /-- An entry of a directory that is reached, unless it is a symbolic link. -/
  | child {k : Location} {n : Name} {e f : Entry} (above : Reached t d k) (get : t.get? k = some e)
      (directory : e.isDirectory) (child : t.get? (k ++ [.name n]) = some f) (plain : f.isSymlink = false) :
      Reached t d (k ++ [.name n])

/-- The entry `e` at `k` is a name of the inode at `i`: its first, or a hard link to it below the root. -/
def IsName (i k : Location) (e : Entry) : Prop := k = i ∨ k ≠ [] ∧ isLinkTo i e

/-- The entry `e` at `k` is a name of an inode that is reached from a directory. -/
def InSubtree (t : Tree) (d k : Location) (e : Entry) : Prop :=
  ∃ j f, t.Reached d j ∧ t.get? j = some f ∧ IsName (f.inode j) k e

/-! ## Chains of directories -/

theorem Reached.alike {t t' : Tree} {d j : Location} (h : t.Reached d j) (halike : t.Alike t') :
    t'.Reached d j := by
  induction h with
  | self => exact .self
  | child _ get directory child plain above =>
    obtain ⟨e', get', hkind⟩ := halike.get? get
    obtain ⟨f', child', hkind'⟩ := halike.get? child
    exact .child above get' (by rwa [Entry.isDirectory_congr hkind]) child'
      (by rwa [Entry.isSymlink_congr hkind'])

/-- The entries on the way from a directory to what is reached from it, each one longer than those before. -/
theorem Reached.way {t : Tree} {d j : Location} (h : t.Reached d j) :
    ∃ ks : List Location, j.length = d.length + ks.length ∧ ks.Nodup ∧
      ∀ k ∈ ks, k.length ≤ j.length ∧ k ∈ t.walk.map Prod.fst := by
  induction h with
  | self => exact ⟨[], rfl, List.nodup_nil, fun _ hk => absurd hk List.not_mem_nil⟩
  | @child k n e f above get directory child plain ih =>
    obtain ⟨ks, hlength, hnodup, hks⟩ := ih
    have hmem : k ++ [.name n] ∈ t.walk.map Prod.fst := by
      rw [get?_of_ne_nil t (List.append_ne_nil_of_right_ne_nil k (List.cons_ne_nil _ _))] at child
      exact List.mem_map_of_mem (mem_walk.2 child)
    refine ⟨(k ++ [.name n]) :: ks, ?_, List.nodup_cons.2 ⟨fun hin => ?_, hnodup⟩, fun k' hk' => ?_⟩
    · simp only [List.length_append, List.length_cons, List.length_nil]
      omega
    · have hle := (hks _ hin).1
      rw [List.length_append, List.length_singleton] at hle
      exact absurd hle (Nat.not_succ_le_self _)
    · rcases List.mem_cons.1 hk' with rfl | hk'
      · exact ⟨Nat.le_refl _, hmem⟩
      · refine ⟨Nat.le_trans (hks k' hk').1 ?_, (hks k' hk').2⟩
        rw [List.length_append]
        exact Nat.le_add_right _ _

/-- An entry stands no deeper below a directory than there are entries. -/
theorem Reached.length_le {t : Tree} {d j : Location} (h : t.Reached d j) :
    j.length ≤ d.length + t.size := by
  obtain ⟨ks, hlength, hnodup, hks⟩ := h.way
  have hle := (hnodup.subperm fun k hk => (hks k hk).2).length_le
  rw [List.length_map] at hle
  have hsize : t.size = t.walk.length := rfl
  omega

theorem Reached.trans {t : Tree} {d k j : Location} (h : t.Reached d k) (h' : t.Reached k j) :
    t.Reached d j := by
  induction h' with
  | self => exact h
  | child _ get directory child plain ih => exact .child ih get directory child plain

/-- What is reached from something that stands in a directory, symbolic links left out. -/
def ReachedBelow (t : Tree) (d j : Location) : Prop :=
  ∃ n f, t.get? (d ++ [.name n]) = some f ∧ f.isSymlink = false ∧ t.Reached (d ++ [.name n]) j

/-- The way down starts with an entry of the directory. -/
theorem Reached.eq_or_below {t : Tree} {d j : Location} (h : t.Reached d j) :
    j = d ∨ (∃ e, t.get? d = some e ∧ e.isDirectory) ∧ t.ReachedBelow d j := by
  induction h with
  | self => exact Or.inl rfl
  | @child k n e f above get directory child plain ih =>
    refine Or.inr ?_
    rcases ih with rfl | ⟨hd, m, g, hg, hgplain, hreached⟩
    · exact ⟨⟨e, get, directory⟩, n, f, child, plain, .self⟩
    · exact ⟨hd, m, g, hg, hgplain, .child hreached get directory child plain⟩

theorem reached_iff_of_isDirectory {t : Tree} {d j : Location} {e : Entry} (hget : t.get? d = some e)
    (hdir : e.isDirectory) : t.Reached d j ↔ j = d ∨ t.ReachedBelow d j := by
  constructor
  · exact fun h => h.eq_or_below.imp_right And.right
  · rintro (rfl | ⟨n, f, hchild, hplain, hreached⟩)
    · exact .self
    · exact Reached.trans (.child .self hget hdir hchild hplain) hreached

theorem reached_iff_of_not_isDirectory {t : Tree} {d j : Location} {e : Entry} (hget : t.get? d = some e)
    (hdir : e.isDirectory = false) : t.Reached d j ↔ j = d := by
  constructor
  · intro h
    refine h.eq_or_below.resolve_right ?_
    rintro ⟨⟨e', hget', hdir'⟩, -⟩
    rw [← Option.some.inj (hget.symm.trans hget'), hdir] at hdir'
    cases hdir'
  · rintro rfl
    exact .self

/-- The inode at `i` has a name among the locations such that `P`. -/
def HasName (t : Tree) (P : Location → Prop) (i : Location) : Prop :=
  ∃ j f, P j ∧ t.get? j = some f ∧ f.inode j = i

theorem hasName_reached {t : Tree} {d i : Location} {e : Entry} (hget : t.get? d = some e) :
    t.HasName (t.Reached d) i ↔ i = e.inode d ∨ e.isDirectory ∧ t.HasName (t.ReachedBelow d) i := by
  cases hdir : e.isDirectory with
  | false =>
    simp only [HasName, reached_iff_of_not_isDirectory hget hdir, exists_and_left]
    simp [hget, eq_comm]
  | true =>
    simp only [HasName, reached_iff_of_isDirectory hget hdir]
    constructor
    · rintro ⟨j, f, rfl | hbelow, hf, rfl⟩
      · exact Or.inl (by rw [Option.some.inj (hf.symm.trans hget)])
      · exact Or.inr ⟨trivial, j, f, hbelow, hf, rfl⟩
    · rintro (rfl | ⟨-, j, f, hbelow, hf⟩)
      · exact ⟨d, e, Or.inl rfl, hget, rfl⟩
      · exact ⟨j, f, Or.inr hbelow, hf⟩

end Tree

/-! ## Marked inodes -/

/-- What an entry is under a change of permissions and owner. -/
def PathChange.mark (c : PathChange) (e : Entry) : Entry := (e.withMode c.permissions).withOwner c.owner

namespace Tree

/-- `t'` is `t` with all names of the inodes `done` changed. -/
structure Marked (t : Tree) (c : PathChange) (done : Location → Prop) (t' : Tree) : Prop where
  /-- Where there is nothing, nothing comes. -/
  vacant : ∀ {k}, t.get? k = none → t'.get? k = none
  /-- The names of these inodes are changed. -/
  marked : ∀ {k e}, t.get? k = some e → (∃ i, done i ∧ IsName i k e) → t'.get? k = some (c.mark e)
  /-- All other entries stay as they are. -/
  kept : ∀ {k e}, t.get? k = some e → (¬ ∃ i, done i ∧ IsName i k e) → t'.get? k = some e

theorem Marked.refl (t : Tree) (c : PathChange) : t.Marked c (fun _ => False) t where
  vacant h := h
  marked _ h := absurd h fun ⟨_, hdone, _⟩ => hdone
  kept h _ := h

theorem Marked.congr {t t' : Tree} {c : PathChange} {done done' : Location → Prop}
    (h : t.Marked c done t') (hiff : ∀ i, done i ↔ done' i) : t.Marked c done' t' := by
  have heq : done = done' := funext fun i => propext (hiff i)
  exact heq ▸ h

theorem Marked.alike {t t' : Tree} {c : PathChange} {done : Location → Prop} (h : t.Marked c done t') :
    t.Alike t' := by
  intro k
  cases hget : t.get? k with
  | none => rw [h.vacant hget]
  | some e =>
    by_cases hname : ∃ i, done i ∧ IsName i k e
    · rw [h.marked hget hname]
      rfl
    · rw [h.kept hget hname]

/-- The marked inodes say what all entries are. -/
theorem Marked.unique {t t' t'' : Tree} {c : PathChange} {done : Location → Prop} (h : t.Marked c done t')
    (h' : t.Marked c done t'') (k : Location) : t''.get? k = t'.get? k := by
  cases hget : t.get? k with
  | none => rw [h.vacant hget, h'.vacant hget]
  | some e =>
    by_cases hname : ∃ i, done i ∧ IsName i k e
    · rw [h.marked hget hname, h'.marked hget hname]
    · rw [h.kept hget hname, h'.kept hget hname]

/-- One more inode is marked, or one of them once more. -/
theorem Marked.mapNames {t t' : Tree} {c : PathChange} {done : Location → Prop} (h : t.Marked c done t')
    (l : Location) : t.Marked c (fun i => done i ∨ i = l) (t'.mapNames l c.mark) where
  vacant hget := by rw [get?_mapNames, h.vacant hget, Option.map_none]
  marked {k e} hget hname := by
    rw [get?_mapNames]
    by_cases hdone : ∃ i, done i ∧ IsName i k e
    · rw [h.marked hget hdone, Option.map_some]
      split <;> rfl
    · rw [h.kept hget hdone, Option.map_some, if_pos]
      obtain ⟨i, hi | rfl, hname⟩ := hname
      · exact absurd ⟨i, hi, hname⟩ hdone
      · exact hname
  kept {k e} hget hname := by
    have hdone : ¬ ∃ i, done i ∧ IsName i k e := fun ⟨i, hi, hn⟩ => hname ⟨i, Or.inl hi, hn⟩
    rw [get?_mapNames, h.kept hget hdone, Option.map_some, if_neg]
    exact fun hn => hname ⟨l, Or.inr rfl, hn⟩

/-- Two changes of the names of one inode, one after the other. -/
theorem mapNames_mapNames (t : Tree) (l : Location) {f g : Entry → Entry} (hf : ∀ e, (f e).kind = e.kind) :
    (t.mapNames l f).mapNames l g = t.mapNames l fun e => g (f e) := by
  have hlink : ∀ e, isLinkTo l (f e) = isLinkTo l e := fun e => by rw [isLinkTo, isLinkTo, hf]
  unfold mapNames
  congr 1
  · dsimp only
    split <;> rfl
  · refine SortedMap.ext ?_
    simp only [SortedMap.mapWithKey, List.map_map]
    refine List.map_congr_left fun x _ => ?_
    simp only [Function.comp_apply]
    split
    · rename_i hname
      rw [hlink, if_pos hname]
    · rfl

end Tree

namespace Edit

/-- A computation that succeeds and marks the inodes `new`, whichever are marked before. -/
def Marks (t : Tree) (c : PathChange) (x : Edit Unit) (new : Location → Prop) : Prop :=
  ∀ done t₁, t.Marked c done t₁ →
    ∃ t₂, x t₁ = .ok () t₂ ∧ t.Marked c (fun i => done i ∨ new i) t₂

section

variable {t : Tree} {c : PathChange} {x y : Edit Unit} {new more : Location → Prop}

theorem Marks.congr (h : Marks t c x new) (hiff : ∀ i, new i ↔ more i) : Marks t c x more := by
  have heq : new = more := funext fun i => propext (hiff i)
  exact heq ▸ h

theorem marks_pure : Marks t c (pure ()) fun _ => False :=
  fun _ t₁ h => ⟨t₁, rfl, h.congr fun _ => (or_false _).symm ▸ Iff.rfl⟩

theorem Marks.bind (hx : Marks t c x new) (hy : Marks t c y more) :
    Marks t c (x >>= fun _ => y) fun i => new i ∨ more i := by
  intro done t₁ h
  obtain ⟨t₂, hx₂, h₂⟩ := hx done t₁ h
  obtain ⟨t₃, hy₃, h₃⟩ := hy _ t₂ h₂
  exact ⟨t₃, (bind_of_eq_ok hx₂ _).trans hy₃, h₃.congr fun i => or_assoc⟩

theorem Marks.forM {α : Type} {f : α → Edit Unit} {new : α → Location → Prop} {as : List α}
    (h : ∀ a ∈ as, Marks t c (f a) (new a)) : Marks t c (as.forM f) fun i => ∃ a ∈ as, new a i := by
  induction as with
  | nil => exact marks_pure.congr fun i => by simp
  | cons a as ih =>
    have hrest := ih fun b hb => h b (List.mem_cons_of_mem a hb)
    exact ((h a List.mem_cons_self).bind hrest).congr fun i => by simp

/-- What is asked of the tree depends on nothing but the kinds of its entries. -/
theorem marks_ask_bind {α : Type} {f : Tree → Except Failure α} {g : α → Edit Unit}
    (h : ∀ t₁, t.Alike t₁ → ∃ a, f t₁ = .ok a ∧ Marks t c (g a) new) : Marks t c (ask f >>= g) new := by
  intro done t₁ h₁
  obtain ⟨a, ha, hg⟩ := h t₁ h₁.alike
  obtain ⟨t₂, hg₂, h₂⟩ := hg done t₁ h₁
  exact ⟨t₂, (bind_of_eq_ok (ask_of_eq_ok ha) g).trans hg₂, h₂⟩

theorem marks_setAttributes (hsources : t.SourcesAreFiles) {p : Path} {i : Location}
    (hi : t.inode? true p = some i) : Marks t c (setAttributes p c) (· = i) := by
  intro done t₁ h
  have hinodeOf : ∀ t', t.Alike t' → t'.inodeOf p = .ok i := fun t' halike =>
    (halike.sourcesAreFiles hsources).inodeOf_eq_ok.2 ((halike.inode? true p).trans hi)
  have hchmod : t₁.chmod p c.permissions = .ok (t₁.mapNames i (.withMode c.permissions)) := by
    rw [Tree.chmod, hinodeOf t₁ h.alike]
    rfl
  have halike : t.Alike (t₁.mapNames i (.withMode c.permissions)) :=
    h.alike.trans (Tree.alike_mapNames t₁ i fun _ => rfl)
  have hchown : (t₁.mapNames i (.withMode c.permissions)).chown p c.owner = .ok (t₁.mapNames i c.mark) := by
    rw [Tree.chown, hinodeOf _ halike]
    exact congrArg Except.ok (Tree.mapNames_mapNames t₁ i fun _ => rfl)
  refine ⟨t₁.mapNames i c.mark, ?_, h.mapNames i⟩
  exact (bind_of_eq_ok (change_of_eq_ok hchmod) _).trans (change_of_eq_ok hchown)

end

/-- What a change does with one entry of a directory, where it goes on below with `below`. -/
def visit (c : PathChange) (below : Path → Edit Unit) (child : Path) : Edit Unit := do
  let e ← ask (·.entryAt child)
  if e.isSymlink then pure ()
  else do
    setAttributes child c
    if e.isDirectory then below child else pure ()

/-- A path that names anything but a symbolic link leads to it. -/
theorem locate?_of_plain {t : Tree} {parts : List Part} {k : Location} {f : Entry}
    (hloc : t.locate? false parts = some k) (hget : t.get? k = some f) (hplain : f.isSymlink = false) :
    t.locate? true parts = some k := by
  refine Tree.locate?_followed hloc fun hk => (Tree.linkAt_eq_none_iff hk).2 fun e he => ?_
  rw [Option.some.inj (he.symm.trans hget), hplain]

theorem marks_visit {t : Tree} {c : PathChange} (hsources : t.SourcesAreFiles) {below : Path → Edit Unit}
    {child : Path} {k : Location} {f : Entry}
    (hloc : t.locate? false child.parts = some k) (hget : t.get? k = some f)
    (hbelow : f.isSymlink = false → f.isDirectory → Marks t c (below child) (t.HasName (t.ReachedBelow k))) :
    Marks t c (visit c below child) fun i => f.isSymlink = false ∧ t.HasName (t.Reached k) i := by
  refine marks_ask_bind fun t₁ halike => ?_
  obtain ⟨f', hget', hkind⟩ := halike.get? hget
  have hentry : t₁.entryAt child = .ok f' := by
    rw [Tree.entryAt, Tree.resolve, ← Tree.locate?_congr fun l hl => (halike.linkAt hl).symm, hloc]
    simp [bind, Except.bind, hget']
  refine ⟨f', hentry, ?_⟩
  rw [Entry.isSymlink_congr hkind, Entry.isDirectory_congr hkind]
  simp only [Tree.hasName_reached hget]
  cases hplain : f.isSymlink with
  | true => exact marks_pure.congr fun i => by simp
  | false =>
    have hinode := Tree.inode?_eq_some.2 ⟨k, f, locate?_of_plain hloc hget hplain, hget, rfl⟩
    have hset : Marks t c (setAttributes child c) (· = f.inode k) := marks_setAttributes hsources hinode
    cases hdir : f.isDirectory with
    | false => exact (hset.bind marks_pure).congr fun i => by simp
    | true => exact (hset.bind (hbelow hplain hdir)).congr fun i => by simp

/-- The name of an entry of a directory, written behind a path to the directory, leads to the entry. -/
theorem locate?_join {t : Tree} (hproper : ∀ x ∈ t.walk, x.1.Proper) {p : Path} {d : Location} {n : Name}
    {f : Entry} (hloc : t.locate? true p.parts = some d) (hget : t.get? (d ++ [.name n]) = some f) :
    t.locate? false (p.join ⟨n⟩).parts = some (d ++ [.name n]) := by
  have hname : Name.Proper n := by
    rw [Tree.get?_of_ne_nil t (List.append_ne_nil_of_right_ne_nil d (List.cons_ne_nil _ _))] at hget
    exact hproper _ (Tree.mem_walk.2 hget) (.name n) (List.mem_append_right d (List.mem_singleton.2 rfl))
  rw [Path.parts_join_name p hname]
  exact Tree.locate?_concat hloc (Or.inl rfl)

/-- The change of a directory reaches the inodes of what stands below it, if it may go down further than
anything stands. -/
theorem marks_below {t : Tree} {c : PathChange} (hproper : ∀ x ∈ t.walk, x.1.Proper)
    (hsources : t.SourcesAreFiles) {depth : Nat} {p : Path} {d : Location} {e : Entry}
    (hloc : t.locate? true p.parts = some d) (hget : t.get? d = some e) (hdir : e.isDirectory)
    (hdepth : ∀ j, t.Reached d j → j.length < d.length + depth) :
    Marks t c (setAttributesBelow c depth p) (t.HasName (t.ReachedBelow d)) := by
  induction depth generalizing p d e with
  | zero => exact absurd (hdepth d .self) (Nat.lt_irrefl _)
  | succ depth ih =>
    change Marks t c (ask (·.readDirectory p) >>= fun names =>
      names.forM fun n => visit c (setAttributesBelow c depth) (p.join ⟨n⟩)) _
    refine marks_ask_bind fun t₁ halike => ?_
    have hloc₁ : t₁.locate? true p.parts = some d := by
      rw [← Tree.locate?_congr fun l hl => (halike.linkAt hl).symm, hloc]
    obtain ⟨names, hnames, hmem⟩ := Tree.mem_readDirectory hloc₁ (halike.isDirectoryAt hget hdir)
    refine ⟨names, hnames, ?_⟩
    have hvisit : ∀ n ∈ names, Marks t c (visit c (setAttributesBelow c depth) (p.join ⟨n⟩)) fun i =>
        ∃ f, t.get? (d ++ [.name n]) = some f ∧ f.isSymlink = false ∧
          t.HasName (t.Reached (d ++ [.name n])) i := by
      intro n hn
      obtain ⟨f₁, hf₁⟩ := (hmem n).1 hn
      obtain ⟨f, hf, -⟩ := halike.symm.get? hf₁
      have hchild := locate?_join hproper hloc hf
      refine (marks_visit hsources hchild hf fun hplain hfdir =>
        ih (locate?_of_plain hchild hf hplain) hf hfdir fun j hj => ?_).congr
          fun i => ⟨fun h => ⟨f, hf, h⟩, ?_⟩
      · have hlength := hdepth j (Tree.Reached.trans (.child .self hget hdir hf hplain) hj)
        rw [List.length_append, List.length_singleton]
        omega
      · rintro ⟨g, hg, h⟩
        obtain rfl := Option.some.inj (hf.symm.trans hg)
        exact h
    refine (Marks.forM hvisit).congr fun i => ?_
    constructor
    · rintro ⟨n, -, f, hf, hplain, j, g, hreached, hg⟩
      exact ⟨j, g, ⟨n, f, hf, hplain, hreached⟩, hg⟩
    · rintro ⟨j, g, ⟨n, f, hf, hplain, hreached⟩, hg⟩
      obtain ⟨f₁, hf₁, -⟩ := halike.get? hf
      exact ⟨n, (hmem n).2 ⟨f₁, hf₁⟩, f, hf, hplain, j, g, hreached, hg⟩

/-! ## The whole change -/

section

variable {t : Tree} {c : PathChange} {p : Path} {d : Location} {e : Entry}

/-- The change of a directory and of what is below it, if it may go down more levels than there are entries. -/
theorem marks_reached (hproper : ∀ x ∈ t.walk, x.1.Proper) (hsources : t.SourcesAreFiles)
    (hloc : t.locate? false p.parts = some d) (hget : t.get? d = some e) (hdir : e.isDirectory)
    {t₁ : Tree} (halike : t.Alike t₁) {depth : Nat} (hdepth : t₁.size < depth) :
    Marks t c (setAttributes p c >>= fun _ => setAttributesBelow c depth p) (t.HasName (t.Reached d)) := by
  have hfollowed := locate?_of_plain hloc hget (Entry.isSymlink_of_isDirectory hdir)
  have hself := Tree.inode?_eq_some.2 ⟨d, e, hfollowed, hget, rfl⟩
  refine ((marks_setAttributes hsources hself).bind
    (marks_below hproper hsources hfollowed hget hdir fun j hj => ?_)).congr fun i => ?_
  · have hlength := (hj.alike halike).length_le
    omega
  · rw [Tree.hasName_reached hget]
    simp [hdir]

theorem marks_applyChange (hproper : ∀ x ∈ t.walk, x.1.Proper) (hsources : t.SourcesAreFiles)
    (hkind : c.kind = .permissions) (hrecursive : c.recursive = true)
    (hloc : t.locate? false (Path.ofString c.path).parts = some d) (hget : t.get? d = some e)
    (hdir : e.isDirectory) :
    Marks t c (applyChange c) (t.HasName (t.Reached d)) := by
  intro done t₁ h
  -- What the run asks for on its way: it goes on below as deep as the tree has entries.
  obtain ⟨t₂, hset, h₂⟩ := marks_setAttributes (c := c) hsources (Tree.inode?_eq_some.2
    ⟨d, e, locate?_of_plain hloc hget (Entry.isSymlink_of_isDirectory hdir), hget, rfl⟩) done t₁ h
  obtain ⟨e₂, hget₂, hkind₂⟩ := h₂.alike.get? hget
  have hentry : t₂.entryAt (Path.ofString c.path) = .ok e₂ := by
    rw [Tree.entryAt, Tree.resolve, ← Tree.locate?_congr fun l hl => (h₂.alike.linkAt hl).symm, hloc]
    simp [bind, Except.bind, hget₂]
  obtain ⟨t₃, hrun, h₃⟩ := marks_reached (c := c) hproper hsources hloc hget hdir h₂.alike
    (Nat.lt_succ_self t₂.size) done t₁ h
  refine ⟨t₃, ?_, h₃⟩
  have hpath : applyToPath c (.ofString c.path) = setAttributes (.ofString c.path) c := by
    rw [applyToPath, hkind]
  rw [bind_of_eq_ok hset] at hrun
  rw [applyChange, hpath, bind_of_eq_ok hset, if_pos hrecursive, bind_of_eq_ok (ask_of_eq_ok hentry),
    Entry.isDirectory_congr hkind₂, if_pos hdir, ← hrun]
  rfl

end

/-- A recursive change of the permissions of a directory gives its permissions and its owner to all names of
the directory and of whatever can be reached from it without following a symbolic link, and leaves all other
entries as they are. Nothing that is reached stands more levels below the directory than there are entries; so how
deep the change may go makes no difference as soon as it is deeper than that, and the change always succeeds. -/
theorem applyChanges_subtree {t : Tree} {c : PathChange} (hproper : ∀ x ∈ t.walk, x.1.Proper)
    (hsources : t.SourcesAreFiles) (hkind : c.kind = .permissions) (hrecursive : c.recursive = true)
    {d : Location} {e : Entry} (hloc : t.locate? false (Path.ofString c.path).parts = some d)
    (hget : t.get? d = some e) (hdir : e.isDirectory) :
    ∃ t', applyChanges [c] t = .ok () t' ∧ t.Alike t' ∧
      (∀ k f, t.get? k = some f → t.InSubtree d k f →
        t'.get? k = some { f with mode := c.permissions &&& 0o7777, owner := some c.owner }) ∧
      (∀ k f, t.get? k = some f → ¬ t.InSubtree d k f → t'.get? k = some f) ∧
      (∀ j, t.Reached d j → j.length ≤ d.length + t.size) ∧
      ∀ depth, t.size < depth → ∃ t'',
        (setAttributes (.ofString c.path) c >>= fun _ => setAttributesBelow c depth (.ofString c.path)) t
          = .ok () t'' ∧ ∀ k, t''.get? k = t'.get? k := by
  have hnames : ∀ k f, t.InSubtree d k f ↔
      ∃ i, (False ∨ t.HasName (t.Reached d) i) ∧ Tree.IsName i k f := by
    intro k f
    constructor
    · rintro ⟨j, g, hreached, hg, hname⟩
      exact ⟨g.inode j, Or.inr ⟨j, g, hreached, hg, rfl⟩, hname⟩
    · rintro ⟨_, hfalse | ⟨j, g, hreached, hg, rfl⟩, hname⟩
      · exact hfalse.elim
      · exact ⟨j, g, hreached, hg, hname⟩
  obtain ⟨t', hrun, hmarked⟩ :=
    marks_applyChange (c := c) hproper hsources hkind hrecursive hloc hget hdir _ t (.refl t c)
  refine ⟨t', ?_, hmarked.alike, fun k f hf hin => ?_, fun k f hf hout => ?_, fun j hj => hj.length_le,
    fun depth hdepth => ?_⟩
  · exact (bind_of_eq_ok (inContext_of_eq_ok (.pathChange c.path) hrun) _).trans rfl
  · rw [hmarked.marked hf ((hnames k f).1 hin), Nat.and_two_pow_sub_one_eq_mod c.permissions 12]
    rfl
  · exact hmarked.kept hf (mt (hnames k f).2 hout)
  · obtain ⟨t'', hrun'', hmarked''⟩ := marks_reached (c := c) hproper hsources hloc hget hdir
      (fun _ => rfl) hdepth _ t (.refl t c)
    exact ⟨t'', hrun'', hmarked.unique hmarked''⟩

/-- A directory behind a symbolic link, and in it a directory with a file that has a further name outside. -/
theorem applyChanges_subtree_through_link :
    let file : Path := .ofString "d/s/f"
    let further : Path := .ofString "b"
    let t := Tree.empty.run [.makeDirectories (.ofString "d/s") 0o755, .writeFile file [1] 0o644,
      .hardlink file further, .symlink (.ofString "..") (.ofString "d/up"),
      .symlink (.ofString "/") (.ofString "here")]
    let c : PathChange :=
      { path := "here/d", kind := .permissions, owner := ⟨5, 6⟩, permissions := 0o17750, recursive := true }
    (∀ x ∈ t.walk, x.1.Proper) ∧ t.SourcesAreFiles ∧
      t.locate? false (Path.ofString c.path).parts = some (Path.ofString "d").parts ∧
      ∃ t', applyChanges [c] t = .ok () t' ∧ t.Alike t' ∧
        t'.get? further.parts = some ⟨.hardlink file, 0o7750, some ⟨5, 6⟩⟩ := by
  intro file further t c
  have hproper : ∀ x ∈ t.walk, x.1.Proper := by decide +kernel
  have hsources : t.SourcesAreFiles := (Tree.sound_empty.run _).linksToFiles.lead.sourcesAreFiles
  have hloc : t.locate? false (Path.ofString c.path).parts = some (Path.ofString "d").parts := by
    decide +kernel
  obtain ⟨t', hrun, halike, hmarked, -⟩ := applyChanges_subtree (c := c) hproper hsources rfl rfl hloc
    (e := .directory 0o755) (by decide +kernel) rfl
  refine ⟨hproper, hsources, hloc, t', hrun, halike, ?_⟩
  have hin : t.InSubtree (Path.ofString "d").parts further.parts ⟨.hardlink file, 0o644, none⟩ := by
    refine ⟨file.parts, .file [1] 0o644, ?_, by decide +kernel, Or.inr ⟨by decide, by decide +kernel⟩⟩
    have hbelow : t.Reached (Path.ofString "d").parts (Path.ofString "d/s").parts :=
      .child (n := Bytes.ofString "s") .self (e := .directory 0o755) (by decide +kernel) rfl
        (f := .directory 0o755) (by decide +kernel) rfl
    exact .child (n := Bytes.ofString "f") hbelow (e := .directory 0o755) (by decide +kernel) rfl
      (f := .file [1] 0o644) (by decide +kernel) rfl
  exact (hmarked _ _ (by decide +kernel) hin).trans (by decide +kernel)

end Edit

end ImageLayer
