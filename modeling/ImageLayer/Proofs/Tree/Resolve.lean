import ImageLayer.Tree.Resolve
import ImageLayer.Proofs.Tree.Location
import ImageLayer.Proofs.Tree.View
/-!
Where paths lead.

A path is followed part by part from the root, and a symbolic link on the way puts its target in front of the
parts that are left. This module has what can be said of the end without retracing the way. The walk itself is
followed in `ImageLayer.Proofs.Tree.Course`, which needs these facts only to say what the end looks like.

The definition goes in two layers: `advance` takes parts up to the next link that has to be followed, and
`resolveFrom` follows links, up to a limit. Most statements are therefore proved in three steps: of `advance` by
induction on parts, of `resolveFrom` by induction on the links that may be followed, and of `locate?`, which
starts at the root.

Sections:

* Proper names: a path leads to a location of proper names, whatever links stand on the way (`locate?_proper`).
* The last part of a path. One that is not followed leads to where it would lead when followed, or else to a
  symbolic link (`locate?_unfollowed`).
* No links on the way. Where a path leads no link stands above (`locate?_canonical`), so that the path that
  spells out the location leads there as well (`Canonical.locate?`).
* Paths in two pieces: the rest of a path goes on from where its beginning leads, with the links that are left.
* More links. They change nothing where a path leads somewhere, so that the beginning of a path may be replaced
  by where it leads (`locate?_append`): this needs no more links than the whole did.
* Trees with the same symbolic links have paths that lead to the same places (`locate?_congr`). It is how every
  operation that adds no link is seen to leave all paths alone.
* New entries, which get a proper name in a directory (`resolveNew_eq_ok`).

The root is never taken for a link, even if the entry there is one, which is why links are asked for at
locations other than `[]`.
-/

namespace ImageLayer

/-- Results can be compared. -/
instance decidableEqExcept {α ε : Type} [DecidableEq α] [DecidableEq ε] : DecidableEq (Except ε α)
  | .ok a, .ok b => decidable_of_iff (a = b) (by rw [Except.ok.injEq])
  | .error a, .error b => decidable_of_iff (a = b) (by rw [Except.error.injEq])
  | .ok _, .error _ => isFalse nofun
  | .error _, .ok _ => isFalse nofun

namespace Tree

/-- A stop at proper names with nothing but spelled parts to come. -/
def Stop.Proper : Stop → Prop
  | .arrived l => l.Proper
  | .link l _ rest => l.Proper ∧ ∀ p ∈ rest, p.Spelled

theorem advance_proper (t : Tree) (followLast : Bool) {l : Location} {parts : List Part}
    (hl : l.Proper) (hparts : ∀ p ∈ parts, p.Spelled) :
    (advance t followLast l parts).Proper := by
  fun_induction advance t followLast l parts with
  | case1 l => exact hl
  | case2 l rest ih => exact ih hl.dropLast fun p hp => hparts p (List.mem_cons_of_mem _ hp)
  | case3 l n rest target htarget hlast ih =>
    exact ih (hl.append_name (hparts _ (List.mem_cons_self ..)))
      fun p hp => hparts p (List.mem_cons_of_mem _ hp)
  | case4 l n rest target htarget hlast =>
    exact ⟨hl, fun p hp => hparts p (List.mem_cons_of_mem _ hp)⟩
  | case5 l n rest hnone ih =>
    exact ih (hl.append_name (hparts _ (List.mem_cons_self ..)))
      fun p hp => hparts p (List.mem_cons_of_mem _ hp)

theorem resolveFrom_proper (t : Tree) (followLast : Bool) {links : Nat} {l l' : Location}
    {parts : List Part} (hl : l.Proper) (hparts : ∀ p ∈ parts, p.Spelled)
    (h : t.resolveFrom followLast links l parts = some l') : l'.Proper := by
  have hstop := advance_proper t followLast hl hparts
  fun_induction resolveFrom t followLast links l parts with
  | case1 links l parts l₁ hadv =>
    rw [hadv] at hstop
    exact Option.some.inj h ▸ hstop
  | case2 l parts l₁ target rest hadv => cases h
  | case3 l parts l₁ target rest hadv links ih =>
    rw [hadv] at hstop
    have hfrom : Location.Proper (if target.isAbsolute then [] else l₁) := by
      split
      · exact Location.proper_nil
      · exact hstop.1
    have hmore : ∀ p ∈ target.parts ++ rest, p.Spelled := by
      intro p hp
      rcases List.mem_append.1 hp with hp | hp
      · exact Path.spelled_of_mem_parts hp
      · exact hstop.2 p hp
    exact ih hfrom hmore h (advance_proper t followLast hfrom hmore)

/-- A path leads to a location of proper names. -/
theorem locate?_proper {t : Tree} {followLast : Bool} {parts : List Part} {l : Location}
    (hparts : ∀ p ∈ parts, p.Spelled) (h : t.locate? followLast parts = some l) : l.Proper :=
  resolveFrom_proper t followLast Location.proper_nil hparts h

/-! ## The last part of a path -/

/-- Without following the last part, a walk stops where it would stop otherwise, or arrives at a
symbolic link. -/
theorem advance_unfollowed (t : Tree) (l : Location) (parts : List Part) :
    advance t false l parts = advance t true l parts ∨
      ∃ k, advance t false l parts = .arrived k ∧ k ≠ [] ∧ (t.linkAt k).isSome := by
  fun_induction advance t true l parts with
  | case1 l => exact Or.inl (by rw [advance])
  | case2 l rest ih =>
    rw [advance]
    exact ih
  | case3 l n rest target htarget hlast => simp at hlast
  | case4 l n rest target htarget hlast =>
    rw [advance, htarget]
    cases rest with
    | nil => exact Or.inr ⟨l ++ [.name n], by simp [advance, htarget]⟩
    | cons p rest => exact Or.inl (by simp)
  | case5 l n rest hnone ih =>
    rw [advance, hnone]
    exact ih

theorem resolveFrom_unfollowed {t : Tree} {links : Nat} {l l' : Location} {parts : List Part}
    (h : t.resolveFrom true links l parts = some l') :
    t.resolveFrom false links l parts = some l' ∨
      ∃ k, t.resolveFrom false links l parts = some k ∧ k ≠ [] ∧ (t.linkAt k).isSome := by
  fun_induction resolveFrom t true links l parts with
  | case1 links l parts l₁ hadv =>
    rcases advance_unfollowed t l parts with heq | ⟨k, hk, hlink⟩
    · exact Or.inl (by simp only [resolveFrom, heq, hadv, h])
    · exact Or.inr ⟨k, by rw [resolveFrom, hk], hlink⟩
  | case2 l parts l₁ target rest hadv => cases h
  | case3 l parts l₁ target rest hadv links ih =>
    rcases advance_unfollowed t l parts with heq | ⟨k, hk, hlink⟩
    · rw [resolveFrom, heq, hadv]
      exact ih h
    · exact Or.inr ⟨k, by rw [resolveFrom, hk], hlink⟩

/-- A path that leads somewhere leads to the same place with the last part not followed, unless that
names a symbolic link. -/
theorem locate?_unfollowed {t : Tree} {parts : List Part} {l : Location}
    (h : t.locate? true parts = some l) :
    t.locate? false parts = some l ∨
      ∃ k, t.locate? false parts = some k ∧ k ≠ [] ∧ (t.linkAt k).isSome :=
  resolveFrom_unfollowed h

theorem resolveFrom_followed {t : Tree} {links : Nat} {l k : Location} {parts : List Part}
    (h : t.resolveFrom false links l parts = some k) (hk : k ≠ [] → t.linkAt k = none) :
    t.resolveFrom true links l parts = some k := by
  fun_induction resolveFrom t false links l parts with
  | case1 links l parts l₁ hadv =>
    rcases advance_unfollowed t l parts with heq | ⟨k', hk', hne, hlink⟩
    · simp only [resolveFrom, ← heq, hadv, h]
    · rw [hadv] at hk'
      obtain rfl := Stop.arrived.inj hk'
      obtain rfl := Option.some.inj h
      simp [hk hne] at hlink
  | case2 l parts l₁ target rest hadv => cases h
  | case3 l parts l₁ target rest hadv links ih =>
    rcases advance_unfollowed t l parts with heq | ⟨k', hk', -⟩
    · rw [resolveFrom, ← heq, hadv]
      exact ih h
    · rw [hadv] at hk'
      cases hk'

/-- A path that names no symbolic link leads to what it names. -/
theorem locate?_followed {t : Tree} {parts : List Part} {k : Location}
    (h : t.locate? false parts = some k) (hk : k ≠ [] → t.linkAt k = none) :
    t.locate? true parts = some k :=
  resolveFrom_followed h hk

/-! ## No links on the way -/

/-- No symbolic link stands at a location or above it. -/
def LinkFree (t : Tree) (l : Location) : Prop := ∀ k, k <+: l → k ≠ [] → t.linkAt k = none

theorem linkFree_nil (t : Tree) : t.LinkFree [] := fun _ hk hne => absurd (List.prefix_nil.1 hk) hne

theorem LinkFree.dropLast {t : Tree} {l : Location} (h : t.LinkFree l) : t.LinkFree l.dropLast :=
  fun k hk hne => h k (hk.trans (List.dropLast_prefix l)) hne

theorem LinkFree.append {t : Tree} {l : Location} {p : Part} (h : t.LinkFree l)
    (hp : t.linkAt (l ++ [p]) = none) : t.LinkFree (l ++ [p]) := by
  intro k hk hne
  rcases List.prefix_concat_iff.1 hk with rfl | hk
  · exact hp
  · exact h k hk hne

/-- No symbolic link stands above a location, and none at it if links at the end are followed. -/
def Canonical (t : Tree) (followLast : Bool) (l : Location) : Prop :=
  ∀ k, k <+: l → k ≠ [] → k ≠ l ∨ followLast → t.linkAt k = none

theorem LinkFree.canonical {t : Tree} {l : Location} (h : t.LinkFree l) (followLast : Bool) :
    t.Canonical followLast l := fun k hk hne _ => h k hk hne

/-- A stop at a canonical location, with no link in the directory that another link was met in. -/
def Stop.Canonical (t : Tree) (followLast : Bool) : Stop → Prop
  | .arrived l => t.Canonical followLast l
  | .link l _ _ => t.LinkFree l

theorem advance_canonical (t : Tree) (followLast : Bool) {l : Location} (parts : List Part)
    (hl : t.LinkFree l) : (advance t followLast l parts).Canonical t followLast := by
  fun_induction advance t followLast l parts with
  | case1 l => exact hl.canonical followLast
  | case2 l rest ih => exact ih hl.dropLast
  | case3 l n rest target htarget hlast =>
    -- Only the end of a path is left as it is, and only where it is not followed.
    obtain ⟨hrest, hfollow⟩ : rest = [] ∧ followLast = false := by simpa using hlast
    subst hrest
    rw [advance]
    intro k hk hne hother
    rcases List.prefix_concat_iff.1 hk with heq | hk
    · rcases hother with hother | hother
      · exact absurd heq hother
      · simp [hfollow] at hother
    · exact hl k hk hne
  | case4 l n rest target htarget hlast => exact hl
  | case5 l n rest hnone ih => exact ih (hl.append hnone)

theorem resolveFrom_canonical {t : Tree} {followLast : Bool} {links : Nat} {l l' : Location}
    {parts : List Part} (hl : t.LinkFree l) (h : t.resolveFrom followLast links l parts = some l') :
    t.Canonical followLast l' := by
  have hstop := advance_canonical t followLast parts hl
  fun_induction resolveFrom t followLast links l parts with
  | case1 links l parts l₁ hadv =>
    rw [hadv] at hstop
    exact Option.some.inj h ▸ hstop
  | case2 l parts l₁ target rest hadv => cases h
  | case3 l parts l₁ target rest hadv links ih =>
    rw [hadv] at hstop
    have hfrom : t.LinkFree (if target.isAbsolute then [] else l₁) := by
      split
      · exact linkFree_nil t
      · exact hstop
    exact ih hfrom h (advance_canonical t followLast _ hfrom)

/-- A path leads to a canonical location. -/
theorem locate?_canonical {t : Tree} {followLast : Bool} {parts : List Part} {l : Location}
    (h : t.locate? followLast parts = some l) : t.Canonical followLast l :=
  resolveFrom_canonical (linkFree_nil t) h

/-- Neither where a path leads nor above it is a symbolic link. -/
theorem locate?_linkFree {t : Tree} {parts : List Part} {l : Location}
    (h : t.locate? true parts = some l) : t.LinkFree l :=
  fun k hk hne => locate?_canonical h k hk hne (Or.inr rfl)

theorem advance_of_linkFree {t : Tree} (followLast : Bool) {l : Location} {rest : List Part}
    (hrest : Location.Proper rest) (h : t.LinkFree (l ++ rest)) :
    advance t followLast l rest = .arrived (l ++ rest) := by
  induction rest generalizing l with
  | nil => rw [advance, List.append_nil]
  | cons p rest ih =>
    cases p with
    | up => exact absurd (hrest _ (List.mem_cons_self ..)) id
    | name n =>
      rw [List.append_cons] at h
      have hnone : t.linkAt (l ++ [.name n]) = none := h _ (List.prefix_append _ _) (by simp)
      rw [advance, hnone, ih (fun p hp => hrest p (List.mem_cons_of_mem _ hp)) h]
      simp

/-- Where no link stands at a location or above it, the path that spells it out leads to it. -/
theorem locate?_of_linkFree {t : Tree} (followLast : Bool) {l : Location} (hl : l.Proper)
    (h : t.LinkFree l) : t.locate? followLast l = some l := by
  rw [locate?, resolveFrom, advance_of_linkFree followLast hl h, List.nil_append]

/-! ## Paths in two pieces -/

theorem advance_append (t : Tree) (followLast : Bool) (l : Location) (a : List Part)
    {b : List Part} (hb : b ≠ []) :
    advance t followLast l (a ++ b) = match advance t true l a with
      | .arrived r => advance t followLast r b
      | .link r target rest => .link r target (rest ++ b) := by
  fun_induction advance t true l a with
  | case1 l => rfl
  | case2 l rest ih => simpa only [List.cons_append, advance] using ih
  | case3 l n rest target htarget hlast => simp at hlast
  | case4 l n rest target htarget hlast => simp [advance, htarget, hb]
  | case5 l n rest hnone ih =>
    rw [List.cons_append, advance, hnone]
    exact ih

/-- What is left of a path goes on from where its beginning leads, with the links that are left. -/
theorem resolveFrom_append {t : Tree} (followLast : Bool) {links : Nat} {l r : Location}
    {a b : List Part} (hb : b ≠ []) (h : t.resolveFrom true links l a = some r) :
    ∃ left ≤ links, t.resolveFrom followLast links l (a ++ b) = t.resolveFrom followLast left r b := by
  fun_induction resolveFrom t true links l a with
  | case1 links l a l₁ hadv =>
    obtain rfl := Option.some.inj h
    refine ⟨links, Nat.le_refl _, ?_⟩
    rw [resolveFrom, resolveFrom, advance_append t followLast l a hb, hadv]
  | case2 l a l₁ target rest hadv => cases h
  | case3 l a l₁ target rest hadv links ih =>
    obtain ⟨left, hleft, heq⟩ := ih h
    refine ⟨left, Nat.le_succ_of_le hleft, ?_⟩
    rw [resolveFrom, advance_append t followLast l a hb, hadv, ← heq, List.append_assoc]

theorem resolveFrom_up (t : Tree) (followLast : Bool) (links : Nat) (l : Location) :
    t.resolveFrom followLast links l [.up] = some l.dropLast := by
  cases links <;> simp [resolveFrom, advance]

theorem resolveFrom_name {t : Tree} (followLast : Bool) (links : Nat) {l : Location} {n : Name}
    (h : followLast = false ∨ t.linkAt (l ++ [.name n]) = none) :
    t.resolveFrom followLast links l [.name n] = some (l ++ [.name n]) := by
  have hadv : advance t followLast l [.name n] = .arrived (l ++ [.name n]) := by
    rw [advance]
    cases hlink : t.linkAt (l ++ [.name n]) with
    | none => simp [advance]
    | some target =>
      rcases h with rfl | h
      · simp [advance]
      · simp [hlink] at h
  cases links <;> rw [resolveFrom, hadv]

/-- A name where parts lead to, which is left as it is if it is not followed or no link. -/
theorem locate?_concat {t : Tree} {parts : List Part} {d : Location} (h : t.locate? true parts = some d)
    {followLast : Bool} {n : Name} (hn : followLast = false ∨ t.linkAt (d ++ [.name n]) = none) :
    t.locate? followLast (parts ++ [.name n]) = some (d ++ [.name n]) := by
  obtain ⟨left, -, hleft⟩ := resolveFrom_append followLast (List.cons_ne_nil (Part.name n) []) h
  rw [Tree.locate?, hleft, resolveFrom_name followLast left hn]

/-- The path that spells out a canonical location leads to it. -/
theorem Canonical.locate? {t : Tree} {followLast : Bool} {l : Location} (h : t.Canonical followLast l)
    (hl : l.Proper) : t.locate? followLast l = some l := by
  rcases List.eq_nil_or_concat l with rfl | ⟨d, p, hconcat⟩
  · rfl
  · rw [List.concat_eq_append] at hconcat
    subst hconcat
    have hd : t.LinkFree d := by
      intro k hk hne
      refine h k (hk.trans (List.prefix_append d [p])) hne (Or.inl ?_)
      intro heq
      have hlength := hk.length_le
      rw [heq, List.length_append, List.length_singleton] at hlength
      omega
    cases p with
    | up => exact absurd (hl _ (List.mem_append_right d (List.mem_singleton.2 rfl))) id
    | name n =>
      have habove := locate?_of_linkFree true (fun p hp => hl p (List.mem_append_left _ hp)) hd
      refine locate?_concat habove ?_
      cases followLast with
      | false => exact Or.inl rfl
      | true => exact Or.inr (h _ (List.prefix_refl _) (by simp) (Or.inr rfl))

/-! ## More links -/

theorem resolveFrom_mono {t : Tree} {followLast : Bool} {links more : Nat} {l l' : Location}
    {parts : List Part} (hle : links ≤ more) (h : t.resolveFrom followLast links l parts = some l') :
    t.resolveFrom followLast more l parts = some l' := by
  fun_induction resolveFrom t followLast links l parts generalizing more with
  | case1 links l parts l₁ hadv =>
    rw [resolveFrom, hadv]
    exact h
  | case2 l parts l₁ target rest hadv => cases h
  | case3 l parts l₁ target rest hadv links ih =>
    cases more with
    | zero => exact absurd hle (Nat.not_succ_le_zero links)
    | succ more =>
      rw [resolveFrom, hadv]
      exact ih (Nat.le_of_succ_le_succ hle) h

/-- Where no link stands at a location or above it, its parts are passed without following any. -/
theorem resolveFrom_of_linkFree {t : Tree} (followLast : Bool) (links : Nat) {r : Location} {b : List Part}
    (hr : r.Proper) (h : t.LinkFree r) (hb : b ≠ []) :
    t.resolveFrom followLast links [] (r ++ b) = t.resolveFrom followLast links r b := by
  have hadv := advance_append t followLast [] r hb
  rw [advance_of_linkFree true hr (by simpa using h), List.nil_append] at hadv
  rw [resolveFrom, hadv, resolveFrom]

/-- The beginning of a path may be replaced by where it leads. -/
theorem locate?_append {t : Tree} {followLast : Bool} {a b : List Part} {r s : Location}
    (hr : r.Proper) (hb : b ≠ []) (ha : t.locate? true a = some r)
    (h : t.locate? followLast (a ++ b) = some s) : t.locate? followLast (r ++ b) = some s := by
  obtain ⟨left, hleft, heq⟩ := resolveFrom_append followLast hb ha
  rw [locate?, resolveFrom_of_linkFree followLast maxLinks hr (locate?_linkFree ha) hb]
  -- Fewer links are left behind the beginning than at the start of a path.
  exact resolveFrom_mono hleft (heq.symm.trans h)

/-! ## Trees with the same symbolic links -/

theorem advance_congr {t t' : Tree} (h : ∀ l, l ≠ [] → t.linkAt l = t'.linkAt l)
    (followLast : Bool) (l : Location) (parts : List Part) :
    advance t followLast l parts = advance t' followLast l parts := by
  induction parts generalizing l with
  | nil => rfl
  | cons p rest ih =>
    cases p with
    | up => exact ih l.dropLast
    | name n =>
      rw [advance, advance, h _ (List.append_ne_nil_of_right_ne_nil l (List.cons_ne_nil _ _)), ih]

theorem resolveFrom_congr {t t' : Tree} (h : ∀ l, l ≠ [] → t.linkAt l = t'.linkAt l)
    (followLast : Bool) (links : Nat) (l : Location) (parts : List Part) :
    t.resolveFrom followLast links l parts = t'.resolveFrom followLast links l parts := by
  fun_induction resolveFrom t followLast links l parts with
  | case1 links l parts l₁ hadv => rw [resolveFrom, ← advance_congr h, hadv]
  | case2 l parts l₁ target rest hadv => rw [resolveFrom, ← advance_congr h, hadv]
  | case3 l parts l₁ target rest hadv links ih =>
    rw [ih, eq_comm, resolveFrom, ← advance_congr h, hadv]

theorem locate?_congr {t t' : Tree} (h : ∀ l, l ≠ [] → t.linkAt l = t'.linkAt l)
    (followLast : Bool) (parts : List Part) :
    t.locate? followLast parts = t'.locate? followLast parts :=
  resolveFrom_congr h followLast maxLinks [] parts

theorem linkAt_set_directory {t : Tree} {l : Location} (vacant : t.get? l = none) (mode : Nat)
    (k : Location) : (t.set l (.directory mode)).linkAt k = t.linkAt k := by
  have hl := ne_nil_of_get?_eq_none vacant
  rw [get?_of_ne_nil t hl] at vacant
  unfold linkAt
  rw [entries_set t hl]
  by_cases hk : k = l
  · rw [if_pos hk, hk, vacant]
    rfl
  · rw [if_neg hk]

theorem exists_of_linkAt {t : Tree} {l : Location} (h : (t.linkAt l).isSome) (hl : l ≠ []) :
    ∃ e target, t.get? l = some e ∧ e.kind = .symlink target := by
  rw [get?_of_ne_nil t hl]
  unfold linkAt at h
  cases hget : t.entries.get? l with
  | none => simp [hget] at h
  | some e =>
    simp only [hget, Option.map_some] at h
    split at h
    · rename_i target hkind
      exact ⟨e, target, rfl, Option.some.inj hkind⟩
    · cases h

/-! ## New entries -/

theorem resolve_eq_ok_iff {t : Tree} {p : Path} {followLast : Bool} {l : Location} :
    t.resolve p followLast = .ok l ↔ t.locate? followLast p.parts = some l := by
  unfold resolve
  cases t.locate? followLast p.parts <;> simp

/-- What is found at a path is what is where it leads. -/
theorem entryAt_of_locate? {t : Tree} {p : Path} {l : Location} (hl : t.locate? false p.parts = some l)
    {e : Entry} : t.entryAt p = .ok e ↔ t.get? l = some e := by
  unfold entryAt resolve
  cases hget : t.get? l <;> simp [bind, Except.bind, hl, hget]

/-- A new entry gets a name in a directory. -/
theorem resolveNew_eq_ok {t : Tree} {shown : Path} {parts : List Part} {l : Location}
    (h : t.resolveNew shown parts = .ok l) :
    ∃ parent n, parts.getLast? = some (.name n) ∧ t.locate? true parts.dropLast = some parent ∧
      t.isDirectoryAt parent ∧ l = parent ++ [.name n] := by
  unfold resolveNew at h
  split at h
  · rename_i n hlast
    cases hloc : t.locate? true parts.dropLast with
    | none => simp [hloc] at h
    | some parent =>
      simp only [hloc] at h
      split at h
      · rename_i hdir
        exact ⟨parent, n, hlast, rfl, hdir, (Except.ok.inj h).symm⟩
      · cases h
  · cases h

/-- The location of a new entry is made of proper names. -/
theorem resolveNew_proper {t : Tree} {shown : Path} {parts : List Part} {l : Location}
    (hparts : ∀ p ∈ parts, p.Spelled) (h : t.resolveNew shown parts = .ok l) : l.Proper := by
  obtain ⟨parent, n, hlast, hloc, -, rfl⟩ := resolveNew_eq_ok h
  have hparent : parent.Proper :=
    locate?_proper (fun p hp => hparts p (List.dropLast_subset parts hp)) hloc
  exact hparent.append_name (hparts _ (List.mem_of_getLast? hlast))

end Tree

end ImageLayer
