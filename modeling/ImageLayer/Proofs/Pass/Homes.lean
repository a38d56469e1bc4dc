import Mathlib.Logic.Basic
import Mathlib.Data.List.Forall2
import ImageLayer.Pass.Accounts
import ImageLayer.Proofs.Tree.Extension
/-!
Home directories and their owners.

Each declared user gets a home: directories are made along a path, and what the path leads to is given to the
user. Homes may coincide, lie in one another or be reached through symbolic links, and then one user takes from
another what that one was given. So after a round of homes not every user owns one. What holds nevertheless is
that the same round, made again, changes nothing (`makeHomes_again`, the main statement).

Giving away locations in order comes to giving each entry to the last user who was given it (`Entry.grant`),
whatever owners there were before. So what is given away again later need not be given before
(`give_cons_of_mem`). The rest is an induction on the users that carries two facts: everything is as if it had
been given away by now (`Granted`), and the users so far have homes, which they are given when these are made
again (`HasHome`).

* Giving away: `give`, its laws, and that changing an owner is an instance of it (`mapNames_withOwner`).
* Trees where everything was given away. Making a home adds only directories that nobody was given, as they were
  not there (`Granted.ensureDirectory`), and gives away one thing more (`Granted.give`).
* Homes. Making one is making its directories and giving it to the user (`makeHome_eq_ok`). Where a user has a
  home already, only the second is left (`makeHome_of_hasHome`), since directories on a path that are there are
  kept with their permissions and owners.
* All homes, one round (`granted_of_makeHomes`) and the same round again.

An entry with several names is given away under all of them, for owners belong to the file and not to the name.
-/

namespace ImageLayer

/-- A location and the owner that it is given to. -/
abbrev Grant := Location × Ownership

/-- The owner who is given something last. -/
def lastOwner (named : Location → Bool) (grants : List Grant) : Option Ownership :=
  (grants.filter fun g => named g.1).getLast?.map Prod.snd

theorem lastOwner_append (named : Location → Bool) (a b : List Grant) :
    lastOwner named (a ++ b) = (lastOwner named b).or (lastOwner named a) := by
  rw [lastOwner, List.filter_append, List.getLast?_append, Option.map_or]
  rfl

theorem lastOwner_eq_none_iff {named : Location → Bool} {grants : List Grant} :
    lastOwner named grants = none ↔ ∀ g ∈ grants, named g.1 = false := by
  simp [lastOwner]

/-- What is given again later is not given before. -/
theorem lastOwner_cons_of_mem {named : Location → Bool} {grants : List Grant} {g : Grant} (hg : g ∈ grants) :
    lastOwner named (g :: grants) = lastOwner named grants := by
  rw [← List.singleton_append, lastOwner_append]
  cases hlast : lastOwner named grants with
  | some owner => rfl
  | none =>
    have hnamed := lastOwner_eq_none_iff.1 hlast g hg
    simp [lastOwner, hnamed]

/-- The entry with the owner who is given it last. -/
def Entry.grant (named : Location → Bool) (grants : List Grant) (e : Entry) : Entry :=
  { e with owner := (lastOwner named grants).or e.owner }

theorem Entry.grant_grant (named : Location → Bool) (a b : List Grant) (e : Entry) :
    (e.grant named a).grant named b = e.grant named (a ++ b) := by
  simp [Entry.grant, lastOwner_append, Option.or_assoc]

namespace Tree

/-- The tree after everything was given away in order, each entry under all its names. -/
def give (t : Tree) (grants : List Grant) : Tree where
  root := t.root.grant (fun l => l = []) grants
  entries := t.entries.mapWithKey fun k e => e.grant (fun l => k = l || isLinkTo l e) grants

theorem give_give (t : Tree) (a b : List Grant) : (t.give a).give b = t.give (a ++ b) := by
  refine congrArg₂ Tree.mk (Entry.grant_grant _ a b _) (SortedMap.ext ?_)
  simp only [give, SortedMap.mapWithKey, List.map_map]
  exact List.map_congr_left fun x _ => congrArg (x.1, ·) (Entry.grant_grant _ a b x.2)

theorem give_nil (t : Tree) : t.give [] = t :=
  congrArg (Tree.mk t.root) (SortedMap.ext (List.map_id _))

theorem give_cons_of_mem (t : Tree) {grants : List Grant} {g : Grant} (hg : g ∈ grants) :
    t.give (g :: grants) = t.give grants := by
  simp only [give, Entry.grant, lastOwner_cons_of_mem hg]

/-- Changing an owner is giving away one location. -/
theorem mapNames_withOwner (t : Tree) (l : Location) (owner : Ownership) :
    t.mapNames l (.withOwner owner) = t.give [(l, owner)] := by
  refine congrArg₂ Tree.mk ?_ (SortedMap.ext (List.map_congr_left fun x _ => congrArg (x.1, ·) ?_))
  · by_cases hl : l = [] <;> simp [Entry.grant, lastOwner, hl, Entry.withOwner]
  · by_cases hname : x.1 = l ∨ isLinkTo l x.2 = true
    · simp [Entry.grant, lastOwner, hname, Entry.withOwner]
    · simp [Entry.grant, lastOwner, hname]

theorem alike_give (t : Tree) (grants : List Grant) : t.Alike (t.give grants) := by
  intro l
  by_cases hl : l = []
  · subst hl
    rfl
  · rw [get?_of_ne_nil _ hl, get?_of_ne_nil _ hl, give, SortedMap.get?_mapWithKey]
    cases t.entries.get? l <;> rfl

/-- Everything is as if it had been given away. -/
structure Granted (t : Tree) (grants : List Grant) : Prop where
  /-- There is something where a location was given away. -/
  occupied : ∀ g ∈ grants, (t.get? g.1).isSome
  /-- Giving it away changes nothing. -/
  fixed : t.give grants = t

theorem give_eq_self_iff {t : Tree} {grants : List Grant} :
    t.give grants = t ↔ t.root.grant (fun l => l = []) grants = t.root ∧
      ∀ k e, t.entries.get? k = some e → e.grant (fun l => k = l || isLinkTo l e) grants = e := by
  constructor
  · intro h
    refine ⟨congrArg Tree.root h, fun k e hget => ?_⟩
    have hentry := congrArg (·.entries.get? k) h
    simpa [give, hget] using hentry
  · rintro ⟨hroot, hentries⟩
    refine congrArg₂ Tree.mk hroot (SortedMap.ext ?_)
    refine (List.map_congr_left fun x hx => ?_).trans (List.map_id _)
    exact congrArg (x.1, ·) (hentries x.1 x.2 (SortedMap.mem_toList_iff.1 hx))

/-- A directory where there was nothing was not given away. -/
theorem Granted.ensureDirectory {t t' : Tree} {grants : List Grant} (h : t.Granted grants) {mode : Nat}
    {parts : Location} (hmake : t.ensureDirectory mode parts = .ok t') : t'.Granted grants := by
  obtain ⟨l, -, ⟨-, -, -, rfl⟩ | ⟨hvacant, rfl⟩⟩ := ensureDirectory_eq_ok hmake
  · exact h
  · have hl := ne_nil_of_get?_eq_none hvacant
    obtain ⟨hroot, hentries⟩ := give_eq_self_iff.1 h.fixed
    refine ⟨fun g hg => ?_, give_eq_self_iff.2 ⟨?_, fun k e hget => ?_⟩⟩
    · rw [get?_set]
      split
      · rfl
      · exact h.occupied g hg
    · rwa [root_set t hl]
    · rw [entries_set t hl] at hget
      split at hget
      · obtain rfl := Option.some.inj hget
        have hnone : lastOwner (fun l' => k = l' || isLinkTo l' (.directory mode)) grants = none := by
          refine lastOwner_eq_none_iff.2 fun g hg => ?_
          have hne : k ≠ g.1 := by
            rintro rfl
            have hsome := h.occupied g hg
            simp_all
          simp [hne, isLinkTo, Entry.directory, Entry.ofKind]
        rw [Entry.grant, hnone, Option.none_or]
      · exact hentries k e hget

theorem Granted.ensureDirectories {t t' : Tree} {grants : List Grant} (h : t.Granted grants) {mode : Nat}
    {done : Location} {parts : List Part} {u : Unit}
    (hmake : Edit.ensureDirectories mode done parts t = .ok u t') : t'.Granted grants := by
  induction parts generalizing t done with
  | nil =>
    obtain ⟨-, rfl⟩ := Edit.of_pure_eq_ok hmake
    exact h
  | cons part rest ih =>
    rw [ensureDirectories_cons] at hmake
    cases hfirst : t.ensureDirectory mode (done ++ [part]) with
    | error e => simp [hfirst] at hmake
    | ok t₁ =>
      simp only [hfirst] at hmake
      exact ih (h.ensureDirectory hfirst) hmake

/-- What is given away next takes from the others what it is, and leaves them the rest. -/
theorem Granted.give {t : Tree} {grants : List Grant} (h : t.Granted grants) {g : Grant}
    (hg : (t.get? g.1).isSome) : (t.give [g]).Granted (grants ++ [g]) where
  occupied g' hg' := by
    have hsome : (t.get? g'.1).isSome := by
      rcases List.mem_append.1 hg' with hg' | hg'
      · exact h.occupied g' hg'
      · rwa [List.mem_singleton.1 hg']
    obtain ⟨e, hget⟩ := Option.isSome_iff_exists.1 hsome
    obtain ⟨e', hget', -⟩ := (t.alike_give [g]).get? hget
    exact Option.isSome_of_eq_some hget'
  fixed := by
    rw [give_give, List.singleton_append, give_cons_of_mem t (by simp), ← give_give, h.fixed]

/-- A user has a home: the directories on the path to it are there, and it is what the user is given. -/
structure HasHome (t : Tree) (u : User) (g : Grant) : Prop where
  /-- The directories are there. -/
  leads : t.LeadsAlong [] (Path.ofString u.effectiveHome).parts
  /-- The path leads to what is given. -/
  place : t.inodeOf (.ofString u.effectiveHome) = .ok g.1
  /-- It is given to the user. -/
  owner : g.2 = ⟨u.uid, u.effectiveGid⟩

theorem HasHome.extends {written : Location → Prop} {t t' : Tree} {u : User} {g : Grant} (h : t.HasHome u g)
    (hextends : Extends written t t') : t'.HasHome u g :=
  ⟨hextends.leadsAlong h.leads, hextends.inodeOf h.place, h.owner⟩

end Tree

namespace Edit

open ImageLayer.Tree

variable {t t' : Tree} {u : User} {g : Grant}

theorem chown_of_hasHome (h : t.HasHome u g) :
    t.chown (.ofString u.effectiveHome) ⟨u.uid, u.effectiveGid⟩ = .ok (t.give [g]) := by
  rw [chown, h.place, ← h.owner]
  exact congrArg Except.ok (mapNames_withOwner t g.1 g.2)

/-- Where a user has a home, making it only gives it to the user. -/
theorem makeHome_of_hasHome (h : t.HasHome u g) : makeHome u t = .ok () (t.give [g]) := by
  have hmake := inContext_of_eq_ok (.homeDirectory (.ofString u.effectiveHome))
    (ensureDirectories_of_leads h.leads 0o755)
  exact (bind_of_eq_ok hmake _).trans (change_of_eq_ok (chown_of_hasHome h))

/-- Making a home is making its directories and giving it to the user. -/
theorem makeHome_eq_ok {v : Unit} (h : makeHome u t = .ok v t') :
    ∃ t₁ g, makeDirectories (.ofString u.effectiveHome) 0o755 t = .ok () t₁ ∧ t₁.HasHome u g ∧
      t' = t₁.give [g] := by
  obtain ⟨_, t₁, hmake, hchown⟩ := of_bind_eq_ok h
  have hmake := of_inContext_eq_ok hmake
  have hchown := of_change_eq_ok hchown
  obtain ⟨l, hl, -⟩ := exists_of_bind_eq_ok hchown
  have hhome : t₁.HasHome u (l, ⟨u.uid, u.effectiveGid⟩) := ⟨ensureDirectories_leads hmake, hl, rfl⟩
  rw [chown_of_hasHome hhome] at hchown
  exact ⟨t₁, _, hmake, hhome, (Except.ok.inj hchown).symm⟩

theorem extends_makeHome {v : Unit} (h : makeHome u t = .ok v t') (written : Location → Prop) :
    Extends written t t' := by
  obtain ⟨t₁, g, hmake, -, rfl⟩ := makeHome_eq_ok h
  exact (extends_makeDirectories hmake written).trans ((alike_give t₁ [g]).extends written)

theorem extends_makeHomes {users : List User} {v : Unit} (h : users.forM makeHome t = .ok v t')
    (written : Location → Prop) : Extends written t t' := by
  induction users generalizing t with
  | nil =>
    obtain ⟨-, rfl⟩ := of_pure_eq_ok h
    exact .refl written t'
  | cons u rest ih =>
    obtain ⟨_, t₁, hfirst, hrest⟩ := of_bind_eq_ok h
    exact (extends_makeHome hfirst written).trans (ih hrest)

/-- Where all users have homes, making these gives each to its user. -/
theorem makeHomes_of_hasHome {users : List User} {grants : List Grant}
    (h : List.Forall₂ t.HasHome users grants) : users.forM makeHome t = .ok () (t.give grants) := by
  induction users generalizing t grants with
  | nil =>
    cases h
    rw [give_nil]
    rfl
  | cons u rest ih =>
    obtain ⟨g, grants, hfirst, hrest, rfl⟩ := List.forall₂_cons_left_iff.1 h
    have hkept : List.Forall₂ (t.give [g]).HasHome rest grants :=
      hrest.imp fun _ _ hhome => hhome.extends ((alike_give t [g]).extends fun _ => False)
    refine (bind_of_eq_ok (makeHome_of_hasHome hfirst) _).trans ((ih hkept).trans ?_)
    rw [give_give, List.singleton_append]

/-- Each user that is next gets a home, and those before keep theirs as far as it is not the same. -/
theorem granted_of_makeHomes {done users : List User} {grants : List Grant}
    (hdone : List.Forall₂ t.HasHome done grants) (hgranted : t.Granted grants)
    (h : users.forM makeHome t = .ok () t') :
    ∃ all, List.Forall₂ t'.HasHome (done ++ users) all ∧ t'.Granted all := by
  induction users generalizing t done grants with
  | nil =>
    obtain ⟨-, rfl⟩ := of_pure_eq_ok h
    exact ⟨grants, by rwa [List.append_nil], hgranted⟩
  | cons u rest ih =>
    obtain ⟨_, t₂, hfirst, hrest⟩ := of_bind_eq_ok h
    have hextends := extends_makeHome hfirst fun _ => False
    obtain ⟨t₁, g, hmake, hhome, rfl⟩ := makeHome_eq_ok hfirst
    have hgranted₂ : (t₁.give [g]).Granted (grants ++ [g]) :=
      (hgranted.ensureDirectories hmake).give (isSome_of_inodeOf hhome.place)
    have hkept := hdone.imp fun _ _ hold => hold.extends hextends
    have hlast := hhome.extends ((alike_give t₁ [g]).extends fun _ => False)
    obtain ⟨all, hall, hgiven⟩ := ih (List.rel_append hkept (.cons hlast .nil)) hgranted₂ hrest
    exact ⟨all, by simpa using hall, hgiven⟩

/-- Making the same homes again changes nothing. -/
theorem makeHomes_again {users : List User} (h : users.forM makeHome t = .ok () t') :
    users.forM makeHome t' = .ok () t' := by
  have hnobody : List.Forall₂ t.HasHome [] [] := .nil
  obtain ⟨all, hhomes, hgranted⟩ := granted_of_makeHomes hnobody ⟨nofun, give_nil t⟩ h
  have hagain := makeHomes_of_hasHome hhomes
  rwa [hgranted.fixed] at hagain

end Edit

end ImageLayer
