import ImageLayer.Proofs.Tree.Change
import Mathlib.Order.Defs.Unbundled
/-!
What operations add to a tree.

`Tree.Grows` says that a tree holds all that another one holds, as it is, and exactly which entries it holds
besides. This is what one wants to know of a pass that must not disturb anything: what is new, and that nothing
else is. `GrowsBy` leaves open which entries are new and says of what sort they are. It is a preorder, so that a
computation stays within it if its parts do.

Sections:

* Trees that have grown. The new entries of two growths, one after the other, come behind each other
  (`Grows.append`), so that they can be counted.
* Where paths lead after a growth: to where they led, if no new entry is a symbolic link (`GrowsBy.locate?`).
  Other entries are passed as a name without an entry is.
* Operations that add an entry. Making directories, links and devices lets a tree grow, whether it succeeds or
  stops halfway, since none of it takes a place that is taken. Writing a file does so too, unless the path leads
  to a file (`writeFile_eq_ok`).

Permissions and owners are no matter of growth, and no operation that sets them is in this module.
-/

namespace ImageLayer.Tree

/-- `t'` holds the entries of `t` as they are and, besides, exactly the entries `new`, each in a place of
its own. -/
structure Grows (t t' : Tree) (new : List (Location × Entry)) : Prop where
  /-- What was there is there as it was. -/
  keeps : ∀ {l e}, t.get? l = some e → t'.get? l = some e
  /-- A new entry is where nothing was. -/
  added : ∀ {l e}, (l, e) ∈ new → t.get? l = none ∧ t'.get? l = some e
  /-- There is nothing else. -/
  only : ∀ {l e}, t'.get? l = some e → t.get? l = some e ∨ (l, e) ∈ new
  /-- No place is listed twice. -/
  once : (new.map Prod.fst).Nodup

theorem Grows.refl (t : Tree) : t.Grows t [] where
  keeps h := h
  added h := absurd h List.not_mem_nil
  only h := Or.inl h
  once := List.nodup_nil

theorem Grows.append {t t₁ t₂ : Tree} {a b : List (Location × Entry)} (h : t.Grows t₁ a)
    (h' : t₁.Grows t₂ b) : t.Grows t₂ (a ++ b) where
  keeps hget := h'.keeps (h.keeps hget)
  added {l e} hmem := by
    rcases List.mem_append.1 hmem with hmem | hmem
    · exact ⟨(h.added hmem).1, h'.keeps (h.added hmem).2⟩
    · refine ⟨?_, (h'.added hmem).2⟩
      cases hget : t.get? l with
      | none => rfl
      | some old =>
        have hvacant := (h'.added hmem).1
        rw [h.keeps hget] at hvacant
        cases hvacant
  only hget := by
    rcases h'.only hget with hget | hmem
    · exact (h.only hget).imp_right (List.mem_append_left b)
    · exact Or.inr (List.mem_append_right a hmem)
  once := by
    rw [List.map_append]
    refine List.nodup_append.2 ⟨h.once, h'.once, fun l hl k hk heq => ?_⟩
    obtain ⟨x, hx, rfl⟩ := List.mem_map.1 hl
    obtain ⟨y, hy, rfl⟩ := List.mem_map.1 hk
    -- The place is taken by the first growth, so that the second cannot add anything there.
    have htaken := (h.added hx).2
    rw [heq, (h'.added hy).1] at htaken
    cases htaken

/-- An entry in a place where nothing was. -/
theorem grows_set {t : Tree} {l : Location} (vacant : t.get? l = none) (e : Entry) :
    t.Grows (t.set l e) [(l, e)] where
  keeps {k e'} hget := by
    have hne : k ≠ l := by
      rintro rfl
      rw [vacant] at hget
      cases hget
    rw [get?_set, if_neg hne, hget]
  added hmem := by
    obtain ⟨rfl, rfl⟩ := Prod.mk.inj (List.mem_singleton.1 hmem)
    exact ⟨vacant, by rw [get?_set, if_pos rfl]⟩
  only {k e'} hget := by
    rw [get?_set] at hget
    split at hget
    · rename_i hk
      rw [hk, ← Option.some.inj hget]
      exact Or.inr (List.mem_singleton.2 rfl)
    · exact Or.inl hget
  once := List.nodup_cons.2 ⟨List.not_mem_nil, List.nodup_nil⟩

/-- A tree that has grown by entries of which all are such that `P`. -/
def GrowsBy (P : Location → Entry → Prop) (t t' : Tree) : Prop :=
  ∃ new, t.Grows t' new ∧ ∀ x ∈ new, P x.1 x.2

theorem GrowsBy.refl (P : Location → Entry → Prop) (t : Tree) : GrowsBy P t t :=
  ⟨[], .refl t, fun _ h => absurd h List.not_mem_nil⟩

theorem GrowsBy.trans {P : Location → Entry → Prop} {t t₁ t₂ : Tree} (h : GrowsBy P t t₁)
    (h' : GrowsBy P t₁ t₂) : GrowsBy P t t₂ := by
  obtain ⟨a, ha, hPa⟩ := h
  obtain ⟨b, hb, hPb⟩ := h'
  refine ⟨a ++ b, ha.append hb, fun x hx => ?_⟩
  rcases List.mem_append.1 hx with hx | hx
  · exact hPa x hx
  · exact hPb x hx

instance (P : Location → Entry → Prop) : IsPreorder Tree (GrowsBy P) where
  refl := .refl P
  trans _ _ _ := .trans

theorem GrowsBy.mono {P Q : Location → Entry → Prop} {t t' : Tree} (h : GrowsBy P t t')
    (hle : ∀ l e, P l e → Q l e) : GrowsBy Q t t' := by
  obtain ⟨new, hnew, hP⟩ := h
  exact ⟨new, hnew, fun x hx => hle _ _ (hP x hx)⟩

theorem GrowsBy.keeps {P : Location → Entry → Prop} {t t' : Tree} (h : GrowsBy P t t')
    {l : Location} {e : Entry} (hget : t.get? l = some e) : t'.get? l = some e := by
  obtain ⟨new, hnew, -⟩ := h
  exact hnew.keeps hget

/-! ## Where paths lead after a growth -/

/-- Where no new entry is a symbolic link, paths lead where they led. -/
theorem GrowsBy.locate? {P : Location → Entry → Prop} {t t' : Tree} (h : GrowsBy P t t')
    (hP : ∀ l e, P l e → e.isSymlink = false) (followLast : Bool) (parts : List Part) :
    t'.locate? followLast parts = t.locate? followLast parts := by
  obtain ⟨new, hnew, hnewP⟩ := h
  refine locate?_congr (fun l hl => ?_) followLast parts
  cases hget : t.get? l with
  | some e =>
    have hget' := hnew.keeps hget
    rw [get?_of_ne_nil _ hl] at hget hget'
    unfold linkAt
    rw [hget, hget']
  | none =>
    have hnone : t.linkAt l = none := (linkAt_eq_none_iff hl).2 (by simp [hget])
    rw [hnone]
    refine (linkAt_eq_none_iff hl).2 fun e he => ?_
    exact hP _ _ (hnewP _ ((hnew.only he).resolve_left (by simp [hget])))

/-! ## Operations that add an entry -/

theorem insertNew_grows {t t' : Tree} {shown : Path} {parts : List Part} {e : Entry}
    (hparts : ∀ p ∈ parts, p.Spelled) (h : t.insertNew shown parts e = .ok t') :
    ∃ l, t.Grows t' [(l, e)] := by
  obtain ⟨parent, n, -, -, -, hvacant, rfl⟩ := insertNew_eq_ok hparts h
  exact ⟨parent ++ [.name n], grows_set hvacant e⟩

theorem symlink_grows {t t' : Tree} {target link : Path} (h : t.symlink target link = .ok t') :
    ∃ l, t.Grows t' [(l, .symlink target)] :=
  insertNew_grows (fun _ => Path.spelled_of_mem_parts) h

theorem makeDevice_grows {t t' : Tree} {p : Path} {mode : Nat} {major minor : UInt32}
    (h : t.makeDevice p mode major minor = .ok t') :
    ∃ l, t.Grows t' [(l, .ofKind (.charDevice major minor) mode)] :=
  insertNew_grows (fun _ => Path.spelled_of_mem_parts) h

theorem hardlink_grows {t t' : Tree} {source link : Path} (h : t.hardlink source link = .ok t') :
    ∃ new, t.Grows t' new := by
  obtain ⟨s, -, h⟩ := exists_of_bind_eq_ok h
  cases hget : t.get? s with
  | none => simp [hget] at h
  | some e =>
    simp only [hget] at h
    split at h
    · obtain ⟨l, hl⟩ := insertNew_grows (fun _ => Path.spelled_of_mem_parts) h
      exact ⟨_, hl⟩
    · cases h

/-- A directory is made where the path leads, unless there is one. -/
theorem ensureDirectory_grows {t t' : Tree} {mode : Nat} {parts : Location}
    (h : t.ensureDirectory mode parts = .ok t') :
    GrowsBy (fun l e => t.locate? true parts = some l ∧ e = .directory mode) t t' := by
  obtain ⟨l, hloc, ⟨e, -, -, rfl⟩ | ⟨hget, rfl⟩⟩ := ensureDirectory_eq_ok h
  · exact .refl _ t'
  · exact ⟨_, grows_set hget _, fun x hx => by simp [List.mem_singleton.1 hx, hloc]⟩

/-- Writing a file gives new contents to the file that the path leads to, or adds a file where it leads to
nothing. -/
theorem writeFile_eq_ok {t t' : Tree} {p : Path} {contents : Bytes} {mode : Nat}
    (h : t.writeFile p contents mode = .ok t') :
    ∃ l, t.locate? true p.parts = some l ∧
      ((∃ e, t.get? l = some e ∧ e.isFile ∧ t' = t.set l { e with kind := .file contents }) ∨
        t.get? l = none ∧ ∃ k, t.Grows t' [(k, .file contents mode)]) := by
  obtain ⟨l, hloc, h⟩ := exists_of_bind_eq_ok h
  rw [resolve_eq_ok_iff] at hloc
  refine ⟨l, hloc, ?_⟩
  cases hget : t.get? l with
  | some e =>
    cases hkind : e.kind with
    | file old =>
      simp only [hget, hkind, Except.ok.injEq] at h
      exact Or.inl ⟨e, rfl, by simp [Entry.isFile, hkind], h.symm⟩
    | _ => simp [hget, hkind] at h
  | none =>
    have hproper : l.Proper := locate?_proper (fun _ => Path.spelled_of_mem_parts) hloc
    simp only [hget] at h
    exact Or.inr ⟨rfl, insertNew_grows hproper.spelled h⟩

end ImageLayer.Tree
