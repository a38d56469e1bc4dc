import ImageLayer.Package.Url
import ImageLayer.Proofs.Text.Percent
/-!
What the written form of a package locator tells.

Documents refer to packages by the written form of their locators, so that two packages must not be written the
same. This module says when two locators are, and assumes nothing of their names and versions.

Sections:

* Pieces of the written form: a lead with type and name space, the name with the version, and the qualifiers
  (`text_eq`). What stands in front of a separator is known where no separator is in it (`eq_of_separated`).
* Names and versions. The at sign in front of a version is in no encoded name, so that a name with a version is
  written differently from every other one (`nameText_eq_iff`), an empty name, one with an at sign in it and one
  without a version included.
* Whole locators. Those that agree in everything else are equal in written form exactly if name and version are
  (`text_eq_iff`). Locators of different types are never equal (`type_of_text_eq`), since a type has no slash.
* Making locators: what each way to add something leaves as it was.

The first and the last piece are compared as they are, with no encoding undone, because the locators that meet
in one document have them in common. Reading all pieces back is the subject of the next module.
-/

namespace ImageLayer.PackageUrl

/-! ## Pieces of the written form -/

/-- What stands in front of the name. -/
def leadText (u : PackageUrl) : String :=
  "pkg:" ++ Text.lower u.type ++ "/" ++
    String.join (((u.nameSpace.map segments).getD []).map fun s => Percent.encode s ++ "/")

/-- A name and its version. -/
def nameText (name : String) (version : Option String) : String :=
  Percent.encode name ++ ((version.map fun v => "@" ++ Percent.encode v).getD "")

theorem text_eq (u : PackageUrl) :
    u.text = u.leadText ++ nameText u.name u.version ++ u.qualifierText := by
  simp only [text, leadText, nameText, String.append_assoc]

/-- What stands in front of a separator is known where no separator is in it. -/
theorem eq_of_separated {α : Type} [DecidableEq α] {sep : α} {a b a' b' : List α} (ha : sep ∉ a)
    (ha' : sep ∉ a') (h : a ++ sep :: b = a' ++ sep :: b') : a = a' ∧ b = b' := by
  have hfront : ∀ {a b : List α}, sep ∉ a → (a ++ sep :: b).takeWhile (· ≠ sep) = a := by
    intro a b ha
    have hother : ∀ x ∈ a, decide (x ≠ sep) = true := by
      intro x hx
      exact decide_eq_true fun heq => ha (heq ▸ hx)
    rw [List.takeWhile_append_of_pos hother]
    simp
  have haa : a = a' := by rw [← hfront (b := b) ha, h, hfront ha']
  subst haa
  exact ⟨rfl, (List.cons.inj (List.append_cancel_left h)).2⟩

/-! ## Names and versions -/

theorem toList_nameText_none (name : String) : (nameText name none).toList = (Percent.encode name).toList := by
  simp [nameText]

theorem toList_nameText_some (name version : String) : (nameText name (some version)).toList
    = (Percent.encode name).toList ++ '@' :: (Percent.encode version).toList := by
  simp [nameText]

theorem nameText_eq_iff {name name' : String} {version version' : Option String} :
    nameText name version = nameText name' version' ↔ name = name' ∧ version = version' := by
  constructor
  · have hat : ∀ s, '@' ∉ (Percent.encode s).toList := Percent.not_mem_encode (by decide)
    intro h
    rw [← String.toList_inj] at h
    cases version with
    | none =>
      cases version' with
      | none =>
        rw [toList_nameText_none, toList_nameText_none, String.toList_inj] at h
        exact ⟨Percent.encode_injective h, rfl⟩
      | some v' =>
        rw [toList_nameText_none, toList_nameText_some] at h
        exact absurd (h ▸ by simp) (hat name)
    | some v =>
      cases version' with
      | none =>
        rw [toList_nameText_none, toList_nameText_some] at h
        exact absurd (h ▸ by simp) (hat name')
      | some v' =>
        rw [toList_nameText_some, toList_nameText_some] at h
        obtain ⟨hname, hversion⟩ := eq_of_separated (hat name) (hat name') h
        rw [String.toList_inj] at hname hversion
        exact ⟨Percent.encode_injective hname, congrArg some (Percent.encode_injective hversion)⟩
  · rintro ⟨rfl, rfl⟩
    rfl

/-! ## Whole locators -/

theorem text_eq_iff {u v : PackageUrl} (htype : u.type = v.type) (hspace : u.nameSpace = v.nameSpace)
    (hqualifiers : u.qualifiers = v.qualifiers) :
    u.text = v.text ↔ u.name = v.name ∧ u.version = v.version := by
  have hlead : u.leadText = v.leadText := by rw [leadText, leadText, htype, hspace]
  have htail : u.qualifierText = v.qualifierText := by rw [qualifierText, qualifierText, hqualifiers]
  rw [text_eq, text_eq, hlead, htail, String.append_left_inj, String.append_right_inj, nameText_eq_iff]

/-- The type of a locator is what stands between the colon and the first slash. -/
theorem type_of_text_eq {u v : PackageUrl} (hu : '/' ∉ (Text.lower u.type).toList)
    (hv : '/' ∉ (Text.lower v.type).toList) (h : u.text = v.text) :
    Text.lower u.type = Text.lower v.type := by
  have htext : ∀ w : PackageUrl, ∃ rest : List Char,
      w.text.toList = "pkg:".toList ++ ((Text.lower w.type).toList ++ '/' :: rest) := by
    intro w
    rw [text_eq, leadText]
    simp only [String.toList_append, List.append_assoc]
    exact ⟨_, rfl⟩
  obtain ⟨restU, htextU⟩ := htext u
  obtain ⟨restV, htextV⟩ := htext v
  rw [h, htextV] at htextU
  exact String.toList_inj.1 (eq_of_separated hv hu (List.append_cancel_left htextU)).1.symm

/-! ## Making locators -/

theorem nonEmpty?_inj {s t : String} : nonEmpty? s = nonEmpty? t ↔ s = t := by
  unfold nonEmpty?
  by_cases hs : s = ""
  · by_cases ht : t = ""
    · simp [hs, ht]
    · simp [hs, ht, Ne.symm ht]
  · by_cases ht : t = "" <;> simp [hs, ht]

section

variable (u : PackageUrl) (key : String) (value : Option String)

@[simp] theorem withQualifier_type : (u.withQualifier key value).type = u.type := by
  unfold withQualifier
  split <;> rfl

@[simp] theorem withQualifier_nameSpace : (u.withQualifier key value).nameSpace = u.nameSpace := by
  unfold withQualifier
  split <;> rfl

@[simp] theorem withQualifier_name : (u.withQualifier key value).name = u.name := by
  unfold withQualifier
  split <;> rfl

@[simp] theorem withQualifier_version : (u.withQualifier key value).version = u.version := by
  unfold withQualifier
  split <;> rfl

theorem withQualifier_qualifiers : (u.withQualifier key value).qualifiers =
    match value.bind nonEmpty? with
    | some v => u.qualifiers.insert key v
    | none => u.qualifiers := by
  unfold withQualifier
  cases value.bind nonEmpty? <;> rfl

end

end ImageLayer.PackageUrl
