import Mathlib.Data.List.TakeWhile
import ImageLayer.Package.Version
import ImageLayer.Proofs.Text.Lines
/-!
The versions that a package is tagged with.

`Version.stems` takes off the release suffix and then cuts at the last dot, again and again, and keeps what is
neither empty nor there already. `stems_shorten`, the main statement, says what comes of it without the
cutting: the version, and behind it each text that is the base of the version or stands before one of its dots, but for
the empty one and the version itself; each shorter than all before it.

Sections:

* Gathering without repetition: a list grows by what it does not have yet (`exists_gather`).
* The release suffix. `IsBase` says what is left of a version, as a relation: the version ends in a suffix
  that is taken off, or in none. There is exactly one such base and it is found (`isBase_iff`), since the digits at the
  end are the longest run of digits and the two characters in front of them are no digits.
* Beginnings. `IsBeginning` is what the cutting is to give, said of the text at once. The cutting gives just that
  (`mem_beginnings`), each text shorter than those before (`pairwise_beginnings`); both go by `cut_induction`, which has
  a case where the cutting ends and a case where it goes on.
* Stems, from the three others.

Two things make the statement less smooth than it might be. A version without a release suffix is its own base, and would be
listed twice if what is there already were not left out. And a version that begins with a dot has an empty
beginning, which is left out as well.
-/

namespace ImageLayer.Version

/-! ## Gathering without repetition -/

section

variable {α : Type} [BEq α] [LawfulBEq α]

/-- Adds the elements of a list to those that were found, but for those to skip and those that are there. -/
def gather (skip : α → Bool) (found l : List α) : List α :=
  l.foldl (fun found a => if skip a || found.contains a then found else found ++ [a]) found

/-- What is gathered comes behind what was found, in the order of the list, and nothing twice. -/
theorem exists_gather (skip : α → Bool) (found l : List α) :
    ∃ new, gather skip found l = found ++ new ∧ new.Sublist l ∧ new.Nodup ∧
      ∀ a, a ∈ new ↔ a ∈ l ∧ skip a = false ∧ a ∉ found := by
  induction l generalizing found with
  | nil => exact ⟨[], by simp [gather], List.Sublist.refl _, List.nodup_nil, by simp⟩
  | cons b l ih =>
    have hcons : gather skip found (b :: l)
        = gather skip (if skip b || found.contains b then found else found ++ [b]) l := rfl
    by_cases hb : skip b || found.contains b
    · rw [hcons, if_pos hb]
      obtain ⟨new, heq, hsub, hnodup, hmem⟩ := ih found
      refine ⟨new, heq, hsub.cons b, hnodup, fun a => ?_⟩
      rw [hmem, List.mem_cons]
      refine and_congr_left fun ⟨hskip, hfound⟩ => (or_iff_right ?_).symm
      rintro rfl
      simp [hskip, hfound] at hb
    · rw [hcons, if_neg hb]
      obtain ⟨new, heq, hsub, hnodup, hmem⟩ := ih (found ++ [b])
      have hbnew : b ∉ new := fun h => ((hmem b).1 h).2.2 (by simp)
      refine ⟨b :: new, by rw [heq]; simp, hsub.cons_cons b, List.nodup_cons.2 ⟨hbnew, hnodup⟩, fun a => ?_⟩
      simp only [Bool.or_eq_true, List.contains_iff_mem, not_or, Bool.not_eq_true] at hb
      rw [List.mem_cons, List.mem_cons, hmem, List.mem_append, List.mem_singleton]
      by_cases hab : a = b
      · simp [hab, hb]
      · simp [hab]

end

/-! ## The release suffix -/

/-- A hyphen, the letter `r` and decimal digits. -/
def IsRelease (s : List Char) : Prop :=
  ∃ digits, s = '-' :: 'r' :: digits ∧ digits ≠ [] ∧ ∀ c ∈ digits, Text.isDecimalDigit c

/-- What is left of a version without the release suffix at its end; all of it if there is none. -/
def IsBase (version base : List Char) : Prop :=
  (∃ release, IsRelease release ∧ version = base ++ release) ∨
    base = version ∧ ∀ front release, IsRelease release → version ≠ front ++ release

theorem withoutRelease_append (base : List Char) {release : List Char} (h : IsRelease release) :
    withoutRelease (base ++ release) = base := by
  obtain ⟨digits, rfl, hne, hdigits⟩ := h
  have hback : (base ++ '-' :: 'r' :: digits).reverse = digits.reverse ++ 'r' :: '-' :: base.reverse := by simp
  have htake : (base ++ '-' :: 'r' :: digits).reverse.takeWhile Text.isDecimalDigit = digits.reverse := by
    rw [hback, List.takeWhile_append_of_pos fun c hc => hdigits c (List.mem_reverse.1 hc),
      List.takeWhile_cons_of_neg (by decide), List.append_nil]
  have hdrop : (base ++ '-' :: 'r' :: digits).reverse.drop digits.reverse.length = 'r' :: '-' :: base.reverse := by
    rw [hback, List.drop_left]
  obtain ⟨c, cs, hrev⟩ := List.exists_cons_of_ne_nil fun h => hne (List.reverse_eq_nil_iff.1 h)
  simp only [withoutRelease, htake, hdrop]
  rw [hrev]
  exact List.reverse_reverse base

theorem withoutRelease_of_forall {version : List Char}
    (h : ∀ front release, IsRelease release → version ≠ front ++ release) :
    withoutRelease version = version := by
  simp only [withoutRelease]
  split
  · rfl
  · rename_i base hdrop hne
    -- A suffix that is found is one.
    have hparts : version.reverse.takeWhile Text.isDecimalDigit ++
        version.reverse.dropWhile Text.isDecimalDigit = version.reverse := List.takeWhile_append_dropWhile
    have hrest : version.reverse.dropWhile Text.isDecimalDigit = 'r' :: '-' :: base :=
      calc version.reverse.dropWhile Text.isDecimalDigit
          = (version.reverse.takeWhile Text.isDecimalDigit ++
              version.reverse.dropWhile Text.isDecimalDigit).drop
                (version.reverse.takeWhile Text.isDecimalDigit).length := List.drop_left.symm
        _ = 'r' :: '-' :: base := by rw [hparts, hdrop]
    have hversion : version
        = base.reverse ++ '-' :: 'r' :: (version.reverse.takeWhile Text.isDecimalDigit).reverse :=
      calc version = (version.reverse.takeWhile Text.isDecimalDigit ++ 'r' :: '-' :: base).reverse := by
            rw [← hrest, hparts, List.reverse_reverse]
        _ = _ := by simp
    refine absurd hversion (h _ _ ⟨_, rfl, fun hnil => hne (List.reverse_eq_nil_iff.1 hnil), fun c hc => ?_⟩)
    exact List.mem_takeWhile_imp (List.mem_reverse.1 hc)
  · rfl

theorem isBase_iff {version base : List Char} : IsBase version base ↔ base = withoutRelease version := by
  constructor
  · rintro (⟨release, hrelease, rfl⟩ | ⟨rfl, hnone⟩)
    · exact (withoutRelease_append base hrelease).symm
    · exact (withoutRelease_of_forall hnone).symm
  · rintro rfl
    by_cases h : ∃ front release, IsRelease release ∧ version = front ++ release
    · obtain ⟨front, release, hrelease, rfl⟩ := h
      exact Or.inl ⟨release, hrelease, by rw [withoutRelease_append front hrelease]⟩
    · have hnone : ∀ front release, IsRelease release → version ≠ front ++ release :=
        fun front release hrelease heq => h ⟨front, release, hrelease, heq⟩
      exact Or.inr ⟨withoutRelease_of_forall hnone, hnone⟩

theorem IsBase.isPrefix {version base : List Char} (h : IsBase version base) : base <+: version := by
  rcases h with ⟨release, -, rfl⟩ | ⟨rfl, -⟩
  · exact List.prefix_append base release
  · exact List.prefix_refl base

/-! ## Beginnings -/

/-- A text, or what stands in it before one of its dots. -/
def IsBeginning (s base : List Char) : Prop := s = base ∨ ∃ behind, base = s ++ '.' :: behind

theorem beginnings_of_not_mem {s : List Char} (h : '.' ∉ s) : beginnings s = [s] := by
  rw [beginnings]
  split
  · rename_i front behind hcut
    exact absurd (by simp [(Text.splitLast?_eq_some_iff.1 hcut).1]) h
  · rfl

theorem beginnings_append (a : List Char) {b : List Char} (hb : '.' ∉ b) :
    beginnings (a ++ '.' :: b) = (a ++ '.' :: b) :: beginnings a := by
  have hcut : Text.splitLast? '.' (a ++ '.' :: b) = some (a, b) := Text.splitLast?_eq_some_iff.2 ⟨rfl, hb⟩
  rw [beginnings]
  split
  · rename_i front behind hcut'
    obtain ⟨rfl, -⟩ := Prod.mk.inj (Option.some.inj (hcut'.symm.trans hcut))
    rfl
  · rename_i hnone
    rw [hcut] at hnone
    cases hnone

/-- What holds of texts without a dot and of a text with a dot when it holds of what is before the last one, holds
of every text. The cases are those in which the cutting ends and goes on. -/
theorem cut_induction {P : List Char → Prop} (whole : ∀ s, '.' ∉ s → P s)
    (cut : ∀ a b, '.' ∉ b → P a → P (a ++ '.' :: b)) (s : List Char) : P s := by
  induction s using beginnings.induct with
  | case1 s front behind hcut ih =>
    obtain ⟨rfl, hbehind⟩ := Text.splitLast?_eq_some_iff.1 hcut
    exact cut front behind hbehind ih
  | case2 s hcut => exact whole s (Text.splitLast?_eq_none_iff.1 hcut)

/-- The beginnings of a text that is cut are itself and those of what is before the cut. -/
theorem isBeginning_append {s a b : List Char} (hb : '.' ∉ b) :
    IsBeginning s (a ++ '.' :: b) ↔ s = a ++ '.' :: b ∨ IsBeginning s a := by
  refine or_congr_right ?_
  constructor
  · rintro ⟨behind, heq⟩
    rcases List.append_eq_append_iff.1 heq with ⟨t, rfl, ht⟩ | ⟨t, rfl, ht⟩
    · cases t with
      | nil => exact Or.inl (by simp)
      | cons c t =>
        obtain ⟨rfl, rfl⟩ := List.cons.inj ht
        exact absurd (by simp) hb
    · cases t with
      | nil => exact Or.inl (by simp)
      | cons c t =>
        obtain ⟨rfl, -⟩ := List.cons.inj ht
        exact Or.inr ⟨t, rfl⟩
  · rintro (rfl | ⟨behind, rfl⟩)
    · exact ⟨b, rfl⟩
    · exact ⟨behind ++ '.' :: b, by simp⟩

theorem mem_beginnings {s base : List Char} : s ∈ beginnings base ↔ IsBeginning s base := by
  induction base using cut_induction with
  | whole base hbase =>
    rw [beginnings_of_not_mem hbase, List.mem_singleton]
    refine (or_iff_left ?_).symm
    rintro ⟨behind, rfl⟩
    simp at hbase
  | cut a b hb ih =>
    rw [beginnings_append a hb, List.mem_cons, ih, isBeginning_append hb]

theorem IsBeginning.isPrefix {s base : List Char} (h : IsBeginning s base) : s <+: base := by
  rcases h with rfl | ⟨behind, rfl⟩
  · exact List.prefix_refl s
  · exact List.prefix_append s _

/-- Each beginning is shorter than those before it. -/
theorem pairwise_beginnings (base : List Char) :
    (beginnings base).Pairwise fun s t => t.length < s.length := by
  induction base using cut_induction with
  | whole base hbase =>
    rw [beginnings_of_not_mem hbase]
    exact List.pairwise_singleton _ _
  | cut a b hb ih =>
    rw [beginnings_append a hb]
    refine List.pairwise_cons.2 ⟨fun t ht => ?_, ih⟩
    have hle : t.length ≤ a.length := (mem_beginnings.1 ht).isPrefix.length_le
    rw [List.length_append, List.length_cons]
    omega

/-! ## Stems -/

/-- Behind the version come the beginnings of its base, but for the empty text and the version itself. -/
theorem exists_stems (version : String) :
    ∃ shorter, stems version true = version :: shorter ∧
      shorter.Sublist ((beginnings (withoutRelease version.toList)).map String.ofList) ∧
      ∀ s : String, s ∈ shorter ↔
        s ≠ "" ∧ s ≠ version ∧ IsBeginning s.toList (withoutRelease version.toList) := by
  have hstems : stems version true = gather String.isEmpty [version]
      ((beginnings (withoutRelease version.toList)).map String.ofList) := by
    simp only [stems, gather, if_true, List.foldl_map]
  obtain ⟨shorter, hgather, hsub, -, hmem⟩ := exists_gather String.isEmpty [version]
    ((beginnings (withoutRelease version.toList)).map String.ofList)
  refine ⟨shorter, hstems.trans hgather, hsub, fun s => ?_⟩
  have hbeginning : s ∈ (beginnings (withoutRelease version.toList)).map String.ofList ↔
      IsBeginning s.toList (withoutRelease version.toList) := by
    rw [← mem_beginnings, List.mem_map]
    exact ⟨fun ⟨l, hl, hs⟩ => by rwa [← hs, String.toList_ofList], fun h => ⟨_, h, String.ofList_toList⟩⟩
  rw [hmem, hbeginning]
  simp only [String.isEmpty_eq_false_iff, List.mem_singleton]
  tauto

/-- The version begins with each of its stems. -/
theorem isPrefix_of_mem_stems {version s : String} {withStems : Bool} (h : s ∈ stems version withStems) :
    s.toList <+: version.toList := by
  cases withStems with
  | false =>
    obtain rfl := List.mem_singleton.1 h
    exact List.prefix_refl _
  | true =>
    obtain ⟨shorter, hstems, -, hmem⟩ := exists_stems version
    rw [hstems] at h
    rcases List.mem_cons.1 h with rfl | h
    · exact List.prefix_refl _
    · exact ((hmem s).1 h).2.2.isPrefix.trans (isBase_iff.2 rfl).isPrefix

/-- The stems of a version are the version and then, each shorter than all before it, the texts other than itself
and the empty one that are its base or stand before a dot of its base. -/
theorem stems_shorten (version : String) :
    ∃ base shorter, (∀ b, IsBase version.toList b ↔ b = base) ∧ stems version true = version :: shorter ∧
      (∀ s : String, s ∈ shorter ↔ s ≠ "" ∧ s ≠ version ∧ IsBeginning s.toList base) ∧
      (version :: shorter).Pairwise (fun s t => t.length < s.length) ∧ (version :: shorter).Nodup ∧
      ∀ s ∈ shorter, s.toList <+: version.toList ∧ s ≠ version := by
  obtain ⟨shorter, hstems, hsub, hmem⟩ := exists_stems version
  have hproper : ∀ s ∈ shorter, s.toList <+: version.toList ∧ s ≠ version := by
    intro s hs
    exact ⟨isPrefix_of_mem_stems (hstems ▸ List.mem_cons_of_mem version hs), ((hmem s).1 hs).2.1⟩
  have hshrinks : (version :: shorter).Pairwise fun s t => t.length < s.length := by
    refine List.pairwise_cons.2 ⟨fun s hs => ?_, ?_⟩
    · obtain ⟨hstart, hne⟩ := hproper s hs
      rw [← String.length_toList, ← String.length_toList]
      refine Nat.lt_of_le_of_ne hstart.length_le fun hlength => hne ?_
      exact String.toList_inj.1 (hstart.eq_of_length hlength)
    · refine List.Pairwise.sublist hsub (List.pairwise_map.2 ((pairwise_beginnings _).imp ?_))
      intro a b hlt
      simpa using hlt
  have hdistinct : ∀ {s t : String}, t.length < s.length → s ≠ t := by
    rintro s _ hlt rfl
    exact Nat.lt_irrefl _ hlt
  exact ⟨withoutRelease version.toList, shorter, fun b => isBase_iff, hstems, hmem, hshrinks,
    hshrinks.imp hdistinct, hproper⟩

/-- Dots in front, side by side and in a suffix that is not at the end, and a digit of another script. -/
theorem stems_shorten_dots :
    let version := ".1..2-r3.-r٤"
    stems version true = [version, ".1..2-r3.", ".1..2-r3", ".1.", ".1"] ∧
      ∀ s : String, s ∈ [".1..2-r3.", ".1..2-r3", ".1.", ".1"] ↔
        s ≠ "" ∧ s ≠ version ∧ IsBeginning s.toList ".1..2-r3.".toList := by
  intro version
  obtain ⟨base, shorter, hbase, hstems, hmem, -⟩ := stems_shorten version
  have hlist : stems version true = [version, ".1..2-r3.", ".1..2-r3", ".1.", ".1"] := by decide +kernel
  have hbased : withoutRelease version.toList = ".1..2-r3.".toList := by decide +kernel
  obtain ⟨-, rfl⟩ := List.cons.inj (hlist.symm.trans hstems)
  rw [(hbase _).1 (isBase_iff.2 hbased.symm)]
  exact ⟨hlist, hmem⟩

end ImageLayer.Version
