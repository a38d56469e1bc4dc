import Mathlib.Data.List.DropRight
import ImageLayer.Text.Blank
/-!
Trimming texts at both ends.

Several formats drop characters of a class from both ends of a field when they read it: blanks, or quotation
marks. A field comes back as it was written only if there is nothing to drop, and this module says when that is
so.

* Trimming shortens a text and does nothing else to it (`trimBoth_sublist`).
* It leaves a text as it is exactly if neither its first nor its last character is of the class
  (`trimBoth_eq_self_iff`). `EndsOutside` is that condition, and it can be decided.
* The same holds of trimming twice, of one class and then of another, with the classes together
  (`trimBoth_trimBoth_eq_self_iff`): whatever the first drops the second cannot put back.
* A character of the class that is put around a text is dropped again (`trimBoth_surrounded`), which is what
  becomes of quotation marks.

At the end of a text, dropping is Mathlib's `List.rdropWhile` (`trimBoth_eq_rdropWhile`), so that the facts
about it need not be proved again.
-/

namespace ImageLayer.Text

variable {p q : Char → Bool} {s : List Char}

/-- Neither the first nor the last character of a text is of a class. -/
def EndsOutside (p : Char → Bool) (s : List Char) : Prop :=
  (∀ c ∈ s.head?, ¬ p c) ∧ ∀ c ∈ s.getLast?, ¬ p c

instance (p : Char → Bool) (s : List Char) : Decidable (EndsOutside p s) :=
  decidable_of_iff ((s.head?.toList ++ s.getLast?.toList).all (!p ·)) (by simp [EndsOutside])

theorem trimBoth_eq_rdropWhile : trimBoth p s = (s.dropWhile p).rdropWhile p := rfl

theorem trimBoth_sublist : (trimBoth p s).Sublist s :=
  (List.rdropWhile_prefix p _).sublist.trans (List.dropWhile_sublist p)

/-- Trimming leaves a text as it is if the text ends outside the class that is dropped. -/
theorem trimBoth_eq_self_iff : trimBoth p s = s ↔ EndsOutside p s := by
  have hhead : s.dropWhile p = s ↔ ∀ c ∈ s.head?, ¬ p c := by
    cases s <;> simp [List.dropWhile_eq_self_iff]
  have hlast : s.rdropWhile p = s ↔ ∀ c ∈ s.getLast?, ¬ p c := by
    rw [List.rdropWhile_eq_self_iff]
    rcases List.eq_nil_or_concat s with rfl | ⟨front, c, rfl⟩ <;> simp
  rw [EndsOutside, ← hhead, ← hlast, trimBoth_eq_rdropWhile]
  constructor
  · intro htrim
    have hprefix := List.rdropWhile_prefix p (s.dropWhile p)
    rw [htrim] at hprefix
    have hdrop : s.dropWhile p = s := (List.dropWhile_sublist p).antisymm hprefix.sublist
    exact ⟨hdrop, by rwa [hdrop] at htrim⟩
  · rintro ⟨hdrop, hrdrop⟩
    rw [hdrop, hrdrop]

theorem trimBoth_trimBoth_eq_self_iff :
    trimBoth q (trimBoth p s) = s ↔ EndsOutside (fun c => p c || q c) s := by
  have hboth : EndsOutside (fun c => p c || q c) s ↔ EndsOutside p s ∧ EndsOutside q s := by
    simp only [EndsOutside, Bool.or_eq_true, not_or, imp_and, forall_and, and_and_and_comm]
  rw [hboth, ← trimBoth_eq_self_iff, ← trimBoth_eq_self_iff]
  constructor
  · intro htrim
    have hp : trimBoth p s = s := by
      refine trimBoth_sublist.antisymm ?_
      have hq : (trimBoth q (trimBoth p s)).Sublist (trimBoth p s) := trimBoth_sublist
      rwa [htrim] at hq
    exact ⟨hp, by rwa [hp] at htrim⟩
  · rintro ⟨hp, hq⟩
    rw [hp, hq]

/-- A character of the class that is put around a text is dropped again. -/
theorem trimBoth_surrounded {c : Char} (hc : p c) : trimBoth p (c :: s ++ [c]) = trimBoth p s := by
  rw [trimBoth_eq_rdropWhile, trimBoth_eq_rdropWhile, List.cons_append, List.dropWhile_cons_of_pos hc,
    List.dropWhile_append]
  split
  · rename_i hnil
    rw [List.isEmpty_iff.1 hnil, List.dropWhile_cons_of_pos hc, List.dropWhile_nil]
  · exact List.rdropWhile_concat_pos p _ c hc

end ImageLayer.Text
