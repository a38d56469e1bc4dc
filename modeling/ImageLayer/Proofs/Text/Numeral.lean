import Mathlib.Data.Nat.Digits.Lemmas
import ImageLayer.Text.Numeral
/-!
Which texts are numbers, and which numbers they are.

`Writes base s n` says that a text writes a number: it is made of the digits of the number, the first the
highest and at least one of them, perhaps behind a plus sign. `natural_eq_ok_iff`, the main statement, says that
reading a text gives a number exactly if the text writes it and the number is within the bound.

A numeral is read digit by digit, and every value on the way is held against the bound. Since values only grow,
that is the same as holding the last one against it; this is the one idea in the proof, and `digits_eq_ok_iff`
carries it through an induction on the characters, with the value so far as a parameter. The value of all digits
is then `Nat.ofDigits` of them from the last to the first.

A plus sign alone is no numeral, and neither is anything with a minus sign. That a colon is no part of a numeral
(`Writes.colon_not_mem`) is what keeps the fields of a record apart.
-/

namespace ImageLayer.Numeral

/-- A text writes a number in a base: the digits of the number, the first the highest and at least one of
them, perhaps behind a plus sign. -/
def Writes (base : Nat) (s : List Char) (n : Nat) : Prop :=
  ∃ (cs : List Char) (ds : List Nat), (s = cs ∨ s = '+' :: cs) ∧ cs ≠ [] ∧ cs.map (digit? base) = ds.map some ∧
    n = Nat.ofDigits base ds.reverse

theorem digit?_plus (base : Nat) : digit? base '+' = none := by
  simp [digit?]

theorem digit?_minus (base : Nat) : digit? base '-' = none := by
  simp [digit?]

theorem digit?_colon (base : Nat) : digit? base ':' = none := by
  simp [digit?]

/-- What digits are read to after a value: the value of them all, if that is within the bound. -/
theorem digits_eq_ok_iff {base bound : Nat} (hbase : 0 < base) {value n : Nat} (hvalue : value ≤ bound)
    {cs : List Char} :
    digits base bound value cs = .ok n ↔
      ∃ ds : List Nat, cs.map (digit? base) = ds.map some ∧
        n = Nat.ofDigits base ds.reverse + base ^ ds.length * value ∧ n ≤ bound := by
  induction cs generalizing value with
  | nil =>
    simp only [digits, Except.ok.injEq, List.map_nil]
    constructor
    · rintro rfl
      exact ⟨[], rfl, by simp, hvalue⟩
    · rintro ⟨ds, hds, rfl, -⟩
      obtain rfl := List.map_eq_nil_iff.1 hds.symm
      simp
  | cons c rest ih =>
    rw [digits, List.map_cons]
    -- The value with one digit more, as it stands in the value of all of them.
    have hnext : ∀ (d : Nat) (ds : List Nat), Nat.ofDigits base (d :: ds).reverse
          + base ^ (d :: ds).length * value
        = Nat.ofDigits base ds.reverse + base ^ ds.length * (value * base + d) := by
      intro d ds
      rw [List.reverse_cons, Nat.ofDigits_append, Nat.ofDigits_singleton, List.length_reverse,
        List.length_cons, Nat.pow_succ]
      ring
    cases hd : digit? base c with
    | none =>
      refine iff_of_false (by simp) ?_
      rintro ⟨ds, hds, -⟩
      cases ds <;> simp at hds
    | some d =>
      simp only
      constructor
      · intro h
        split at h
        · rename_i hle
          obtain ⟨ds, hds, hn, hbound⟩ := (ih hle).1 h
          exact ⟨d :: ds, by simp [hds], by rw [hnext, hn], hbound⟩
        · cases h
      · rintro ⟨ds, hds, hn, hbound⟩
        cases ds with
        | nil => cases hds
        | cons d' ds =>
          obtain ⟨hdd, hmore⟩ := List.cons.inj hds
          obtain rfl := Option.some.inj hdd
          rw [hnext] at hn
          have hle : value * base + d ≤ bound :=
            calc value * base + d ≤ base ^ ds.length * (value * base + d) :=
                  Nat.le_mul_of_pos_left _ (Nat.pow_pos hbase)
              _ ≤ n := by omega
              _ ≤ bound := hbound
          rw [if_pos hle]
          exact (ih hle).2 ⟨ds, hmore, hn, hbound⟩

theorem writes_plus {base : Nat} {cs : List Char} {n : Nat} :
    Writes base ('+' :: cs) n ↔
      cs ≠ [] ∧ ∃ ds : List Nat, cs.map (digit? base) = ds.map some ∧ n = Nat.ofDigits base ds.reverse := by
  constructor
  · rintro ⟨cs', ds, h | h, hne, hds, hn⟩
    · subst h
      cases ds <;> simp [digit?_plus] at hds
    · obtain ⟨-, rfl⟩ := List.cons.inj h
      exact ⟨hne, ds, hds, hn⟩
  · rintro ⟨hne, ds, hds, hn⟩
    exact ⟨cs, ds, Or.inr rfl, hne, hds, hn⟩

theorem writes_of_ne_plus {base : Nat} {s : List Char} (hs : ∀ cs, s ≠ '+' :: cs) {n : Nat} :
    Writes base s n ↔
      s ≠ [] ∧ ∃ ds : List Nat, s.map (digit? base) = ds.map some ∧ n = Nat.ofDigits base ds.reverse := by
  constructor
  · rintro ⟨cs, ds, rfl | h, hne, hds, hn⟩
    · exact ⟨hne, ds, hds, hn⟩
    · exact absurd h (hs cs)
  · rintro ⟨hne, ds, hds, hn⟩
    exact ⟨s, ds, Or.inl rfl, hne, hds, hn⟩

/-- A text is read as a number exactly if it writes that number and the number is within the bound. -/
theorem natural_eq_ok_iff {base bound : Nat} (hbase : 0 < base) {s : List Char} {n : Nat} :
    natural base bound s = .ok n ↔ Writes base s n ∧ n ≤ bound := by
  have hdigits : ∀ cs : List Char, digits base bound 0 cs = .ok n ↔
      (∃ ds : List Nat, cs.map (digit? base) = ds.map some ∧ n = Nat.ofDigits base ds.reverse) ∧ n ≤ bound := by
    intro cs
    rw [digits_eq_ok_iff hbase (Nat.zero_le bound)]
    simp only [Nat.mul_zero, Nat.add_zero, exists_and_right, ← and_assoc]
  unfold natural
  split
  · exact iff_of_false (by simp) fun h => by simp [writes_of_ne_plus] at h
  · exact iff_of_false (by simp) fun h => by simp [writes_plus] at h
  · refine iff_of_false (by simp) fun h => ?_
    obtain ⟨-, ds, hds, -⟩ := (writes_of_ne_plus (by simp)).1 h.1
    cases ds <;> simp [digit?_minus] at hds
  · rename_i rest hsign
    have hrest : rest ≠ [] := fun hnil => hsign hnil
    rw [writes_plus, hdigits]
    simp [hrest]
  · rename_i hnil hplus hminus hmore
    rw [writes_of_ne_plus fun cs h => hmore cs h, hdigits]
    simp only [ne_eq, and_congr_left_iff]
    exact fun _ => ⟨fun h => ⟨hnil, h⟩, fun h => h.2⟩

/-- A colon is no part of a numeral. -/
theorem Writes.colon_not_mem {base : Nat} {s : List Char} {n : Nat} (h : Writes base s n) : ':' ∉ s := by
  obtain ⟨cs, ds, hs, -, hds, -⟩ := h
  have hcs : ':' ∉ cs := by
    intro hmem
    have hnone : none ∈ ds.map some := by
      rw [← hds, ← digit?_colon base]
      exact List.mem_map_of_mem hmem
    simp at hnone
  rcases hs with rfl | rfl
  · exact hcs
  · simp [hcs]

end ImageLayer.Numeral
