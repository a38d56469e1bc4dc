import Mathlib.Data.List.SplitBy
import ImageLayer.Sbom.Identifier
import ImageLayer.Proofs.Text.Utf8
/-!
What a text and its identifier have to do with each other.

Identifiers may contain few characters, and `sanitize` makes one of any text by writing out the others in
numbers. This module has the laws that the other statements about identifiers rest on. There are three kinds of
them, one in each section.

* What identifiers consist of. The definition goes by runs of characters that are all allowed or all not, but
  what stands for a character does not depend on the run that it is in (`toList_sanitize`): runs put together
  are the text, and both kinds of runs are replaced character by character. So an identifier is a `flatMap`,
  from which it follows that texts may be put together before or after (`sanitize_append`), and that identifiers
  are left as they are (`sanitize_sanitize`), since what is written out consists of characters that are allowed.
* Hyphens. They are allowed and are written for nothing else, so that an identifier has as many of them as its
  text (`count_hyphen_sanitize`). Two texts that a hyphen joins can be told apart where the number of hyphens in
  the second is known (`eq_of_hyphen`).
* Texts that their identifiers determine. Different texts may come to one identifier in two ways: a character
  that is not of ASCII is known by the number of its bytes alone, and what stands for a character may be written
  out in the text itself. A text is `Legible` if neither can happen, and legible texts with one identifier are
  the same (`Legible.eq_of_sanitize`), by induction on both at once.

The induction compares first characters. The case with substance is that of two characters that are both written
out in numbers, one of which could begin the other. It cannot, from the blank on: the first digit says how many
there are (`length_toDigits`). If only one of the two is written out, the other is a `C`, and a legible text has
no digit behind it (`Legible.escapes_ne`).
-/

namespace ImageLayer.Identifier

/-! ## What identifiers consist of -/

/-- How a character stands in an identifier. -/
def escape (c : Char) : List Char :=
  if isAllowed c then [c]
  else (String.utf8EncodeChar c).flatMap fun b => 'C' :: Nat.toDigits 10 (codeOf b)

theorem escape_of_isAllowed {c : Char} (h : isAllowed c) : escape c = [c] := if_pos h

theorem isAllowed_of_isDigit {c : Char} (h : c.isDigit) : isAllowed c := by
  simp [isAllowed, Char.isAlphanum, h]

/-- What stands for a character that is not allowed begins with a `C` and consists of these and digits. -/
theorem escape_of_not_isAllowed {c : Char} (hc : isAllowed c = false) :
    ∃ more, escape c = 'C' :: more ∧ ∀ d ∈ escape c, d = 'C' ∨ d.isDigit := by
  have hescape : escape c
      = (String.utf8EncodeChar c).flatMap fun b => 'C' :: Nat.toDigits 10 (codeOf b) := by
    rw [escape, hc, if_neg Bool.false_ne_true]
  rw [hescape]
  cases hbytes : String.utf8EncodeChar c with
  | nil =>
    have hlength := String.length_utf8EncodeChar c
    rw [hbytes, List.length_nil] at hlength
    exact absurd hlength.symm (Nat.pos_iff_ne_zero.1 c.utf8Size_pos)
  | cons b bytes =>
    refine ⟨_, rfl, fun d hd => ?_⟩
    obtain ⟨b', -, hd⟩ := List.mem_flatMap.1 hd
    refine (List.mem_cons.1 hd).imp_right fun hd => ?_
    exact Nat.isDigit_of_mem_toDigits (by decide) (by decide) hd

theorem mem_escape {c d : Char} (hc : isAllowed c = false) (h : d ∈ escape c) :
    d = 'C' ∨ d.isDigit := by
  obtain ⟨-, -, hmem⟩ := escape_of_not_isAllowed hc
  exact hmem d h

theorem isAllowed_of_mem_escape {c d : Char} (h : d ∈ escape c) : isAllowed d := by
  cases hc : isAllowed c with
  | true =>
    rw [escape_of_isAllowed hc, List.mem_singleton] at h
    rwa [h]
  | false =>
    rcases mem_escape hc h with rfl | hd
    · decide
    · exact isAllowed_of_isDigit hd

theorem escape_ne_nil (c : Char) : escape c ≠ [] := by
  cases hc : isAllowed c with
  | true => simp [escape_of_isAllowed hc]
  | false =>
    obtain ⟨more, hmore, -⟩ := escape_of_not_isAllowed hc
    simp [hmore]

theorem flatMap_escape_of_isAllowed {cs : List Char} (h : ∀ c ∈ cs, isAllowed c) : cs.flatMap escape = cs := by
  induction cs with
  | nil => rfl
  | cons c rest ih =>
    rw [List.flatMap_cons, escape_of_isAllowed (h c (List.mem_cons_self ..)),
      ih fun d hd => h d (List.mem_cons_of_mem c hd), List.singleton_append]

theorem flatMap_escape_of_not_isAllowed {cs : List Char} (h : ∀ c ∈ cs, isAllowed c = false) :
    cs.flatMap escape = escapeRun cs := by
  rw [escapeRun, List.flatMap_assoc]
  refine List.flatMap_congr fun c hc => ?_
  rw [escape, h c hc, if_neg Bool.false_ne_true]

/-- Neighbours in a run are both allowed or both not, and so are all of its characters. -/
theorem isAllowed_of_mem_runs {cs run : List Char} (h : run ∈ runs cs) :
    (∀ c ∈ run, isAllowed c) ∨ ∀ c ∈ run, isAllowed c = false := by
  have hchain : (run.map isAllowed).IsChain (· = ·) :=
    (List.isChain_map isAllowed).2 ((List.isChain_of_mem_splitBy h).imp fun _ _ => of_decide_eq_true)
  cases run with
  | nil => exact Or.inl fun _ hc => absurd hc List.not_mem_nil
  | cons c rest =>
    rw [List.map_cons, List.isChain_cons_eq_iff_eq_replicate] at hchain
    have hsame : ∀ d ∈ c :: rest, isAllowed d = isAllowed c := by
      intro d hd
      rcases List.mem_cons.1 hd with rfl | hd
      · rfl
      · exact List.eq_of_mem_replicate (hchain ▸ List.mem_map_of_mem hd)
    cases hc : isAllowed c with
    | true => exact Or.inl fun d hd => (hsame d hd).trans hc
    | false => exact Or.inr fun d hd => (hsame d hd).trans hc

/-- An identifier is made character by character. -/
theorem toList_sanitize (s : String) : (sanitize s).toList = s.toList.flatMap escape := by
  have hrun : ∀ run ∈ runs s.toList,
      (if run.all isAllowed then run else escapeRun run) = run.flatMap escape := by
    intro run hrun
    rcases isAllowed_of_mem_runs hrun with hall | hnone
    · rw [if_pos (List.all_eq_true.2 hall), flatMap_escape_of_isAllowed hall]
    · rw [flatMap_escape_of_not_isAllowed hnone]
      -- A run has at least one character, so that not all of it is allowed.
      obtain ⟨c, hc⟩ := List.exists_mem_of_ne_nil run (List.ne_nil_of_mem_splitBy hrun)
      exact if_neg fun hall => by simpa [hnone c hc] using List.all_eq_true.1 hall c hc
  calc (sanitize s).toList
      = (runs s.toList).flatMap fun run => if run.all isAllowed then run else escapeRun run :=
        String.toList_ofList
    _ = (runs s.toList).flatMap fun run => run.flatMap escape := List.flatMap_congr hrun
    _ = (runs s.toList).flatten.flatMap escape := by rw [← List.flatMap_id, List.flatMap_assoc]; rfl
    _ = s.toList.flatMap escape := by rw [runs, List.flatten_splitBy]

theorem isAllowed_of_mem_sanitize {s : String} {c : Char} (h : c ∈ (sanitize s).toList) :
    isAllowed c := by
  rw [toList_sanitize, List.mem_flatMap] at h
  obtain ⟨d, -, hd⟩ := h
  exact isAllowed_of_mem_escape hd

theorem sanitize_append (s t : String) : sanitize (s ++ t) = sanitize s ++ sanitize t := by
  refine String.toList_inj.1 ?_
  rw [String.toList_append, toList_sanitize, toList_sanitize, toList_sanitize, String.toList_append,
    List.flatMap_append]

/-- An identifier stays as it is. -/
theorem sanitize_of_isAllowed {s : String} (h : ∀ c ∈ s.toList, isAllowed c) : sanitize s = s :=
  String.toList_inj.1 (by rw [toList_sanitize, flatMap_escape_of_isAllowed h])

theorem sanitize_sanitize (s : String) : sanitize (sanitize s) = sanitize s :=
  sanitize_of_isAllowed fun _ => isAllowed_of_mem_sanitize

/-- Where a text without a `C` begins an identifier it begins the text that this is made of. -/
theorem isPrefix_of_escapes {lead s : List Char} (hlead : 'C' ∉ lead) (h : lead <+: s.flatMap escape) :
    lead <+: s := by
  induction lead generalizing s with
  | nil => exact List.nil_prefix
  | cons x lead ih =>
    cases s with
    | nil => exact absurd (List.prefix_nil.1 h) (List.cons_ne_nil x lead)
    | cons c s =>
      rw [List.flatMap_cons] at h
      cases hc : isAllowed c with
      | true =>
        rw [escape_of_isAllowed hc, List.singleton_append, List.cons_prefix_cons] at h
        obtain ⟨rfl, hrest⟩ := h
        exact List.cons_prefix_cons.2 ⟨rfl, ih (fun hmem => hlead (List.mem_cons_of_mem _ hmem)) hrest⟩
      | false =>
        obtain ⟨more, hmore, -⟩ := escape_of_not_isAllowed hc
        rw [hmore, List.cons_append, List.cons_prefix_cons] at h
        exact absurd (h.1 ▸ List.mem_cons_self ..) hlead

/-! ## Hyphens -/

theorem count_hyphen_escape (c : Char) : (escape c).count '-' = [c].count '-' := by
  cases hc : isAllowed c with
  | true => rw [escape_of_isAllowed hc]
  | false =>
    have hne : c ≠ '-' := by
      rintro rfl
      simp [isAllowed] at hc
    rw [List.count_eq_zero.2 fun hmem => ?_, List.count_singleton, if_neg (by simpa using hne)]
    rcases mem_escape hc hmem with h | h
    · simp at h
    · simp [Char.isDigit] at h

theorem count_hyphen_sanitize (s : String) : (sanitize s).toList.count '-' = s.toList.count '-' := by
  rw [toList_sanitize]
  induction s.toList with
  | nil => rfl
  | cons c rest ih =>
    rw [List.flatMap_cons, List.count_append, ih, count_hyphen_escape, ← List.count_append,
      List.singleton_append]

/-- Two texts that a hyphen joins are known where the second has a known number of hyphens. -/
theorem eq_of_hyphen {a b a' b' : List Char} (h : a ++ '-' :: b = a' ++ '-' :: b')
    (hcount : b.count '-' = b'.count '-') : a = a' ∧ b = b' := by
  -- Where one of the hyphens stands in front of the other, it counts on the other side.
  have hshort : ∀ {b b' c : List Char}, '-' :: b = c ++ '-' :: b' → b.count '-' = b'.count '-' →
      c = [] := by
    intro b b' c hsplit hcount
    cases c with
    | nil => rfl
    | cons x c =>
      obtain ⟨rfl, rfl⟩ := List.cons.inj hsplit
      simp at hcount
      omega
  rcases List.append_eq_append_iff.1 h with ⟨c, rfl, hc⟩ | ⟨c, rfl, hc⟩
  · obtain rfl := hshort hc hcount
    exact ⟨(List.append_nil a).symm, (List.cons.inj hc).2⟩
  · obtain rfl := hshort hc hcount.symm
    exact ⟨List.append_nil a', (List.cons.inj hc).2.symm⟩

/-! ## Texts that their identifiers determine -/

/-- Text of ASCII from the blank on in which no digit follows a `C`, which would look like what stands for
another character. -/
def Legible : List Char → Prop
  | [] => True
  | c :: rest =>
    (32 ≤ c.toNat ∧ c.toNat < 128) ∧ (c = 'C' → rest.head?.any Char.isDigit = false) ∧ Legible rest

instance decidableLegible : DecidablePred Legible
  | [] => inferInstanceAs (Decidable True)
  | c :: rest =>
    have := decidableLegible rest
    inferInstanceAs (Decidable ((32 ≤ c.toNat ∧ c.toNat < 128) ∧
      (c = 'C' → rest.head?.any Char.isDigit = false) ∧ Legible rest))

theorem escape_of_ascii {c : Char} (h : c.toNat < 128) (hc : isAllowed c = false) :
    escape c = 'C' :: Nat.toDigits 10 c.toNat := by
  have hcode : codeOf (UInt8.ofNat c.toNat) = c.toNat := by
    have hnat := Utf8.toNat_ofNat_ascii h
    rw [codeOf, if_pos (by rw [UInt8.lt_iff_toNat_lt, hnat]; exact h), hnat]
  simp [escape, hc, Utf8.encode_ascii h, hcode]

/-- The first digit of a character's number tells how many there are. -/
theorem length_toDigits : ∀ n < 128, 32 ≤ n →
    (Nat.toDigits 10 n).length = if (Nat.toDigits 10 n).head? = some '1' then 3 else 2 := by
  decide +kernel

/-- No number of such a character begins the number of another in decimal form. -/
theorem eq_of_toDigits_isPrefix {n k : Nat} (hn : 32 ≤ n ∧ n < 128) (hk : 32 ≤ k ∧ k < 128)
    (h : Nat.toDigits 10 n <+: Nat.toDigits 10 k) : n = k := by
  have hhead : (Nat.toDigits 10 k).head? = (Nat.toDigits 10 n).head? := by
    obtain ⟨rest, hrest⟩ := h
    rw [← hrest, List.head?_append_of_ne_nil _ Nat.toDigits_ne_nil]
  have hlength : (Nat.toDigits 10 n).length = (Nat.toDigits 10 k).length := by
    rw [length_toDigits n hn.2 hn.1, length_toDigits k hk.2 hk.1, hhead]
  rw [← Nat.ofDigitChars_ten_toDigits (n := n), h.eq_of_length hlength,
    Nat.ofDigitChars_ten_toDigits]

/-- Two such numbers in front of one text are the same. -/
theorem eq_of_toDigits_append {c d : Char} {s t : List Char} (hc : 32 ≤ c.toNat ∧ c.toNat < 128)
    (hd : 32 ≤ d.toNat ∧ d.toNat < 128)
    (h : Nat.toDigits 10 c.toNat ++ s = Nat.toDigits 10 d.toNat ++ t) : c = d ∧ s = t := by
  have hleft := List.prefix_append (Nat.toDigits 10 c.toNat) s
  rw [h] at hleft
  have hsame : c.toNat = d.toNat := by
    rcases List.prefix_or_prefix_of_prefix hleft (List.prefix_append ..) with hbegins | hbegins
    · exact eq_of_toDigits_isPrefix hc hd hbegins
    · exact (eq_of_toDigits_isPrefix hd hc hbegins).symm
  obtain rfl := Char.toNat_inj.1 hsame
  exact ⟨rfl, List.append_cancel_left h⟩

/-- A digit in front of an identifier is the first character of the text. -/
theorem head?_of_escapes {s : List Char} {d : Char} {rest : List Char} (hd : d.isDigit)
    (h : s.flatMap escape = d :: rest) : s.head? = some d := by
  cases s with
  | nil => cases h
  | cons c s =>
    cases hc : isAllowed c with
    | true =>
      rw [List.flatMap_cons, escape_of_isAllowed hc] at h
      rw [List.head?_cons, (List.cons.inj h).1]
    | false =>
      obtain ⟨more, hmore, -⟩ := escape_of_not_isAllowed hc
      rw [List.flatMap_cons, hmore] at h
      obtain ⟨rfl, -⟩ := List.cons.inj h
      cases hd

/-- A character that stands for itself is not taken for one that does not. -/
theorem Legible.escapes_ne {c d : Char} {s t : List Char} (hs : Legible (c :: s)) (hc : isAllowed c)
    (hascii : d.toNat < 128) (hd : isAllowed d = false) :
    (c :: s).flatMap escape ≠ (d :: t).flatMap escape := by
  intro h
  rw [List.flatMap_cons, List.flatMap_cons, escape_of_isAllowed hc, escape_of_ascii hascii hd] at h
  obtain ⟨rfl, hrest⟩ := List.cons.inj h
  cases hdigits : Nat.toDigits 10 d.toNat with
  | nil => exact Nat.toDigits_ne_nil hdigits
  | cons x digits =>
    have hx : x.isDigit :=
      Nat.isDigit_of_mem_toDigits (by decide) (by decide) (hdigits ▸ List.mem_cons_self ..)
    rw [hdigits] at hrest
    have hfollows := hs.2.1 rfl
    rw [head?_of_escapes hx hrest, Option.any_some, hx] at hfollows
    cases hfollows

theorem Legible.eq_of_escapes {s t : List Char} (hs : Legible s) (ht : Legible t)
    (h : s.flatMap escape = t.flatMap escape) : s = t := by
  induction s generalizing t with
  | nil =>
    cases t with
    | nil => rfl
    | cons d t => simp [escape_ne_nil] at h
  | cons c s ih =>
    cases t with
    | nil => simp [escape_ne_nil] at h
    | cons d t =>
      cases hc : isAllowed c with
      | true =>
        cases hd : isAllowed d with
        | true =>
          rw [List.flatMap_cons, List.flatMap_cons, escape_of_isAllowed hc,
            escape_of_isAllowed hd] at h
          obtain ⟨rfl, hrest⟩ := List.cons.inj h
          rw [ih hs.2.2 ht.2.2 hrest]
        | false => exact absurd h (hs.escapes_ne hc ht.1.2 hd)
      | false =>
        cases hd : isAllowed d with
        | true => exact absurd h.symm (ht.escapes_ne hd hs.1.2 hc)
        | false =>
          rw [List.flatMap_cons, List.flatMap_cons, escape_of_ascii hs.1.2 hc,
            escape_of_ascii ht.1.2 hd] at h
          obtain ⟨rfl, hrest⟩ := eq_of_toDigits_append hs.1 ht.1 (List.cons.inj h).2
          rw [ih hs.2.2 ht.2.2 hrest]

/-- Legible texts with the same identifier are the same. -/
theorem Legible.eq_of_sanitize {s t : String} (hs : Legible s.toList) (ht : Legible t.toList)
    (h : sanitize s = sanitize t) : s = t := by
  have hescapes := congrArg String.toList h
  rw [toList_sanitize, toList_sanitize] at hescapes
  exact String.toList_inj.1 (hs.eq_of_escapes ht hescapes)

/-- A plus sign may be written out, which is not legible. -/
example : sanitize "c+" = sanitize "cC43" ∧ Legible "c+".toList ∧ ¬ Legible "cC43".toList := by
  decide +kernel

end ImageLayer.Identifier
