import Mathlib.Data.List.Basic
import ImageLayer.Text.Blank
/-!
Cutting texts into lines and at separators.

Files that are read line by line are described elsewhere as a list of lines put together with their endings, and
what is written is put together piece by piece. This module says that cutting finds the pieces again.

Sections:

* Separators. `splitAt` cuts at every occurrence, and finds pieces that do not have the separator in them
  (`splitAt_intercalate`, `splitAt_closed`); the first form is for a separator between pieces, the second for
  one behind each. `splitFirst?` and `splitLast?` cut once, and are known by what they give back: the separator
  is not in the part that lies outside (`splitFirst?_eq_some_iff`, `splitLast?_eq_some_iff`).
* Lines. A line ends at a line feed, and a carriage return just in front of that belongs to the ending. A text
  that ends in a line feed has its own lines, whatever follows it (`lines_append`), and a piece without line
  feeds that one follows is a line, but for a carriage return at its end (`lines_line`).

Lines are not pieces between line feeds: a text that ends in a line feed has no empty line behind it, and a
carriage return counts only where a line feed follows. So the two halves of the module share no proof. Proofs
about lines go by `lines_induction`, which has the two endings and any other character as its cases; the
functional induction of `lines` would leave to each of them that the last case is neither of the first two.
-/

namespace ImageLayer.Text

/-! ## Separators -/

section

variable {α : Type} [DecidableEq α] {sep : α}

theorem splitAt_ne_nil (s : List α) : splitAt sep s ≠ [] := by
  cases s with
  | nil => simp [splitAt]
  | cons c rest =>
    rw [splitAt]
    split
    · simp
    · split <;> simp

theorem not_mem_of_mem_splitAt {s piece : List α} (h : piece ∈ splitAt sep s) : sep ∉ piece := by
  induction s generalizing piece with
  | nil => simp_all [splitAt]
  | cons c rest ih =>
    rw [splitAt] at h
    split at h
    · rcases List.mem_cons.1 h with rfl | h
      · simp
      · exact ih h
    · rename_i hc
      cases hs : splitAt sep rest with
      | nil => exact absurd hs (splitAt_ne_nil rest)
      | cons first more =>
        simp only [hs, List.mem_cons] at h ih
        rcases h with rfl | h
        · have := ih (Or.inl rfl)
          simp [Ne.symm hc, this]
        · exact ih (Or.inr h)

theorem splitAt_of_not_mem {s : List α} (h : sep ∉ s) : splitAt sep s = [s] := by
  induction s with
  | nil => rfl
  | cons c rest ih =>
    simp only [List.mem_cons, not_or] at h
    rw [splitAt, if_neg (Ne.symm h.1), ih h.2]

theorem splitAt_append_sep (s t : List α) :
    splitAt sep (s ++ sep :: t) = splitAt sep s ++ splitAt sep t := by
  induction s with
  | nil => simp [splitAt]
  | cons c rest ih =>
    rw [List.cons_append, splitAt, splitAt, ih]
    split
    · rfl
    · cases hs : splitAt sep rest with
      | nil => exact absurd hs (splitAt_ne_nil rest)
      | cons first more => simp

/-- Pieces without the separator are found again when they were put together with it. -/
theorem splitAt_intercalate {pieces : List (List α)} (hne : pieces ≠ []) (h : ∀ s ∈ pieces, sep ∉ s) :
    splitAt sep ([sep].intercalate pieces) = pieces := by
  induction pieces with
  | nil => exact absurd rfl hne
  | cons s pieces ih =>
    obtain ⟨hs, hpieces⟩ := List.forall_mem_cons.1 h
    cases pieces with
    | nil => rw [List.intercalate_singleton, splitAt_of_not_mem hs]
    | cons t rest =>
      rw [List.intercalate_cons_cons, List.append_assoc, List.singleton_append, splitAt_append_sep,
        splitAt_of_not_mem hs, ih (List.cons_ne_nil t rest) hpieces, List.singleton_append]

/-- Pieces are found again when each but the last was written with a separator behind it. -/
theorem splitAt_closed {pieces : List (List α)} (h : ∀ s ∈ pieces, sep ∉ s) {last : List α}
    (hlast : sep ∉ last) : splitAt sep (pieces.flatMap (· ++ [sep]) ++ last) = pieces ++ [last] := by
  induction pieces with
  | nil => exact splitAt_of_not_mem hlast
  | cons s pieces ih =>
    obtain ⟨hs, hpieces⟩ := List.forall_mem_cons.1 h
    rw [List.flatMap_cons, List.append_assoc, List.append_assoc, List.singleton_append, splitAt_append_sep,
      splitAt_of_not_mem hs, ih hpieces, List.singleton_append, List.cons_append]

/-- A text is split at the first occurrence of the separator. -/
theorem splitFirst?_eq_some_iff {s a b : List α} :
    splitFirst? sep s = some (a, b) ↔ s = a ++ sep :: b ∧ sep ∉ a := by
  induction s generalizing a with
  | nil => simp [splitFirst?]
  | cons c rest ih =>
    rw [splitFirst?]
    by_cases hc : c = sep
    · subst hc
      rw [if_pos rfl, Option.some.injEq, Prod.mk.injEq]
      constructor
      · rintro ⟨rfl, rfl⟩
        simp
      · rintro ⟨heq, hnot⟩
        cases a with
        | nil => exact ⟨rfl, (List.cons.inj heq).2⟩
        | cons x a => simp [(List.cons.inj heq).1] at hnot
    · rw [if_neg hc, Option.map_eq_some_iff]
      constructor
      · rintro ⟨⟨a', b'⟩, hsplit, hpair⟩
        obtain ⟨rfl, rfl⟩ := Prod.mk.inj hpair
        obtain ⟨rfl, hnot⟩ := ih.1 hsplit
        exact ⟨rfl, by simp [Ne.symm hc, hnot]⟩
      · rintro ⟨heq, hnot⟩
        cases a with
        | nil => exact absurd (List.cons.inj heq).1 hc
        | cons x a =>
          obtain ⟨rfl, rfl⟩ := List.cons.inj heq
          exact ⟨(a, b), ih.2 ⟨rfl, fun hmem => hnot (List.mem_cons_of_mem _ hmem)⟩, rfl⟩

theorem splitFirst?_eq_none_iff {s : List α} : splitFirst? sep s = none ↔ sep ∉ s := by
  constructor
  · intro hnone hmem
    obtain ⟨a, b, hsplit⟩ := List.eq_append_cons_of_mem hmem
    rw [splitFirst?_eq_some_iff.2 hsplit] at hnone
    cases hnone
  · intro hnot
    rw [Option.eq_none_iff_forall_ne_some]
    rintro ⟨a, b⟩ hsplit
    exact hnot ((splitFirst?_eq_some_iff.1 hsplit).1 ▸ by simp)

/-- A text is split at the last occurrence of the separator. -/
theorem splitLast?_eq_some_iff {s a b : List α} :
    splitLast? sep s = some (a, b) ↔ s = a ++ sep :: b ∧ sep ∉ b := by
  rw [splitLast?, Option.map_eq_some_iff]
  constructor
  · rintro ⟨⟨behind, front⟩, hsplit, hpair⟩
    obtain ⟨rfl, rfl⟩ := Prod.mk.inj hpair
    obtain ⟨heq, hnot⟩ := splitFirst?_eq_some_iff.1 hsplit
    rw [← List.reverse_inj, heq]
    simpa using hnot
  · rintro ⟨rfl, hnot⟩
    exact ⟨(b.reverse, a.reverse), splitFirst?_eq_some_iff.2 (by simpa using hnot), by simp⟩

theorem splitLast?_eq_none_iff {s : List α} : splitLast? sep s = none ↔ sep ∉ s := by
  rw [splitLast?, Option.map_eq_none_iff, splitFirst?_eq_none_iff, List.mem_reverse]

end

/-! ## Lines -/

/-- Puts a character in front of the first line. -/
def consFirst (c : Char) : List (List Char) → List (List Char)
  | [] => [[c]]
  | line :: more => (c :: line) :: more

@[simp] theorem lines_nil : lines [] = [] := rfl

@[simp] theorem lines_newline (rest : List Char) : lines ('\n' :: rest) = [] :: lines rest := by
  rw [lines]

@[simp] theorem lines_return_newline (rest : List Char) :
    lines ('\r' :: '\n' :: rest) = [] :: lines rest := by
  rw [lines]

/-- A character that ends no line is the first of the first line. -/
theorem lines_cons {c : Char} {rest : List Char} (hc : c ≠ '\n') (hrest : c = '\r' → rest.head? ≠ some '\n') :
    lines (c :: rest) = consFirst c (lines rest) := by
  rw [lines]
  · cases lines rest <;> rfl
  · exact fun h => hc h
  · rintro rest' rfl rfl
    exact hrest rfl rfl

theorem consFirst_append {c : Char} {a : List (List Char)} (ha : a ≠ []) (b : List (List Char)) :
    consFirst c (a ++ b) = consFirst c a ++ b := by
  cases a with
  | nil => exact absurd rfl ha
  | cons line more => rfl

theorem lines_ne_nil {s : List Char} (hs : s ≠ []) : lines s ≠ [] := by
  unfold lines
  split
  · exact absurd rfl hs
  · simp
  · simp
  · split <;> simp

/-- What holds of the empty text and, with a rest, of each line ending and each other character in front of
it, holds of every text. -/
theorem lines_induction {P : List Char → Prop} (nil : P []) (newline : ∀ rest, P rest → P ('\n' :: rest))
    (ending : ∀ rest, P rest → P ('\r' :: '\n' :: rest))
    (cons : ∀ c rest, c ≠ '\n' → (c = '\r' → rest.head? ≠ some '\n') → P rest → P (c :: rest))
    (s : List Char) : P s := by
  have hcons : ∀ c rest, (c = '\n' → False) → (∀ rest', c = '\r' → rest = '\n' :: rest' → False) →
      P rest → P (c :: rest) := by
    intro c rest hnewline hending hrest
    refine cons c rest hnewline (fun hc hhead => ?_) hrest
    obtain ⟨rest', hrest'⟩ := List.head?_eq_some_iff.1 hhead
    exact hending rest' hc hrest'
  induction s using lines.induct with
  | case1 => exact nil
  | case2 rest ih => exact newline rest ih
  | case3 rest ih => exact ending rest ih
  | case4 c rest hnewline hending _ ih => exact hcons c rest hnewline hending ih
  | case5 c rest hnewline hending _ _ _ ih => exact hcons c rest hnewline hending ih

theorem lines_append_newline (a b : List Char) :
    lines (a ++ '\n' :: b) = lines (a ++ ['\n']) ++ lines b := by
  induction a using lines_induction with
  | nil => simp
  | newline rest ih => simpa using ih
  | ending rest ih => simpa using ih
  | cons c rest hc hending ih =>
    by_cases hlast : c = '\r' ∧ rest = []
    · obtain ⟨rfl, rfl⟩ := hlast
      simp
    · have hhead : ∀ tail, c = '\r' → (rest ++ '\n' :: tail).head? ≠ some '\n' := by
        intro tail hr
        cases rest with
        | nil => exact absurd ⟨hr, rfl⟩ hlast
        | cons d rest => simpa using hending hr
      rw [List.cons_append, List.cons_append, lines_cons hc (hhead b), lines_cons hc (hhead []), ih,
        consFirst_append (lines_ne_nil (by simp))]

/-- A text that ends in a line feed has its own lines, whatever follows it. -/
theorem lines_append {a : List Char} (ha : a.getLast? = some '\n') (b : List Char) :
    lines (a ++ b) = lines a ++ lines b := by
  obtain ⟨a, rfl⟩ := List.getLast?_eq_some_iff.1 ha
  rw [List.append_assoc, List.singleton_append, lines_append_newline]

/-- A line without the carriage return that may stand at its end. -/
def dropReturn (line : List Char) : List Char :=
  if line.getLast? = some '\r' then line.dropLast else line

theorem dropReturn_sublist (line : List Char) : (dropReturn line).Sublist line := by
  unfold dropReturn
  split
  · exact List.dropLast_sublist line
  · exact List.Sublist.refl line

/-- A piece without line feeds that one follows is a line, but for a carriage return at its end. -/
theorem lines_line {line : List Char} (hline : '\n' ∉ line) (rest : List Char) :
    lines (line ++ '\n' :: rest) = dropReturn line :: lines rest := by
  induction line with
  | nil => rfl
  | cons c line ih =>
    obtain ⟨hc, hline⟩ := List.ne_and_not_mem_of_not_mem_cons hline
    cases line with
    | nil =>
      by_cases hr : c = '\r'
      · subst hr
        simp [dropReturn]
      · rw [List.singleton_append, lines_cons (Ne.symm hc) fun h => absurd h hr]
        simp [dropReturn, hr, consFirst]
    | cons d line =>
      rw [List.cons_append, lines_cons (Ne.symm hc) fun _ => ?_, ih hline]
      · simp only [dropReturn, List.getLast?_cons_cons, List.dropLast_cons_cons]
        split <;> rfl
      · simpa using fun h : d = '\n' => hline (h ▸ List.mem_cons_self)

/-- Characters that end no line are put in front of the first line. -/
theorem lines_front {front s first : List Char} {more : List (List Char)} (hnewline : '\n' ∉ front)
    (hreturn : '\r' ∉ front) (hlines : lines s = first :: more) :
    lines (front ++ s) = (front ++ first) :: more := by
  induction front with
  | nil => exact hlines
  | cons c front ih =>
    obtain ⟨hc, hnewline⟩ := List.ne_and_not_mem_of_not_mem_cons hnewline
    obtain ⟨hc', hreturn⟩ := List.ne_and_not_mem_of_not_mem_cons hreturn
    rw [List.cons_append, lines_cons (Ne.symm hc) fun h => absurd h (Ne.symm hc'), ih hnewline hreturn]
    rfl

theorem mem_consFirst {c : Char} {ls : List (List Char)} {line : List Char} (h : line ∈ consFirst c ls) :
    line ∈ ls ∨ ∃ line', (line' = [] ∨ line' ∈ ls) ∧ line = c :: line' := by
  cases ls with
  | nil => exact Or.inr ⟨[], Or.inl rfl, by simpa [consFirst] using h⟩
  | cons first more =>
    rcases List.mem_cons.1 h with rfl | hmem
    · exact Or.inr ⟨first, Or.inr List.mem_cons_self, rfl⟩
    · exact Or.inl (List.mem_cons_of_mem _ hmem)

/-- A line consists of characters of the text other than line feeds. -/
theorem mem_of_mem_lines {s line : List Char} (hline : line ∈ lines s) :
    '\n' ∉ line ∧ ∀ c ∈ line, c ∈ s := by
  induction s using lines_induction generalizing line with
  | nil => simp at hline
  | newline rest ih =>
    rw [lines_newline, List.mem_cons] at hline
    rcases hline with rfl | hline
    · simp
    · exact ⟨(ih hline).1, fun c hc => List.mem_cons_of_mem _ ((ih hline).2 c hc)⟩
  | ending rest ih =>
    rw [lines_return_newline, List.mem_cons] at hline
    rcases hline with rfl | hline
    · simp
    · exact ⟨(ih hline).1, fun c hc =>
        List.mem_cons_of_mem _ (List.mem_cons_of_mem _ ((ih hline).2 c hc))⟩
  | cons c rest hc hending ih =>
    rw [lines_cons hc hending] at hline
    rcases mem_consFirst hline with hline | ⟨line', hline', rfl⟩
    · exact ⟨(ih hline).1, fun d hd => List.mem_cons_of_mem _ ((ih hline).2 d hd)⟩
    · have hmore : '\n' ∉ line' ∧ ∀ d ∈ line', d ∈ rest := by
        rcases hline' with rfl | hline'
        · simp
        · exact ih hline'
      refine ⟨List.not_mem_cons_of_ne_of_not_mem hc.symm hmore.1, fun d hd => ?_⟩
      exact (List.mem_cons.1 hd).elim (fun h => h ▸ List.mem_cons_self)
        fun hd => List.mem_cons_of_mem _ (hmore.2 d hd)

end ImageLayer.Text
