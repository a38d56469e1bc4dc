/-!
Blank characters, trimming and lines.

A character is blank if it has the Unicode property White_Space. A line ends at a line feed; a
carriage return just before the line feed belongs to the ending, and any other carriage return
to the line.
-/

namespace ImageLayer.Text

/-- The characters with the property White_Space. -/
def isBlank (c : Char) : Bool :=
  ('\t' ≤ c && c ≤ '\r') || c = ' ' || c = '\u0085' || c = '\u00A0' || c = '\u1680' ||
  ('\u2000' ≤ c && c ≤ '\u200A') || c = '\u2028' || c = '\u2029' || c = '\u202F' ||
  c = '\u205F' || c = '\u3000'

/-- Drops the characters of a class from both ends. -/
def trimBoth (p : Char → Bool) (s : List Char) : List Char :=
  ((s.dropWhile p).reverse.dropWhile p).reverse

/-- Drops blanks from both ends. -/
def trim (s : List Char) : List Char := trimBoth isBlank s

/-- The lines of a text. A text that ends in a line feed has no empty last line. -/
def lines : List Char → List (List Char)
  | [] => []
  | '\n' :: rest => [] :: lines rest
  | '\r' :: '\n' :: rest => [] :: lines rest
  | c :: rest =>
    match lines rest with
    | [] => [[c]]
    | line :: more => (c :: line) :: more

/-- The pieces of a list between occurrences of a separator; one piece more than there are
separators. -/
def splitAt {α : Type} [DecidableEq α] (sep : α) : List α → List (List α)
  | [] => [[]]
  | c :: rest =>
    if c = sep then [] :: splitAt sep rest
    else match splitAt sep rest with
      | [] => [[c]]
      | piece :: more => (c :: piece) :: more

/-- What stands before and after the first occurrence of a separator. -/
def splitFirst? {α : Type} [DecidableEq α] (sep : α) : List α → Option (List α × List α)
  | [] => none
  | c :: rest =>
    if c = sep then some ([], rest)
    else (splitFirst? sep rest).map fun (before, after) => (c :: before, after)

/-- What stands before and after the last occurrence of a separator. -/
def splitLast? {α : Type} [DecidableEq α] (sep : α) (s : List α) : Option (List α × List α) :=
  (splitFirst? sep s.reverse).map fun (after, before) => (before.reverse, after.reverse)

/-- Going on behind a separator comes to an end. -/
theorem length_lt_of_splitFirst? {α : Type} [DecidableEq α] {sep : α} {s a b : List α}
    (h : splitFirst? sep s = some (a, b)) : b.length < s.length := by
  induction s generalizing a with
  | nil => cases h
  | cons c rest ih =>
    rw [splitFirst?] at h
    split at h
    · obtain ⟨-, rfl⟩ := Prod.mk.inj (Option.some.inj h)
      exact Nat.lt_succ_self _
    · obtain ⟨⟨a', b'⟩, hrest, hpair⟩ := Option.map_eq_some_iff.1 h
      obtain ⟨-, rfl⟩ := Prod.mk.inj hpair
      exact Nat.lt_succ_of_lt (ih hrest)

/-- Going on in front of a separator comes to an end. -/
theorem length_lt_of_splitLast? {α : Type} [DecidableEq α] {sep : α} {s a b : List α}
    (h : splitLast? sep s = some (a, b)) : a.length < s.length := by
  obtain ⟨⟨b', a'⟩, hsplit, hpair⟩ := Option.map_eq_some_iff.1 h
  obtain ⟨rfl, -⟩ := Prod.mk.inj hpair
  have hlength := length_lt_of_splitFirst? hsplit
  rwa [List.length_reverse] at hlength ⊢

/-- What follows `start`, if the text begins with it. -/
def dropStart? (start : List Char) (s : List Char) : Option (List Char) :=
  if start.isPrefixOf s then some (s.drop start.length) else none

/-- Whether `part` occurs somewhere in the text. -/
def occursIn (part : List Char) : List Char → Bool
  | [] => part.isEmpty
  | c :: rest => part.isPrefixOf (c :: rest) || occursIn part rest

end ImageLayer.Text
