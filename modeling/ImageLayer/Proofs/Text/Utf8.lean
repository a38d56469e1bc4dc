import ImageLayer.Text.Utf8
/-!
UTF-8 and the texts it stands for.

Bytes are decoded by a machine that looks at one byte at a time and says what it has read: a character, or a
fault, after which it goes on. Lossy decoding puts a replacement where there is a fault, and strict decoding
gives up. `decode?_eq_some_iff`, the main statement, says that strict decoding undoes encoding and accepts
nothing else, and `lossy_ofString` that lossy decoding loses nothing of a text.

Sections:

* The bytes of a character. For each width, the character with the bits of given bytes has these bytes
  (`encode_one` to `encode_four`). The conditions on the second byte are the ones the format makes: they keep
  out overlong forms, surrogates and what is above the last code point.
* First bytes: the state in which a first byte leaves the machine, by its range (`start_one` to `start_four`,
  `start_fault`). `mem_secondRange` says that the range that the machine allows for the second byte is that of
  the conditions above.
* Inside a character: the last byte ends it, any other goes on (`readFrom_last`, `readFrom_more`).
* Whole characters: their bytes are read as the character, whatever follows (`readFrom_character`).
* Texts. One direction is an induction on the characters (`readFrom_text`). For the other, where there is no
  fault the first bytes are those of the first character (`exists_of_readFrom`), and the induction is on the
  length of what is left (`eq_of_readFrom`).

Encoding is the library's `String.utf8EncodeChar`; its four cases are the only place where bits are looked at.
-/

namespace ImageLayer.Utf8

/-- A byte that goes on with a character. -/
def IsTail (b : UInt8) : Prop := 0x80 ≤ b.toNat ∧ b.toNat ≤ 0xBF

/-! ## The bytes of a character -/

theorem toNat_ofNat {n : Nat} (h : n < 0xD800 ∨ 0xDFFF < n ∧ n < 0x110000) :
    (Char.ofNat n).val.toNat = n := by
  have hvalid : n.isValidChar := h
  rw [Char.ofNat, dif_pos hvalid]
  rfl

theorem encode_one {a : UInt8} (ha : a.toNat < 0x80) :
    String.utf8EncodeChar (Char.ofNat a.toNat) = [a] := by
  have hchar := toNat_ofNat (n := a.toNat) (by omega)
  simp only [String.utf8EncodeChar, hchar]
  rw [if_pos (by omega), UInt8.ofNat_toNat]

theorem encode_two {a b : UInt8} (ha : 0xC2 ≤ a.toNat) (ha' : a.toNat < 0xE0) (hb : IsTail b) :
    String.utf8EncodeChar (Char.ofNat (a.toNat % 32 * 64 + b.toNat % 64)) = [a, b] := by
  obtain ⟨hb, hb'⟩ := hb
  have hchar := toNat_ofNat (n := a.toNat % 32 * 64 + b.toNat % 64) (by omega)
  simp only [String.utf8EncodeChar, hchar]
  rw [if_neg (by omega), if_pos (by omega)]
  simp only [List.cons.injEq, and_true, ← UInt8.toNat_inj, UInt8.toNat_ofNat']
  omega

/-- The second byte after a first byte of three bytes' width, kept from overlong forms and surrogates. -/
theorem encode_three {a b c : UInt8} (ha : 0xE0 ≤ a.toNat) (ha' : a.toNat < 0xF0) (hb : IsTail b)
    (hlong : a.toNat = 0xE0 → 0xA0 ≤ b.toNat) (hsurrogate : a.toNat = 0xED → b.toNat ≤ 0x9F)
    (hc : IsTail c) :
    String.utf8EncodeChar
        (Char.ofNat ((a.toNat % 16 * 64 + b.toNat % 64) * 64 + c.toNat % 64)) = [a, b, c] := by
  obtain ⟨hb, hb'⟩ := hb
  obtain ⟨hc, hc'⟩ := hc
  have hchar := toNat_ofNat (n := (a.toNat % 16 * 64 + b.toNat % 64) * 64 + c.toNat % 64) (by omega)
  simp only [String.utf8EncodeChar, hchar]
  rw [if_neg (by omega), if_neg (by omega), if_pos (by omega)]
  simp only [List.cons.injEq, and_true, ← UInt8.toNat_inj, UInt8.toNat_ofNat']
  omega

/-- The second byte after a first byte of four bytes' width, kept from overlong forms and from what is above
the last code point. -/
theorem encode_four {a b c d : UInt8} (ha : 0xF0 ≤ a.toNat) (ha' : a.toNat ≤ 0xF4) (hb : IsTail b)
    (hlong : a.toNat = 0xF0 → 0x90 ≤ b.toNat) (hlast : a.toNat = 0xF4 → b.toNat ≤ 0x8F)
    (hc : IsTail c) (hd : IsTail d) :
    String.utf8EncodeChar (Char.ofNat (((a.toNat % 8 * 64 + b.toNat % 64) * 64 + c.toNat % 64) * 64
      + d.toNat % 64)) = [a, b, c, d] := by
  obtain ⟨hb, hb'⟩ := hb
  obtain ⟨hc, hc'⟩ := hc
  obtain ⟨hd, hd'⟩ := hd
  have hchar := toNat_ofNat (n := ((a.toNat % 8 * 64 + b.toNat % 64) * 64 + c.toNat % 64) * 64
    + d.toNat % 64) (by omega)
  simp only [String.utf8EncodeChar, hchar]
  rw [if_neg (by omega), if_neg (by omega), if_neg (by omega)]
  simp only [List.cons.injEq, and_true, ← UInt8.toNat_inj, UInt8.toNat_ofNat']
  omega

theorem encode_ascii {c : Char} (h : c.toNat < 0x80) : String.utf8EncodeChar c = [UInt8.ofNat c.toNat] := by
  have hle : c.toNat ≤ 127 := Nat.le_of_lt_succ h
  simp [String.utf8EncodeChar, hle]

theorem toNat_ofNat_ascii {c : Char} (h : c.toNat < 0x80) : (UInt8.ofNat c.toNat).toNat = c.toNat :=
  UInt8.toNat_ofNat_of_lt' (by have : UInt8.size = 256 := rfl; omega)

/-- No byte of a character that is not of ASCII is one of ASCII. -/
theorem le_of_mem_encode {c : Char} (h : 0x80 ≤ c.toNat) {b : UInt8} (hb : b ∈ String.utf8EncodeChar c) :
    0x80 ≤ b.toNat := by
  have hval : 0x80 ≤ c.val.toNat := h
  simp only [String.utf8EncodeChar] at hb
  split at hb
  · omega
  split at hb
  · simp only [List.mem_cons, List.not_mem_nil, or_false] at hb
    rcases hb with rfl | rfl <;> rw [UInt8.toNat_ofNat'] <;> omega
  split at hb
  · simp only [List.mem_cons, List.not_mem_nil, or_false] at hb
    rcases hb with rfl | rfl | rfl <;> rw [UInt8.toNat_ofNat'] <;> omega
  · simp only [List.mem_cons, List.not_mem_nil, or_false] at hb
    rcases hb with rfl | rfl | rfl | rfl <;> rw [UInt8.toNat_ofNat'] <;> omega

/-- A text has the byte of an ASCII character exactly if it has the character. -/
theorem mem_ofString_ascii {c : Char} (h : c.toNat < 0x80) {s : String} :
    UInt8.ofNat c.toNat ∈ Bytes.ofString s ↔ c ∈ s.toList := by
  rw [Bytes.ofString, List.mem_flatMap]
  constructor
  · rintro ⟨d, hd, hmem⟩
    by_cases hd' : d.toNat < 0x80
    · rw [encode_ascii hd', List.mem_singleton, ← UInt8.toNat_inj, toNat_ofNat_ascii h, toNat_ofNat_ascii hd'] at hmem
      rwa [Char.toNat_inj.1 hmem]
    · have hle := le_of_mem_encode (Nat.le_of_not_lt hd') hmem
      rw [toNat_ofNat_ascii h] at hle
      exact absurd h (Nat.not_lt.2 hle)
  · exact fun hc => ⟨c, hc, by rw [encode_ascii h]; exact List.mem_singleton_self _⟩

/-! ## First bytes -/

theorem start_one {a : UInt8} (ha : a.toNat < 0x80) :
    start a = ([some (Char.ofNat a.toNat)], .between) :=
  if_pos (UInt8.lt_iff_toNat_lt.2 ha)

theorem start_fault {a : UInt8} (ha : 0x80 ≤ a.toNat) (ha' : a.toNat < 0xC2 ∨ 0xF4 < a.toNat) :
    start a = ([none], .between) := by
  have hone : ¬ a < 0x80 := by simpa [UInt8.lt_iff_toNat_lt] using ha
  have hfault : (a < 0xC2 || 0xF4 < a) = true := by simpa [UInt8.lt_iff_toNat_lt] using ha'
  rw [start, if_neg hone, if_pos hfault]

theorem start_two {a : UInt8} (ha : 0xC2 ≤ a.toNat) (ha' : a.toNat < 0xE0) :
    start a = ([], .inside 1 (a.toNat % 32) 0x80 0xBF) := by
  have hone : ¬ a < 0x80 := by simp [UInt8.lt_iff_toNat_lt]; omega
  have hfault : ¬ (a < 0xC2 || 0xF4 < a) = true := by simp [UInt8.lt_iff_toNat_lt]; omega
  rw [start, if_neg hone, if_neg hfault, if_pos (UInt8.lt_iff_toNat_lt.2 ha')]

theorem start_three {a : UInt8} (ha : 0xE0 ≤ a.toNat) (ha' : a.toNat < 0xF0) :
    start a = ([], .inside 2 (a.toNat % 16) (secondRange a).1 (secondRange a).2) := by
  have hone : ¬ a < 0x80 := by simp [UInt8.lt_iff_toNat_lt]; omega
  have hfault : ¬ (a < 0xC2 || 0xF4 < a) = true := by simp [UInt8.lt_iff_toNat_lt]; omega
  have htwo : ¬ a < 0xE0 := by simpa [UInt8.lt_iff_toNat_lt] using ha
  rw [start, if_neg hone, if_neg hfault, if_neg htwo]
  exact if_pos (UInt8.lt_iff_toNat_lt.2 ha')

theorem start_four {a : UInt8} (ha : 0xF0 ≤ a.toNat) (ha' : a.toNat ≤ 0xF4) :
    start a = ([], .inside 3 (a.toNat % 8) (secondRange a).1 (secondRange a).2) := by
  have hone : ¬ a < 0x80 := by simp [UInt8.lt_iff_toNat_lt]; omega
  have hfault : ¬ (a < 0xC2 || 0xF4 < a) = true := by simp [UInt8.lt_iff_toNat_lt]; omega
  have htwo : ¬ a < 0xE0 := by simp [UInt8.lt_iff_toNat_lt]; omega
  have hthree : ¬ a < 0xF0 := by simpa [UInt8.lt_iff_toNat_lt] using ha
  rw [start, if_neg hone, if_neg hfault, if_neg htwo]
  exact if_neg hthree

/-- The second bytes that may follow a first byte of three or four bytes' width. -/
theorem mem_secondRange {a b : UInt8} :
    (secondRange a).1 ≤ b ∧ b ≤ (secondRange a).2 ↔
      IsTail b ∧ (a.toNat = 0xE0 → 0xA0 ≤ b.toNat) ∧ (a.toNat = 0xED → b.toNat ≤ 0x9F) ∧
        (a.toNat = 0xF0 → 0x90 ≤ b.toNat) ∧ (a.toNat = 0xF4 → b.toNat ≤ 0x8F) := by
  have heq : ∀ n : UInt8, a = n ↔ a.toNat = n.toNat := fun n => UInt8.toNat_inj.symm
  unfold secondRange IsTail
  simp only [heq, UInt8.le_iff_toNat_le, UInt8.reduceToNat]
  split
  · simp only [UInt8.reduceToNat]
    omega
  · split
    · simp only [UInt8.reduceToNat]
      omega
    · split
      · simp only [UInt8.reduceToNat]
        omega
      · split
        · simp only [UInt8.reduceToNat]
          omega
        · simp only [UInt8.reduceToNat]
          omega

/-! ## Inside a character -/

theorem readFrom_cons (s : State) (b : UInt8) (rest : Bytes) :
    readFrom s (b :: rest) = (step s b).1 ++ readFrom (step s b).2 rest := by
  cases s <;> rfl

theorem readFrom_last {value : Nat} {least greatest b : UInt8} (hb : least ≤ b ∧ b ≤ greatest)
    (rest : Bytes) :
    readFrom (.inside 1 value least greatest) (b :: rest)
      = some (Char.ofNat (value * 64 + b.toNat % 64)) :: readFrom .between rest := by
  rw [readFrom_cons, step, if_pos (by simpa using hb)]
  rfl

theorem readFrom_more {left value : Nat} {least greatest b : UInt8} (hb : least ≤ b ∧ b ≤ greatest)
    (rest : Bytes) :
    readFrom (.inside (left + 2) value least greatest) (b :: rest)
      = readFrom (.inside (left + 1) (value * 64 + b.toNat % 64) 0x80 0xBF) rest := by
  rw [readFrom_cons, step, if_pos (by simpa using hb)]
  simp

/-- Where there is no fault, the character goes on with a byte that may. -/
theorem exists_of_readFrom_inside {left value : Nat} {least greatest : UInt8} {bs : Bytes}
    {cs : List Char} (h : readFrom (.inside left value least greatest) bs = cs.map some) :
    ∃ b rest, bs = b :: rest ∧ least ≤ b ∧ b ≤ greatest := by
  cases bs with
  | nil => cases cs <;> simp [readFrom] at h
  | cons b rest =>
    by_cases hb : least ≤ b ∧ b ≤ greatest
    · exact ⟨b, rest, rfl, hb⟩
    · rw [readFrom_cons, step, if_neg (by simpa using hb)] at h
      cases cs <;> simp at h

theorem isTail_iff {b : UInt8} : (0x80 : UInt8) ≤ b ∧ b ≤ 0xBF ↔ IsTail b := by
  simp [IsTail, UInt8.le_iff_toNat_le]

/-! ## Whole characters -/

theorem readFrom_one {a : UInt8} (ha : a.toNat < 0x80) (rest : Bytes) :
    readFrom .between (a :: rest) = some (Char.ofNat a.toNat) :: readFrom .between rest := by
  rw [readFrom_cons, step, start_one ha]
  rfl

theorem readFrom_two {a b : UInt8} (ha : 0xC2 ≤ a.toNat) (ha' : a.toNat < 0xE0) (hb : IsTail b)
    (rest : Bytes) :
    readFrom .between (a :: b :: rest)
      = some (Char.ofNat (a.toNat % 32 * 64 + b.toNat % 64)) :: readFrom .between rest := by
  rw [readFrom_cons, step, start_two ha ha', List.nil_append, readFrom_last (isTail_iff.2 hb)]

theorem readFrom_three {a b c : UInt8} (ha : 0xE0 ≤ a.toNat) (ha' : a.toNat < 0xF0)
    (hb : (secondRange a).1 ≤ b ∧ b ≤ (secondRange a).2) (hc : IsTail c) (rest : Bytes) :
    readFrom .between (a :: b :: c :: rest)
      = some (Char.ofNat ((a.toNat % 16 * 64 + b.toNat % 64) * 64 + c.toNat % 64))
        :: readFrom .between rest := by
  rw [readFrom_cons, step, start_three ha ha', List.nil_append, readFrom_more hb,
    readFrom_last (isTail_iff.2 hc)]

theorem readFrom_four {a b c d : UInt8} (ha : 0xF0 ≤ a.toNat) (ha' : a.toNat ≤ 0xF4)
    (hb : (secondRange a).1 ≤ b ∧ b ≤ (secondRange a).2) (hc : IsTail c) (hd : IsTail d) (rest : Bytes) :
    readFrom .between (a :: b :: c :: d :: rest)
      = some (Char.ofNat (((a.toNat % 8 * 64 + b.toNat % 64) * 64 + c.toNat % 64) * 64 + d.toNat % 64))
        :: readFrom .between rest := by
  rw [readFrom_cons, step, start_four ha ha', List.nil_append, readFrom_more hb,
    readFrom_more (isTail_iff.2 hc), readFrom_last (isTail_iff.2 hd)]

theorem toNat_ofNat_tail (v : Nat) : (UInt8.ofNat (v % 64 + 128)).toNat = v % 64 + 128 := by
  rw [UInt8.toNat_ofNat']
  omega

theorem isTail_ofNat (v : Nat) : IsTail (UInt8.ofNat (v % 64 + 128)) := by
  unfold IsTail
  rw [toNat_ofNat_tail]
  omega

/-- The bytes of a character are read as the character, whatever follows. -/
theorem readFrom_character (c : Char) (rest : Bytes) :
    readFrom .between (String.utf8EncodeChar c ++ rest) = some c :: readFrom .between rest := by
  have hvalid : c.val.toNat < 0xD800 ∨ 0xDFFF < c.val.toNat ∧ c.val.toNat < 0x110000 := c.valid
  have hchar : c = Char.ofNat c.val.toNat := (Char.ofNat_toNat c).symm
  generalize c.val.toNat = v at hvalid hchar
  subst hchar
  simp only [String.utf8EncodeChar, toNat_ofNat hvalid]
  split
  · have ha : (UInt8.ofNat v).toNat = v := by rw [UInt8.toNat_ofNat']; omega
    rw [List.singleton_append, readFrom_one (by omega), ha]
  split
  · have ha : (UInt8.ofNat (v / 64 % 32 + 192)).toNat = v / 64 % 32 + 192 := by
      rw [UInt8.toNat_ofNat']; omega
    simp only [List.cons_append, List.nil_append]
    rw [readFrom_two (by omega) (by omega) (isTail_ofNat v), ha, toNat_ofNat_tail]
    congr 3
    omega
  split
  · have ha : (UInt8.ofNat (v / 4096 % 16 + 224)).toNat = v / 4096 % 16 + 224 := by
      rw [UInt8.toNat_ofNat']; omega
    have hb := toNat_ofNat_tail (v / 64)
    have hsecond := (mem_secondRange (a := UInt8.ofNat (v / 4096 % 16 + 224))).2
      ⟨isTail_ofNat (v / 64), by omega, by omega, by omega, by omega⟩
    simp only [List.cons_append, List.nil_append]
    rw [readFrom_three (by omega) (by omega) hsecond (isTail_ofNat v), ha, hb, toNat_ofNat_tail]
    congr 3
    omega
  · have ha : (UInt8.ofNat (v / 262144 % 8 + 240)).toNat = v / 262144 % 8 + 240 := by
      rw [UInt8.toNat_ofNat']; omega
    have hb := toNat_ofNat_tail (v / 4096)
    have hsecond := (mem_secondRange (a := UInt8.ofNat (v / 262144 % 8 + 240))).2
      ⟨isTail_ofNat (v / 4096), by omega, by omega, by omega, by omega⟩
    simp only [List.cons_append, List.nil_append]
    rw [readFrom_four (by omega) (by omega) hsecond (isTail_ofNat (v / 64)) (isTail_ofNat v), ha, hb,
      toNat_ofNat_tail, toNat_ofNat_tail]
    congr 3
    omega

/-! ## Texts -/

theorem readFrom_text (cs : List Char) :
    readFrom .between (cs.flatMap String.utf8EncodeChar) = cs.map some := by
  induction cs with
  | nil => rfl
  | cons c cs ih => rw [List.flatMap_cons, readFrom_character, ih, List.map_cons]

/-- Where there is no fault, the first bytes are those of the first character. -/
theorem exists_of_readFrom {b : UInt8} {rest : Bytes} {cs : List Char}
    (h : readFrom .between (b :: rest) = cs.map some) :
    ∃ c cs' rest', cs = c :: cs' ∧ b :: rest = String.utf8EncodeChar c ++ rest' ∧
      readFrom .between rest' = cs'.map some := by
  -- A character that was read is the first of the text.
  have hfirst : ∀ {n rest'}, some (Char.ofNat n) :: readFrom .between rest' = cs.map some →
      b :: rest = String.utf8EncodeChar (Char.ofNat n) ++ rest' →
      ∃ c cs' rest', cs = c :: cs' ∧ b :: rest = String.utf8EncodeChar c ++ rest' ∧
        readFrom .between rest' = cs'.map some := by
    intro n rest' hread hbytes
    cases cs with
    | nil => cases hread
    | cons c cs =>
      obtain ⟨hc, hcs⟩ := List.cons.inj hread
      exact ⟨c, cs, rest', rfl, Option.some.inj hc ▸ hbytes, hcs⟩
  rw [readFrom_cons, step] at h
  by_cases hone : b.toNat < 0x80
  · rw [start_one hone] at h
    exact hfirst h (by rw [encode_one hone]; rfl)
  by_cases hfault : b.toNat < 0xC2 ∨ 0xF4 < b.toNat
  · rw [start_fault (by omega) hfault] at h
    cases cs <;> simp at h
  by_cases htwo : b.toNat < 0xE0
  · rw [start_two (by omega) htwo, List.nil_append] at h
    obtain ⟨b₂, rest₂, rfl, hb₂⟩ := exists_of_readFrom_inside h
    rw [readFrom_last hb₂] at h
    refine hfirst h ?_
    rw [encode_two (by omega) htwo (isTail_iff.1 hb₂)]
    rfl
  by_cases hthree : b.toNat < 0xF0
  · rw [start_three (by omega) hthree, List.nil_append] at h
    obtain ⟨b₂, rest₂, rfl, hb₂⟩ := exists_of_readFrom_inside h
    rw [readFrom_more hb₂] at h
    obtain ⟨b₃, rest₃, rfl, hb₃⟩ := exists_of_readFrom_inside h
    rw [readFrom_last hb₃] at h
    obtain ⟨htail, hlong, hsurrogate, -, -⟩ := mem_secondRange.1 hb₂
    refine hfirst h ?_
    rw [encode_three (by omega) hthree htail hlong hsurrogate (isTail_iff.1 hb₃)]
    rfl
  · rw [start_four (by omega) (by omega), List.nil_append] at h
    obtain ⟨b₂, rest₂, rfl, hb₂⟩ := exists_of_readFrom_inside h
    rw [readFrom_more hb₂] at h
    obtain ⟨b₃, rest₃, rfl, hb₃⟩ := exists_of_readFrom_inside h
    rw [readFrom_more hb₃] at h
    obtain ⟨b₄, rest₄, rfl, hb₄⟩ := exists_of_readFrom_inside h
    rw [readFrom_last hb₄] at h
    obtain ⟨htail, -, -, hlong, hlast⟩ := mem_secondRange.1 hb₂
    refine hfirst h ?_
    rw [encode_four (by omega) (by omega) htail hlong hlast (isTail_iff.1 hb₃) (isTail_iff.1 hb₄)]
    rfl

/-- Bytes without a fault are those of the characters read. -/
theorem eq_of_readFrom {bs : Bytes} {cs : List Char} (h : readFrom .between bs = cs.map some) :
    bs = cs.flatMap String.utf8EncodeChar := by
  induction cs generalizing bs with
  | nil =>
    cases bs with
    | nil => rfl
    | cons b rest =>
      obtain ⟨c, cs', -, hcs, -⟩ := exists_of_readFrom h
      cases hcs
  | cons c cs ih =>
    cases bs with
    | nil => cases h
    | cons b rest =>
      obtain ⟨c', cs', rest', hcs, hbytes, hrest⟩ := exists_of_readFrom h
      obtain ⟨rfl, rfl⟩ := List.cons.inj hcs
      rw [hbytes, ih hrest, List.flatMap_cons]

/-- All of a list of readings succeed exactly if it is the list of what was read. -/
theorem mapM_id_eq_some {α : Type} {l : List (Option α)} {as : List α} :
    l.mapM id = some as ↔ l = as.map some := by
  constructor
  · intro h
    induction l generalizing as with
    | nil =>
      obtain rfl := Option.some.inj h
      rfl
    | cons a l ih =>
      rw [List.mapM_cons, Option.bind_eq_bind, Option.bind_eq_some_iff] at h
      obtain ⟨b, rfl, h⟩ := h
      obtain ⟨bs, hbs, h⟩ := Option.bind_eq_some_iff.1 h
      obtain rfl := Option.some.inj h
      rw [ih hbs]
      rfl
  · rintro rfl
    induction as with
    | nil => rfl
    | cons a as ih =>
      rw [List.map_cons, List.mapM_cons, ih]
      rfl

/-- Bytes are decoded to the text that they are the encoding of, and to nothing else. -/
theorem decode?_eq_some_iff {bs : Bytes} {s : String} :
    decode? bs = some s ↔ bs = Bytes.ofString s := by
  unfold decode? read Bytes.ofString
  rw [Option.map_eq_some_iff]
  constructor
  · rintro ⟨cs, hcs, rfl⟩
    rw [mapM_id_eq_some] at hcs
    rw [String.toList_ofList]
    exact eq_of_readFrom hcs
  · rintro rfl
    exact ⟨s.toList, mapM_id_eq_some.2 (readFrom_text s.toList), String.ofList_toList⟩

/-- Lossy decoding loses nothing of a text. -/
theorem lossy_ofString (s : String) : lossy (Bytes.ofString s) = s := by
  rw [lossy, read, Bytes.ofString, readFrom_text, List.map_map]
  simp [Function.comp_def]

end ImageLayer.Utf8
