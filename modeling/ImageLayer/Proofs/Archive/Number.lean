import Mathlib
import ImageLayer.Proofs.Archive.Reader
/-!
Numbers in the fields of a header.

There are two ways to write a number into a field: octal digits with a zero byte behind them, and, for a number
with more digits than the field has room for, base 256 behind a byte with the highest bit set. For each of the
fields of a header this module says what the reader makes of the number that was written.

Sections:

* Digits in base 256, in either order of bytes. What is read back is the number modulo a power of 256
  (`littleEndian_ofLittleEndian`, `bigEndian_ofBigEndian`). `ofBigEndian_succ` takes off the highest digit,
  which is where the mark of a field in base 256 goes.
* Octal digits. The writer takes the digits of a number from the library (`Nat.toDigits`), from which
  `octalDigits_spec` gets their value by strong induction, one digit at a time.
* Fields. A field in base 256 keeps every number that leaves its first bit free (`number?_binaryField`). A field
  that knows octal digits only keeps the lowest of them, so that what is read back is the number modulo a power
  of eight (`number?_octalField`).

The last statement is the reason why an archive does not keep great device numbers: the writer falls back to
base 256 for owners, sizes and times, and not for those. Modes are written in octal digits too, but always fit.
-/

namespace ImageLayer

/-! ## Digits in base 256 -/

namespace Bytes

@[simp] theorem length_ofLittleEndian (width n : Nat) : (ofLittleEndian width n).length = width := by
  induction width generalizing n with
  | zero => rfl
  | succ width ih => rw [ofLittleEndian, List.length_cons, ih]

@[simp] theorem length_ofBigEndian (width n : Nat) : (ofBigEndian width n).length = width := by
  simp [ofBigEndian]

theorem littleEndian_ofLittleEndian (width n : Nat) :
    littleEndian (ofLittleEndian width n) = n % 256 ^ width := by
  induction width generalizing n with
  | zero => simp [ofLittleEndian, littleEndian, Nat.mod_one]
  | succ width ih =>
    have hrest : (ofLittleEndian width (n / 256)).foldr (fun b n => b.toNat + 256 * n) 0
        = n / 256 % 256 ^ width := ih (n / 256)
    rw [ofLittleEndian, littleEndian, List.foldr_cons, hrest, Nat.pow_succ, Nat.mul_comm _ 256,
      Nat.mod_mul]
    simp

theorem bigEndian_ofBigEndian (width n : Nat) : bigEndian (ofBigEndian width n) = n % 256 ^ width := by
  rw [← littleEndian_ofLittleEndian, bigEndian, ofBigEndian, List.foldl_reverse, littleEndian]
  congr 1
  funext b n
  omega

/-- The first of the digits is the highest. -/
theorem ofBigEndian_succ (width n : Nat) :
    ofBigEndian (width + 1) n = UInt8.ofNat (n / 256 ^ width % 256) :: ofBigEndian width n := by
  have hlast : ∀ width n, ofLittleEndian (width + 1) n
      = ofLittleEndian width n ++ [UInt8.ofNat (n / 256 ^ width % 256)] := by
    intro width
    induction width with
    | zero => simp [ofLittleEndian]
    | succ width ih =>
      intro n
      rw [ofLittleEndian, ih, ofLittleEndian, List.cons_append, Nat.div_div_eq_div_mul,
        Nat.pow_succ, Nat.mul_comm 256]
  rw [ofBigEndian, hlast]
  simp [ofBigEndian]

theorem bigEndian_replicate_append (k : Nat) (bs : Bytes) :
    bigEndian (List.replicate k 0 ++ bs) = bigEndian bs := by
  induction k with
  | zero => rfl
  | succ k ih => simpa [bigEndian, List.replicate_succ] using ih

end Bytes

namespace Archive

/-! ## Octal digits -/

/-- The octal digits of a number as bytes. -/
def octalDigits (n : Nat) : Bytes := (Nat.toDigits 8 n).map fun c => UInt8.ofNat c.toNat

theorem octalDigits_of_lt {n : Nat} (h : n < 8) : octalDigits n = [UInt8.ofNat (48 + n)] := by
  rw [octalDigits, Nat.toDigits_of_lt_base h, List.map_singleton,
    Nat.toNat_digitChar_of_lt_ten (by omega)]

theorem octalDigits_of_le {n : Nat} (h : 8 ≤ n) :
    octalDigits n = octalDigits (n / 8) ++ [UInt8.ofNat (48 + n % 8)] := by
  rw [octalDigits, Nat.toDigits_of_base_le (by decide) h, List.map_append, List.map_singleton,
    Nat.toNat_digitChar_of_lt_ten (by omega), ← octalDigits]

/-- Every digit is an octal one. -/
def IsOctal (digits : Bytes) : Prop := ∀ b ∈ digits, isOctalDigit b

theorem isOctalDigit_ofNat {d : Nat} (h : d < 8) : isOctalDigit (UInt8.ofNat (48 + d)) := by
  have : d = 0 ∨ d = 1 ∨ d = 2 ∨ d = 3 ∨ d = 4 ∨ d = 5 ∨ d = 6 ∨ d = 7 := by omega
  rcases this with rfl | rfl | rfl | rfl | rfl | rfl | rfl | rfl <;> decide

theorem toNat_lt_of_isOctalDigit {b : UInt8} (h : isOctalDigit b) :
    0x30 ≤ b.toNat ∧ b.toNat < 0x38 := by
  simp only [isOctalDigit, Bool.and_eq_true, decide_eq_true_eq, UInt8.le_iff_toNat_le,
    UInt8.lt_iff_toNat_lt] at h
  exact h

theorem octalValue_append (a b : Bytes) :
    octalValue (a ++ b) = octalValue a * 8 ^ b.length + octalValue b := by
  have hfold : ∀ (b : Bytes) (n : Nat),
      b.foldl (fun n b => n * 8 + (b.toNat - 0x30)) n = n * 8 ^ b.length + octalValue b := by
    intro b
    induction b with
    | nil => simp [octalValue]
    | cons d rest ih =>
      intro n
      have hcons : octalValue (d :: rest) = _ := ih (0 * 8 + (d.toNat - 0x30))
      rw [List.foldl_cons, ih, hcons, List.length_cons, Nat.pow_succ, Nat.mul_comm (8 ^ _) 8,
        ← Nat.mul_assoc, ← Nat.add_assoc, ← Nat.add_mul, Nat.zero_mul, Nat.zero_add]
  rw [octalValue, List.foldl_append, hfold, ← octalValue]

theorem octalValue_lt {digits : Bytes} (h : IsOctal digits) : octalValue digits < 8 ^ digits.length := by
  induction digits with
  | nil => simp [octalValue]
  | cons d rest ih =>
    have hd := toNat_lt_of_isOctalDigit (h d (List.mem_cons_self ..))
    have hrest := ih fun b hb => h b (List.mem_cons_of_mem d hb)
    have hsplit := octalValue_append [d] rest
    have hone : octalValue [d] = d.toNat - 0x30 := by simp [octalValue]
    rw [List.singleton_append, hone] at hsplit
    have hle : (d.toNat - 0x30) * 8 ^ rest.length ≤ 7 * 8 ^ rest.length :=
      Nat.mul_le_mul_right _ (by omega)
    rw [List.length_cons, Nat.pow_succ]
    omega

theorem octalDigits_spec (n : Nat) : IsOctal (octalDigits n) ∧ octalValue (octalDigits n) = n := by
  induction n using Nat.strongRecOn with
  | ind n ih =>
    have hdigit : ∀ d, d < 8 → octalValue [UInt8.ofNat (48 + d)] = d := by
      intro d hd
      simp only [octalValue, List.foldl_cons, List.foldl_nil, UInt8.toNat_ofNat']
      omega
    rcases Nat.lt_or_ge n 8 with hlt | hge
    · rw [octalDigits_of_lt hlt]
      exact ⟨fun b hb => List.mem_singleton.1 hb ▸ isOctalDigit_ofNat hlt, hdigit n hlt⟩
    · obtain ⟨hoctal, hvalue⟩ := ih (n / 8) (by omega)
      rw [octalDigits_of_le hge]
      constructor
      · intro b hb
        rcases List.mem_append.1 hb with hb | hb
        · exact hoctal b hb
        · exact List.mem_singleton.1 hb ▸ isOctalDigit_ofNat (Nat.mod_lt n (by decide))
      · rw [octalValue_append, hvalue, hdigit _ (Nat.mod_lt n (by decide))]
        simp only [List.length_singleton]
        omega

theorem octalValue_replicate_append (k : Nat) (digits : Bytes) :
    octalValue (List.replicate k 0x30 ++ digits) = octalValue digits := by
  have hzero : octalValue (List.replicate k 0x30) = 0 := by
    induction k with
    | zero => rfl
    | succ k ih => simpa [octalValue, List.replicate_succ] using ih
  rw [octalValue_append, hzero, Nat.zero_mul, Nat.zero_add]

/-- The last digits of a number are those of what it leaves modulo a power of eight. -/
theorem octalValue_drop (n width : Nat) :
    octalValue ((octalDigits n).drop ((octalDigits n).length - width)) = n % 8 ^ width := by
  obtain ⟨hoctal, hvalue⟩ := octalDigits_spec n
  have hlt : ∀ k, octalValue ((octalDigits n).drop k) < 8 ^ ((octalDigits n).drop k).length :=
    fun k => octalValue_lt fun b hb => hoctal b (List.mem_of_mem_drop hb)
  rcases Nat.le_total (octalDigits n).length width with hle | hge
  · have hall := octalValue_lt hoctal
    rw [hvalue] at hall
    have := Nat.pow_le_pow_right (n := 8) (by decide) hle
    rw [Nat.sub_eq_zero_of_le hle, List.drop_zero, hvalue, Nat.mod_eq_of_lt (by omega)]
  · -- The digits in front of the last weigh a multiple of the power.
    have hsplit := octalValue_append ((octalDigits n).take ((octalDigits n).length - width))
      ((octalDigits n).drop ((octalDigits n).length - width))
    have hlength : ((octalDigits n).drop ((octalDigits n).length - width)).length = width := by
      rw [List.length_drop]
      omega
    rw [List.take_append_drop, hvalue, hlength] at hsplit
    have hrest := hlt ((octalDigits n).length - width)
    rw [hlength] at hrest
    calc octalValue ((octalDigits n).drop ((octalDigits n).length - width))
        = (octalValue ((octalDigits n).take ((octalDigits n).length - width)) * 8 ^ width
            + octalValue ((octalDigits n).drop ((octalDigits n).length - width))) % 8 ^ width :=
          (Nat.mul_add_mod_of_lt hrest).symm
      _ = n % 8 ^ width := by rw [← hsplit]

/-! ## Fields -/

theorem number?_of_isOctal {digits : Bytes} (h : IsOctal digits) :
    number? (digits ++ [0]) = some (octalValue digits) := by
  have hword : (digits ++ [0]).takeWhile (fun b => b ≠ 0 && b ≠ 0x20) = digits := by
    rw [List.takeWhile_append_of_pos fun b hb => ?_]
    · simp
    · have := toNat_lt_of_isOctalDigit (h b hb)
      simp only [ne_eq, ← UInt8.toNat_inj, UInt8.toNat_ofNat, Bool.and_eq_true, decide_eq_true_eq]
      omega
  have hall : digits.all isOctalDigit := List.all_eq_true.2 h
  cases digits with
  | nil => rfl
  | cons d rest =>
    have hd := toNat_lt_of_isOctalDigit (h d (List.mem_cons_self ..))
    have hfirst : d ≠ 0x80 := by
      rintro rfl
      simp at hd
    rw [List.cons_append] at hword ⊢
    simp only [number?, hfirst, if_false, hword, hall, if_true]

/-- A field of octal digits keeps a number modulo a power of eight. -/
theorem number?_octalField (width n : Nat) : number? (octalField width n) = some (n % 8 ^ width) := by
  rw [octalField, number?_of_isOctal, octalValue_replicate_append]
  · exact congrArg some (octalValue_drop n width)
  · intro b hb
    rcases List.mem_append.1 hb with hb | hb
    · rw [List.eq_of_mem_replicate hb]
      decide
    · exact (octalDigits_spec n).1 b (List.mem_of_mem_drop hb)

@[simp] theorem length_octalField (width n : Nat) : (octalField width n).length = width + 1 := by
  simp only [octalField, List.length_append, List.length_replicate, List.length_drop,
    List.length_singleton]
  omega

/-- A field of digits in base 256 keeps a number that leaves the first bit of the field free. -/
theorem number?_binaryField {width n : Nat} (hwidth : 8 ≤ width) (hn : n < 256 ^ min (width - 1) 8) :
    number? (binaryField width n) = some n := by
  unfold binaryField
  rcases Nat.lt_or_ge 8 width with hlt | hge
  · have hsplit : List.replicate (width - 8) (0 : UInt8)
        = 0 :: List.replicate (width - 9) 0 := by
      rw [← List.replicate_succ]
      congr 1
      omega
    have hlow : n < 256 ^ 8 := by rwa [Nat.min_eq_right (by omega)] at hn
    rw [hsplit, List.cons_append]
    simp only [number?]
    rw [Bytes.bigEndian_replicate_append, Bytes.bigEndian_ofBigEndian, Nat.mod_eq_of_lt hlow]
    rfl
  · obtain rfl : width = 8 := by omega
    have hlow : n < 256 ^ 7 := hn
    rw [Bytes.ofBigEndian_succ, Nat.div_eq_of_lt hlow]
    simp only [Nat.sub_self, List.replicate_zero, List.nil_append, number?]
    rw [Bytes.bigEndian_ofBigEndian, Nat.mod_eq_of_lt hlow]
    rfl

theorem number?_shortNumber {n : Nat} (h : n < 256 ^ 7) : number? (shortNumber n) = some n := by
  unfold shortNumber
  split
  · rw [number?_octalField, Nat.mod_eq_of_lt (by omega)]
  · exact number?_binaryField (by decide) h

theorem number?_longNumber {n : Nat} (h : n < 256 ^ 8) : number? (longNumber n) = some n := by
  unfold longNumber
  split
  · rw [number?_octalField, Nat.mod_eq_of_lt (by omega)]
  · exact number?_binaryField (by decide) h

theorem length_binaryField {width : Nat} (hwidth : 8 ≤ width) (n : Nat) :
    (binaryField width n).length = width := by
  have hlength : (List.replicate (width - 8) (0 : UInt8) ++ Bytes.ofBigEndian 8 n).length = width := by
    rw [List.length_append, List.length_replicate, Bytes.length_ofBigEndian]
    omega
  unfold binaryField
  cases hbytes : List.replicate (width - 8) (0 : UInt8) ++ Bytes.ofBigEndian 8 n with
  | nil => rwa [hbytes] at hlength
  | cons b rest => rwa [hbytes] at hlength

@[simp] theorem length_shortNumber (n : Nat) : (shortNumber n).length = 8 := by
  unfold shortNumber
  split
  · exact length_octalField 7 n
  · exact length_binaryField (by decide) n

@[simp] theorem length_longNumber (n : Nat) : (longNumber n).length = 12 := by
  unfold longNumber
  split
  · exact length_octalField 11 n
  · exact length_binaryField (by decide) n

end Archive

end ImageLayer
