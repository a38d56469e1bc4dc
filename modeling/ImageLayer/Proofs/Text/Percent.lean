import Mathlib.Data.List.Basic
import Mathlib.Logic.Function.Basic
import ImageLayer.Text.Percent
/-!
Reading percent-encoded text.

The locator of a package separates its parts by characters that a part may have as well, and percent encoding is
what keeps them apart. Two facts are needed of it, and this module proves them:

* Nothing is lost: the bytes of a text can be read back from its encoding (`decode?_encode`), so that different
  texts have different encodings (`encode_injective`).
* Nothing is confused: no other characters are written than the unreserved ones and the percent sign
  (`not_mem_encode`), so that what separates the parts of a locator never comes from within a part.

Both go byte by byte. A byte that is written as it is has a character of its own, which is not a percent sign
(`isUnreserved_char`), and a byte that is not has two hexadecimal digits behind the sign; `decode?_encodeByte`
reads either back, whatever follows. Statements about single digits and bytes are finite and are decided.

The reader here is stricter than readers of locators have to be: it takes a percent sign only with two digits
behind it. That makes the statement stronger, since it says what is written and not what is put up with.
-/

namespace ImageLayer

/-- A text is known by its UTF-8 bytes. -/
theorem Bytes.ofString_injective : Function.Injective Bytes.ofString := by
  intro s t h
  rw [← String.toByteArray_inj, ← String.utf8Encode_toList, ← String.utf8Encode_toList]
  exact congrArg List.toByteArray h

namespace Percent

/-- The bytes of an encoded text, where a percent sign has two hexadecimal digits behind it. -/
def decode? : List Char → Option Bytes
  | [] => some []
  | '%' :: high :: low :: rest => do
    let high ← Bytes.hexValue? high
    let low ← Bytes.hexValue? low
    (decode? rest).map (UInt8.ofNat (16 * high + low) :: ·)
  | c :: rest => if c = '%' then none else (decode? rest).map (UInt8.ofNat c.toNat :: ·)

/-- The characters that encoded texts are written with. -/
def isWritten (c : Char) : Bool := c.isAlphanum || c ∈ ['-', '_', '.', '~', '%']

/-! ## One byte -/

theorem hexValue?_digit : ∀ n < 16, Bytes.hexValue? (digit n) = some n := by decide

theorem isWritten_digit : ∀ n < 16, isWritten (digit n) := by decide

/-- A byte that is written as it is has a character of its own, which is not a percent sign. -/
theorem isUnreserved_char : ∀ n < 256, isUnreserved (UInt8.ofNat n) →
    (Char.ofNat n).toNat = n ∧ Char.ofNat n ≠ '%' ∧ isWritten (Char.ofNat n) := by
  decide +kernel

theorem decode?_cons {c : Char} (hc : c ≠ '%') (rest : List Char) :
    decode? (c :: rest) = (decode? rest).map (UInt8.ofNat c.toNat :: ·) := by
  rw [decode?, if_neg hc]
  exact fun _ _ _ h => absurd h hc

theorem decode?_encodeByte (b : UInt8) (rest : List Char) :
    decode? (encodeByte b ++ rest) = (decode? rest).map (b :: ·) := by
  unfold encodeByte
  split
  · rename_i hb
    obtain ⟨hchar, hpercent, -⟩ := isUnreserved_char b.toNat b.toNat_lt (by simpa using hb)
    rw [List.singleton_append, decode?_cons hpercent, hchar, UInt8.ofNat_toNat]
  · have hhigh := hexValue?_digit (b.toNat / 16) (by have := b.toNat_lt; omega)
    have hlow := hexValue?_digit (b.toNat % 16) (Nat.mod_lt _ (by decide))
    simp only [List.cons_append, List.nil_append, decode?, hhigh, hlow, Option.bind_eq_bind,
      Option.bind_some, Nat.div_add_mod, UInt8.ofNat_toNat]

theorem isWritten_of_mem_encodeByte {b : UInt8} {c : Char} (h : c ∈ encodeByte b) : isWritten c := by
  unfold encodeByte at h
  split at h
  · rename_i hb
    rw [List.mem_singleton] at h
    exact h ▸ (isUnreserved_char b.toNat b.toNat_lt (by simpa using hb)).2.2
  · simp only [List.mem_cons, List.not_mem_nil, or_false] at h
    rcases h with rfl | rfl | rfl
    · decide
    · exact isWritten_digit _ (by have := b.toNat_lt; omega)
    · exact isWritten_digit _ (Nat.mod_lt _ (by decide))

/-! ## Whole texts -/

theorem toList_encode (s : String) : (encode s).toList = (Bytes.ofString s).flatMap encodeByte :=
  String.toList_ofList

theorem decode?_encode (s : String) : decode? (encode s).toList = some (Bytes.ofString s) := by
  rw [toList_encode]
  induction Bytes.ofString s with
  | nil => rfl
  | cons b bs ih =>
    rw [List.flatMap_cons, decode?_encodeByte, ih]
    rfl

theorem encode_injective : Function.Injective encode := by
  intro s t h
  have hbytes := decode?_encode s
  rw [h, decode?_encode t] at hbytes
  exact (Bytes.ofString_injective (Option.some.inj hbytes)).symm

theorem not_mem_encode {c : Char} (hc : isWritten c = false) (s : String) : c ∉ (encode s).toList := by
  intro h
  rw [toList_encode] at h
  obtain ⟨b, -, hb⟩ := List.mem_flatMap.1 h
  rw [isWritten_of_mem_encodeByte hb] at hc
  cases hc

end Percent

end ImageLayer
