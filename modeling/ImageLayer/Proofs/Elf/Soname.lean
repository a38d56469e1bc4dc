import Mathlib.Data.Nat.Digits.Defs
import ImageLayer.Elf.Soname
import ImageLayer.Proofs.Text.Utf8
/-!
When a shared object has a soname.

`DeclaresSoname` says of a file that it declares a soname, in terms of the format alone: which numbers lie where
in the file, which section and which entry count, and where the text ends. It has no notion of reading, of an
order in which things are looked at, or of a reading that fails. `soname?_iff`, the main statement, says three
things of every file that fits into memory:

* reading it finds a soname exactly if the file declares that soname;
* reading it never adds addresses beyond the greatest and never cuts a piece that is not there, so that it
  always comes to an answer;
* the search through the dynamic entries looks at no more of them than fit into the file, and one more, whatever
  the headers claim.

## How the proof goes

The reader is a computation in the monad `Reading`, which tells a number that is not there from a fault. For
each of its parts there is one lemma `…_eq_found` that says when it finds what, by the relation for that part:
`number_eq_found` by `Layout.Holds`, `layout_eq_found` by `Layout.Begins`, `sectionAt_eq_found` by
`Layout.Describes`, `sections_eq_found` by `Layout.HasSections`, `entryAt_eq_found` by `Layout.HoldsEntry`,
`terminated_eq_found` by `HoldsText`. The whole is then put together in `readSoname_eq_found` by taking the
binds apart, with no reader unfolded a second time. A second family of lemmas `…_ne_fault` follows the same
parts.

The search is the one loop, by recursion on what is left of the section. `search_induction` packages it: a case
for each way to stop and one for going on, in which the address of the next entry is known to be within bounds.
Three facts go by it: that there is no fault (`search_ne_fault`), how many entries are looked at
(`search_steps`), and what is found (`search_eq_found`). For the last, `Layout.HoldsSoname` speaks of the first
entry that decides, wherever it is, and `Layout.holdsSoname_iff` says what the entry in front means for it.

## What the bound on the length is for

Addresses are numbers below `2 ^ 64`, and sums and products of them are checked. A number in the file has its
end within the file, so that no sum on the way to it is too great if the file itself is not. That is the only
use of the hypothesis; where a header asks for a greater address the reader finds nothing, and the relation does
not hold either.
-/

namespace ImageLayer.Elf

/-! ## What a file declares -/

/-- The number that a field stands for, in base 256. -/
def Layout.value (l : Layout) (field : Bytes) : Nat :=
  Nat.ofDigits 256 ((if l.littleEndian then field else field.reverse).map UInt8.toNat)

/-- The `width` bytes at an offset lie in the file and stand for `n`. -/
def Layout.Holds (l : Layout) (file : Bytes) (width offset n : Nat) : Prop :=
  ∃ before field after, file = before ++ field ++ after ∧ before.length = offset ∧
    field.length = width ∧ l.value field = n

/-- The file is long enough and begins as a file of this layout does. -/
structure Layout.Begins (l : Layout) (file : Bytes) : Prop where
  /-- There are sixteen bytes at least. -/
  length : 16 ≤ file.length
  /-- The first four are the same in all files; the next two are for the layout. -/
  bytes : ∃ rest, file
    = 0x7f :: 0x45 :: 0x4c :: 0x46 :: (if l.wide then 2 else 1) :: (if l.littleEndian then 1 else 2) :: rest

/-- The section `s` has its header at an offset. -/
structure Layout.Describes (l : Layout) (file : Bytes) (base : Nat) (s : Section) : Prop where
  /-- The type. -/
  type : l.Holds file 4 (base + 4) s.type
  /-- Where the section starts. -/
  offset : l.Holds file l.addressWidth (base + if l.wide then 24 else 16) s.offset
  /-- How long it is. -/
  size : l.Holds file l.addressWidth (base + if l.wide then 32 else 20) s.size
  /-- The section that it refers to. -/
  link : l.Holds file 4 (base + if l.wide then 40 else 24) s.link

/-- The file has these sections, whose headers lie one behind the other. -/
def Layout.HasSections (l : Layout) (file : Bytes) (sections : List Section) : Prop :=
  ∃ table width, l.Holds file l.addressWidth (if l.wide then 0x28 else 0x20) table ∧
    l.Holds file 2 (if l.wide then 0x3A else 0x2E) width ∧
    l.Holds file 2 (if l.wide then 0x3C else 0x30) sections.length ∧
    ∀ i s, sections[i]? = some s → l.Describes file (table + i * width) s

/-- At an offset there is a dynamic entry with this tag and this value. -/
structure Layout.HoldsEntry (l : Layout) (file : Bytes) (offset tag value : Nat) : Prop where
  /-- The tag. -/
  tag : l.Holds file l.addressWidth offset tag
  /-- The value behind it. -/
  value : l.Holds file l.addressWidth (offset + l.addressWidth) value

/-- Between two offsets there is an entry for a soname with this value, before any that ends the entries and
any other for a soname. -/
def Layout.HoldsSoname (l : Layout) (file : Bytes) (first last value : Nat) : Prop :=
  ∃ k, first + (k + 1) * l.entryWidth ≤ last ∧
    l.HoldsEntry file (first + k * l.entryWidth) sonameTag value ∧
    ∀ j < k, ∃ tag v, l.HoldsEntry file (first + j * l.entryWidth) tag v ∧ tag ≠ endTag ∧ tag ≠ sonameTag

/-- The bytes from an offset up to the first zero byte are those of a text. -/
def HoldsText (file : Bytes) (offset : Nat) (s : String) : Prop :=
  ∃ before after, file = before ++ Bytes.ofString s ++ 0 :: after ∧ before.length = offset ∧
    0 ∉ Bytes.ofString s

/-- The file declares that its soname is `s`. -/
def DeclaresSoname (file : Bytes) (s : String) : Prop :=
  ∃ (l : Layout) (sections : List Section) (d : Nat) (dynamic strings : Section) (value : Nat),
    l.Begins file ∧ l.HasSections file sections ∧
    (sections[d]? = some dynamic ∧ dynamic.type = dynamicType ∧
      ∀ i < d, ∀ s, sections[i]? = some s → s.type ≠ dynamicType) ∧
    sections[dynamic.link]? = some strings ∧ dynamic.offset + dynamic.size < 2 ^ 64 ∧
    l.HoldsSoname file dynamic.offset (dynamic.offset + dynamic.size) value ∧
    HoldsText file (strings.offset + value) s

/-! ## Readings -/

namespace Reading

variable {α β : Type}

theorem bind_eq_found {x : Reading α} {f : α → Reading β} {b : β} :
    (x >>= f) = .found b ↔ ∃ a, x = .found a ∧ f a = .found b := by
  cases x <;> simp [Bind.bind, Reading.bind]

theorem pure_eq_found {a b : α} : (pure a : Reading α) = .found b ↔ a = b := by
  simp [pure]

theorem ofOption_eq_found {x : Option α} {a : α} : ofOption x = .found a ↔ x = some a := by
  cases x <;> simp [ofOption]

theorem toOption_eq_some {x : Reading α} {a : α} : x.toOption = some a ↔ x = .found a := by
  cases x <;> simp [toOption]

instance : LawfulMonad Reading :=
  LawfulMonad.mk' Reading (fun x => by cases x <;> rfl) (fun _ _ => rfl)
    (fun x _ _ => by cases x <;> rfl)

theorem mapM_eq_found {f : α → Reading β} {as : List α} {bs : List β} :
    as.mapM f = .found bs ↔ as.length = bs.length ∧
      ∀ (i : Nat) (a : α) (b : β), as[i]? = some a → bs[i]? = some b → f a = .found b := by
  induction as generalizing bs with
  | nil => cases bs <;> simp [pure]
  | cons a as ih =>
    simp only [List.mapM_cons, bind_eq_found, pure_eq_found]
    constructor
    · rintro ⟨b, hb, bs, hbs, rfl⟩
      obtain ⟨hlength, hall⟩ := ih.1 hbs
      refine ⟨by simp [hlength], fun i a' b' ha' hb' => ?_⟩
      cases i with
      | zero =>
        obtain rfl := Option.some.inj ha'
        obtain rfl := Option.some.inj hb'
        exact hb
      | succ i => exact hall i a' b' ha' hb'
    · rintro ⟨hlength, hall⟩
      cases bs with
      | nil => cases hlength
      | cons b bs =>
        exact ⟨b, hall 0 a b rfl rfl, bs, ih.2 ⟨Nat.succ.inj hlength, fun i => hall (i + 1)⟩, rfl⟩

end Reading

/-! ## Numbers -/

section

variable {l : Layout} {file : Bytes}

theorem checkedSum_eq_found {a b c : Nat} :
    checkedSum a b = .found c ↔ a + b ≤ maxAddress ∧ a + b = c := by
  unfold checkedSum
  split <;> simp [*]

theorem checkedProduct_eq_found {a b c : Nat} :
    checkedProduct a b = .found c ↔ a * b ≤ maxAddress ∧ a * b = c := by
  unfold checkedProduct
  split <;> simp [*]

theorem checkedSlice_eq_found {bytes piece : Bytes} {start stop : Nat} :
    checkedSlice bytes start stop = .found piece ↔
      ∃ before after, bytes = before ++ piece ++ after ∧ before.length = start ∧
        before.length + piece.length = stop := by
  unfold checkedSlice
  split
  · rename_i hbounds
    rw [Reading.found.injEq]
    constructor
    · rintro rfl
      refine ⟨bytes.take start, (bytes.drop start).drop (stop - start), ?_, ?_, ?_⟩
      · rw [List.append_assoc, List.take_append_drop, List.take_append_drop]
      · rw [List.length_take]
        omega
      · rw [List.length_take, List.length_take, List.length_drop]
        omega
    · rintro ⟨before, after, rfl, rfl, rfl⟩
      rw [List.append_assoc, List.drop_left, Nat.add_sub_cancel_left, List.take_left]
  · rename_i hbounds
    refine iff_of_false (by simp) ?_
    rintro ⟨before, after, rfl, rfl, rfl⟩
    simp at hbounds

theorem littleEndian_eq_ofDigits (bs : Bytes) :
    Bytes.littleEndian bs = Nat.ofDigits 256 (bs.map UInt8.toNat) := by
  induction bs with
  | nil => rfl
  | cons b bs ih =>
    rw [List.map_cons, Nat.ofDigits_cons, ← ih]
    rfl

theorem bigEndian_eq_ofDigits (bs : Bytes) :
    Bytes.bigEndian bs = Nat.ofDigits 256 (bs.reverse.map UInt8.toNat) := by
  rw [← littleEndian_eq_ofDigits, Bytes.littleEndian, List.foldr_reverse, Bytes.bigEndian]
  congr
  funext n b
  omega

theorem value_eq (field : Bytes) :
    (if l.littleEndian then Bytes.littleEndian field else Bytes.bigEndian field) = l.value field := by
  unfold Layout.value
  split
  · exact littleEndian_eq_ofDigits field
  · exact bigEndian_eq_ofDigits field

/-- The number at an offset of a file that fits into memory is read exactly if it lies in the file. -/
theorem number_eq_found (hfile : file.length ≤ maxAddress) {width offset n : Nat} :
    l.number file width offset = .found n ↔ l.Holds file width offset n := by
  unfold Layout.number Layout.Holds
  simp only [Reading.bind_eq_found, Reading.pure_eq_found, checkedSum_eq_found, checkedSlice_eq_found,
    value_eq]
  constructor
  · rintro ⟨_, ⟨-, rfl⟩, field, ⟨before, after, hbytes, hbefore, hlength⟩, hvalue⟩
    exact ⟨before, field, after, hbytes, hbefore, by omega, hvalue⟩
  · rintro ⟨before, field, after, hbytes, rfl, rfl, hvalue⟩
    refine ⟨_, ⟨?_, rfl⟩, field, ⟨before, after, hbytes, rfl, rfl⟩, hvalue⟩
    have hlength := congrArg List.length hbytes
    simp only [List.length_append] at hlength
    omega

theorem Layout.Holds.le_length {width offset n : Nat} (h : l.Holds file width offset n) :
    offset + width ≤ file.length := by
  obtain ⟨before, field, after, rfl, rfl, rfl, -⟩ := h
  simp

/-! ## Headers -/

/-- Reading the layout of a file that is long enough looks at six bytes. -/
theorem layout_cons {a b c d width order : UInt8} {rest : Bytes} (hrest : 10 ≤ rest.length) :
    layout (a :: b :: c :: d :: width :: order :: rest) =
      if [a, b, c, d] = magic ∧ (width = 1 ∨ width = 2) ∧ (order = 1 ∨ order = 2) then
        .found ⟨width = 2, order = 1⟩
      else .missing := by
  have hlength : ¬ (a :: b :: c :: d :: width :: order :: rest).length < 16 := by
    simp only [List.length_cons]
    omega
  have hslice : slice (a :: b :: c :: d :: width :: order :: rest) 0 4 = .found [a, b, c, d] := by
    simp [slice]
  rw [layout, if_neg hlength, hslice]
  by_cases hmagic : [a, b, c, d] = magic
  · simp [Bind.bind, Reading.bind, hmagic, byteAt, pure]
  · simp [Bind.bind, Reading.bind, hmagic]

theorem exists_cons_of_length (h : 16 ≤ file.length) :
    ∃ a b c d width order rest, file = a :: b :: c :: d :: width :: order :: rest ∧
      10 ≤ rest.length := by
  match file, h with
  | a :: b :: c :: d :: width :: order :: rest, h =>
    refine ⟨a, b, c, d, width, order, rest, rfl, ?_⟩
    simp only [List.length_cons] at h
    omega

theorem layout_eq_found : layout file = .found l ↔ l.Begins file := by
  by_cases hlength : file.length < 16
  · rw [layout, if_pos hlength]
    exact iff_of_false (by simp) fun h => absurd h.length (Nat.not_le_of_lt hlength)
  · obtain ⟨a, b, c, d, width, order, rest, rfl, hrest⟩ := exists_cons_of_length (Nat.le_of_not_lt hlength)
    rw [layout_cons hrest]
    obtain ⟨wide, littleEndian⟩ := l
    constructor
    · intro h
      split at h
      · rename_i hbytes
        obtain ⟨hmagic, hwidth, horder⟩ := hbytes
        obtain ⟨rfl, rfl⟩ := Layout.mk.inj (Reading.found.inj h)
        refine ⟨Nat.le_of_not_lt hlength, rest, ?_⟩
        simp only [magic, List.cons.injEq, and_true] at hmagic
        obtain ⟨rfl, rfl, rfl, rfl⟩ := hmagic
        rcases hwidth with rfl | rfl <;> rcases horder with rfl | rfl <;> simp
      · cases h
    · rintro ⟨-, rest', hfile⟩
      simp only [List.cons.injEq] at hfile
      obtain ⟨rfl, rfl, rfl, rfl, rfl, rfl, -⟩ := hfile
      cases wide <;> cases littleEndian <;> simp [magic]

theorem sectionAt_eq_found (hfile : file.length ≤ maxAddress) {base : Nat} {s : Section} :
    l.sectionAt file base = .found s ↔ l.Describes file base s := by
  unfold Layout.sectionAt
  simp only [Reading.bind_eq_found, Reading.pure_eq_found, checkedSum_eq_found, Layout.address,
    number_eq_found hfile]
  constructor
  · rintro ⟨_, ⟨-, rfl⟩, _, ⟨-, rfl⟩, _, ⟨-, rfl⟩, _, ⟨-, rfl⟩, type, htype, offset, hoffset, size,
      hsize, link, hlink, rfl⟩
    exact ⟨htype, hoffset, hsize, hlink⟩
  · intro h
    have htype := h.type.le_length
    have hoffset := h.offset.le_length
    have hsize := h.size.le_length
    have hlink := h.link.le_length
    exact ⟨_, ⟨by omega, rfl⟩, _, ⟨by omega, rfl⟩, _, ⟨by omega, rfl⟩, _, ⟨by omega, rfl⟩, _, h.type, _,
      h.offset, _, h.size, _, h.link, rfl⟩

theorem sections_eq_found (hfile : file.length ≤ maxAddress) {sections : List Section} :
    l.sections file = .found sections ↔ l.HasSections file sections := by
  unfold Layout.sections Layout.HasSections
  simp only [Reading.bind_eq_found, checkedSum_eq_found, checkedProduct_eq_found, Layout.address,
    number_eq_found hfile, Reading.mapM_eq_found, sectionAt_eq_found hfile, List.length_range]
  constructor
  · rintro ⟨table, htable, width, hwidth, count, hcount, rfl, hall⟩
    refine ⟨table, width, htable, hwidth, hcount, fun i s hs => ?_⟩
    have hi : i < sections.length := (List.getElem?_eq_some_iff.1 hs).1
    obtain ⟨_, ⟨-, rfl⟩, _, ⟨-, rfl⟩, hsection⟩ := hall i i s (List.getElem?_range hi) hs
    exact hsection
  · rintro ⟨table, width, htable, hwidth, hcount, hall⟩
    refine ⟨table, htable, width, hwidth, _, hcount, rfl, fun i j s hj hs => ?_⟩
    have hi : i < sections.length := (List.getElem?_eq_some_iff.1 hs).1
    rw [List.getElem?_range hi] at hj
    obtain rfl := Option.some.inj hj
    have hsection := hall i s hs
    have hle := hsection.type.le_length
    exact ⟨_, ⟨by omega, rfl⟩, _, ⟨by omega, rfl⟩, hsection⟩

/-! ## Dynamic entries -/

theorem entryWidth_eq (l : Layout) : l.entryWidth = 2 * l.addressWidth := by
  unfold Layout.entryWidth Layout.addressWidth
  split <;> rfl

theorem four_le_addressWidth (l : Layout) : 4 ≤ l.addressWidth := by
  unfold Layout.addressWidth
  split <;> decide

theorem entryAt_eq_found (hfile : file.length ≤ maxAddress) {offset tag value : Nat} :
    l.entryAt file offset = .found (tag, value) ↔ l.HoldsEntry file offset tag value := by
  have hhalf : l.entryWidth / 2 = l.addressWidth := by
    rw [entryWidth_eq]
    omega
  unfold Layout.entryAt
  simp only [Reading.bind_eq_found, Reading.pure_eq_found, checkedSum_eq_found, Layout.address,
    number_eq_found hfile, hhalf, Prod.mk.injEq]
  constructor
  · rintro ⟨_, htag, _, ⟨-, rfl⟩, _, hvalue, rfl, rfl⟩
    exact ⟨htag, hvalue⟩
  · intro h
    have hle := h.value.le_length
    exact ⟨tag, h.tag, _, ⟨by omega, rfl⟩, value, h.value, rfl, rfl⟩

/-- There is one number at most in a place. -/
theorem Layout.Holds.unique {width offset n n' : Nat} (h : l.Holds file width offset n)
    (h' : l.Holds file width offset n') : n = n' := by
  obtain ⟨before, field, after, rfl, rfl, rfl, rfl⟩ := h
  obtain ⟨before', field', after', hbytes, hbefore, hfield, rfl⟩ := h'
  rw [List.append_assoc, List.append_assoc] at hbytes
  obtain ⟨-, hrest⟩ := List.append_inj hbytes hbefore.symm
  rw [(List.append_inj hrest hfield.symm).1]

/-- The first entry decides about the soname, unless it has another tag. -/
theorem Layout.holdsSoname_iff {first last value : Nat} :
    l.HoldsSoname file first last value ↔
      first + l.entryWidth ≤ last ∧ ∃ tag v, l.HoldsEntry file first tag v ∧
        (tag = sonameTag ∧ v = value ∨
          tag ≠ endTag ∧ tag ≠ sonameTag ∧ l.HoldsSoname file (first + l.entryWidth) last value) := by
  have hshift : ∀ j, first + l.entryWidth + j * l.entryWidth = first + (j + 1) * l.entryWidth := by
    intro j
    rw [Nat.add_mul, Nat.one_mul]
    omega
  constructor
  · rintro ⟨k, hlast, hentry, hbefore⟩
    cases k with
    | zero =>
      rw [Nat.zero_mul, Nat.add_zero] at hentry
      rw [Nat.zero_add, Nat.one_mul] at hlast
      exact ⟨hlast, _, _, hentry, Or.inl ⟨rfl, rfl⟩⟩
    | succ k =>
      obtain ⟨tag, v, hfirst, hend, hsoname⟩ := hbefore 0 (Nat.succ_pos k)
      rw [Nat.zero_mul, Nat.add_zero] at hfirst
      rw [← hshift] at hlast hentry
      refine ⟨?_, tag, v, hfirst, Or.inr ⟨hend, hsoname, k, hlast, hentry, fun j hj => ?_⟩⟩
      · exact (Nat.le_add_right _ _).trans hlast
      · rw [hshift]
        exact hbefore (j + 1) (Nat.succ_lt_succ hj)
  · rintro ⟨hlast, tag, v, hfirst, ⟨rfl, rfl⟩ | ⟨hend, hsoname, k, hk, hentry, hbefore⟩⟩
    · exact ⟨0, by omega, by simpa using hfirst, fun j hj => absurd hj (Nat.not_lt_zero j)⟩
    · rw [hshift] at hk hentry
      refine ⟨k + 1, hk, hentry, fun j hj => ?_⟩
      cases j with
      | zero => exact ⟨tag, v, by simpa using hfirst, hend, hsoname⟩
      | succ j =>
        rw [← hshift]
        exact hbefore j (Nat.lt_of_succ_lt_succ hj)

/-! ## No faults -/

theorem bind_ne_fault {α β : Type} {x : Reading α} {f : α → Reading β} (hx : x ≠ .fault)
    (hf : ∀ a, x = .found a → f a ≠ .fault) : (x >>= f) ≠ .fault := by
  cases x with
  | found a => exact hf a rfl
  | missing => simp [Bind.bind, Reading.bind]
  | fault => exact absurd rfl hx

theorem checkedSum_ne_fault (a b : Nat) : checkedSum a b ≠ .fault := by
  unfold checkedSum
  split <;> simp

theorem checkedProduct_ne_fault (a b : Nat) : checkedProduct a b ≠ .fault := by
  unfold checkedProduct
  split <;> simp

theorem checkedSlice_ne_fault (bytes : Bytes) (start stop : Nat) : checkedSlice bytes start stop ≠ .fault := by
  unfold checkedSlice
  split <;> simp

theorem ofOption_ne_fault {α : Type} (x : Option α) : Reading.ofOption x ≠ .fault := by
  cases x <;> simp [Reading.ofOption]

theorem mapM_ne_fault {α β : Type} {f : α → Reading β} {as : List α} (h : ∀ a ∈ as, f a ≠ .fault) :
    as.mapM f ≠ .fault := by
  induction as with
  | nil => simp [pure]
  | cons a as ih =>
    rw [List.mapM_cons]
    refine bind_ne_fault (h a List.mem_cons_self) fun b _ => ?_
    exact bind_ne_fault (ih fun a' ha' => h a' (List.mem_cons_of_mem _ ha')) fun bs _ => by simp [pure]

theorem number_ne_fault (l : Layout) (file : Bytes) (width offset : Nat) :
    l.number file width offset ≠ .fault := by
  refine bind_ne_fault (checkedSum_ne_fault _ _) fun stop _ => ?_
  exact bind_ne_fault (checkedSlice_ne_fault _ _ _) fun field _ => by simp [pure]

theorem address_ne_fault (l : Layout) (file : Bytes) (offset : Nat) : l.address file offset ≠ .fault :=
  number_ne_fault l file l.addressWidth offset

theorem entryAt_ne_fault (l : Layout) (file : Bytes) (offset : Nat) : l.entryAt file offset ≠ .fault := by
  refine bind_ne_fault (address_ne_fault l file _) fun tag _ => ?_
  refine bind_ne_fault (checkedSum_ne_fault _ _) fun valueAt _ => ?_
  exact bind_ne_fault (address_ne_fault l file _) fun value _ => by simp [pure]

/-! ## The search -/

/-- What a search comes to, entry by entry. An entry that is looked at ends at an address and in front of the
end of the search, so that the address of the next one need not be asked for. -/
theorem search_induction {l : Layout} {file : Bytes} {last : Nat} {motive : Nat → Search → Prop}
    (stop : ∀ offset, ¬ (offset + l.entryWidth ≤ maxAddress ∧ offset + l.entryWidth ≤ last) →
      motive offset ⟨0, .missing⟩)
    (outside : ∀ offset, l.entryAt file offset = .missing → motive offset ⟨1, .missing⟩)
    (ending : ∀ offset value, l.entryAt file offset = .found (endTag, value) →
      motive offset ⟨1, .missing⟩)
    (found : ∀ offset value, offset + l.entryWidth ≤ last →
      l.entryAt file offset = .found (sonameTag, value) → motive offset ⟨1, .found value⟩)
    (next : ∀ offset tag value s, offset + l.entryWidth ≤ last →
      l.entryAt file offset = .found (tag, value) → tag ≠ endTag → tag ≠ sonameTag →
      motive (offset + l.entryWidth) s → motive offset s.afterOne)
    (offset : Nat) : motive offset (l.search file last offset) := by
  fun_induction Layout.search l file last offset with
  | case1 offset hnext =>
    refine stop offset fun hguard => ?_
    simp [checkedSum, hguard.1] at hnext
  | case2 offset hnext => exact absurd hnext (checkedSum_ne_fault _ _)
  | case3 offset _ hnext hlast =>
    obtain ⟨-, rfl⟩ := checkedSum_eq_found.1 hnext
    exact stop offset fun hguard => absurd hguard.2 (Nat.not_le_of_lt hlast)
  | case4 offset _ hnext hlast hentry => exact outside offset hentry
  | case5 offset _ hnext hlast hentry => exact absurd hentry (entryAt_ne_fault l file offset)
  | case6 offset _ hnext hlast value hentry => exact ending offset value hentry
  | case7 offset _ hnext hlast value hentry =>
    obtain ⟨-, rfl⟩ := checkedSum_eq_found.1 hnext
    exact found offset value (Nat.le_of_not_lt hlast) hentry
  | case8 offset _ hnext hlast tag value hentry _ _ hsum =>
    simp only [sum, (checkedSum_eq_found.1 hnext).1, if_true] at hsum
    cases hsum
  | case9 offset _ hnext hlast tag value hentry _ _ hsum =>
    simp only [sum, (checkedSum_eq_found.1 hnext).1, if_true] at hsum
    cases hsum
  | case10 offset _ hnext hlast tag value hentry hend hsoname _ hsum ih =>
    obtain ⟨-, rfl⟩ := checkedSum_eq_found.1 hnext
    obtain rfl := eq_of_sum hsum
    exact next offset tag value _ (Nat.le_of_not_lt hlast) hentry hend hsoname ih

theorem search_ne_fault (l : Layout) (file : Bytes) (last offset : Nat) :
    (l.search file last offset).ending ≠ .fault :=
  search_induction (motive := fun _ s => s.ending ≠ .fault) (by simp) (by simp) (by simp) (by simp)
    (fun _ _ _ _ _ _ _ _ h => h) offset

/-- A number that was read lies in the file, however long that is. -/
theorem le_length_of_number {width offset n : Nat} (h : l.number file width offset = .found n) :
    offset + width ≤ file.length := by
  unfold Layout.number at h
  simp only [Reading.bind_eq_found, checkedSum_eq_found, checkedSlice_eq_found] at h
  obtain ⟨_, ⟨-, rfl⟩, field, ⟨before, after, rfl, rfl, hlength⟩, -⟩ := h
  rw [List.length_append, List.length_append]
  omega

theorem le_length_of_entryAt {offset : Nat} {entry : Nat × Nat}
    (h : l.entryAt file offset = .found entry) : offset + l.entryWidth ≤ file.length := by
  unfold Layout.entryAt at h
  simp only [Reading.bind_eq_found, checkedSum_eq_found] at h
  obtain ⟨tag, -, _, ⟨-, rfl⟩, value, hvalue, -⟩ := h
  have hle := le_length_of_number hvalue
  have hwidth := entryWidth_eq l
  omega

/-- The entries that are looked at lie in the file, but for the last. -/
theorem search_steps (l : Layout) (file : Bytes) (last offset : Nat) :
    (l.search file last offset).steps ≤ file.length / 8 + 1 := by
  have hwidth : 8 ≤ l.entryWidth := by
    have hfour := four_le_addressWidth l
    rw [entryWidth_eq]
    omega
  have hsteps : 8 * (l.search file last offset).steps ≤ (file.length - offset) + 8 := by
    refine search_induction (motive := fun offset s => 8 * s.steps ≤ (file.length - offset) + 8)
      (fun _ _ => by simp) (fun _ _ => by simp) (fun _ _ _ => by simp) (fun _ _ _ _ => by simp)
      (fun offset tag value s _ hentry _ _ ih => ?_) offset
    have hle := le_length_of_entryAt hentry
    simp only [Search.afterOne]
    omega
  omega

theorem search_eq_found (hfile : file.length ≤ maxAddress) {last offset value : Nat}
    (hlast : last ≤ maxAddress) :
    (l.search file last offset).ending = .found value ↔ l.HoldsSoname file offset last value := by
  refine search_induction
    (motive := fun offset s => s.ending = .found value ↔ l.HoldsSoname file offset last value)
    (fun offset hstop => ?_) (fun offset hentry => ?_) (fun offset v hentry => ?_)
    (fun offset v hle hentry => ?_) (fun offset tag v s hle hentry hend hsoname ih => ?_) offset
  · rw [Layout.holdsSoname_iff]
    refine iff_of_false (by simp) fun h => hstop ⟨h.1.trans hlast, h.1⟩
  · rw [Layout.holdsSoname_iff]
    refine iff_of_false (by simp) ?_
    rintro ⟨-, tag, v, hholds, -⟩
    rw [(entryAt_eq_found hfile).2 hholds] at hentry
    cases hentry
  · rw [Layout.holdsSoname_iff]
    refine iff_of_false (by simp) ?_
    rintro ⟨-, tag, v', hholds, ⟨rfl, -⟩ | ⟨hend, -⟩⟩
    · exact absurd (hholds.tag.unique ((entryAt_eq_found hfile).1 hentry).tag) (by decide)
    · exact hend (hholds.tag.unique ((entryAt_eq_found hfile).1 hentry).tag)
  · have hholds := (entryAt_eq_found hfile).1 hentry
    rw [Layout.holdsSoname_iff, Reading.found.injEq]
    constructor
    · rintro rfl
      exact ⟨hle, _, _, hholds, Or.inl ⟨rfl, rfl⟩⟩
    · rintro ⟨-, tag, v', hholds', ⟨-, rfl⟩ | ⟨-, hsoname, -⟩⟩
      · exact hholds.value.unique hholds'.value
      · exact absurd (hholds'.tag.unique hholds.tag) hsoname
  · have hholds := (entryAt_eq_found hfile).1 hentry
    rw [Layout.holdsSoname_iff, Search.afterOne, ih]
    constructor
    · intro h
      exact ⟨hle, tag, v, hholds, Or.inr ⟨hend, hsoname, h⟩⟩
    · rintro ⟨-, tag', v', hholds', ⟨rfl, -⟩ | ⟨-, -, h⟩⟩
      · exact absurd (hholds.tag.unique hholds'.tag) hsoname
      · exact h

/-! ## The text of the soname -/

theorem terminated_eq_found {offset : Nat} {s : String} :
    terminated file offset = .found s ↔ HoldsText file offset s := by
  unfold terminated HoldsText
  simp only [Reading.bind_eq_found, Reading.ofOption_eq_found, checkedSlice_eq_found,
    Utf8.decode?_eq_some_iff]
  constructor
  · rintro ⟨rest, ⟨before, after, hfile, hbefore, hlength⟩, stop, hstop, piece, hpiece, rfl⟩
    obtain ⟨hlt, hzero, hfirst⟩ := List.findIdx?_eq_some_iff_getElem.1 hstop
    have hafter : after = [] := by
      have htotal := congrArg List.length hfile
      simp only [List.length_append] at htotal
      exact List.eq_nil_of_length_eq_zero (by omega)
    rw [slice, if_pos ⟨Nat.zero_le _, Nat.le_of_lt hlt⟩, Reading.found.injEq] at hpiece
    simp only [List.drop_zero, Nat.sub_zero] at hpiece
    have hrest : rest = rest.take stop ++ 0 :: rest.drop (stop + 1) := by
      rw [← of_decide_eq_true hzero, List.getElem_cons_drop, List.take_append_drop]
    refine ⟨before, rest.drop (stop + 1), ?_, hbefore, ?_⟩
    · rw [← hpiece, List.append_assoc, ← hrest, hfile, hafter, List.append_nil]
    · rw [← hpiece]
      intro hmem
      obtain ⟨i, hi, hbyte⟩ := List.mem_take_iff_getElem.1 hmem
      exact hfirst i (by omega) (decide_eq_true hbyte)
  · rintro ⟨before, after, rfl, rfl, hzero⟩
    refine ⟨Bytes.ofString s ++ 0 :: after, ⟨before, [], by simp, rfl, by simp⟩,
      (Bytes.ofString s).length, ?_, Bytes.ofString s, by simp [slice], rfl⟩
    rw [List.findIdx?_append, List.findIdx?_eq_none_iff.2 fun b hb => ?_]
    · simp [List.findIdx?_cons]
    · exact decide_eq_false fun h => hzero (h ▸ hb)

/-! ## Reading a soname -/

theorem layout_ne_fault (file : Bytes) : layout file ≠ .fault := by
  by_cases hlength : file.length < 16
  · simp [layout, hlength]
  · obtain ⟨a, b, c, d, width, order, rest, rfl, hrest⟩ := exists_cons_of_length (Nat.le_of_not_lt hlength)
    rw [layout_cons hrest]
    split <;> simp

theorem sectionAt_ne_fault (l : Layout) (file : Bytes) (base : Nat) : l.sectionAt file base ≠ .fault := by
  refine bind_ne_fault (checkedSum_ne_fault _ _) fun offsetAt _ => ?_
  refine bind_ne_fault (checkedSum_ne_fault _ _) fun sizeAt _ => ?_
  refine bind_ne_fault (checkedSum_ne_fault _ _) fun linkAt _ => ?_
  refine bind_ne_fault (checkedSum_ne_fault _ _) fun typeAt _ => ?_
  refine bind_ne_fault (number_ne_fault l file _ _) fun type _ => ?_
  refine bind_ne_fault (address_ne_fault l file _) fun offset _ => ?_
  refine bind_ne_fault (address_ne_fault l file _) fun size _ => ?_
  exact bind_ne_fault (number_ne_fault l file _ _) fun link _ => by simp [pure]

theorem sections_ne_fault (l : Layout) (file : Bytes) : l.sections file ≠ .fault := by
  refine bind_ne_fault (address_ne_fault l file _) fun table _ => ?_
  refine bind_ne_fault (number_ne_fault l file _ _) fun width _ => ?_
  refine bind_ne_fault (number_ne_fault l file _ _) fun count _ => mapM_ne_fault fun i _ => ?_
  refine bind_ne_fault (checkedProduct_ne_fault _ _) fun shift _ => ?_
  exact bind_ne_fault (checkedSum_ne_fault _ _) fun base _ => sectionAt_ne_fault l file base

/-- What is cut out of a text ends where its zero byte is, so that it is there. -/
theorem terminated_ne_fault (file : Bytes) (offset : Nat) : terminated file offset ≠ .fault := by
  refine bind_ne_fault (checkedSlice_ne_fault _ _ _) fun rest _ => ?_
  refine bind_ne_fault (ofOption_ne_fault _) fun stop hstop => ?_
  refine bind_ne_fault ?_ fun piece _ => ofOption_ne_fault _
  have hle : stop < rest.length :=
    (List.findIdx?_eq_some_iff_findIdx_eq.1 (Reading.ofOption_eq_found.1 hstop)).1
  simp [slice, Nat.le_of_lt hle]

theorem readSoname_ne_fault (file : Bytes) : readSoname file ≠ .fault := by
  refine bind_ne_fault (layout_ne_fault file) fun l _ => ?_
  refine bind_ne_fault (sections_ne_fault l file) fun sections _ => ?_
  refine bind_ne_fault (ofOption_ne_fault _) fun dynamic _ => ?_
  refine bind_ne_fault (ofOption_ne_fault _) fun strings _ => ?_
  refine bind_ne_fault (checkedSum_ne_fault _ _) fun last _ => ?_
  refine bind_ne_fault (search_ne_fault l file last _) fun value _ => ?_
  exact bind_ne_fault (checkedSum_ne_fault _ _) fun start _ => terminated_ne_fault file start

theorem readSoname_eq_found (hfile : file.length ≤ maxAddress) {s : String} :
    readSoname file = .found s ↔ DeclaresSoname file s := by
  unfold readSoname DeclaresSoname
  simp only [Reading.bind_eq_found, Reading.ofOption_eq_found, checkedSum_eq_found, layout_eq_found,
    sections_eq_found hfile, terminated_eq_found]
  constructor
  · rintro ⟨l, hbegins, sections, hsections, dynamic, hdynamic, strings, hstrings, _, ⟨hlast, rfl⟩, value,
      hvalue, _, ⟨-, rfl⟩, htext⟩
    obtain ⟨htype, d, hd, rfl, hfirst⟩ := List.find?_eq_some_iff_getElem.1 hdynamic
    refine ⟨l, sections, d, _, strings, value, hbegins, hsections,
      ⟨List.getElem?_eq_getElem hd, of_decide_eq_true htype, fun i hi s hs => ?_⟩, hstrings, ?_,
      (search_eq_found hfile hlast).1 hvalue, htext⟩
    · obtain ⟨hlt, rfl⟩ := List.getElem?_eq_some_iff.1 hs
      simpa using hfirst i hi
    · exact Nat.lt_succ_of_le hlast
  · rintro ⟨l, sections, d, dynamic, strings, value, hbegins, hsections, ⟨hd, htype, hfirst⟩, hstrings, hlast,
      hvalue, htext⟩
    obtain ⟨hlt, hget⟩ := List.getElem?_eq_some_iff.1 hd
    have hle : dynamic.offset + dynamic.size ≤ maxAddress := Nat.le_of_lt_succ hlast
    refine ⟨l, hbegins, sections, hsections, dynamic, ?_, strings, hstrings, _, ⟨hle, rfl⟩, value,
      (search_eq_found hfile hle).2 hvalue, _, ⟨?_, rfl⟩, htext⟩
    · refine List.find?_eq_some_iff_getElem.2 ⟨decide_eq_true htype, d, hlt, hget, fun j hj => ?_⟩
      simpa using hfirst j hj _ (List.getElem?_eq_getElem (hj.trans hlt))
    · obtain ⟨before, after, rfl, hbefore, -⟩ := htext
      simp only [List.length_append] at hfile
      omega

end

/-- A file that fits into memory has a soname exactly if it declares one. Reading it adds no addresses beyond
the greatest and cuts no piece that is not there, and the search for the entry takes no more steps than the file
has room for, and one. -/
theorem soname?_iff (file : Bytes) (hfile : file.length < 2 ^ 64) :
    (∀ s, soname? file = some s ↔ DeclaresSoname file s) ∧ readSoname file ≠ .fault ∧
      ∀ (l : Layout) (last offset : Nat), (l.search file last offset).steps ≤ file.length / 8 + 1 :=
  ⟨fun _ => Reading.toOption_eq_some.trans (readSoname_eq_found (Nat.le_of_lt_succ hfile)),
    readSoname_ne_fault file, fun l last offset => search_steps l file last offset⟩

/-- A shared object with a given soname, of short addresses whose most significant byte comes first. Behind the
header come two dynamic entries, the headers of their section and of that of the strings, and the strings. -/
def sharedObject (soname : Bytes) : Bytes :=
  magic ++ [1, 2] ++ List.replicate 26 0 ++ [0, 0, 0, 66] ++ List.replicate 10 0 ++ [0, 28, 0, 2]
    ++ [0, 0, 0, 1, 0, 0, 0, 9] ++ [0, 0, 0, 14, 0, 0, 0, 1]
    ++ [0, 0, 0, 0, 0, 0, 0, 6] ++ List.replicate 8 0 ++ [0, 0, 0, 50, 0, 0, 0, 16, 0, 0, 0, 1]
    ++ [0, 0, 0, 0, 0, 0, 0, 3] ++ List.replicate 8 0 ++ [0, 0, 0, 122, 0, 0, 1, 0, 0, 0, 0, 0]
    ++ 0 :: soname ++ [0]

theorem declaresSoname_sharedObject :
    let file := sharedObject (Bytes.ofString "liba.so.1")
    file.length < 2 ^ 64 ∧ DeclaresSoname file "liba.so.1" ∧ ¬ DeclaresSoname file "" := by
  intro file
  have hlength : file.length < 2 ^ 64 := by decide +kernel
  obtain ⟨hdeclares, -, -⟩ := soname?_iff file hlength
  have hread : soname? file = some "liba.so.1" := by decide +kernel
  refine ⟨hlength, (hdeclares _).1 hread, fun h => ?_⟩
  rw [(hdeclares _).2 h] at hread
  exact absurd (Option.some.inj hread) (by decide)

end ImageLayer.Elf
