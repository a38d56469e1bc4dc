import ImageLayer.Proofs.Archive.Number
/-!
The block of a header, read back.

`header?_block`, the main statement, says that a header whose fields have room for what it says is read back as
it was, but for the numbers of a device, of which only the seven lowest octal digits are kept (`Header.kept`).

`Header.Fits` says what room there has to be: names fill their fields, which have a fixed width by then, numbers
are below the bound of their field, and device numbers are there for a device and for nothing else.

Sections:

* Lengths. Every part of a block has its width, and the block has 512 bytes (`Header.Fits.length_block`). The
  fields behind the checksum are put in the form of a list of fields first (`Header.behind_eq`), since they are
  written by cases.
* The checksum is a sum of bytes, and no block has so many that the sum does not fit into its field
  (`Header.Fits.checksum_lt`). The writer sums up the block with blanks in place of the checksum, and so does
  the reader (`Header.Fits.blockSum`).
* The fields. Cutting a block at the widths of the fields gives the fields (`cutFields_block`), each of which is
  read back by the lemma for its kind of number.
-/

namespace ImageLayer.Archive

/-- The fields of a header have room for what it says, and device numbers are where they belong. -/
structure Header.Fits (h : Header) : Prop where
  /-- The name fills its field. -/
  name : h.name.length = 100
  /-- The name in a link fills its field. -/
  linkName : h.linkName.length = 100
  /-- Permissions have a field for octal digits only. -/
  mode : h.mode < 8 ^ 7
  /-- The user. -/
  uid : h.uid < 256 ^ 7
  /-- The group. -/
  gid : h.gid < 256 ^ 7
  /-- The size. -/
  size : h.size < 256 ^ 8
  /-- The time. -/
  time : h.time < 256 ^ 8
  /-- Only a device has device numbers. -/
  device : h.device.isSome ↔ h.type = .charDevice

/-- What is left of a number in a field of seven octal digits. -/
def lowDigits (n : Nat) : Nat := n % 8 ^ 7

/-- The header with as much of its device numbers as is kept. -/
def Header.kept (h : Header) : Header :=
  { h with device := h.device.map fun d => (lowDigits d.1, lowDigits d.2) }

/-! ## Lengths -/

theorem Header.Fits.length_before {h : Header} (fits : h.Fits) : h.before.length = 148 := by
  simp [Header.before, fits.name]

/-- The numbers of a device as they are written. -/
def deviceFields (device : Option (Nat × Nat)) : Bytes :=
  match device with
  | some (major, minor) => octalField 7 major ++ octalField 7 minor
  | none => List.replicate 16 0

@[simp] theorem length_deviceFields (device : Option (Nat × Nat)) : (deviceFields device).length = 16 := by
  unfold deviceFields
  split <;> simp

theorem Header.behind_eq (h : Header) :
    h.behind = [h.type.flag] ++ (h.linkName ++ (formatMark ++ (List.replicate 64 0 ++
      (deviceFields h.device ++ List.replicate 167 0)))) := by
  cases hdevice : h.device with
  | none => simp only [Header.behind, hdevice, deviceFields, formatMark, List.cons_append,
      List.append_assoc, List.nil_append]
  | some d => simp only [Header.behind, hdevice, deviceFields, formatMark, List.cons_append,
      List.append_assoc, List.nil_append]

theorem Header.Fits.length_behind {h : Header} (fits : h.Fits) : h.behind.length = 356 := by
  simp only [Header.behind_eq, List.length_append, List.length_singleton, fits.linkName,
    List.length_replicate, length_deviceFields]
  rfl

theorem Header.Fits.length_block {h : Header} (fits : h.Fits) : h.block.length = 512 := by
  simp [Header.block, fits.length_before, fits.length_behind]

/-! ## The checksum -/

theorem foldl_toNat_le (bs : Bytes) (n : Nat) :
    bs.foldl (fun n (b : UInt8) => n + b.toNat) n ≤ n + 255 * bs.length := by
  induction bs generalizing n with
  | nil => simp
  | cons b rest ih =>
    have hb := b.toNat_lt
    have := ih (n + b.toNat)
    rw [List.foldl_cons, List.length_cons]
    omega

theorem Header.Fits.checksum_lt {h : Header} (fits : h.Fits) : h.checksum < 8 ^ 7 := by
  have := foldl_toNat_le (h.before ++ List.replicate 8 0x20 ++ h.behind) 0
  rw [List.length_append, List.length_append, List.length_replicate, fits.length_before,
    fits.length_behind] at this
  rw [Header.checksum]
  omega

/-- The reader sums up the same bytes as the writer. -/
theorem Header.Fits.blockSum {h : Header} (fits : h.Fits) : blockSum h.block = h.checksum := by
  have htake : h.block.take 148 = h.before := by
    rw [Header.block, List.append_assoc, List.take_left' fits.length_before]
  have hdrop : h.block.drop 156 = h.behind := by
    rw [Header.block, List.drop_left' (by simp [fits.length_before])]
  rw [Archive.blockSum, htake, hdrop, Header.checksum]

/-! ## The fields -/

theorem cutFields_cons {field rest : Bytes} {width : Nat} (h : field.length = width)
    (widths : List Nat) :
    cutFields (width :: widths) (field ++ rest) = field :: cutFields widths rest := by
  rw [cutFields, List.take_left' h, List.drop_left' h]

theorem typeOfFlag?_flag (type : MemberType) : typeOfFlag? type.flag = some type := by
  cases type <;> rfl

theorem cutFields_block {h : Header} (fits : h.Fits) {major minor : Bytes}
    (hdevice : deviceFields h.device = major ++ minor) (hmajor : major.length = 8)
    (hminor : minor.length = 8) :
    cutFields fieldWidths h.block
      = [h.name, octalField 7 h.mode, shortNumber h.uid, shortNumber h.gid, longNumber h.size,
        longNumber h.time, octalField 7 h.checksum, [h.type.flag], h.linkName, formatMark,
        List.replicate 64 0, major, minor, List.replicate 167 0] := by
  rw [Header.block, Header.behind_eq, Header.before, hdevice]
  simp only [List.append_assoc, fieldWidths]
  rw [cutFields_cons fits.name, cutFields_cons (length_octalField 7 _),
    cutFields_cons (length_shortNumber _), cutFields_cons (length_shortNumber _),
    cutFields_cons (length_longNumber _), cutFields_cons (length_longNumber _),
    cutFields_cons (length_octalField 7 _), cutFields_cons (List.length_singleton),
    cutFields_cons fits.linkName, cutFields_cons (by rfl), cutFields_cons List.length_replicate,
    cutFields_cons hmajor, cutFields_cons hminor]
  rfl

/-- A header that fits is read back with what is kept of its device numbers. -/
theorem header?_block {h : Header} (fits : h.Fits) : header? h.block = some h.kept := by
  have hmode := number?_octalField 7 h.mode
  have hsum := number?_octalField 7 h.checksum
  rw [Nat.mod_eq_of_lt fits.mode] at hmode
  rw [Nat.mod_eq_of_lt fits.checksum_lt] at hsum
  have huid := number?_shortNumber fits.uid
  have hgid := number?_shortNumber fits.gid
  have hsize := number?_longNumber fits.size
  have htime := number?_longNumber fits.time
  cases hdevice : h.device with
  | some d =>
    have htype : h.type = .charDevice := fits.device.1 (by rw [hdevice]; rfl)
    have hfields : deviceFields h.device = octalField 7 d.1 ++ octalField 7 d.2 := by
      rw [hdevice]
      rfl
    have hcut := cutFields_block fits hfields (length_octalField 7 _) (length_octalField 7 _)
    simp [header?, hcut, fits.blockSum, hmode, hsum, huid, hgid, hsize, htime, htype,
      MemberType.flag, typeOfFlag?, number?_octalField, Header.kept, lowDigits, hdevice]
  | none =>
    have htype : h.type ≠ .charDevice := fun ht => by simpa [hdevice] using fits.device.2 ht
    -- Zeros stand for zero where there is no device, and the type says that they mean nothing.
    have hzeros : deviceFields h.device = List.replicate 8 0 ++ List.replicate 8 0 := by
      rw [hdevice]
      rfl
    have hcut := cutFields_block fits hzeros List.length_replicate List.length_replicate
    have hzero : number? [0, 0, 0, 0, 0, 0, 0, 0] = some 0 := rfl
    simp [header?, hcut, fits.blockSum, hmode, hsum, huid, hgid, hsize, htime, htype,
      typeOfFlag?_flag, hzero, Header.kept, hdevice]

end ImageLayer.Archive
