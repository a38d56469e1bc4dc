import Mathlib.Algebra.Group.Nat.Defs
import ImageLayer.Proofs.Host.Loaded
/-!
Device numbers of the host.

A host keeps the two numbers of a device in one word of 64 bits. Each of them is cut in two: the low part of the
first lies between the parts of the second, and both high parts are on top. `Host.loadTree_devices`, the main
statement, says that splitting such a word and making it undo each other, for all numbers and all words, and
that a device is loaded with the numbers that its word is made of.

## How the proof goes

Masks and shifts become arithmetic first. A mask of the lowest bits is a remainder by a power of two, a mask of
all others a multiple of one (`toNat_and_mask`, `toNat_and_not_mask`), and joining two words by such masks adds
their parts (`toNat_joined`). Shifts are quotients, and products as long as nothing is shifted out.

Then each of the three functions has one equation in arithmetic: `toNat_fst_splitDevice` and
`toNat_snd_splitDevice` read the fields off the word, and `toNat_makeDeviceNumber` writes the word as the sum of
four fields, which do not overlap (`or_fields`). Both round trips follow from these equations alone, by linear
arithmetic on quotients and remainders; no bit is looked at again.

For the second of the two numbers, bits of the first one are shifted along and cut off when the word becomes 32
bits wide; the equation shows that they do no harm.
-/

namespace ImageLayer

/-! ## Shifts and masks -/

theorem toNat_shiftRight_of_lt {k : Nat} (hk : k < 64) (x : UInt64) :
    (x >>> UInt64.ofNat k).toNat = x.toNat / 2 ^ k := by
  rw [UInt64.toNat_shiftRight, UInt64.toNat_ofNat', Nat.mod_eq_of_lt (Nat.lt_trans hk (by decide)),
    Nat.mod_eq_of_lt hk, Nat.shiftRight_eq_div_pow]

/-- Nothing is shifted out of the word. -/
theorem toNat_shiftLeft_of_lt {k value : Nat} {x : UInt64} (hk : k < 64) (hx : x.toNat = value)
    (hfits : 2 ^ k * value < 2 ^ 64) : (x <<< UInt64.ofNat k).toNat = 2 ^ k * value := by
  rw [UInt64.toNat_shiftLeft, UInt64.toNat_ofNat', Nat.mod_eq_of_lt (Nat.lt_trans hk (by decide)),
    Nat.mod_eq_of_lt hk, hx, Nat.shiftLeft_eq, Nat.mul_comm, Nat.mod_eq_of_lt hfits]

section

variable {mask : UInt64} {n : Nat}

theorem toNat_and_mask (hmask : mask.toNat = 2 ^ n - 1) (x : UInt64) :
    (x &&& mask).toNat = x.toNat % 2 ^ n := by
  rw [UInt64.toNat_and, hmask, Nat.and_two_pow_sub_one_eq_mod]

theorem toNat_and_not_mask (hmask : mask.toNat = 2 ^ n - 1) (x : UInt64) :
    (x &&& ~~~mask).toNat = 2 ^ n * (x.toNat / 2 ^ n) := by
  have hsize : UInt64.size = 2 ^ 64 := rfl
  have hnot : (~~~mask).toNat = 2 ^ 64 - (mask.toNat + 1) := by
    rw [UInt64.toNat_not, hsize, Nat.sub_sub, Nat.add_comm]
  apply Nat.eq_of_testBit_eq
  intro i
  rw [UInt64.toNat_and, Nat.testBit_and, hnot, Nat.testBit_two_pow_sub_succ mask.toNat_lt, hmask,
    Nat.testBit_two_pow_sub_one, Nat.testBit_two_pow_mul, Nat.testBit_div_two_pow]
  by_cases hlow : i < n
  · simp [hlow]
  · -- Above the mask the bits stay; above the word there are none.
    have hplace : i - n + n = i := by omega
    rw [hplace]
    by_cases hword : i < 64
    · simp [hlow, hword, Nat.le_of_not_lt hlow]
    · have hnone : x.toNat.testBit i = false :=
        Nat.testBit_lt_two_pow
          (Nat.lt_of_lt_of_le x.toNat_lt (Nat.pow_le_pow_right (by decide) (Nat.le_of_not_lt hword)))
      simp [hnone]

/-- The bits of one word within a mask, and those of another one outside it. -/
theorem toNat_joined (hmask : mask.toNat = 2 ^ n - 1) (low high : UInt64) :
    ((low &&& mask) ||| (high &&& ~~~mask)).toNat
      = 2 ^ n * (high.toNat / 2 ^ n) + low.toNat % 2 ^ n := by
  have hlow : low.toNat % 2 ^ n < 2 ^ n := Nat.mod_lt _ (Nat.two_pow_pos n)
  rw [UInt64.toNat_or, toNat_and_mask hmask, toNat_and_not_mask hmask, Nat.or_comm,
    ← Nat.two_pow_add_eq_or_of_lt hlow]

end

/-! ## The fields of a device number -/

theorem toNat_fst_splitDevice (number : UInt64) :
    (splitDevice number).1.toNat
      = 2 ^ 12 * (number.toNat / 2 ^ 44) + number.toNat / 2 ^ 8 % 2 ^ 12 := by
  have hmask : (0xfff : UInt64).toNat = 2 ^ 12 - 1 := by decide
  have hlow : (number >>> 8).toNat = number.toNat / 2 ^ 8 :=
    toNat_shiftRight_of_lt (by decide) number
  have hhigh : (number >>> 32).toNat = number.toNat / 2 ^ 32 :=
    toNat_shiftRight_of_lt (by decide) number
  have hword := number.toNat_lt
  rw [splitDevice, UInt64.toNat_toUInt32, toNat_joined hmask, hlow, hhigh, Nat.div_div_eq_div_mul]
  -- The high part ends where the word does, so that nothing is cut off.
  omega

/-- The bits of the shifted word from the thirty-second on belong to the first number. They are cut off. -/
theorem toNat_snd_splitDevice (number : UInt64) :
    (splitDevice number).2.toNat
      = 2 ^ 8 * (number.toNat / 2 ^ 20 % 2 ^ 24) + number.toNat % 2 ^ 8 := by
  have hmask : (0xff : UInt64).toNat = 2 ^ 8 - 1 := by decide
  have hhigh : (number >>> 12).toNat = number.toNat / 2 ^ 12 :=
    toNat_shiftRight_of_lt (by decide) number
  rw [splitDevice, UInt64.toNat_toUInt32, toNat_joined hmask, hhigh, Nat.div_div_eq_div_mul]
  omega

/-- Fields that lie side by side are added up. -/
theorem or_fields {a b c d : Nat} (hb : b < 2 ^ 24) (hc : c < 2 ^ 12) (hd : d < 2 ^ 8) :
    2 ^ 44 * a ||| (2 ^ 20 * b ||| (2 ^ 8 * c ||| d))
      = 2 ^ 44 * a + (2 ^ 20 * b + (2 ^ 8 * c + d)) := by
  have hlow : 2 ^ 8 * c + d < 2 ^ 20 := by omega
  have hbelow : 2 ^ 20 * b + (2 ^ 8 * c + d) < 2 ^ 44 := by omega
  rw [Nat.two_pow_add_eq_or_of_lt hbelow, Nat.two_pow_add_eq_or_of_lt hlow,
    Nat.two_pow_add_eq_or_of_lt hd]

/-- The high parts are on top, that of the first number above that of the second one, and the low parts
below them in the same order. -/
theorem toNat_makeDeviceNumber (major minor : UInt32) :
    (makeDeviceNumber major minor).toNat
      = 2 ^ 44 * (major.toNat / 2 ^ 12) + (2 ^ 20 * (minor.toNat / 2 ^ 8)
        + (2 ^ 8 * (major.toNat % 2 ^ 12) + minor.toNat % 2 ^ 8)) := by
  have hmajor := major.toNat_lt
  have hminor := minor.toNat_lt
  have hmiddle : (0xfff : UInt64).toNat = 2 ^ 12 - 1 := by decide
  have hlow : (0xff : UInt64).toNat = 2 ^ 8 - 1 := by decide
  have hmajorLow : ((major.toUInt64 &&& 0xfff) <<< 8).toNat = 2 ^ 8 * (major.toNat % 2 ^ 12) :=
    toNat_shiftLeft_of_lt (k := 8) (by decide) (toNat_and_mask hmiddle _) (by omega)
  have hmajorHigh : ((major.toUInt64 &&& ~~~0xfff) <<< 32).toNat
      = 2 ^ 32 * (2 ^ 12 * (major.toNat / 2 ^ 12)) :=
    toNat_shiftLeft_of_lt (k := 32) (by decide) (toNat_and_not_mask hmiddle _) (by omega)
  have hminorLow : (minor.toUInt64 &&& 0xff).toNat = minor.toNat % 2 ^ 8 := toNat_and_mask hlow _
  have hminorHigh : ((minor.toUInt64 &&& ~~~0xff) <<< 12).toNat
      = 2 ^ 12 * (2 ^ 8 * (minor.toNat / 2 ^ 8)) :=
    toNat_shiftLeft_of_lt (k := 12) (by decide) (toNat_and_not_mask hlow _) (by omega)
  rw [makeDeviceNumber, UInt64.toNat_or, UInt64.toNat_or, UInt64.toNat_or, hmajorLow, hmajorHigh,
    hminorLow, hminorHigh, ← Nat.mul_assoc, ← Nat.pow_add, ← Nat.mul_assoc, ← Nat.pow_add,
    ← or_fields (by omega) (Nat.mod_lt _ (by decide)) (Nat.mod_lt _ (by decide))]
  ac_rfl

theorem splitDevice_makeDeviceNumber (major minor : UInt32) :
    splitDevice (makeDeviceNumber major minor) = (major, minor) := by
  have hmajor := major.toNat_lt
  have hminor := minor.toNat_lt
  have hnumber := toNat_makeDeviceNumber major minor
  -- Every part has as many bits as its field, so that quotients and remainders find each alone.
  have hfst : (splitDevice (makeDeviceNumber major minor)).1.toNat = major.toNat := by
    rw [toNat_fst_splitDevice]
    omega
  have hsnd : (splitDevice (makeDeviceNumber major minor)).2.toNat = minor.toNat := by
    rw [toNat_snd_splitDevice]
    omega
  exact Prod.ext (UInt32.toNat_inj.1 hfst) (UInt32.toNat_inj.1 hsnd)

theorem makeDeviceNumber_splitDevice (number : UInt64) :
    makeDeviceNumber (splitDevice number).1 (splitDevice number).2 = number := by
  have hfst := toNat_fst_splitDevice number
  have hsnd := toNat_snd_splitDevice number
  have hnumber := number.toNat_lt
  refine UInt64.toNat_inj.1 ?_
  rw [toNat_makeDeviceNumber]
  omega

theorem splitDevice_eq_iff {number : UInt64} {major minor : UInt32} :
    splitDevice number = (major, minor) ↔ number = makeDeviceNumber major minor := by
  constructor
  · intro h
    rw [← makeDeviceNumber_splitDevice number, h]
  · intro h
    rw [h, splitDevice_makeDeviceNumber]

/-! ## Devices that are loaded -/

/-- What is loaded as a device is a device of which the device number is made of the two numbers. -/
theorem HostNode.loadsAs_charDevice_iff {files : List HostFile} {root node : HostNode} {place : Place}
    {major minor : UInt32} {permissions : Nat} :
    root.LoadsAs files place node ⟨.charDevice major minor, permissions, none⟩ ↔
      ∃ mode number, node = .charDevice mode number ∧ permissions = mode % 4096 ∧
        UInt64.ofNat number = makeDeviceNumber major minor := by
  constructor
  · intro h
    cases h with
    | charDevice mode number => exact ⟨mode, number, rfl, rfl, splitDevice_eq_iff.1 rfl⟩
  · rintro ⟨mode, number, rfl, rfl, hnumber⟩
    have hloads : root.LoadsAs files place (.charDevice mode number)
        ⟨.charDevice (splitDevice (.ofNat number)).1 (splitDevice (.ofNat number)).2, mode % 4096, none⟩ :=
      .charDevice mode number
    rwa [splitDevice_eq_iff.2 hnumber] at hloads

/-- Device numbers survive loading. In the number made of two numbers each of their four parts has its own
bits, and splitting it gives the two numbers back. Every device number is made of the numbers that it is
split into. So the devices of a loaded tree are those of the directory, and the device number of each is
made of the numbers with which it is loaded. -/
theorem Host.loadTree_devices :
    (∀ major minor : UInt32, (makeDeviceNumber major minor).toNat
      = 2 ^ 44 * (major.toNat / 2 ^ 12) + (2 ^ 20 * (minor.toNat / 2 ^ 8)
        + (2 ^ 8 * (major.toNat % 2 ^ 12) + minor.toNat % 2 ^ 8))) ∧
    (∀ major minor : UInt32, splitDevice (makeDeviceNumber major minor) = (major, minor)) ∧
    (∀ number : UInt64, makeDeviceNumber (splitDevice number).1 (splitDevice number).2 = number) ∧
    ∀ (h : Host) (p : Path) (mode : Nat) (children : List (Name × HostNode)), h.root.Proper →
      h.node .entry p = .ok (.directory mode children) →
      ∃ t, h.loadTree p = .ok t ∧
        ∀ (l : Location) (major minor : UInt32) (permissions : Nat),
          (l, ⟨.charDevice major minor, permissions, none⟩) ∈ t.walk ↔
            ∃ (place : Place) (mode' number : Nat), l = place.location ∧
              (HostNode.directory mode children).get? place = some (.charDevice mode' number) ∧
              permissions = mode' % 4096 ∧ UInt64.ofNat number = makeDeviceNumber major minor := by
  refine ⟨toNat_makeDeviceNumber, splitDevice_makeDeviceNumber, makeDeviceNumber_splitDevice, ?_⟩
  intro h p mode children hroot hnode
  have hchildren : HostNode.ProperChildren children := Host.node_proper hroot hnode
  have hload : h.loadTree p = .ok (.ofChildren h.files children) := by
    rw [Host.loadTree, hnode]
  refine ⟨_, hload, fun l major minor permissions => ?_⟩
  rw [(Tree.ofChildren_spec mode hchildren).2]
  constructor
  · rintro ⟨place, node, -, hl, hplace, hloads⟩
    obtain ⟨mode', number, rfl, hmode, hnumber⟩ := HostNode.loadsAs_charDevice_iff.1 hloads
    exact ⟨place, mode', number, hl, hplace, hmode, hnumber⟩
  · rintro ⟨place, mode', number, hl, hplace, hmode, hnumber⟩
    have hnil : place ≠ [] := by
      rintro rfl
      cases hplace
    exact ⟨place, _, hnil, hl, hplace,
      HostNode.loadsAs_charDevice_iff.2 ⟨mode', number, rfl, hmode, hnumber⟩⟩

/-- A device of which all four parts are in use, up to the highest bit. -/
theorem Host.loadTree_devices_highest_bit :
    let dev : Name := [0x64]
    let n : Name := [0x6E]
    let children : List (Name × HostNode) :=
      [(dev, .directory 0o40755 [(n, .charDevice 0o20666 0xABCDE45678912301)])]
    let h : Host := ⟨.directory 0o40755 children, [], []⟩
    let p : Path := .ofString "/"
    h.root.Proper ∧ h.node .entry p = .ok (.directory 0o40755 children) ∧
      ∃ t, h.loadTree p = .ok t ∧
        ([.name dev, .name n], ⟨.charDevice 0xABCDE123 0x45678901, 0o666, none⟩) ∈ t.walk := by
  intro dev n children h p
  have hproper : h.root.Proper :=
    ⟨by decide, by simp, ⟨by decide, by simp, trivial, trivial⟩, trivial⟩
  have hnode : h.node .entry p = .ok (.directory 0o40755 children) := rfl
  obtain ⟨t, hload, hdevices⟩ := Host.loadTree_devices.2.2.2 h p _ children hproper hnode
  have hnumber : UInt64.ofNat 0xABCDE45678912301 = makeDeviceNumber 0xABCDE123 0x45678901 := by decide
  exact ⟨hproper, hnode, t, hload,
    (hdevices _ _ _ _).2 ⟨[dev, n], 0o20666, 0xABCDE45678912301, rfl, rfl, by decide, hnumber⟩⟩

end ImageLayer
