import ImageLayer.Bytes
/-!
The header of a member of a tape archive: one block of 512 bytes.

Every field has its place and its width. Paths stand in fields of a hundred bytes, which are filled elsewhere.
The rest is numbers.

Numbers are written in octal with leading zeros and a zero byte at the end. One that needs more digits than the
field has is written in base 256 instead, with the field's first bit set, as far as it fits (`shortNumber`,
`longNumber`). The numbers of a device have no such form and keep their lowest digits only. This is what a
header can lose.

The checksum is the sum of all bytes of the header, blanks standing in its own place. It is computed from the
fields on both sides of it (`Header.before`, `Header.behind`).
-/

namespace ImageLayer.Archive

/-- What a member is. -/
inductive MemberType where
  /-- A regular file. -/
  | file
  /-- A further name of a file. -/
  | hardlink
  /-- A symbolic link. -/
  | symlink
  /-- A character device. -/
  | charDevice
  /-- A directory. -/
  | directory
  /-- The path of the next member, which has no room in its header. -/
  | longPath
  /-- The link path of the next member, which has no room in its header. -/
  | longLink
  deriving DecidableEq, Repr

/-- The byte that stands for a type. -/
def MemberType.flag : MemberType → UInt8
  | .file => 0x30
  | .hardlink => 0x31
  | .symlink => 0x32
  | .charDevice => 0x33
  | .directory => 0x35
  | .longPath => 0x4C
  | .longLink => 0x4B

/-- The header of a member. -/
structure Header where
  /-- The path as far as it fits; a hundred bytes. -/
  name : Bytes
  /-- Permissions. -/
  mode : Nat
  /-- Number of the user. -/
  uid : Nat
  /-- Number of the group. -/
  gid : Nat
  /-- Number of bytes of the contents. -/
  size : Nat
  /-- Second of the last change. -/
  time : Nat
  /-- What the member is. -/
  type : MemberType
  /-- The link path as far as it fits; a hundred bytes. -/
  linkName : Bytes := List.replicate 100 0
  /-- The numbers of a device. -/
  device : Option (Nat × Nat) := none
  deriving DecidableEq, Repr

/-- The `width` lowest octal digits of a number, and a zero byte. -/
def octalField (width n : Nat) : Bytes :=
  let digits := (Nat.toDigits 8 n).map fun c => UInt8.ofNat c.toNat
  let digits := digits.drop (digits.length - width)
  List.replicate (width - digits.length) 0x30 ++ digits ++ [0]

/-- A number in `width` bytes in base 256 with the first bit set; at least the eight lowest bytes are
kept. -/
def binaryField (width n : Nat) : Bytes :=
  match List.replicate (width - 8) 0 ++ Bytes.ofBigEndian 8 n with
  | [] => []
  | b :: rest => (b ||| 0x80) :: rest

/-- A number in a field of eight bytes. -/
def shortNumber (n : Nat) : Bytes := if n < 0o10000000 then octalField 7 n else binaryField 8 n

/-- A number in a field of twelve bytes. -/
def longNumber (n : Nat) : Bytes := if n < 0o100000000000 then octalField 11 n else binaryField 12 n

/-- The fields of a header that stand before the checksum. -/
def Header.before (h : Header) : Bytes :=
  h.name ++ octalField 7 h.mode ++ shortNumber h.uid ++ shortNumber h.gid ++ longNumber h.size ++
    longNumber h.time

/-- The fields of a header that stand behind the checksum, filled up with zero bytes. -/
def Header.behind (h : Header) : Bytes :=
  h.type.flag :: h.linkName ++ [0x75, 0x73, 0x74, 0x61, 0x72, 0x20, 0x20, 0] ++
    List.replicate 64 0 ++
    (match h.device with
      | some (major, minor) => octalField 7 major ++ octalField 7 minor
      | none => List.replicate 16 0) ++
    List.replicate 167 0

/-- The sum of all bytes of a header, blanks in place of the checksum. -/
def Header.checksum (h : Header) : Nat :=
  (h.before ++ List.replicate 8 0x20 ++ h.behind).foldl (fun n (b : UInt8) => n + b.toNat) 0

/-- The block that a header is written as. -/
def Header.block (h : Header) : Bytes := h.before ++ octalField 7 h.checksum ++ h.behind

end ImageLayer.Archive
