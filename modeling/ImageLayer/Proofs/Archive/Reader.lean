import ImageLayer.Archive.Header
import ImageLayer.Tree.Path
/-!
Reading a tape archive.

This is the reader that the archives of this library are meant for. It is written from the format alone and
shares nothing with the writer but the list of what a header says, so that a mistake of the writer is not
repeated here and taken for right. What is proved of the writer elsewhere is said through this reader.

An archive is a sequence of records, each a header of one block of 512 bytes and the contents behind it in whole
blocks. A record for a long path or a long link path belongs to the record behind it, and every other record is
a member. Two blocks of zeros end the archive.

Sections:

* Fields. A number is written in octal digits, or in base 256 behind a byte that says so; `number?` reads both.
  Text goes up to the first zero byte.
* Records. `header?` cuts a block into its fields and refuses it if the mark of the format or the checksum is
  wrong, or a number cannot be read. `record?` takes the contents with it.
* Members. `readFrom` goes through the records with the long names that it has met and not yet used. An archive
  that does not end in zeros, or has a long name that belongs to nothing, is none.

Each record takes bytes away from the front (`length_rest_lt`), so that reading comes to an end.
-/

namespace ImageLayer.Archive

/-! ## Fields -/

/-- Whether a byte is an octal digit. -/
def isOctalDigit (b : UInt8) : Bool := 0x30 ≤ b && b < 0x38

/-- The number that octal digits stand for. -/
def octalValue (digits : Bytes) : Nat := digits.foldl (fun n b => n * 8 + (b.toNat - 0x30)) 0

/-- The number in a field: octal digits up to a blank or a zero byte, or digits in base 256 behind a byte
that says so. -/
def number? (field : Bytes) : Option Nat :=
  match field with
  | [] => none
  | first :: rest =>
    if first = 0x80 then some (Bytes.bigEndian rest)
    else
      let digits := field.takeWhile fun b => b ≠ 0 && b ≠ 0x20
      if digits.all isOctalDigit then some (octalValue digits) else none

/-- The text in a field or in contents: what stands before the first zero byte. -/
def untilZero (bs : Bytes) : Bytes := bs.takeWhile (· ≠ 0)

/-- The type that a flag stands for. -/
def typeOfFlag? (flag : UInt8) : Option MemberType :=
  if flag = 0x30 then some .file
  else if flag = 0x31 then some .hardlink
  else if flag = 0x32 then some .symlink
  else if flag = 0x33 then some .charDevice
  else if flag = 0x35 then some .directory
  else if flag = 0x4C then some .longPath
  else if flag = 0x4B then some .longLink
  else none

/-- Cuts bytes into fields of the given widths. -/
def cutFields : (widths : List Nat) → Bytes → List Bytes
  | [], _ => []
  | width :: widths, bs => bs.take width :: cutFields widths (bs.drop width)

/-! ## Records -/

/-- The widths of the fields of a header: name, mode, user, group, size, time, checksum, type, link name,
mark of the format, names of user and group, major and minor number of a device, and what is not used. -/
def fieldWidths : List Nat := [100, 8, 8, 8, 12, 12, 8, 1, 100, 8, 64, 8, 8, 167]

/-- The mark of the format. -/
def formatMark : Bytes := [0x75, 0x73, 0x74, 0x61, 0x72, 0x20, 0x20, 0]

/-- The sum of all bytes of a block, blanks in place of the checksum. -/
def blockSum (block : Bytes) : Nat :=
  (block.take 148 ++ List.replicate 8 0x20 ++ block.drop 156).foldl
    (fun n (b : UInt8) => n + b.toNat) 0

/-- The header in a block, if its mark and its checksum are right and every number can be read. -/
def header? (block : Bytes) : Option Header :=
  match cutFields fieldWidths block with
  | [name, mode, uid, gid, size, time, sum, [flag], linkName, mark, _, major, minor, _] =>
    if mark = formatMark ∧ number? sum = some (blockSum block) then do
      let type ← typeOfFlag? flag
      let major ← number? major
      let minor ← number? minor
      return {
        name, linkName, type
        mode := ← number? mode
        uid := ← number? uid
        gid := ← number? gid
        size := ← number? size
        time := ← number? time
        device := if type = .charDevice then some (major, minor) else none }
    else none
  | _ => none

/-- A header with its contents, and what stands behind them. -/
structure Record where
  /-- The header. -/
  header : Header
  /-- The contents. -/
  contents : Bytes
  /-- The rest of the archive. -/
  rest : Bytes

/-- The record that an archive starts with. -/
def record? (s : Bytes) : Option Record :=
  if s.length < 512 then none
  else
    match header? (s.take 512) with
    | none => none
    | some h =>
      let blocks := (h.size + 511) / 512
      if (s.drop 512).length < blocks * 512 then none
      else some ⟨h, (s.drop 512).take h.size, (s.drop 512).drop (blocks * 512)⟩

theorem length_rest_lt {s : Bytes} {r : Record} (h : record? s = some r) :
    r.rest.length < s.length := by
  unfold record? at h
  split at h
  · cases h
  · split at h
    · cases h
    · simp only at h
      split at h
      · cases h
      · obtain rfl := Option.some.inj h
        simp only [List.length_drop]
        omega

/-! ## Members -/

/-- One member of an archive. -/
structure Member where
  /-- Its path. -/
  path : Path
  /-- What it is. -/
  type : MemberType
  /-- Its permissions. -/
  mode : Nat
  /-- Number of the user. -/
  uid : Nat
  /-- Number of the group. -/
  gid : Nat
  /-- Second of the last change. -/
  time : Nat
  /-- Its contents. -/
  contents : Bytes
  /-- The path in a link, empty elsewhere. -/
  link : Path
  /-- The numbers of a device. -/
  device : Option (Nat × Nat)
  deriving DecidableEq, Repr

/-- Names that have been read in full and belong to the next member. -/
structure LongNames where
  /-- Its path. -/
  path : Option Bytes := none
  /-- The path in the link. -/
  link : Option Bytes := none
  deriving DecidableEq, Repr

/-- The member that a record is, with the names that were read before it. -/
def Record.member (r : Record) (names : LongNames) : Member where
  path := ⟨names.path.getD (untilZero r.header.name)⟩
  type := r.header.type
  mode := r.header.mode
  uid := r.header.uid
  gid := r.header.gid
  time := r.header.time
  contents := r.contents
  link := ⟨names.link.getD (untilZero r.header.linkName)⟩
  device := r.header.device

/-- The members of an archive up to its end, the first of them with names that have been read. -/
def readFrom (names : LongNames) (s : Bytes) : Option (List Member) :=
  match h : record? s with
  | some r =>
    match r.header.type with
    | .longPath => readFrom { names with path := some (untilZero r.contents) } r.rest
    | .longLink => readFrom { names with link := some (untilZero r.contents) } r.rest
    | _ => (readFrom {} r.rest).map (r.member names :: ·)
  | none => if names = {} ∧ List.replicate 1024 0 <+: s then some [] else none
termination_by s.length
decreasing_by all_goals exact length_rest_lt h

/-- The members of an archive. -/
def read (s : Bytes) : Option (List Member) := readFrom {} s

end ImageLayer.Archive
