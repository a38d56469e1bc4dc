import ImageLayer.Text.Utf8
/-!
The name under which a shared object wants to be found.

An ELF file says in its first bytes how wide its addresses are and in which order its bytes stand (`layout`).
Its section headers lie in a table (`Layout.sections`). The section of dynamic entries is a list of tagged
words, and the word under the tag for the soname is an offset into the string section that it is linked to
(`readSoname`).

A file need not be what it says it is: offsets may lead out of it, sizes may be those of another file, and the
list of dynamic entries need not end. None of this is a failure. It means that there is no soname.

Addresses are those of a machine of 64 bits, and reading distinguishes two kinds of steps. Some ask before they
add or cut (`checkedSum`, `checkedSlice`), and where they find nothing the file has no soname
(`Reading.missing`). Others add and cut without asking (`sum`, `slice`), and where this goes wrong the reader
itself is at fault (`Reading.fault`). That no file brings about the second is something to prove and not a
property of the types.

The search through the dynamic entries goes on until it finds the tag, meets the end mark or comes to the last
offset. It counts its steps (`Search.steps`), so that it can be said how long it takes for any file. It ends
because each entry has a width, which moves the offset on.
-/

namespace ImageLayer.Elf

/-- How reading a file ends. -/
inductive Reading (α : Type) where
  /-- With what was asked for. -/
  | found (a : α)
  /-- Without it. -/
  | missing
  /-- In an address above the greatest, or in a piece that is not in the file. -/
  | fault
  deriving DecidableEq, Repr

namespace Reading

/-- Reads on with what was found. -/
def bind {α β : Type} (x : Reading α) (f : α → Reading β) : Reading β :=
  match x with
  | .found a => f a
  | .missing => .missing
  | .fault => .fault

instance : Monad Reading where
  pure := .found
  bind := bind

/-- Takes what may be there. -/
def ofOption {α : Type} : Option α → Reading α
  | some a => .found a
  | none => .missing

/-- What was found. -/
def toOption {α : Type} : Reading α → Option α
  | .found a => some a
  | .missing | .fault => none

end Reading

/-! ## Addresses -/

/-- The greatest address. -/
def maxAddress : Nat := 0xFFFFFFFFFFFFFFFF

/-- The sum of two addresses, where it is an address. -/
def checkedSum (a b : Nat) : Reading Nat := if a + b ≤ maxAddress then .found (a + b) else .missing

/-- The product of two addresses, where it is an address. -/
def checkedProduct (a b : Nat) : Reading Nat :=
  if a * b ≤ maxAddress then .found (a * b) else .missing

/-- The sum of two addresses, which has to be an address. -/
def sum (a b : Nat) : Reading Nat := if a + b ≤ maxAddress then .found (a + b) else .fault

/-- The bytes from one offset up to another, where they are there. -/
def checkedSlice (bytes : Bytes) (start stop : Nat) : Reading Bytes :=
  if start ≤ stop ∧ stop ≤ bytes.length then .found ((bytes.drop start).take (stop - start))
  else .missing

/-- The bytes from one offset up to another, which have to be there. -/
def slice (bytes : Bytes) (start stop : Nat) : Reading Bytes :=
  if start ≤ stop ∧ stop ≤ bytes.length then .found ((bytes.drop start).take (stop - start))
  else .fault

/-- The byte at an offset, which has to be there. -/
def byteAt (bytes : Bytes) (offset : Nat) : Reading UInt8 :=
  match bytes[offset]? with
  | some b => .found b
  | none => .fault

/-! ## Headers -/

/-- How numbers are laid out in a file. -/
structure Layout where
  /-- Whether addresses have eight bytes rather than four. -/
  wide : Bool
  /-- Whether the least significant byte comes first. -/
  littleEndian : Bool
  deriving DecidableEq, Repr

/-- A section of a file. -/
structure Section where
  /-- What the section holds. -/
  type : Nat
  /-- Where its contents start. -/
  offset : Nat
  /-- How long its contents are. -/
  size : Nat
  /-- The index of the section that it refers to. -/
  link : Nat
  deriving DecidableEq, Repr

/-- The bytes that every file begins with. -/
def magic : Bytes := [0x7f, 0x45, 0x4c, 0x46]

/-- The type of a section of dynamic entries. -/
def dynamicType : Nat := 6

/-- The tag that ends the dynamic entries. -/
def endTag : Nat := 0

/-- The tag of the entry for the soname. -/
def sonameTag : Nat := 14

/-- The layout that the first sixteen bytes of a file declare. -/
def layout (file : Bytes) : Reading Layout :=
  if file.length < 16 then .missing
  else do
    if (← slice file 0 4) ≠ magic then .missing
    else
      let width ← byteAt file 4
      let order ← byteAt file 5
      if (width = 1 ∨ width = 2) ∧ (order = 1 ∨ order = 2) then return ⟨width = 2, order = 1⟩
      else .missing

namespace Layout

variable (l : Layout) (file : Bytes)

/-- The number in the `width` bytes at an offset. -/
def number (width offset : Nat) : Reading Nat := do
  let field ← checkedSlice file offset (← checkedSum offset width)
  return if l.littleEndian then Bytes.littleEndian field else Bytes.bigEndian field

/-- How many bytes an address has. -/
def addressWidth : Nat := if l.wide then 8 else 4

/-- The address at an offset. -/
def address (offset : Nat) : Reading Nat := l.number file l.addressWidth offset

/-- The section whose header lies at an offset. -/
def sectionAt (base : Nat) : Reading Section := do
  let offsetAt ← checkedSum base (if l.wide then 24 else 16)
  let sizeAt ← checkedSum base (if l.wide then 32 else 20)
  let linkAt ← checkedSum base (if l.wide then 40 else 24)
  let type ← l.number file 4 (← checkedSum base 4)
  let offset ← l.address file offsetAt
  let size ← l.address file sizeAt
  let link ← l.number file 4 linkAt
  return ⟨type, offset, size, link⟩

/-- The sections of a file. -/
def sections : Reading (List Section) := do
  let table ← l.address file (if l.wide then 0x28 else 0x20)
  let width ← l.number file 2 (if l.wide then 0x3A else 0x2E)
  let count ← l.number file 2 (if l.wide then 0x3C else 0x30)
  (List.range count).mapM fun i => do
    l.sectionAt file (← checkedSum table (← checkedProduct i width))

/-! ## Dynamic entries -/

/-- How many bytes a dynamic entry has: a tag and a value. -/
def entryWidth : Nat := if l.wide then 16 else 8

/-- The dynamic entry at an offset. -/
def entryAt (offset : Nat) : Reading (Nat × Nat) := do
  let tag ← l.address file offset
  let value ← l.address file (← checkedSum offset (l.entryWidth / 2))
  return (tag, value)

end Layout

/-- How a search through the dynamic entries ended, and how many it looked at. -/
structure Search where
  /-- The entries that were looked at. -/
  steps : Nat
  /-- The value that was looked for. -/
  ending : Reading Nat
  deriving DecidableEq, Repr

/-- A search that looked at one more entry before. -/
def Search.afterOne (s : Search) : Search := { s with steps := s.steps + 1 }

theorem Layout.entryWidth_pos (l : Layout) : 0 < l.entryWidth := by
  unfold entryWidth
  split <;> decide

theorem le_of_checkedSum {a b c : Nat} (h : checkedSum a b = .found c) :
    c = a + b ∧ a + b ≤ maxAddress := by
  unfold checkedSum at h
  split at h
  · exact ⟨(Reading.found.inj h).symm, ‹_›⟩
  · cases h

theorem eq_of_sum {a b c : Nat} (h : sum a b = .found c) : c = a + b := by
  unfold sum at h
  split at h
  · exact (Reading.found.inj h).symm
  · cases h

/-- Searches the dynamic entries from an offset on for the value of the one for the soname, as long as
they end at `last` or before. -/
def Layout.search (l : Layout) (file : Bytes) (last offset : Nat) : Search :=
  match _ : checkedSum offset l.entryWidth with
  | .missing => ⟨0, .missing⟩
  | .fault => ⟨0, .fault⟩
  | .found next =>
    if _ : last < next then ⟨0, .missing⟩
    else match l.entryAt file offset with
      | .missing => ⟨1, .missing⟩
      | .fault => ⟨1, .fault⟩
      | .found (tag, value) =>
        if tag = endTag then ⟨1, .missing⟩
        else if tag = sonameTag then ⟨1, .found value⟩
        else match _ : sum offset l.entryWidth with
          | .missing => ⟨1, .missing⟩
          | .fault => ⟨1, .fault⟩
          | .found offset' => (search l file last offset').afterOne
termination_by last - offset
decreasing_by
  have hpos := l.entryWidth_pos
  have hnext := le_of_checkedSum ‹_›
  have hsum := eq_of_sum ‹_›
  omega

/-- The text at an offset up to the next zero byte. -/
def terminated (file : Bytes) (offset : Nat) : Reading String := do
  let rest ← checkedSlice file offset file.length
  let stop ← .ofOption (rest.findIdx? (· = 0))
  .ofOption (Utf8.decode? (← slice rest 0 stop))

/-- Reads a file for its soname. -/
def readSoname (file : Bytes) : Reading String := do
  let l ← layout file
  let sections ← l.sections file
  let dynamic ← .ofOption (sections.find? (·.type = dynamicType))
  let strings ← .ofOption sections[dynamic.link]?
  let last ← checkedSum dynamic.offset dynamic.size
  let value ← (l.search file last dynamic.offset).ending
  terminated file (← checkedSum strings.offset value)

/-- The soname of a shared object. -/
def soname? (file : Bytes) : Option String := (readSoname file).toOption

end ImageLayer.Elf
