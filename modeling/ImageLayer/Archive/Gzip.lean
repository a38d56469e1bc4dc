import ImageLayer.Digest.Crc32
/-!
Ways to compress, and one of them.

A build compresses the archive of a layer and does not care how, as long as nothing is lost: a
`Compressor` makes a file of contents and reads the contents back from the file. The shape of the file
and its size are up to the compressor, and with them the digest of the layer.

`Gzip.stored` is a compressor that writes the gzip container: a header without name and date, the contents
in blocks that are stored as they are, and the check and the length of the contents. It makes no file
shorter, but every reader of such containers understands what it writes.

Reading is the other direction, block by block up to the one that says it is the last
(`Gzip.readBlocks?`). That it gives back what was written follows the blocks: each has its length in it
twice, once as it is and once as what is missing to the greatest, so that the reader knows where the next
begins (`Gzip.readBlocks?_block`), and the number of blocks is enough to hold all of the contents
(`Gzip.readBlocks?_blocks`).
-/

namespace ImageLayer

/-- A way to compress. -/
structure Compressor where
  /-- The file that holds the given contents. -/
  compress : Bytes → Bytes
  /-- The contents that a file holds, if it is such a file. -/
  expand? : Bytes → Option Bytes
  /-- Nothing is lost. -/
  expand?_compress : ∀ contents, expand? (compress contents) = some contents

namespace Gzip

/-! ## Writing -/

/-- The header. -/
def header : Bytes := [0x1f, 0x8b, 0x08, 0, 0, 0, 0, 0, 0, 0xff]

/-- The greatest number of bytes in a block. -/
def blockSize : Nat := 65535

/-- One stored block. -/
def block (last : Bool) (bs : Bytes) : Bytes :=
  (if last then 1 else 0) :: Bytes.ofLittleEndian 2 bs.length ++
    Bytes.ofLittleEndian 2 (blockSize - bs.length) ++ bs

/-- Contents in at most `more + 1` blocks, of which all but the last are full. -/
def blocks : (more : Nat) → Bytes → Bytes
  | 0, bs => block true bs
  | more + 1, bs => block false (bs.take blockSize) ++ blocks more (bs.drop blockSize)

/-- The check and the length of contents. -/
def trailer (contents : Bytes) : Bytes :=
  Bytes.ofLittleEndian 4 (Digest.Crc32.check contents).toNat ++
    Bytes.ofLittleEndian 4 contents.length

/-- The container with given contents. -/
def compress (contents : Bytes) : Bytes :=
  header ++ (blocks ((contents.length - 1) / blockSize) contents ++ trailer contents)

/-! ## Reading -/

/-- The contents of the blocks that a byte string starts with, and what follows the last of them. -/
def readBlocks? (bs : Bytes) : Option (Bytes × Bytes) :=
  match bs with
  | flag :: a :: b :: c :: d :: rest =>
    let n := Bytes.littleEndian [a, b]
    if n + Bytes.littleEndian [c, d] = blockSize ∧ n ≤ rest.length then
      if flag = 1 then some (rest.take n, rest.drop n)
      else if flag = 0 then
        (readBlocks? (rest.drop n)).map fun (more, tail) => (rest.take n ++ more, tail)
      else none
    else none
  | _ => none
termination_by bs.length

/-- The contents of a container whose check and length are right. -/
def expand? (file : Bytes) : Option Bytes :=
  if header.isPrefixOf file then
    match readBlocks? (file.drop header.length) with
    | some (contents, tail) => if tail = trailer contents then some contents else none
    | none => none
  else none

/-! ## What was written is read -/

theorem littleEndian_two {n : Nat} (h : n ≤ blockSize) :
    Bytes.littleEndian [UInt8.ofNat (n % 256), UInt8.ofNat (n / 256 % 256)] = n := by
  simp only [blockSize] at h
  simp only [Bytes.littleEndian, List.foldr_cons, List.foldr_nil, UInt8.toNat_ofNat']
  omega

/-- The reader takes a block for what it is, whatever follows. -/
theorem readBlocks?_block (last : Bool) {bs : Bytes} (h : bs.length ≤ blockSize) (rest : Bytes) :
    readBlocks? (block last bs ++ rest) =
      if last then some (bs, rest)
      else (readBlocks? rest).map fun (more, tail) => (bs ++ more, tail) := by
  have hlength := littleEndian_two h
  have hmissing := littleEndian_two (Nat.sub_le blockSize bs.length)
  simp only [block, Bytes.ofLittleEndian, List.cons_append, List.nil_append]
  rw [readBlocks?]
  simp only [hlength, hmissing]
  rw [if_pos ⟨Nat.add_sub_cancel' h, by simp⟩]
  cases last <;> simp

theorem readBlocks?_blocks {more : Nat} {contents : Bytes} (h : contents.length ≤ (more + 1) * blockSize)
    (rest : Bytes) : readBlocks? (blocks more contents ++ rest) = some (contents, rest) := by
  induction more generalizing contents with
  | zero =>
    rw [blocks, readBlocks?_block true (by omega)]
    rfl
  | succ more ih =>
    have hdrop : (contents.drop blockSize).length ≤ (more + 1) * blockSize := by
      rw [List.length_drop]
      have hmul : (more + 1 + 1) * blockSize = (more + 1) * blockSize + blockSize := Nat.succ_mul _ _
      omega
    rw [blocks, List.append_assoc, readBlocks?_block false (by rw [List.length_take]; omega), ih hdrop]
    simp

theorem expand?_compress (contents : Bytes) : expand? (compress contents) = some contents := by
  have hblocks : contents.length ≤ ((contents.length - 1) / blockSize + 1) * blockSize := by
    simp only [blockSize]
    omega
  have hheader : header.isPrefixOf (compress contents) := by
    rw [List.isPrefixOf_iff_prefix]
    exact List.prefix_append header _
  rw [expand?, if_pos hheader, compress, List.drop_left, readBlocks?_blocks hblocks]
  exact if_pos rfl

/-- The compressor that stores. -/
def stored : Compressor := ⟨compress, expand?, expand?_compress⟩

end Gzip

end ImageLayer
