import ImageLayer.Bytes
/-!
What SHA-1 and SHA-256 have in common: a message is taken byte by byte into blocks of sixty-four, each full
block changes a chaining value, and the end of the message is padded with one set bit, zeros and the message
length in bits.

A hash is given by its compression function (`BlockHash`); `Hasher` is the state between two bytes. Feeding a
message in pieces or at once leads to the same state (`BlockHash.update_append`), since either way the bytes are
fed singly. So what is hashed on the way to a destination does not depend on how much of it passes at a time.
-/

namespace ImageLayer.Digest

/-- A hash built on blocks of sixty-four bytes. -/
structure BlockHash where
  /-- The chaining value before any block. -/
  initial : List UInt32
  /-- The chaining value after a block. -/
  compress : List UInt32 → Bytes → List UInt32

/-- The state of a hash after some bytes. -/
structure Hasher where
  /-- The chaining value after the full blocks. -/
  chain : List UInt32
  /-- The bytes after the last full block, in order. -/
  pending : Bytes
  /-- How many bytes were taken. -/
  count : Nat
  deriving DecidableEq, Repr

namespace BlockHash

variable (h : BlockHash)

/-- The state before any byte. -/
def begin : Hasher := ⟨h.initial, [], 0⟩

/-- Takes one byte. -/
def feed (s : Hasher) (b : UInt8) : Hasher :=
  let pending := s.pending ++ [b]
  if pending.length = 64 then ⟨h.compress s.chain pending, [], s.count + 1⟩
  else ⟨s.chain, pending, s.count + 1⟩

/-- Takes a piece of the message. -/
def update (s : Hasher) (bs : Bytes) : Hasher := bs.foldl h.feed s

/-- The bytes added after a message of `n` bytes: a set bit, zeros up to eight bytes short of a
full block, and the length in bits. -/
def padding (n : Nat) : Bytes :=
  0x80 :: List.replicate ((119 - n % 64) % 64) 0 ++ Bytes.ofBigEndian 8 (8 * n)

/-- The digest of all bytes taken. -/
def finish (s : Hasher) : Bytes :=
  (h.update s (padding s.count)).chain.flatMap fun w => Bytes.ofBigEndian 4 w.toNat

/-- The digest of a message. -/
def digest (message : Bytes) : Bytes := h.finish (h.update h.begin message)

theorem update_append (s : Hasher) (a b : Bytes) :
    h.update s (a ++ b) = h.update (h.update s a) b := List.foldl_append ..

end BlockHash

/-- A word turned left by `n` bits. -/
def rotateLeft (w : UInt32) (n : UInt32) : UInt32 := (w <<< n) ||| (w >>> (32 - n))

/-- A word turned right by `n` bits. -/
def rotateRight (w : UInt32) (n : UInt32) : UInt32 := (w >>> n) ||| (w <<< (32 - n))

/-- The words of a block, each of four bytes, most significant first. -/
def words : Bytes → List UInt32
  | a :: b :: c :: d :: rest => UInt32.ofNat (Bytes.bigEndian [a, b, c, d]) :: words rest
  | _ => []

end ImageLayer.Digest
