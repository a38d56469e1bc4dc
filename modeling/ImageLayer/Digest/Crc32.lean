import ImageLayer.Bytes
/-!
The cyclic redundancy check of thirty-two bits that ends a gzip member.
-/

namespace ImageLayer.Digest.Crc32

/-- Divides the register by the reversed polynomial for `n` bits. -/
def shift : (n : Nat) → UInt32 → UInt32
  | 0, r => r
  | n + 1, r => shift n (if r &&& 1 = 1 then (r >>> 1) ^^^ 0xedb88320 else r >>> 1)

/-- Takes one byte into the register. -/
def feed (r : UInt32) (b : UInt8) : UInt32 := shift 8 (r ^^^ b.toUInt32)

/-- The check of a byte string. -/
def check (bs : Bytes) : UInt32 := ~~~ bs.foldl feed 0xffffffff

end ImageLayer.Digest.Crc32
