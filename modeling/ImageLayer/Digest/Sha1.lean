import ImageLayer.Digest.Block
/-!
The hash SHA-1, and the identifiers that name a text by it.
-/

namespace ImageLayer.Digest.Sha1

/-- The chaining value before any block. -/
def initial : List UInt32 := [0x67452301, 0xefcdab89, 0x98badcfe, 0x10325476, 0xc3d2e1f0]

/-- Sixteen consecutive words of the message schedule give the next one. -/
def nextWord : List UInt32 → UInt32
  | [w0, _, w2, _, _, _, _, _, w8, _, _, _, _, w13, _, _] => rotateLeft (w13 ^^^ w8 ^^^ w2 ^^^ w0) 1
  | _ => 0

/-- The function of three words and the constant of round `t`. -/
def mix (t : Nat) (b c d : UInt32) : UInt32 × UInt32 :=
  if t < 20 then ((b &&& c) ||| ((~~~b) &&& d), 0x5a827999)
  else if t < 40 then (b ^^^ c ^^^ d, 0x6ed9eba1)
  else if t < 60 then ((b &&& c) ||| (b &&& d) ||| (c &&& d), 0x8f1bbcdc)
  else (b ^^^ c ^^^ d, 0xca62c1d6)

/-- Round `t` on the five working words. -/
def round (t : Nat) (w : UInt32) : List UInt32 → List UInt32
  | [a, b, c, d, e] =>
    let (f, k) := mix t b c d
    [rotateLeft a 5 + f + e + k + w, a, rotateLeft b 30, c, d]
  | state => state

/-- Runs the last `left` of eighty rounds; `window` holds the next sixteen words of the
schedule. -/
def rounds : (left : Nat) → (window state : List UInt32) → List UInt32
  | 0, _, state => state
  | _, [], state => state
  | left + 1, w :: ws, state =>
    rounds left (ws ++ [nextWord (w :: ws)]) (round (79 - left) w state)

/-- The compression function. -/
def compress (chain : List UInt32) (block : Bytes) : List UInt32 :=
  List.zipWith (· + ·) chain (rounds 80 (words block) chain)

/-- The digest of a message. -/
def digest (message : Bytes) : Bytes := (⟨initial, compress⟩ : BlockHash).digest message

end ImageLayer.Digest.Sha1

namespace ImageLayer.Digest

/-- The sixteen bytes that name the name space of locators (RFC 4122, appendix C). -/
def locatorSpace : Bytes :=
  [0x6b, 0xa7, 0xb8, 0x11, 0x9d, 0xad, 0x11, 0xd1, 0x80, 0xb4, 0x00, 0xc0, 0x4f, 0xd4, 0x30, 0xc8]

/-- A universally unique identifier of version five: the SHA-1 digest of a name space and a name,
cut to sixteen bytes, with the version and the variant written into it. -/
def nameIdentifier (space name : Bytes) : String :=
  let bytes := (Sha1.digest (space ++ name)).take 16
  let bytes := bytes.modify 6 fun b => (b &&& 0x0f) ||| 0x50
  let bytes := bytes.modify 8 fun b => (b &&& 0x3f) ||| 0x80
  let group := fun (from_ width : Nat) => Bytes.toHex ((bytes.drop from_).take width)
  "-".intercalate [group 0 4, group 4 2, group 6 2, group 8 2, group 10 6]

end ImageLayer.Digest
