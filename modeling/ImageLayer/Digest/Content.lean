import ImageLayer.Digest.Sha256
import ImageLayer.Text.Blank
/-!
Digests as they are written: the name of the algorithm, a colon and the digits.
-/

namespace ImageLayer

/-- A digest under the name of its algorithm. -/
structure ContentDigest where
  /-- Name of the algorithm. -/
  algorithm : String
  /-- The digest in hexadecimal digits. -/
  hex : String
  deriving DecidableEq, Repr

namespace ContentDigest

/-- A SHA-256 digest with the given digits. -/
def sha256 (hex : String) : ContentDigest := ⟨"sha256", hex⟩

/-- The SHA-256 digest of a byte string. -/
def ofBytes (bs : Bytes) : ContentDigest := sha256 (Bytes.toHex (Digest.Sha256.digest bs))

/-- Reads a digest: the algorithm is what stands before the first colon, and SHA-256 where there
is no colon. -/
def parse (value : String) : ContentDigest :=
  match Text.splitFirst? ':' value.toList with
  | some (algorithm, hex) => ⟨String.ofList algorithm, String.ofList hex⟩
  | none => sha256 value

/-- The written form. -/
def text (d : ContentDigest) : String := d.algorithm ++ ":" ++ d.hex

end ContentDigest

end ImageLayer
