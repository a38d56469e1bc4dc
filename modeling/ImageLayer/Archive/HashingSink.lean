import ImageLayer.Digest.Content
import ImageLayer.Failure
/-!
Destinations for bytes, and one that hashes what passes through it.

A destination may take fewer bytes than it is offered, or none and fail (`Sink`). How many it takes, and when it
stops, is its own affair. So whoever writes has to offer again what was not taken, and what was written is known
from the answers only.

A hashing destination stands in front of another one and counts and hashes exactly the bytes that were taken,
not those that were offered. It is a destination itself, so that several can stand in front of each other. The
count stops at the greatest number that it can hold (`maxCount`).

`boundedSink` is a destination with limits on how much it takes at a time and in all. With it anything that may
happen between the two can be brought about.
-/

namespace ImageLayer

/-- A destination for bytes with states `σ`. Offered some bytes, it says how many of them it took from
the front, or why it took none. -/
abbrev Sink (σ : Type) := σ → Bytes → Except Failure Nat × σ

/-- The greatest count. -/
def maxCount : Nat := 0xFFFFFFFFFFFFFFFF

/-- A hashing destination in front of one with states `σ`. -/
structure HashingSink (σ : Type) where
  /-- The state of the destination behind it. -/
  inner : σ
  /-- The hash of the bytes taken. -/
  hasher : Digest.Hasher
  /-- The number of bytes taken, as far as it can be counted. -/
  count : Nat

namespace HashingSink

variable {σ : Type}

/-- A hashing destination before any byte. -/
def new (inner : σ) : HashingSink σ := ⟨inner, Digest.Sha256.hash.begin, 0⟩

/-- Offers bytes to the destination behind; hashes and counts those that it takes. -/
def write (sink : Sink σ) : Sink (HashingSink σ) := fun s bs =>
  match sink s.inner bs with
  | (.ok n, inner) =>
    (.ok n, ⟨inner, Digest.Sha256.hash.update s.hasher (bs.take n), min maxCount (s.count + n)⟩)
  | (.error e, inner) => (.error e, { s with inner := inner })

/-- The digest of the bytes taken. -/
def digest (s : HashingSink σ) : ContentDigest :=
  .sha256 (Bytes.toHex (Digest.Sha256.hash.finish s.hasher))

end HashingSink

/-- A destination that keeps what it takes: at most `perCall` bytes at a time, and at most `total` in
all, after which it fails. No limit is `none`. -/
def boundedSink (perCall total : Option Nat) : Sink Bytes := fun taken bs =>
  let room := (total.map (· - taken.length)).getD bs.length
  if total.any (· ≤ taken.length) then (.error (.described "full"), taken)
  else
    let n := min (min bs.length (perCall.getD bs.length)) room
    (.ok n, taken ++ bs.take n)

end ImageLayer
