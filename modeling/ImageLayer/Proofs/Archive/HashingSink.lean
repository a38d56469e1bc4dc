import ImageLayer.Archive.HashingSink
/-!
What a hashing destination reports of the bytes that pass through it.

It stands in front of a destination that may take a part of what it is offered, or fail and take nothing.
`reports_taken`, the main statement, says two things of every sequence of pieces that is offered to it:

* It does not show. The destination behind it gets the same calls, gives the same answers and ends in the same
  state as it would by itself.
* Its digest and its count are those of the bytes that were taken, in the order they were taken, whatever the
  answers were. So the digest does not depend on how the bytes came in pieces.

How the proof goes: `Sink.taken` says from the answers alone what was taken of the pieces, and `Reports s bs`
says that hash and count are those of `bs`. One call adds to `bs` what was taken in it (`Reports.write`), which
is the step; calls in order follow by induction (`Reports.offer`).

The one thing asked of a destination is that it never says that it took more than it was offered
(`Sink.Bounded`). Without it the digest would be that of fewer bytes than the count says. Destinations with
limits, per call or in all, are bounded, and a hashing destination in front of a bounded one is bounded as well
(`bounded_write`): so one may stand in front of another, as `reports_taken_nested` has it.

The count is held at the greatest number of 64 bits and does not wrap around.
-/

namespace ImageLayer

namespace Sink

variable {σ : Type}

/-- It never says that it took more than it was offered. -/
def Bounded (sink : Sink σ) : Prop :=
  ∀ s bs n s', sink s bs = (.ok n, s') → n ≤ bs.length

/-- What was taken of the bytes offered, as the answer has it: so many from the front, or nothing. -/
def accepted : Except Failure Nat → Bytes → Bytes
  | .ok n, bs => bs.take n
  | .error _, _ => []

/-- What it holds, as `held` tells it, grows by what it says it took, and a failed call adds nothing. -/
def Appends (sink : Sink σ) (held : σ → Bytes) : Prop :=
  ∀ s bs, held (sink s bs).2 = held s ++ accepted (sink s bs).1 bs

/-- Offers pieces in order, whatever becomes of each: the answers, and the state after the last. -/
def offer (sink : Sink σ) : σ → List Bytes → List (Except Failure Nat) × σ
  | s, [] => ([], s)
  | s, piece :: pieces =>
    let (answer, s') := sink s piece
    let (answers, last) := offer sink s' pieces
    (answer :: answers, last)

/-- What was taken of pieces offered in order, as the answers have it. -/
def taken (answers : List (Except Failure Nat)) (pieces : List Bytes) : Bytes :=
  (List.zipWith accepted answers pieces).flatten

@[simp] theorem offer_nil (sink : Sink σ) (s : σ) : sink.offer s [] = ([], s) := rfl

@[simp] theorem offer_cons (sink : Sink σ) (s : σ) (piece : Bytes) (pieces : List Bytes) :
    sink.offer s (piece :: pieces) =
      ((sink s piece).1 :: (sink.offer (sink s piece).2 pieces).1, (sink.offer (sink s piece).2 pieces).2) := rfl

@[simp] theorem taken_nil : taken [] [] = [] := rfl

@[simp] theorem taken_cons (answer : Except Failure Nat) (answers : List (Except Failure Nat)) (piece : Bytes)
    (pieces : List Bytes) :
    taken (answer :: answers) (piece :: pieces) = accepted answer piece ++ taken answers pieces := rfl

/-- What is held after pieces were offered is what was held before, and what was taken of them. -/
theorem Appends.offer {sink : Sink σ} {held : σ → Bytes} (h : sink.Appends held) (s : σ)
    (pieces : List Bytes) :
    held (sink.offer s pieces).2 = held s ++ taken (sink.offer s pieces).1 pieces := by
  induction pieces generalizing s with
  | nil => simp
  | cons piece pieces ih => rw [offer_cons, taken_cons, ih, h, List.append_assoc]

end Sink

/-! ## Destinations with limits -/

theorem bounded_boundedSink (perCall total : Option Nat) : (boundedSink perCall total).Bounded := by
  intro s bs n s' h
  simp only [boundedSink] at h
  split at h
  · cases h
  · obtain ⟨hn, _⟩ := Prod.mk.inj h
    cases hn
    omega

theorem appends_boundedSink (perCall total : Option Nat) : (boundedSink perCall total).Appends id := by
  intro s bs
  simp only [boundedSink]
  split <;> simp [Sink.accepted]

namespace HashingSink

variable {σ : Type} {sink : Sink σ}

/-! ## It does not show -/

@[simp] theorem write_fst (sink : Sink σ) (s : HashingSink σ) (piece : Bytes) :
    (write sink s piece).1 = (sink s.inner piece).1 := by
  rw [write]
  split <;> rename_i h <;> rw [h]

@[simp] theorem write_inner (sink : Sink σ) (s : HashingSink σ) (piece : Bytes) :
    (write sink s piece).2.inner = (sink s.inner piece).2 := by
  rw [write]
  split <;> rename_i h <;> rw [h]

/-- The same answers are given, and the destination behind ends in the same state. -/
theorem offer_write (sink : Sink σ) (s : HashingSink σ) (pieces : List Bytes) :
    ((write sink).offer s pieces).1 = (sink.offer s.inner pieces).1 ∧
      ((write sink).offer s pieces).2.inner = (sink.offer s.inner pieces).2 := by
  induction pieces generalizing s with
  | nil => exact ⟨rfl, rfl⟩
  | cons piece pieces ih => simp [ih]

theorem bounded_write (hb : sink.Bounded) : (write sink).Bounded := by
  intro s bs n s' h
  refine hb s.inner bs n (sink s.inner bs).2 (Prod.ext ?_ rfl)
  rw [← write_fst, h]

theorem appends_write {held : σ → Bytes} (h : sink.Appends held) : (write sink).Appends fun s => held s.inner := by
  intro s bs
  show held (write sink s bs).2.inner = _
  rw [write_inner, write_fst]
  exact h s.inner bs

/-! ## What it reports -/

/-- Hash and count are those of the bytes `bs`. -/
structure Reports (s : HashingSink σ) (bs : Bytes) : Prop where
  /-- All of them were hashed, in order. -/
  hasher : s.hasher = Digest.Sha256.hash.update Digest.Sha256.hash.begin bs
  /-- All of them were counted, as far as it counts. -/
  count : s.count = min maxCount bs.length

theorem reports_new (inner : σ) : (new inner).Reports [] := ⟨rfl, rfl⟩

theorem Reports.digest {s : HashingSink σ} {bs : Bytes} (h : s.Reports bs) : s.digest = .ofBytes bs := by
  rw [HashingSink.digest, h.hasher]
  rfl

/-- One call adds what was taken in it. -/
theorem Reports.write {s : HashingSink σ} {bs : Bytes} (hb : sink.Bounded) (h : s.Reports bs) (piece : Bytes) :
    (write sink s piece).2.Reports (bs ++ Sink.accepted (sink s.inner piece).1 piece) := by
  rw [HashingSink.write]
  split
  · rename_i n inner heq
    have hn : n ≤ piece.length := hb _ _ _ _ heq
    rw [heq]
    refine ⟨?_, ?_⟩
    · rw [h.hasher, Sink.accepted, Digest.BlockHash.update_append]
    -- a count that has reached its end stays there
    · simp only [h.count, Sink.accepted, List.length_append, List.length_take]
      omega
  · rename_i e inner heq
    rw [heq, Sink.accepted, List.append_nil]
    exact ⟨h.hasher, h.count⟩

/-- Calls in order add what was taken in them. -/
theorem Reports.offer {s : HashingSink σ} {bs : Bytes} (hb : sink.Bounded) (h : s.Reports bs)
    (pieces : List Bytes) :
    ((HashingSink.write sink).offer s pieces).2.Reports
      (bs ++ Sink.taken (sink.offer s.inner pieces).1 pieces) := by
  induction pieces generalizing s bs with
  | nil => simpa using h
  | cons piece pieces ih =>
    have := ih (h.write hb piece)
    rw [write_inner] at this
    simpa [List.append_assoc] using this

/-- A new hashing destination in front of `inner`, after pieces were offered to it. -/
def after (sink : Sink σ) (inner : σ) (pieces : List Bytes) : HashingSink σ :=
  ((write sink).offer (new inner) pieces).2

theorem reports_after (hb : sink.Bounded) (inner : σ) (pieces : List Bytes) :
    (after sink inner pieces).Reports (Sink.taken (sink.offer inner pieces).1 pieces) :=
  (reports_new inner).offer hb pieces

/-- The destination behind gets the calls and gives the answers that it would without a hashing one in front. The
digest is that of the bytes which those answers say were taken, and the count is their number, up to the greatest.
Where the destination behind holds what it took, those bytes are what it holds beyond what it held before, and any
other one that comes to hold the same, from whatever pieces and with whatever failures, has the same digest. -/
theorem reports_taken (hb : sink.Bounded) (inner : σ) (pieces : List Bytes) :
    ((write sink).offer (new inner) pieces).1 = (sink.offer inner pieces).1 ∧
    (after sink inner pieces).inner = (sink.offer inner pieces).2 ∧
    (after sink inner pieces).digest = .ofBytes (Sink.taken (sink.offer inner pieces).1 pieces) ∧
    (after sink inner pieces).count = min maxCount (Sink.taken (sink.offer inner pieces).1 pieces).length ∧
    ∀ held : σ → Bytes, sink.Appends held →
      held (after sink inner pieces).inner = held inner ++ Sink.taken (sink.offer inner pieces).1 pieces ∧
      ∀ (τ : Type) (other : Sink τ) (held' : τ → Bytes) (inner' : τ) (pieces' : List Bytes),
        other.Bounded → other.Appends held' → held' inner' = held inner →
        held' (after other inner' pieces').inner = held (after sink inner pieces).inner →
        (after other inner' pieces').digest = (after sink inner pieces).digest := by
  have hheld {τ : Type} {other : Sink τ} {held' : τ → Bytes} (happ : other.Appends held') (inner' : τ)
      (pieces' : List Bytes) : held' (after other inner' pieces').inner =
        held' inner' ++ Sink.taken (other.offer inner' pieces').1 pieces' := by
    rw [after, (offer_write ..).2]
    exact happ.offer inner' pieces'
  refine ⟨(offer_write ..).1, (offer_write ..).2, (reports_after hb inner pieces).digest,
    (reports_after hb inner pieces).count, fun held happ => ⟨hheld happ inner pieces, ?_⟩⟩
  intro τ other held' inner' pieces' hb' happ' hstart hend
  rw [hheld happ' inner' pieces', hheld happ inner pieces, hstart] at hend
  rw [(reports_after hb' inner' pieces').digest, (reports_after hb inner pieces).digest,
    List.append_cancel_left hend]

/-- Two in a row, in front of a destination that takes at most three bytes at a time and seven in all, and one in
front of a destination without limits. -/
theorem reports_taken_nested :
    let short := write (boundedSink (some 3) (some 7))
    let pieces : List Bytes := [[1, 2, 3, 4, 5], [4, 5], [6, 7, 8], [8]]
    short.Bounded ∧
    (short.offer (new []) pieces).1 = [.ok 3, .ok 2, .ok 2, .error (.described "full")] ∧
    (after short (new []) pieces).digest = .ofBytes [1, 2, 3, 4, 5, 6, 7] ∧
    (after short (new []) pieces).count = 7 ∧
    (after (boundedSink none none) [] [[1, 2], [], [3, 4, 5, 6, 7]]).digest
      = (after short (new []) pieces).digest := by
  intro short pieces
  have hb : short.Bounded := bounded_write (bounded_boundedSink _ _)
  obtain ⟨_, _, hdigest, hcount, hheld⟩ := reports_taken hb (new []) pieces
  refine ⟨hb, rfl, hdigest, hcount, ?_⟩
  exact (hheld (fun s => s.inner) (appends_write (appends_boundedSink _ _))).2 Bytes (boundedSink none none) id []
    [[1, 2], [], [3, 4, 5, 6, 7]] (bounded_boundedSink _ _) (appends_boundedSink _ _) rfl rfl

end HashingSink

end ImageLayer
