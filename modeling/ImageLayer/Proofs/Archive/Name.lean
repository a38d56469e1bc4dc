import ImageLayer.Archive.Member
import ImageLayer.Proofs.Archive.Reader
import ImageLayer.Proofs.Tree.Location
/-!
Paths in the name fields of a header.

A field for a name has room for a hundred bytes. A path is written into it piece by piece, and the first piece
that does not fit, or has a zero byte in it, is a fault that leaves the field half filled. Behind a fault the
writer puts the path in front of the member in full or gives up.

Sections:

* What a field holds. `Holds f c` says that a field has the bytes `c` at its front and zeros behind them.
  Writing a piece adds it to them (`put_holds`).
* Paths. By induction on the parts, a field that a path was written into without a fault holds the bytes
  `written p` (`putPath_holds`). These read the same as the path (`same_written`) and may differ from it as it
  was spelled: slashes side by side, and dots between them, are left out. The path of an entry has neither, and
  is held to the byte (`written_path`).
* After a fault the field has kept its length (`length_write`), whatever it holds: the header that is written
  behind the long name has its width.
* The name fields of a member. `pathField_ok` and `linkField_ok` are what the rest of the proofs about archives
  use: a name is in its field, or in front of the member in full, and the field has its width in either case.

Two rules are told apart. The path of a member may not start at the root and may not have a step up, and the
path in a link may. So the lemmas about the root and the dot in front of a path ask for the rule of links, or
for a path that has neither.
-/

namespace ImageLayer.Archive

/-- Text without a zero byte is read from in front of zeros. -/
theorem untilZero_append_replicate {bs : Bytes} (h : (0 : UInt8) ∉ bs) (k : Nat) :
    untilZero (bs ++ List.replicate k 0) = bs := by
  rw [untilZero, List.takeWhile_append_of_pos fun b hb => ?_]
  · cases k <;> simp [List.replicate_succ]
  · have : b ≠ 0 := fun hzero => h (hzero ▸ hb)
    simpa using this

end ImageLayer.Archive

namespace ImageLayer.MemberName

open Archive (untilZero)

/-! ## What a field holds -/

/-- A field that holds bytes and is zero behind them. -/
structure Holds (f : Field) (c : Bytes) : Prop where
  /-- The bytes of the field. -/
  bytes : f.bytes = c ++ List.replicate (capacity - c.length) 0
  /-- So many of them are taken. -/
  used : f.used = c.length
  /-- There is room. -/
  room : c.length ≤ capacity
  /-- None of them is zero. -/
  zeroFree : (0 : UInt8) ∉ c

theorem holds_blank : Holds ⟨List.replicate capacity 0, 0⟩ [] := ⟨rfl, rfl, Nat.zero_le _, by simp⟩

theorem Holds.length {f : Field} {c : Bytes} (h : Holds f c) : f.bytes.length = capacity := by
  rw [h.bytes, List.length_append, List.length_replicate]
  have := h.room
  omega

theorem Holds.untilZero {f : Field} {c : Bytes} (h : Holds f c) : untilZero f.bytes = c := by
  rw [h.bytes, Archive.untilZero_append_replicate h.zeroFree]

theorem exists_of_bind_eq_ok {α β : Type} {x : Fill α} {g : α → Fill β} {f f' : Field} {b : β}
    (h : (x >>= g) f = .ok b f') : ∃ a f₁, x f = .ok a f₁ ∧ g a f₁ = .ok b f' := by
  simp only [bind, EStateM.bind] at h
  cases hx : x f with
  | ok a f₁ => exact ⟨a, f₁, rfl, by simpa only [hx] using h⟩
  | error fault f₁ => simp [hx] at h

theorem put_eq (bs : Bytes) (f : Field) :
    put bs f =
      if f.bytes.length < f.used + bs.length then .error .tooLong f
      else if 0 ∈ bs then .error .zeroByte f
      else .ok () ⟨f.bytes.take f.used ++ bs ++ (if f.bytes.drop (f.used + bs.length) = [] then []
        else 0 :: (f.bytes.drop (f.used + bs.length)).drop 1), f.used + bs.length⟩ := by
  change (if f.bytes.length < f.used + bs.length then (throw .tooLong >>= _ : Fill Unit) else _) f = _
  by_cases hroom : f.bytes.length < f.used + bs.length
  · rw [if_pos hroom, if_pos hroom]
    rfl
  · rw [if_neg hroom, if_neg hroom]
    by_cases hzero : 0 ∈ bs
    · rw [if_pos (List.contains_iff_mem.2 hzero), if_pos hzero]
      rfl
    · rw [if_neg (fun h => hzero (List.contains_iff_mem.1 h)), if_neg hzero]
      rfl

theorem put_holds {f f' : Field} {c bs : Bytes} (hf : Holds f c) (h : put bs f = .ok () f') :
    Holds f' (c ++ bs) := by
  have hlength := hf.length
  rw [put_eq, hlength, hf.used] at h
  split at h
  · cases h
  · rename_i hroom
    split at h
    · cases h
    · rename_i hzero
      cases h
      have htake : f.bytes.take c.length = c := by rw [hf.bytes, List.take_left]
      -- Behind the contents there are zeros alone, of which the copy covers some.
      have hdrop : f.bytes.drop (c.length + bs.length)
          = List.replicate (capacity - (c ++ bs).length) 0 := by
        rw [hf.bytes, ← List.drop_drop, List.drop_left, List.drop_replicate, List.length_append]
        congr 1
        omega
      refine ⟨?_, by simp, by simpa using hroom, by simp [hf.zeroFree, hzero]⟩
      simp only [htake, hdrop]
      cases capacity - (c ++ bs).length <;> simp [List.replicate_succ]

/-! ## Paths -/

/-- The bytes that the lead of a path is written with. -/
def leadBytes : Lead → Bytes
  | .root => [0x2F]
  | .dot => [0x2E]
  | .plain => []

/-- The bytes that a path is written with: its lead, its parts and a slash at its end if it has one. -/
def written (p : Path) : Bytes :=
  leadBytes p.lead ++ Path.spelling (p.lead = .dot) p.parts ++
    (if p.bytes.getLast? = some 0x2F then [0x2F] else [])

theorem putLead_holds {rule : Rule} {p : Path} (hrule : rule = .link ∨ p.lead = .plain)
    {f f' : Field} {c : Bytes} {r : Bool × Bool} (hf : Holds f c)
    (h : putLead rule p f = .ok r f') :
    Holds f' (c ++ leadBytes p.lead) ∧ r = (decide (p.lead = .dot), decide (p.lead ≠ .plain)) := by
  unfold putLead at h
  cases hlead : p.lead with
  | plain =>
    simp only [hlead, pure, EStateM.pure] at h
    cases h
    exact ⟨by simpa [leadBytes] using hf, rfl⟩
  | root =>
    obtain rfl : rule = .link := by simpa [hlead] using hrule
    simp only [hlead, if_true] at h
    obtain ⟨u, f₁, hput, h⟩ := exists_of_bind_eq_ok h
    cases h
    exact ⟨put_holds hf hput, rfl⟩
  | dot =>
    obtain rfl : rule = .link := by simpa [hlead] using hrule
    simp only [hlead, decide_true, Bool.true_or, if_true] at h
    obtain ⟨u, f₁, hput, h⟩ := exists_of_bind_eq_ok h
    cases h
    exact ⟨put_holds hf hput, rfl⟩

theorem putParts_holds {rule : Rule} {slash : Bool} {parts : List Part} {f f' : Field} {c : Bytes}
    (hf : Holds f c) (h : putParts rule slash parts f = .ok () f') :
    Holds f' (c ++ Path.spelling slash parts) := by
  induction parts generalizing slash f c with
  | nil =>
    cases h
    simpa [Path.spelling] using hf
  | cons part rest ih =>
    -- No rule is broken where the parts were written, so only the bytes that they put count.
    have hput : (do
        if slash then put [0x2F]
        put part.bytes
        putParts rule true rest : Fill Unit) f = .ok () f' := by
      rw [putParts] at h
      split at h
      · cases h
      · exact h
    have hslash : ∃ f₁, Holds f₁ (c ++ if slash then [0x2F] else []) ∧
        (put part.bytes >>= fun _ => putParts rule true rest) f₁ = .ok () f' := by
      cases slash with
      | false => exact ⟨f, by simpa using hf, hput⟩
      | true =>
        obtain ⟨u, f₁, hfirst, hmore⟩ := exists_of_bind_eq_ok hput
        exact ⟨f₁, put_holds hf hfirst, hmore⟩
    obtain ⟨f₁, hf₁, hmore⟩ := hslash
    obtain ⟨u, f₂, hpart, hrest⟩ := exists_of_bind_eq_ok hmore
    have hall := ih (put_holds hf₁ hpart) hrest
    simpa only [Path.spelling, List.append_assoc] using hall

/-- A field that a path was written into without a fault holds the path. -/
theorem putPath_holds {rule : Rule} {p : Path} (hrule : rule = .link ∨ p.lead = .plain)
    {f f' : Field} (hf : Holds f []) (h : putPath rule p f = .ok () f') :
    Holds f' (written p) ∧ (p.lead = .plain → p.parts ≠ []) := by
  obtain ⟨r, f₁, hlead, h⟩ := exists_of_bind_eq_ok h
  obtain ⟨hf₁, rfl⟩ := putLead_holds hrule hf hlead
  obtain ⟨u, f₂, hparts, h⟩ := exists_of_bind_eq_ok h
  have hf₂ := putParts_holds hf₁ hparts
  rw [List.nil_append] at hf₂
  have hend : (p.lead = .plain → p.parts ≠ []) ∧
      (if p.bytes.getLast? = some 0x2F then put [0x2F] else pure () : Fill Unit) f₂ = .ok () f' := by
    by_cases hempty : (!decide (p.lead ≠ .plain) && p.parts.isEmpty) = true
    · simp only [if_pos hempty] at h
      cases h
    · simp only [if_neg hempty] at h
      exact ⟨by simpa using hempty, h⟩
  refine ⟨?_, hend.1⟩
  have hlast := hend.2
  unfold written
  split at hlast
  · rename_i hslash
    rw [if_pos hslash]
    exact put_holds hf₂ hlast
  · rename_i hslash
    cases hlast
    rw [if_neg hslash, List.append_nil]
    exact hf₂

/-- What is written reads the same as the path. -/
theorem same_written {p : Path} (h : p.lead = .plain → p.parts ≠ []) :
    (⟨written p⟩ : Path).same p := by
  have hspelled : ∀ q ∈ p.parts, q.Spelled := fun q => Path.spelled_of_mem_parts
  obtain ⟨e, he, hslashed⟩ : ∃ e : Bytes, (if p.bytes.getLast? = some 0x2F then [0x2F] else []) = e ∧
      (e = [] ∨ e = [0x2F]) := by
    refine ⟨_, rfl, ?_⟩
    split
    · exact Or.inr rfl
    · exact Or.inl rfl
  -- A slash at the end adds no part, and behind the lead it starts nothing but parts.
  have hend : ∀ a : Bytes, (⟨a ++ e⟩ : Path).parts = (⟨a⟩ : Path).parts := by
    intro a
    rcases hslashed with rfl | rfl
    · rw [List.append_nil]
    · rw [Path.parts_append_slash]
      exact List.append_nil _
  have hbehind : ∀ ps : List Part, Path.Slashed (Path.spelling true ps ++ e) := by
    intro ps
    rcases Path.slashed_spelling ps with hnil | ⟨rest, hrest⟩
    · rw [hnil]
      rcases hslashed with rfl | rfl
      · exact Or.inl rfl
      · exact Or.inr ⟨[], rfl⟩
    · exact Or.inr ⟨rest ++ e, by rw [hrest, List.cons_append]⟩
  rw [Path.same, Bool.and_eq_true, decide_eq_true_iff, decide_eq_true_iff, written, he, hend]
  cases hlead : p.lead with
  | root =>
    refine ⟨rfl, ?_⟩
    have := Path.parts_append_slash [] (Path.spelling false p.parts)
    rw [Path.parts_spelling p.parts hspelled] at this
    exact this
  | dot =>
    constructor
    · rw [List.append_assoc]
      exact Path.lead_append (by decide) (by decide) (hbehind p.parts)
    · exact Path.parts_append_spelling [0x2E] p.parts hspelled
  | plain =>
    constructor
    · cases hparts : p.parts with
      | nil => exact absurd hparts (h hlead)
      | cons q rest =>
        have hq : q.Spelled := hspelled q (by rw [hparts]; exact List.mem_cons_self ..)
        have hfirst := Path.lead_append (Part.slash_not_mem_bytes hq) (Part.bytes_ne_nil hq)
          (hbehind rest)
        rw [if_neg (Part.bytes_ne_dot hq)] at hfirst
        simpa [leadBytes, Path.spelling] using hfirst
    · exact Path.parts_spelling p.parts hspelled

/-- The path of an entry is written to the byte. -/
theorem written_path {l : Location} (hl : l.Proper) : written l.path = l.path.bytes := by
  have hlast := Path.getLast?_spelling_ne false l hl.spelled
  rw [← Location.bytes_path] at hlast
  rw [written, if_neg hlast, Location.lead_path hl.spelled, Location.parts_path hl.spelled,
    Location.bytes_path]
  simp [leadBytes]

/-! ## After a fault -/

/-- The field that a computation leaves, whether it succeeds or not. -/
def left {α : Type} (x : Fill α) (f : Field) : Field :=
  match x f with
  | .ok _ f' => f'
  | .error _ f' => f'

/-- A computation that leaves a field with as many bytes as it had. -/
def Keeps {α : Type} (x : Fill α) : Prop := ∀ f, (left x f).bytes.length = f.bytes.length

theorem keeps_pure {α : Type} (a : α) : Keeps (pure a) := fun _ => rfl

theorem keeps_throw {α : Type} (fault : MemberNameFault) : Keeps (throw fault : Fill α) := fun _ => rfl

theorem Keeps.bind {α β : Type} {x : Fill α} {g : α → Fill β} (hx : Keeps x) (hg : ∀ a, Keeps (g a)) :
    Keeps (x >>= g) := by
  intro f
  have hfirst := hx f
  unfold left at hfirst ⊢
  simp only [Bind.bind, EStateM.bind]
  cases hresult : x f with
  | ok a f₁ =>
    rw [hresult] at hfirst
    rw [← hfirst]
    exact hg a f₁
  | error fault f₁ =>
    rw [hresult] at hfirst
    exact hfirst

theorem keeps_put (bs : Bytes) : Keeps (put bs) := by
  intro f
  rw [left, put_eq]
  by_cases hroom : f.bytes.length < f.used + bs.length
  · rw [if_pos hroom]
  · by_cases hzero : 0 ∈ bs
    · rw [if_neg hroom, if_pos hzero]
    · rw [if_neg hroom, if_neg hzero]
      have hrest := List.length_drop (i := f.used + bs.length) (l := f.bytes)
      cases hmore : f.bytes.drop (f.used + bs.length) with
      | nil =>
        rw [hmore, List.length_nil] at hrest
        simp
        omega
      | cons b more =>
        rw [hmore, List.length_cons] at hrest
        simp
        omega

theorem keeps_putLead (rule : Rule) (p : Path) : Keeps (putLead rule p) := by
  unfold putLead
  cases p.lead with
  | plain => exact keeps_pure _
  | root =>
    simp only
    split
    · exact (keeps_put _).bind fun _ => keeps_pure _
    · exact keeps_throw _
  | dot =>
    simp only
    split
    · exact (keeps_put _).bind fun _ => keeps_pure _
    · exact keeps_pure _

theorem keeps_putParts (rule : Rule) (slash : Bool) (parts : List Part) :
    Keeps (putParts rule slash parts) := by
  induction parts generalizing slash with
  | nil => exact keeps_pure _
  | cons part rest ih =>
    have hpart : Keeps (put part.bytes >>= fun _ => putParts rule true rest) :=
      (keeps_put _).bind fun _ => ih true
    have hslash : Keeps (do
        if slash then put [0x2F]
        put part.bytes
        putParts rule true rest) := by
      cases slash with
      | false => exact hpart
      | true => exact (keeps_put _).bind fun _ => hpart
    rw [putParts]
    split
    · exact (keeps_throw _).bind fun _ => hslash
    · exact hslash

theorem keeps_putPath (rule : Rule) (p : Path) : Keeps (putPath rule p) := by
  refine (keeps_putLead rule p).bind fun r => ?_
  obtain ⟨slash, written⟩ := r
  refine (keeps_putParts rule slash p.parts).bind fun _ => ?_
  have hend : Keeps (if p.bytes.getLast? = some 0x2F then put [0x2F] else pure ()) := by
    split
    · exact keeps_put _
    · exact keeps_pure _
  by_cases hempty : (!written && p.parts.isEmpty) = true
  · simp only [if_pos hempty]
    exact (keeps_throw _).bind fun _ => hend
  · simp only [if_neg hempty]
    exact hend

theorem length_write (rule : Rule) (p : Path) (field : Bytes) :
    (write rule p field).1.length = field.length := by
  have hkeeps := keeps_putPath rule p ⟨field, 0⟩
  unfold left at hkeeps
  unfold write
  cases hresult : putPath rule p ⟨field, 0⟩ <;> simpa only [hresult] using hkeeps

/-- A path that was written into an empty field without a fault is in the field. -/
theorem write_holds {rule : Rule} {p : Path} (hrule : rule = .link ∨ p.lead = .plain) {field : Bytes}
    (h : write rule p (List.replicate capacity 0) = (field, none)) :
    untilZero field = written p ∧ (p.lead = .plain → p.parts ≠ []) := by
  unfold write at h
  cases hresult : putPath rule p ⟨List.replicate capacity 0, 0⟩ with
  | error fault f => simp [hresult] at h
  | ok u f =>
    obtain ⟨hholds, hparts⟩ := putPath_holds hrule holds_blank hresult
    simp only [hresult, Prod.mk.injEq, and_true] at h
    exact ⟨h ▸ hholds.untilZero, hparts⟩

end ImageLayer.MemberName

namespace ImageLayer.Archive

/-! ## The name fields of a member -/

/-- The path of an entry is in its field, or in front of the member in full. -/
theorem pathField_ok {l : Location} (hl : l.Proper) {front name : Bytes}
    (h : pathField l.path = (front, .ok name)) :
    name.length = MemberName.capacity ∧
      (front = [] ∧ untilZero name = l.path.bytes ∨ front = longName .longPath l.path.bytes) := by
  have hlength := MemberName.length_write .member l.path (List.replicate MemberName.capacity 0)
  rw [List.length_replicate] at hlength
  unfold pathField at h
  cases hwrite : MemberName.write .member l.path (List.replicate MemberName.capacity 0) with
  | mk field fault =>
    rw [hwrite] at hlength
    simp only [hwrite] at h
    cases fault with
    | none =>
      obtain ⟨rfl, hfield⟩ := Prod.mk.inj h
      obtain rfl := Except.ok.inj hfield
      have hholds := MemberName.write_holds (Or.inr (Location.lead_path hl.spelled)) hwrite
      exact ⟨hlength, Or.inl ⟨rfl, by rw [hholds.1, MemberName.written_path hl]⟩⟩
    -- Too long for the field: the name is in front, and the field holds a beginning of it.
    | some fault =>
      simp only at h
      split at h
      · cases h
      · have hlength' := MemberName.length_write .beginning
          ⟨Utf8.wellFormedPart (l.path.bytes.take MemberName.capacity)⟩ field
        rw [hlength] at hlength'
        cases hwrite' : MemberName.write .beginning
            ⟨Utf8.wellFormedPart (l.path.bytes.take MemberName.capacity)⟩ field with
        | mk field' fault' =>
          rw [hwrite'] at hlength'
          simp only [hwrite'] at h
          cases fault' with
          | some fault' => simp at h
          | none =>
            obtain ⟨rfl, hfield⟩ := Prod.mk.inj h
            obtain rfl := Except.ok.inj hfield
            exact ⟨hlength', Or.inr rfl⟩

/-- The path in a link is in its field, reading the same, or in front of the member in full. -/
theorem linkField_ok {p target : Path} {name front linkName : Bytes}
    (h : linkField p target name = (front, .ok linkName)) :
    linkName.length = MemberName.capacity ∧
      (front = [] ∧ (⟨untilZero linkName⟩ : Path).same target ∨
        front = longName .longLink target.bytes) := by
  have hlength := MemberName.length_write .link target (List.replicate MemberName.capacity 0)
  rw [List.length_replicate] at hlength
  unfold linkField at h
  cases hwrite : MemberName.write .link target (List.replicate MemberName.capacity 0) with
  | mk field fault =>
    rw [hwrite] at hlength
    simp only [hwrite] at h
    cases fault with
    | none =>
      obtain ⟨rfl, hfield⟩ := Prod.mk.inj h
      obtain rfl := Except.ok.inj hfield
      obtain ⟨hholds, hparts⟩ := MemberName.write_holds (Or.inl rfl) hwrite
      exact ⟨hlength, Or.inl ⟨rfl, by rw [hholds]; exact MemberName.same_written hparts⟩⟩
    | some fault =>
      simp only at h
      split at h
      · cases h
      · obtain ⟨rfl, hfield⟩ := Prod.mk.inj h
        obtain rfl := Except.ok.inj hfield
        exact ⟨hlength, Or.inr rfl⟩

end ImageLayer.Archive
