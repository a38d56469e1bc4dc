import ImageLayer.Tree.Path
import ImageLayer.Proofs.Text.Lines
/-!
Names, parts and locations as paths spell them out.

A path is a text of bytes, which is read into parts: steps up, and names. A location is a list of parts as well,
the one from the root to an entry. This module says how the two ways of writing go together. It is what makes it
possible to speak of "the path of an entry", which operations do when they keep the source of a hard link as a
path.

Sections:

* Proper names. Reading a path yields steps up and proper names, and nothing else (`spelled_of_mem_parts`), so
  that these are the ones that a location can have.
* Parts of a path. A path that is continued by a relative one has the parts of both (`parts_join`), and parts
  that were written down are read back (`parts_spelling`).
* Beginnings and ends of paths: with what a written path starts, and that it does not end in a slash. This is
  needed where paths become names of members in an archive.
* Locations. A location of proper names is written as a path that reads back as the location (`location?_path`).
* The order of locations. A directory stands directly in front of what is below it (`compare_append`), and all
  that is below a name stands in front of later names (`compare_of_prefix`).

Steps up are spelled like names but do not stand in locations. So there are two predicates on parts:
`Part.Spelled` for what a path can contain and `Part.Proper` for what a location can.
-/

namespace ImageLayer

/-! ## Proper names -/

/-- A name that a path can spell out: it says something, is none of the two dots and has no slash. -/
def Name.Proper (n : Name) : Prop := n ≠ [] ∧ n ≠ [0x2E] ∧ n ≠ [0x2E, 0x2E] ∧ (0x2F : UInt8) ∉ n

instance (n : Name) : Decidable n.Proper := inferInstanceAs (Decidable (_ ∧ _ ∧ _ ∧ _))

namespace Part

/-- A part that a path can spell out. -/
def Spelled : Part → Prop
  | .up => True
  | .name n => Name.Proper n

/-- A part that stands in the locations of entries. -/
def Proper : Part → Prop
  | .up => False
  | .name n => Name.Proper n

instance : DecidablePred Proper
  | .up => isFalse id
  | .name n => inferInstanceAs (Decidable n.Proper)

theorem Proper.spelled : ∀ {p : Part}, p.Proper → p.Spelled
  | .name _, h => h

theorem spelled_of_ofPiece? {piece : Bytes} {p : Part} (hs : (0x2F : UInt8) ∉ piece)
    (h : ofPiece? piece = some p) : p.Spelled := by
  unfold ofPiece? at h
  split at h
  · cases h
  · rename_i hdot
    split at h
    · cases h
      trivial
    · rename_i hup
      cases h
      exact ⟨fun he => hdot (Or.inl he), fun he => hdot (Or.inr he), hup, hs⟩

theorem ofPiece?_bytes {p : Part} (h : p.Spelled) : ofPiece? p.bytes = some p := by
  cases p with
  | up => rfl
  | name n =>
    obtain ⟨hnil, hdot, hup, -⟩ := h
    change ofPiece? n = some (.name n)
    rw [ofPiece?, if_neg (by simp [hnil, hdot]), if_neg hup]

theorem slash_not_mem_bytes {p : Part} (h : p.Spelled) : (0x2F : UInt8) ∉ p.bytes := by
  cases p with
  | up => decide
  | name n => exact h.2.2.2

theorem bytes_ne_nil {p : Part} (h : p.Spelled) : p.bytes ≠ [] := by
  cases p with
  | up => decide
  | name n => exact h.1

theorem bytes_ne_dot {p : Part} (h : p.Spelled) : p.bytes ≠ [0x2E] := by
  cases p with
  | up => decide
  | name n => exact h.2.1

end Part

/-! ## Parts of a path -/

namespace Path

theorem spelled_of_mem_parts {path : Path} {p : Part} (h : p ∈ path.parts) : p.Spelled := by
  obtain ⟨piece, hpiece, hp⟩ := List.mem_filterMap.1 h
  exact Part.spelled_of_ofPiece? (Text.not_mem_of_mem_splitAt hpiece) hp

theorem parts_append_slash (a b : Bytes) :
    (⟨a ++ 0x2F :: b⟩ : Path).parts = (⟨a⟩ : Path).parts ++ (⟨b⟩ : Path).parts := by
  simp [parts, pieces, Text.splitAt_append_sep]

/-- A path that is continued by a relative one has the parts of both. -/
theorem parts_join (p : Path) {q : Path} (hq : q.isAbsolute = false) :
    (p.join q).parts = p.parts ++ q.parts := by
  obtain ⟨bytes⟩ := p
  rw [join, hq, if_neg Bool.false_ne_true]
  split
  · rename_i hend
    rcases hend with rfl | hslash
    · rfl
    · -- The slash that the path ends in is the one between the two.
      obtain ⟨before, rfl⟩ := List.getLast?_eq_some_iff.1 hslash
      have hfirst := parts_append_slash before []
      have hboth := parts_append_slash before q.bytes
      rw [List.append_assoc, List.singleton_append, hboth, hfirst]
      simp [parts, pieces, Text.splitAt, Part.ofPiece?]
  · exact parts_append_slash bytes q.bytes

theorem parts_bytes {p : Part} (h : p.Spelled) : (⟨p.bytes⟩ : Path).parts = [p] := by
  simp [parts, pieces, Text.splitAt_of_not_mem (Part.slash_not_mem_bytes h), Part.ofPiece?_bytes h]

/-- A name read as a path is relative. -/
theorem isAbsolute_name {n : Name} (hn : n.Proper) : (⟨n⟩ : Path).isAbsolute = false :=
  decide_eq_false fun hslash => hn.2.2.2 (List.mem_of_mem_head? hslash)

/-- A name read as a path has this one part. -/
theorem parts_name {n : Name} (hn : n.Proper) : (⟨n⟩ : Path).parts = [.name n] :=
  parts_bytes (p := .name n) hn

/-- A path that is continued by a name. -/
theorem parts_join_name (p : Path) {n : Name} (hn : n.Proper) : (p.join ⟨n⟩).parts = p.parts ++ [.name n] := by
  rw [parts_join p (isAbsolute_name hn), parts_name hn]

/-- Parts written one behind the other, a slash in front of each; in front of the first only if
asked for. -/
def spelling : (slash : Bool) → List Part → Bytes
  | _, [] => []
  | slash, p :: rest => (if slash then [0x2F] else []) ++ p.bytes ++ spelling true rest

theorem parts_append_spelling (a : Bytes) (ps : List Part) (h : ∀ p ∈ ps, p.Spelled) :
    (⟨a ++ spelling true ps⟩ : Path).parts = (⟨a⟩ : Path).parts ++ ps := by
  induction ps generalizing a with
  | nil => simp [spelling]
  | cons p rest ih =>
    have hp : p.Spelled := h p (List.mem_cons_self ..)
    have hrest := ih (a ++ 0x2F :: p.bytes) fun q hq => h q (List.mem_cons_of_mem _ hq)
    rw [parts_append_slash, parts_bytes hp] at hrest
    simpa [spelling] using hrest

theorem parts_spelling (ps : List Part) (h : ∀ p ∈ ps, p.Spelled) :
    (⟨spelling false ps⟩ : Path).parts = ps := by
  cases ps with
  | nil => rfl
  | cons p rest =>
    have hp : p.Spelled := h p (List.mem_cons_self ..)
    have hrest := parts_append_spelling p.bytes rest fun q hq => h q (List.mem_cons_of_mem _ hq)
    rw [parts_bytes hp] at hrest
    simpa [spelling] using hrest

theorem parts_of_location? {p : Path} {l : Location} (h : p.location? = some l) : p.parts = l := by
  unfold location? at h
  split at h
  · exact Option.some.inj h
  · cases h

/-! ## Beginnings and ends of paths -/

/-- Nothing, or bytes behind a slash. -/
def Slashed (bs : Bytes) : Prop := bs = [] ∨ ∃ rest, bs = 0x2F :: rest

theorem slashed_spelling (ps : List Part) : Slashed (spelling true ps) := by
  cases ps with
  | nil => exact Or.inl rfl
  | cons p rest => exact Or.inr ⟨p.bytes ++ spelling true rest, by simp [spelling]⟩

/-- A path with something in front of its first slash starts with that. -/
theorem lead_append {a b : Bytes} (ha : (0x2F : UInt8) ∉ a) (hne : a ≠ []) (hb : Slashed b) :
    (⟨a ++ b⟩ : Path).lead = if a = [0x2E] then .dot else .plain := by
  have habs : (⟨a ++ b⟩ : Path).isAbsolute = false := by
    cases a with
    | nil => exact absurd rfl hne
    | cons c rest =>
      rw [List.mem_cons, not_or] at ha
      simp [isAbsolute, Ne.symm ha.1]
  have hfirst : (⟨a ++ b⟩ : Path).pieces.head? = some a := by
    rcases hb with rfl | ⟨rest, rfl⟩
    · simp [pieces, Text.splitAt_of_not_mem ha]
    · simp [pieces, Text.splitAt_append_sep, Text.splitAt_of_not_mem ha]
  rw [lead, habs, hfirst]
  simp

theorem getLast?_spelling_ne (slash : Bool) (ps : List Part) (h : ∀ p ∈ ps, p.Spelled) :
    (spelling slash ps).getLast? ≠ some 0x2F := by
  induction ps generalizing slash with
  | nil => simp [spelling]
  | cons p rest ih =>
    have hp : p.Spelled := h p (List.mem_cons_self ..)
    have hlast : p.bytes.getLast? ≠ some 0x2F :=
      fun hslash => Part.slash_not_mem_bytes hp (List.mem_of_getLast? hslash)
    have hrest := ih true fun q hq => h q (List.mem_cons_of_mem _ hq)
    rw [spelling, List.getLast?_append, List.getLast?_append]
    cases hmore : (spelling true rest).getLast? with
    | some b => simpa [hmore] using hrest
    | none =>
      cases hbytes : p.bytes.getLast? with
      | some b => simpa [hbytes] using hlast
      | none => exact absurd (List.getLast?_eq_none_iff.1 hbytes) (Part.bytes_ne_nil hp)

end Path

/-! ## Locations -/

namespace Location

/-- A location that an entry can have: nothing but proper names lead to it. -/
def Proper (l : Location) : Prop := ∀ p ∈ l, p.Proper

instance : DecidablePred Proper := fun l => inferInstanceAs (Decidable (∀ p ∈ l, p.Proper))

theorem proper_nil : Proper [] := by simp [Proper]

theorem Proper.spelled {l : Location} (h : l.Proper) : ∀ p ∈ l, p.Spelled :=
  fun p hp => (h p hp).spelled

theorem Proper.dropLast {l : Location} (h : l.Proper) : Proper l.dropLast :=
  fun p hp => h p (List.dropLast_subset l hp)

theorem Proper.append_name {l : Location} (h : l.Proper) {n : Name} (hn : n.Proper) :
    Proper (l ++ [.name n]) := by
  intro p hp
  rcases List.mem_append.1 hp with hp | hp
  · exact h p hp
  · rw [List.mem_singleton.1 hp]
    exact hn

theorem bytes_path (l : Location) : l.path.bytes = Path.spelling false l := by
  have hslash : ∀ (p : Part) (rest : List Part),
      ((((p :: rest).map Part.bytes).intersperse [0x2F]).flatten : Bytes)
        = p.bytes ++ Path.spelling true rest := by
    intro p rest
    induction rest generalizing p with
    | nil => simp [Path.spelling]
    | cons q rest ih =>
      have := ih q
      simp only [List.map_cons] at this
      simp [Path.spelling, this]
  cases l with
  | nil => rfl
  | cons p rest => simpa [path, Path.spelling] using hslash p rest

theorem parts_path {l : Location} (h : ∀ p ∈ l, p.Spelled) : l.path.parts = l := by
  have hp : l.path = ⟨Path.spelling false l⟩ := by rw [← bytes_path]
  rw [hp, Path.parts_spelling l h]

theorem lead_path {l : Location} (h : ∀ p ∈ l, p.Spelled) : l.path.lead = .plain := by
  cases l with
  | nil => rfl
  | cons p rest =>
    have hp : p.Spelled := h p (List.mem_cons_self ..)
    have hpath : path (p :: rest) = ⟨Path.spelling false (p :: rest)⟩ := by
      rw [← bytes_path]
    rw [hpath, Path.spelling, if_neg Bool.false_ne_true, List.nil_append,
      Path.lead_append (Part.slash_not_mem_bytes hp) (Part.bytes_ne_nil hp)
        (Path.slashed_spelling rest), if_neg (Part.bytes_ne_dot hp)]

/-- A location of proper names is read back from the path that spells it out. -/
theorem location?_path {l : Location} (h : l.Proper) : l.path.location? = some l := by
  rw [Path.location?, lead_path h.spelled, if_pos rfl, parts_path h.spelled]

/-! ## The order of locations -/

@[simp] theorem compare_append_append (l a b : Location) :
    compare (l ++ a) (l ++ b) = compare a b := by
  induction l with
  | nil => rfl
  | cons p rest ih =>
    rw [List.cons_append, List.cons_append, List.compare_cons_cons, ih]
    simp

/-- What is below a location stands behind it. -/
theorem compare_append (l : Location) (p : Part) (rest : List Part) :
    compare l (l ++ p :: rest) = .lt := by
  have := compare_append_append l [] (p :: rest)
  simpa using this

/-- What is below a name stands before a later name. -/
theorem compare_of_prefix {l k : Location} {n n' : Name} (hk : l ++ [.name n] <+: k)
    (hlt : compare n n' = .lt) : compare k (l ++ [.name n']) = .lt := by
  obtain ⟨rest, rfl⟩ := hk
  have hpart : compare (Part.name n) (Part.name n') = .lt := hlt
  rw [List.append_assoc, compare_append_append, List.singleton_append,
    List.compare_cons_cons, hpart]
  rfl

end Location

end ImageLayer
