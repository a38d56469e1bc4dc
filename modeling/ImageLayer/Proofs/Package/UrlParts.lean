import Mathlib.Data.List.Induction
import ImageLayer.Proofs.Package.Url
import ImageLayer.Proofs.SortedMap
import ImageLayer.Proofs.Text.Lines
import ImageLayer.Proofs.Text.Utf8
/-!
Reading package locators.

`PackageUrl.read?` reads a locator by its form alone: it cuts the text at the reserved characters and decodes
the pieces. `Draft.read?_locator`, the main statement, says that a locator reads back as what it was made from:
a type, a name, and the last of each kind of addition, in whatever order these were made. So two locators are
written the same exactly if their parts agree, and the order in which qualifiers with different keys are added
does not matter.

Sections:

* Reading pieces: cutting at the first occurrence of a separator, and decoding.
* Reading locators. The reader, and the conditions on types and keys, which are written without any encoding:
  `IsType` asks for lower-case letters and digits, `IsKey` for characters that need none.
* Types and keys. A type that is one is in lower case already (`IsType.lower`). Case is that of all scripts, by
  tables, so that this is decided for the characters it is about.
* The written form in pieces, each of which has no separator of its neighbours in it (`toList_text`,
  `splitAt_path`).
* Reading a locator back (`read?_text`): no reserved character is written within a part, so that the cuts fall
  between the parts.
* What locators are made from. A `Draft` is a type, a name and a list of additions. What the last of each kind
  says is read off the list of all (`locator_fields`), by induction from its end.

An empty version, name space or qualifier is as good as none, and empty segments of a name space disappear; the
statement has them as `nonEmpty?` and `segments`. Qualifiers come in the order of their keys.
-/

namespace ImageLayer

/-! ## Reading pieces -/

/-- What stands before the first occurrence of a separator, and what stands behind it, if it occurs. -/
def Text.cutFirst (sep : Char) (s : List Char) : List Char × Option (List Char) :=
  match splitFirst? sep s with
  | some (front, behind) => (front, some behind)
  | none => (s, none)

/-- Something that a separator is written in front of is cut off, and nothing if there is nothing to cut off. -/
theorem Text.cutFirst_append {sep : Char} {front : List Char} (h : sep ∉ front) (behind : Option (List Char)) :
    cutFirst sep (front ++ (behind.map (sep :: ·)).getD []) = (front, behind) := by
  unfold cutFirst
  cases behind with
  | none =>
    rw [Option.map_none, Option.getD_none, List.append_nil, splitFirst?_eq_none_iff.2 h]
  | some behind =>
    rw [Option.map_some, Option.getD_some, splitFirst?_eq_some_iff.2 ⟨rfl, h⟩]

/-- The text that was percent-encoded. -/
def Percent.text? (s : List Char) : Option String := (decode? s).bind Utf8.decode?

theorem Percent.text?_encode (s : String) : text? (encode s).toList = some s := by
  rw [text?, decode?_encode, Option.bind_some, Utf8.decode?_eq_some_iff]

/-- What is read back from each of the written elements of a list is read back from all of them. -/
theorem mapM_write {α β : Type} {read : β → Option α} {write : α → β} {l : List α}
    (h : ∀ a ∈ l, read (write a) = some a) : (l.map write).mapM read = some l := by
  induction l with
  | nil => rfl
  | cons a l ih =>
    obtain ⟨ha, hl⟩ := List.forall_mem_cons.1 h
    rw [List.map_cons, List.mapM_cons, ha, ih hl]
    rfl

namespace PackageUrl

/-! ## Reading locators -/

/-- What a locator tells. -/
structure Parts where
  /-- The kind of package. -/
  type : String
  /-- The segments of the name space. -/
  segments : List String
  /-- Name of the package. -/
  name : String
  /-- Its version. -/
  version : Option String
  /-- Further particulars, in the order of the text. -/
  qualifiers : List (String × String)
  deriving DecidableEq

/-- A key, and behind an equals sign its encoded value. -/
def readQualifier? (s : List Char) : Option (String × String) := do
  let (key, value) ← Text.splitFirst? '=' s
  return (String.ofList key, ← Percent.text? value)

/-- Reads a locator: qualifiers are behind a question mark, the version behind an at sign, and between slashes are
the type, the segments of the name space and the name. -/
def read? (text : String) : Option Parts := do
  let rest ← Text.dropStart? "pkg:".toList text.toList
  let (front, query) := Text.cutFirst '?' rest
  let (path, version) := Text.cutFirst '@' front
  match Text.splitAt '/' path with
  | [] => none
  | type :: pieces =>
    return {
      type := String.ofList type
      segments := ← pieces.dropLast.mapM Percent.text?
      name := ← pieces.getLast?.bind Percent.text?
      version := ← version.mapM Percent.text?
      qualifiers := ← ((query.map (Text.splitAt '&')).getD []).mapM readQualifier? }

/-- A type of lower-case letters and digits. -/
def IsType (s : String) : Prop := s ≠ "" ∧ ∀ c ∈ s.toList, c.isLower ∨ c.isDigit

/-- A key of characters that need no encoding. -/
def IsKey (s : String) : Prop := s ≠ "" ∧ ∀ c ∈ s.toList, c.isAlphanum ∨ c ∈ ['-', '_', '.', '~']

instance (s : String) : Decidable (IsType s) :=
  decidable_of_iff (s ≠ "" ∧ s.toList.all fun c => c.isLower || c.isDigit) (by simp [IsType])

instance (s : String) : Decidable (IsKey s) :=
  decidable_of_iff (s ≠ "" ∧ s.toList.all fun c => c.isAlphanum || ['-', '_', '.', '~'].contains c)
    (by simp [IsKey])

/-! ## Types and keys -/

theorem toNat_lt_of_isType {c : Char} (h : c.isLower ∨ c.isDigit) : c.toNat < 128 := by
  have hlower : c.isLower = (decide (c.val ≥ 'a'.val) && decide (c.val ≤ 'z'.val)) := rfl
  simp only [hlower, Char.isDigit, Bool.and_eq_true, decide_eq_true_eq, UInt32.le_iff_toNat_le,
    ge_iff_le] at h
  have hval : c.toNat = c.val.toNat := rfl
  have hz : 'z'.val.toNat = 122 := rfl
  have hnine : '9'.val.toNat = 57 := rfl
  omega

theorem mapCase_of_isType : ∀ n < 128, (Char.ofNat n).isLower ∨ (Char.ofNat n).isDigit →
    Char.ofNat n ≠ 'Σ' ∧ Text.mapCase Text.lowerRuns Text.lowerSpecial (Char.ofNat n) = [Char.ofNat n] := by
  decide +kernel

/-- A type is in lower case. -/
theorem IsType.lower {s : String} (h : IsType s) : Text.lower s = s := by
  have hsame : ∀ cs : List Char, (∀ c ∈ cs, c.isLower ∨ c.isDigit) → ∀ before, Text.lowerAfter before cs = cs := by
    intro cs hcs
    induction cs with
    | nil => exact fun _ => rfl
    | cons c rest ih =>
      intro before
      obtain ⟨hc, hrest⟩ := List.forall_mem_cons.1 hcs
      obtain ⟨hsigma, hmap⟩ := mapCase_of_isType c.toNat (toNat_lt_of_isType hc) (by rwa [Char.ofNat_toNat])
      rw [Char.ofNat_toNat] at hsigma hmap
      rw [Text.lowerAfter, if_neg hsigma, hmap, ih hrest, List.singleton_append]
  rw [Text.lower, hsame _ h.2, String.ofList_toList]

theorem IsType.not_mem {s : String} (h : IsType s) {c : Char} (hc : ¬ (c.isLower ∨ c.isDigit)) : c ∉ s.toList :=
  fun hmem => hc (h.2 c hmem)

theorem IsKey.not_mem {s : String} (h : IsKey s) {c : Char}
    (hc : ¬ (c.isAlphanum ∨ c ∈ ['-', '_', '.', '~'])) : c ∉ s.toList :=
  fun hmem => hc (h.2 c hmem)

/-! ## The written form in pieces -/

/-- The segments of the name space that are not empty. -/
def spaces (u : PackageUrl) : List String := (u.nameSpace.map segments).getD []

/-- What a locator is about, apart from its version and its qualifiers. -/
def path (u : PackageUrl) : List Char :=
  (Text.lower u.type).toList ++ '/' :: ((u.spaces.map fun s => (Percent.encode s).toList).flatMap (· ++ ['/']) ++
    (Percent.encode u.name).toList)

/-- A qualifier as it is written. -/
def qualifierPiece (e : String × String) : List Char := e.1.toList ++ '=' :: (Percent.encode e.2).toList

/-- All qualifiers as they are written, if there are any. -/
def query? (u : PackageUrl) : Option (List Char) :=
  match u.qualifiers.toList with
  | [] => none
  | e :: es => some (['&'].intercalate ((e :: es).map qualifierPiece))

/-- The version as it is written. -/
def versionPiece? (u : PackageUrl) : Option (List Char) := u.version.map fun v => (Percent.encode v).toList

theorem toList_qualifierText (u : PackageUrl) : u.qualifierText.toList = (u.query?.map ('?' :: ·)).getD [] := by
  have hpiece : String.toList ∘ (fun e : String × String => e.1 ++ "=" ++ Percent.encode e.2) = qualifierPiece := by
    funext e
    simp [qualifierPiece]
  have hjoined : ∀ es : List (String × String),
      ("&".intercalate (es.map fun e => e.1 ++ "=" ++ Percent.encode e.2)).toList
        = ['&'].intercalate (es.map qualifierPiece) := by
    intro es
    rw [String.toList_intercalate, List.map_map, hpiece]
    simp
  unfold qualifierText query?
  cases u.qualifiers.toList with
  | nil => rfl
  | cons e es =>
    rw [Option.map_some, Option.getD_some, ← hjoined]
    simp

theorem toList_text (u : PackageUrl) : u.text.toList = "pkg:".toList ++
    (u.path ++ (u.versionPiece?.map ('@' :: ·)).getD [] ++ (u.query?.map ('?' :: ·)).getD []) := by
  have hspaces : (String.join (u.spaces.map fun s => Percent.encode s ++ "/")).toList
      = (u.spaces.map fun s => (Percent.encode s).toList).flatMap (· ++ ['/']) := by
    simp only [String.toList_join, List.flatMap_map, String.toList_append]
    rfl
  have hversion : ((u.version.map fun v => "@" ++ Percent.encode v).getD "").toList
      = (u.versionPiece?.map ('@' :: ·)).getD [] := by
    unfold versionPiece?
    cases u.version with
    | none => rfl
    | some v => simp
  rw [text_eq, leadText, nameText, ← spaces]
  simp only [String.toList_append, hspaces, hversion, toList_qualifierText, path, List.append_assoc,
    List.cons_append]
  rfl

theorem splitAt_path (u : PackageUrl) (htype : '/' ∉ (Text.lower u.type).toList) :
    Text.splitAt '/' u.path = (Text.lower u.type).toList ::
      ((u.spaces.map fun s => (Percent.encode s).toList) ++ [(Percent.encode u.name).toList]) := by
  have hslash : ∀ s, '/' ∉ (Percent.encode s).toList := Percent.not_mem_encode (by decide)
  have hspaces : ∀ s ∈ u.spaces.map fun s => (Percent.encode s).toList, '/' ∉ s := by
    intro s hs
    obtain ⟨t, -, rfl⟩ := List.mem_map.1 hs
    exact hslash t
  rw [path, Text.splitAt_append_sep, Text.splitAt_of_not_mem htype, Text.splitAt_closed hspaces (hslash u.name),
    List.singleton_append]

/-- The qualifiers are read back from between the ampersands. -/
theorem readQualifiers_query? (u : PackageUrl) (hkeys : ∀ e ∈ u.qualifiers.toList, IsKey e.1) :
    ((u.query?.map (Text.splitAt '&')).getD []).mapM readQualifier? = some u.qualifiers.toList := by
  have hread : ∀ e ∈ u.qualifiers.toList, readQualifier? (qualifierPiece e) = some e := by
    intro e he
    have hsplit : Text.splitFirst? '=' (qualifierPiece e) = some (e.1.toList, (Percent.encode e.2).toList) :=
      Text.splitFirst?_eq_some_iff.2 ⟨rfl, (hkeys e he).not_mem (by decide)⟩
    simp [readQualifier?, hsplit, Percent.text?_encode]
  have hplain : ∀ s ∈ u.qualifiers.toList.map qualifierPiece, '&' ∉ s := by
    intro s hs
    obtain ⟨e, he, rfl⟩ := List.mem_map.1 hs
    have hvalue : '&' ∉ (Percent.encode e.2).toList := Percent.not_mem_encode (by decide) _
    simp [qualifierPiece, hvalue, (hkeys e he).not_mem (c := '&') (by decide)]
  have hpieces : (u.query?.map (Text.splitAt '&')).getD [] = u.qualifiers.toList.map qualifierPiece := by
    unfold query?
    cases hes : u.qualifiers.toList with
    | nil => rfl
    | cons e es =>
      rw [Option.map_some, Option.getD_some]
      exact Text.splitAt_intercalate (List.cons_ne_nil _ _) (hes ▸ hplain)
  rw [hpieces, mapM_write hread]

/-! ## Reading a locator back -/

/-- The parts of a locator. -/
def parts (u : PackageUrl) : Parts where
  type := u.type
  segments := u.spaces
  name := u.name
  version := u.version
  qualifiers := u.qualifiers.toList

theorem read?_text {u : PackageUrl} (htype : IsType u.type) (hkeys : ∀ e ∈ u.qualifiers.toList, IsKey e.1) :
    read? u.text = some u.parts := by
  have hpath : ∀ c, c ≠ '/' → ¬ (c.isLower ∨ c.isDigit) → Percent.isWritten c = false → c ∉ u.path := by
    intro c hslash hchar hwritten
    have hencoded := Percent.not_mem_encode hwritten
    simp [path, htype.lower, htype.not_mem hchar, hencoded, hslash]
  have hat : '@' ∉ u.path := hpath '@' (by decide) (by decide) (by decide)
  have hfront : '?' ∉ u.path ++ (u.versionPiece?.map ('@' :: ·)).getD [] := by
    have hencoded : ∀ s, '?' ∉ (Percent.encode s).toList := Percent.not_mem_encode (by decide)
    have hquestion : '?' ∉ u.path := hpath '?' (by decide) (by decide) (by decide)
    unfold versionPiece?
    cases u.version <;> simp [hquestion, hencoded]
  have hlead : ∀ s : List Char, Text.dropStart? "pkg:".toList ("pkg:".toList ++ s) = some s := by
    intro s
    simp [Text.dropStart?]
  have hsegments : (u.spaces.map fun s => (Percent.encode s).toList).mapM Percent.text? = some u.spaces :=
    mapM_write fun s _ => Percent.text?_encode s
  have hversion : u.versionPiece?.mapM Percent.text? = some u.version := by
    unfold versionPiece?
    cases u.version with
    | none => rfl
    | some v =>
      rw [Option.map_some, Option.mapM_some, Percent.text?_encode]
      rfl
  have hslash : '/' ∉ (Text.lower u.type).toList := by
    rw [htype.lower]
    exact htype.not_mem (by decide)
  simp only [read?, toList_text, hlead, Option.bind_eq_bind, Option.bind_some, Text.cutFirst_append hfront,
    Text.cutFirst_append hat, splitAt_path u hslash, List.dropLast_concat, hsegments, List.getLast?_concat,
    Percent.text?_encode, hversion, readQualifiers_query? u hkeys]
  rw [htype.lower, String.ofList_toList]
  rfl

/-! ## What locators are made from -/

theorem withQualifier_comm (u : PackageUrl) {key key' : String} (hkeys : key ≠ key') (value value' : Option String) :
    (u.withQualifier key value).withQualifier key' value' = (u.withQualifier key' value').withQualifier key value := by
  unfold withQualifier
  cases value.bind nonEmpty? with
  | none => rfl
  | some v =>
    cases value'.bind nonEmpty? with
    | none => rfl
    | some v' => simp only [SortedMap.insert_comm _ hkeys]

/-- Something that is added to a locator. -/
inductive Addition where
  /-- See `withNamespace`. -/
  | nameSpace (s : String)
  /-- See `withVersion`. -/
  | version (s : String)
  /-- See `withQualifier`. -/
  | qualifier (key : String) (value : Option String)
  deriving DecidableEq

namespace Addition

/-- The locator with an addition. -/
def addTo (u : PackageUrl) : Addition → PackageUrl
  | nameSpace s => u.withNamespace s
  | version s => u.withVersion s
  | qualifier key value => u.withQualifier key value

/-- The name space that is added. -/
def nameSpace? : Addition → Option String
  | nameSpace s => some s
  | _ => none

/-- The version that is added. -/
def version? : Addition → Option String
  | version s => some s
  | _ => none

/-- The value that is added under a key, unless it is empty. -/
def value? (key : String) : Addition → Option String
  | qualifier k value => if k = key then value.bind nonEmpty? else none
  | _ => none

end Addition

/-- What a locator is made from: a type and a name, and additions one after the other. -/
structure Draft where
  /-- The kind of package. -/
  type : String
  /-- Name of the package. -/
  name : String
  /-- What is added, in order. -/
  additions : List Addition

namespace Draft

/-- The locator that is made. -/
def locator (d : Draft) : PackageUrl := d.additions.foldl Addition.addTo { type := d.type, name := d.name }

/-- The last of what is added in a certain way. -/
def last (d : Draft) (f : Addition → Option String) : Option String := (d.additions.filterMap f).getLast?

/-- The segments of the last name space. -/
def spaces (d : Draft) : List String := ((d.last Addition.nameSpace?).map segments).getD []

/-- The last version, unless it is empty. -/
def version (d : Draft) : Option String := (d.last Addition.version?).bind nonEmpty?

/-- The last value under a key that is not empty. -/
def value? (d : Draft) (key : String) : Option String := d.last (Addition.value? key)

/-- A draft of a type and with keys that are written as they are. -/
structure Plain (d : Draft) : Prop where
  /-- The type needs no encoding. -/
  type : IsType d.type
  /-- No key needs any. -/
  keys : ∀ key value, Addition.qualifier key value ∈ d.additions → IsKey key

theorem locator_concat (type name : String) (additions : List Addition) (a : Addition) :
    locator ⟨type, name, additions ++ [a]⟩ = a.addTo (locator ⟨type, name, additions⟩) := by
  rw [locator, locator, List.foldl_append]
  rfl

theorem last_concat (type name : String) (additions : List Addition) (a : Addition)
    (f : Addition → Option String) :
    last ⟨type, name, additions ++ [a]⟩ f = (f a).or (last ⟨type, name, additions⟩ f) := by
  rw [last, last, List.filterMap_append, List.getLast?_append]
  cases hf : f a <;> simp [hf]

/-- A locator has the type and the name of its draft, and of what was added the last of each kind. -/
theorem locator_fields (type name : String) (additions : List Addition) :
    let d : Draft := ⟨type, name, additions⟩
    d.locator.type = type ∧ d.locator.name = name ∧
      d.locator.nameSpace = (d.last Addition.nameSpace?).bind nonEmpty? ∧ d.locator.version = d.version ∧
      ∀ key, d.locator.qualifiers.get? key = d.value? key := by
  induction additions using List.reverseRecOn with
  | nil => exact ⟨rfl, rfl, rfl, rfl, fun _ => rfl⟩
  | append_singleton additions a ih =>
    obtain ⟨htype, hname, hspace, hversion, hvalue⟩ := ih
    simp only [version, value?, locator_concat, last_concat] at hversion hvalue ⊢
    cases a with
    | nameSpace s => exact ⟨htype, hname, rfl, hversion, hvalue⟩
    | version s => exact ⟨htype, hname, hspace, rfl, hvalue⟩
    | qualifier k value =>
      simp only [Addition.addTo, Addition.nameSpace?, Addition.version?, Addition.value?, Option.none_or,
        withQualifier_type, withQualifier_name, withQualifier_nameSpace, withQualifier_version,
        withQualifier_qualifiers]
      refine ⟨htype, hname, hspace, hversion, fun key => ?_⟩
      cases value.bind nonEmpty? with
      | none => simpa using hvalue key
      | some v =>
        rw [SortedMap.get?_insert, hvalue]
        by_cases hk : k = key
        · simp [hk]
        · simp [hk, Ne.symm hk]

variable (d e : Draft)

theorem locator_type : d.locator.type = d.type := (locator_fields d.type d.name d.additions).1

theorem locator_name : d.locator.name = d.name := (locator_fields d.type d.name d.additions).2.1

theorem locator_version : d.locator.version = d.version := (locator_fields d.type d.name d.additions).2.2.2.1

theorem get?_qualifiers_locator (key : String) : d.locator.qualifiers.get? key = d.value? key :=
  (locator_fields d.type d.name d.additions).2.2.2.2 key

/-- An empty name space has no segments, as if there were none. -/
theorem spaces_locator : d.locator.spaces = d.spaces := by
  have hempty : ∀ s, ((nonEmpty? s).map segments).getD [] = segments s := by
    intro s
    unfold nonEmpty?
    by_cases hs : s = ""
    · subst hs
      decide
    · simp [hs]
  rw [PackageUrl.spaces, spaces, (locator_fields d.type d.name d.additions).2.2.1]
  cases d.last Addition.nameSpace? with
  | none => rfl
  | some s => exact hempty s

variable {d e}

theorem mem_qualifiers_locator {key value : String} :
    (key, value) ∈ d.locator.qualifiers.toList ↔ d.value? key = some value := by
  rw [SortedMap.mem_toList_iff, get?_qualifiers_locator]

/-- A key with a value was added with it. -/
theorem exists_of_value? {key value : String} (h : d.value? key = some value) :
    ∃ v, Addition.qualifier key v ∈ d.additions := by
  obtain ⟨a, ha, hvalue⟩ := List.mem_filterMap.1 (List.mem_of_getLast? h)
  cases a with
  | qualifier k v =>
    rw [Addition.value?] at hvalue
    split at hvalue
    · rename_i hk
      exact ⟨v, hk ▸ ha⟩
    · cases hvalue
  | _ => cases hvalue

theorem Plain.read? (h : d.Plain) : PackageUrl.read? d.locator.text =
    some ⟨d.type, d.spaces, d.name, d.version, d.locator.qualifiers.toList⟩ := by
  rw [read?_text]
  · rw [parts, locator_type, spaces_locator, locator_name, locator_version]
  · exact (locator_type d).symm ▸ h.type
  · rintro ⟨key, value⟩ hmem
    obtain ⟨v, hv⟩ := exists_of_value? (mem_qualifiers_locator.1 hmem)
    exact h.keys key v hv

/-- Qualifiers under different keys can be added in either order. -/
theorem locator_swap (type name : String) (before behind : List Addition) {key key' : String}
    (hkeys : key ≠ key') (value value' : Option String) :
    locator ⟨type, name, before ++ .qualifier key value :: .qualifier key' value' :: behind⟩
      = locator ⟨type, name, before ++ .qualifier key' value' :: .qualifier key value :: behind⟩ := by
  simp only [locator, List.foldl_append, List.foldl_cons, Addition.addTo, withQualifier_comm _ hkeys]

/-- A locator of a plain draft reads back as what was drafted: the type, the segments of the last name space, the
name, the last version and, in the order of the keys, the last value of each. Two of them are equal in written form
exactly if they agree in all this, and qualifiers under different keys can be added in either order. -/
theorem read?_locator (d : Draft) (h : d.Plain) :
    (∃ qualifiers, PackageUrl.read? d.locator.text = some ⟨d.type, d.spaces, d.name, d.version, qualifiers⟩ ∧
      qualifiers.Pairwise (fun a b => compare a.1 b.1 = .lt) ∧
      ∀ key value, (key, value) ∈ qualifiers ↔ d.value? key = some value) ∧
    (∀ e : Draft, e.Plain → (d.locator.text = e.locator.text ↔ d.type = e.type ∧ d.spaces = e.spaces ∧
      d.name = e.name ∧ d.version = e.version ∧ ∀ key, d.value? key = e.value? key)) ∧
    ∀ before behind key key' value value',
      d.additions = before ++ .qualifier key value :: .qualifier key' value' :: behind → key ≠ key' →
      d.locator = locator ⟨d.type, d.name, before ++ .qualifier key' value' :: .qualifier key value :: behind⟩ := by
  refine ⟨?_, fun e he => ?_, ?_⟩
  · exact ⟨d.locator.qualifiers.toList, h.read?, d.locator.qualifiers.sorted, fun _ _ => mem_qualifiers_locator⟩
  · constructor
    · intro htext
      have hparts := h.read?
      rw [htext, he.read?] at hparts
      simp only [Option.some.injEq, Parts.mk.injEq] at hparts
      obtain ⟨htype, hspaces, hname, hversion, hqualifiers⟩ := hparts
      refine ⟨htype.symm, hspaces.symm, hname.symm, hversion.symm, fun key => Option.ext fun value => ?_⟩
      rw [← mem_qualifiers_locator, ← mem_qualifiers_locator, hqualifiers]
    · rintro ⟨htype, hspaces, hname, hversion, hvalues⟩
      have hqualifiers : d.locator.qualifiers = e.locator.qualifiers :=
        SortedMap.ext_get? fun key => by rw [get?_qualifiers_locator, get?_qualifiers_locator, hvalues]
      rw [← String.toList_inj, toList_text, toList_text, path, path, versionPiece?, versionPiece?, query?, query?,
        hqualifiers]
      simp only [locator_type, spaces_locator, locator_name, locator_version, htype, hspaces, hname, hversion]
  · intro before behind key key' value value' hadditions hkeys
    rw [← locator_swap d.type d.name before behind hkeys value value', ← hadditions]

/-- Separators, empty parts and a key that is given again. -/
theorem read?_locator_separators :
    let d : Draft := ⟨"apk", "a@b?é", [.nameSpace "/x//y%/", .version "1/2", .qualifier "k" (some "&=#"),
      .qualifier "a.b" (some ""), .qualifier "k" none, .qualifier "a.b" (some "2"), .qualifier "k" (some "3")]⟩
    let e : Draft := ⟨"apk", "a", [.nameSpace "x", .version "b?é"]⟩
    d.Plain ∧ e.Plain ∧
      (∃ qualifiers, PackageUrl.read? d.locator.text = some ⟨"apk", ["x", "y%"], "a@b?é", some "1/2", qualifiers⟩ ∧
        ("a.b", "2") ∈ qualifiers ∧ ("k", "3") ∈ qualifiers) ∧
      d.locator.text ≠ e.locator.text ∧
      d.locator = locator ⟨"apk", "a@b?é", [.nameSpace "/x//y%/", .version "1/2", .qualifier "k" (some "&=#"),
        .qualifier "a.b" (some ""), .qualifier "a.b" (some "2"), .qualifier "k" none, .qualifier "k" (some "3")]⟩ := by
  intro d e
  have hd : d.Plain := by
    refine ⟨by decide, fun key value hmem => ?_⟩
    simp only [d, List.mem_cons, Addition.qualifier.injEq, reduceCtorEq, List.not_mem_nil, or_false, false_or]
      at hmem
    rcases hmem with ⟨rfl, -⟩ | ⟨rfl, -⟩ | ⟨rfl, -⟩ | ⟨rfl, -⟩ | ⟨rfl, -⟩ <;> decide
  have he : e.Plain := ⟨by decide, by simp [e]⟩
  obtain ⟨⟨qualifiers, hread, -, hmem⟩, hiff, hswap⟩ := read?_locator d hd
  have hspaces : d.spaces = ["x", "y%"] := by decide +kernel
  have hversion : d.version = some "1/2" := by decide +kernel
  have hvalues : d.value? "a.b" = some "2" ∧ d.value? "k" = some "3" := by decide +kernel
  refine ⟨hd, he, ⟨qualifiers, ?_, (hmem _ _).2 hvalues.1, (hmem _ _).2 hvalues.2⟩, fun htext => ?_, ?_⟩
  · rw [hread, hspaces, hversion]
  · have hname : "a@b?é" = "a" := ((hiff e he).1 htext).2.2.1
    exact absurd hname (by decide)
  · exact hswap [.nameSpace "/x//y%/", .version "1/2", .qualifier "k" (some "&=#"), .qualifier "a.b" (some "")]
      [.qualifier "k" (some "3")] "k" "a.b" none (some "2") rfl (by decide)

end Draft

end PackageUrl

end ImageLayer
