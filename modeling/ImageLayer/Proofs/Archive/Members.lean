import ImageLayer.Proofs.Archive.Block
import ImageLayer.Proofs.Archive.Name
/-!
Members of an archive, read back.

What is written for one entry of a tree is one member, perhaps with long names in front of it.
`readFrom_writeEntry`, the step of the proof that archives lose nothing, says that it is read as one member,
whatever stands behind it, and that this member says all of the entry but the high digits of device numbers.
`readFrom_writeEntries` is the induction on the entries.

Sections:

* Records in an archive: a header and contents that were written are read as one record (`record?_block`). The
  contents are filled up with zeros to whole blocks, and the size in the header tells how much of the last block
  counts.
* Long names. A record for a long name is read as the name and held for the next member (`readFrom_longPath`,
  `readFrom_longLink`). With what is known of the name fields, a path is read from its field or from in front of
  the member (`readFrom_pathField`, `readFrom_linkField`).
* Members. `Records` says that a member says all of an entry at a location, and `keptEntry` what is left of an
  entry once its device numbers have lost their high digits. `Writable` collects what an entry needs to be
  written: it is an entry of a tree that operations have led to, it has no zero byte in its paths, and no byte
  string in it is longer than memory.

The path of a link is compared as a path and not byte by byte (`Member.Shows`), since a target may be spelled
with more slashes than the field keeps. The bound `2 ^ 63` on lengths is that of a number of bytes in base 256
in its field.
-/

namespace ImageLayer.Archive

/-! ## Records in an archive -/

theorem length_filled (contents : Bytes) :
    (filled contents).length = (contents.length + 511) / 512 * 512 := by
  rw [filled, List.length_append, List.length_replicate]
  omega

/-- What was written as a header and contents is read as a record. -/
theorem record?_block {h : Header} (fits : h.Fits) {contents : Bytes}
    (hsize : h.size = contents.length) (rest : Bytes) :
    record? (h.block ++ filled contents ++ rest) = some ⟨h.kept, contents, rest⟩ := by
  have hkept : h.kept.size = contents.length := hsize
  have htake : (h.block ++ filled contents ++ rest).take 512 = h.block := by
    rw [List.append_assoc, List.take_left' fits.length_block]
  have hdrop : (h.block ++ filled contents ++ rest).drop 512 = filled contents ++ rest := by
    rw [List.append_assoc, List.drop_left' fits.length_block]
  have hcontents : (filled contents ++ rest).take contents.length = contents := by
    rw [filled, List.append_assoc, List.take_left]
  have hrest : (filled contents ++ rest).drop ((contents.length + 511) / 512 * 512) = rest :=
    List.drop_left' (length_filled contents)
  have hlong : ¬ (h.block ++ filled contents ++ rest).length < 512 := by
    simp only [List.length_append, fits.length_block]
    omega
  have hfull : ¬ (filled contents ++ rest).length < (contents.length + 511) / 512 * 512 := by
    rw [List.length_append, length_filled]
    omega
  simp only [record?, if_neg hlong, htake, header?_block fits, hdrop, hkept, if_neg hfull, hcontents,
    hrest]

theorem readFrom_of_record? {names : LongNames} {s : Bytes} {r : Record} (h : record? s = some r) :
    readFrom names s = match r.header.type with
      | .longPath => readFrom { names with path := some (untilZero r.contents) } r.rest
      | .longLink => readFrom { names with link := some (untilZero r.contents) } r.rest
      | _ => (readFrom {} r.rest).map (r.member names :: ·) := by
  rw [readFrom]
  split
  · rename_i r' h'
    rw [h] at h'
    obtain rfl := Option.some.inj h'
    rfl
  · rename_i h'
    rw [h] at h'
    cases h'

theorem read_ending : readFrom {} ending = some [] := by
  have hnone : record? ending = none := by decide +kernel
  rw [readFrom]
  split
  · rename_i r h
    rw [hnone] at h
    cases h
  · rw [if_pos ⟨rfl, List.prefix_refl _⟩]

/-! ## Long names -/

/-- The header in front of a long name. -/
def longHeader (type : MemberType) (path : Bytes) : Header :=
  ⟨Bytes.fit MemberName.capacity (Bytes.ofString "././@LongLink"), 0o644, 0, 0, path.length + 1, 0,
    type, List.replicate 100 0, none⟩

theorem fits_longHeader {type : MemberType} (htype : type ≠ .charDevice) {path : Bytes}
    (hsize : path.length < 2 ^ 63) : (longHeader type path).Fits where
  name :=
    (by decide +kernel :
      (Bytes.fit MemberName.capacity (Bytes.ofString "././@LongLink")).length = 100)
  linkName := List.length_replicate
  mode := (by decide : 0o644 < 8 ^ 7)
  uid := (by decide : 0 < 256 ^ 7)
  gid := (by decide : 0 < 256 ^ 7)
  size := by
    change path.length + 1 < 256 ^ 8
    omega
  time := (by decide : 0 < 256 ^ 8)
  device := by simp [longHeader, htype]

theorem record?_longName {type : MemberType} (htype : type ≠ .charDevice) {path : Bytes}
    (hsize : path.length < 2 ^ 63) (rest : Bytes) :
    record? (longName type path ++ rest) = some ⟨longHeader type path, path ++ [0], rest⟩ := by
  have hlength : (longHeader type path).size = (path ++ [0]).length := by simp [longHeader]
  exact record?_block (fits_longHeader htype hsize) hlength rest

theorem readFrom_longPath (names : LongNames) {path : Bytes} (hzero : (0 : UInt8) ∉ path)
    (hsize : path.length < 2 ^ 63) (rest : Bytes) :
    readFrom names (longName .longPath path ++ rest)
      = readFrom { names with path := some path } rest := by
  rw [readFrom_of_record? (record?_longName (by decide) hsize rest)]
  have htext : untilZero (path ++ [0]) = path := untilZero_append_replicate hzero 1
  simp only [longHeader, htext]

theorem readFrom_longLink (names : LongNames) {path : Bytes} (hzero : (0 : UInt8) ∉ path)
    (hsize : path.length < 2 ^ 63) (rest : Bytes) :
    readFrom names (longName .longLink path ++ rest)
      = readFrom { names with link := some path } rest := by
  rw [readFrom_of_record? (record?_longName (by decide) hsize rest)]
  have htext : untilZero (path ++ [0]) = path := untilZero_append_replicate hzero 1
  simp only [longHeader, htext]

/-- A path is read from its field, or from in front of the member. -/
theorem readFrom_pathField {l : Location} (hl : l.Proper) (hzero : (0 : UInt8) ∉ l.path.bytes)
    (hsize : l.path.bytes.length < 2 ^ 63) {front name : Bytes}
    (h : pathField l.path = (front, .ok name)) :
    ∃ path, path.getD (untilZero name) = l.path.bytes ∧
      ∀ rest, readFrom {} (front ++ rest) = readFrom { path } rest := by
  obtain ⟨-, ⟨rfl, hname⟩ | rfl⟩ := pathField_ok hl h
  · exact ⟨none, hname, fun rest => rfl⟩
  · exact ⟨some l.path.bytes, rfl, fun rest => readFrom_longPath {} hzero hsize rest⟩

/-- The path in a link is read from its field, or from in front of the member. -/
theorem readFrom_linkField {p target : Path} (hzero : (0 : UInt8) ∉ target.bytes)
    (hsize : target.bytes.length < 2 ^ 63) {name front linkName : Bytes}
    (h : linkField p target name = (front, .ok linkName)) (path : Option Bytes) :
    ∃ link, (⟨link.getD (untilZero linkName)⟩ : Path).same target ∧
      ∀ rest, readFrom { path } (front ++ rest) = readFrom { path, link } rest := by
  obtain ⟨-, ⟨rfl, hname⟩ | rfl⟩ := linkField_ok h
  · exact ⟨none, hname, fun rest => rfl⟩
  · exact ⟨some target.bytes, by simp [Path.same],
      fun rest => readFrom_longLink { path } hzero hsize rest⟩

/-! ## Members -/

/-- A member shows what an entry is. -/
def Member.Shows (m : Member) : EntryKind → Prop
  | .directory => m.type = .directory ∧ m.contents = []
  | .file contents => m.type = .file ∧ m.contents = contents
  | .symlink target => m.type = .symlink ∧ m.contents = [] ∧ m.link.same target
  | .hardlink source => m.type = .hardlink ∧ m.contents = [] ∧ m.link.same source
  | .charDevice major minor =>
    m.type = .charDevice ∧ m.contents = [] ∧ m.device = some (major.toNat, minor.toNat)

/-- A member says all of an entry at a location, last changed at a second. -/
structure Records (time : Nat) (x : Location × Entry) (m : Member) : Prop where
  /-- Its path. -/
  path : m.path = x.1.path
  /-- What it is, with its contents, its target or its numbers. -/
  kind : m.Shows x.2.kind
  /-- Its permissions. -/
  mode : m.mode = x.2.mode
  /-- Its user, the superuser if none was set. -/
  uid : m.uid = x.2.ownership.uid.toNat
  /-- Its group. -/
  gid : m.gid = x.2.ownership.gid.toNat
  /-- The second. -/
  time : m.time = time

/-- What an archive keeps of what an entry is: all but the high digits of device numbers. -/
def keptKind : EntryKind → EntryKind
  | .charDevice major minor =>
    .charDevice (.ofNat (lowDigits major.toNat)) (.ofNat (lowDigits minor.toNat))
  | kind => kind

/-- What an archive keeps of an entry. -/
def keptEntry (e : Entry) : Entry := { e with kind := keptKind e.kind }

/-- An entry without a zero byte in its path or the path of a link, with no byte string longer than
memory. -/
structure Encodable (x : Location × Entry) : Prop where
  /-- No zero byte is in its path. -/
  pathZeroFree : (0 : UInt8) ∉ x.1.path.bytes
  /-- None is in the path of a link. -/
  targetZeroFree : ∀ p ∈ linkTarget? x.2.kind, (0 : UInt8) ∉ p.bytes
  /-- Its path has a length. -/
  pathSize : x.1.path.bytes.length < 2 ^ 63
  /-- So has the path of a link. -/
  targetSize : ∀ p ∈ linkTarget? x.2.kind, p.bytes.length < 2 ^ 63
  /-- So have the contents. -/
  contentsSize : (memberContents x.2.kind).length < 2 ^ 63

instance (x : Location × Entry) : Decidable (Encodable x) :=
  decidable_of_iff ((0 : UInt8) ∉ x.1.path.bytes ∧
      (∀ p ∈ linkTarget? x.2.kind, (0 : UInt8) ∉ p.bytes) ∧ x.1.path.bytes.length < 2 ^ 63 ∧
      (∀ p ∈ linkTarget? x.2.kind, p.bytes.length < 2 ^ 63) ∧
      (memberContents x.2.kind).length < 2 ^ 63)
    ⟨fun ⟨h₁, h₂, h₃, h₄, h₅⟩ => ⟨h₁, h₂, h₃, h₄, h₅⟩, fun ⟨h₁, h₂, h₃, h₄, h₅⟩ => ⟨h₁, h₂, h₃, h₄, h₅⟩⟩

/-- An entry of a sound tree that can be written as a member. -/
structure Writable (l : Location) (e : Entry) : Prop extends Encodable (l, e) where
  /-- Proper names lead to it. -/
  proper : l.Proper
  /-- Permissions are within their bits. -/
  mode : e.mode < 4096

theorem Writable.fits {l : Location} {e : Entry} (h : Writable l e) {time : Nat} (htime : time < 2 ^ 63)
    {name linkName : Bytes} (hname : name.length = 100) (hlinkName : linkName.length = 100) :
    (headerOf time e name linkName).Fits where
  name := hname
  linkName := hlinkName
  mode := by
    have := h.mode
    change e.mode < 8 ^ 7
    omega
  uid := by
    have := e.ownership.uid.toNat_lt
    change e.ownership.uid.toNat < 256 ^ 7
    omega
  gid := by
    have := e.ownership.gid.toNat_lt
    change e.ownership.gid.toNat < 256 ^ 7
    omega
  size := by
    have hsize : (memberContents e.kind).length < 2 ^ 63 := h.contentsSize
    change (memberContents e.kind).length < 256 ^ 8
    omega
  time := by
    change time < 256 ^ 8
    omega
  device := by
    cases hkind : e.kind <;> simp [headerOf, deviceNumbers?, memberType, hkind]

/-- The member that is read for an entry. -/
def memberOf (time : Nat) (e : Entry) (names : LongNames) (name linkName : Bytes) : Member :=
  Record.member ⟨(headerOf time e name linkName).kept, memberContents e.kind, []⟩ names

section

variable (time : Nat) (e : Entry) (names : LongNames) (name linkName : Bytes)

@[simp] theorem type_memberOf : (memberOf time e names name linkName).type = memberType e.kind := rfl

@[simp] theorem contents_memberOf :
    (memberOf time e names name linkName).contents = memberContents e.kind := rfl

@[simp] theorem link_memberOf :
    (memberOf time e names name linkName).link = ⟨names.link.getD (untilZero linkName)⟩ := rfl

@[simp] theorem device_memberOf :
    (memberOf time e names name linkName).device
      = (deviceNumbers? e.kind).map fun d => (lowDigits d.1, lowDigits d.2) := rfl

end

theorem readFrom_memberBlocks {l : Location} {e : Entry} (h : Writable l e) {time : Nat}
    (htime : time < 2 ^ 63) {name linkName : Bytes} (hname : name.length = 100)
    (hlinkName : linkName.length = 100) (names : LongNames) (rest : Bytes) :
    readFrom names (memberBlocks time e name linkName ++ rest)
      = (readFrom {} rest).map (memberOf time e names name linkName :: ·) := by
  have hrecord := record?_block (h.fits htime hname hlinkName) rfl rest
  rw [memberBlocks, readFrom_of_record? hrecord]
  cases hkind : e.kind <;> simp [headerOf, Header.kept, memberType, hkind, memberOf, Record.member]

theorem toNat_ofNat_lowDigits (n : Nat) : (UInt32.ofNat (lowDigits n)).toNat = lowDigits n := by
  have : lowDigits n < 8 ^ 7 := Nat.mod_lt n (by decide)
  rw [UInt32.toNat_ofNat']
  omega

/-- A member whose path and link path are right says what is kept of its entry. -/
theorem records_memberOf {l : Location} {e : Entry} (time : Nat) (names : LongNames)
    (name linkName : Bytes) (hpath : names.path.getD (untilZero name) = l.path.bytes)
    (hlink : ∀ p, linkTarget? e.kind = some p →
      (⟨names.link.getD (untilZero linkName)⟩ : Path).same p) :
    Records time (l, keptEntry e) (memberOf time e names name linkName) where
  path := congrArg Path.mk hpath
  kind := by
    cases hkind : e.kind with
    | directory => simp [keptEntry, keptKind, hkind, Member.Shows, memberType, memberContents]
    | file contents => simp [keptEntry, keptKind, hkind, Member.Shows, memberType, memberContents]
    | symlink target =>
      have hsame := hlink target (by rw [hkind]; rfl)
      simpa [keptEntry, keptKind, hkind, Member.Shows, memberType, memberContents] using hsame
    | hardlink source =>
      have hsame := hlink source (by rw [hkind]; rfl)
      simpa [keptEntry, keptKind, hkind, Member.Shows, memberType, memberContents] using hsame
    | charDevice major minor =>
      simp only [keptEntry, keptKind, hkind, Member.Shows, toNat_ofNat_lowDigits]
      simp [memberType, memberContents, deviceNumbers?, hkind]
  mode := rfl
  uid := rfl
  gid := rfl
  time := rfl

/-- What is written for an entry is read as one member, whatever stands behind it. -/
theorem readFrom_writeEntry {l : Location} {e : Entry} (h : Writable l e) {time : Nat}
    (htime : time < 2 ^ 63) {bytes : Bytes} (hwritten : writeEntry time l e = (bytes, none)) :
    ∃ m, Records time (l, keptEntry e) m ∧
      ∀ rest, readFrom {} (bytes ++ rest) = (readFrom {} rest).map (m :: ·) := by
  unfold writeEntry at hwritten
  cases hfield : pathField l.path with
  | mk front result =>
    cases result with
    | error fault => simp [hfield] at hwritten
    | ok name =>
      -- What stands in front of the member sets the names that the reader holds when it comes to it.
      have hname := (pathField_ok h.proper hfield).1
      obtain ⟨path, hpath, hfront⟩ := readFrom_pathField h.proper h.pathZeroFree h.pathSize hfield
      simp only [hfield] at hwritten
      cases htarget : linkTarget? e.kind with
      | none =>
        simp only [htarget] at hwritten
        obtain ⟨rfl, -⟩ := Prod.mk.inj hwritten
        have hblank : (List.replicate MemberName.capacity (0 : UInt8)).length = 100 :=
          List.length_replicate
        refine ⟨_, records_memberOf time { path } name (List.replicate MemberName.capacity 0) hpath
          (by simp [htarget]), fun rest => ?_⟩
        rw [List.append_assoc, hfront, readFrom_memberBlocks h htime hname hblank]
      | some target =>
        simp only [htarget] at hwritten
        cases hfield' : linkField l.path target name with
        | mk front' result' =>
          cases result' with
          | error fault => simp [hfield'] at hwritten
          | ok linkName =>
            have hlinkName := (linkField_ok hfield').1
            obtain ⟨link, hlink, hfront'⟩ := readFrom_linkField (h.targetZeroFree target htarget)
              (h.targetSize target htarget) hfield' path
            simp only [hfield'] at hwritten
            obtain ⟨rfl, -⟩ := Prod.mk.inj hwritten
            refine ⟨_, records_memberOf time { path, link } name linkName hpath ?_, fun rest => ?_⟩
            · intro p hp
              rw [htarget] at hp
              exact Option.some.inj hp ▸ hlink
            · rw [List.append_assoc, List.append_assoc, hfront, hfront',
                readFrom_memberBlocks h htime hname hlinkName]

/-- What is written for entries is read as their members in order. -/
theorem readFrom_writeEntries {time : Nat} (htime : time < 2 ^ 63) {xs : List (Location × Entry)}
    (h : ∀ x ∈ xs, Writable x.1 x.2) {bytes : Bytes} (hwritten : writeEntries time xs = (bytes, none)) :
    ∃ ms, List.Forall₂ (fun x m => Records time (x.1, keptEntry x.2) m) xs ms ∧
      ∀ rest, readFrom {} (bytes ++ rest) = (readFrom {} rest).map (ms ++ ·) := by
  -- Behind each member no name is left over, so that the reader starts afresh at every entry.
  induction xs generalizing bytes with
  | nil =>
    obtain ⟨rfl, -⟩ := Prod.mk.inj hwritten
    exact ⟨[], .nil, fun rest => by simp⟩
  | cons x xs ih =>
    obtain ⟨l, e⟩ := x
    rw [writeEntries] at hwritten
    cases hentry : writeEntry time l e with
    | mk first fault =>
      cases fault with
      | some fault => simp [hentry] at hwritten
      | none =>
        simp only [hentry] at hwritten
        cases hmore : writeEntries time xs with
        | mk more fault =>
          simp only [hmore, Prod.mk.injEq] at hwritten
          obtain ⟨rfl, rfl⟩ := hwritten
          obtain ⟨m, hm, hfirst⟩ :=
            readFrom_writeEntry (h (l, e) (List.mem_cons_self ..)) htime hentry
          obtain ⟨ms, hms, hrest⟩ := ih (fun x hx => h x (List.mem_cons_of_mem _ hx)) hmore
          refine ⟨m :: ms, .cons hm hms, fun rest => ?_⟩
          rw [List.append_assoc, hfirst, hrest, Option.map_map]
          rfl

end ImageLayer.Archive
