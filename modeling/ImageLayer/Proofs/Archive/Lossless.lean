import ImageLayer.Proofs.Archive.Members
import ImageLayer.Proofs.Tree.Loading
/-!
What an archive keeps of a tree.

The archive of a tree is read back by a reader that was written from the format alone. `read_ofTree_iff`, the
main statement, says exactly when the archive has lost nothing: if all device numbers are below `8 ^ 7`. In that
case reading yields one member for each entry, in order, that says all of the entry, and two such trees have the
same archive only if they agree in everything that archives record.

Sections:

* The archive of a tree. `Archivable` is what is asked of a tree: operations have led to it from the empty one
  or a loaded one, its entries can be encoded, the second of the last change has 64 bits, and the writer refuses
  none of its names. All that is left to do is to read what was written for the entries and for the end
  (`read_ofTree`).
* What is lost. One direction is that small device numbers are kept (`SmallDevices.keptEntry`). For the other, a
  member that says all of an entry and all that is kept of it shows that nothing is lost (`lt_of_records`). That
  equal archives come from trees that agree follows from reading both: a member says all of two entries only if
  these agree (`agree_of_records`).

Agreement is equality but for two things that archives do not tell (`Agree`): how the path of a link is spelled,
and whether the superuser was set as the owner or nobody was. An entry that was refused because of its name is
no part of this: the archive goes up to it, and the build stops.

The bound `8 ^ 7` is real: `not_lossless_large_device` has a device that an archive takes without a word and
does not keep.
-/

namespace ImageLayer.Archive

/-! ## The archive of a tree -/

/-- A tree with an archive: operations have led to it, its entries can be encoded, the second of the last
change has 64 bits, and nothing is refused. -/
structure Archivable (sourceDate : Int) (t : Tree) : Prop where
  /-- Operations have led to it. -/
  reachable : ∃ (start : Tree) (ops : List Operation), start.Initial ∧ t = start.run ops
  /-- Its entries can be encoded. -/
  encodable : ∀ x ∈ t.walk, Encodable x
  /-- The second has 64 bits, one of them for the sign. -/
  date : sourceDate < 2 ^ 63
  /-- Its archive is written without a fault. -/
  written : (ofTree sourceDate t).2 = none

section

variable {sourceDate : Int} {t t' : Tree}

theorem Archivable.sound (h : Archivable sourceDate t) : t.Sound := by
  obtain ⟨start, ops, hstart, rfl⟩ := h.reachable
  exact hstart.sound.run ops

theorem Archivable.get? (h : Archivable sourceDate t) {x : Location × Entry} (hx : x ∈ t.walk) :
    t.get? x.1 = some x.2 := by
  have hentry := Tree.mem_walk.1 hx
  have hne : x.1 ≠ [] := by
    intro hnil
    rw [hnil, h.sound.rootOnce] at hentry
    cases hentry
  rw [Tree.get?_of_ne_nil t hne, hentry]

theorem Archivable.writable (h : Archivable sourceDate t) {x : Location × Entry} (hx : x ∈ t.walk) :
    Writable x.1 x.2 where
  toEncodable := h.encodable x hx
  proper := h.sound.proper (h.get? hx)
  mode := h.sound.mode (h.get? hx)

/-- The archive of a tree is read as one member for each entry in order, which says what is kept of it. -/
theorem read_ofTree (h : Archivable sourceDate t) :
    ∃ ms, List.Forall₂ (fun x m => Records sourceDate.toNat (x.1, keptEntry x.2) m) t.walk ms ∧
      read (ofTree sourceDate t).1 = some ms := by
  have hdate := h.date
  have htime : sourceDate.toNat < 2 ^ 63 := by omega
  have hwritten := h.written
  unfold ofTree at hwritten ⊢
  cases hentries : writeEntries sourceDate.toNat t.walk with
  | mk bytes fault =>
    simp only [hentries] at hwritten ⊢
    subst hwritten
    obtain ⟨ms, hms, hread⟩ := readFrom_writeEntries htime (fun x hx => h.writable hx) hentries
    refine ⟨ms, hms, ?_⟩
    rw [read, hread, read_ending, Option.map_some, List.append_nil]

/-! ## What is lost -/

/-- All device numbers have at most seven octal digits. -/
def SmallDevices (t : Tree) : Prop :=
  ∀ l e major minor, (l, e) ∈ t.walk → e.kind = .charDevice major minor →
    major.toNat < 8 ^ 7 ∧ minor.toNat < 8 ^ 7

theorem SmallDevices.keptEntry (h : SmallDevices t) {x : Location × Entry} (hx : x ∈ t.walk) :
    keptEntry x.2 = x.2 := by
  have hkind : keptKind x.2.kind = x.2.kind := by
    cases hkind : x.2.kind with
    | charDevice major minor =>
      obtain ⟨hmajor, hminor⟩ := h x.1 x.2 major minor hx hkind
      rw [keptKind, lowDigits, lowDigits, Nat.mod_eq_of_lt hmajor, Nat.mod_eq_of_lt hminor,
        UInt32.ofNat_toNat, UInt32.ofNat_toNat]
    | _ => rfl
  rw [Archive.keptEntry, hkind]

/-- A member that says all of an entry and all that is kept of it shows that nothing is lost. -/
theorem lt_of_records {time : Nat} {l : Location} {e : Entry} {m : Member}
    (hall : Records time (l, e) m) (hkept : Records time (l, keptEntry e) m) {major minor : UInt32}
    (hkind : e.kind = .charDevice major minor) : major.toNat < 8 ^ 7 ∧ minor.toNat < 8 ^ 7 := by
  have h₁ := hall.kind
  have h₂ := hkept.kind
  simp only [hkind, keptEntry, keptKind, Member.Shows, toNat_ofNat_lowDigits] at h₁ h₂
  have hsame := h₁.2.2.symm.trans h₂.2.2
  simp only [Option.some.injEq, Prod.mk.injEq] at hsame
  rw [hsame.1, hsame.2]
  exact ⟨Nat.mod_lt _ (by decide), Nat.mod_lt _ (by decide)⟩

/-- What two entries are is the same but for how the path of a link is written. -/
def AgreeInKind : EntryKind → EntryKind → Prop
  | .symlink p, .symlink q => p.same q
  | .hardlink p, .hardlink q => p.same q
  | a, b => a = b

/-- Two entries are the same but for how the path of a link is written and whether the superuser was set
as the owner. -/
structure Agree (x y : Location × Entry) : Prop where
  /-- They are at the same location. -/
  location : x.1 = y.1
  /-- They are the same. -/
  kind : AgreeInKind x.2.kind y.2.kind
  /-- They have the same permissions. -/
  mode : x.2.mode = y.2.mode
  /-- They have the same owner in archives. -/
  ownership : x.2.ownership = y.2.ownership

theorem same_of_same {p q r : Path} (hq : p.same q) (hr : p.same r) : q.same r := by
  simp only [Path.same, Bool.and_eq_true, decide_eq_true_eq] at hq hr ⊢
  exact ⟨hq.1 ▸ hr.1, hq.2 ▸ hr.2⟩

theorem Member.Shows.agree {m : Member} {a b : EntryKind} (ha : m.Shows a) (hb : m.Shows b) :
    AgreeInKind a b := by
  cases a with
  | directory => cases b <;> simp_all [Member.Shows, AgreeInKind]
  | file contents => cases b <;> simp_all [Member.Shows, AgreeInKind]
  | symlink p =>
    cases b with
    | symlink q => exact same_of_same ha.2.2 hb.2.2
    | _ => simp_all [Member.Shows]
  | hardlink p =>
    cases b with
    | hardlink q => exact same_of_same ha.2.2 hb.2.2
    | _ => simp_all [Member.Shows]
  | charDevice major minor =>
    cases b with
    | charDevice major' minor' =>
      have hsame := ha.2.2.symm.trans hb.2.2
      simp only [Option.some.injEq, Prod.mk.injEq, UInt32.toNat_inj] at hsame
      rw [hsame.1, hsame.2]
      rfl
    | _ => simp_all [Member.Shows]

/-- Entries of which one member says all agree. -/
theorem agree_of_records {time : Nat} {x y : Location × Entry} {m : Member}
    (hx : Records time x m) (hy : Records time y m) (hpx : x.1.Proper) (hpy : y.1.Proper) :
    Agree x y where
  location := by
    have hpath : x.1.path = y.1.path := hx.path.symm.trans hy.path
    rw [← Location.parts_path hpx.spelled, hpath, Location.parts_path hpy.spelled]
  kind := hx.kind.agree hy.kind
  mode := hx.mode.symm.trans hy.mode
  ownership := by
    have huid := UInt32.toNat_inj.1 (hx.uid.symm.trans hy.uid)
    have hgid := UInt32.toNat_inj.1 (hx.gid.symm.trans hy.gid)
    cases hox : x.2.ownership
    cases hoy : y.2.ownership
    simp_all

/-- The archive of a tree without large device numbers says all of its entries. -/
theorem read_ofTree_of_smallDevices (h : Archivable sourceDate t) (hsmall : SmallDevices t) :
    ∃ ms, read (ofTree sourceDate t).1 = some ms ∧
      List.Forall₂ (Records sourceDate.toNat) t.walk ms := by
  obtain ⟨ms, hms, hread⟩ := read_ofTree h
  refine ⟨ms, hread, List.forall₂_iff_get.2 ⟨hms.length_eq, fun i hi hi' => ?_⟩⟩
  have hrecords := (List.forall₂_iff_get.1 hms).2 i hi hi'
  rwa [hsmall.keptEntry (List.get_mem _ _)] at hrecords

/-- Trees with the same archive agree in all that is kept of their entries. -/
theorem agree_of_ofTree_eq (h : Archivable sourceDate t) (h' : Archivable sourceDate t')
    (hsame : (ofTree sourceDate t').1 = (ofTree sourceDate t).1) :
    List.Forall₂ (fun x y => Agree (x.1, keptEntry x.2) (y.1, keptEntry y.2)) t.walk t'.walk := by
  obtain ⟨ms, hall, hread⟩ := read_ofTree h
  obtain ⟨ms', hall', hread'⟩ := read_ofTree h'
  rw [hsame, hread] at hread'
  obtain rfl := Option.some.inj hread'
  refine List.forall₂_iff_get.2 ⟨hall.length_eq.trans hall'.length_eq.symm, fun i hi hi' => ?_⟩
  have hms : i < ms.length := hall.length_eq ▸ hi
  exact agree_of_records ((List.forall₂_iff_get.1 hall).2 i hi hms)
    ((List.forall₂_iff_get.1 hall').2 i hi' hms)
    (h.writable (List.get_mem _ _)).proper (h'.writable (List.get_mem _ _)).proper

/-- An archive loses nothing exactly if all device numbers are below `8 ^ 7`: then reading it yields one
member for each entry, in order, that says all of the entry. Trees with the same archive agree in all that
is kept of their entries, and without greater numbers in the entries themselves. -/
theorem read_ofTree_iff (h : Archivable sourceDate t) :
    ((∃ ms, read (ofTree sourceDate t).1 = some ms ∧
        List.Forall₂ (Records sourceDate.toNat) t.walk ms) ↔ SmallDevices t) ∧
      ∀ t', Archivable sourceDate t' → (ofTree sourceDate t').1 = (ofTree sourceDate t).1 →
        List.Forall₂ (fun x y => Agree (x.1, keptEntry x.2) (y.1, keptEntry y.2)) t.walk t'.walk ∧
          (SmallDevices t → SmallDevices t' → List.Forall₂ Agree t.walk t'.walk) := by
  refine ⟨⟨?_, read_ofTree_of_smallDevices h⟩, fun t' h' hsame => ?_⟩
  · rintro ⟨ms, hread, hall⟩ l e major minor hmem hkind
    obtain ⟨ms', hkept, hread'⟩ := read_ofTree h
    rw [hread] at hread'
    obtain rfl := Option.some.inj hread'
    obtain ⟨i, hi⟩ := List.get_of_mem hmem
    have hi' : i.1 < ms.length := hall.length_eq ▸ i.2
    have hrecords := (List.forall₂_iff_get.1 hall).2 i i.2 hi'
    have hrecords' := (List.forall₂_iff_get.1 hkept).2 i i.2 hi'
    rw [Fin.eta, hi] at hrecords hrecords'
    exact lt_of_records hrecords hrecords' hkind
  · have hagree := agree_of_ofTree_eq h h' hsame
    refine ⟨hagree, fun hsmall hsmall' => ?_⟩
    refine List.forall₂_iff_get.2 ⟨hagree.length_eq, fun i hi hi' => ?_⟩
    have hentries := (List.forall₂_iff_get.1 hagree).2 i hi hi'
    rwa [hsmall.keptEntry (List.get_mem _ _), hsmall'.keptEntry (List.get_mem _ _)] at hentries

/-- The archive of a file `a` and a device `d` with the numbers 4 and 64. -/
theorem read_ofTree_small_device :
    let t := Tree.empty.run
      [.writeFile ⟨[0x61]⟩ [1] 0o644, .makeDevice ⟨[0x64]⟩ 0o666 4 64]
    Archivable 0 t ∧ ∃ ms, read (ofTree 0 t).1 = some ms ∧ List.Forall₂ (Records 0) t.walk ms := by
  intro t
  have h : Archivable 0 t := ⟨⟨_, _, Tree.initial_empty, rfl⟩, by decide +kernel, by decide,
    by decide +kernel⟩
  refine ⟨h, (read_ofTree_iff h).1.2 fun l e major minor hmem hkind => ?_⟩
  have hwalk : t.walk = [([.name [0x61]], .file [1] 0o644),
      ([.name [0x64]], .ofKind (.charDevice 4 64) 0o666)] := by decide +kernel
  rw [hwalk] at hmem
  rcases List.mem_cons.1 hmem with heq | hmem
  · obtain ⟨rfl, rfl⟩ := Prod.mk.inj heq
    cases hkind
  · obtain ⟨rfl, rfl⟩ := Prod.mk.inj (List.mem_singleton.1 hmem)
    cases hkind
    decide

/-- A device `d` whose major number has an eighth octal digit: no member says all of it, and the archive is
that of the device whose major number is zero. -/
theorem not_lossless_large_device :
    let t := Tree.empty.run [.makeDevice ⟨[0x64]⟩ 0o666 2097152 0]
    let t' := Tree.empty.run [.makeDevice ⟨[0x64]⟩ 0o666 0 0]
    Archivable 0 t ∧ Archivable 0 t' ∧
      (¬ ∃ ms, read (ofTree 0 t).1 = some ms ∧ List.Forall₂ (Records 0) t.walk ms) ∧
      (ofTree 0 t').1 = (ofTree 0 t).1 ∧ ¬ List.Forall₂ Agree t.walk t'.walk := by
  intro t t'
  have h : Archivable 0 t := ⟨⟨_, _, Tree.initial_empty, rfl⟩, by decide +kernel, by decide,
    by decide +kernel⟩
  have h' : Archivable 0 t' := ⟨⟨_, _, Tree.initial_empty, rfl⟩, by decide +kernel, by decide,
    by decide +kernel⟩
  have hwalk : t.walk = [([.name [0x64]], .ofKind (.charDevice 2097152 0) 0o666)] := by
    decide +kernel
  have hwalk' : t'.walk = [([.name [0x64]], .ofKind (.charDevice 0 0) 0o666)] := by decide +kernel
  refine ⟨h, h', ?_, by decide +kernel, ?_⟩
  · rintro ⟨ms, hread, hall⟩
    obtain ⟨ms', hkept, hread'⟩ := read_ofTree h
    rw [hread] at hread'
    obtain rfl := Option.some.inj hread'
    rw [hwalk] at hall hkept
    cases hall with
    | cons hm hrest =>
      cases hkept with
      | cons hm' hrest' => exact absurd (lt_of_records hm hm' rfl).1 (by decide)
  · rw [hwalk, hwalk']
    intro hagree
    cases hagree with
    | cons hentry hrest => exact absurd hentry.kind (by simp [AgreeInKind, Entry.ofKind])

end

end ImageLayer.Archive
