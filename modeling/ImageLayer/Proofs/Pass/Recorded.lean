import ImageLayer.Pass.Ownership
import ImageLayer.Proofs.Tree.Inode
import ImageLayer.Proofs.Tree.Parents
/-!
What recorded owners and permissions make of a tree.

A database of installed packages records attributes for some of the paths of each package. The pass takes the
records in order and sets owner and permissions of each path. `appliesRecords_iff`, the main statement, says
exactly when this does to every entry what is recorded for the paths that name it.

Sections:

* The last record for a file. Several records may lead to one file, and the last of them counts (`lastRecord`).
* Records in order. `Given` says what the records so far have made of the tree that they started from, and
  `Given.concat` is the step: one more record, which sets both attributes. `applyAllRecorded_outcome` is the
  run, by induction on packages and paths: all records are applied, or those before the first whose path leads
  nowhere.
* What the records are meant for. `AppliesRecords` says that records do what they say of the entries their paths
  name, and `FollowsAsNamed` says it of paths alone.

Whether a path is there is asked without following its last part, and the attributes are set behind it. The two
differ at symbolic links: a record for a link changes the file that the link leads to, which may have a record
of its own or none, and never the link. Where the last record that leads to a file agrees with the last that
names it, nobody can tell, and this is what `FollowsAsNamed` comes to. In particular all is well where no record
names a symbolic link (`FollowsAsNamed.of_not_namesSymlink`).

Hard links need no such care, since names of one file share its attributes. The trees are taken to be such that
every hard link has its file (`Tree.LinksToFiles`), as those that operations make and those that are loaded from
a host are. Setting attributes keeps it, and moves no path (`Given.alike`), so that where records lead is asked
once, in the tree at the start.
-/

namespace ImageLayer

/-- A path and what was recorded for it. -/
abbrev PathRecord := Path × PathAttributes

/-- What was recorded for a path, if anything was. -/
def InstalledPath.records (p : InstalledPath) : List PathRecord :=
  p.attributes.toList.map (p.path, ·)

/-- What was recorded for the paths of a package, in order. -/
def InstalledPackage.records (p : InstalledPackage) : List PathRecord :=
  p.paths.flatMap InstalledPath.records

/-- The entry with recorded attributes, or as it is where there are none. -/
def Entry.given (a : Option PathAttributes) (e : Entry) : Entry :=
  match a with
  | some a => (e.withMode a.mode).withOwner a.owner
  | none => e

@[simp] theorem Entry.given_none (e : Entry) : e.given none = e := rfl

@[simp] theorem Entry.kind_given (a : Option PathAttributes) (e : Entry) :
    (e.given a).kind = e.kind := by
  cases a <;> rfl

@[simp] theorem Entry.inode_given (a : Option PathAttributes) (e : Entry) (l : Location) :
    (e.given a).inode l = e.inode l :=
  Entry.inode_congr (e.kind_given a) l

theorem Entry.eq_given_iff {e e' : Entry} {a : Option PathAttributes} (h : e'.kind = e.kind) :
    e' = e.given a ↔ e'.mode = (e.given a).mode ∧ e'.owner = (e.given a).owner := by
  rw [← e.kind_given a] at h
  constructor
  · rintro rfl
    exact ⟨rfl, rfl⟩
  · rintro ⟨hmode, howner⟩
    generalize e.given a = new at *
    cases e'
    cases new
    simp_all

theorem Entry.withOwner_withMode_given (a : Option PathAttributes) (b : PathAttributes) (e : Entry) :
    ((e.given a).withMode b.mode).withOwner b.owner = e.given (some b) := by
  cases a <;> rfl

namespace Tree

/-! ## The last record for a file -/

/-- What the last record says that is about the file at a location. -/
def lastRecord (inode : Path → Option Location) (records : List PathRecord) (l : Location) :
    Option PathAttributes :=
  (records.filter fun r => inode r.1 = some l).getLast?.map Prod.snd

theorem lastRecord_concat (inode : Path → Option Location) (records : List PathRecord)
    (r : PathRecord) (l : Location) :
    lastRecord inode (records ++ [r]) l
      = if inode r.1 = some l then some r.2 else lastRecord inode records l := by
  unfold lastRecord
  rw [List.filter_append]
  by_cases h : inode r.1 = some l <;> simp [h]

theorem lastRecord_eq_none_iff {inode : Path → Option Location} {records : List PathRecord}
    {l : Location} : lastRecord inode records l = none ↔ ∀ r ∈ records, inode r.1 ≠ some l := by
  simp [lastRecord]

theorem lastRecord_congr {inode inode' : Path → Option Location} {records : List PathRecord}
    (h : ∀ r ∈ records, inode r.1 = inode' r.1) (l : Location) :
    lastRecord inode records l = lastRecord inode' records l := by
  unfold lastRecord
  rw [List.filter_congr fun r hr => by rw [h r hr]]

/-! ## Records in order -/

/-- Every file of `t` has got in `t'` what the last record that leads to it says. -/
def Given (t : Tree) (records : List PathRecord) (t' : Tree) : Prop :=
  ∀ l, t'.get? l = (t.get? l).map fun e =>
    e.given (lastRecord (t.inode? true) records (e.inode l))

theorem given_nil (t : Tree) : t.Given [] t := by
  intro l
  simp [lastRecord]

theorem Given.alike {t t' : Tree} {records : List PathRecord} (h : t.Given records t') :
    t.Alike t' := by
  intro l
  rw [h l, Option.map_map]
  exact congrArg (fun f => (t.get? l).map f) (funext fun e => e.kind_given _)

/-- Setting both attributes of the file that one more record leads to. -/
theorem Given.concat {t t₁ : Tree} (h : t.LinksToFiles) {done : List PathRecord}
    (hdone : t.Given done t₁) {r : PathRecord} {l : Location} (hl : t.inode? true r.1 = some l) :
    t.Given (done ++ [r]) ((t₁.mapNames l (.withMode r.2.mode)).mapNames l (.withOwner r.2.owner)) := by
  have hl₁ : t₁.inode? true r.1 = some l := by rw [hdone.alike.inode?, hl]
  have h₁ := hdone.alike.linksToFiles h
  have hmode := h₁.get?_mapNames hl₁ (.withMode r.2.mode)
  have halike := alike_mapNames t₁ l (f := .withMode r.2.mode) fun _ => rfl
  have howner := (halike.linksToFiles h₁).get?_mapNames ((halike.inode? true r.1).trans hl₁)
    (.withOwner r.2.owner)
  intro k
  rw [howner, hmode, hdone k]
  cases hk : t.get? k with
  | none => rfl
  | some e =>
    simp only [Option.map_some, Entry.inode_given, lastRecord_concat, hl, Option.some.injEq]
    by_cases hname : l = e.inode k
    · subst hname
      have hinode : ∀ m, (Entry.withMode m (e.given
          (lastRecord (t.inode? true) done (e.inode k)))).inode k = e.inode k :=
        fun m => e.inode_given _ k
      simp only [if_true, hinode, Entry.withOwner_withMode_given]
    · simp only [hname, Ne.symm hname, if_false, Entry.inode_given]

/-- What is left of records to come: all of them lead somewhere and have been applied, or those before
the first that leads nowhere. -/
def Outcome (t : Tree) (done records : List PathRecord) : EStateM.Result NoResult Tree Unit → Prop
  | .ok _ t' =>
    (∀ r ∈ records, (t.inode? true r.1).isSome) ∧ t.Given (done ++ records) t'
  | .error _ t' =>
    ∃ before r after, records = before ++ r :: after ∧
      (∀ b ∈ before, (t.inode? true b.1).isSome) ∧ t.inode? true r.1 = none ∧
      t.Given (done ++ before) t'

theorem applyRecorded_of_inode? {t : Tree} (h : t.LinksToFiles) (package : String)
    {p : InstalledPath} {a : PathAttributes} (ha : p.attributes = some a) {l : Location}
    (hl : t.inode? true p.path = some l) :
    Edit.applyRecorded package p t
      = .ok () ((t.mapNames l (.withMode a.mode)).mapNames l (.withOwner a.owner)) := by
  have halike := alike_mapNames t l (f := .withMode a.mode) fun _ => rfl
  have hmode := h.inodeOf_eq_ok.2 hl
  have howner := (halike.linksToFiles h).inodeOf_eq_ok.2 ((halike.inode? true p.path).trans hl)
  simp [Edit.applyRecorded, ha, bind, EStateM.bind, Edit.ask, Edit.change, exists?_of_inode? hl,
    chmod, chown, hmode, howner, Except.bind, pure, Except.pure]

theorem applyRecorded_of_inode?_eq_none {t : Tree} (h : t.LinksToFiles) (package : String)
    {p : InstalledPath} {a : PathAttributes} (ha : p.attributes = some a)
    (hl : t.inode? true p.path = none) : ∃ e, Edit.applyRecorded package p t = .error e t := by
  simp only [Edit.applyRecorded, ha, bind, EStateM.bind, Edit.ask, Edit.change]
  by_cases hexists : t.exists? p.path
  · cases hmode : t.inodeOf p.path with
    | ok l =>
      rw [h.inodeOf_eq_ok.1 hmode] at hl
      cases hl
    | error e => exact ⟨.failure e, by simp [hexists, chmod, hmode, bind, Except.bind]⟩
  · exact ⟨.failure (.tree p.path (.recordedButMissing package)), by simp [hexists]⟩

theorem applyRecorded_outcome {t t₁ : Tree} (h : t.LinksToFiles) {done : List PathRecord}
    (hdone : t.Given done t₁) (package : String) (p : InstalledPath) :
    t.Outcome done p.records (Edit.applyRecorded package p t₁) := by
  have h₁ := hdone.alike.linksToFiles h
  unfold InstalledPath.records
  cases ha : p.attributes with
  | none =>
    simp only [Edit.applyRecorded, ha]
    exact ⟨by simp, by simpa using hdone⟩
  | some a =>
    cases hl : t.inode? true p.path with
    | some l =>
      rw [applyRecorded_of_inode? h₁ package ha ((hdone.alike.inode? true p.path).trans hl)]
      exact ⟨by simp [hl], hdone.concat h hl⟩
    | none =>
      obtain ⟨e, he⟩ := applyRecorded_of_inode?_eq_none h₁ package ha
        ((hdone.alike.inode? true p.path).trans hl)
      rw [he]
      exact ⟨[], (p.path, a), [], rfl, by simp, hl, by simpa using hdone⟩

/-- What holds of one step for its records holds of all steps in order for theirs. -/
theorem forM_outcome {α : Type} {t : Tree} {f : α → Edit Unit} {records : α → List PathRecord}
    (step : ∀ {done t₁} a, t.Given done t₁ → t.Outcome done (records a) (f a t₁)) (as : List α)
    {done : List PathRecord} {t₁ : Tree} (hdone : t.Given done t₁) :
    t.Outcome done (as.flatMap records) (as.forM f t₁) := by
  induction as generalizing done t₁ with
  | nil => exact ⟨by simp, by simpa using hdone⟩
  | cons a rest ih =>
    have hfirst := step a hdone
    -- Steps after one that fails are not taken: the record it failed at is the one for the whole.
    change t.Outcome done _ ((f a >>= fun _ => rest.forM f) t₁)
    simp only [bind, EStateM.bind, List.flatMap_cons]
    cases hresult : f a t₁ with
    | error e t₂ =>
      rw [hresult] at hfirst
      obtain ⟨before, r, after, heq, hbefore, hr, ht₂⟩ := hfirst
      exact ⟨before, r, after ++ rest.flatMap records, by simp [heq], hbefore, hr, ht₂⟩
    | ok u t₂ =>
      rw [hresult] at hfirst
      obtain ⟨hreach, ht₂⟩ := hfirst
      have hrest := ih ht₂
      simp only
      cases hresult' : rest.forM f t₂ with
      | ok u t₃ =>
        rw [hresult'] at hrest
        refine ⟨fun r hr => ?_, by simpa using hrest.2⟩
        rcases List.mem_append.1 hr with hr | hr
        · exact hreach r hr
        · exact hrest.1 r hr
      | error e t₃ =>
        rw [hresult'] at hrest
        obtain ⟨before, r, after, heq, hbefore, hr, ht₃⟩ := hrest
        refine ⟨records a ++ before, r, after, by simp [heq], fun b hb => ?_, hr, by simpa using ht₃⟩
        rcases List.mem_append.1 hb with hb | hb
        · exact hreach b hb
        · exact hbefore b hb

/-- The records of all packages are applied in order, up to the first that leads nowhere. -/
theorem applyAllRecorded_outcome {t : Tree} (h : t.LinksToFiles) {packages : List InstalledPackage}
    (hp : t.installedPackages = .ok packages) :
    t.Outcome [] (packages.flatMap InstalledPackage.records) (Edit.applyAllRecorded t) := by
  have hall := forM_outcome (fun p hdone => forM_outcome
    (fun q hq => applyRecorded_outcome h hq p.package.name q) p.paths hdone) packages (given_nil t)
  simp only [Edit.applyAllRecorded, bind, EStateM.bind, Edit.consult, hp]
  exact hall

/-! ## What the records are meant for -/

/-- Records do to a tree what they say of the entries that their paths name, the last part of a path not
followed: they can be applied if all paths are there, and in that case every entry that no record names
keeps its attributes, and any other but a symbolic link has got those of the last record that names it. An
entry is also named under the other names of its file. -/
structure AppliesRecords (t : Tree) (records : List PathRecord) : Prop where
  /-- Records of paths that are there are applied. -/
  succeeds : (∀ r ∈ records, t.exists? r.1) → ∃ t', Edit.applyAllRecorded t = .ok () t'
  /-- Nothing else is changed. -/
  kept : ∀ t', Edit.applyAllRecorded t = .ok () t' → ∀ l e, t.get? l = some e →
    (∀ r ∈ records, t.inode? false r.1 ≠ some (e.inode l)) →
    ∃ e', t'.get? l = some e' ∧ e'.mode = e.mode ∧ e'.owner = e.owner
  /-- The last record counts. -/
  given : ∀ t', Edit.applyAllRecorded t = .ok () t' → ∀ l e a, t.get? l = some e →
    e.isSymlink = false → lastRecord (t.inode? false) records (e.inode l) = some a →
    ∃ e', t'.get? l = some e' ∧ e'.mode = permissionBits a.mode ∧ e'.owner = some a.owner

/-- Following the paths of records to their ends changes nothing that matters: all of them lead somewhere
if all of them are there, and of the records that lead to a file the last says the same as of those that
name it. -/
structure FollowsAsNamed (t : Tree) (records : List PathRecord) : Prop where
  /-- No path ends at a symbolic link that leads nowhere, unless another is missing anyway. -/
  reach : (∀ r ∈ records, t.exists? r.1) → ∀ r ∈ records, (t.inode? true r.1).isSome
  /-- What the records do to an entry is what they say of it. -/
  agree : (∀ r ∈ records, (t.inode? true r.1).isSome) → ∀ l e, t.get? l = some e →
    e.isSymlink = false →
    e.given (lastRecord (t.inode? true) records (e.inode l))
      = e.given (lastRecord (t.inode? false) records (e.inode l))

section

variable {t : Tree} {packages : List InstalledPackage}

theorem exists_applyAllRecorded_iff (h : t.LinksToFiles) (hp : t.installedPackages = .ok packages) :
    (∃ t', Edit.applyAllRecorded t = .ok () t') ↔
      ∀ r ∈ packages.flatMap InstalledPackage.records, (t.inode? true r.1).isSome := by
  have hall := applyAllRecorded_outcome h hp
  cases hresult : Edit.applyAllRecorded t with
  | ok u t' =>
    rw [hresult] at hall
    exact iff_of_true ⟨t', rfl⟩ hall.1
  | error e t' =>
    rw [hresult] at hall
    obtain ⟨before, r, after, heq, -, hr, -⟩ := hall
    refine iff_of_false (by simp) fun hreach => ?_
    have := hreach r (by simp [heq])
    simp [hr] at this

theorem given_of_applyAllRecorded (h : t.LinksToFiles) (hp : t.installedPackages = .ok packages)
    {t' : Tree} (hresult : Edit.applyAllRecorded t = .ok () t') {l : Location} {e : Entry}
    (hget : t.get? l = some e) :
    t'.get? l = some (e.given (lastRecord (t.inode? true)
      (packages.flatMap InstalledPackage.records) (e.inode l))) := by
  have hall := applyAllRecorded_outcome h hp
  rw [hresult] at hall
  rw [hall.2 l, hget]
  rfl

/-- Records never lead to a symbolic link. -/
theorem lastRecord_of_isSymlink (h : t.LinksToFiles) {l : Location} {e : Entry}
    (hget : t.get? l = some e) (he : e.isSymlink) (records : List PathRecord) :
    lastRecord (t.inode? true) records (e.inode l) = none := by
  refine lastRecord_eq_none_iff.2 fun r hr hl => ?_
  obtain ⟨first, hfirst, -, hplain⟩ := h.first_name hl
  have hinode : e.inode l = l := Entry.inode_of_kind fun q hq => by simp [Entry.isSymlink, hq] at he
  rw [hinode, hget] at hfirst
  obtain rfl := Option.some.inj hfirst
  rw [hplain rfl] at he
  cases he

theorem FollowsAsNamed.of_not_namesSymlink {records : List PathRecord}
    (hplain : ∀ r ∈ records, ¬ t.NamesSymlink r.1) : t.FollowsAsNamed records := by
  have hsame : ∀ r ∈ records, t.inode? true r.1 = t.inode? false r.1 :=
    fun r hr => inode?_of_not_namesSymlink (hplain r hr)
  constructor
  · intro hexists r hr
    rw [hsame r hr, ← exists?_eq]
    exact hexists r hr
  · intro _ l e _ _
    rw [lastRecord_congr hsame]

theorem AppliesRecords.followsAsNamed (h : t.LinksToFiles)
    (hp : t.installedPackages = .ok packages)
    (happlies : t.AppliesRecords (packages.flatMap InstalledPackage.records)) :
    t.FollowsAsNamed (packages.flatMap InstalledPackage.records) := by
  refine ⟨fun hexists => (exists_applyAllRecorded_iff h hp).1 (happlies.succeeds hexists), ?_⟩
  intro hreach l e hget hplain
  obtain ⟨t', hresult⟩ := (exists_applyAllRecorded_iff h hp).2 hreach
  have hnew := given_of_applyAllRecorded h hp hresult hget
  rw [Entry.eq_given_iff (Entry.kind_given _ e)]
  -- The pass gives each entry its last record by followed paths: what it leaves shows that record.
  cases hnamed : lastRecord (t.inode? false) (packages.flatMap InstalledPackage.records)
      (e.inode l) with
  | none =>
    obtain ⟨e', he', hmode, howner⟩ :=
      happlies.kept t' hresult l e hget (lastRecord_eq_none_iff.1 hnamed)
    rw [hnew] at he'
    obtain rfl := Option.some.inj he'
    exact ⟨hmode, howner⟩
  | some a =>
    obtain ⟨e', he', hmode, howner⟩ := happlies.given t' hresult l e a hget hplain hnamed
    rw [hnew] at he'
    obtain rfl := Option.some.inj he'
    exact ⟨hmode, howner⟩

theorem FollowsAsNamed.appliesRecords (h : t.LinksToFiles)
    (hp : t.installedPackages = .ok packages)
    (hfollows : t.FollowsAsNamed (packages.flatMap InstalledPackage.records)) :
    t.AppliesRecords (packages.flatMap InstalledPackage.records) := by
  refine ⟨fun hexists => (exists_applyAllRecorded_iff h hp).2 (hfollows.reach hexists), ?_, ?_⟩
  · intro t' hresult l e hget hunnamed
    refine ⟨_, given_of_applyAllRecorded h hp hresult hget, ?_⟩
    -- A symbolic link is out of reach, whichever records name it.
    by_cases hlink : e.isSymlink
    · rw [lastRecord_of_isSymlink h hget hlink]
      exact ⟨rfl, rfl⟩
    · have hreach := (exists_applyAllRecorded_iff h hp).1 ⟨t', hresult⟩
      rw [hfollows.agree hreach l e hget (by simpa using hlink),
        lastRecord_eq_none_iff.2 hunnamed]
      exact ⟨rfl, rfl⟩
  · intro t' hresult l e a hget hplain hnamed
    refine ⟨_, given_of_applyAllRecorded h hp hresult hget, ?_⟩
    have hreach := (exists_applyAllRecorded_iff h hp).1 ⟨t', hresult⟩
    rw [hfollows.agree hreach l e hget hplain, hnamed]
    exact ⟨rfl, rfl⟩

/-- Whatever the database says: its records do what they say of the paths they name exactly if following
their paths past symbolic links comes to the same, and so they do where no record names a symbolic link. -/
theorem appliesRecords_iff (h : t.LinksToFiles) (hp : t.installedPackages = .ok packages) :
    (t.AppliesRecords (packages.flatMap InstalledPackage.records) ↔
        t.FollowsAsNamed (packages.flatMap InstalledPackage.records)) ∧
      ((∀ r ∈ packages.flatMap InstalledPackage.records, ¬ t.NamesSymlink r.1) →
        t.AppliesRecords (packages.flatMap InstalledPackage.records)) := by
  refine ⟨⟨AppliesRecords.followsAsNamed h hp, FollowsAsNamed.appliesRecords h hp⟩, fun hplain => ?_⟩
  exact (FollowsAsNamed.of_not_namesSymlink hplain).appliesRecords h hp

end

/-- A database that records other attributes for `b`, a hard link to `a`. -/
theorem appliesRecords_to_hard_link :
    let t := empty.run [.makeDirectories (.ofString "lib/apk/db") 0o755,
      .writeFile InstalledDatabase.location (Bytes.ofString "P:p\nF:\nR:b\na:5:6:600\n") 0o644,
      .writeFile (.ofString "a") [] 0o644, .hardlink (.ofString "a") (.ofString "b")]
    let packages : List InstalledPackage := [⟨{ name := "p" },
      [⟨.ofString "", true, none⟩, ⟨.ofString "b", false, some ⟨⟨5, 6⟩, 0o600⟩⟩]⟩]
    t.LinksToFiles ∧ t.installedPackages = .ok packages ∧
      t.AppliesRecords (packages.flatMap InstalledPackage.records) := by
  intro t packages
  have hlinks : t.LinksToFiles := (sound_empty.run _).linksToFiles
  have hp : t.installedPackages = .ok packages := by decide +kernel
  exact ⟨hlinks, hp, (appliesRecords_iff hlinks hp).2 (by decide +kernel)⟩

/-- A database that records attributes for `b`, a symbolic link to `a`: the file `a`, which no record
names, is changed. -/
theorem not_appliesRecords_to_symbolic_link :
    let t := empty.run [.makeDirectories (.ofString "lib/apk/db") 0o755,
      .writeFile InstalledDatabase.location (Bytes.ofString "P:p\nF:\nR:b\na:5:6:600\n") 0o644,
      .writeFile (.ofString "a") [] 0o644, .symlink (.ofString "a") (.ofString "b")]
    let packages : List InstalledPackage := [⟨{ name := "p" },
      [⟨.ofString "", true, none⟩, ⟨.ofString "b", false, some ⟨⟨5, 6⟩, 0o600⟩⟩]⟩]
    t.ParentClosed ∧ t.LinksToFiles ∧ t.installedPackages = .ok packages ∧
      ¬ t.AppliesRecords (packages.flatMap InstalledPackage.records) := by
  intro t packages
  have hclosed : ∀ x ∈ t.walk, t.isDirectoryAt x.1.dropLast := by decide +kernel
  have hlinks : t.LinksToFiles := (sound_empty.run _).linksToFiles
  have hp : t.installedPackages = .ok packages := by decide +kernel
  refine ⟨fun l e hmem => hclosed (l, e) hmem, hlinks, hp, fun happlies => ?_⟩
  obtain ⟨t', hresult⟩ := happlies.succeeds (by decide +kernel)
  have hget : t.get? [.name [0x61]] = some (.file [] 0o644) := by decide +kernel
  obtain ⟨e', he', hmode, -⟩ := happlies.kept t' hresult _ _ hget (by decide +kernel)
  rw [given_of_applyAllRecorded hlinks hp hresult hget] at he'
  obtain rfl := Option.some.inj he'
  exact absurd hmode (by decide +kernel)

end Tree

end ImageLayer
