import ImageLayer.Proofs.Package.DatabaseGrammar
/-!
What the fields of a record say of its package.

The loop that reads a record looks back: attributes belong to the path that was named last, and a file is in the
directory that was opened last. `Describes` holds a package against the fields as a whole, so that it is plain
which field says what. `parse_describes`, the main statement, says that in a database that is read each record
is described by its fields:

* a text comes from the last field with its key, and so does the checksum;
* each path comes from the one field that names it, in order;
* a file is in the directory that the last field before it opened;
* a path has the attributes of the last field that gives attributes of its kind before the next path, if there
  is one.

Sections:

* Fields: the notions of the statement, with an equation each for one more field (`lastValue_cons`,
  `directoryAfter_append`, `HasAttributes.cons`).
* One field. `Takes` says what one field changes in a record, whatever its key (`takes_of_addLine`); it is the
  step.
* All fields of a record, by induction from the front. What carries it is `Settles`: the paths that are there
  already keep their place, and only the last of them may still get attributes from the fields to come. So the
  induction speaks of a record with any paths in it, and the empty record is the case that is wanted
  (`describes_of_reads`).

Attributes for directories and for files have keys of their own, and a field with the wrong one of the two is
taken without a word and changes nothing. That is why `HasAttributes` has the kind of the path in it.
-/

namespace ImageLayer.InstalledDatabase

/-! ## Fields -/

/-- The value of the last field with a key. -/
def lastValue (key : Char) (fields : List Field) : Option (List Char) :=
  (fields.filter fun f => f.1 = key).getLast?.map Prod.snd

/-- Whether a field with this key names a path. -/
def namesPath (key : Char) : Bool := key == 'F' || key == 'R'

/-- The key of attributes for a directory, or for a file. -/
def attributesKey (isDirectory : Bool) : Char := if isDirectory then 'M' else 'a'

/-- The path that a value is. -/
def pathOf (value : List Char) : Path := .ofString (String.ofList value)

/-- The directory that is open behind these fields. -/
def directoryAfter (fields : List Field) : Path := ((lastValue 'F' fields).map pathOf).getD ⟨[]⟩

/-- The fields up to the next path. -/
def upToPath (fields : List Field) : List Field := fields.takeWhile fun f => !namesPath f.1

/-- A field that names a path, with the fields of the record that stand before it and behind it. -/
structure PathField where
  /-- The fields before it. -/
  before : List Field
  /-- The field. -/
  field : Field
  /-- The fields behind it. -/
  after : List Field

/-- The fields that name paths, in order, where other fields have come before. -/
def pathFields (before : List Field) : List Field → List PathField
  | [] => []
  | f :: after =>
    if namesPath f.1 then ⟨before, f, after⟩ :: pathFields (before ++ [f]) after
    else pathFields (before ++ [f]) after

/-- The attributes that these fields give to a path in front of them. -/
def HasAttributes (isDirectory : Bool) (fields : List Field) (a : Option PathAttributes) : Prop :=
  Option.Rel IsAttributes (lastValue (attributesKey isDirectory) (upToPath fields)) a

/-- A path that a field has named. -/
structure PathField.Names (x : PathField) (p : InstalledPath) : Prop where
  /-- It is a directory or not, as the key says. -/
  kind : p.isDirectory = (x.field.1 == 'F')
  /-- The path of a directory is the value, and that of a file is below the directory that is open. -/
  path : p.path =
    if x.field.1 = 'F' then pathOf x.field.2 else (directoryAfter x.before).join (pathOf x.field.2)
  /-- Its attributes are the last ones of its kind up to the next path. -/
  attributes : HasAttributes p.isDirectory x.after p.attributes

/-- The keys of texts, and where they go. -/
def texts : List (Char × (Package → String)) :=
  [('P', Package.name), ('V', Package.version), ('A', Package.architecture), ('L', Package.license),
    ('m', Package.maintainer), ('T', Package.description), ('U', Package.url), ('o', Package.origin)]

/-- The package that the fields of a record describe. -/
structure Describes (fields : List Field) (p : InstalledPackage) : Prop where
  /-- A text is the last value of its key. -/
  text : ∀ x ∈ texts, x.2 p.package = String.ofList ((lastValue x.1 fields).getD [])
  /-- The checksum is what the last value of its key stands for, and empty if there is none. -/
  checksum : match lastValue 'C' fields with
    | some value => IsChecksum value p.package.checksum
    | none => p.package.checksum = []
  /-- There is one path for each field that names one, in order. -/
  paths : List.Forall₂ PathField.Names (pathFields [] fields) p.paths

theorem lastValue_append (key : Char) (fields rest : List Field) :
    lastValue key (fields ++ rest) = (lastValue key rest).or (lastValue key fields) := by
  rw [lastValue, List.filter_append, List.getLast?_append, Option.map_or]
  rfl

theorem lastValue_singleton (key : Char) (f : Field) :
    lastValue key [f] = if f.1 = key then some f.2 else none := by
  by_cases hkey : f.1 = key <;> simp [lastValue, hkey]

theorem lastValue_cons (key : Char) (f : Field) (rest : List Field) :
    lastValue key (f :: rest) = (lastValue key rest).or (if f.1 = key then some f.2 else none) := by
  rw [← List.singleton_append, lastValue_append, lastValue_singleton]

theorem directoryAfter_append (fields : List Field) (f : Field) :
    directoryAfter (fields ++ [f]) = if f.1 = 'F' then pathOf f.2 else directoryAfter fields := by
  rw [directoryAfter, lastValue_append]
  by_cases hkey : f.1 = 'F' <;> simp [lastValue_singleton, hkey, directoryAfter]

/-- Attributes behind a field that names no path count unless there are more behind. -/
theorem HasAttributes.cons {isDirectory : Bool} {f : Field} (hf : namesPath f.1 = false) {rest : List Field}
    {a b : Option PathAttributes} (ha : HasAttributes isDirectory [f] a)
    (hb : HasAttributes isDirectory rest b) : HasAttributes isDirectory (f :: rest) (b.or a) := by
  have hcons : ∀ fields, upToPath (f :: fields) = f :: upToPath fields := fun fields => by
    simp [upToPath, hf]
  rw [HasAttributes, hcons, lastValue_cons] at ha ⊢
  rw [HasAttributes] at hb
  revert hb
  generalize lastValue (attributesKey isDirectory) (upToPath rest) = value
  intro hb
  cases hb with
  | some hb => exact .some hb
  | none => exact ha

/-- Attributes of one kind, and nothing for the other. -/
theorem hasAttributes_singleton {key : Char} {value : List Char} {isDirectory : Bool} {a : PathAttributes}
    (ha : IsAttributes value a) (hkey : key = attributesKey isDirectory) (kind : Bool) :
    HasAttributes kind [(key, value)] (if kind = isDirectory then some a else none) := by
  have hup : upToPath [(key, value)] = [(key, value)] := by
    cases isDirectory <;> simp [hkey, upToPath, namesPath, attributesKey]
  rw [HasAttributes, hup, lastValue_singleton]
  by_cases hkind : kind = isDirectory
  · simpa [hkind, hkey] using ha
  · cases kind <;> cases isDirectory <;> simp_all [attributesKey]

theorem hasAttributes_nil (isDirectory : Bool) : HasAttributes isDirectory [] none := .none

theorem hasAttributes_of_namesPath {isDirectory : Bool} {f : Field} (hf : namesPath f.1 = true)
    (rest : List Field) : HasAttributes isDirectory (f :: rest) none := by
  have hcons : upToPath (f :: rest) = [] := by simp [upToPath, hf]
  rw [HasAttributes, hcons]
  exact .none

/-! ## One field -/

/-- The last path gets the attributes that the fields give it, and keeps its own if they give none. -/
inductive Settles (fields : List Field) : List InstalledPath → List InstalledPath → Prop
  /-- There is no path. -/
  | nil : Settles fields [] []
  /-- There is a last path. -/
  | last (paths : List InstalledPath) (p : InstalledPath) {a : Option PathAttributes}
      (attributes : HasAttributes p.isDirectory fields a) :
      Settles fields (paths ++ [p]) (paths ++ [{ p with attributes := a.or p.attributes }])

theorem Settles.of_nil {fields : List Field} {settled : List InstalledPath} (h : Settles fields [] settled) :
    settled = [] := by
  generalize hq : ([] : List InstalledPath) = q at h
  cases h with
  | nil => rfl
  | last paths p ha => simp at hq

theorem Settles.of_concat {fields : List Field} {paths settled : List InstalledPath} {p : InstalledPath}
    (h : Settles fields (paths ++ [p]) settled) :
    ∃ a, HasAttributes p.isDirectory fields a ∧
      settled = paths ++ [{ p with attributes := a.or p.attributes }] := by
  generalize hq : paths ++ [p] = q at h
  cases h with
  | nil => simp at hq
  | last paths' p' ha =>
    obtain ⟨rfl, hp⟩ := List.append_inj' hq rfl
    obtain rfl := List.singleton_injective hp
    exact ⟨_, ha, rfl⟩

theorem Settles.cons {f : Field} (hf : namesPath f.1 = false) {rest : List Field}
    {first second third : List InstalledPath} (hfirst : Settles [f] first second)
    (hrest : Settles rest second third) : Settles (f :: rest) first third := by
  cases hfirst with
  | nil =>
    rw [hrest.of_nil]
    exact .nil
  | @last paths p a ha =>
    obtain ⟨b, hb, rfl⟩ := hrest.of_concat
    have hboth := Settles.last paths p (ha.cons hf hb)
    rwa [Option.or_assoc] at hboth

/-- Fields that give the last path nothing change nothing. -/
theorem Settles.refl {fields : List Field} (h : ∀ isDirectory, HasAttributes isDirectory fields none)
    (paths : List InstalledPath) : Settles fields paths paths := by
  induction paths using List.reverseRecOn with
  | nil => exact .nil
  | append_singleton paths p => exact .last paths p (h p.isDirectory)

theorem attach_settles (r : Record) {key : Char} {value : List Char} {a : PathAttributes}
    (ha : IsAttributes value a) (isDirectory : Bool) (hkey : key = attributesKey isDirectory) :
    Settles [(key, value)] r.installed.paths (r.attach isDirectory a).installed.paths := by
  have hgives := hasAttributes_singleton ha hkey
  cases hlast : r.installed.paths.getLast? with
  | none =>
    simp only [Record.attach, List.getLast?_eq_none_iff.1 hlast, List.getLast?_nil]
    exact .nil
  | some p =>
    obtain ⟨paths, hpaths⟩ := List.getLast?_eq_some_iff.1 hlast
    have hsettled := Settles.last paths p (hgives p.isDirectory)
    by_cases hkind : p.isDirectory = isDirectory
    · rw [if_pos hkind] at hsettled
      simpa [Record.attach, hlast, hkind, hpaths] using hsettled
    · rw [if_neg hkind] at hsettled
      simpa [Record.attach, hlast, hkind, hpaths] using hsettled

/-- What one field changes in a record. -/
structure Takes (r : Record) (f : Field) (r' : Record) : Prop where
  /-- The text of its key becomes its value. -/
  text : ∀ x ∈ texts, x.2 r'.installed.package =
    if f.1 = x.1 then String.ofList f.2 else x.2 r.installed.package
  /-- The checksum becomes what its value stands for if it has that key. -/
  checksum : if f.1 = 'C' then IsChecksum f.2 r'.installed.package.checksum
    else r'.installed.package.checksum = r.installed.package.checksum
  /-- A directory is opened. -/
  directory : r'.directory = if f.1 = 'F' then pathOf f.2 else r.directory
  /-- A path is added, or the last one gets attributes. -/
  paths : if namesPath f.1 then
      r'.installed.paths = r.installed.paths ++
        [⟨if f.1 = 'F' then pathOf f.2 else r.directory.join (pathOf f.2), f.1 == 'F', none⟩]
    else Settles [f] r.installed.paths r'.installed.paths

/-- A field of any other key gives no attributes. -/
theorem hasAttributes_none {f : Field} (hM : f.1 ≠ 'M') (ha : f.1 ≠ 'a') (isDirectory : Bool) :
    HasAttributes isDirectory [f] none := by
  have hkey : f.1 ≠ attributesKey isDirectory := by cases isDirectory <;> simpa [attributesKey]
  cases hpath : namesPath f.1 with
  | true => exact hasAttributes_of_namesPath hpath []
  | false =>
    have hup : upToPath [f] = [f] := by simp [upToPath, hpath]
    rw [HasAttributes, hup, lastValue_singleton, if_neg hkey]
    exact .none

theorem takes_attach (r : Record) {key : Char} {value : List Char} {a : PathAttributes}
    (ha : IsAttributes value a) (isDirectory : Bool) (hkey : key = attributesKey isDirectory) :
    Takes r (key, value) (r.attach isDirectory a) := by
  have hpackage : (r.attach isDirectory a).installed.package = r.installed.package := by
    unfold Record.attach
    repeat' split
    all_goals rfl
  have hdirectory : (r.attach isDirectory a).directory = r.directory := by
    unfold Record.attach
    repeat' split
    all_goals rfl
  have hsettles := attach_settles r ha isDirectory hkey
  rcases hkey with rfl
  cases isDirectory <;>
    exact ⟨by simp [texts, attributesKey, hpackage], by simp [attributesKey, hpackage],
      by simp [attributesKey, hdirectory], by simpa [attributesKey, namesPath] using hsettles⟩

/-- A text goes to its place. -/
theorem takes_text (r : Record) {key : Char} {value : List Char} {f : Package → Package}
    (hkey : key ≠ 'C' ∧ key ≠ 'F' ∧ key ≠ 'R' ∧ key ≠ 'M' ∧ key ≠ 'a')
    (htext : ∀ x ∈ texts, x.2 (f r.installed.package) =
      if key = x.1 then String.ofList value else x.2 r.installed.package)
    (hchecksum : (f r.installed.package).checksum = r.installed.package.checksum) :
    Takes r (key, value) (r.mapPackage f) := by
  obtain ⟨hC, hF, hR, hM, ha⟩ := hkey
  have hpath : namesPath key = false := by simp [namesPath, hF, hR]
  refine ⟨htext, ?_, (if_neg hF).symm, ?_⟩
  · rw [if_neg hC]
    exact hchecksum
  · rw [hpath, if_neg Bool.false_ne_true]
    exact Settles.refl (hasAttributes_none hM ha) r.installed.paths

theorem takes_of_addLine {r r' : Record} {number : Nat} {key : Char} {value : List Char}
    (h : r.addLine number key value = .ok r') : Takes r (key, value) r' := by
  unfold Record.addLine at h
  split at h
  case h_9 =>
    obtain ⟨bytes, hbytes, hr⟩ := Tree.exists_of_bind_eq_ok h
    rw [inContext_eq_ok_iff, readChecksum_eq_ok_iff] at hbytes
    obtain rfl := Except.ok.inj hr
    exact ⟨by simp [texts, Record.mapPackage], hbytes, rfl,
      Settles.refl (hasAttributes_none (by simp) (by simp)) r.installed.paths⟩
  case h_10 =>
    obtain rfl := Except.ok.inj h
    exact ⟨by simp [texts, Record.addPath], rfl, rfl, rfl⟩
  case h_11 =>
    obtain rfl := Except.ok.inj h
    exact ⟨by simp [texts, Record.addPath], rfl, rfl, rfl⟩
  case h_12 =>
    obtain ⟨a, ha, hr⟩ := Tree.exists_of_bind_eq_ok h
    rw [inContext_eq_ok_iff, readAttributes_eq_ok_iff] at ha
    obtain rfl := Except.ok.inj hr
    exact takes_attach r ha true rfl
  case h_13 =>
    obtain ⟨a, ha, hr⟩ := Tree.exists_of_bind_eq_ok h
    rw [inContext_eq_ok_iff, readAttributes_eq_ok_iff] at ha
    obtain rfl := Except.ok.inj hr
    exact takes_attach r ha false rfl
  case h_14 =>
    obtain rfl := Except.ok.inj h
    exact takes_text r (f := id) (by simp_all) (by simp_all [texts]) rfl
  all_goals
    obtain rfl := Except.ok.inj h
    exact takes_text r (by simp) (by simp [texts]) rfl

/-! ## All fields of a record -/

theorem text_of_reads {fields : List Field} {r r' : Record} (h : Reads r fields r')
    {x : Char × (Package → String)} (hx : x ∈ texts) :
    x.2 r'.installed.package =
      ((lastValue x.1 fields).map String.ofList).getD (x.2 r.installed.package) := by
  induction h with
  | nil r => rfl
  | cons number first more ih =>
    rw [ih, (takes_of_addLine first).text x hx, lastValue_cons]
    cases lastValue x.1 _ with
    | some value => rfl
    | none => split <;> rfl

theorem checksum_of_reads {fields : List Field} {r r' : Record} (h : Reads r fields r') :
    match lastValue 'C' fields with
    | some value => IsChecksum value r'.installed.package.checksum
    | none => r'.installed.package.checksum = r.installed.package.checksum := by
  induction h with
  | nil r => rfl
  | @cons r r₁ r₂ f rest number first more ih =>
    have hfirst := (takes_of_addLine first).checksum
    rw [lastValue_cons]
    cases hlast : lastValue 'C' rest with
    | some value =>
      rw [hlast] at ih
      exact ih
    | none =>
      rw [hlast] at ih
      by_cases hkey : f.1 = 'C'
      · rw [if_pos hkey, ← ih] at hfirst
        simpa [hkey] using hfirst
      · rw [if_neg hkey, ← ih] at hfirst
        simpa [hkey] using hfirst

/-- The paths that are there are settled by the fields, and then there is one path for each field that names one. -/
theorem paths_of_reads {fields : List Field} {r r' : Record} (h : Reads r fields r') (before : List Field)
    (hdirectory : r.directory = directoryAfter before) :
    ∃ settled named, r'.installed.paths = settled ++ named ∧
      Settles fields r.installed.paths settled ∧
      List.Forall₂ PathField.Names (pathFields before fields) named := by
  induction h generalizing before with
  | nil r => exact ⟨_, [], (List.append_nil _).symm, Settles.refl hasAttributes_nil _, .nil⟩
  | @cons r r₁ r₂ f rest number first more ih =>
    have htakes := takes_of_addLine first
    have hafter : r₁.directory = directoryAfter (before ++ [f]) := by
      rw [directoryAfter_append, htakes.directory, hdirectory]
    obtain ⟨settled, named, hpaths, hsettles, hnamed⟩ := ih (before ++ [f]) hafter
    have hone := htakes.paths
    cases hpath : namesPath f.1 with
    | false =>
      rw [hpath, if_neg Bool.false_ne_true] at hone
      exact ⟨settled, named, hpaths, hone.cons hpath hsettles, by simpa [pathFields, hpath] using hnamed⟩
    | true =>
      rw [hpath, if_pos rfl] at hone
      -- The path that this field names is the last one that the others can settle.
      rw [hone] at hsettles
      obtain ⟨a, ha, rfl⟩ := hsettles.of_concat
      rw [List.append_assoc, List.singleton_append, Option.or_none] at hpaths
      refine ⟨r.installed.paths, _, hpaths,
        Settles.refl (fun _ => hasAttributes_of_namesPath hpath rest) _, ?_⟩
      rw [pathFields, hpath, if_pos rfl]
      refine .cons ⟨rfl, ?_, ha⟩ hnamed
      rw [hdirectory]

theorem describes_of_reads {fields : List Field} {r : Record} (h : Reads .empty fields r) :
    Describes fields r.installed := by
  refine ⟨fun x hx => ?_, ?_, ?_⟩
  · have hempty : x.2 Record.empty.installed.package = "" := by
      revert x
      decide
    rw [text_of_reads h hx, hempty]
    cases lastValue x.1 fields <;> rfl
  · exact checksum_of_reads h
  · obtain ⟨settled, named, hpaths, hsettles, hnamed⟩ := paths_of_reads h [] rfl
    rwa [hpaths, hsettles.of_nil]

/-- In a database that is read, each longest run of lines that are not blank is written from fields, and the package
it makes is the one that these describe. -/
theorem parse_describes (text : String) (packages : List InstalledPackage) (h : parse text = .ok packages) :
    List.Forall₂ (fun run p => ∃ fields : List Field, run = fields.map Field.line ∧ Describes fields p)
      (runs (Text.lines text.toList)) packages := by
  rw [parse] at h
  have hruns := (List.forall₂_and_left _ _).2 ⟨fun run => mem_runs, readLines_eq_ok_iff_runs.1 h⟩
  refine hruns.imp fun run p hrun => ?_
  obtain ⟨⟨hne, hfull⟩, hread⟩ := hrun
  obtain ⟨fields, r, hfields, hreads, hp⟩ := readLines_full hfull (Or.inr hne) hread
  obtain rfl := List.singleton_injective hp
  exact ⟨fields, hfields, describes_of_reads hreads⟩

/-- A mode stands behind a file, two modes of files stand one behind the other, and a file of the second record has
no directory in front of it. -/
theorem parse_describes_mixed :
    let text := "P:a\nF:etc\nR:x\nM:0:0:755\na:1:2:600\na:3:4:4644\nF:\na:5:6:600\nM:7:8:700\nP:b\n\nR:z\n"
    let packages : List InstalledPackage :=
      [⟨{ name := "b" },
          [⟨.ofString "etc", true, none⟩, ⟨.ofString "etc/x", false, some ⟨⟨3, 4⟩, 0o4644⟩⟩,
            ⟨.ofString "", true, some ⟨⟨7, 8⟩, 0o700⟩⟩]⟩,
        ⟨{}, [⟨.ofString "z", false, none⟩]⟩]
    parse text = .ok packages ∧
      List.Forall₂ (fun run p => ∃ fields : List Field, run = fields.map Field.line ∧ Describes fields p)
        (runs (Text.lines text.toList)) packages := by
  intro text packages
  have hread : (parse text).toOption = some packages := by decide +kernel
  have hparse : parse text = .ok packages := by
    cases hp : parse text with
    | error e => simp [hp, Except.toOption] at hread
    | ok p =>
      rw [hp] at hread
      exact congrArg Except.ok (Option.some.inj hread)
  exact ⟨hparse, parse_describes text packages hparse⟩

end ImageLayer.InstalledDatabase
