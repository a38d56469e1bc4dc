import Mathlib.Data.List.Forall2
import Mathlib.Data.List.TakeWhile
import ImageLayer.Package.InstalledDatabase
import ImageLayer.Proofs.Tree.Change
import ImageLayer.Proofs.Text.Lines
import ImageLayer.Proofs.Text.Numeral
/-!
The grammar of the installed database.

`parse_iff_lines`, the main statement, says which texts are databases and how they fall apart into packages:

* A database is read exactly if all its lines are lines in the sense of `IsLine`: blank, or with a key, a colon
  and a value, which for a checksum or for attributes has a form of its own.
* Otherwise the failure names the first line that is none, by its number and its text.
* Each longest run of lines that are not blank makes one package, and the same package that it makes alone.

Sections:

* Values. `IsChecksum` and `IsAttributes` say which values have the form their key asks for, and what they stand
  for; each reader has a lemma that says so of it (`readChecksum_eq_ok_iff`, `readAttributes_eq_ok_iff`).
* Lines. What a line does depends on the record that is open, but whether it is accepted does not:
  `addLine_eq_ok` and `addLine_eq_error` say so for a key and a value, `takeLine_eq_ok` and `takeLine_eq_error`
  for a whole line.
* All lines, by induction on them with the open record and the number of the next line as parameters. What
  stands before a blank line and what stands after it are read as if the other were not there
  (`readLines_append_blank`): that is where records become independent of each other.
* Runs of lines. `runs` cuts at blank lines, and `blank_induction` is the induction that goes with it. `Reads`
  is the relation of a run to the record it makes, field by field, through which the next module looks at
  records.

The decoders of base 64 and of hexadecimal digits are taken as they are. A key is any one character here, as the
reader takes it, and not a letter.
-/

namespace ImageLayer

theorem inContext_eq_ok_iff {α : Type} {context : Context} {x : Except Failure α} {a : α} :
    inContext context x = .ok a ↔ x = .ok a := by
  cases x <;> simp [inContext, Except.mapError]

theorem inContext_eq_error_iff {α : Type} {context : Context} {x : Except Failure α} {e : Failure} :
    inContext context x = .error e ↔ ∃ cause, x = .error cause ∧ e = .within context cause := by
  cases x <;> simp [inContext, Except.mapError, eq_comm]

namespace InstalledDatabase

/-! ## Values -/

/-- A checksum and its bytes: base 64 behind the mark `Q1`, or hexadecimal digits without that mark. -/
def IsChecksum (value : List Char) (bytes : Bytes) : Prop :=
  (∃ digits, value = 'Q' :: '1' :: digits ∧ Base64.decode? digits = some bytes) ∨
    (∀ digits, value ≠ 'Q' :: '1' :: digits) ∧ Bytes.ofHex? value = some bytes

/-- A number of 32 bits. -/
def IsWord (base : Nat) (s : List Char) (n : Nat) : Prop := Numeral.Writes base s n ∧ n ≤ Numeral.maxWord

/-- Owner and permissions: the numbers of the user and of the group, and the mode in octal. -/
def IsAttributes (value : List Char) (a : PathAttributes) : Prop :=
  ∃ uid gid mode : List Char, value = uid ++ ':' :: (gid ++ ':' :: mode) ∧
    IsWord 10 uid a.owner.uid.toNat ∧ IsWord 10 gid a.owner.gid.toNat ∧ IsWord 8 mode a.mode

theorem readChecksum_eq_ok_iff {value : List Char} {bytes : Bytes} :
    readChecksum value = .ok bytes ↔ IsChecksum value bytes := by
  unfold readChecksum IsChecksum
  split
  · rename_i digits
    cases hdecode : Base64.decode? digits <;> simp [hdecode]
  · rename_i hmark
    cases hdecode : Bytes.ofHex? value with
    | none => simpa using fun digits h => absurd h (hmark digits)
    | some bytes' =>
      have hno : ∀ digits, value ≠ 'Q' :: '1' :: digits := fun digits h => hmark digits h
      simp [hno]

theorem readWord_eq_ok_iff {base : Nat} (hbase : 0 < base) {s : List Char} {n : Nat} :
    readWord base s = .ok n ↔ IsWord base s n := by
  rw [readWord, IsWord, ← Numeral.natural_eq_ok_iff hbase]
  cases Numeral.natural base Numeral.maxWord s <;> simp [Except.mapError]

theorem IsWord.toNat_ofNat {base : Nat} {s : List Char} {n : Nat} (h : IsWord base s n) :
    (UInt32.ofNat n).toNat = n := by
  have hn : n ≤ 0xFFFFFFFF := h.2
  rw [UInt32.toNat_ofNat']
  omega

theorem readAttributes_eq_ok_iff {value : List Char} {a : PathAttributes} :
    readAttributes value = .ok a ↔ IsAttributes value a := by
  constructor
  · intro h
    unfold readAttributes at h
    split at h
    · cases h
    · rename_i uid rest hfirst
      split at h
      · cases h
      · rename_i gid mode hsecond
        obtain ⟨u, hu, h⟩ := Tree.exists_of_bind_eq_ok h
        obtain ⟨g, hg, h⟩ := Tree.exists_of_bind_eq_ok h
        obtain ⟨m, hm, h⟩ := Tree.exists_of_bind_eq_ok h
        obtain rfl := Except.ok.inj h
        rw [readWord_eq_ok_iff (by decide)] at hu hg hm
        obtain ⟨rfl, -⟩ := Text.splitFirst?_eq_some_iff.1 hfirst
        obtain ⟨rfl, -⟩ := Text.splitFirst?_eq_some_iff.1 hsecond
        refine ⟨uid, gid, mode, rfl, ?_, ?_, hm⟩
        · rwa [hu.toNat_ofNat]
        · rwa [hg.toNat_ofNat]
  · rintro ⟨uid, gid, mode, rfl, hu, hg, hm⟩
    have hfirst : Text.splitFirst? ':' (uid ++ ':' :: (gid ++ ':' :: mode)) = some (uid, gid ++ ':' :: mode) :=
      Text.splitFirst?_eq_some_iff.2 ⟨rfl, hu.1.colon_not_mem⟩
    have hsecond : Text.splitFirst? ':' (gid ++ ':' :: mode) = some (gid, mode) :=
      Text.splitFirst?_eq_some_iff.2 ⟨rfl, hg.1.colon_not_mem⟩
    rw [← readWord_eq_ok_iff (by decide)] at hu hg hm
    simp [readAttributes, hfirst, hsecond, hu, hg, hm, bind, Except.bind, pure, Except.pure]

/-! ## Lines -/

/-- The value has the form that its key asks for. -/
structure IsField (key : Char) (value : List Char) : Prop where
  /-- A checksum can be decoded. -/
  checksum : key = 'C' → ∃ bytes, IsChecksum value bytes
  /-- Owner and permissions are three numbers. -/
  attributes : key = 'M' ∨ key = 'a' → ∃ a, IsAttributes value a

/-- A line of a database: it is blank, or it has a key of one character, a colon and a value. -/
def IsLine (line : List Char) : Prop :=
  isBlankLine line ∨ ∃ key value, line = key :: ':' :: value ∧ IsField key value

/-- What is said of a line that is none. -/
def fault (line : List Char) (number : Nat) : Context :=
  match line with
  | 'C' :: ':' :: _ => .databaseChecksum number
  | 'M' :: ':' :: _ => .databaseAttributes number
  | 'a' :: ':' :: _ => .databaseAttributes number
  | _ => .databaseLine number

/-- The words in front of the number of a line that is none. -/
def complaint (line : List Char) : String :=
  match line with
  | 'C' :: ':' :: _ => "Invalid checksum on installed database line "
  | 'M' :: ':' :: _ => "Invalid attributes on installed database line "
  | 'a' :: ':' :: _ => "Invalid attributes on installed database line "
  | _ => "Malformed installed database line "

theorem fault_message (line : List Char) (number : Nat) :
    (fault line number).message = complaint line ++ toString number := by
  unfold fault complaint
  split <;> rfl

/-- Takes a line that is not blank into a record. -/
def Record.takeLine (r : Record) (number : Nat) (text : List Char) : Except Failure Record := do
  let (key, value) ← inContext (.databaseLine number) (splitLine text)
  r.addLine number key value

/-- Where only the first of two computations can fail, a failure is one of it. -/
theorem inContext_bind_eq_error {α β : Type} {context : Context} {x : Except Failure α}
    {f : α → Except Failure β} {e : Failure} (hf : ∀ a, ∃ b, f a = .ok b)
    (h : inContext context x >>= f = .error e) :
    (∀ a, x ≠ .ok a) ∧ ∃ cause, e = .within context cause := by
  cases hx : x with
  | ok a =>
    obtain ⟨b, hb⟩ := hf a
    rw [inContext_eq_ok_iff.2 hx] at h
    simp [bind, Except.bind, hb] at h
  | error cause =>
    rw [inContext_eq_error_iff.2 ⟨cause, hx, rfl⟩] at h
    exact ⟨nofun, cause, (Except.error.inj h).symm⟩

/-- A value that has not the form that its key asks for is the only reason to refuse it. -/
theorem addLine_eq_error {r : Record} {number : Nat} {key : Char} {value : List Char} {e : Failure}
    (h : r.addLine number key value = .error e) :
    ¬ IsField key value ∧ ∃ cause, e = .within (fault (key :: ':' :: value) number) cause := by
  unfold Record.addLine at h
  split at h
  case h_9 =>
    obtain ⟨hnone, hcause⟩ := inContext_bind_eq_error (fun _ => ⟨_, rfl⟩) h
    refine ⟨fun hfield => ?_, hcause⟩
    obtain ⟨bytes, hbytes⟩ := hfield.checksum rfl
    exact hnone bytes (readChecksum_eq_ok_iff.2 hbytes)
  case h_12 =>
    obtain ⟨hnone, hcause⟩ := inContext_bind_eq_error (fun _ => ⟨_, rfl⟩) h
    refine ⟨fun hfield => ?_, hcause⟩
    obtain ⟨a, ha⟩ := hfield.attributes (Or.inl rfl)
    exact hnone a (readAttributes_eq_ok_iff.2 ha)
  case h_13 =>
    obtain ⟨hnone, hcause⟩ := inContext_bind_eq_error (fun _ => ⟨_, rfl⟩) h
    refine ⟨fun hfield => ?_, hcause⟩
    obtain ⟨a, ha⟩ := hfield.attributes (Or.inr rfl)
    exact hnone a (readAttributes_eq_ok_iff.2 ha)
  all_goals cases h

/-- What is taken has the form that its key asks for, and the number of the line is of no account. -/
theorem addLine_eq_ok {r r' : Record} {number : Nat} {key : Char} {value : List Char}
    (h : r.addLine number key value = .ok r') :
    IsField key value ∧ ∀ number', r.addLine number' key value = .ok r' := by
  unfold Record.addLine at h ⊢
  split at h
  case h_9 =>
    obtain ⟨bytes, hbytes, hr⟩ := Tree.exists_of_bind_eq_ok h
    rw [inContext_eq_ok_iff] at hbytes
    refine ⟨⟨fun _ => ⟨bytes, readChecksum_eq_ok_iff.1 hbytes⟩, by simp⟩, fun number' => ?_⟩
    rw [inContext_eq_ok_iff.2 hbytes]
    exact hr
  case h_12 =>
    obtain ⟨a, ha, hr⟩ := Tree.exists_of_bind_eq_ok h
    rw [inContext_eq_ok_iff] at ha
    refine ⟨⟨by simp, fun _ => ⟨a, readAttributes_eq_ok_iff.1 ha⟩⟩, fun number' => ?_⟩
    rw [inContext_eq_ok_iff.2 ha]
    exact hr
  case h_13 =>
    obtain ⟨a, ha, hr⟩ := Tree.exists_of_bind_eq_ok h
    rw [inContext_eq_ok_iff] at ha
    refine ⟨⟨by simp, fun _ => ⟨a, readAttributes_eq_ok_iff.1 ha⟩⟩, fun number' => ?_⟩
    rw [inContext_eq_ok_iff.2 ha]
    exact hr
  case h_14 hC _ _ hM ha =>
    exact ⟨⟨fun hkey => absurd hkey hC, fun hkey => hkey.elim (fun h => absurd h hM) fun h => absurd h ha⟩,
      fun _ => h⟩
  all_goals exact ⟨⟨by simp, by simp⟩, fun _ => h⟩

theorem takeLine_eq_ok {r r' : Record} {number : Nat} {text : List Char}
    (h : r.takeLine number text = .ok r') :
    ∃ key value, text = key :: ':' :: value ∧ IsField key value ∧
      ∀ number', r.takeLine number' text = .ok r' := by
  obtain ⟨⟨key, value⟩, hsplit, hadd⟩ := Tree.exists_of_bind_eq_ok h
  rw [inContext_eq_ok_iff] at hsplit
  unfold splitLine at hsplit
  split at hsplit
  · obtain ⟨rfl, rfl⟩ := Prod.mk.inj (Except.ok.inj hsplit)
    obtain ⟨hfield, hnumber⟩ := addLine_eq_ok hadd
    exact ⟨_, _, rfl, hfield, hnumber⟩
  · cases hsplit

theorem takeLine_eq_error {r : Record} {number : Nat} {text : List Char} {e : Failure}
    (hblank : isBlankLine text = false) (h : r.takeLine number text = .error e) :
    ¬ IsLine text ∧ ∃ cause, e = .within (fault text number) cause := by
  by_cases hform : ∃ key value, text = key :: ':' :: value
  · obtain ⟨key, value, rfl⟩ := hform
    obtain ⟨hfield, hcause⟩ := addLine_eq_error h
    refine ⟨?_, hcause⟩
    rintro (hline | ⟨key', value', heq, hfield'⟩)
    · simp [hblank] at hline
    · obtain ⟨rfl, hrest⟩ := List.cons.inj heq
      obtain rfl := (List.cons.inj hrest).2
      exact hfield hfield'
  · have hsplit : splitLine text = .error (.lineWithoutKey (String.ofList text)) := by
      unfold splitLine
      split
      · exact absurd ⟨_, _, rfl⟩ hform
      · rfl
    have hfault : fault text number = .databaseLine number := by
      unfold fault
      split
      case h_4 => rfl
      all_goals exact absurd ⟨_, _, rfl⟩ hform
    rw [Record.takeLine, inContext_eq_error_iff.2 ⟨_, hsplit, rfl⟩] at h
    refine ⟨?_, _, by rw [hfault]; exact (Except.error.inj h).symm⟩
    rintro (hline | ⟨key, value, heq, -⟩)
    · simp [hblank] at hline
    · exact hform ⟨key, value, heq⟩

/-! ## All lines -/

theorem readLines_nil (number : Nat) (current : Option Record) :
    readLines number current [] = .ok (current.map Record.installed).toList := rfl

theorem readLines_blank {text : List Char} (h : isBlankLine text) (number : Nat) (current : Option Record)
    (rest : List (List Char)) :
    readLines number current (text :: rest)
      = (do return (current.map Record.installed).toList ++ (← readLines (number + 1) none rest)) := by
  rw [readLines, if_pos h]

theorem readLines_line {text : List Char} (h : isBlankLine text = false) (number : Nat)
    (current : Option Record) (rest : List (List Char)) :
    readLines number current (text :: rest)
      = (do readLines (number + 1) (some (← (current.getD .empty).takeLine number text)) rest) := by
  rw [readLines, if_neg (by simp [h]), Record.takeLine]
  cases inContext (.databaseLine number) (splitLine text) <;> rfl

theorem isLine_of_readLines {lines : List (List Char)} {number : Nat} {current : Option Record}
    {packages : List InstalledPackage} (h : readLines number current lines = .ok packages) :
    ∀ line ∈ lines, IsLine line := by
  induction lines generalizing number current packages with
  | nil => simp
  | cons text rest ih =>
    rw [List.forall_mem_cons]
    by_cases hblank : isBlankLine text
    · rw [readLines_blank hblank] at h
      obtain ⟨more, hmore, -⟩ := Tree.exists_of_bind_eq_ok h
      exact ⟨Or.inl hblank, ih hmore⟩
    · rw [readLines_line (by simpa using hblank)] at h
      obtain ⟨r, hr, hmore⟩ := Tree.exists_of_bind_eq_ok h
      obtain ⟨key, value, rfl, hfield, -⟩ := takeLine_eq_ok hr
      exact ⟨Or.inr ⟨key, value, rfl, hfield⟩, ih hmore⟩

/-- Reading fails at the first line that is none. -/
theorem readLines_eq_error {lines : List (List Char)} {number : Nat} {current : Option Record} {e : Failure}
    (h : readLines number current lines = .error e) :
    ∃ before line after, lines = before ++ line :: after ∧ (∀ l ∈ before, IsLine l) ∧ ¬ IsLine line ∧
      ∃ cause, e = .within (fault line (number + before.length)) cause := by
  induction lines generalizing number current with
  | nil => cases h
  | cons text rest ih =>
    -- The lines behind one that is taken, seen from it.
    have hlater : ∀ {current'}, IsLine text → readLines (number + 1) current' rest = .error e →
        ∃ before line after, text :: rest = before ++ line :: after ∧ (∀ l ∈ before, IsLine l) ∧
          ¬ IsLine line ∧ ∃ cause, e = .within (fault line (number + before.length)) cause := by
      intro current' hline hrest
      obtain ⟨before, line, after, rfl, hbefore, hfirst, cause, hcause⟩ := ih hrest
      refine ⟨text :: before, line, after, rfl, List.forall_mem_cons.2 ⟨hline, hbefore⟩, hfirst, cause, ?_⟩
      rw [hcause, List.length_cons, Nat.add_right_comm, Nat.add_assoc]
    by_cases hblank : isBlankLine text
    · rw [readLines_blank hblank] at h
      cases hrest : readLines (number + 1) none rest with
      | ok more => simp [hrest, bind, Except.bind, pure, Except.pure] at h
      | error e' =>
        rw [hrest] at h
        exact hlater (Or.inl hblank) (Except.error.inj h ▸ hrest)
    · have hfull : isBlankLine text = false := by simpa using hblank
      rw [readLines_line hfull] at h
      cases hr : (current.getD .empty).takeLine number text with
      | ok r =>
        rw [hr] at h
        obtain ⟨key, value, rfl, hfield, -⟩ := takeLine_eq_ok hr
        exact hlater (Or.inr ⟨key, value, rfl, hfield⟩) h
      | error e' =>
        rw [hr] at h
        obtain ⟨hnone, hcause⟩ := takeLine_eq_error hfull hr
        exact ⟨[], text, rest, rfl, by simp, hnone, Except.error.inj h ▸ hcause⟩

theorem readLines_number {lines : List (List Char)} {number : Nat} {current : Option Record}
    {packages : List InstalledPackage} (h : readLines number current lines = .ok packages) (number' : Nat) :
    readLines number' current lines = .ok packages := by
  induction lines generalizing number number' current packages with
  | nil => exact h
  | cons text rest ih =>
    by_cases hblank : isBlankLine text
    · rw [readLines_blank hblank] at h ⊢
      obtain ⟨more, hmore, hpackages⟩ := Tree.exists_of_bind_eq_ok h
      rw [ih hmore (number' + 1)]
      exact hpackages
    · have hfull : isBlankLine text = false := by simpa using hblank
      rw [readLines_line hfull] at h ⊢
      obtain ⟨r, hr, hmore⟩ := Tree.exists_of_bind_eq_ok h
      obtain ⟨-, -, -, -, hnumber⟩ := takeLine_eq_ok hr
      rw [hnumber number']
      exact ih hmore (number' + 1)

/-- What stands before a blank line and what stands behind it are read apart. -/
theorem readLines_append_blank {blank : List Char} (hblank : isBlankLine blank)
    {before after : List (List Char)} {number : Nat} {current : Option Record}
    {packages : List InstalledPackage} :
    readLines number current (before ++ blank :: after) = .ok packages ↔
      ∃ first second, readLines number current before = .ok first ∧ readLines 1 none after = .ok second ∧
        packages = first ++ second := by
  induction before generalizing number current packages with
  | nil =>
    rw [List.nil_append, readLines_blank hblank, readLines_nil]
    constructor
    · intro h
      obtain ⟨more, hmore, hpackages⟩ := Tree.exists_of_bind_eq_ok h
      exact ⟨_, more, rfl, readLines_number hmore 1, (Except.ok.inj hpackages).symm⟩
    · rintro ⟨first, second, hfirst, hsecond, rfl⟩
      obtain rfl := Except.ok.inj hfirst
      rw [readLines_number hsecond (number + 1)]
      rfl
  | cons text before ih =>
    rw [List.cons_append]
    by_cases htext : isBlankLine text
    · rw [readLines_blank htext, readLines_blank htext]
      constructor
      · intro h
        obtain ⟨more, hmore, hpackages⟩ := Tree.exists_of_bind_eq_ok h
        obtain ⟨first, second, hfirst, hsecond, rfl⟩ := ih.1 hmore
        refine ⟨(current.map Record.installed).toList ++ first, second, ?_, hsecond, ?_⟩
        · rw [hfirst]
          rfl
        · rw [List.append_assoc]
          exact (Except.ok.inj hpackages).symm
      · rintro ⟨first, second, hfirst, hsecond, rfl⟩
        obtain ⟨more, hmore, hpackages⟩ := Tree.exists_of_bind_eq_ok hfirst
        obtain rfl := Except.ok.inj hpackages
        rw [ih.2 ⟨more, second, hmore, hsecond, rfl⟩, List.append_assoc]
        rfl
    · have hfull : isBlankLine text = false := by simpa using htext
      rw [readLines_line hfull, readLines_line hfull]
      cases (current.getD .empty).takeLine number text with
      | ok r => exact ih
      | error e => simp [bind, Except.bind]

/-! ## Runs of lines -/

/-- The longest runs of lines that are not blank, in order. -/
def runs (lines : List (List Char)) : List (List (List Char)) :=
  (lines.splitOnP isBlankLine).filter fun run => !run.isEmpty

theorem runs_append_blank {blank : List Char} (hblank : isBlankLine blank) (before after : List (List Char)) :
    runs (before ++ blank :: after) = runs before ++ runs after := by
  rw [runs, List.splitOnP_append_cons before after hblank, List.filter_append]
  rfl

theorem runs_of_full {run : List (List Char)} (h : ∀ line ∈ run, isBlankLine line = false) :
    runs run = if run = [] then [] else [run] := by
  rw [runs, List.splitOnP_eq_singleton h]
  by_cases hrun : run = [] <;> simp [hrun]

/-- What holds of lines that are not blank, and with the lines behind a blank one for these, the blank one and
any that are not blank in front of it, holds of all lines. -/
theorem blank_induction {P : List (List Char) → Prop}
    (full : ∀ run, (∀ line ∈ run, isBlankLine line = false) → P run)
    (append : ∀ run blank after, (∀ line ∈ run, isBlankLine line = false) → isBlankLine blank → P after →
      P (run ++ blank :: after))
    (lines : List (List Char)) : P lines := by
  induction hlength : lines.length using Nat.strong_induction_on generalizing lines with
  | _ length ih =>
    cases hrest : lines.dropWhile fun line => !isBlankLine line with
    | nil =>
      refine full lines fun line hline => ?_
      simpa using List.dropWhile_eq_nil_iff.1 hrest line hline
    | cons blank after =>
      have hlines : lines = lines.takeWhile (fun line => !isBlankLine line) ++ blank :: after := by
        rw [← hrest, List.takeWhile_append_dropWhile]
      have hblank : isBlankLine blank := by
        have hhead := List.head?_dropWhile_not (fun line => !isBlankLine line) lines
        rw [hrest] at hhead
        simpa using hhead
      have hshorter : after.length < length := by
        rw [← hlength, hlines]
        simp
        omega
      rw [hlines]
      refine append _ blank after (fun line hline => ?_) hblank (ih _ hshorter after rfl)
      simpa using List.mem_takeWhile_imp hline

/-- The lines of a run are not blank, and there is at least one. -/
theorem mem_runs {lines run : List (List Char)} (h : run ∈ runs lines) :
    run ≠ [] ∧ ∀ line ∈ run, isBlankLine line = false := by
  induction lines using blank_induction with
  | full lines hlines =>
    rw [runs_of_full hlines] at h
    split at h
    · cases h
    · obtain rfl := List.mem_singleton.1 h
      exact ⟨‹_›, hlines⟩
  | append lines blank after hlines hblank ih =>
    rw [runs_append_blank hblank, runs_of_full hlines] at h
    rcases List.mem_append.1 h with h | h
    · split at h
      · cases h
      · obtain rfl := List.mem_singleton.1 h
        exact ⟨‹_›, hlines⟩
    · exact ih h

/-- A line of a record: its key and its value. -/
abbrev Field := Char × List Char

/-- How a field is written. -/
def Field.line (f : Field) : List Char := f.1 :: ':' :: f.2

/-- Fields taken into a record in order. -/
inductive Reads : Record → List Field → Record → Prop
  /-- No field changes nothing. -/
  | nil (r : Record) : Reads r [] r
  /-- The first field, and then the others. -/
  | cons {r r₁ r₂ : Record} {f : Field} {rest : List Field} (number : Nat)
      (first : r.addLine number f.1 f.2 = .ok r₁) (more : Reads r₁ rest r₂) : Reads r (f :: rest) r₂

/-- Lines that are not blank make one package of their fields. -/
theorem readLines_full {run : List (List Char)} (h : ∀ line ∈ run, isBlankLine line = false) {number : Nat}
    {current : Option Record} (hopen : current.isSome ∨ run ≠ []) {packages : List InstalledPackage}
    (hread : readLines number current run = .ok packages) :
    ∃ fields r, run = fields.map Field.line ∧ Reads (current.getD .empty) fields r ∧
      packages = [r.installed] := by
  induction run generalizing number current packages with
  | nil =>
    obtain ⟨r, rfl⟩ := Option.isSome_iff_exists.1 (hopen.resolve_right fun hne => hne rfl)
    exact ⟨[], r, rfl, .nil r, (Except.ok.inj hread).symm⟩
  | cons text rest ih =>
    obtain ⟨htext, hrest⟩ := List.forall_mem_cons.1 h
    rw [readLines_line htext] at hread
    obtain ⟨r₁, hr₁, hmore⟩ := Tree.exists_of_bind_eq_ok hread
    obtain ⟨key, value, rfl, -, -⟩ := takeLine_eq_ok hr₁
    obtain ⟨fields, r, rfl, hreads, rfl⟩ := ih hrest (Or.inl rfl) hmore
    exact ⟨(key, value) :: fields, r, rfl, .cons number hr₁ hreads, rfl⟩

/-- Each run of lines makes the package that it makes on its own. -/
theorem readLines_eq_ok_iff_runs {lines : List (List Char)} {packages : List InstalledPackage} :
    readLines 1 none lines = .ok packages ↔
      List.Forall₂ (fun run p => readLines 1 none run = .ok [p]) (runs lines) packages := by
  -- Lines that are not blank are one run or none.
  have hfull : ∀ {run packages}, (∀ line ∈ run, isBlankLine line = false) →
      (readLines 1 none run = .ok packages ↔
        List.Forall₂ (fun run p => readLines 1 none run = .ok [p]) (runs run) packages) := by
    intro run packages hrun
    rw [runs_of_full hrun]
    by_cases hnil : run = []
    · subst hnil
      rw [if_pos rfl, readLines_nil, List.forall₂_nil_left_iff]
      exact ⟨fun h => (Except.ok.inj h).symm, fun h => h ▸ rfl⟩
    · rw [if_neg hnil]
      constructor
      · intro h
        obtain ⟨fields, r, rfl, -, rfl⟩ := readLines_full hrun (Or.inr hnil) h
        exact List.Forall₂.cons h List.Forall₂.nil
      · intro h
        obtain ⟨p, rest, hp, hrest, rfl⟩ := List.forall₂_cons_left_iff.1 h
        rw [List.forall₂_nil_left_iff.1 hrest]
        exact hp
  induction lines using blank_induction generalizing packages with
  | full run hrun => exact hfull hrun
  | append run blank after hrun hblank ih =>
    rw [readLines_append_blank hblank, runs_append_blank hblank]
    constructor
    · rintro ⟨first, second, hfirst, hsecond, rfl⟩
      exact List.rel_append ((hfull hrun).1 hfirst) (ih.1 hsecond)
    · intro h
      have hfirst := (List.forall₂_take_append packages _ _ h.flip).flip
      have hsecond := (List.forall₂_drop_append packages _ _ h.flip).flip
      exact ⟨_, _, (hfull hrun).2 hfirst, ih.2 hsecond, (List.take_append_drop _ packages).symm⟩

/-! ## The database -/

/-- A database is read exactly if all its lines are lines, and otherwise the failure names the first that is none
by its number. Each longest run of lines that are not blank makes one package, in order, the one that it makes on
its own. With a line feed between them, a text that is empty or ends in a line feed and any other text are
read exactly if both are, as the packages of the one and those of the other. -/
theorem parse_iff_lines (text : String) :
    ((∃ packages, parse text = .ok packages) ↔ ∀ line ∈ Text.lines text.toList, IsLine line) ∧
      (∀ e, parse text = .error e →
        ∃ before line after, Text.lines text.toList = before ++ line :: after ∧
          (∀ l ∈ before, IsLine l) ∧ ¬ IsLine line ∧
          e.message = complaint line ++ toString (before.length + 1)) ∧
      (∀ packages, parse text = .ok packages →
        List.Forall₂ (fun run p => readLines 1 none run = .ok [p]) (runs (Text.lines text.toList))
          packages) ∧
      (text = "" ∨ text.toList.getLast? = some '\n' → ∀ other packages,
        parse (text ++ "\n" ++ other) = .ok packages ↔
          ∃ first second, parse text = .ok first ∧ parse other = .ok second ∧
            packages = first ++ second) := by
  have herror : ∀ e, parse text = .error e →
      ∃ before line after, Text.lines text.toList = before ++ line :: after ∧
        (∀ l ∈ before, IsLine l) ∧ ¬ IsLine line ∧
        e.message = complaint line ++ toString (before.length + 1) := by
    intro e he
    rw [parse] at he
    obtain ⟨before, line, after, hlines, hbefore, hline, cause, rfl⟩ := readLines_eq_error he
    refine ⟨before, line, after, hlines, hbefore, hline, ?_⟩
    rw [Nat.add_comm before.length]
    exact fault_message line (1 + before.length)
  refine ⟨⟨?_, fun hall => ?_⟩, herror, fun packages h => ?_, fun hend other packages => ?_⟩
  · rintro ⟨packages, h⟩
    rw [parse] at h
    exact isLine_of_readLines h
  · cases hparse : parse text with
    | ok packages => exact ⟨packages, rfl⟩
    | error e =>
      obtain ⟨before, line, after, hlines, -, hline, -⟩ := herror e hparse
      exact absurd (hall line (by simp [hlines])) hline
  · rw [parse] at h
    exact readLines_eq_ok_iff_runs.1 h
  · have hlines : Text.lines (text ++ "\n" ++ other).toList
        = Text.lines text.toList ++ [] :: Text.lines other.toList := by
      have hnewline : "\n".toList = ['\n'] := rfl
      rw [String.toList_append, String.toList_append, hnewline, List.append_assoc, List.singleton_append]
      rcases hend with rfl | hend
      · rfl
      · rw [Text.lines_append hend, Text.lines_newline]
    have hblank : isBlankLine [] = true := rfl
    simp only [parse, hlines, readLines_append_blank hblank]

/-- Two databases with line endings of both kinds, a separator that is not empty and a key that is not of ASCII,
read one after the other, and one with a mode that is not octal. -/
theorem parse_iff_lines_joined :
    let first := "P:a:b\r\nC:Q1AAAA\n \t\r\nF:etc\nM:+0:007:0755\n"
    let second := "é::\nR:x"
    let broken := "P:a\n\nM:0:0:8\nnone"
    (∃ a b, parse first = .ok a ∧ parse second = .ok b ∧ parse (first ++ "\n" ++ second) = .ok (a ++ b) ∧
        a.length = 2) ∧
      ∃ e before line after, parse broken = .error e ∧
        Text.lines broken.toList = before ++ line :: after ∧ (∀ l ∈ before, IsLine l) ∧ ¬ IsLine line ∧
        e.message = complaint line ++ toString (before.length + 1) ∧
        e.message = "Invalid attributes on installed database line 3" := by
  intro first second broken
  obtain ⟨-, -, -, hjoin⟩ := parse_iff_lines first
  obtain ⟨-, herror, -, -⟩ := parse_iff_lines broken
  have hfirst : (match parse first with
      | .ok a => a.length == 2
      | .error _ => false) = true := by decide +kernel
  have hsecond : (match parse second with
      | .ok _ => true
      | .error _ => false) = true := by decide +kernel
  have hbroken : (match parse broken with
      | .ok _ => ""
      | .error e => e.message) = "Invalid attributes on installed database line 3" := by decide +kernel
  constructor
  · cases ha : parse first with
    | error e => simp [ha] at hfirst
    | ok a =>
      cases hb : parse second with
      | error e => simp [hb] at hsecond
      | ok b =>
        refine ⟨a, b, rfl, rfl, ?_, by simpa [ha] using hfirst⟩
        exact (hjoin (Or.inr (by decide +kernel)) second (a ++ b)).2 ⟨a, b, ha, hb, rfl⟩
  · cases he : parse broken with
    | ok a => simp [he] at hbroken
    | error e =>
      obtain ⟨before, line, after, hlines, hbefore, hline, hmessage⟩ := herror e he
      exact ⟨e, before, line, after, rfl, hlines, hbefore, hline, hmessage, by simpa [he] using hbroken⟩

end InstalledDatabase

end ImageLayer
