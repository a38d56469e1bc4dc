import ImageLayer.Pass.OsRelease
import ImageLayer.Proofs.Text.Lines
import ImageLayer.Proofs.Text.Trim
import ImageLayer.Proofs.Text.Utf8
import ImageLayer.Proofs.Tree.Writing
/-!
Reading back the file that identifies an operating system.

The file assigns texts to keys, one in each line, and is read by the reader that looks for the operating system
later. Nothing is escaped when it is written: a short name goes into its line as it is, and a long one between
double quotes. So it is not always read as it was meant. `writeOsRelease_reads_iff`, the main statement, says of
each of the three fields that are read exactly when it is read as it was configured.

Sections:

* Reading. Of the assignments to a key the last counts (`foldl_addLine`): what is known after some lines is a
  function of them (`OsInfo.after`), which makes lists of lines compose.
* The text, which is that of the assignments in order (`toList_render`).
* Its lines. Each assignment has a line of its own, and behind it stray ones if line feeds are in its value
  (`lines_written`). What is read of a key is what the last stray line behind its assignment assigns to it, and
  if none does, its own value (`lastAssigned?_text`). Stray lines in front of it do not count, as later lines
  win.
* Values. One that is written is read back from its own line if it has no line feed and if nothing is taken off
  its ends (`Kept`). Blanks and quotes are taken off what is written as it is, and quotes off what is written
  between quotes. Blanks just inside quotes are not at the ends when these are trimmed, and stay.
* Reading back. `Conveys` puts both together: either the last stray line that assigns to the key happens to
  assign the value, or there is none and the value is kept.

Where no value has a line feed there are no stray lines (`strays_of_fields`), and each value is read back or not
whatever the others are. The fields for URLs and for the name that is shown are written and never read, but may
have line feeds too, and so matter to the others.
-/

namespace ImageLayer

/-! ## Reading -/

namespace OsInfo

/-- A value without the blanks around it, and then without the quotes. -/
def strip (value : List Char) : List Char := Text.trimBoth isQuote (Text.trim value)

/-- What a line assigns to a key. -/
def assigned? (key : String) (line : List Char) : Option String :=
  (Text.splitFirst? '=' line).bind fun (front, value) =>
    if String.ofList (Text.trim front) = key then some (String.ofList (strip value)) else none

/-- What the last of the lines that assign something to a key assigns to it. -/
def lastAssigned? (key : String) (lines : List (List Char)) : Option String :=
  (lines.filterMap (assigned? key)).getLast?

section

variable {key : String}

@[simp] theorem lastAssigned?_nil : lastAssigned? key [] = none := rfl

theorem lastAssigned?_append (a b : List (List Char)) :
    lastAssigned? key (a ++ b) = (lastAssigned? key b).or (lastAssigned? key a) := by
  rw [lastAssigned?, List.filterMap_append, List.getLast?_append, lastAssigned?, lastAssigned?]

theorem lastAssigned?_singleton (line : List Char) : lastAssigned? key [line] = assigned? key line := by
  rw [lastAssigned?, List.filterMap_cons]
  cases assigned? key line <;> rfl

theorem lastAssigned?_cons (line : List Char) (more : List (List Char)) :
    lastAssigned? key (line :: more) = (lastAssigned? key more).or (assigned? key line) := by
  rw [← List.singleton_append, lastAssigned?_append, lastAssigned?_singleton]

end

theorem eq_iff {a b : OsInfo} : a = b ↔ a.id = b.id ∧ a.name = b.name ∧ a.version = b.version := by
  cases a
  cases b
  rw [mk.injEq]

/-- What is known after lines were read: of the assignments to a key the last counts. -/
def after (info : OsInfo) (lines : List (List Char)) : OsInfo where
  id := (lastAssigned? "ID" lines).getD info.id
  name := (lastAssigned? "NAME" lines).getD info.name
  version := (lastAssigned? "VERSION_ID" lines).getD info.version

theorem after_append (info : OsInfo) (a b : List (List Char)) : (info.after a).after b = info.after (a ++ b) := by
  simp only [after, lastAssigned?_append, Option.getD_or]

theorem addLine_eq_after (info : OsInfo) (line : List Char) : info.addLine line = info.after [line] := by
  simp only [after, lastAssigned?_singleton]
  cases hsplit : Text.splitFirst? '=' line with
  | none => simp [addLine, assigned?, hsplit]
  | some pair =>
    obtain ⟨front, value⟩ := pair
    simp only [addLine, assigned?, hsplit, Option.bind_some, strip]
    split
    · rename_i hkey
      simp [hkey]
    · rename_i hkey
      simp [hkey]
    · rename_i hkey
      simp [hkey]
    · rename_i hid hname hversion
      rw [if_neg hid, if_neg hname, if_neg hversion]
      rfl

theorem foldl_addLine (info : OsInfo) (lines : List (List Char)) : lines.foldl addLine info = info.after lines := by
  induction lines generalizing info with
  | nil => rfl
  | cons line more ih => rw [List.foldl_cons, ih, addLine_eq_after, after_append, List.singleton_append]

theorem parse_eq_after (s : String) : parse s = after {} (Text.lines s.toList) := foldl_addLine {} _

end OsInfo

/-! ## The text -/

namespace OsRelease

open ImageLayer.Tree
open OsInfo (strip lastAssigned? assigned? isQuote)

/-- An assignment of the file. -/
structure Assignment where
  /-- What is assigned to. -/
  key : String
  /-- What is written behind the equals sign. Without it there is no assignment in the file. -/
  content : Option (List Char)

/-- The first line of what is written behind an equals sign. -/
def firstLine (content : List Char) : List Char := (Text.lines (content ++ ['\n'])).headD []

/-- The lines that line feeds in it make behind that. -/
def furtherLines (content : List Char) : List (List Char) := (Text.lines (content ++ ['\n'])).tail

/-- A value as it is. -/
def bare (value : List Char) : List Char := value

/-- A value between double quotes. -/
def quoted (value : List Char) : List Char := '"' :: value ++ ['"']

/-- A value in the form in which it is written. An empty value is not written. -/
def body (form : List Char → List Char) (value : Option String) : Option (List Char) :=
  (value.filter fun v => !v.isEmpty).map fun v => form v.toList

/-- The assignments of a file, in order. -/
def assignments (r : OsRelease) : List Assignment :=
  [⟨"ID", body bare r.id⟩, ⟨"NAME", body quoted r.name⟩, ⟨"PRETTY_NAME", body quoted r.prettyName⟩,
    ⟨"VERSION_ID", body bare r.versionId⟩, ⟨"HOME_URL", body quoted r.homeUrl⟩,
    ⟨"BUG_REPORT_URL", body quoted r.bugReportUrl⟩]

/-- The text of an assignment. -/
def written : Assignment → List Char
  | ⟨key, some content⟩ => key.toList ++ '=' :: content ++ ['\n']
  | ⟨_, none⟩ => []

/-- The lines that line feeds make of an assignment, behind its own. -/
def strayLines (a : Assignment) : List (List Char) := (a.content.map furtherLines).getD []

/-- The stray lines from the assignment to a key on, and all of them if nothing is assigned to it. -/
def strays (key : String) (l : List Assignment) : List (List Char) :=
  match l.dropWhile fun a => a.key ≠ key || a.content.isNone with
  | [] => l.flatMap strayLines
  | own :: behind => (own :: behind).flatMap strayLines

/-- A key that is read as it is written. -/
def IsKey (key : String) : Prop :=
  '\n' ∉ key.toList ∧ '\r' ∉ key.toList ∧ '=' ∉ key.toList ∧ Text.trim key.toList = key.toList

instance (key : String) : Decidable (IsKey key) := inferInstanceAs (Decidable (_ ∧ _))

theorem keys_assignments (r : OsRelease) : r.assignments.map Assignment.key
    = ["ID", "NAME", "PRETTY_NAME", "VERSION_ID", "HOME_URL", "BUG_REPORT_URL"] := rfl

theorem nodup_keys (r : OsRelease) : (r.assignments.map Assignment.key).Nodup := by
  rw [keys_assignments]
  decide

theorem isKey_of_mem {r : OsRelease} {a : Assignment} (ha : a ∈ r.assignments) : IsKey a.key := by
  have hkeys : ∀ key ∈ r.assignments.map Assignment.key, IsKey key := by
    rw [keys_assignments]
    decide
  exact hkeys a.key (List.mem_map_of_mem ha)

theorem toList_bareLine (key : String) (value : Option String) :
    (bareLine key value).toList = written ⟨key, body bare value⟩ := by
  unfold bareLine body
  cases value.filter fun v => !v.isEmpty <;> simp [written, bare]

theorem toList_quotedLine (key : String) (value : Option String) :
    (quotedLine key value).toList = written ⟨key, body quoted value⟩ := by
  unfold quotedLine body
  cases value.filter fun v => !v.isEmpty <;> simp [written, quoted]

theorem toList_render (r : OsRelease) : r.render.toList = r.assignments.flatMap written := by
  simp [render, assignments, toList_bareLine, toList_quotedLine]

/-! ## Its lines -/

section

variable {key : String} {content : List Char}

theorem lines_body (content : List Char) :
    Text.lines (content ++ ['\n']) = firstLine content :: furtherLines content := by
  cases hlines : Text.lines (content ++ ['\n']) with
  | nil => exact absurd hlines (Text.lines_ne_nil (by simp))
  | cons first more => simp [firstLine, furtherLines, hlines]

theorem not_mem_firstLine (content : List Char) : '\n' ∉ firstLine content :=
  (Text.mem_of_mem_lines (lines_body content ▸ List.mem_cons_self)).1

theorem lines_of_not_mem (h : '\n' ∉ content) :
    firstLine content = Text.dropReturn content ∧ furtherLines content = [] := by
  have hlines := Text.lines_line h []
  rw [lines_body, Text.lines_nil] at hlines
  exact List.cons.inj hlines

theorem lines_written (hkey : IsKey key) (content : List Char) :
    Text.lines (written ⟨key, some content⟩) = (key.toList ++ '=' :: firstLine content) :: furtherLines content := by
  obtain ⟨hnewline, hreturn, -⟩ := hkey
  have hnewline' : '\n' ∉ key.toList ++ ['='] := by simpa using hnewline
  have hreturn' : '\r' ∉ key.toList ++ ['='] := by simpa using hreturn
  simpa [written] using Text.lines_front hnewline' hreturn' (lines_body content)

theorem assigned?_own (hkey : IsKey key) (line : List Char) (key' : String) :
    assigned? key' (key.toList ++ '=' :: line) = if key = key' then some (String.ofList (strip line)) else none := by
  obtain ⟨-, -, hequals, htrim⟩ := hkey
  rw [assigned?, Text.splitFirst?_eq_some_iff.2 ⟨rfl, hequals⟩, Option.bind_some]
  dsimp only
  rw [htrim, String.ofList_toList]

/-- Lines that assign to other keys do not count, but the stray ones may. -/
theorem lastAssigned?_of_not_mem {l : List Assignment} (hkeys : ∀ a ∈ l, IsKey a.key)
    (hkey : ∀ a ∈ l, a.key ≠ key) :
    lastAssigned? key (l.flatMap fun a => Text.lines (written a)) = lastAssigned? key (l.flatMap strayLines) := by
  induction l with
  | nil => rfl
  | cons a l ih =>
    obtain ⟨hisKey, hkeys⟩ := List.forall_mem_cons.1 hkeys
    obtain ⟨hne, hkey⟩ := List.forall_mem_cons.1 hkey
    rw [List.flatMap_cons, List.flatMap_cons, OsInfo.lastAssigned?_append, OsInfo.lastAssigned?_append,
      ih hkeys hkey]
    congr 1
    obtain ⟨key', content⟩ := a
    cases content with
    | none => rfl
    | some content =>
      rw [lines_written hisKey, OsInfo.lastAssigned?_cons, assigned?_own hisKey, if_neg hne, Option.or_none]
      rfl

end

theorem lines_text (l : List Assignment) :
    Text.lines (l.flatMap written) = l.flatMap fun a => Text.lines (written a) := by
  induction l with
  | nil => rfl
  | cons a l ih =>
    obtain ⟨key, content⟩ := a
    rw [List.flatMap_cons, List.flatMap_cons, ← ih]
    cases content with
    | none => rfl
    | some content => exact Text.lines_append List.getLast?_concat _

/-- What is read of a key is its own value, or what the last stray line from there on assigns to it. -/
theorem lastAssigned?_text {l : List Assignment} (hkeys : ∀ a ∈ l, IsKey a.key)
    (hnodup : (l.map Assignment.key).Nodup) {key : String} {content : Option (List Char)} (hmem : ⟨key, content⟩ ∈ l) :
    lastAssigned? key (Text.lines (l.flatMap written))
      = (lastAssigned? key (strays key l)).or (content.map fun c => String.ofList (strip (firstLine c))) := by
  obtain ⟨front, behind, rfl⟩ := List.append_of_mem hmem
  have hisKey : IsKey key := hkeys _ hmem
  simp only [List.map_append, List.map_cons, List.nodup_append, List.nodup_cons, List.mem_cons, List.mem_map] at hnodup
  obtain ⟨-, ⟨hbehind, -⟩, hfront⟩ := hnodup
  have hfront : ∀ a ∈ front, a.key ≠ key := fun a ha => hfront a.key ⟨a, ha, rfl⟩ key (Or.inl rfl)
  have hbehind : ∀ a ∈ behind, a.key ≠ key := fun a ha heq => hbehind ⟨a, ha, heq⟩
  have hreadFront := lastAssigned?_of_not_mem (fun a ha => hkeys a (List.mem_append_left _ ha)) hfront
  have hreadBehind := lastAssigned?_of_not_mem
    (fun a ha => hkeys a (List.mem_append_right _ (List.mem_cons_of_mem _ ha))) hbehind
  rw [lines_text, List.flatMap_append, List.flatMap_cons, OsInfo.lastAssigned?_append,
    OsInfo.lastAssigned?_append, hreadFront, hreadBehind, strays,
    List.dropWhile_append_of_pos (by simpa using fun a ha => Or.inl (hfront a ha))]
  -- The stray lines in front of the own assignment count only where there is none.
  cases content with
  | none =>
    have hnone : behind.dropWhile (fun a => a.key ≠ key || a.content.isNone) = [] :=
      List.dropWhile_eq_nil_iff.2 (by simpa using fun a ha => Or.inl (hbehind a ha))
    rw [List.dropWhile_cons_of_pos (by simp), hnone]
    simp [OsInfo.lastAssigned?_append, written, strayLines]
  | some content =>
    rw [List.dropWhile_cons_of_neg (by simp), lines_written hisKey, OsInfo.lastAssigned?_cons,
      assigned?_own hisKey, if_pos rfl]
    simp [OsInfo.lastAssigned?_append, strayLines]

/-! ## Values -/

/-- A character that is taken off either end of a value that is written as it is. -/
def isMargin (c : Char) : Bool := Text.isBlank c || isQuote c

/-- A value is read back from its own line if that is all of it and nothing is taken off its ends. -/
def Kept (margin : Char → Bool) (value : List Char) : Prop := '\n' ∉ value ∧ Text.EndsOutside margin value

instance (margin : Char → Bool) (value : List Char) : Decidable (Kept margin value) :=
  inferInstanceAs (Decidable (_ ∧ _))

theorem strip_sublist (value : List Char) : (strip value).Sublist value :=
  Text.trimBoth_sublist.trans Text.trimBoth_sublist

/-- Whatever is read from one line has no line feed. -/
theorem not_mem_of_strip {content value : List Char} (h : strip (firstLine content) = value) : '\n' ∉ value :=
  fun hmem => not_mem_firstLine content ((strip_sublist _).subset (h ▸ hmem))

theorem strip_bare (value : List Char) : strip (firstLine (bare value)) = value ↔ Kept isMargin value := by
  have hstrip : strip value = value ↔ Text.EndsOutside isMargin value := Text.trimBoth_trimBoth_eq_self_iff
  rw [bare, Kept, ← hstrip]
  constructor
  · intro hread
    have hnewline := not_mem_of_strip hread
    rw [(lines_of_not_mem hnewline).1] at hread
    -- A carriage return at the end goes with the line, so that a value that comes back has none.
    have hline : Text.dropReturn value = value :=
      (Text.dropReturn_sublist value).antisymm (by simpa only [hread] using strip_sublist (Text.dropReturn value))
    exact ⟨hnewline, by rwa [hline] at hread⟩
  · rintro ⟨hnewline, hends⟩
    have hreturn : value.getLast? ≠ some '\r' := fun hlast =>
      (hstrip.1 hends).2 '\r' hlast (by decide)
    rw [(lines_of_not_mem hnewline).1, Text.dropReturn, if_neg hreturn, hends]

theorem getLast?_quoted (value : List Char) : (quoted value).getLast? = some '"' := List.getLast?_concat

theorem strip_quoted (value : List Char) : strip (firstLine (quoted value)) = value ↔ Kept isQuote value := by
  have hends : Text.trim (quoted value) = quoted value := by
    refine Text.trimBoth_eq_self_iff.2 ⟨fun c hc => ?_, fun c hc => ?_⟩
    · obtain rfl : '"' = c := by simpa [quoted] using hc
      decide
    · obtain rfl : '"' = c := by simpa [getLast?_quoted] using hc
      decide
  have hstrip : strip (quoted value) = value ↔ Text.EndsOutside isQuote value := by
    rw [strip, hends, quoted, Text.trimBoth_surrounded (by decide), Text.trimBoth_eq_self_iff]
  have hline : '\n' ∉ value → firstLine (quoted value) = quoted value := by
    intro hnewline
    rw [(lines_of_not_mem (by simpa [quoted] using hnewline)).1, Text.dropReturn, if_neg (by simp [getLast?_quoted])]
  rw [Kept, ← hstrip]
  constructor
  · intro hread
    have hnewline := not_mem_of_strip hread
    exact ⟨hnewline, by rwa [hline hnewline] at hread⟩
  · rintro ⟨hnewline, hread⟩
    rw [hline hnewline, hread]

/-- What an assignment conveys of a value, if it does. An empty value is read as none is. -/
theorem own_iff {form : List Char → List Char} {margin : Char → Bool}
    (hform : ∀ s, strip (firstLine (form s)) = s ↔ Kept margin s) (value : Option String) :
    ((body form value).map fun c => String.ofList (strip (firstLine c))).getD "" = value.getD ""
      ↔ ∀ v ∈ value, Kept margin v.toList := by
  have hempty : Kept margin [] := ⟨by simp, by simp [Text.EndsOutside]⟩
  cases value with
  | none => simp [body]
  | some v =>
    by_cases hv : v = ""
    · subst hv
      simpa [body, Option.filter] using hempty
    · have hbody : body form (some v) = some (form v.toList) := by simp [body, Option.filter, hv]
      rw [hbody, Option.map_some, Option.getD_some, Option.getD_some, ← String.toList_inj, String.toList_ofList,
        hform]
      simp

/-! ## Reading back -/

/-- What the configuration says the operating system is. -/
def identity (r : OsRelease) : OsInfo :=
  { id := r.id.getD "", name := r.name.getD "", version := r.versionId.getD "" }

/-- The fields of a configuration. -/
def fields (r : OsRelease) : List (Option String) :=
  [r.id, r.name, r.prettyName, r.versionId, r.homeUrl, r.bugReportUrl]

/-- What it takes for a value to be read back under its key: the last stray line that assigns something to the key
assigns that value, or no stray line does and the value is kept. -/
def Conveys (r : OsRelease) (key : String) (margin : Char → Bool) (value : Option String) : Prop :=
  (∀ read ∈ lastAssigned? key (strays key r.assignments), read = value.getD "") ∧
    (lastAssigned? key (strays key r.assignments) = none → ∀ v ∈ value, Kept margin v.toList)

instance (r : OsRelease) (key : String) (margin : Char → Bool) (value : Option String) :
    Decidable (r.Conveys key margin value) := inferInstanceAs (Decidable (_ ∧ _))

theorem lastAssigned?_render_iff {r : OsRelease} {key : String} {form : List Char → List Char}
    {margin : Char → Bool} {value : Option String} (hform : ∀ s, strip (firstLine (form s)) = s ↔ Kept margin s)
    (hmem : ⟨key, body form value⟩ ∈ r.assignments) :
    (lastAssigned? key (Text.lines r.render.toList)).getD "" = value.getD "" ↔ r.Conveys key margin value := by
  rw [toList_render, lastAssigned?_text (fun a ha => isKey_of_mem ha) r.nodup_keys hmem, Option.getD_or, Conveys]
  cases lastAssigned? key (strays key r.assignments) with
  | none => simpa using own_iff hform value
  | some read => simp

theorem parse_render_iff (r : OsRelease) :
    ((OsInfo.parse r.render).id = r.identity.id ↔ r.Conveys "ID" isMargin r.id) ∧
      ((OsInfo.parse r.render).name = r.identity.name ↔ r.Conveys "NAME" isQuote r.name) ∧
      ((OsInfo.parse r.render).version = r.identity.version ↔ r.Conveys "VERSION_ID" isMargin r.versionId) := by
  simp only [OsInfo.parse_eq_after, OsInfo.after, identity]
  exact ⟨lastAssigned?_render_iff strip_bare (by simp [assignments]),
    lastAssigned?_render_iff strip_quoted (by simp [assignments]),
    lastAssigned?_render_iff strip_bare (by simp [assignments])⟩

theorem strayLines_body {form : List Char → List Char} (hform : ∀ s, '\n' ∉ s → '\n' ∉ form s)
    {value : Option String} (hvalue : ∀ v ∈ value, '\n' ∉ v.toList) (key : String) :
    strayLines ⟨key, body form value⟩ = [] := by
  cases hbody : body form value with
  | none => rfl
  | some content =>
    obtain ⟨v, hv, rfl⟩ := Option.map_eq_some_iff.1 hbody
    exact (lines_of_not_mem (hform _ (hvalue v (Option.filter_eq_some_iff.1 hv).1))).2

/-- Values without line feeds make no stray lines. -/
theorem strays_of_fields {r : OsRelease} (h : ∀ value ∈ r.fields, ∀ v ∈ value, '\n' ∉ v.toList) (key : String) :
    strays key r.assignments = [] := by
  have hbare : ∀ s : List Char, '\n' ∉ s → '\n' ∉ bare s := fun _ hs => hs
  have hquoted : ∀ s : List Char, '\n' ∉ s → '\n' ∉ quoted s := fun _ hs => by simpa [quoted] using hs
  have hnone : ∀ a ∈ r.assignments, strayLines a = [] := by
    simp only [fields, List.forall_mem_cons] at h
    obtain ⟨hid, hname, hpretty, hversion, hhome, hreport, -⟩ := h
    simp only [assignments, List.forall_mem_cons]
    exact ⟨strayLines_body hbare hid _, strayLines_body hquoted hname _, strayLines_body hquoted hpretty _,
      strayLines_body hbare hversion _, strayLines_body hquoted hhome _, strayLines_body hquoted hreport _, nofun⟩
  unfold strays
  split
  · exact List.flatMap_eq_nil_iff.2 hnone
  · rename_i own behind hdrop
    refine List.flatMap_eq_nil_iff.2 fun a ha => hnone a ?_
    exact (List.dropWhile_sublist _).subset (hdrop ▸ ha)

/-- A written file is read back field by field exactly where the values convey it: each is read as it was configured
unless its own line, or one that a line feed has made, says otherwise. Where no value has a line feed, that is so
exactly if no bare value ends in a blank or a quote and no quoted one in a quote. -/
theorem writeOsRelease_reads_iff {r : OsRelease} {t t' : Tree} (h : Edit.writeOsRelease r t = .ok () t') :
    t.exists? location = false ∧ ∃ contents, t'.contentsAt location = .ok contents ∧
      let info := OsInfo.parse (Utf8.lossy contents)
      ((info.id = r.identity.id ↔ r.Conveys "ID" isMargin r.id) ∧
          (info.name = r.identity.name ↔ r.Conveys "NAME" isQuote r.name) ∧
          (info.version = r.identity.version ↔ r.Conveys "VERSION_ID" isMargin r.versionId)) ∧
        ((∀ value ∈ r.fields, ∀ v ∈ value, '\n' ∉ v.toList) →
          (info = r.identity ↔ (∀ v ∈ r.id, Text.EndsOutside isMargin v.toList) ∧
            (∀ v ∈ r.name, Text.EndsOutside isQuote v.toList) ∧
            ∀ v ∈ r.versionId, Text.EndsOutside isMargin v.toList)) := by
  obtain ⟨_, t₁, hask, hrest⟩ := of_bind_eq_ok h
  obtain ⟨hfree, rfl⟩ := Edit.of_ask_eq_ok hask
  obtain ⟨_, t₂, -, hwrite⟩ := of_bind_eq_ok hrest
  have hread := contentsAt_of_writeFile (Edit.of_change_eq_ok hwrite)
  have hexists : t₁.exists? location = false := by
    by_contra hexists
    rw [if_pos (by simpa using hexists)] at hfree
    cases hfree
  refine ⟨hexists, _, hread, ?_⟩
  rw [Utf8.lossy_ofString]
  have hfields := r.parse_render_iff
  refine ⟨hfields, fun hlines => ?_⟩
  have hkept : ∀ key margin value, value ∈ r.fields →
      (r.Conveys key margin value ↔ ∀ v ∈ value, Text.EndsOutside margin v.toList) := by
    intro key margin value hmem
    rw [Conveys, strays_of_fields hlines]
    exact ⟨fun h v hv => (h.2 rfl v hv).2, fun h => ⟨nofun, fun _ v hv => ⟨hlines value hmem v hv, h v hv⟩⟩⟩
  rw [OsInfo.eq_iff, hfields.1, hfields.2.1, hfields.2.2, hkept _ _ r.id (by simp [fields]),
    hkept _ _ r.name (by simp [fields]), hkept _ _ r.versionId (by simp [fields])]

/-- Quotes within a name are read back, and so are values behind a stray line that assigns nothing that is read. -/
theorem writeOsRelease_reads_inner_quotes :
    let r : OsRelease := { id := some "wolfi", name := some " The \"Best\" = ", prettyName := some "Best\nNo. 1" }
    ∃ t', Edit.writeOsRelease r Tree.empty = .ok () t' ∧ ∃ contents, t'.contentsAt location = .ok contents ∧
      OsInfo.parse (Utf8.lossy contents) = ⟨"wolfi", " The \"Best\" = ", ""⟩ := by
  intro r
  obtain ⟨_, hrun⟩ := Edit.exists_of_succeeds (x := Edit.writeOsRelease r) (t := Tree.empty) (by decide +kernel)
  obtain ⟨-, contents, hread, ⟨hid, hname, hversion⟩, -⟩ := writeOsRelease_reads_iff hrun
  refine ⟨_, hrun, contents, hread, OsInfo.eq_iff.2 ⟨hid.2 ?_, hname.2 ?_, hversion.2 ?_⟩⟩
  all_goals decide +kernel

/-- A line feed in the name that is shown makes a line that assigns another short name, and a name loses a quote
that it begins with. -/
theorem writeOsRelease_reads_other_identity :
    let r : OsRelease := { id := some "wolfi", name := some "\"Best\" Linux", prettyName := some "Wolfi\nID=other" }
    Tree.empty.exists? location = false ∧ ∃ t', Edit.writeOsRelease r Tree.empty = .ok () t' ∧
      ∃ contents, t'.contentsAt location = .ok contents ∧
        OsInfo.parse (Utf8.lossy contents) = ⟨"other", "Best\" Linux", ""⟩ ∧
        OsInfo.parse (Utf8.lossy contents) ≠ r.identity := by
  intro r
  obtain ⟨_, hrun⟩ := Edit.exists_of_succeeds (x := Edit.writeOsRelease r) (t := Tree.empty) (by decide +kernel)
  have hread : ((Edit.writeOsRelease r).left Tree.empty).contentsAt location = .ok (Bytes.ofString r.render) := by
    decide +kernel
  refine ⟨by decide +kernel, _, hrun, _, hread, ?_⟩
  rw [Utf8.lossy_ofString]
  decide +kernel

end OsRelease

end ImageLayer
