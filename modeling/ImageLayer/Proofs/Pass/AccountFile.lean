import Mathlib.Algebra.Order.BigOperators.Group.List
import Mathlib.Algebra.Order.Ring.Nat
import ImageLayer.Pass.Accounts
import ImageLayer.Proofs.Text.Lines
/-!
The text of an account file, and what merging does to it.

An account file is a list of records, one in each line, and merging is done in three moves: the lines are read,
records are added behind them, and all of it is written anew. So two things have to be known of it: which
records are there afterwards, and when the text as a whole is the one that it was. The first is `merge_eq`, the
second `render_merge_eq_iff`.

Sections:

* Merging. The records that are there stay, and those whose name is new come behind them, so that each name
  stands for the record that had it first (`find?_merge`), and merging again adds nothing (`merge_merge`).
* Reading what was written. Records without line endings are read back (`records_render_of_isRecord`). Others
  lose a carriage return at their end, and are lost with it if nothing else is in them.
* Counting, which is how texts are compared. No colon is lost by reading, and no carriage return comes in
  (`total_records`).
* Texts that stay. A text is tidy if it is the one of its own records (`IsTidy`). A merge leaves a text exactly
  if this is tidy and no record is new. The same holds of two merges into one file
  (`render_merge_merge_eq_iff`).
* The records of groups and users, which consist of texts and numbers with colons between them. They are read
  back if the declared texts are clean (`IsClean`), and have a colon whatever these are.

That a merge which leaves the text adds no record does not follow from what is read back: a record that is added
might make up for one that reading lost. It would bring a colon more than the text had, and writing the records
of a text has no more colons than the text. This is why the records that are added are taken to have a colon,
here and wherever a file is said to be left alone.
-/

namespace ImageLayer.AccountFile

/-! ## Merging -/

/-- The names of records. -/
def names (all : List String) : List String := all.map recordName

/-- The records that none before them has the name of, where `before` come first. -/
def newRecords (before : List String) : List String → List String
  | [] => []
  | r :: rest =>
    if recordName r ∈ names before then newRecords (before ++ [r]) rest
    else r :: newRecords (before ++ [r]) rest

theorem mem_names_concat {before : List String} {r name : String} :
    name ∈ names (before ++ [r]) ↔ name ∈ names before ∨ name = recordName r := by
  rw [names, List.map_append, List.mem_append]
  exact or_congr_right List.mem_singleton

theorem merge_eq_of_names {all before : List String} (h : ∀ n, n ∈ names all ↔ n ∈ names before)
    (added : List String) : merge all added = all ++ newRecords before added := by
  induction added generalizing all before with
  | nil => simp [merge, newRecords]
  | cons r rest ih =>
    have hany : (all.any fun q => recordName q = recordName r) = true ↔ recordName r ∈ names before := by
      rw [← h, names, List.mem_map]
      simp
    have hcons : merge all (r :: rest)
        = merge (if all.any fun q => recordName q = recordName r then all else all ++ [r]) rest := rfl
    rw [hcons, newRecords]
    by_cases hr : recordName r ∈ names before
    · rw [if_pos (hany.2 hr), if_pos hr]
      refine ih fun n => ?_
      rw [h, mem_names_concat]
      exact ⟨Or.inl, fun hn => hn.elim id fun hn => hn ▸ hr⟩
    · rw [if_neg fun hall => hr (hany.1 hall), if_neg hr, ih fun n => ?_, List.append_assoc,
        List.singleton_append]
      rw [mem_names_concat, mem_names_concat, h]

/-- The records that are there stay, and the new ones come behind them. -/
theorem merge_eq (present added : List String) : merge present added = present ++ newRecords present added :=
  merge_eq_of_names (fun _ => Iff.rfl) added

theorem mem_of_mem_newRecords {before added : List String} {r : String} (h : r ∈ newRecords before added) :
    r ∈ added ∧ recordName r ∉ names before := by
  induction added generalizing before with
  | nil => cases h
  | cons q rest ih =>
    have hlater : r ∈ newRecords (before ++ [q]) rest → r ∈ q :: rest ∧ recordName r ∉ names before := by
      intro hr
      obtain ⟨hmem, hname⟩ := ih hr
      exact ⟨List.mem_cons_of_mem q hmem, fun h => hname (mem_names_concat.2 (Or.inl h))⟩
    rw [newRecords] at h
    split at h
    · exact hlater h
    · rename_i hq
      rcases List.mem_cons.1 h with rfl | hr
      · exact ⟨List.mem_cons_self, hq⟩
      · exact hlater hr

/-- No two new records have the same name. -/
theorem nodup_names_newRecords (before added : List String) : (names (newRecords before added)).Nodup := by
  induction added generalizing before with
  | nil => exact List.nodup_nil
  | cons r rest ih =>
    rw [newRecords]
    split
    · exact ih _
    · refine List.nodup_cons.2 ⟨fun hr => ?_, ih _⟩
      obtain ⟨q, hq, hname⟩ := List.mem_map.1 hr
      exact (mem_of_mem_newRecords hq).2 (mem_names_concat.2 (Or.inr hname))

/-- The first record of a name is the one that was there, and else the first one that is added. -/
theorem find?_merge (present added : List String) (name : String) :
    (merge present added).find? (recordName · = name)
      = (present.find? (recordName · = name)).or (added.find? (recordName · = name)) := by
  have hnew : ∀ before : List String, name ∉ names before →
      (newRecords before added).find? (recordName · = name) = added.find? (recordName · = name) := by
    induction added with
    | nil => exact fun _ _ => rfl
    | cons r rest ih =>
      intro before hbefore
      rw [newRecords]
      by_cases hr : recordName r = name
      · rw [if_neg (hr ▸ hbefore), List.find?_cons_of_pos (by simpa using hr),
          List.find?_cons_of_pos (by simpa using hr)]
      · have hlater : name ∉ names (before ++ [r]) := fun h =>
          (mem_names_concat.1 h).elim hbefore (Ne.symm hr)
        rw [List.find?_cons_of_neg (by simpa using hr), ← ih _ hlater]
        split
        · rfl
        · rw [List.find?_cons_of_neg (by simpa using hr)]
  rw [merge_eq, List.find?_append]
  cases hfind : present.find? (recordName · = name) with
  | some r => rfl
  | none =>
    rw [Option.none_or, Option.none_or]
    refine hnew present fun hname => ?_
    obtain ⟨r, hr, hrname⟩ := List.mem_map.1 hname
    simpa [hrname] using List.find?_eq_none.1 hfind r hr

/-- No record is new exactly if the name of each is there. -/
theorem newRecords_eq_nil_iff {before added : List String} :
    newRecords before added = [] ↔ ∀ r ∈ added, recordName r ∈ names before := by
  constructor
  · intro h r hr
    have hfind := find?_merge before added (recordName r)
    rw [merge_eq, h, List.append_nil] at hfind
    by_contra hname
    have hnone : before.find? (recordName · = recordName r) = none := by
      refine List.find?_eq_none.2 fun q hq hqr => hname ?_
      exact List.mem_map.2 ⟨q, hq, by simpa using hqr⟩
    rw [hnone, Option.none_or] at hfind
    simpa using List.find?_eq_none.1 hfind.symm r hr
  · intro h
    refine List.eq_nil_iff_forall_not_mem.2 fun r hr => ?_
    obtain ⟨hmem, hname⟩ := mem_of_mem_newRecords hr
    exact hname (h r hmem)

/-- Merging the same records again adds none. -/
theorem merge_merge (present added : List String) :
    merge (merge present added) added = merge present added := by
  rw [merge_eq (merge present added), newRecords_eq_nil_iff.2 fun r hr => ?_, List.append_nil]
  have hfind := find?_merge present added (recordName r)
  have hsome : ((merge present added).find? (recordName · = recordName r)).isSome := by
    rw [hfind, Option.isSome_or, Bool.or_eq_true]
    exact Or.inr (List.find?_isSome.2 ⟨r, hr, by simp⟩)
  obtain ⟨q, hq, hname⟩ := List.find?_isSome.1 hsome
  exact List.mem_map.2 ⟨q, hq, by simpa using hname⟩

/-! ## Reading what was written -/

/-- The records as they are written: a line feed behind each, and one alone if there are none. -/
theorem toList_render (all : List String) :
    (render all).toList = if all = [] then ['\n'] else all.flatMap fun r => r.toList ++ ['\n'] := by
  rw [render, String.toList_append, String.toList_intercalate]
  induction all with
  | nil => rfl
  | cons r rest ih =>
    cases rest with
    | nil => simp
    | cons q rest =>
      rw [List.map_cons, List.map_cons, List.intercalate_cons_cons, List.append_assoc, List.append_assoc,
        ← List.map_cons, ih]
      simp

/-- What can be written and read back. -/
structure IsRecord (r : String) : Prop where
  /-- It is not empty. -/
  nonempty : r ≠ ""
  /-- It is on one line. -/
  line : '\n' ∉ r.toList
  /-- It does not end in what belongs to a line ending. -/
  ending : r.toList.getLast? ≠ some '\r'

theorem mem_records {s r : String} (h : r ∈ records s) :
    r ≠ "" ∧ '\n' ∉ r.toList ∧ ∀ c ∈ r.toList, c ∈ s.toList := by
  obtain ⟨line, hline, rfl⟩ := List.mem_map.1 h
  obtain ⟨hmem, hne⟩ := List.mem_filter.1 hline
  refine ⟨?_, ?_⟩
  · simpa using hne
  · simpa using Text.mem_of_mem_lines hmem

/-- Each record is read without a carriage return at its end, if it is not empty then. -/
theorem records_render {all : List String} (h : ∀ r ∈ all, '\n' ∉ r.toList) :
    records (render all)
      = ((all.map fun r => Text.dropReturn r.toList).filter fun l => !l.isEmpty).map String.ofList := by
  have hlines : Text.lines (all.flatMap fun r => r.toList ++ ['\n'])
      = all.map fun r => Text.dropReturn r.toList := by
    induction all with
    | nil => rfl
    | cons r rest ih =>
      obtain ⟨hr, hrest⟩ := List.forall_mem_cons.1 h
      rw [List.flatMap_cons, List.append_assoc, List.singleton_append, Text.lines_line hr, ih hrest,
        List.map_cons]
  rw [records, toList_render]
  split
  · rename_i hall
    simp [hall]
  · rw [hlines]

theorem records_render_of_isRecord {all : List String} (h : ∀ r ∈ all, IsRecord r) :
    records (render all) = all := by
  rw [records_render fun r hr => (h r hr).line]
  have hsame : ∀ r ∈ all, Text.dropReturn r.toList = r.toList := fun r hr => if_neg (h r hr).ending
  rw [List.map_congr_left hsame, List.filter_eq_self.2, List.map_map]
  · simp [Function.comp_def]
  · intro l hl
    obtain ⟨r, hr, rfl⟩ := List.mem_map.1 hl
    simpa using (h r hr).nonempty

/-! ## Counting -/

/-- How often a character occurs in records. -/
def total (c : Char) (all : List String) : Nat := (all.map fun r => r.toList.count c).sum

theorem total_append (c : Char) (a b : List String) : total c (a ++ b) = total c a + total c b := by
  simp [total]

theorem eq_nil_of_total_eq_zero {c : Char} {all : List String} (h : ∀ r ∈ all, c ∈ r.toList)
    (hzero : total c all = 0) : all = [] := by
  refine List.eq_nil_iff_forall_not_mem.2 fun r hr => ?_
  have hcount : r.toList.count c = 0 := List.sum_eq_zero_iff.1 hzero _ (List.mem_map_of_mem hr)
  exact List.count_eq_zero.1 hcount (h r hr)

theorem total_filter (c : Char) (ls : List (List Char)) :
    total c ((ls.filter fun l => !l.isEmpty).map String.ofList) = (ls.map (List.count c)).sum := by
  induction ls with
  | nil => rfl
  | cons line more ih => cases line <;> simpa [total] using ih

/-- Cutting a text into lines takes carriage returns away, and no other character but line feeds. -/
theorem sum_count_lines {c : Char} (hc : c ≠ '\n') (s : List Char) :
    ((Text.lines s).map (List.count c)).sum ≤ s.count c ∧
      (c ≠ '\r' → ((Text.lines s).map (List.count c)).sum = s.count c) := by
  induction s using Text.lines_induction with
  | nil => simp
  | newline rest ih => simpa [List.count_cons, hc.symm] using ih
  | ending rest ih =>
    rw [Text.lines_return_newline, List.count_cons, List.count_cons_of_ne hc.symm]
    simp only [List.map_cons, List.count_nil, List.sum_cons, Nat.zero_add]
    refine ⟨Nat.le_add_right_of_le ih.1, fun hr => ?_⟩
    simpa [hr.symm] using ih.2 hr
  | cons d rest hd hending ih =>
    have hfirst : ((Text.consFirst d (Text.lines rest)).map (List.count c)).sum
        = ((Text.lines rest).map (List.count c)).sum + if d = c then 1 else 0 := by
      cases Text.lines rest with
      | nil => simp [Text.consFirst, List.count_cons]
      | cons line more =>
        simp only [Text.consFirst, List.map_cons, List.sum_cons, List.count_cons, beq_iff_eq]
        omega
    rw [Text.lines_cons hd hending, hfirst, List.count_cons]
    simp only [beq_iff_eq]
    exact ⟨Nat.add_le_add_right ih.1 _, fun hr => congrArg (· + _) (ih.2 hr)⟩

theorem total_records {c : Char} (hc : c ≠ '\n') (s : String) :
    total c (records s) ≤ s.toList.count c ∧ (c ≠ '\r' → total c (records s) = s.toList.count c) := by
  rw [records, total_filter]
  exact sum_count_lines hc s.toList

theorem count_render {c : Char} (hc : c ≠ '\n') (all : List String) :
    (render all).toList.count c = total c all := by
  rw [toList_render]
  split
  · rename_i hall
    simp [hall, total, hc.symm]
  · rw [List.count_flatMap, total]
    congr 2
    funext r
    simp [hc.symm]

/-- Where reading takes no carriage return away, no record ends in one. -/
theorem isRecord_of_total {all : List String} (h : ∀ r ∈ all, r ≠ "" ∧ '\n' ∉ r.toList)
    (htotal : total '\r' all ≤ total '\r' (records (render all))) : ∀ r ∈ all, IsRecord r := by
  have hle : ∀ r : String, (Text.dropReturn r.toList).count '\r' ≤ r.toList.count '\r' := by
    intro r
    unfold Text.dropReturn
    split
    · exact (List.dropLast_sublist _).count_le _
    · exact le_rfl
  have hlt : ∀ r : String, r.toList.getLast? = some '\r' →
      (Text.dropReturn r.toList).count '\r' < r.toList.count '\r' := by
    intro r hr
    obtain ⟨line, hline⟩ := List.getLast?_eq_some_iff.1 hr
    rw [Text.dropReturn, if_pos hr, hline, List.dropLast_concat, List.count_append]
    simp
  refine fun r hr => ⟨(h r hr).1, (h r hr).2, fun hend => ?_⟩
  rw [records_render fun r hr => (h r hr).2, total_filter, List.map_map, total] at htotal
  exact absurd (List.sum_lt_sum _ _ (fun r _ => hle r) ⟨r, hr, hlt r hend⟩) (Nat.not_lt.2 htotal)

/-! ## Texts that stay -/

/-- A text that is the one of its own records. -/
def IsTidy (s : String) : Prop := ∃ all : List String, (∀ r ∈ all, IsRecord r) ∧ s = render all

theorem isTidy_iff {s : String} : IsTidy s ↔ s = render (records s) := by
  constructor
  · rintro ⟨all, hall, rfl⟩
    rw [records_render_of_isRecord hall]
  · intro h
    refine ⟨records s, isRecord_of_total (fun r hr => ?_) ?_, h⟩
    · exact ⟨(mem_records hr).1, (mem_records hr).2.1⟩
    · rw [← h]

/-- A record that is added cannot be made up for: it brings a colon. -/
theorem newRecords_eq_nil_of_count {present added : List String} (hadded : ∀ r ∈ added, ':' ∈ r.toList)
    (hcount : (render (merge present added)).toList.count ':' ≤ total ':' present) :
    newRecords present added = [] := by
  rw [count_render (by decide), merge_eq, total_append] at hcount
  exact eq_nil_of_total_eq_zero (fun r hr => hadded r (mem_of_mem_newRecords hr).1) (by omega)

theorem total_colon_records (s : String) : total ':' (records s) = s.toList.count ':' :=
  (total_records (by decide) s).2 (by decide)

/-- A merge leaves a text exactly if this is tidy and no record is new. -/
theorem render_merge_eq_iff {s : String} {added : List String} (hadded : ∀ r ∈ added, ':' ∈ r.toList) :
    render (merge (records s) added) = s ↔ IsTidy s ∧ newRecords (records s) added = [] := by
  rw [isTidy_iff]
  constructor
  · intro h
    have hnew : newRecords (records s) added = [] :=
      newRecords_eq_nil_of_count hadded (by rw [h, total_colon_records])
    rw [merge_eq, hnew, List.append_nil] at h
    exact ⟨h.symm, hnew⟩
  · rintro ⟨hs, hnew⟩
    rw [merge_eq, hnew, List.append_nil, ← hs]

/-- The same for one merge after the other. -/
theorem render_merge_merge_eq_iff {s : String} {first second : List String}
    (hfirst : ∀ r ∈ first, ':' ∈ r.toList) (hsecond : ∀ r ∈ second, ':' ∈ r.toList) :
    render (merge (records (render (merge (records s) first))) second) = s ↔
      IsTidy s ∧ newRecords (records s) first = [] ∧ newRecords (records s) second = [] := by
  constructor
  · intro h
    -- Neither merge adds a record.
    have hcount : s.toList.count ':' ≤ (render (merge (records s) first)).toList.count ':' := by
      rw [count_render (by decide), merge_eq, total_append, total_colon_records]
      exact Nat.le_add_right _ _
    have hnew₂ : newRecords (records (render (merge (records s) first))) second = [] :=
      newRecords_eq_nil_of_count hsecond (by rwa [h, total_colon_records])
    rw [merge_eq _ second, hnew₂, List.append_nil] at h
    have hnew₁ : newRecords (records s) first = [] := by
      refine newRecords_eq_nil_of_count hfirst ?_
      rw [← total_colon_records, ← count_render (by decide), h, total_colon_records]
    rw [merge_eq, hnew₁, List.append_nil] at h hnew₂
    -- So the text is read and written twice, and no carriage return is lost.
    have hrecords : ∀ r ∈ records s, IsRecord r := by
      refine isRecord_of_total (fun r hr => ⟨(mem_records hr).1, (mem_records hr).2.1⟩) ?_
      rw [← count_render (by decide) (records (render (records s))), h]
      exact (total_records (by decide) s).1
    rw [records_render_of_isRecord hrecords] at h hnew₂
    exact ⟨isTidy_iff.2 h.symm, hnew₁, hnew₂⟩
  · rintro ⟨hs, hnew₁, hnew₂⟩
    rw [isTidy_iff] at hs
    rw [merge_eq _ first, hnew₁, List.append_nil, ← hs, merge_eq, hnew₂, List.append_nil, ← hs]

/-! ## The records of groups and users -/

/-- Nothing in the text ends a line or could belong to a line ending. -/
def IsClean (s : String) : Prop := '\n' ∉ s.toList ∧ '\r' ∉ s.toList

instance (s : String) : Decidable (IsClean s) := inferInstanceAs (Decidable (_ ∧ _))

theorem isClean_iff {s : String} : IsClean s ↔ ∀ c ∈ s.toList, c ≠ '\n' ∧ c ≠ '\r' := by
  constructor
  · rintro ⟨hnewline, hreturn⟩ c hc
    exact ⟨fun h => hnewline (h ▸ hc), fun h => hreturn (h ▸ hc)⟩
  · exact fun h => ⟨fun hc => (h _ hc).1 rfl, fun hc => (h _ hc).2 rfl⟩

theorem IsClean.append {a b : String} (ha : IsClean a) (hb : IsClean b) : IsClean (a ++ b) := by
  rw [isClean_iff] at *
  intro c hc
  rw [String.toList_append] at hc
  exact (List.mem_append.1 hc).elim (ha c) (hb c)

theorem isClean_number (n : UInt32) : IsClean (toString n) := by
  refine isClean_iff.2 fun c hc => ?_
  have hdigit : c.isDigit := by
    refine Nat.isDigit_of_mem_toDigits (b := 10) (n := n.toNat) (by decide) le_rfl ?_
    rwa [← String.toList_ofList (l := Nat.toDigits 10 n.toNat)]
  constructor <;>
  · rintro rfl
    exact absurd hdigit (by decide)

theorem IsClean.intercalate {separator : String} (hseparator : IsClean separator) {parts : List String}
    (hparts : ∀ p ∈ parts, IsClean p) : IsClean (separator.intercalate parts) := by
  refine isClean_iff.2 fun c hc => ?_
  rw [String.toList_intercalate] at hc
  induction parts with
  | nil => cases hc
  | cons p rest ih =>
    obtain ⟨hp, hrest⟩ := List.forall_mem_cons.1 hparts
    cases rest with
    | nil => exact isClean_iff.1 hp c (by simpa using hc)
    | cons q rest =>
      rw [List.map_cons, List.map_cons, List.intercalate_cons_cons, List.append_assoc, List.mem_append,
        List.mem_append, ← List.map_cons] at hc
      rcases hc with hc | hc | hc
      · exact isClean_iff.1 hp c hc
      · exact isClean_iff.1 hseparator c hc
      · exact ih hrest hc

theorem IsClean.isRecord {s : String} (h : IsClean s) (hne : s ≠ "") : IsRecord s :=
  ⟨hne, h.1, fun hend => h.2 (List.mem_of_getLast? hend)⟩

theorem colon_mem_groupRecord (g : Group) : ':' ∈ (groupRecord g).toList := by
  simp [groupRecord]

theorem colon_mem_userRecord (u : User) : ':' ∈ (userRecord u).toList := by
  simp [userRecord]

theorem ne_empty_of_colon {r : String} (h : ':' ∈ r.toList) : r ≠ "" := by
  rintro rfl
  cases h

/-- The texts in the declaration of a group are clean. -/
def GroupIsClean (g : Group) : Prop := IsClean g.name ∧ ∀ m ∈ g.members, IsClean m

/-- The texts in the declaration of a user are clean. -/
def UserIsClean (u : User) : Prop :=
  IsClean u.name ∧ (∀ home ∈ u.home, IsClean home) ∧ ∀ shell ∈ u.shell, IsClean shell

theorem isRecord_groupRecord {g : Group} (h : GroupIsClean g) : IsRecord (groupRecord g) := by
  refine IsClean.isRecord ?_ (ne_empty_of_colon (colon_mem_groupRecord g))
  have hmembers : IsClean (",".intercalate g.members) := IsClean.intercalate (by decide) h.2
  exact (((h.1.append (by decide)).append (isClean_number g.gid)).append (by decide)).append hmembers

theorem isRecord_userRecord {u : User} (h : UserIsClean u) : IsRecord (userRecord u) := by
  obtain ⟨hname, hhome, hshell⟩ := h
  have hhome' : IsClean u.effectiveHome := by
    unfold User.effectiveHome
    cases hu : u.home with
    | none => exact IsClean.append (by decide) hname
    | some home => exact hhome home hu
  have hshell' : IsClean u.effectiveShell := by
    unfold User.effectiveShell
    cases hu : u.shell with
    | none => decide
    | some shell => exact hshell shell hu
  refine IsClean.isRecord ?_ (ne_empty_of_colon (colon_mem_userRecord u))
  have hnumbers : IsClean (u.name ++ ":x:" ++ toString u.uid ++ ":" ++ toString u.effectiveGid) :=
    (((hname.append (by decide)).append (isClean_number u.uid)).append (by decide)).append (isClean_number _)
  exact (((hnumbers.append (by decide)).append hhome').append (by decide)).append hshell'

theorem isRecord_of_mem_records {s r : String} (hs : '\r' ∉ s.toList) (h : r ∈ records s) : IsRecord r := by
  obtain ⟨hne, hline, hmem⟩ := mem_records h
  exact ⟨hne, hline, fun hend => hs (hmem _ (List.mem_of_getLast? hend))⟩

/-- What is written is read back as the same records, and merging the same again leaves it. -/
theorem render_merge_again {s : String} (hs : '\r' ∉ s.toList) {added : List String}
    (hadded : ∀ r ∈ added, IsRecord r) :
    records (render (merge (records s) added)) = merge (records s) added ∧
      render (merge (records (render (merge (records s) added))) added) = render (merge (records s) added) := by
  have hread : records (render (merge (records s) added)) = merge (records s) added := by
    refine records_render_of_isRecord fun r hr => ?_
    rw [merge_eq, List.mem_append] at hr
    exact hr.elim (isRecord_of_mem_records hs) fun hr => hadded r (mem_of_mem_newRecords hr).1
  exact ⟨hread, by rw [hread, merge_merge]⟩

end ImageLayer.AccountFile
