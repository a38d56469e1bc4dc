import ImageLayer.Proofs.Pass.AccountFile
import ImageLayer.Proofs.Pass.Additions
import ImageLayer.Proofs.Pass.Homes
import ImageLayer.Proofs.Text.Percent
import ImageLayer.Proofs.Text.Utf8
/-!
Merging accounts into a tree.

There are two statements. `mergeAccounts_leaves_iff` says when an account file is left alone by a merge that
succeeds: if no account is declared, or if it is a tidy text in which every name that is declared has a record
already. It has no further conditions, and so what is not tidy is written anew even if no record is new, and a
file that is not there is made. `mergeAccounts_again` says which records a merge leaves, and that the same merge
made again changes nothing in the whole tree.

Sections:

* One account file. `merged_of_mergeRecords` is all that merging records into a file does, and
  `mergeRecords_of_fileAt` says when it does nothing.
* All accounts. A merge that succeeds is four steps (`Steps`): the directory of the account files, a merge into
  each of the two files, and the homes. Each of them only extends the tree (`Extends`), so that paths lead where
  they led before, and the texts of both files afterwards are known from those before (`Steps.files`).
* Files that are left alone. `Complete` says what it takes, and is put into terms of texts by `complete_iff`.
* Merging again. Each of the four steps finds done what it did before (`Steps.again`).

The two paths may lead to one file, through symbolic links. Then the users are merged into it after the groups,
and the file is left alone only if it has all names of both. A second merge would find the groups again, but
behind the users a first one put there, so that `mergeAccounts_again` takes the files to be two (`SameFile`).
Its other conditions are on texts: what is declared has no line endings in it, and the files are texts without
carriage returns (`Readable`), since a line loses the one at its end each time it is read.

Homes come last and go into the same tree. What makes them the same again is a matter of its own, and of which
user was given what last (`Edit.makeHomes_again`).
-/

namespace ImageLayer

open ImageLayer.Tree

/-! ## One account file -/

namespace AccountFile

/-- The text of the file at a path, which is empty if there is none. -/
def textIn (t : Tree) (file : String) : String :=
  match t.contentsAt (.ofString file) with
  | .ok contents => Utf8.lossy contents
  | .error _ => ""

/-- The text after a merge. -/
def merged (s : String) (added : List String) : String := render (merge (records s) added)

/-- What is in a tree after records were merged into the file at `l`. -/
structure Merged (t : Tree) (file : String) (added : List String) (l : Location) (t' : Tree) : Prop where
  /-- The path leads there. -/
  place : t.locate? true (Path.ofString file).parts = some l
  /-- There was a file, or the path named nothing. -/
  before : (∃ contents, t.FileAt l contents) ∨ t.get? l = none ∧ t.exists? (.ofString file) = false
  /-- There is a file with the merged text. -/
  after : t'.FileAt l (Bytes.ofString (merged (textIn t file) added))
  /-- Nothing else has changed. -/
  others : ∀ k, k ≠ l → t'.get? k = t.get? k

theorem textIn_of_exists?_eq_false {t : Tree} {file : String} (h : t.exists? (.ofString file) = false) :
    textIn t file = "" := by
  unfold textIn
  cases hread : t.contentsAt (.ofString file) with
  | ok contents =>
    obtain ⟨l, e, hl, hget⟩ := exists_of_contentsAt hread
    rw [exists?_of_get? hl hget] at h
    cases h
  | error e => rfl

theorem textIn_of_contentsAt {t : Tree} {file : String} {contents : Bytes}
    (h : t.contentsAt (.ofString file) = .ok contents) : textIn t file = Utf8.lossy contents := by
  rw [textIn, h]

theorem textIn_of_fileAt {t : Tree} {file : String} {l : Location} {contents : Bytes} (h : t.FileAt l contents)
    (hl : t.locate? true (Path.ofString file).parts = some l) : textIn t file = Utf8.lossy contents :=
  textIn_of_contentsAt (h.contentsAt hl)

theorem Merged.extends {t t' : Tree} {file : String} {added : List String} {l : Location}
    (h : Merged t file added l t') : Extends (· = l) t t' := by
  refine extends_of_fileAt (fun e hget => ?_) h.after h.others
  rcases h.before with ⟨contents, old, hold, hkind⟩ | ⟨hnone, -⟩
  · exact Entry.isFile_iff.2 ⟨contents, Option.some.inj (hget.symm.trans hold) ▸ hkind⟩
  · simp [hnone] at hget

end AccountFile

namespace Edit

open AccountFile

variable {t t' : Tree} {file : String} {added : List String} {v : Unit}

theorem readTextIfPresent_eq_ok {s : String} (h : readTextIfPresent (.ofString file) t = .ok s t') :
    t' = t ∧ s = textIn t file ∧
      (t.exists? (.ofString file) → ∃ contents, t.contentsAt (.ofString file) = .ok contents) := by
  obtain ⟨_, _, hget, hrest⟩ := of_bind_eq_ok h
  obtain ⟨rfl, rfl⟩ := of_get_eq_ok hget
  split at hrest
  · obtain ⟨contents, t₁, hread, hpure⟩ := of_bind_eq_ok hrest
    obtain ⟨hread, rfl⟩ := of_consult_eq_ok (of_inContext_eq_ok hread)
    obtain ⟨rfl, rfl⟩ := of_pure_eq_ok hpure
    exact ⟨rfl, (textIn_of_contentsAt hread).symm, fun _ => ⟨contents, hread⟩⟩
  · rename_i hexists
    obtain ⟨rfl, rfl⟩ := of_pure_eq_ok hrest
    have hfree := Bool.eq_false_iff.2 hexists
    exact ⟨rfl, (textIn_of_exists?_eq_false hfree).symm, fun h => absurd h hexists⟩

theorem readTextIfPresent_of_fileAt {l : Location} {s : String}
    (hl : t.locate? true (Path.ofString file).parts = some l) (hfile : t.FileAt l (Bytes.ofString s)) :
    readTextIfPresent (.ofString file) t = .ok s t := by
  have hread := consult_of_eq_ok (f := fun t => t.contentsAt (.ofString file)) (hfile.contentsAt hl)
  obtain ⟨e, hget, -⟩ := hfile
  have hexists := exists?_of_get? hl hget
  refine (bind_of_eq_ok (x := get) rfl _).trans ?_
  rw [if_pos hexists]
  refine (bind_of_eq_ok (inContext_of_eq_ok _ hread) _).trans ?_
  rw [Utf8.lossy_ofString]
  rfl

/-- Merging records is writing the merged text to the file, or to a new one where the path names nothing. -/
theorem merged_of_mergeRecords (h : mergeRecords file added t = .ok v t') :
    ∃ l, Merged t file added l t' := by
  obtain ⟨s, t₁, hread, hwrite⟩ := of_bind_eq_ok h
  obtain ⟨rfl, rfl, hcontents⟩ := readTextIfPresent_eq_ok hread
  obtain ⟨l, hl, hafter, hbefore, hothers⟩ := fileAt_of_writeFile (of_change_eq_ok (of_inContext_eq_ok hwrite))
  refine ⟨l, hl, ?_, hafter, hothers⟩
  cases hget : t₁.get? l with
  | some old =>
    obtain ⟨contents, hkind⟩ := Entry.isFile_iff.1 (hbefore old hget)
    exact Or.inl ⟨contents, old, hget, hkind⟩
  | none =>
    refine Or.inr ⟨rfl, Bool.eq_false_iff.2 fun hexists => ?_⟩
    obtain ⟨contents, hok⟩ := hcontents hexists
    obtain ⟨k, e, hk, hgetk⟩ := exists_of_contentsAt hok
    rw [Option.some.inj (hk.symm.trans hl), hget] at hgetk
    cases hgetk

/-- Where the file is there and a merge would not change its text, it changes nothing. -/
theorem mergeRecords_of_fileAt {l : Location} {s : String} (hl : t.locate? true (Path.ofString file).parts = some l)
    (hfile : t.FileAt l (Bytes.ofString s)) (hs : merged s added = s) :
    mergeRecords file added t = .ok () t := by
  have hread := readTextIfPresent_of_fileAt hl hfile
  obtain ⟨e, hget, hkind⟩ := hfile
  have hwrite : t.writeFile (.ofString file) (Bytes.ofString s) 0o644 = .ok t := by
    refine writeFile_eq_ok_iff.2 ⟨l, e, hl, (set_of_get? hget).symm, Or.inl ⟨e, hget, ?_, ?_⟩⟩
    · exact Entry.isFile_iff.2 ⟨_, hkind⟩
    · rw [← hkind]
  refine (bind_of_eq_ok hread _).trans ?_
  rw [merged] at hs
  rw [hs]
  exact inContext_of_eq_ok _ (change_of_eq_ok hwrite)

end Edit

/-! ## All accounts -/

namespace AccountFile

/-- The records of the declared groups. -/
def groupRecords (accounts : Accounts) : List String := accounts.groups.map groupRecord

/-- The records of the declared users. -/
def userRecords (accounts : Accounts) : List String := accounts.users.map userRecord

/-- Both account files are one. -/
def SameFile (t : Tree) : Prop :=
  t.locate? true (Path.ofString groups).parts = t.locate? true (Path.ofString users).parts

instance (t : Tree) : Decidable (SameFile t) := inferInstanceAs (Decidable (_ = _))

/-- What a merge that succeeds does, step by step. -/
structure Steps (accounts : Accounts) (t t₁ t₂ t₃ t' : Tree) (g u : Location) : Prop where
  /-- The directory of the account files is made. -/
  directory : Edit.makeDirectories (.ofString "etc") 0o755 t = .ok () t₁
  /-- The groups are merged. -/
  groups : Merged t₁ groups (groupRecords accounts) g t₂
  /-- The users are merged. -/
  users : Merged t₂ users (userRecords accounts) u t₃
  /-- The homes are made. -/
  homes : accounts.users.forM Edit.makeHome t₃ = .ok () t'

theorem steps_of_mergeAccounts {accounts : Accounts} {t t' : Tree}
    (hdeclared : ¬ (accounts.users = [] ∧ accounts.groups = []))
    (h : Edit.mergeAccounts accounts t = .ok () t') : ∃ t₁ t₂ t₃ g u, Steps accounts t t₁ t₂ t₃ t' g u := by
  rw [Edit.mergeAccounts, if_neg (by simpa using hdeclared)] at h
  obtain ⟨_, t₁, hdirectory, h₁⟩ := of_bind_eq_ok h
  obtain ⟨_, t₂, hgroups, h₂⟩ := of_bind_eq_ok h₁
  obtain ⟨_, t₃, husers, hhomes⟩ := of_bind_eq_ok h₂
  obtain ⟨g, hg⟩ := Edit.merged_of_mergeRecords hgroups
  obtain ⟨u, hu⟩ := Edit.merged_of_mergeRecords husers
  exact ⟨t₁, t₂, t₃, g, u, hdirectory, hg, hu, hhomes⟩

/-- The text that a path reads depends on where it leads only. -/
theorem textIn_congr {t : Tree} {a b : String}
    (h : t.locate? true (Path.ofString a).parts = t.locate? true (Path.ofString b).parts) :
    textIn t a = textIn t b := by
  have hsame : ∀ r, t.readingAt (.ofString a) = .ok r ↔ t.readingAt (.ofString b) = .ok r := fun r => by
    rw [readingAt_eq_ok_iff, readingAt_eq_ok_iff, h]
  unfold textIn contentsAt
  cases hb : t.readingAt (.ofString b) with
  | ok r =>
    have ha := (hsame r).2 hb
    cases r with
    | contents bytes => rw [readThrough_of_contents ha, readThrough_of_contents hb]
    | further source => rw [readThrough_of_further ha, readThrough_of_further hb]
  | error f =>
    cases ha : t.readingAt (.ofString a) with
    | ok r =>
      rw [(hsame r).1 ha] at hb
      cases hb
    | error e => rw [readThrough_of_error ha, readThrough_of_error hb]

theorem textIn_of_vacant {t : Tree} {file : String} {l : Location}
    (hl : t.locate? true (Path.ofString file).parts = some l) (hnone : t.get? l = none) : textIn t file = "" := by
  unfold textIn
  cases hread : t.contentsAt (.ofString file) with
  | error e => rfl
  | ok contents =>
    obtain ⟨k, e, hk, hget⟩ := exists_of_contentsAt hread
    rw [Option.some.inj (hk.symm.trans hl), hnone] at hget
    cases hget

/-- A text is the same in two trees if it comes from the same file. -/
theorem textIn_eq_of_place {s t : Tree} {file : String} {l : Location}
    (hs : s.locate? true (Path.ofString file).parts = some l)
    (ht : t.locate? true (Path.ofString file).parts = some l)
    (hbefore : (∃ contents, s.FileAt l contents) ∨ s.get? l = none)
    (hfile : ∀ contents, s.FileAt l contents → t.FileAt l contents) (hnone : s.get? l = none → t.get? l = none) :
    textIn s file = textIn t file := by
  rcases hbefore with ⟨contents, hcontents⟩ | hvacant
  · rw [textIn_of_fileAt hcontents hs, textIn_of_fileAt (hfile contents hcontents) ht]
  · rw [textIn_of_vacant hs hvacant, textIn_of_vacant ht (hnone hvacant)]

section

variable {accounts : Accounts} {t t₁ t₂ t₃ t' : Tree} {g u : Location}

theorem Steps.extends₁ (h : Steps accounts t t₁ t₂ t₃ t' g u) (written : Location → Prop) : Extends written t t₁ :=
  Edit.extends_makeDirectories h.directory written

theorem Steps.extends₂ (h : Steps accounts t t₁ t₂ t₃ t' g u) : Extends (· = g) t t₂ :=
  (h.extends₁ _).trans h.groups.extends

theorem Steps.homesExtend (h : Steps accounts t t₁ t₂ t₃ t' g u) (written : Location → Prop) :
    Extends written t₃ t' :=
  Edit.extends_makeHomes h.homes written

theorem Steps.extends (h : Steps accounts t t₁ t₂ t₃ t' g u) : Extends (fun l => l = g ∨ l = u) t t' :=
  (h.extends₂.mono fun _ => Or.inl).trans
    ((h.users.extends.mono fun _ => Or.inr).trans (h.homesExtend _))

theorem Steps.groupsAt (h : Steps accounts t t₁ t₂ t₃ t' g u) :
    t.locate? true (Path.ofString AccountFile.groups).parts = some g := by
  rw [← (h.extends₁ fun _ => False).locate?, h.groups.place]

theorem Steps.usersAt (h : Steps accounts t t₁ t₂ t₃ t' g u) :
    t.locate? true (Path.ofString AccountFile.users).parts = some u := by
  rw [← h.extends₂.locate?, h.users.place]

theorem Steps.textIn₁ (h : Steps accounts t t₁ t₂ t₃ t' g u) :
    textIn t₁ AccountFile.groups = textIn t AccountFile.groups :=
  textIn_eq_of_place h.groups.place h.groupsAt (h.groups.before.imp_right And.left)
    (fun _ => Edit.fileAt_of_makeDirectories h.directory) (h.extends₁ fun _ => False).vacant

theorem Steps.textIn₂ (h : Steps accounts t t₁ t₂ t₃ t' g u) :
    textIn t₂ AccountFile.users =
      if u = g then merged (textIn t AccountFile.groups) (groupRecords accounts)
      else textIn t AccountFile.users := by
  split
  · rename_i hsame
    subst hsame
    rw [textIn_of_fileAt h.groups.after h.users.place, Utf8.lossy_ofString, h.textIn₁]
  · rename_i happart
    have hget := h.groups.others u happart
    refine textIn_eq_of_place h.users.place h.usersAt (h.users.before.imp_right And.left) (fun contents hfile => ?_)
      fun hnone => (h.extends₁ fun _ => False).vacant (hget ▸ hnone)
    obtain ⟨e, he, hkind⟩ := hfile
    exact Edit.fileAt_of_makeDirectories h.directory ⟨e, hget ▸ he, hkind⟩

/-- The files have the texts of the merges. If they are one, the users are merged into it after the groups. -/
theorem Steps.files (h : Steps accounts t t₁ t₂ t₃ t' g u) :
    t'.FileAt u (Bytes.ofString (merged (textIn t₂ AccountFile.users) (userRecords accounts))) ∧
      (u ≠ g → t'.FileAt g (Bytes.ofString (merged (textIn t AccountFile.groups) (groupRecords accounts)))) := by
  have hhomes := h.homesExtend fun _ => False
  refine ⟨hhomes.fileAt h.users.after id, fun happart => hhomes.fileAt ?_ id⟩
  obtain ⟨e, hget, hkind⟩ := h.groups.after
  rw [h.textIn₁] at hkind
  exact ⟨e, (h.users.others g happart.symm).trans hget, hkind⟩

theorem Steps.contents_of_apart (h : Steps accounts t t₁ t₂ t₃ t' g u) (happart : u ≠ g) :
    t'.contentsAt (.ofString AccountFile.groups)
        = .ok (Bytes.ofString (merged (textIn t AccountFile.groups) (groupRecords accounts))) ∧
      t'.contentsAt (.ofString AccountFile.users)
        = .ok (Bytes.ofString (merged (textIn t AccountFile.users) (userRecords accounts))) := by
  obtain ⟨husers, hgroups⟩ := h.files
  rw [h.textIn₂, if_neg happart] at husers
  exact ⟨(hgroups happart).contentsAt ((h.extends.locate? _ _).trans h.groupsAt),
    husers.contentsAt ((h.extends.locate? _ _).trans h.usersAt)⟩

theorem Steps.contents_of_same (h : Steps accounts t t₁ t₂ t₃ t' g g) {file : String}
    (hplace : t.locate? true (Path.ofString file).parts = some g) :
    t'.contentsAt (.ofString file)
      = .ok (Bytes.ofString (merged (merged (textIn t file) (groupRecords accounts)) (userRecords accounts))) := by
  obtain ⟨hfile, -⟩ := h.files
  rw [h.textIn₂, if_pos rfl, textIn_congr (h.groupsAt.trans hplace.symm)] at hfile
  exact hfile.contentsAt ((h.extends.locate? _ _).trans hplace)

end

/-! ## Files that are left alone -/

/-- The file at a path is the same in both trees, or there is none in either. -/
def Leaves (t t' : Tree) (file : String) : Prop :=
  t'.exists? (.ofString file) = t.exists? (.ofString file) ∧
    t'.contentsAt (.ofString file) = t.contentsAt (.ofString file)

/-- The file at a path is a tidy text with a record for the name of each of these. -/
def Complete (t : Tree) (file : String) (added : List String) : Prop :=
  ∃ s, t.contentsAt (.ofString file) = .ok (Bytes.ofString s) ∧ IsTidy s ∧
    ∀ r ∈ added, recordName r ∈ names (records s)

theorem complete_iff {t : Tree} {file : String} {added : List String} (hadded : ∀ r ∈ added, ':' ∈ r.toList) :
    Complete t file added ↔
      ∃ s, t.contentsAt (.ofString file) = .ok (Bytes.ofString s) ∧ merged s added = s := by
  refine exists_congr fun s => and_congr_right fun _ => ?_
  rw [merged, render_merge_eq_iff hadded, newRecords_eq_nil_iff]

theorem complete_and_complete_iff {t : Tree} {file : String} {first second : List String}
    (hfirst : ∀ r ∈ first, ':' ∈ r.toList) (hsecond : ∀ r ∈ second, ':' ∈ r.toList) :
    Complete t file first ∧ Complete t file second ↔
      ∃ s, t.contentsAt (.ofString file) = .ok (Bytes.ofString s) ∧ merged (merged s first) second = s := by
  simp only [merged, render_merge_merge_eq_iff hfirst hsecond, newRecords_eq_nil_iff]
  constructor
  · rintro ⟨⟨s, hs, htidy, hknown⟩, s', hs', -, hknown'⟩
    obtain rfl := Bytes.ofString_injective (Except.ok.inj (hs.symm.trans hs'))
    exact ⟨s, hs, htidy, hknown, hknown'⟩
  · rintro ⟨s, hs, htidy, hknown, hknown'⟩
    exact ⟨⟨s, hs, htidy, hknown⟩, s, hs, htidy, hknown'⟩

/-- A file that gets a text made from its own is left alone if that is the text it has. -/
theorem leaves_iff {t t' : Tree} {file : String} {f : String → String}
    (h : t'.contentsAt (.ofString file) = .ok (Bytes.ofString (f (textIn t file)))) :
    Leaves t t' file ↔ ∃ s, t.contentsAt (.ofString file) = .ok (Bytes.ofString s) ∧ f s = s := by
  constructor
  · rintro ⟨-, hcontents⟩
    rw [h] at hcontents
    have htext : textIn t file = f (textIn t file) :=
      (textIn_of_contentsAt hcontents.symm).trans (Utf8.lossy_ofString _)
    exact ⟨textIn t file, by rw [← hcontents, ← htext], htext.symm⟩
  · rintro ⟨s, hs, hf⟩
    have htext : textIn t file = s := (textIn_of_contentsAt hs).trans (Utf8.lossy_ofString s)
    rw [htext, hf] at h
    have hexists : ∀ {t : Tree}, t.contentsAt (.ofString file) = .ok (Bytes.ofString s) →
        t.exists? (.ofString file) := by
      intro t hread
      obtain ⟨l, e, hl, hget⟩ := exists_of_contentsAt hread
      exact exists?_of_get? hl hget
    exact ⟨by rw [hexists h, hexists hs], h.trans hs.symm⟩

theorem colon_mem_of_mem_groupRecords {accounts : Accounts} : ∀ r ∈ groupRecords accounts, ':' ∈ r.toList := by
  intro r hr
  obtain ⟨g, -, rfl⟩ := List.mem_map.1 hr
  exact colon_mem_groupRecord g

theorem colon_mem_of_mem_userRecords {accounts : Accounts} : ∀ r ∈ userRecords accounts, ':' ∈ r.toList := by
  intro r hr
  obtain ⟨u, -, rfl⟩ := List.mem_map.1 hr
  exact colon_mem_userRecord u

/-- An account file is left alone exactly if no account is declared, or it is a tidy text that has a record already
for the name of each group, or of each user; and if both files are one, for the names of both. -/
theorem mergeAccounts_leaves_iff {accounts : Accounts} {t t' : Tree}
    (h : Edit.mergeAccounts accounts t = .ok () t') :
    (Leaves t t' groups ↔ (accounts.users = [] ∧ accounts.groups = []) ∨
      Complete t groups (groupRecords accounts) ∧ (SameFile t → Complete t groups (userRecords accounts))) ∧
    (Leaves t t' users ↔ (accounts.users = [] ∧ accounts.groups = []) ∨
      Complete t users (userRecords accounts) ∧ (SameFile t → Complete t users (groupRecords accounts))) := by
  by_cases hdeclared : accounts.users = [] ∧ accounts.groups = []
  · rw [Edit.mergeAccounts, if_pos (by simp [hdeclared])] at h
    obtain ⟨-, rfl⟩ := Edit.of_pure_eq_ok h
    exact ⟨iff_of_true ⟨rfl, rfl⟩ (Or.inl hdeclared), iff_of_true ⟨rfl, rfl⟩ (Or.inl hdeclared)⟩
  · obtain ⟨t₁, t₂, t₃, g, u, hsteps⟩ := steps_of_mergeAccounts hdeclared h
    have hG := @colon_mem_of_mem_groupRecords accounts
    have hU := @colon_mem_of_mem_userRecords accounts
    simp only [hdeclared, false_or]
    by_cases hsame : u = g
    · subst hsame
      have hone : SameFile t := hsteps.groupsAt.trans hsteps.usersAt.symm
      simp only [hone, forall_const]
      rw [and_comm (a := Complete t users _), complete_and_complete_iff hG hU, complete_and_complete_iff hG hU]
      exact ⟨leaves_iff (hsteps.contents_of_same hsteps.groupsAt),
        leaves_iff (hsteps.contents_of_same hsteps.usersAt)⟩
    · have htwo : ¬ SameFile t := fun hone =>
        hsame (Option.some.inj (hsteps.usersAt.symm.trans (hone.symm.trans hsteps.groupsAt)))
      simp only [htwo, false_implies, and_true]
      obtain ⟨hgroups, husers⟩ := hsteps.contents_of_apart hsame
      rw [complete_iff hG, complete_iff hU]
      exact ⟨leaves_iff hgroups, leaves_iff husers⟩

/-- The one group that is declared is there, and the file of users is not. -/
theorem mergeAccounts_leaves_groups :
    let t : Tree := (Tree.empty.insert (.ofString "etc") (.directory 0o755)).insert (.ofString groups)
      (.file (Bytes.ofString "root:x:0:\n") 0o644)
    let accounts : Accounts := { groups := [{ name := "root", gid := 7 }] }
    ∃ t', Edit.mergeAccounts accounts t = .ok () t' ∧ Leaves t t' groups ∧ ¬ Leaves t t' users := by
  intro t accounts
  obtain ⟨_, hrun⟩ := Edit.exists_of_succeeds (x := Edit.mergeAccounts accounts) (t := t) (by decide +kernel)
  obtain ⟨hgroups, husers⟩ := mergeAccounts_leaves_iff hrun
  have hread : t.contentsAt (.ofString groups) = .ok (Bytes.ofString "root:x:0:\n") := by decide +kernel
  have hnone : (t.contentsAt (.ofString users)).toOption = none := by decide +kernel
  have hcomplete : Complete t groups (groupRecords accounts) :=
    ⟨_, hread, isTidy_iff.2 (by decide +kernel), by decide +kernel⟩
  have htwo : ¬ SameFile t := by decide +kernel
  refine ⟨_, hrun, hgroups.2 (Or.inr ⟨hcomplete, fun hone => absurd hone htwo⟩), fun hleaves => ?_⟩
  rcases husers.1 hleaves with ⟨-, hempty⟩ | ⟨⟨s, hs, -⟩, -⟩
  · simp [accounts] at hempty
  · simp [hs, Except.toOption] at hnone

/-- The one group that is declared is there, in a record with a byte that is no text. It is rewritten, and a file of
users is made although none is declared. -/
theorem mergeAccounts_rewrites_known :
    let t : Tree := (Tree.empty.insert (.ofString "etc") (.directory 0o755)).insert (.ofString groups)
      (.file (Bytes.ofString "root:x:0:" ++ [0xFF, 0x0A]) 0o644)
    let accounts : Accounts := { groups := [{ name := "root", gid := 0 }] }
    (∀ r ∈ groupRecords accounts, recordName r ∈ names (records (textIn t groups))) ∧
      userRecords accounts = [] ∧
      ∃ t', Edit.mergeAccounts accounts t = .ok () t' ∧ ¬ Leaves t t' groups ∧ ¬ Leaves t t' users := by
  intro t accounts
  obtain ⟨_, hrun⟩ := Edit.exists_of_succeeds (x := Edit.mergeAccounts accounts) (t := t) (by decide +kernel)
  refine ⟨by decide +kernel, rfl, _, hrun, fun hleaves => ?_, fun hleaves => ?_⟩
  · exact absurd hleaves.2 (by decide +kernel)
  · exact absurd hleaves.1 (by decide +kernel)

/-! ## Merging again -/

/-- If there is a file at a path, it holds a text without carriage returns. -/
def Readable (t : Tree) (file : String) : Prop :=
  t.exists? (.ofString file) →
    ∃ s, t.contentsAt (.ofString file) = .ok (Bytes.ofString s) ∧ '\r' ∉ s.toList

theorem return_not_mem_textIn {t : Tree} {file : String} (h : Readable t file) : '\r' ∉ (textIn t file).toList := by
  by_cases hexists : t.exists? (.ofString file)
  · obtain ⟨s, hs, hreturn⟩ := h hexists
    rwa [textIn_of_contentsAt hs, Utf8.lossy_ofString]
  · rw [textIn_of_exists?_eq_false (Bool.eq_false_iff.2 hexists)]
    simp

/-- The records of a text after a merge. -/
structure Follows (old new : String) (added : List String) : Prop where
  /-- The old ones stay, and those with a new name come behind them in order. -/
  lines : records new = records old ++ newRecords (records old) added
  /-- The first record of a name is the old one, and else the first that is added. -/
  first : ∀ name, (records new).find? (recordName · = name)
    = ((records old).find? (recordName · = name)).or (added.find? (recordName · = name))
  /-- No name is added twice, or if it was there. -/
  once : (names (newRecords (records old) added)).Nodup ∧
    ∀ name ∈ names (newRecords (records old) added), name ∉ names (records old)

theorem follows_merged {s : String} (hs : '\r' ∉ s.toList) {added : List String} (hadded : ∀ r ∈ added, IsRecord r) :
    Follows s (merged s added) added := by
  have hread := (render_merge_again hs hadded).1
  refine ⟨?_, fun name => ?_, nodup_names_newRecords _ _, fun name hname => ?_⟩
  · rw [merged, hread, merge_eq]
  · rw [merged, hread, find?_merge]
  · obtain ⟨r, hr, rfl⟩ := List.mem_map.1 hname
    exact (mem_of_mem_newRecords hr).2

theorem directory_parts : (Path.ofString "etc").parts = [.name (Bytes.ofString "etc")] := by decide +kernel

theorem groups_parts :
    (Path.ofString groups).parts = [.name (Bytes.ofString "etc")] ++ [.name (Bytes.ofString "group")] := by
  decide +kernel

theorem users_parts :
    (Path.ofString users).parts = [.name (Bytes.ofString "etc")] ++ [.name (Bytes.ofString "passwd")] := by
  decide +kernel

/-- The files are two if they are when both are there, and what is there is read. -/
theorem Steps.apart {accounts : Accounts} {t t₁ t₂ t₃ t' : Tree} {g u : Location}
    (h : Steps accounts t t₁ t₂ t₃ t' g u) (husers : Readable t AccountFile.users)
    (happart : t.exists? (.ofString AccountFile.groups) → t.exists? (.ofString AccountFile.users) → ¬ SameFile t) :
    u ≠ g := by
  rintro rfl
  have hone : SameFile t := h.groupsAt.trans h.usersAt.symm
  rcases h.groups.before with ⟨contents, hfile⟩ | ⟨hnone, hfree⟩
  · obtain ⟨e, hget, -⟩ := Edit.fileAt_of_makeDirectories h.directory hfile
    exact happart (exists?_of_get? h.groupsAt hget) (exists?_of_get? h.usersAt hget) hone
  -- Nothing is where both paths lead. So neither names anything, and they lead to two places in one directory.
  have hextends := h.extends₁ fun _ => False
  have hfree' : t.exists? (.ofString AccountFile.users) = false := by
    refine Bool.eq_false_iff.2 fun hexists => ?_
    obtain ⟨s, hs, -⟩ := husers hexists
    obtain ⟨k, e, hk, hget⟩ := exists_of_contentsAt hs
    rw [Option.some.inj (hk.symm.trans h.usersAt), hextends.vacant hnone] at hget
    cases hget
  have hmade := h.directory
  rw [Edit.makeDirectories_of_parts directory_parts] at hmade
  have hmade := Edit.of_change_eq_ok hmade
  obtain ⟨d, -, hd, -⟩ := ensureDirectory_leads hmade
  have hfree₁ := exists?_of_ensureDirectory users_parts hfree' hmade
  have hgroups := locate?_of_exists?_eq_false groups_parts hd hfree
  have husers₁ := locate?_of_exists?_eq_false users_parts hd hfree₁
  rw [h.groups.place] at hgroups
  rw [hextends.locate?, h.usersAt, hgroups] at husers₁
  have hname := List.append_cancel_left (Option.some.inj husers₁)
  revert hname
  decide

/-- Where the texts would not change by a merge, there is nothing left to do. -/
theorem Steps.again {accounts : Accounts} {t t₁ t₂ t₃ t' : Tree} {g u : Location}
    (h : Steps accounts t t₁ t₂ t₃ t' g u) (hdeclared : ¬ (accounts.users = [] ∧ accounts.groups = []))
    (happart : u ≠ g)
    (hgroups : merged (merged (textIn t AccountFile.groups) (groupRecords accounts)) (groupRecords accounts)
      = merged (textIn t AccountFile.groups) (groupRecords accounts))
    (husers : merged (merged (textIn t AccountFile.users) (userRecords accounts)) (userRecords accounts)
      = merged (textIn t AccountFile.users) (userRecords accounts)) :
    Edit.mergeAccounts accounts t' = .ok () t' := by
  obtain ⟨hfileU, hfileG⟩ := h.files
  rw [h.textIn₂, if_neg happart] at hfileU
  have hextends : Extends (fun _ => True) t₁ t' :=
    (h.groups.extends.mono fun _ _ => trivial).trans
      ((h.users.extends.mono fun _ _ => trivial).trans (h.homesExtend _))
  have hdirectory := ensureDirectories_of_leads (hextends.leadsAlong (ensureDirectories_leads h.directory)) 0o755
  have hG := Edit.mergeRecords_of_fileAt ((h.extends.locate? _ _).trans h.groupsAt) (hfileG happart) hgroups
  have hU := Edit.mergeRecords_of_fileAt ((h.extends.locate? _ _).trans h.usersAt) hfileU husers
  rw [Edit.mergeAccounts, if_neg (by simpa using hdeclared)]
  refine (Edit.bind_of_eq_ok hdirectory _).trans ?_
  refine (Edit.bind_of_eq_ok hG _).trans ?_
  exact (Edit.bind_of_eq_ok hU _).trans (Edit.makeHomes_again h.homes)

/-- Merging accounts keeps the records that are there and adds those with a new name, and merging the same accounts
again changes nothing in the tree. -/
theorem mergeAccounts_again {accounts : Accounts} {t t' : Tree} (hgroups : ∀ g ∈ accounts.groups, GroupIsClean g)
    (husers : ∀ u ∈ accounts.users, UserIsClean u) (hreadable : Readable t groups ∧ Readable t users)
    (happart : t.exists? (.ofString groups) → t.exists? (.ofString users) → ¬ SameFile t)
    (hdeclared : ¬ (accounts.users = [] ∧ accounts.groups = []))
    (h : Edit.mergeAccounts accounts t = .ok () t') :
    (∃ s, t'.contentsAt (.ofString groups) = .ok (Bytes.ofString s) ∧
        Follows (textIn t groups) s (groupRecords accounts)) ∧
      (∃ s, t'.contentsAt (.ofString users) = .ok (Bytes.ofString s) ∧
        Follows (textIn t users) s (userRecords accounts)) ∧
      Edit.mergeAccounts accounts t' = .ok () t' := by
  obtain ⟨t₁, t₂, t₃, g, u, hsteps⟩ := steps_of_mergeAccounts hdeclared h
  have htwo := hsteps.apart hreadable.2 happart
  have hG : ∀ r ∈ groupRecords accounts, IsRecord r := fun r hr => by
    obtain ⟨g, hg, rfl⟩ := List.mem_map.1 hr
    exact isRecord_groupRecord (hgroups g hg)
  have hU : ∀ r ∈ userRecords accounts, IsRecord r := fun r hr => by
    obtain ⟨u, hu, rfl⟩ := List.mem_map.1 hr
    exact isRecord_userRecord (husers u hu)
  have hreturnG := return_not_mem_textIn hreadable.1
  have hreturnU := return_not_mem_textIn hreadable.2
  obtain ⟨hcontentsG, hcontentsU⟩ := hsteps.contents_of_apart htwo
  refine ⟨⟨_, hcontentsG, follows_merged hreturnG hG⟩, ⟨_, hcontentsU, follows_merged hreturnU hU⟩, ?_⟩
  exact hsteps.again hdeclared htwo (render_merge_again hreturnG hG).2 (render_merge_again hreturnU hU).2

/-- A record is there already, a name is declared twice, and two users have one home, which one of them reaches
through a symbolic link. -/
theorem mergeAccounts_again_shared_home :
    let t : Tree := ((Tree.empty.insert (.ofString "etc") (.directory 0o755)).insert (.ofString groups)
      (.file (Bytes.ofString "root:x:0:\n\nold:x:7:") 0o600)).insert (.ofString "home") (.symlink (.ofString "srv"))
    let accounts : Accounts :=
      { users := [{ name := "a", uid := 1 }, { name := "b", uid := 2, home := some "/srv/a" }]
        groups := [{ name := "old", gid := 5 }, { name := "g", gid := 6, members := ["a", "b"] },
          { name := "g", gid := 8 }] }
    ∃ t', Edit.mergeAccounts accounts t = .ok () t' ∧ Edit.mergeAccounts accounts t' = .ok () t' ∧
      t'.contentsAt (.ofString groups) = .ok (Bytes.ofString "root:x:0:\nold:x:7:\ng:x:6:a,b\n") ∧
      (t'.get? [.name (Bytes.ofString "srv"), .name (Bytes.ofString "a")]).map Entry.ownership = some ⟨2, 2⟩ := by
  intro t accounts
  obtain ⟨_, hrun⟩ := Edit.exists_of_succeeds (x := Edit.mergeAccounts accounts) (t := t) (by decide +kernel)
  have hgroups : ∀ g ∈ accounts.groups, GroupIsClean g := by simp [accounts, GroupIsClean, IsClean]
  have husers : ∀ u ∈ accounts.users, UserIsClean u := by simp [accounts, UserIsClean, IsClean]
  have hread : t.contentsAt (.ofString groups) = .ok (Bytes.ofString "root:x:0:\n\nold:x:7:") := by
    decide +kernel
  have hnone : t.exists? (.ofString users) = false := by decide +kernel
  obtain ⟨-, -, hagain⟩ := mergeAccounts_again hgroups husers
    ⟨fun _ => ⟨_, hread, by decide⟩, fun h => absurd h (by simp [hnone])⟩ (fun _ h => absurd h (by simp [hnone]))
    (by simp [accounts]) hrun
  exact ⟨_, hrun, hagain, by decide +kernel, by decide +kernel⟩

end AccountFile

end ImageLayer
