import ImageLayer.Pass.Supervision
import ImageLayer.Proofs.SortedMap
import ImageLayer.Proofs.Text.Percent
import ImageLayer.Proofs.Text.Utf8
import ImageLayer.Proofs.Tree.Extension
/-!
Which scripts a supervisor finds.

Each service has a script at a path of its own, which is written with the permissions of a program. But a path
may lead elsewhere, and a file that is there keeps its permissions when it is written. So a script may be there
and not be executable, and one may be written over by another. `writeServices_delivers_iff`, the main statement,
says exactly when all scripts are delivered: no two services with different commands have paths that lead to one
place, and whatever is at those paths before has the permissions of a script. Where no symbolic link is on these
paths, no script is lost.

The first part of the file says what becomes of permissions. `KeepsModes` is the relation between trees that the
pass stays within: every entry keeps its permissions, and new ones have one kind of them. It is a preorder that
every operation of the pass respects, so that it holds of the whole pass without looking at the services
(`within_writeServices`).

The second follows the scripts.

* Valid names of services are proper names of files (`isValidName_iff`), so that the paths of two services are
  different paths (`eq_of_parts_scriptOf`). They may lead to one place all the same, through links.
* `writeService_eq_ok` is one service, and `laid_of_forM` the induction over all of them: each place has the
  script that was written to it last, and paths lead at the end where they led when the script was written
  (`Laid`).
* `exists_script` and `exists_entry_iff` are what this comes to for one service: which script is read at its
  path, and with which permissions.

Scripts with different commands are different texts (`script_injective`), so that a service whose script is read
at its path has its own command there. That two services have one place is asked of the tree before, in which
the directories on the way may not be there yet: following a path goes through what is missing by its name.
-/

namespace ImageLayer

namespace Tree

/-- Every entry keeps its permissions, and new entries have one kind of them. -/
structure KeepsModes (mode : Nat) (t t' : Tree) : Prop where
  /-- What was there is there, with the permissions it had. -/
  keeps : ∀ {l e}, t.get? l = some e → ∃ e', t'.get? l = some e' ∧ e'.mode = e.mode
  /-- What is new has the permissions `mode`. -/
  added : ∀ {l e'}, t.get? l = none → t'.get? l = some e' → e'.mode = mode

section

variable {mode : Nat} {written : Location → Prop} {t t₁ t' : Tree}

theorem KeepsModes.refl (mode : Nat) (t : Tree) : KeepsModes mode t t :=
  ⟨fun hget => ⟨_, hget, rfl⟩, fun hnone hget => by simp [hnone] at hget⟩

theorem KeepsModes.trans (h : KeepsModes mode t t₁) (h' : KeepsModes mode t₁ t') : KeepsModes mode t t' where
  keeps hget := by
    obtain ⟨e₁, hget₁, hmode⟩ := h.keeps hget
    obtain ⟨e', hget', hmode'⟩ := h'.keeps hget₁
    exact ⟨e', hget', hmode'.trans hmode⟩
  added {l e'} hnone hget' := by
    cases hget₁ : t₁.get? l with
    | none => exact h'.added hget₁ hget'
    | some e₁ =>
      obtain ⟨e, hget, hmode⟩ := h'.keeps hget₁
      obtain rfl := Option.some.inj (hget.symm.trans hget')
      exact hmode.trans (h.added hnone hget₁)

instance (mode : Nat) : IsPreorder Tree (KeepsModes mode) where
  refl := .refl mode
  trans _ _ _ := .trans

theorem GrowsBy.keepsModes {P : Location → Entry → Prop} (h : GrowsBy P t t') (hP : ∀ l e, P l e → e.mode = mode) :
    KeepsModes mode t t' where
  keeps hget := ⟨_, h.keeps hget, rfl⟩
  added {l e'} hnone hget' := by
    obtain ⟨new, hgrows, hnew⟩ := h
    exact hP l e' (hnew _ ((hgrows.only hget').resolve_left (by simp [hnone])))

theorem keepsModes_set {l : Location} {e : Entry} (hkeeps : ∀ old, t.get? l = some old → e.mode = old.mode)
    (hadded : t.get? l = none → e.mode = mode) : KeepsModes mode t (t.set l e) := by
  constructor
  · intro k old hold
    by_cases hk : k = l
    · exact ⟨e, by rw [get?_set, if_pos hk], hkeeps old (hk ▸ hold)⟩
    · exact ⟨old, by rw [get?_set, if_neg hk, hold], rfl⟩
  · intro k e' hnone hget'
    by_cases hk : k = l
    · rw [get?_set, if_pos hk] at hget'
      exact Option.some.inj hget' ▸ hadded (hk ▸ hnone)
    · rw [get?_set, if_neg hk, hnone] at hget'
      cases hget'

theorem keepsModes_of_writeFile {p : Path} {contents : Bytes} (h : t.writeFile p contents mode = .ok t') :
    KeepsModes (permissionBits mode) t t' := by
  obtain ⟨l, e, -, rfl, ⟨old, hold, -, rfl⟩ | ⟨hnone, -, rfl⟩⟩ := writeFile_eq_ok_iff.1 h
  · exact keepsModes_set (fun old' hold' => by rw [← Option.some.inj (hold.symm.trans hold')])
      fun hnone => by simp [hold] at hnone
  · exact keepsModes_set (fun old hold => by simp [hnone] at hold) fun _ => rfl

theorem exists_entryAt {p : Path} (h : t.exists? p) :
    ∃ l e, t.locate? false p.parts = some l ∧ t.entryAt p = .ok e := by
  unfold exists? at h
  cases hl : t.locate? false p.parts with
  | none => simp [hl] at h
  | some l =>
    obtain ⟨e, hget⟩ := Option.isSome_iff_exists.1 (by simpa [hl] using h)
    exact ⟨l, e, rfl, (entryAt_of_locate? hl).2 hget⟩

/-- Where something is found, it has the permissions of a new entry exactly if what was found there before, if
anything, had them. -/
theorem KeepsModes.entryAt_iff (h : KeepsModes mode t t') (hextends : Extends written t t') {p : Path}
    (hexists : t'.exists? p) :
    (∃ e, t'.entryAt p = .ok e ∧ e.mode = mode) ↔ ∀ e, t.entryAt p = .ok e → e.mode = mode := by
  obtain ⟨l, e', hl', he'⟩ := exists_entryAt hexists
  have hl : t.locate? false p.parts = some l := (hextends.locate? false p.parts).symm.trans hl'
  have hget' : t'.get? l = some e' := (entryAt_of_locate? hl').1 he'
  simp only [entryAt_of_locate? hl, entryAt_of_locate? hl', hget', Option.some.injEq, exists_eq_left']
  cases hget : t.get? l with
  | none => simp [h.added hget hget']
  | some e =>
    obtain ⟨e'', hget'', hmode⟩ := h.keeps hget
    obtain rfl := Option.some.inj (hget''.symm.trans hget')
    simp [hmode]

end

end Tree

namespace Service

/-! ## Paths and scripts of services -/

theorem script_injective : Function.Injective script := by
  intro a b h
  exact (String.append_right_inj _).1 ((String.append_left_inj _).1 h)

/-- The names that services may have are the proper ones. -/
theorem isValidName_iff {name : String} : isValidName name ↔ Name.Proper (Bytes.ofString name) := by
  have hslash : (0x2F : UInt8) ∈ Bytes.ofString name ↔ '/' ∈ name.toList :=
    Utf8.mem_ofString_ascii (c := '/') (by decide)
  have hne {s : String} {bs : Bytes} (hs : Bytes.ofString s = bs) : Bytes.ofString name = bs ↔ name = s :=
    hs ▸ Bytes.ofString_injective.eq_iff
  have hempty : Bytes.ofString name = [] ↔ name = "" := hne rfl
  have hdot : Bytes.ofString name = [0x2E] ↔ name = "." := hne (by decide)
  have hup : Bytes.ofString name = [0x2E, 0x2E] ↔ name = ".." := hne (by decide)
  rw [Name.Proper, hslash, ne_eq, ne_eq, ne_eq, hempty, hdot, hup]
  simp [isValidName, and_assoc]

/-- The parts of the path of a script. -/
theorem parts_scriptOf {name : String} (h : isValidName name) :
    (scriptOf name).parts
      = [.name (Bytes.ofString "sv"), .name (Bytes.ofString name), .name (Bytes.ofString "run")] := by
  have hrun : Name.Proper (Bytes.ofString "run") := by decide
  have hdirectory : directory.parts = [.name (Bytes.ofString "sv")] := by decide +kernel
  rw [scriptOf, Path.ofString, Path.parts_join_name _ hrun, directoryOf, Path.ofString,
    Path.parts_join_name _ (isValidName_iff.1 h), hdirectory]
  rfl

theorem eq_of_parts_scriptOf {a b : String} (ha : isValidName a) (hb : isValidName b)
    (h : (scriptOf a).parts = (scriptOf b).parts) : a = b := by
  rw [parts_scriptOf ha, parts_scriptOf hb] at h
  simp only [List.cons.injEq, Part.name.injEq] at h
  exact Bytes.ofString_injective h.2.1

/-- The path of the script of a service leads to a location. -/
def LeadsTo (t : Tree) (name : String) (l : Location) : Prop := t.locate? true (scriptOf name).parts = some l

/-- Where no symbolic link is on the path of a script, it leads to the location that it spells out. -/
theorem leadsTo_parts {t : Tree} {name : String} (hname : isValidName name)
    (hfree : t.LinkFree (scriptOf name).parts) : LeadsTo t name (scriptOf name).parts := by
  refine Tree.locate?_of_linkFree true (fun p hp => ?_) hfree
  rw [parts_scriptOf hname] at hp
  simp only [List.mem_cons, List.not_mem_nil, or_false] at hp
  rcases hp with rfl | rfl | rfl
  · show Name.Proper (Bytes.ofString "sv")
    decide
  · exact isValidName_iff.1 hname
  · show Name.Proper (Bytes.ofString "run")
    decide

/-- What writing services makes of a tree. -/
structure Laid (services : List (String × String)) (t t' : Tree) : Prop where
  /-- The names are valid. -/
  names : ∀ s ∈ services, isValidName s.1
  /-- Nothing is written to but the places of scripts. -/
  others : Tree.Extends (fun l => ∃ s ∈ services, LeadsTo t s.1 l) t t'
  /-- Where the script of a service is to be, there is one, of this service or another whose script is to be there. -/
  scripts : ∀ s ∈ services, ∃ l, LeadsTo t s.1 l ∧
    ∃ r ∈ services, LeadsTo t r.1 l ∧ t'.FileAt l (Bytes.ofString (script r.2))

end Service

namespace Edit

open ImageLayer.Tree Service

variable {t t₁ t' : Tree} {u : Unit}

/-- The script of one service is where its path leads. -/
theorem writeService_eq_ok {name command : String} (h : writeService name command t = .ok u t') :
    isValidName name ∧ ∃ l, LeadsTo t name l ∧ t'.FileAt l (Bytes.ofString (script command)) ∧
      Extends (· = l) t t' := by
  obtain ⟨_, _, hvalid, hrest⟩ := of_bind_eq_ok h
  obtain ⟨hvalid, rfl⟩ := of_ask_eq_ok hvalid
  obtain ⟨_, t₁, hmade, hwrite⟩ := of_bind_eq_ok hrest
  obtain ⟨l, hl, hfile, hbefore, hothers⟩ := fileAt_of_writeFile (of_change_eq_ok (of_inContext_eq_ok hwrite))
  have hmade := extends_makeDirectories hmade (· = l)
  refine ⟨?_, l, ?_, hfile, hmade.trans (extends_of_fileAt hbefore hfile hothers)⟩
  · by_contra hname
    rw [if_neg hname] at hvalid
    cases hvalid
  · rwa [LeadsTo, ← hmade.locate?]

theorem within_writeService (name command : String) : Within (KeepsModes 0o755) (writeService name command) := by
  refine (within_ask _).bind fun _ => Within.bind ?_ fun _ => ?_
  · have h := within_ensureDirectories_grows 0o755 [] (directoryOf name).parts
    exact ⟨fun hok => (h.ok hok).keepsModes fun _ _ he => he ▸ rfl,
      fun herror => (h.error herror).keepsModes fun _ _ he => he ▸ rfl⟩
  · refine within_inContext (within_change fun found left h => ?_) _
    exact show KeepsModes (permissionBits 0o755) found left from keepsModes_of_writeFile h

theorem within_writeServices (services : SortedMap String String) :
    Within (KeepsModes 0o755) (writeServices services) :=
  Within.forM _ fun s _ => within_writeService s.1 s.2

/-- A script that was written stays unless a later one is written to the same place. -/
theorem laid_of_forM {services : List (String × String)}
    (h : (services.forM fun (name, command) => writeService name command) t = .ok u t') : Laid services t t' := by
  induction services generalizing t with
  | nil =>
    obtain ⟨-, rfl⟩ := of_pure_eq_ok h
    exact ⟨fun _ hs => absurd hs List.not_mem_nil, .refl _ t', fun _ hs => absurd hs List.not_mem_nil⟩
  | cons s rest ih =>
    obtain ⟨_, t₁, hfirst, hrest⟩ := of_bind_eq_ok h
    obtain ⟨hname, l, hl, hfile, hextends⟩ := writeService_eq_ok hfirst
    have hlaid := ih hrest
    have hleads {name : String} {k : Location} : LeadsTo t₁ name k ↔ LeadsTo t name k := by
      rw [LeadsTo, LeadsTo, hextends.locate?]
    have hlater : Extends (fun k => ∃ r ∈ rest, LeadsTo t r.1 k) t₁ t' :=
      hlaid.others.mono fun k ⟨r, hr, hk⟩ => ⟨r, hr, hleads.1 hk⟩
    refine ⟨List.forall_mem_cons.2 ⟨hname, hlaid.names⟩, ?_, List.forall_mem_cons.2 ⟨⟨l, hl, ?_⟩, fun r hr => ?_⟩⟩
    · refine (hextends.mono fun k hk => ?_).trans (hlater.mono fun k ⟨r, hr, hk⟩ => ?_)
      · exact ⟨s, List.mem_cons_self, hk ▸ hl⟩
      · exact ⟨r, List.mem_cons_of_mem s hr, hk⟩
    -- The script of `s` is there after its own write; whose it is in the end depends on those behind it.
    · by_cases hwritten : ∃ r ∈ rest, LeadsTo t r.1 l
      · obtain ⟨r, hr, hrl⟩ := hwritten
        obtain ⟨k, hk, q, hq, hqk, hfile⟩ := hlaid.scripts r hr
        obtain rfl := Option.some.inj (hrl.symm.trans (hleads.1 hk))
        exact ⟨q, List.mem_cons_of_mem s hq, hleads.1 hqk, hfile⟩
      · exact ⟨s, List.mem_cons_self, hl, hlater.fileAt hfile hwritten⟩
    · obtain ⟨k, hk, q, hq, hqk, hfile⟩ := hlaid.scripts r hr
      exact ⟨k, hleads.1 hk, q, List.mem_cons_of_mem s hq, hleads.1 hqk, hfile⟩

end Edit

namespace Service

open ImageLayer.Tree

variable {services : SortedMap String String} {t t' : Tree}

/-- The script of a service is delivered: it can be read at its path, where what is found may be executed by all. -/
structure Delivered (t : Tree) (name command : String) : Prop where
  /-- The path reads the script. -/
  reads : t.contentsAt (scriptOf name) = .ok (Bytes.ofString (script command))
  /-- What is found at the path has the permissions of a script. -/
  mode : ∃ e, t.entryAt (scriptOf name) = .ok e ∧ e.mode = 0o755

/-- The paths of both scripts lead to one place. -/
def SamePlace (t : Tree) (a b : String) : Prop :=
  t.locate? true (scriptOf a).parts = t.locate? true (scriptOf b).parts

instance (t : Tree) (a b : String) : Decidable (SamePlace t a b) := inferInstanceAs (Decidable (_ = _))

/-- All paths that lead to the place of a script read one script, of a service whose own path leads there. -/
theorem exists_script (h : Edit.writeServices services t = .ok () t') {name command : String}
    (hname : services.get? name = some command) :
    ∃ other command', services.get? other = some command' ∧ SamePlace t name other ∧
      ∀ a, SamePlace t name a → t'.contentsAt (scriptOf a) = .ok (Bytes.ofString (script command')) := by
  have hlaid := Edit.laid_of_forM h
  obtain ⟨l, hl, s, hs, hsl, hfile⟩ := hlaid.scripts _ (SortedMap.mem_toList_iff.2 hname)
  refine ⟨s.1, s.2, SortedMap.mem_toList_iff.1 hs, hl.trans hsl.symm, fun a ha => ?_⟩
  exact hfile.contentsAt ((hlaid.others.locate? _ _).trans (ha.symm.trans hl))

/-- What is found at the path of a script has the permissions of one, unless something without them was found there
before. -/
theorem exists_entry_iff (h : Edit.writeServices services t = .ok () t') {name command : String}
    (hname : services.get? name = some command) :
    (∃ e, t'.entryAt (scriptOf name) = .ok e ∧ e.mode = 0o755) ↔
      ∀ e, t.entryAt (scriptOf name) = .ok e → e.mode = 0o755 := by
  have hlaid := Edit.laid_of_forM h
  have hmodes := (Edit.within_writeServices services).ok h
  obtain ⟨l, hl, -, -, -, e, hget, -⟩ := hlaid.scripts _ (SortedMap.mem_toList_iff.2 hname)
  exact hmodes.entryAt_iff hlaid.others (exists?_of_get? ((hlaid.others.locate? _ _).trans hl) hget)

/-- All scripts are delivered exactly if services whose paths lead to one place have one command, and what was found
at the paths before has the permissions of a script. With no symbolic link on these paths no script is lost. -/
theorem writeServices_delivers_iff (h : Edit.writeServices services t = .ok () t') :
    ((∀ name command, services.get? name = some command → Delivered t' name command) ↔
      (∀ a b c d, services.get? a = some c → services.get? b = some d → SamePlace t a b → c = d) ∧
      ∀ name command, services.get? name = some command →
        ∀ e, t.entryAt (scriptOf name) = .ok e → e.mode = 0o755) ∧
    ((∀ name command, services.get? name = some command → t.LinkFree (scriptOf name).parts) →
      ∀ name command, services.get? name = some command →
        t'.contentsAt (scriptOf name) = .ok (Bytes.ofString (script command))) := by
  refine ⟨⟨fun hdelivered => ⟨?_, ?_⟩, ?_⟩, ?_⟩
  · intro a b c d ha hb hab
    obtain ⟨other, command, -, -, hread⟩ := exists_script h ha
    have hc := (hread a rfl).symm.trans (hdelivered a c ha).reads
    have hd := (hread b hab).symm.trans (hdelivered b d hb).reads
    exact script_injective (Bytes.ofString_injective (Except.ok.inj (hc.symm.trans hd)))
  · exact fun name command hname => (exists_entry_iff h hname).1 (hdelivered name command hname).mode
  · rintro ⟨hsame, hmode⟩ name command hname
    obtain ⟨other, command', hother, hplace, hread⟩ := exists_script h hname
    exact ⟨hsame name other command command' hname hother hplace ▸ hread name rfl,
      (exists_entry_iff h hname).2 (hmode name command hname)⟩
  · intro hfree name command hname
    obtain ⟨other, command', hother, hplace, hread⟩ := exists_script h hname
    have hvalid {s c : String} (hs : services.get? s = some c) : isValidName s :=
      (Edit.laid_of_forM h).names (s, c) (SortedMap.mem_toList_iff.2 hs)
    have hparts : (scriptOf name).parts = (scriptOf other).parts := by
      have hleads := leadsTo_parts (hvalid hname) (hfree name command hname)
      have hleads' := leadsTo_parts (hvalid hother) (hfree other command' hother)
      exact Option.some.inj (hleads.symm.trans (hplace.trans hleads'))
    obtain rfl := eq_of_parts_scriptOf (hvalid hname) (hvalid hother) hparts
    obtain rfl := Option.some.inj (hname.symm.trans hother)
    exact hread name rfl

/-- The directory of one service is made behind a symbolic link, and another has a script already. -/
theorem writeServices_delivers_behind_link :
    let t : Tree := (((Tree.empty.insert (.ofString "srv") (.directory 0o700)).insert directory
      (.directory 0o755)).insert (directoryOf "a") (.symlink (.ofString "../srv/a"))).insert (directoryOf "b")
      (.directory 0o755) |>.insert (scriptOf "b") (.file [1] 0o755)
    let services : SortedMap String String := .ofList [("a", "x"), ("b", "y")]
    ∃ t', Edit.writeServices services t = .ok () t' ∧
      ∀ name command, services.get? name = some command → Delivered t' name command := by
  intro t services
  obtain ⟨_, hrun⟩ := Edit.exists_of_succeeds (x := Edit.writeServices services) (t := t) (by decide +kernel)
  have hmem {name command : String} (h : services.get? name = some command) :
      (name, command) = ("a", "x") ∨ (name, command) = ("b", "y") := by
    have hlist : services.toList = [("a", "x"), ("b", "y")] := by decide +kernel
    simpa [hlist] using SortedMap.mem_toList_iff.2 h
  have hvacant : (t.entryAt (scriptOf "a")).toOption = none := by decide +kernel
  have hscript : (t.entryAt (scriptOf "b")).toOption = some (.file [1] 0o755) := by decide +kernel
  have hapart : ¬ SamePlace t "a" "b" := by decide +kernel
  refine ⟨_, hrun, (writeServices_delivers_iff hrun).1.2 ⟨?_, ?_⟩⟩
  · intro a b c d ha hb hab
    rcases hmem ha with ha | ha <;> rcases hmem hb with hb | hb <;> cases ha <;> cases hb
    · rfl
    · exact absurd hab hapart
    · exact absurd hab.symm hapart
    · rfl
  · intro name command hname e he
    rcases hmem hname with hname | hname <;> cases hname
    · simp [he, Except.toOption] at hvacant
    · rw [he, Except.toOption, Option.some.injEq] at hscript
      exact hscript ▸ rfl

/-- A file that is there and cannot be executed gets a script that cannot be executed, and of two services whose
paths lead to one place the first loses its script. -/
theorem not_writeServices_delivers :
    let kept : Tree := ((Tree.empty.insert directory (.directory 0o755)).insert (directoryOf "a")
      (.directory 0o755)).insert (scriptOf "a") (.file [] 0o644)
    let shared : Tree := (Tree.empty.insert directory (.directory 0o755)).insert (directoryOf "a")
      (.symlink (.ofString "b"))
    (∃ t', Edit.writeServices (.ofList [("a", "x")]) kept = .ok () t' ∧
      t'.entryAt (scriptOf "a") = .ok (.file (Bytes.ofString (script "x")) 0o644) ∧ ¬ Delivered t' "a" "x") ∧
    ∃ t', Edit.writeServices (.ofList [("a", "x"), ("b", "y")]) shared = .ok () t' ∧
      t'.contentsAt (scriptOf "a") = .ok (Bytes.ofString (script "y")) ∧ ¬ Delivered t' "a" "x" := by
  intro kept shared
  obtain ⟨_, hkept⟩ := Edit.exists_of_succeeds (x := Edit.writeServices (.ofList [("a", "x")])) (t := kept)
    (by decide +kernel)
  obtain ⟨_, hshared⟩ := Edit.exists_of_succeeds (x := Edit.writeServices (.ofList [("a", "x"), ("b", "y")]))
    (t := shared) (by decide +kernel)
  have hentry : ((Edit.writeServices (.ofList [("a", "x")])).left kept).entryAt (scriptOf "a")
      = .ok (.file (Bytes.ofString (script "x")) 0o644) := by decide +kernel
  have hread : ((Edit.writeServices (.ofList [("a", "x"), ("b", "y")])).left shared).contentsAt (scriptOf "a")
      = .ok (Bytes.ofString (script "y")) := by decide +kernel
  refine ⟨⟨_, hkept, hentry, fun h => ?_⟩, _, hshared, hread, fun h => ?_⟩
  · obtain ⟨e, he, hmode⟩ := h.mode
    obtain rfl := Except.ok.inj (hentry.symm.trans he)
    revert hmode
    decide
  · have hsame := Bytes.ofString_injective (Except.ok.inj (hread.symm.trans h.reads))
    revert hsame
    decide

end Service

end ImageLayer
