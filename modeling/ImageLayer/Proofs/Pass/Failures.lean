import ImageLayer.Pass.Accounts
import ImageLayer.Pass.Applets
import ImageLayer.Pass.Devices
import ImageLayer.Pass.OsRelease
import ImageLayer.Pass.Ownership
import ImageLayer.Pass.Paths
import ImageLayer.Pass.SharedObjects
import ImageLayer.Pass.Supervision
import ImageLayer.Proofs.Tree.Effects
import ImageLayer.Proofs.Tree.Endless
/-!
Why a pass over a tree gives no result.

A pass fails because the tree refuses something or because what it was told makes no sense, and says so
inside statements of what it was doing; such failures are `Failure.Plain`. A pass never comes to an end
only because it reads a file that is behind hard links without an end, which are then there in the tree that
it leaves. Both together are what it is to stop `Plainly`. Only the pass that writes the file that identifies
the operating system stops in another way as well, because that file is there already, and then it has changed
nothing (`Edit.writeOsRelease_error`). So no caller that tells this failure from others can take another one
for it.

Sections, from the inside out:

* Reasons: which ones are told apart. A pass that reads no file stops for a plain failure alone; as that is
  a reason of every kind, its lemma is stated for all kinds that have plain failures among them (`Admits`).
* Results: an `Except` that is plain if it is a failure (`PlainResult`), and how this composes.
* Computations: `Stops Q x` says that `x` gives no result only for a reason, and in a state, such that `Q`. The
  lemmas on binding and looping hold for every `Q`, so that they serve trees and workspaces alike.
* Trees and the database: each operation has one lemma, named for the operation, by the cases of its
  definition.
* Passes: each follows the text of its pass, one lemma for each function that the pass is made of.

Going down a directory counts the levels, and running out of them counts as never coming to an end. For that
one reason nothing is said here of recursive changes but that their failures are plain
(`Edit.applyChanges_stops`): that they do come to an end is a fact about trees with proper names, which has a
module of its own.
-/

namespace ImageLayer

/-- A refusal of the tree, or a failure that no caller tells from others. -/
def Failure.Plain (e : Failure) : Prop := e.kind = .tree ∨ e.kind = .other

theorem Failure.Plain.isRecoverable {e : Failure} (h : e.Plain) : e.isRecoverable = false := by
  rcases h with h | h <;> simp [Failure.isRecoverable, h]

@[simp] theorem Failure.plain_tree (p : Path) (fault : TreeFault) : (Failure.tree p fault).Plain :=
  Or.inl rfl

@[simp] theorem Failure.plain_within {context : Context} {e : Failure} :
    (Failure.within context e).Plain ↔ e.Plain := Iff.rfl

/-! ## Reasons -/

/-- In the tree that is left there is no result for a plain reason: a plain failure, or a path that cannot be
read to its end. -/
def Plainly (e : NoResult) (t : Tree) : Prop :=
  match e with
  | .failure e => e.Plain
  | .endless => ∃ p, t.Endless p

@[simp] theorem plainly_failure {e : Failure} {t : Tree} : Plainly (.failure e) t ↔ e.Plain := Iff.rfl

@[simp] theorem plainly_within {context : Context} {e : NoResult} {t : Tree} :
    Plainly (e.within context) t ↔ Plainly e t := by
  cases e <;> rfl

/-- A failure, if it is one, is plain. -/
def FailsPlainly (e : NoResult) (_ : Tree) : Prop := ∀ f, e = .failure f → f.Plain

/-- There is a failure. -/
def Ends (e : NoResult) (_ : Tree) : Prop := e ≠ .endless

/-- A kind of reasons that has all plain failures in it, whatever is said of what was being done. -/
class Admits (Q : NoResult → Tree → Prop) : Prop where
  /-- Plain failures are of this kind. -/
  plain : ∀ {e t}, e.Plain → Q (.failure e) t
  /-- What is said of a reason leaves it of this kind. -/
  within : ∀ {e t} (context : Context), Q e t → Q (e.within context) t

instance : Admits Plainly := ⟨id, fun _ => plainly_within.2⟩

instance : Admits FailsPlainly where
  plain h _ heq := NoResult.failure.inj heq ▸ h
  within {e t} context h f heq := by
    cases e with
    | failure e => exact NoResult.failure.inj heq ▸ Failure.plain_within.2 (h e rfl)
    | endless => cases heq

instance : Admits Ends where
  plain _ := nofun
  within {e t} context h := by
    cases e with
    | failure e => exact nofun
    | endless => exact absurd rfl h

/-- A result that is plain if it is a failure. -/
structure PlainResult {α : Type} (x : Except Failure α) : Prop where
  /-- A failure is plain. -/
  failure : ∀ {e}, x = .error e → e.Plain

/-- A computation that gives no result only for a reason, and in a state, such that `Q`. -/
structure Stops {σ α : Type} (Q : NoResult → σ → Prop) (x : EStateM NoResult σ α) : Prop where
  /-- There is such a reason. -/
  reason : ∀ {s e s'}, x s = .error e s' → Q e s'

section

variable {α β σ : Type}

/-! ## Results -/

@[simp] theorem plainResult_ok (a : α) : PlainResult (.ok a) := ⟨nofun⟩

@[simp] theorem plainResult_pure (a : α) : PlainResult (pure a) := ⟨nofun⟩

@[simp] theorem plainResult_error {e : Failure} :
    PlainResult (.error e : Except Failure α) ↔ e.Plain :=
  ⟨fun h => h.failure rfl, fun h => ⟨fun heq => Except.error.inj heq ▸ h⟩⟩

theorem PlainResult.bind {x : Except Failure α} {f : α → Except Failure β} (hx : PlainResult x)
    (hf : ∀ a, PlainResult (f a)) : PlainResult (x >>= f) := by
  cases x with
  | ok a => exact hf a
  | error e => exact plainResult_error.2 (plainResult_error.1 hx)

theorem PlainResult.inContext {x : Except Failure α} (hx : PlainResult x) (context : Context) :
    PlainResult (inContext context x) := by
  cases x with
  | ok a => exact plainResult_ok a
  | error e => exact plainResult_error.2 (Failure.plain_within.2 (plainResult_error.1 hx))

/-! ## Computations -/

variable {Q Q' : NoResult → σ → Prop}

theorem Stops.mono {x : EStateM NoResult σ α} (hx : Stops Q x) (h : ∀ e s, Q e s → Q' e s) : Stops Q' x :=
  ⟨fun hstop => h _ _ (hx.reason hstop)⟩

theorem stops_pure (a : α) : Stops Q (pure a) := ⟨nofun⟩

theorem stops_get : Stops Q (get : EStateM NoResult σ σ) := ⟨nofun⟩

theorem Stops.bind {x : EStateM NoResult σ α} {f : α → EStateM NoResult σ β} (hx : Stops Q x)
    (hf : ∀ a, Stops Q (f a)) : Stops Q (x >>= f) := by
  refine ⟨fun {s e s'} h => ?_⟩
  rcases of_bind_eq_error h with hfirst | ⟨a, s₁, -, hrest⟩
  · exact hx.reason hfirst
  · exact (hf a).reason hrest

theorem Stops.ite {c : Prop} [Decidable c] {x y : EStateM NoResult σ α} (hx : Stops Q x)
    (hy : Stops Q y) : Stops Q (if c then x else y) := by
  split
  · exact hx
  · exact hy

theorem Stops.forM {f : α → EStateM NoResult σ PUnit} (hf : ∀ a, Stops Q (f a)) (l : List α) :
    Stops Q (l.forM f) := by
  induction l with
  | nil => exact stops_pure _
  | cons a l ih => exact (hf a).bind fun _ => ih

theorem Stops.foldlM {f : β → α → EStateM NoResult σ β} (hf : ∀ b a, Stops Q (f b a)) (b : β)
    (l : List α) : Stops Q (l.foldlM f b) := by
  induction l generalizing b with
  | nil => exact stops_pure b
  | cons a l ih => exact (hf b a).bind ih

theorem Stops.mapM {f : α → EStateM NoResult σ β} (hf : ∀ a, Stops Q (f a)) (l : List α) :
    Stops Q (l.mapM f) := by
  induction l with
  | nil => exact stops_pure []
  | cons a l ih =>
    rw [List.mapM_cons]
    exact (hf a).bind fun b => ih.bind fun bs => stops_pure (b :: bs)

end

/-! ## Trees -/

namespace Tree

variable (t : Tree) (p : Path)

theorem resolve_plain (followLast : Bool) : PlainResult (t.resolve p followLast) := by
  unfold resolve
  split <;> simp

theorem resolveNew_plain (parts : List Part) : PlainResult (t.resolveNew p parts) := by
  unfold resolveNew
  split
  · simp only
    repeat' split
    all_goals simp
  · simp

theorem entryAt_plain : PlainResult (t.entryAt p) := by
  refine (resolve_plain t p false).bind fun l => ?_
  split <;> simp

theorem readingAt_plain : PlainResult (t.readingAt p) := by
  refine (resolve_plain t p true).bind fun l => ?_
  split <;> simp

theorem readThrough_fails {links : Nat} {e : Failure} (h : t.readThrough links p = .error (.failure e)) :
    e.Plain := by
  induction links generalizing p with
  | zero =>
    rw [readThrough] at h
    split at h
    · cases h
    · cases h
    · rename_i hfail
      obtain rfl := NoResult.failure.inj (Except.error.inj h)
      exact (readingAt_plain t p).failure hfail
  | succ links ih =>
    rw [readThrough] at h
    split at h
    · cases h
    · exact ih _ h
    · rename_i hfail
      obtain rfl := NoResult.failure.inj (Except.error.inj h)
      exact (readingAt_plain t p).failure hfail

theorem contentsAt_plainly {e : NoResult} (h : t.contentsAt p = .error e) : Plainly e t := by
  cases e with
  | failure e => exact readThrough_fails t p h
  | endless => exact ⟨p, contentsAt_eq_endless_iff.1 h⟩

theorem readDirectory_plain : PlainResult (t.readDirectory p) := by
  refine (resolve_plain t p true).bind fun l => ?_
  split <;> simp

theorem insertNew_plain (parts : List Part) (e : Entry) : PlainResult (t.insertNew p parts e) := by
  refine (resolveNew_plain t p parts).bind fun l => ?_
  split <;> simp

theorem ensureDirectory_plain (mode : Nat) (parts : Location) :
    PlainResult (t.ensureDirectory mode parts) := by
  unfold ensureDirectory
  repeat' split
  all_goals simp

theorem writeFile_plain (contents : Bytes) (mode : Nat) :
    PlainResult (t.writeFile p contents mode) := by
  refine (resolve_plain t p true).bind fun l => ?_
  split
  · split <;> simp
  · exact insertNew_plain ..

theorem symlink_plain (target : Path) : PlainResult (t.symlink target p) := insertNew_plain ..

theorem hardlink_plain (source : Path) : PlainResult (t.hardlink source p) := by
  refine (resolve_plain t source true).bind fun l => ?_
  split
  · simp
  · split
    · exact insertNew_plain ..
    · simp

theorem makeDevice_plain (mode : Nat) (major minor : UInt32) :
    PlainResult (t.makeDevice p mode major minor) := insertNew_plain ..

theorem inodeOf_plain : PlainResult (t.inodeOf p) := by
  refine (resolve_plain t p true).bind fun l => ?_
  repeat' split
  all_goals simp

theorem chmod_plain (mode : Nat) : PlainResult (t.chmod p mode) :=
  (inodeOf_plain t p).bind fun _ => plainResult_pure _

theorem chown_plain (owner : Ownership) : PlainResult (t.chown p owner) :=
  (inodeOf_plain t p).bind fun _ => plainResult_pure _

end Tree

/-! ## The database of installed packages -/

namespace InstalledDatabase

theorem splitLine_plain (line : List Char) : PlainResult (splitLine line) := by
  unfold splitLine
  split <;> simp [Failure.Plain, Failure.kind]

theorem readChecksum_plain (value : List Char) : PlainResult (readChecksum value) := by
  unfold readChecksum
  repeat' split
  all_goals simp [Failure.Plain, Failure.kind]

theorem readWord_plain (base : Nat) (digits : List Char) : PlainResult (readWord base digits) := by
  unfold readWord
  cases Numeral.natural base Numeral.maxWord digits with
  | ok n => exact plainResult_ok n
  | error e => exact plainResult_error.2 (by simp [Failure.Plain, Failure.kind])

theorem readAttributes_plain (value : List Char) : PlainResult (readAttributes value) := by
  unfold readAttributes
  split
  · simp [Failure.Plain, Failure.kind]
  · split
    · simp [Failure.Plain, Failure.kind]
    · exact (readWord_plain ..).bind fun _ => (readWord_plain ..).bind fun _ =>
        (readWord_plain ..).bind fun _ => plainResult_pure _

theorem addLine_plain (r : Record) (line : Nat) (key : Char) (value : List Char) :
    PlainResult (r.addLine line key value) := by
  unfold Record.addLine
  split
  case h_9 => exact ((readChecksum_plain value).inContext _).bind fun _ => plainResult_pure _
  case h_12 => exact ((readAttributes_plain value).inContext _).bind fun _ => plainResult_pure _
  case h_13 => exact ((readAttributes_plain value).inContext _).bind fun _ => plainResult_pure _
  all_goals exact plainResult_ok _

theorem readLines_plain (lines : List (List Char)) (line : Nat) (current : Option Record) :
    PlainResult (readLines line current lines) := by
  induction lines generalizing line current with
  | nil => exact plainResult_ok _
  | cons text rest ih =>
    rw [readLines]
    split
    · exact (ih ..).bind fun _ => plainResult_pure _
    · exact ((splitLine_plain text).inContext _).bind fun _ => (addLine_plain ..).bind fun _ => ih ..

end InstalledDatabase

theorem Tree.installedPackages_plainly {t : Tree} {e : NoResult} (h : t.installedPackages = .error e) :
    Plainly e t := by
  unfold installedPackages at h
  split at h
  · cases hread : t.contentsAt InstalledDatabase.location with
    | error e' =>
      rw [hread] at h
      obtain rfl := Except.error.inj h
      exact plainly_within.2 (contentsAt_plainly t _ hread)
    | ok contents =>
      have hparse := (InstalledDatabase.readLines_plain (Text.lines (Utf8.lossy contents).toList) 1 none).inContext
        (.parse InstalledDatabase.location)
      rw [hread] at h
      cases hresult : inContext (.parse InstalledDatabase.location)
          (InstalledDatabase.parse (Utf8.lossy contents)) with
      | ok packages => simp [bind, Except.bind, Except.mapError, hresult] at h
      | error f =>
        simp only [bind, Except.bind, Except.mapError, hresult, Except.error.injEq] at h
        subst h
        exact hparse.failure hresult
  · cases h

/-! ## Passes -/

namespace Edit

variable {α : Type} {Q : NoResult → Tree → Prop}

theorem ask_stops [Admits Q] {f : Tree → Except Failure α} (hf : ∀ t, PlainResult (f t)) :
    Stops Q (ask f) := by
  refine ⟨fun {t e t'} h => ?_⟩
  obtain ⟨fault, hfault, rfl, -⟩ := of_ask_eq_error h
  exact Admits.plain ((hf t).failure hfault)

theorem consult_stops {f : Tree → Except NoResult α} (hf : ∀ {t e}, f t = .error e → Plainly e t) :
    Stops Plainly (consult f) := by
  refine ⟨fun {t e t'} h => ?_⟩
  obtain ⟨hstop, rfl⟩ := of_consult_eq_error h
  exact hf hstop

theorem change_stops [Admits Q] {f : Tree → Except Failure Tree} (hf : ∀ t, PlainResult (f t)) :
    Stops Q (change f) := by
  refine ⟨fun {t e t'} h => ?_⟩
  obtain ⟨fault, hfault, rfl, -⟩ := of_change_eq_error h
  exact Admits.plain ((hf t).failure hfault)

theorem inContext_stops [Admits Q] {x : Edit α} (hx : Stops Q x) (context : Context) :
    Stops Q (inContext context x) := by
  refine ⟨fun {t e t'} h => ?_⟩
  obtain ⟨cause, hcause, rfl⟩ := of_inContext_eq_error h
  exact Admits.within context (hx.reason hcause)

theorem ensureDirectories_stops [Admits Q] (mode : Nat) (done : Location) (parts : List Part) :
    Stops Q (ensureDirectories mode done parts) := by
  induction parts generalizing done with
  | nil => exact stops_pure ()
  | cons part rest ih =>
    exact (change_stops fun t => t.ensureDirectory_plain ..).bind fun _ => ih _

theorem makeDirectories_stops [Admits Q] (p : Path) (mode : Nat) : Stops Q (makeDirectories p mode) :=
  ensureDirectories_stops ..

theorem applyAllRecorded_stops : Stops Plainly applyAllRecorded := by
  refine (consult_stops Tree.installedPackages_plainly).bind fun packages => ?_
  refine Stops.forM (fun p => Stops.forM (fun path => ?_) p.paths) packages
  unfold applyRecorded
  split
  · exact stops_pure ()
  · refine Stops.bind (ask_stops fun t => ?_) fun _ =>
      (change_stops fun t => t.chmod_plain ..).bind fun _ => change_stops fun t => t.chown_plain ..
    split <;> simp

theorem mergeRecords_stops (file : String) (added : List String) :
    Stops Plainly (mergeRecords file added) := by
  refine Stops.bind (stops_get.bind fun t => Stops.ite ?_ (stops_pure _)) fun contents =>
    inContext_stops (change_stops fun t => t.writeFile_plain ..) _
  exact (inContext_stops (consult_stops (Tree.contentsAt_plainly _ _)) _).bind fun _ => stops_pure _

theorem makeHome_stops [Admits Q] (u : User) : Stops Q (makeHome u) :=
  (inContext_stops (makeDirectories_stops ..) _).bind fun _ => change_stops fun t => t.chown_plain ..

theorem mergeAccounts_stops (accounts : Accounts) : Stops Plainly (mergeAccounts accounts) :=
  Stops.ite (stops_pure ()) <| (makeDirectories_stops ..).bind fun _ =>
    (mergeRecords_stops ..).bind fun _ => (mergeRecords_stops ..).bind fun _ =>
      Stops.forM makeHome_stops _

theorem setAttributes_stops [Admits Q] (p : Path) (c : PathChange) : Stops Q (setAttributes p c) :=
  (change_stops fun t => t.chmod_plain ..).bind fun _ => change_stops fun t => t.chown_plain ..

theorem setAttributesBelow_stops (c : PathChange) (depth : Nat) (directory : Path) :
    Stops FailsPlainly (setAttributesBelow c depth directory) := by
  induction depth generalizing directory with
  | zero =>
    refine ⟨fun h f heq => ?_⟩
    obtain ⟨rfl, -⟩ := EStateM.Result.error.inj h
    cases heq
  | succ depth ih =>
    refine (ask_stops fun t => t.readDirectory_plain _).bind fun names => Stops.forM (fun name => ?_) _
    exact (ask_stops fun t => t.entryAt_plain _).bind fun e => Stops.ite (stops_pure ()) <|
      (setAttributes_stops ..).bind fun _ => Stops.ite (ih _) (stops_pure ())

theorem requireTarget_stops [Admits Q] (c : PathChange) : Stops Q (requireTarget c) := by
  refine ask_stops fun t => ?_
  split <;> simp [Failure.Plain, Failure.kind]

theorem applyToPath_stops [Admits Q] (c : PathChange) (p : Path) : Stops Q (applyToPath c p) := by
  unfold applyToPath
  split
  · exact (makeDirectories_stops ..).bind fun _ => setAttributes_stops ..
  · exact (change_stops fun t => t.writeFile_plain ..).bind fun _ => setAttributes_stops ..
  · exact (requireTarget_stops c).bind fun _ =>
      (change_stops fun t => t.hardlink_plain ..).bind fun _ => setAttributes_stops ..
  · exact (requireTarget_stops c).bind fun _ => change_stops fun t => t.symlink_plain ..
  · exact setAttributes_stops ..

theorem applyChanges_stops (changes : List PathChange) : Stops FailsPlainly (applyChanges changes) := by
  refine Stops.forM (fun c => inContext_stops ?_ _) changes
  exact (applyToPath_stops ..).bind fun _ => Stops.ite
    ((ask_stops fun t => t.entryAt_plain _).bind fun e => Stops.ite
      (stops_get.bind fun _ => setAttributesBelow_stops ..) (stops_pure ())) (stops_pure ())

theorem writeServices_stops [Admits Q] (services : SortedMap String String) : Stops Q (writeServices services) := by
  refine Stops.forM (fun (name, command) => ?_) services.toList
  refine Stops.bind (ask_stops fun t => ?_) fun _ => (makeDirectories_stops ..).bind fun _ =>
    inContext_stops (change_stops fun t => t.writeFile_plain ..) _
  split <;> simp [Failure.Plain, Failure.kind]

theorem linkApplets_stops (installed : List InstalledPackage) : Stops Plainly (linkApplets installed) := by
  refine stops_get.bind fun t => Stops.ite (Stops.bind ?_ fun applets => ?_) (stops_pure 0)
  · refine stops_get.bind fun t => Stops.ite ?_ (stops_pure _)
    exact (inContext_stops (consult_stops (Tree.contentsAt_plainly _ _)) _).bind fun _ => stops_pure _
  · refine Stops.foldlM (fun made applet => Stops.bind ?_ fun _ => stops_pure _) 0 applets
    refine stops_get.bind fun t => Stops.ite (stops_pure 0) ?_
    exact (ensureDirectories_stops ..).bind fun _ =>
      (inContext_stops (change_stops fun t => t.symlink_plain ..) _).bind fun _ => stops_pure 1

theorem sonameIn_stops (directory : Path) (name : Name) : Stops Plainly (sonameIn directory name) := by
  unfold sonameIn
  split
  · exact stops_pure none
  · refine Stops.ite (stops_pure none) <| (ask_stops fun t => t.entryAt_plain _).bind fun e =>
      Stops.ite (stops_pure none) ?_
    exact (inContext_stops (consult_stops (Tree.contentsAt_plainly _ _)) _).bind fun _ => stops_pure _

theorem linkSoname_stops [Admits Q] (directory : Path) (soname name : String) :
    Stops Q (linkSoname directory soname name) :=
  stops_get.bind fun _ => Stops.ite (stops_pure 0) <|
    (inContext_stops (change_stops fun t => t.symlink_plain ..) _).bind fun _ => stops_pure 1

theorem linkSonames_stops : Stops Plainly linkSonames := by
  refine Stops.foldlM (fun made directory => Stops.bind ?_ fun _ => stops_pure _) 0 _
  refine stops_get.bind fun t => Stops.ite (stops_pure 0) ?_
  refine (ask_stops fun t => t.readDirectory_plain _).bind fun names =>
    (Stops.mapM (sonameIn_stops directory) names).bind fun found => ?_
  exact Stops.foldlM (fun made x => (linkSoname_stops ..).bind fun _ => stops_pure _) 0 _

theorem makeDevices_stops [Admits Q] : Stops Q makeDevices := by
  refine (makeDirectories_stops ..).bind fun _ => Stops.forM (fun device => ?_) _
  exact stops_get.bind fun t => Stops.ite (stops_pure ())
    (inContext_stops (change_stops fun t => t.makeDevice_plain ..) _)

/-- Writing the file that identifies the operating system stops plainly, or because the file exists; then
nothing was changed. -/
theorem writeOsRelease_error {r : OsRelease} {t t' : Tree} {e : NoResult}
    (h : writeOsRelease r t = .error e t') :
    Plainly e t' ∨ e = .failure (.osReleasePresent OsRelease.location) ∧ t' = t := by
  have hwrite : Stops Plainly (do
      makeDirectories (.ofString "etc") 0o755
      change (·.writeFile OsRelease.location (Bytes.ofString r.render) 0o644)) :=
    (makeDirectories_stops ..).bind fun _ => change_stops fun t => t.writeFile_plain ..
  by_cases hexists : t.exists? OsRelease.location
  · simp only [writeOsRelease, bind, EStateM.bind, ask, hexists, if_true] at h
    obtain ⟨rfl, rfl⟩ := EStateM.Result.error.inj h
    exact Or.inr ⟨rfl, rfl⟩
  · have hrest : writeOsRelease r t = (do
        makeDirectories (.ofString "etc") 0o755
        change (·.writeFile OsRelease.location (Bytes.ofString r.render) 0o644) : Edit Unit) t := by
      simp [writeOsRelease, bind, EStateM.bind, ask, hexists]
    rw [hrest] at h
    exact Or.inl (hwrite.reason h)

end Edit

end ImageLayer
