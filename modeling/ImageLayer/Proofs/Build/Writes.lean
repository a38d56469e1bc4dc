import ImageLayer.Build.Layer
import ImageLayer.Proofs.Tree.Endless
/-!
What the parts of a build write.

Behind the assembly a build consists of parts: writing the layer, finding out the operating system, listing the
packages, writing documents, writing the index. A part leaves the tree and the tags alone, and the host takes
the files that it writes in their order. `Build.Outcome` says so of a result, together with what the part
returns behind these files, or why it stops there. Each part has one lemma here that says all it does, and a
build is put together from these without looking into the parts again.

Sections:

* Files. An `Output` is a file that a build writes, and `Site.Wrote` relates the sites before and after some of
  them were written: the host has taken them, in this order, and they are recorded.
* Results. `Outcome` takes two predicates, on what is returned and on what stops. What holds of the parts of a
  computation holds of the whole (`Outcome.bind`): files in front of what stops a later part are those of the
  earlier parts and then its own. `Silent` is the case of a part that writes nothing.
* The parts of a build. Reading is where a part may never come to an end, and there are two that read:
  `outcome_detectOs` does if the operating system is not known and the file that says it goes on for ever, and
  `outcome_packagesOf` if no packages are given and the database does. Any other failure to read the first is
  only warned of.
* Documents. They are written one after the other, up to the first that the host refuses (`RefusedAmong`).
* The index: the directory for it, and the file.

An archive that does not hold all of the tree is written before it is known that something is missing. So the
failure of such a build comes behind the file of the layer (`outcome_writeLayer`).
-/

namespace ImageLayer

/-! ## Files -/

/-- A file that a build writes. -/
inductive Output where
  | layer (p : Path) (file : Bytes)
  | document (p : Path) (contents : Bytes)
  | index (directory : Path) (raw : Bytes)
  deriving DecidableEq, Repr

namespace Output

def path : Output → Path
  | .layer p _ | .document p _ => p
  | .index directory _ => IndexFile.path directory

def contents : Output → Bytes
  | .layer _ bs | .document _ bs | .index _ bs => bs

/-- The host after it has taken the file. -/
def perform : Output → Host → Except Failure Host
  | .layer p file, h => (h.writeFile p file).mapError fun e => .archive p (.host e)
  | .document p contents, h => (h.writeFile p contents).mapError fun e => .sbomWrite p e.message
  | .index directory raw, h => h.writeIndex directory raw

/-- The host after it has taken files in their order. -/
def performAll (outputs : List Output) (h : Host) : Except Failure Host :=
  outputs.foldlM (fun h o => o.perform h) h

theorem performAll_append {a b : List Output} {h h₁ h₂ : Host} (ha : performAll a h = .ok h₁)
    (hb : performAll b h₁ = .ok h₂) : performAll (a ++ b) h = .ok h₂ := by
  rw [performAll, List.foldlM_append]
  exact (congrArg (· >>= performAll b) ha).trans hb

end Output

/-- `s'` is `s` after files were written, in their order: the host has taken them and they are recorded, and the tree
and the tags are what they were. -/
structure Site.Wrote (s s' : Site) (outputs : List Output) : Prop where
  tree : s'.workspace.tree = s.workspace.tree
  tags : s'.workspace.tags = s.workspace.tags
  host : Output.performAll outputs s.host = .ok s'.host
  written : s'.written = s.written ++ outputs.map fun o => (o.path, o.contents)

theorem Site.Wrote.refl (s : Site) : s.Wrote s [] := ⟨rfl, rfl, rfl, (List.append_nil _).symm⟩

theorem Site.Wrote.append {s s₁ s₂ : Site} {a b : List Output} (h : s.Wrote s₁ a) (h' : s₁.Wrote s₂ b) :
    s.Wrote s₂ (a ++ b) where
  tree := h'.tree.trans h.tree
  tags := h'.tags.trans h.tags
  host := Output.performAll_append h.host h'.host
  written := by rw [h'.written, h.written, List.map_append, List.append_assoc]

namespace Build

variable {α β : Type}

/-! ## Results -/

/-- A result after files were written: a value that goes with them, or a reason for having none that goes with them
and with the host that has taken them. -/
def Outcome (s : Site) (returns : α → List Output → Prop) (stops : NoResult → List Output → Host → Prop) :
    EStateM.Result NoResult Site α → Prop
  | .ok a s' => ∃ outputs, s.Wrote s' outputs ∧ returns a outputs
  | .error e s' => ∃ outputs, s.Wrote s' outputs ∧ stops e outputs s'.host

/-- The reason for having no result is a failure such that `P`. -/
def Fails (P : Failure → List Output → Host → Prop) (e : NoResult) (outputs : List Output) (h : Host) : Prop :=
  ∃ f, e = .failure f ∧ P f outputs h

theorem Fails.mono {P Q : Failure → List Output → Host → Prop} {e : NoResult} {outputs more : List Output}
    {h : Host} (hfails : Fails P e outputs h) (hPQ : ∀ f, P f outputs h → Q f more h) : Fails Q e more h := by
  obtain ⟨f, rfl, hf⟩ := hfails
  exact ⟨f, rfl, hPQ f hf⟩

/-- A result of a computation that writes nothing and returns a value such that `P`. -/
def Silent (s : Site) (P : α → Prop) : EStateM.Result NoResult Site α → Prop :=
  Outcome s (fun a outputs => outputs = [] ∧ P a) fun _ _ _ => False

variable {s : Site} {returns : α → List Output → Prop} {stops : NoResult → List Output → Host → Prop}

/-- What comes behind files that were written goes with these as well. -/
theorem Outcome.after {x : EStateM.Result NoResult Site α} {s₁ : Site} {done : List Output}
    (hdone : s.Wrote s₁ done)
    (hx : Outcome s₁ (fun a more => returns a (done ++ more)) (fun e more => stops e (done ++ more)) x) :
    Outcome s returns stops x := by
  cases x with
  | ok a s' =>
    obtain ⟨more, hmore, ha⟩ := hx
    exact ⟨done ++ more, hdone.append hmore, ha⟩
  | error e s' =>
    obtain ⟨more, hmore, he⟩ := hx
    exact ⟨done ++ more, hdone.append hmore, he⟩

theorem Outcome.bind {returns' : β → List Output → Prop} {stops' : NoResult → List Output → Host → Prop}
    {x : Build α} {f : α → Build β} (hx : Outcome s returns stops (x s))
    (hstops : ∀ e outputs h, stops e outputs h → stops' e outputs h)
    (hf : ∀ a s₁ outputs, s.Wrote s₁ outputs → returns a outputs →
      Outcome s₁ (fun b more => returns' b (outputs ++ more))
        (fun e more => stops' e (outputs ++ more)) (f a s₁)) :
    Outcome s returns' stops' ((x >>= f) s) := by
  simp only [Bind.bind, EStateM.bind]
  cases hresult : x s with
  | ok a s₁ =>
    rw [hresult] at hx
    obtain ⟨outputs, hwrote, ha⟩ := hx
    exact (hf a s₁ outputs hwrote ha).after hwrote
  | error e s₁ =>
    rw [hresult] at hx
    obtain ⟨outputs, hwrote, he⟩ := hx
    exact ⟨outputs, hwrote, hstops e outputs s₁.host he⟩

theorem Outcome.mono {returns' : α → List Output → Prop} {stops' : NoResult → List Output → Host → Prop}
    {x : EStateM.Result NoResult Site α} (hx : Outcome s returns stops x)
    (hreturns : ∀ a outputs, returns a outputs → returns' a outputs)
    (hstops : ∀ e outputs h, stops e outputs h → stops' e outputs h) : Outcome s returns' stops' x := by
  cases x with
  | ok a s' =>
    obtain ⟨outputs, hwrote, ha⟩ := hx
    exact ⟨outputs, hwrote, hreturns a outputs ha⟩
  | error e s' =>
    obtain ⟨outputs, hwrote, he⟩ := hx
    exact ⟨outputs, hwrote, hstops e outputs s'.host he⟩

theorem Silent.bind {P : β → Prop} {x : Build β} {f : β → Build α} (hx : Silent s P (x s))
    (hf : ∀ b s₁, s.Wrote s₁ [] → P b → Outcome s₁ returns stops (f b s₁)) :
    Outcome s returns stops ((x >>= f) s) := by
  refine Outcome.bind hx (fun _ _ _ h => h.elim) ?_
  rintro b s₁ outputs hwrote ⟨rfl, hb⟩
  exact hf b s₁ hwrote hb

theorem outcome_pure {a : α} (h : returns a []) : Outcome s returns stops ((pure a : Build α) s) :=
  ⟨[], .refl s, h⟩

theorem silent_pure {P : α → Prop} {a : α} (h : P a) : Silent s P ((pure a : Build α) s) :=
  outcome_pure ⟨rfl, h⟩

theorem silent_say (m : Message) : Silent s (fun _ => True) (say m s) :=
  ⟨[], ⟨rfl, rfl, rfl, (List.append_nil _).symm⟩, rfl, trivial⟩

theorem silent_get : Silent s (s = ·) ((get : Build Site) s) := silent_pure rfl

/-- A file is written, or refused by the host as it is. -/
theorem outcome_write (o : Output) :
    Outcome s (fun _ outputs => outputs = [o]) (Fails fun e outputs h => outputs = [] ∧ o.perform h = .error e)
      (write o.path o.contents o.perform s) := by
  unfold write
  cases hperform : o.perform s.host with
  | ok h => exact ⟨[o], ⟨rfl, rfl, by simp [Output.performAll, hperform], rfl⟩, rfl⟩
  | error e => exact ⟨[], .refl s, e, rfl, rfl, hperform⟩

theorem outcome_stopAt (fault : Option Failure) :
    Outcome s (fun _ outputs => outputs = [] ∧ fault = none)
      (Fails fun e outputs _ => outputs = [] ∧ fault = some e) (stopAt fault s) := by
  cases fault with
  | none => exact ⟨[], .refl s, rfl, rfl⟩
  | some e => exact ⟨[], .refl s, e, rfl, rfl, rfl⟩

/-! ## The parts of a build -/

/-- The layer that a tree makes, at a path. -/
def layerOf (z : Compressor) (sourceDate : Int) (p : Path) (t : Tree) : Layer :=
  let archive := (Archive.ofTree sourceDate t).1
  let file := z.compress archive
  ⟨p, .ofBytes archive, .ofBytes file, file.length⟩

/-- Its file. -/
def layerOutput (z : Compressor) (sourceDate : Int) (p : Path) (t : Tree) : Output :=
  .layer p (z.compress (Archive.ofTree sourceDate t).1)

/-- The layer is written unless the host refuses the file. An archive that does not hold all of the tree is written
too, but stops the build. -/
theorem outcome_writeLayer (z : Compressor) (sourceDate : Int) (p : Path) :
    Outcome s
      (fun layer outputs => outputs = [layerOutput z sourceDate p s.workspace.tree] ∧
        (Archive.ofTree sourceDate s.workspace.tree).2 = none ∧
        layer = layerOf z sourceDate p s.workspace.tree)
      (Fails fun e outputs h =>
        outputs = [] ∧ (layerOutput z sourceDate p s.workspace.tree).perform h = .error e ∨
        outputs = [layerOutput z sourceDate p s.workspace.tree] ∧
          ∃ fault, (Archive.ofTree sourceDate s.workspace.tree).2 = some fault ∧ e = .archive p fault)
      (writeLayer z sourceDate p s) := by
  unfold writeLayer
  refine (silent_say _).bind fun _ s₁ h₁ _ => ?_
  refine silent_get.bind fun _ s₂ h₂ hs => ?_
  subst hs
  rw [h₁.tree]
  refine (outcome_write (layerOutput z sourceDate p s.workspace.tree)).bind
    (fun _ _ _ h => h.mono fun _ => Or.inl) ?_
  rintro - s₃ outputs - rfl
  refine (outcome_stopAt _).bind ?_ ?_
  · rintro _ outputs - ⟨e, rfl, rfl, hfault⟩
    obtain ⟨fault, hsome, rfl⟩ := Option.map_eq_some_iff.1 hfault
    exact ⟨_, rfl, Or.inr ⟨rfl, fault, hsome, rfl⟩⟩
  · rintro - s₄ outputs - ⟨rfl, hnone⟩
    refine (silent_say _).bind fun _ s₅ _ _ => ?_
    exact outcome_pure ⟨rfl, Option.map_eq_none_iff.1 hnone, rfl⟩

/-- The operating system that a tree says it is, unless one is known or there is no file that says it. -/
def osIn (known : OsInfo) (t : Tree) : OsInfo :=
  if known.id ≠ "" ∨ t.exists? OsRelease.location = false then known
  else
    match t.contentsAt OsRelease.location with
    | .ok contents => .parse (Utf8.lossy contents)
    | .error _ => known

/-- It can be found out: it is known, or what says it does not go on for ever. -/
def OsFound (known : OsInfo) (t : Tree) : Prop := known.id ≠ "" ∨ ¬ t.Endless OsRelease.location

/-- The operating system is found unless it is not known and the file that says it can never be read to its end. -/
theorem outcome_detectOs (known : OsInfo) :
    Outcome s
      (fun os outputs => outputs = [] ∧ OsFound known s.workspace.tree ∧ os = osIn known s.workspace.tree)
      (fun e outputs _ => e = .endless ∧ outputs = [] ∧ known.id = "" ∧
        s.workspace.tree.Endless OsRelease.location) (detectOs known s) := by
  unfold detectOs osIn
  refine silent_get.bind fun _ s₁ h₁ hs => ?_
  subst hs
  by_cases hknown : known.id ≠ "" ∨ s.workspace.tree.exists? OsRelease.location = false
  · rw [if_pos hknown, if_pos (by simpa using hknown)]
    refine outcome_pure ⟨rfl, hknown.imp_right fun hfree hendless => ?_, rfl⟩
    rw [hendless.exists?] at hfree
    cases hfree
  · rw [if_neg hknown, if_neg (by simpa using hknown)]
    rw [not_or, ne_eq, not_not] at hknown
    have hfound : s.workspace.tree.contentsAt OsRelease.location ≠ .error .endless →
        OsFound known s.workspace.tree := fun hread =>
      Or.inr fun hendless => hread (Tree.contentsAt_eq_endless_iff.2 hendless)
    cases hread : s.workspace.tree.contentsAt OsRelease.location with
    | ok contents => exact outcome_pure ⟨rfl, hfound (by simp [hread]), rfl⟩
    | error e =>
      cases e with
      | failure e => exact (silent_say _).bind fun _ _ _ _ => outcome_pure ⟨rfl, hfound (by simp [hread]), rfl⟩
      | endless => exact ⟨[], .refl _, rfl, rfl, hknown.1, Tree.contentsAt_eq_endless_iff.1 hread⟩

/-- The packages that a request asks to document: those that it gives, or else those that the tree records. -/
def documented (r : BuildRequest) (t : Tree) : Except NoResult (List Package) :=
  match r.packages with
  | some packages => .ok packages
  | none => t.installedPackages.map (·.map InstalledPackage.package)

/-- The packages are never found only if the tree is asked for them and has a database that can never be read to its
end. -/
theorem documented_endless {r : BuildRequest} {t : Tree} (h : documented r t = .error .endless) :
    r.packages = none ∧ t.Endless InstalledDatabase.location := by
  unfold documented at h
  split at h
  · cases h
  · rename_i hpackages
    refine ⟨hpackages, Tree.contentsAt_eq_endless_iff.1 ?_⟩
    unfold Tree.installedPackages at h
    split at h
    · cases hread : t.contentsAt InstalledDatabase.location with
      | error e =>
        rw [hread] at h
        cases e with
        | failure f => cases h
        | endless => rfl
      | ok contents =>
        rw [hread] at h
        simp only [bind, Except.bind, Except.mapError] at h
        split at h <;> cases h
    · cases h

theorem outcome_recordedPackages :
    Outcome s
      (fun packages outputs => outputs = [] ∧
        s.workspace.tree.installedPackages.map (·.map InstalledPackage.package) = .ok packages)
      (fun e outputs _ => outputs = [] ∧ s.workspace.tree.installedPackages = .error e)
      (recordedPackages s) := by
  unfold recordedPackages
  have hread : Outcome s
      (fun installed outputs => outputs = [] ∧ s.workspace.tree.installedPackages = .ok installed)
      (fun e outputs _ => outputs = [] ∧ s.workspace.tree.installedPackages = .error e)
      (assembly (Assembly.edit (Edit.consult (·.installedPackages))) s) := by
    simp only [assembly, Assembly.edit, Edit.consult]
    cases hinstalled : s.workspace.tree.installedPackages with
    | ok installed => exact ⟨[], .refl s, rfl, rfl⟩
    | error e => exact ⟨[], .refl s, rfl, rfl⟩
  refine hread.bind (fun _ _ _ h => h) ?_
  rintro installed s₁ outputs - ⟨rfl, hinstalled⟩
  exact outcome_pure ⟨rfl, by rw [hinstalled]; rfl⟩

theorem outcome_packagesOf (r : BuildRequest) :
    Outcome s
      (fun packages outputs => outputs = [] ∧ documented r s.workspace.tree = .ok packages)
      (fun e outputs _ => outputs = [] ∧ documented r s.workspace.tree = .error e) (packagesOf r s) := by
  unfold packagesOf documented
  cases r.packages with
  | some packages => exact outcome_pure ⟨rfl, rfl⟩
  | none =>
    refine outcome_recordedPackages.mono (fun _ _ h => h) fun e outputs _ h => ⟨h.1, ?_⟩
    rw [h.2]
    rfl

/-! ## Documents -/

/-- The document in a format. -/
def documentOf (m : BuildMetadata) (packages : List Package) (f : SbomFormat) : Output :=
  .document (sbomPath m f) (Bytes.ofString (f.render m packages))

theorem outcome_writeSbom (m : BuildMetadata) (packages : List Package) (f : SbomFormat) :
    Outcome s (fun p outputs => p = sbomPath m f ∧ outputs = [documentOf m packages f])
      (Fails fun e outputs h => outputs = [] ∧ (documentOf m packages f).perform h = .error e)
      (writeSbom m packages f s) := by
  unfold writeSbom
  refine (silent_say _).bind fun _ s₁ _ _ => ?_
  refine (outcome_write (documentOf m packages f)).bind (fun _ _ _ h => h) ?_
  rintro - s₂ outputs - rfl
  exact outcome_pure ⟨rfl, rfl⟩

/-- Some of the outputs were written, and the host refuses the next one. -/
def RefusedAmong (all : List Output) (e : Failure) (outputs : List Output) (h : Host) : Prop :=
  ∃ o rest, all = outputs ++ o :: rest ∧ o.perform h = .error e

theorem RefusedAmong.before {all : List Output} {e : Failure} {outputs : List Output} {h : Host}
    (hrefused : RefusedAmong all e outputs h) (more : List Output) :
    RefusedAmong (all ++ more) e outputs h := by
  obtain ⟨o, rest, rfl, he⟩ := hrefused
  exact ⟨o, rest ++ more, by simp, he⟩

theorem RefusedAmong.behind {all : List Output} {e : Failure} {outputs : List Output} {h : Host}
    (hrefused : RefusedAmong all e outputs h) (done : List Output) :
    RefusedAmong (done ++ all) e (done ++ outputs) h := by
  obtain ⟨o, rest, rfl, he⟩ := hrefused
  exact ⟨o, rest, by simp, he⟩

/-- Documents are written one after the other, up to the first that the host refuses. -/
theorem outcome_mapM_writeSbom (m : BuildMetadata) (packages : List Package) (formats : List SbomFormat) :
    Outcome s
      (fun paths outputs => paths = formats.map (sbomPath m) ∧
        outputs = formats.map (documentOf m packages))
      (Fails (RefusedAmong (formats.map (documentOf m packages))))
      (formats.mapM (writeSbom m packages) s) := by
  induction formats generalizing s with
  | nil => exact outcome_pure ⟨rfl, rfl⟩
  | cons f rest ih =>
    rw [List.mapM_cons]
    refine (outcome_writeSbom m packages f).bind ?_ ?_
    · rintro _ outputs h ⟨e, rfl, rfl, he⟩
      exact ⟨e, rfl, _, _, rfl, he⟩
    · rintro p s₁ outputs - ⟨rfl, rfl⟩
      refine ih.bind (fun e outputs h hfails => hfails.mono fun _ hrefused => hrefused.behind [_]) ?_
      rintro paths s₂ outputs - ⟨rfl, rfl⟩
      exact outcome_pure ⟨rfl, by simp⟩

theorem outcome_writeSboms (m : BuildMetadata) (packages : List Package) (formats : List SbomFormat) :
    Outcome s
      (fun paths outputs => paths = (distinct formats).map (sbomPath m) ∧
        outputs = (distinct formats).map (documentOf m packages))
      (Fails (RefusedAmong ((distinct formats).map (documentOf m packages))))
      (writeSboms m packages formats s) := by
  unfold writeSboms
  refine (outcome_mapM_writeSbom m packages (distinct formats)).bind (fun _ _ _ h => h) ?_
  rintro paths s₁ outputs - ⟨rfl, rfl⟩
  split
  · refine (silent_say _).bind fun _ s₂ _ _ => ?_
    exact outcome_pure ⟨rfl, by simp⟩
  · exact outcome_pure ⟨rfl, by simp⟩

/-! ## The index -/

theorem outcome_writeIndex (directory : Path) (raw : Bytes) :
    Outcome s
      (fun p outputs => p = IndexFile.path directory ∧ outputs = [.index directory raw])
      (Fails (RefusedAmong [.index directory raw])) (writeIndex directory raw s) := by
  unfold writeIndex
  refine (outcome_write (.index directory raw)).bind ?_ ?_
  · rintro _ outputs h ⟨e, rfl, rfl, he⟩
    exact ⟨e, rfl, _, [], rfl, he⟩
  · rintro - s₁ outputs - rfl
    refine (silent_say _).bind fun _ s₂ _ _ => ?_
    exact outcome_pure ⟨rfl, rfl⟩

theorem outcome_writeIndexOf (r : BuildRequest) :
    Outcome s
      (fun index outputs => index = r.index.map (fun _ => IndexFile.path r.metadata.output.directory) ∧
        outputs = r.index.toList.map (.index r.metadata.output.directory))
      (Fails (RefusedAmong (r.index.toList.map (.index r.metadata.output.directory)))) (writeIndexOf r s) := by
  unfold writeIndexOf
  cases r.index with
  | none => exact outcome_pure ⟨rfl, rfl⟩
  | some raw =>
    refine (outcome_writeIndex r.metadata.output.directory raw).bind (fun _ _ _ h => h) ?_
    rintro p s₁ outputs - ⟨rfl, rfl⟩
    exact outcome_pure ⟨rfl, rfl⟩

end Build

end ImageLayer
