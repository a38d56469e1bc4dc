import Mathlib.Data.List.Basic
import Mathlib.Data.List.Induction
import ImageLayer.Proofs.Build.Composition
import ImageLayer.Proofs.Build.Writes
import ImageLayer.Proofs.Tree.Location
/-!
What a build delivers.

A build assembles a tree, writes it as a layer, writes documents about it, and returns what it wrote.
`Build.run_delivers`, the main statement, says what each of these is about, for every order, every tree and
every host, and whatever compresses the layer (`Compressor`).

* A build whose assembly fails or never comes to an end has written nothing.
* A build that returns has written the file of the layer, a document for each different format in the order in
  which these come first, and the index (`Build.Delivered`). The archive of the tree that the assembly left is
  read back from the file. The documents are about this file: whatever digest the order gives, theirs is that of
  the file, and the packages are those that were given or else those that the tree records. The tags are the
  ones that the first two steps of the assembly left.
* A build that stops behind the assembly has written the files in front of what stopped it and no others
  (`Build.StopsAfter`). There are three kinds of reasons: the host refuses a file, something of the tree does
  not go into an archive or cannot be read, or something has to be read that has no end (`Tree.Endless`). In the
  last case the build does not return and does not fail either, and the layer has been written already.

Sections:

* Formats. Those that are named twice are written once (`firstOccurrences_distinct`). No two documents go to one
  file (`same_sbomPath`), as the extensions of formats differ.
* What is written: the files as functions of the order and of the workspace behind the assembly. What a build
  does behind it is composed from its parts (`outcome_deliver`), each of which has its lemma in
  `ImageLayer.Proofs.Build.Writes`.
* Whole builds.

Nothing is said of how well layers are compressed. A compressor has to be undone by a decompressor, which is
what makes the archive readable from the file, and nothing else is used of it.
-/

namespace ImageLayer

namespace Build

/-! ## Formats -/

/-- `d` lists what is in `l` once each, in the order in which it comes first. -/
structure FirstOccurrences (l d : List SbomFormat) : Prop where
  /-- Everything is listed, and nothing else. -/
  mem_iff : ∀ f, f ∈ d ↔ f ∈ l
  /-- What comes first is listed first. -/
  ordered : d.Pairwise fun f g => l.idxOf f < l.idxOf g

theorem distinct_concat (l : List SbomFormat) (f : SbomFormat) :
    distinct (l ++ [f]) = if (distinct l).contains f then distinct l else distinct l ++ [f] := by
  rw [distinct, List.foldl_append]
  rfl

theorem firstOccurrences_distinct (l : List SbomFormat) : FirstOccurrences l (distinct l) := by
  induction l using List.reverseRecOn with
  | nil => exact ⟨fun _ => Iff.rfl, .nil⟩
  | append_singleton l f ih =>
    -- What has come before keeps its place.
    have hplace : ∀ g ∈ distinct l, (l ++ [f]).idxOf g = l.idxOf g :=
      fun g hg => List.idxOf_append_of_mem ((ih.mem_iff g).1 hg)
    have hordered : (distinct l).Pairwise fun g g' => (l ++ [f]).idxOf g < (l ++ [f]).idxOf g' := by
      refine ih.ordered.imp_of_mem fun {g g'} hg hg' h => ?_
      rwa [hplace g hg, hplace g' hg']
    rw [distinct_concat]
    split
    · rename_i hf
      rw [List.contains_iff_mem, ih.mem_iff] at hf
      refine ⟨fun g => ?_, hordered⟩
      rw [ih.mem_iff, List.mem_append, List.mem_singleton]
      exact ⟨Or.inl, fun h => h.elim id fun hg => hg ▸ hf⟩
    · rename_i hf
      rw [List.contains_iff_mem] at hf
      have hnew : f ∉ l := fun h => hf ((ih.mem_iff f).2 h)
      refine ⟨fun g => by simp [ih.mem_iff], List.pairwise_append.2 ⟨hordered, ?_, ?_⟩⟩
      · exact List.pairwise_singleton _ _
      · intro g hg g' hg'
        rw [List.mem_singleton.1 hg', hplace g hg, List.idxOf_append_of_notMem hnew]
        exact Nat.lt_add_right _ (List.idxOf_lt_length_of_mem ((ih.mem_iff g).1 hg))

/-- The names of platforms in the names of files. -/
def platforms : List String := "noarch" :: Architecture.all.map Architecture.packageName

theorem mem_platforms (a : Option Architecture) :
    (a.map Architecture.packageName).getD "noarch" ∈ platforms := by
  rcases a with _ | a
  · decide
  · cases a <;> decide

/-- The file of a document about a platform. -/
def sbomFile (platform : String) (f : SbomFormat) : Path :=
  .ofString ("sbom-" ++ platform ++ "." ++ f.extension)

theorem sbomFile_parts : ∀ platform ∈ platforms, ∀ f ∈ SbomFormat.all,
    (sbomFile platform f).isAbsolute = false ∧ ∀ g ∈ SbomFormat.all,
      (sbomFile platform f).parts = (sbomFile platform g).parts → f = g := by
  decide +kernel

/-- Documents in different formats go to different files. -/
theorem same_sbomPath (m : BuildMetadata) {f g : SbomFormat} (h : f ≠ g) :
    (sbomPath m f).same (sbomPath m g) = false := by
  let platform := (m.image.architecture.map Architecture.packageName).getD "noarch"
  have hplatform : platform ∈ platforms := mem_platforms m.image.architecture
  have hall : ∀ f : SbomFormat, f ∈ SbomFormat.all := by
    intro f
    cases f <;> decide
  have hpath : ∀ f, (sbomPath m f).parts = m.output.directory.parts ++ (sbomFile platform f).parts :=
    fun f => Path.parts_join _ (sbomFile_parts platform hplatform f (hall f)).1
  have hparts : (sbomPath m f).parts ≠ (sbomPath m g).parts := by
    rw [hpath f, hpath g]
    exact fun heq => h ((sbomFile_parts platform hplatform f (hall f)).2 g (hall g)
      (List.append_cancel_left heq))
  simp [Path.same, hparts]

/-! ## What is written -/

section

variable (z : Compressor) (r : BuildRequest) (w : Workspace)

/-- What the documents of a build are about: the image with the tags that were derived and the digest of the file
that was written, and the operating system that the tree says it is. -/
def described : BuildMetadata where
  image := { r.metadata.image with
    tags := w.tags
    layerDigest := (layerOf z r.metadata.image.sourceDate r.metadata.output.layer w.tree).digest.text }
  os := osIn r.metadata.os w.tree
  output := r.metadata.output

/-- The file of the layer. -/
def firstOutput : Output := layerOutput z r.metadata.image.sourceDate r.metadata.output.layer w.tree

/-- The files behind that of the layer: a document for each different format, and the index. -/
def laterOutputs (packages : List Package) : List Output :=
  (distinct r.formats).map (documentOf (described z r w) packages) ++
    r.index.toList.map (.index r.metadata.output.directory)

/-- What a build returns. -/
def responseOf : BuildResponse where
  layer := layerOf z r.metadata.image.sourceDate r.metadata.output.layer w.tree
  sboms := (distinct r.formats).map (sbomPath (described z r w))
  tags := w.tags
  os := osIn r.metadata.os w.tree
  index := r.index.map fun _ => IndexFile.path r.metadata.output.directory

/-- All of the tree goes into the archive. -/
def Archived : Prop := (Archive.ofTree r.metadata.image.sourceDate w.tree).2 = none

/-- Why a build stops behind the assembly, where it has written outputs and the host has taken them: with a failure, or
by never coming to an end. -/
inductive StopsAfter : NoResult → List Output → Host → Prop where
  /-- The host refuses the file of the layer. -/
  | layerRefused {f : Failure} {h : Host} (refused : (firstOutput z r w).perform h = .error f) :
    StopsAfter (.failure f) [] h
  /-- The file of the layer holds the tree up to an entry that does not go into an archive. -/
  | notArchived {h : Host} {fault : ArchiveFault}
      (notArchived : (Archive.ofTree r.metadata.image.sourceDate w.tree).2 = some fault) :
    StopsAfter (.failure (.archive r.metadata.output.layer fault)) [firstOutput z r w] h
  /-- The operating system is not known, and the file that says it can never be read to its end. -/
  | osNeverFound {h : Host} (archived : Archived r w) (unknown : r.metadata.os.id = "")
      (endless : w.tree.Endless OsRelease.location) : StopsAfter .endless [firstOutput z r w] h
  /-- The packages that the tree records cannot be read. -/
  | notRecorded {f : Failure} {h : Host} (archived : Archived r w) (os : OsFound r.metadata.os w.tree)
      (unreadable : documented r w.tree = .error (.failure f)) :
    StopsAfter (.failure f) [firstOutput z r w] h
  /-- No packages were given, and those that the tree records can never be read to their end. -/
  | neverRecorded {h : Host} (archived : Archived r w) (os : OsFound r.metadata.os w.tree)
      (notGiven : r.packages = none) (endless : w.tree.Endless InstalledDatabase.location) :
    StopsAfter .endless [firstOutput z r w] h
  /-- The host refuses one of the other files. -/
  | refused {f : Failure} {h : Host} {packages : List Package} {outputs : List Output} (archived : Archived r w)
      (os : OsFound r.metadata.os w.tree) (listed : documented r w.tree = .ok packages)
      (refused : RefusedAmong (laterOutputs z r w packages) f outputs h) :
    StopsAfter (.failure f) (firstOutput z r w :: outputs) h

end

theorem outcome_deliver (z : Compressor) (r : BuildRequest) (s : Site) :
    Outcome s
      (fun response outputs => Archived r s.workspace ∧ OsFound r.metadata.os s.workspace.tree ∧
        response = responseOf z r s.workspace ∧ ∃ packages, documented r s.workspace.tree = .ok packages ∧
          outputs = firstOutput z r s.workspace :: laterOutputs z r s.workspace packages)
      (StopsAfter z r s.workspace) (deliver z r s) := by
  unfold deliver
  refine (outcome_writeLayer z _ _).bind ?_ ?_
  · rintro _ outputs h ⟨f, rfl, ⟨rfl, hf⟩ | ⟨rfl, fault, hfault, rfl⟩⟩
    · exact .layerRefused hf
    · exact .notArchived hfault
  rintro layer s₁ outputs h₁ ⟨rfl, harchived, rfl⟩
  refine silent_get.bind fun _ s₂ h₂ hs => ?_
  subst hs
  refine (outcome_detectOs _).bind ?_ ?_
  · rintro _ outputs h ⟨rfl, rfl, hunknown, hendless⟩
    exact .osNeverFound harchived hunknown (h₁.tree ▸ h₂.tree ▸ hendless)
  rintro os s₃ outputs h₃ ⟨rfl, hos, rfl⟩
  have htree : s₃.workspace.tree = s.workspace.tree := h₃.tree.trans (h₂.tree.trans h₁.tree)
  rw [h₂.tree, h₁.tree] at hos
  refine (outcome_packagesOf r).bind ?_ ?_
  · rintro e outputs h ⟨rfl, he⟩
    rw [htree] at he
    cases e with
    | failure f => exact .notRecorded harchived hos he
    | endless => exact .neverRecorded harchived hos (documented_endless he).1 (documented_endless he).2
  rintro packages s₄ outputs h₄ ⟨rfl, hpackages⟩
  rw [htree] at hpackages
  rw [h₂.tree, h₁.tree, h₁.tags]
  refine (outcome_writeSboms (described z r s.workspace) packages r.formats).bind ?_ ?_
  · rintro _ outputs h ⟨f, rfl, hrefused⟩
    exact .refused harchived hos hpackages (hrefused.before _)
  rintro sboms s₅ outputs h₅ ⟨rfl, rfl⟩
  refine (outcome_writeIndexOf r).bind ?_ ?_
  · rintro _ outputs h ⟨f, rfl, hrefused⟩
    exact .refused harchived hos hpackages (hrefused.behind _)
  rintro index s₆ outputs h₆ ⟨rfl, rfl⟩
  exact outcome_pure ⟨harchived, hos, rfl, packages, hpackages, by simp [laterOutputs, firstOutput]⟩

/-! ## Whole builds -/

/-- What a build comes to that started from a site where the tree was assembled, and returned. -/
structure Delivered (z : Compressor) (r : BuildRequest) (start : Site) (response : BuildResponse) (s : Site) :
    Prop where
  /-- All of the tree is in the layer. -/
  archived : Archived r start.workspace
  /-- The archive of the tree is read back from the file of the layer. -/
  expands : z.expand? (firstOutput z r start.workspace).contents
    = some (Archive.ofTree r.metadata.image.sourceDate start.workspace.tree).1
  /-- The operating system was known, or there is an end to what says it. -/
  os : OsFound r.metadata.os start.workspace.tree
  /-- The layer, a document for each different format and the index were written, in this order. -/
  wrote : ∃ packages, documented r start.workspace.tree = .ok packages ∧
    start.Wrote s (firstOutput z r start.workspace :: laterOutputs z r start.workspace packages)
  /-- The response names what was written. -/
  response_eq : response = responseOf z r start.workspace
  /-- No two documents are in one file. -/
  files : response.sboms.Pairwise fun p q => p.same q = false

/-- Whatever compresses the layer, a build whose assembly fails or never comes to an end has written nothing. Behind the
assembly the tags are those that the first two steps left. Then a build that returns has written the layer that the tree
makes, a document for each different format in the order in which these come first, and the index; the documents are about
the digest of that layer, those tags, and the packages that were given or else those that the tree records. A build that
stops has written what comes in front of what stopped it. -/
theorem run_delivers (z : Compressor) (r : BuildRequest) (tree : Tree) (host : Host) :
    (∀ e w, Assembly.run r.metadata.image.name r.configuration (r.site tree host).workspace = .error e w →
        run z r (r.site tree host) = .error e ⟨w, host, []⟩) ∧
      (∀ w, Assembly.run r.metadata.image.name r.configuration (r.site tree host).workspace = .ok () w →
        w.silent = Assembly.composed r.configuration ⟨tree, r.metadata.image.tags, []⟩ Step.order ∧
          w.tags = (Assembly.composed r.configuration ⟨tree, r.metadata.image.tags, []⟩
            [.installPackages, .additionalTags]).tags ∧
          (∀ response s, run z r (r.site tree host) = .ok response s →
            Delivered z r ⟨w, host, []⟩ response s) ∧
          ∀ e s, run z r (r.site tree host) = .error e s →
            ∃ outputs, Site.Wrote ⟨w, host, []⟩ s outputs ∧ StopsAfter z r w e outputs s.host) ∧
      FirstOccurrences r.formats (distinct r.formats) := by
  refine ⟨fun e w hassembly => ?_, fun w hassembly => ?_, firstOccurrences_distinct r.formats⟩
  · simp only [run, bind, EStateM.bind, assembly, hassembly]
    rfl
  · obtain ⟨hleft, htags⟩ := Assembly.run_left hassembly
    have hrun : run z r (r.site tree host) = deliver z r ⟨w, host, []⟩ := by
      simp only [run, bind, EStateM.bind, assembly, hassembly]
      rfl
    have houtcome := outcome_deliver z r ⟨w, host, []⟩
    rw [← hrun] at houtcome
    refine ⟨hleft, htags, fun response s hok => ?_, fun e s herror => ?_⟩
    · rw [hok] at houtcome
      obtain ⟨outputs, hwrote, harchived, hos, hresponse, packages, hpackages, rfl⟩ := houtcome
      refine ⟨harchived, z.expand?_compress _, hos, ⟨packages, hpackages, hwrote⟩, hresponse, ?_⟩
      rw [hresponse]
      refine List.pairwise_map.2 ((firstOccurrences_distinct r.formats).ordered.imp fun h => ?_)
      exact same_sbomPath _ fun heq => absurd (congrArg r.formats.idxOf heq) (Nat.ne_of_lt h)
    · rw [herror] at houtcome
      exact houtcome

/-- An order that names a format twice and gives a digest that is not that of its layer. In a directory that exists
all four files are written, in one that does not only the layer, which goes elsewhere. Where the declared changes of
paths make the file that says the operating system one that can never be read to its end, the layer is written and
nothing follows. -/
theorem run_delivers_formats :
    let image : ImageInfo := { name := "image", tags := ["t"], layerDigest := "sha256:0", sourceDate := 0 }
    let order (directory : Path) (configuration : Configuration) : BuildRequest :=
      { metadata := ⟨image, {}, ⟨directory, some (.ofString "layer")⟩⟩, configuration := configuration,
        formats := [.cycloneDx, .spdx, .cycloneDx], index := some [1] }
    let round : Configuration := { paths := [
      { path := "a", kind := .symlink, source := some "x/y" },
      { path := "a", kind := .directory },
      { path := "a/os-release", kind := .emptyFile },
      { path := "etc", kind := .directory },
      { path := "etc/os-release", kind := .hardlink, source := some "a/os-release" },
      { path := "foo", kind := .directory },
      { path := "foo/y", kind := .symlink, source := some "/etc" },
      { path := "x", kind := .symlink, source := some "/foo" }] }
    let host := Host.fresh [0x61]
    let here := order (.ofString ".") {}
    let missing := order (.ofString "x") {}
    let never := order (.ofString ".") round
    let z := Gzip.stored
    (∃ response s w, run z here (here.site .empty host) = .ok response s ∧
        Delivered z here ⟨w, host, []⟩ response s ∧ s.written.map Prod.fst = [.ofString "layer",
          .ofString "./sbom-noarch.cdx", .ofString "./sbom-noarch.spdx.json", .ofString "./index.json"]) ∧
      (∃ f s w outputs, run z missing (missing.site .empty host) = .error (.failure f) s ∧
        Site.Wrote ⟨w, host, []⟩ s outputs ∧ StopsAfter z missing w (.failure f) outputs s.host ∧
        s.written.map Prod.fst = [.ofString "layer"]) ∧
      ∃ s w outputs, run z never (never.site .empty host) = .error .endless s ∧
        Site.Wrote ⟨w, host, []⟩ s outputs ∧ StopsAfter z never w .endless outputs s.host ∧
        s.written.map Prod.fst = [.ofString "layer"] := by
  intro image order round host here missing never z
  -- Where something was written the assembly has succeeded.
  have hassembled : ∀ r : BuildRequest,
      (∀ e w, run z r (r.site .empty host) ≠ .error e ⟨w, host, []⟩) →
      ∃ w, Assembly.run r.metadata.image.name r.configuration (r.site .empty host).workspace = .ok () w := by
    intro r hwritten
    cases hassembly : Assembly.run r.metadata.image.name r.configuration (r.site .empty host).workspace with
    | ok u w => exact ⟨w, rfl⟩
    | error e w => exact absurd ((run_delivers z r .empty host).1 e w hassembly) (hwritten e w)
  have hhere : (match run z here (here.site .empty host) with
      | .ok _ s => s.written.map Prod.fst
      | .error _ _ => []) = [.ofString "layer", .ofString "./sbom-noarch.cdx",
        .ofString "./sbom-noarch.spdx.json", .ofString "./index.json"] := by decide +kernel
  have hmissing : (match run z missing (missing.site .empty host) with
      | .error (.failure _) s => s.written.map Prod.fst
      | _ => []) = [.ofString "layer"] := by decide +kernel
  have hnever : (match run z never (never.site .empty host) with
      | .error .endless s => s.written.map Prod.fst
      | _ => []) = [.ofString "layer"] := by decide +kernel
  refine ⟨?_, ?_, ?_⟩
  · obtain ⟨w, hw⟩ := hassembled here fun e w heq => by
      rw [heq] at hhere
      cases hhere
    obtain ⟨-, -, hdelivered, -⟩ := (run_delivers z here .empty host).2.1 w hw
    cases hrun : run z here (here.site .empty host) with
    | ok response s =>
      rw [hrun] at hhere
      exact ⟨response, s, w, rfl, hdelivered response s hrun, hhere⟩
    | error e s =>
      rw [hrun] at hhere
      cases hhere
  · obtain ⟨w, hw⟩ := hassembled missing fun e w heq => by
      rw [heq] at hmissing
      cases e <;> cases hmissing
    obtain ⟨-, -, -, hstopped⟩ := (run_delivers z missing .empty host).2.1 w hw
    cases hrun : run z missing (missing.site .empty host) with
    | ok response s =>
      rw [hrun] at hmissing
      cases hmissing
    | error e s =>
      obtain ⟨outputs, hwrote, hstops⟩ := hstopped e s hrun
      rw [hrun] at hmissing
      cases e with
      | failure f => exact ⟨f, s, w, outputs, rfl, hwrote, hstops, hmissing⟩
      | endless => cases hmissing
  · obtain ⟨w, hw⟩ := hassembled never fun e w heq => by
      rw [heq] at hnever
      cases e <;> cases hnever
    obtain ⟨-, -, -, hstopped⟩ := (run_delivers z never .empty host).2.1 w hw
    cases hrun : run z never (never.site .empty host) with
    | ok response s =>
      rw [hrun] at hnever
      cases hnever
    | error e s =>
      obtain ⟨outputs, hwrote, hstops⟩ := hstopped e s hrun
      rw [hrun] at hnever
      cases e with
      | failure f => cases hnever
      | endless => exact ⟨s, w, outputs, rfl, hwrote, hstops, hnever⟩

end Build

end ImageLayer
