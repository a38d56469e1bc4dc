import ImageLayer.Proofs.Tree.Effects
import ImageLayer.Proofs.Tree.Names
/-!
Reading files back after one was written.

A file is written at a path, and paths are what files are read by: there may be others that lead to the same
file, by symbolic links or as further names of it. `writeFile_reads`, the main statement, says what every path
reads after a write. Those that read the file before read the new contents, all others what they read before,
one entry is touched, and a write that is refused changes nothing. It says as well when a write succeeds.

Sections:

* Reading. In a closed tree a path reads what the file holds whose name it leads to, through symbolic links and
  at most one hard link (`contentsAt_eq_ok_iff`).
* One file in its place. `TakesFile` says that there is a file at a location, or nothing in a directory. Putting
  a file there takes no symbolic link away and makes none, so that no path leads elsewhere
  (`TakesFile.locate?`), and it leaves the names of all files what they are (`TakesFile.inode?`).
* Writing. It stores one entry, where the path leads when followed to its end (`writeFile_eq_ok_iff`).

Three conditions are on the tree: it is closed, locations are made of proper names, and there is a file behind
every hard link. With them the source of a hard link leads to its file and no link is on the way. Without them
the source of a hard link is a path like any other: it may go through further links, may lead elsewhere after a
write, and need not come to an end. That a file reads what was just written to it holds in every tree
(`contentsAt_of_writeFile`).
-/

namespace ImageLayer.Tree

/-- What writing a file makes of a tree. -/
structure Written (t : Tree) (p : Path) (contents : Bytes) (mode : Nat) (t' : Tree) : Prop where
  /-- The path reads what was written. -/
  reads : t'.contentsAt p = .ok contents
  /-- So does every path to a name of the same file. Any other reads what it read. -/
  others : ∀ q old, t.contentsAt q = .ok old →
    t'.contentsAt q = .ok (if t.inode? true q = t.inode? true p then contents else old)
  /-- There is one entry that is another or new. If it was there, it keeps its permissions and its owner. -/
  entry : ∃ l e, t.locate? true p.parts = some l ∧ t'.get? l = some e ∧
    (∀ k, k ≠ l → t'.get? k = t.get? k) ∧
    ((∃ old, t.get? l = some old ∧ old.isFile ∧ e = { old with kind := .file contents }) ∨
      t.get? l = none ∧ e = .file contents mode)

/-! ## Reading -/

section

variable {t : Tree}

theorem readThrough_of_file {p : Path} {l : Location} {f : Entry} {contents : Bytes}
    (hloc : t.locate? true p.parts = some l) (hget : t.get? l = some f)
    (hkind : f.kind = .file contents) (links : Nat) : t.readThrough links p = .ok contents :=
  readThrough_of_contents (readingAt_eq_ok_iff.2 ⟨l, f, hloc, hget, hkind⟩) links

/-- In a closed tree a path that spells out the location of a file leads to it. -/
theorem ParentClosed.locate?_file (h : t.ParentClosed) (hproper : ∀ x ∈ t.walk, x.1.Proper)
    {s : Location} {f : Entry} (hget : t.get? s = some f) (hfile : f.isFile) :
    t.locate? true s = some s := by
  by_cases hs : s = []
  · rw [hs]
    rfl
  · rw [get?_of_ne_nil t hs] at hget
    have hmem := mem_walk.2 hget
    exact h.locate? (hproper _ hmem) hmem (Entry.isSymlink_of_isFile hfile)

/-- A path reads the contents of the file that it leads to under one of its names. -/
theorem contentsAt_eq_ok_iff (hclosed : t.ParentClosed) (hproper : ∀ x ∈ t.walk, x.1.Proper)
    (hsources : t.SourcesAreFiles) {p : Path} {contents : Bytes} :
    t.contentsAt p = .ok contents ↔
      ∃ s f, t.inode? true p = some s ∧ t.get? s = some f ∧ f.kind = .file contents := by
  cases hloc : t.locate? true p.parts with
  | none =>
    have hshown : t.readingAt p = .error (.tree p .tooManyLinks) := by
      simp [readingAt, resolve, hloc, bind, Except.bind]
    rw [contentsAt, readThrough_of_error hshown]
    simp [inode?, hloc]
  | some l =>
    cases hget : t.get? l with
    | none =>
      have hshown : t.readingAt p = .error (.tree p .notFound) := by
        simp [readingAt, resolve, hloc, hget, bind, Except.bind]
      rw [contentsAt, readThrough_of_error hshown]
      simp [inode?, hloc, hget]
    | some e =>
      have hinode : t.inode? true p = some (e.inode l) := inode?_eq_some.2 ⟨l, e, hloc, hget, rfl⟩
      rw [hinode]
      cases hkind : e.kind with
      | file old =>
        rw [contentsAt, readThrough_of_file hloc hget hkind, Entry.inode, hkind]
        simp [hget, hkind]
      | hardlink source =>
        obtain ⟨s, f, hs, hf, hfile⟩ := hsources l e source hget hkind
        obtain ⟨old, hold⟩ := Entry.isFile_iff.1 hfile
        have hsource : t.locate? true source.parts = some s := by
          rw [Path.parts_of_location? hs]
          exact hclosed.locate?_file hproper hf hfile
        have hread : t.contentsAt p = .ok old := by
          rw [contentsAt, readThrough_of_further (readingAt_eq_ok_iff.2 ⟨l, e, hloc, hget, hkind⟩),
            readThrough_of_file hsource hf hold]
        rw [hread, Entry.inode, hkind]
        simp [hs, hf, hold]
      | _ =>
        have hshown : t.readingAt p = .error (.tree p .notRegular) := by
          simp [readingAt, resolve, hloc, hget, hkind, bind, Except.bind]
        rw [contentsAt, readThrough_of_error hshown, Entry.inode, hkind]
        simp [hget, hkind]

end

/-! ## One file in its place -/

/-- The place `l` can take a file: there is one, or nothing in a directory. -/
def TakesFile (t : Tree) (l : Location) : Prop :=
  (∃ e, t.get? l = some e ∧ e.isFile) ∨ t.get? l = none ∧ t.isDirectoryAt l.dropLast

section

variable {t : Tree} {l : Location} {e : Entry}

theorem TakesFile.isFile (h : t.TakesFile l) {old : Entry} (hget : t.get? l = some old) : old.isFile := by
  rcases h with ⟨e, he, hfile⟩ | ⟨hnone, -⟩
  · rw [hget, Option.some.injEq] at he
    exact he ▸ hfile
  · rw [hget] at hnone
    cases hnone

theorem TakesFile.parentClosed (h : t.TakesFile l) (e : Entry) (hclosed : t.ParentClosed) :
    (t.set l e).ParentClosed := by
  refine hclosed.set (fun old hold => not_isDirectory_of_isFile (h.isFile hold)) ?_ e
  rcases h with ⟨old, hold, -⟩ | ⟨-, hdir⟩
  · exact hclosed.isDirectoryAt_dropLast hold
  · exact hdir

/-- No symbolic link is taken away and none is made. -/
theorem TakesFile.linkAt (h : t.TakesFile l) (hfile : e.isFile) {k : Location} (hk : k ≠ []) :
    (t.set l e).linkAt k = t.linkAt k := by
  by_cases hkl : k = l
  · subst hkl
    have hold : t.linkAt k = none :=
      (linkAt_eq_none_iff hk).2 fun old hold => Entry.isSymlink_of_isFile (h.isFile hold)
    rw [hold]
    refine (linkAt_eq_none_iff hk).2 fun e' he' => ?_
    rw [get?_set, if_pos rfl, Option.some.injEq] at he'
    exact he' ▸ Entry.isSymlink_of_isFile hfile
  · have hget := get?_set t l e k
    rw [if_neg hkl, get?_of_ne_nil _ hk, get?_of_ne_nil _ hk] at hget
    rw [Tree.linkAt, Tree.linkAt, hget]

theorem TakesFile.locate? (h : t.TakesFile l) (hfile : e.isFile) (parts : List Part) :
    (t.set l e).locate? true parts = t.locate? true parts :=
  locate?_congr (fun _ hk => h.linkAt hfile hk) true parts

/-- A name of a file stays a name of it, also where the file itself gets other contents. -/
theorem TakesFile.inode? (h : t.TakesFile l) (hfile : e.isFile) {p : Path} {s : Location}
    (hs : t.inode? true p = some s) : (t.set l e).inode? true p = some s := by
  obtain ⟨k, e', hk, hget, rfl⟩ := inode?_eq_some.1 hs
  by_cases hkl : k = l
  · subst hkl
    refine inode?_eq_some.2 ⟨k, e, by rw [h.locate? hfile, hk], by rw [get?_set, if_pos rfl], ?_⟩
    rw [Entry.inode_of_isFile hfile, Entry.inode_of_isFile (h.isFile hget)]
  · exact inode?_eq_some.2 ⟨k, e', by rw [h.locate? hfile, hk], by rw [get?_set, if_neg hkl, hget], rfl⟩

/-- What leads to a place that can take a file is about the file there, if there is one. -/
theorem TakesFile.inode?_eq_some_iff (h : t.TakesFile l) {p : Path} (hloc : t.locate? true p.parts = some l)
    {s : Location} : t.inode? true p = some s ↔ (t.get? l).isSome ∧ s = l := by
  rw [inode?_eq_some]
  constructor
  · rintro ⟨k, e', hk, hget, rfl⟩
    obtain rfl := Option.some.inj (hloc.symm.trans hk)
    exact ⟨Option.isSome_of_eq_some hget, Entry.inode_of_isFile (h.isFile hget)⟩
  · rintro ⟨hsome, rfl⟩
    obtain ⟨e', hget⟩ := Option.isSome_iff_exists.1 hsome
    exact ⟨s, e', hloc, hget, Entry.inode_of_isFile (h.isFile hget)⟩

theorem SourcesAreFiles.set (hsources : t.SourcesAreFiles) (hfile : e.isFile) :
    (t.set l e).SourcesAreFiles := by
  intro k e' p hget hkind
  rw [get?_set] at hget
  split at hget
  · obtain rfl := Option.some.inj hget
    simp [Entry.isFile, hkind] at hfile
  · obtain ⟨s, f, hp, hs, hf⟩ := hsources k e' p hget hkind
    by_cases hsl : s = l
    · exact ⟨s, e, hp, by rw [get?_set, if_pos hsl], hfile⟩
    · exact ⟨s, f, hp, by rw [get?_set, if_neg hsl, hs], hf⟩

end

/-! ## Writing -/

/-- Where nothing above a location is a link, a new entry gets that location. -/
theorem resolveNew_of_linkFree {t : Tree} {l : Location} (hproper : l.Proper) (hfree : t.LinkFree l)
    (hl : l ≠ []) (shown : Path) :
    t.resolveNew shown l
      = if t.isDirectoryAt l.dropLast then .ok l else .error (.tree shown .parentMissing) := by
  rcases List.eq_nil_or_concat l with rfl | ⟨d, p, hconcat⟩
  · exact absurd rfl hl
  · rw [List.concat_eq_append] at hconcat
    subst hconcat
    cases p with
    | up => exact absurd (hproper _ (List.mem_append_right d (List.mem_singleton.2 rfl))) id
    | name n =>
      have hd : t.locate? true d = some d := by
        have habove := locate?_of_linkFree true hproper.dropLast hfree.dropLast
        rwa [List.dropLast_concat] at habove
      simp [resolveNew, hd]

/-- A file is written exactly where the path leads, if that can take a file. -/
theorem writeFile_eq_ok_iff {t t' : Tree} {p : Path} {contents : Bytes} {mode : Nat} :
    t.writeFile p contents mode = .ok t' ↔
      ∃ l e, t.locate? true p.parts = some l ∧ t' = t.set l e ∧
        ((∃ old, t.get? l = some old ∧ old.isFile ∧ e = { old with kind := .file contents }) ∨
          t.get? l = none ∧ t.isDirectoryAt l.dropLast ∧ e = .file contents mode) := by
  unfold writeFile resolve
  cases hloc : t.locate? true p.parts with
  | none => simp [bind, Except.bind]
  | some l =>
    cases hget : t.get? l with
    | some old =>
      cases hkind : old.kind with
      | file contents' => simp [bind, Except.bind, hget, hkind, Entry.isFile, @eq_comm _ t']
      | _ => simp [bind, Except.bind, hget, hkind, Entry.isFile]
    | none =>
      have hl := ne_nil_of_get?_eq_none hget
      have hproper : l.Proper := locate?_proper (fun _ => Path.spelled_of_mem_parts) hloc
      have hfree : t.entries.contains l = false := by
        rw [get?_of_ne_nil t hl] at hget
        simp [SortedMap.contains, hget]
      have hnew := resolveNew_of_linkFree hproper (locate?_linkFree hloc) hl l.path
      by_cases hdir : t.isDirectoryAt l.dropLast
      · simp [bind, Except.bind, hget, insertNew, hnew, hdir, hfree, @eq_comm _ t']
      · simp [bind, Except.bind, hget, insertNew, hnew, hdir]

/-- A file that was written is read by the path that it was written at. -/
theorem contentsAt_of_writeFile {t t' : Tree} {p : Path} {contents : Bytes} {mode : Nat}
    (h : t.writeFile p contents mode = .ok t') : t'.contentsAt p = .ok contents := by
  obtain ⟨l, e, hloc, rfl, hplace⟩ := writeFile_eq_ok_iff.1 h
  have htakes : t.TakesFile l :=
    hplace.imp (fun ⟨old, hold, hfile, _⟩ => ⟨old, hold, hfile⟩) fun ⟨hnone, hdir, _⟩ => ⟨hnone, hdir⟩
  have hkind : e.kind = .file contents := by
    rcases hplace with ⟨old, -, -, rfl⟩ | ⟨-, -, rfl⟩ <;> rfl
  have hfile : e.isFile := Entry.isFile_iff.2 ⟨contents, hkind⟩
  exact readThrough_of_file (by rw [htakes.locate? hfile, hloc]) (by rw [get?_set, if_pos rfl]) hkind _

theorem run_writeFile_eq_ok {t t' : Tree} {p : Path} {contents : Bytes} {mode : Nat} :
    (Operation.writeFile p contents mode).run t = .ok () t' ↔ t.writeFile p contents mode = .ok t' := by
  constructor
  · exact fun h => Edit.of_change_eq_ok (f := fun t => t.writeFile p contents mode) h
  · intro h
    simp only [Operation.run, Edit.change, h]

/-- What paths read after a file was put where `p` leads. -/
theorem contentsAt_set {t : Tree} (hclosed : t.ParentClosed) (hproper : ∀ x ∈ t.walk, x.1.Proper)
    (hsources : t.SourcesAreFiles) {p : Path} {l : Location} {e : Entry} {contents : Bytes}
    (hloc : t.locate? true p.parts = some l) (htakes : t.TakesFile l) (hkind : e.kind = .file contents) :
    (t.set l e).contentsAt p = .ok contents ∧
      ∀ q old, t.contentsAt q = .ok old → (t.set l e).contentsAt q
        = .ok (if t.inode? true q = t.inode? true p then contents else old) := by
  have hfile : e.isFile := Entry.isFile_iff.2 ⟨contents, hkind⟩
  have hproper' : ∀ x ∈ (t.set l e).walk, x.1.Proper := by
    rintro ⟨k, e'⟩ hmem
    rcases mem_walk_of_set hmem with rfl | hmem
    · exact locate?_proper (fun _ => Path.spelled_of_mem_parts) hloc
    · exact hproper _ hmem
  refine ⟨readThrough_of_file (by rw [htakes.locate? hfile, hloc]) (by rw [get?_set, if_pos rfl]) hkind _, ?_⟩
  intro q old hread
  obtain ⟨s, f, hs, hf, hold⟩ := (contentsAt_eq_ok_iff hclosed hproper hsources).1 hread
  rw [contentsAt_eq_ok_iff (htakes.parentClosed e hclosed) hproper' (hsources.set hfile)]
  have hsame : t.inode? true q = t.inode? true p ↔ s = l := by
    rw [hs, eq_comm, htakes.inode?_eq_some_iff hloc]
    exact ⟨fun h => h.2, fun h => ⟨h ▸ Option.isSome_of_eq_some hf, h⟩⟩
  by_cases hsl : s = l
  · rw [if_pos (hsame.2 hsl)]
    exact ⟨s, e, htakes.inode? hfile hs, by rw [get?_set, if_pos hsl], hkind⟩
  · rw [if_neg (mt hsame.1 hsl)]
    exact ⟨s, f, htakes.inode? hfile hs, by rw [get?_set, if_neg hsl, hf], hold⟩

/-- In a closed tree with proper names, and with files behind its hard links, writing a file changes what its
names read, and nothing else; a write that is refused changes nothing. It succeeds exactly if the path leads to
a file or to a vacant place in a directory. -/
theorem writeFile_reads {t : Tree} (hclosed : t.ParentClosed) (hproper : ∀ x ∈ t.walk, x.1.Proper)
    (hsources : t.SourcesAreFiles) (p : Path) (contents : Bytes) (mode : Nat) :
    (∀ t', (Operation.writeFile p contents mode).run t = .ok () t' → t.Written p contents mode t') ∧
      (∀ e t', (Operation.writeFile p contents mode).run t = .error e t' → t' = t) ∧
      ((∃ t', (Operation.writeFile p contents mode).run t = .ok () t') ↔
        ∃ l, t.locate? true p.parts = some l ∧ t.TakesFile l) := by
  refine ⟨fun t' hrun => ?_, fun e t' hrun => ?_, ?_⟩
  · obtain ⟨l, e, hloc, rfl, hplace⟩ := writeFile_eq_ok_iff.1 (run_writeFile_eq_ok.1 hrun)
    have htakes : t.TakesFile l :=
      hplace.imp (fun ⟨old, hold, hfile, _⟩ => ⟨old, hold, hfile⟩) fun ⟨hnone, hdir, _⟩ => ⟨hnone, hdir⟩
    have hkind : e.kind = .file contents := by
      rcases hplace with ⟨old, -, -, rfl⟩ | ⟨-, -, rfl⟩ <;> rfl
    obtain ⟨hreads, hothers⟩ := contentsAt_set hclosed hproper hsources hloc htakes hkind
    refine ⟨hreads, hothers, l, e, hloc, by rw [get?_set, if_pos rfl], fun k hk => ?_, ?_⟩
    · rw [get?_set, if_neg hk]
    · exact hplace.imp_right fun ⟨hnone, _, he⟩ => ⟨hnone, he⟩
  · obtain ⟨fault, -, -, rfl⟩ := Edit.of_change_eq_error (f := (·.writeFile p contents mode)) hrun
    rfl
  · constructor
    · rintro ⟨t', hrun⟩
      obtain ⟨l, e, hloc, -, hplace⟩ := writeFile_eq_ok_iff.1 (run_writeFile_eq_ok.1 hrun)
      exact ⟨l, hloc, hplace.imp (fun ⟨old, hold, hfile, _⟩ => ⟨old, hold, hfile⟩)
        fun ⟨hnone, hdir, _⟩ => ⟨hnone, hdir⟩⟩
    · rintro ⟨l, hloc, htakes⟩
      obtain ⟨t', ht'⟩ : ∃ t', t.writeFile p contents mode = .ok t' := by
        rcases htakes with ⟨old, hold, hfile⟩ | ⟨hnone, hdir⟩
        · exact ⟨_, writeFile_eq_ok_iff.2 ⟨l, _, hloc, rfl, Or.inl ⟨old, hold, hfile, rfl⟩⟩⟩
        · exact ⟨_, writeFile_eq_ok_iff.2 ⟨l, _, hloc, rfl, Or.inr ⟨hnone, hdir, rfl⟩⟩⟩
      exact ⟨t', run_writeFile_eq_ok.2 ht'⟩

/-- New contents written through a symbolic link to a file that has a further name, and a file written through
a link that leads to nothing. -/
theorem writeFile_reads_through_links :
    let file : Path := .ofString "d/a"
    let further : Path := .ofString "b"
    let link : Path := .ofString "s"
    let dangling : Path := .ofString "n"
    let t := empty.run [.makeDirectories (.ofString "d") 0o755, .writeFile file [1] 0o600,
      .hardlink file further, .symlink (.ofString "d/../d/a") link, .symlink (.ofString "/d/x") dangling]
    (t.ParentClosed ∧ (∀ x ∈ t.walk, x.1.Proper) ∧ t.SourcesAreFiles) ∧
      (∃ t', (Operation.writeFile link [2, 3] 0o777).run t = .ok () t' ∧ t.Written link [2, 3] 0o777 t' ∧
        t'.contentsAt further = .ok [2, 3]) ∧
      ∃ t', (Operation.writeFile dangling [4] 0o777).run t = .ok () t' ∧ t.Written dangling [4] 0o777 t' := by
  intro file further link dangling t
  have hclosed : ∀ x ∈ t.walk, t.isDirectoryAt x.1.dropLast := by decide +kernel
  have hproper : ∀ x ∈ t.walk, x.1.Proper := by decide +kernel
  have hsources : t.SourcesAreFiles := fun _ _ _ hget hkind => (sound_empty.run _).linksToFiles.source hget hkind
  have hwrite := writeFile_reads (fun l e hmem => hclosed (l, e) hmem) hproper hsources
  refine ⟨⟨fun l e hmem => hclosed (l, e) hmem, hproper, hsources⟩, ?_, ?_⟩
  · obtain ⟨hwritten, -, hsucceeds⟩ := hwrite link [2, 3] 0o777
    have htakes : t.TakesFile file.parts := Or.inl ⟨.file [1] 0o600, by decide +kernel, rfl⟩
    obtain ⟨t', hrun⟩ := hsucceeds.2 ⟨file.parts, by decide +kernel, htakes⟩
    refine ⟨t', hrun, hwritten t' hrun, ?_⟩
    have hsame : t.inode? true further = t.inode? true link := by decide +kernel
    have hread := (hwritten t' hrun).others further [1] (by decide +kernel)
    rwa [if_pos hsame] at hread
  · obtain ⟨hwritten, -, hsucceeds⟩ := hwrite dangling [4] 0o777
    have htakes : t.TakesFile (Path.ofString "d/x").parts := Or.inr ⟨by decide +kernel, by decide +kernel⟩
    obtain ⟨t', hrun⟩ := hsucceeds.2 ⟨_, by decide +kernel, htakes⟩
    exact ⟨t', hrun, hwritten t' hrun⟩

end ImageLayer.Tree
