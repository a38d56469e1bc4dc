import ImageLayer.Pass.Applets
import ImageLayer.Pass.Devices
import ImageLayer.Pass.OsRelease
import ImageLayer.Pass.SharedObjects
import ImageLayer.Proofs.Tree.Frame
/-!
Passes that only add entries.

Identifying the operating system, linking applets, linking shared objects and making devices leave every entry
as it was. `finishing_grows`, the main statement, says this of all four without any condition: also where a pass
stops halfway, and whatever symbolic links there are. It says too which entries come in, and that the number a
pass reports is that of the links it made.

Sections:

* Where a path names nothing. A file that is written there is added (`writeFile_grows`).
* The file that identifies the operating system. It is the only one of these passes that writes to a file, and
  asks first whether the path names anything. Between asking and writing it makes a directory. This cannot be in
  the place of the file (`exists?_of_ensureDirectory`): new directories lead no path elsewhere
  (`GrowsBy.locate?`), and a name in a directory is not the place of the directory itself.
* Counted links. `CountsLinks` says of a computation that it adds entries of a kind and counts the symbolic
  links among them, on top of a number. It is kept by sequences, by choices and by folds, so that a pass has it
  if its smallest part does (`countsLinks_symlink`).
* Links of applets, which may need a directory on the way that does not count, and links of shared objects.
* Devices.
* The passes together.

The number that linking applets reports is not that of the entries it adds: it makes directories on the way, and
two applets may have one place, where the second is passed over because it finds the first. What is counted are
the symbolic links among the entries that were added.
-/

namespace ImageLayer

namespace Tree

/-! ## Where a path names nothing -/

/-- Making a directory puts nothing where a name in it leads. -/
theorem exists?_of_ensureDirectory {t t' : Tree} {mode : Nat} {parts : List Part} {n : Name} {p : Path}
    (hp : p.parts = parts ++ [.name n]) (hfree : t.exists? p = false)
    (h : t.ensureDirectory mode parts = .ok t') : t'.exists? p = false := by
  have hgrows := ensureDirectory_grows h
  have hsame := hgrows.locate? (by rintro l e ⟨-, rfl⟩; rfl) false p.parts
  obtain ⟨new, hnew, hmade⟩ := hgrows
  unfold exists? at hfree ⊢
  rw [hsame]
  cases hloc : t.locate? false p.parts with
  | none => rfl
  | some l =>
    simp only [hloc, Option.isSome_eq_false_iff, Option.isNone_iff_eq_none] at hfree ⊢
    cases hget : t'.get? l with
    | none => rfl
    | some e =>
      obtain ⟨hd, -⟩ := hmade _ ((hnew.only hget).resolve_left (by simp [hfree]))
      rw [hp, locate?_concat hd (Or.inl rfl)] at hloc
      have := congrArg List.length (Option.some.inj hloc)
      simp at this

/-- Where a path names nothing, writing a file to it adds the file. -/
theorem writeFile_grows {t t' : Tree} {p : Path} {contents : Bytes} {mode : Nat}
    (hfree : t.exists? p = false) (h : t.writeFile p contents mode = .ok t') :
    GrowsBy (fun _ e => e = .file contents mode) t t' := by
  obtain ⟨l, hloc, ⟨e, hget, -, -⟩ | ⟨-, k, hgrows⟩⟩ := writeFile_eq_ok h
  · rw [exists?_of_inode? (inode?_eq_some.2 ⟨l, e, hloc, hget, rfl⟩)] at hfree
    cases hfree
  · exact ⟨_, hgrows, fun x hx => by rw [List.mem_singleton.1 hx]⟩

end Tree

namespace Edit

open ImageLayer.Tree

/-- A path of one part is made by making one directory. -/
theorem makeDirectories_of_parts {p : Path} {part : Part} (h : p.parts = [part]) (mode : Nat) :
    makeDirectories p mode = change (·.ensureDirectory mode [part]) := by
  rw [makeDirectories, h]
  exact bind_pure_unit

/-! ## The file that identifies the operating system -/

/-- What writing the file comes to: making its directory, and writing it where the path to it names nothing. -/
def WritesOsRelease (r : OsRelease) (found : Tree) (op : Operation) : Prop :=
  op = .makeDirectories (.ofString "etc") 0o755 ∨
    found.exists? OsRelease.location = false ∧
      op = .writeFile OsRelease.location (Bytes.ofString r.render) 0o644

theorem writeOsRelease_reaches (r : OsRelease) (t : Tree) :
    Reaches (WritesOsRelease r) t ((writeOsRelease r).left t) := by
  by_cases hexists : t.exists? OsRelease.location
  · have hrefused : writeOsRelease r t = .error (.failure (.osReleasePresent OsRelease.location)) t := by
      simp [writeOsRelease, bind, EStateM.bind, ask, hexists]
    rw [left_of_error hrefused]
    exact refl_of _ t
  · rw [Bool.not_eq_true] at hexists
    have hetc : (Path.ofString "etc").parts = [.name (Bytes.ofString "etc")] := by decide +kernel
    have hlocation : OsRelease.location.parts
        = [.name (Bytes.ofString "etc")] ++ [.name (Bytes.ofString "os-release")] := by decide +kernel
    have hrun : (writeOsRelease r).left t = (do
        makeDirectories (.ofString "etc") 0o755
        change (·.writeFile OsRelease.location (Bytes.ofString r.render) 0o644) : Edit Unit).left t := by
      simp [left, writeOsRelease, bind, EStateM.bind, ask, hexists]
    have hfirst : Within (Reaches (WritesOsRelease r)) (makeDirectories (.ofString "etc") 0o755) :=
      Operation.within_run (.makeDirectories _ _) fun _ => Or.inl rfl
    rw [hrun, left_bind]
    cases hmade : makeDirectories (.ofString "etc") 0o755 t with
    | error e t₁ => exact hfirst.error hmade
    | ok u t₁ =>
      -- The path to the file still names nothing when the directory is there.
      have hensured := of_change_eq_ok ((makeDirectories_of_parts hetc 0o755).symm ▸ hmade)
      have hfree := exists?_of_ensureDirectory hlocation hexists hensured
      refine trans_of _ (hfirst.ok hmade) ?_
      let write : Operation := .writeFile OsRelease.location (Bytes.ofString r.render) 0o644
      have hafter : Reaches (WritesOsRelease r) t₁ (write.after t₁) :=
        reaches_after (Or.inr ⟨hfree, rfl⟩)
      rwa [Operation.after_eq_left] at hafter

theorem writeOsRelease_grows (r : OsRelease) (t : Tree) :
    GrowsBy (fun _ e => e = .directory 0o755 ∨ e = .file (Bytes.ofString r.render) 0o644) t
      ((writeOsRelease r).left t) := by
  refine (writeOsRelease_reaches r t).related fun found op hop => ?_
  rw [Operation.after_eq_left]
  obtain rfl | ⟨hfree, rfl⟩ := hop
  · exact (left_makeDirectories_grows ..).mono fun _ _ => Or.inl
  · rw [Operation.run, left_change]
    cases hwrite : found.writeFile OsRelease.location (Bytes.ofString r.render) 0o644 with
    | error e => exact .refl _ found
    | ok t' => exact (writeFile_grows hfree hwrite).mono fun _ _ => Or.inr

/-! ## Counted links -/

/-- A computation that adds entries such that `P` and says how many of them are symbolic links, on top of
`base`. -/
structure CountsLinks (P : Entry → Prop) (base : Nat) (x : Edit Nat) : Prop where
  /-- It adds such entries, and if it succeeds the number is right. -/
  grows : ∀ t, ∃ new, t.Grows (x.left t) new ∧ (∀ y ∈ new, P y.2) ∧
    ∀ n t', x t = .ok n t' → n = base + new.countP fun y => y.2.isSymlink

section

variable {α β : Type} {P : Entry → Prop} {base : Nat}

theorem countsLinks_pure (n : Nat) : CountsLinks P n (pure n) := by
  refine ⟨fun t => ⟨[], .refl t, by simp, fun m t' h => ?_⟩⟩
  obtain ⟨rfl, -⟩ := EStateM.Result.ok.inj h
  simp

/-- What goes before may add entries, but no symbolic link. -/
theorem CountsLinks.after {x : Edit α} {f : α → Edit Nat}
    (hx : Within (GrowsBy fun _ e => P e ∧ e.isSymlink = false) x)
    (hf : ∀ a, CountsLinks P base (f a)) : CountsLinks P base (x >>= f) := by
  refine ⟨fun t => ?_⟩
  rw [left_bind]
  simp only [bind, EStateM.bind]
  cases h : x t with
  | error e t₁ =>
    obtain ⟨a, ha, hPa⟩ := hx.error h
    exact ⟨a, ha, fun y hy => (hPa y hy).1, nofun⟩
  | ok v t₁ =>
    obtain ⟨a, ha, hPa⟩ := hx.ok h
    obtain ⟨b, hb, hPb, hcount⟩ := (hf v).grows t₁
    refine ⟨a ++ b, ha.append hb, fun y hy => ?_, fun n t' hn => ?_⟩
    · exact (List.mem_append.1 hy).elim (fun hy => (hPa y hy).1) (hPb y)
    · have hnone : (a.countP fun y => y.2.isSymlink) = 0 :=
        List.countP_eq_zero.2 fun y hy => by simp [(hPa y hy).2]
      rw [List.countP_append, hnone, Nat.zero_add]
      exact hcount n t' hn

theorem CountsLinks.bind {x : Edit Nat} {f : Nat → Edit Nat} (hx : CountsLinks P base x)
    (hf : ∀ n, CountsLinks P n (f n)) : CountsLinks P base (x >>= f) := by
  refine ⟨fun t => ?_⟩
  obtain ⟨a, ha, hPa, hcount⟩ := hx.grows t
  rw [left_bind]
  simp only [Bind.bind, EStateM.bind]
  cases h : x t with
  | error e t₁ =>
    rw [left_of_error h] at ha
    exact ⟨a, ha, hPa, nofun⟩
  | ok v t₁ =>
    rw [left_of_ok h] at ha
    obtain ⟨b, hb, hPb, hmore⟩ := (hf v).grows t₁
    refine ⟨a ++ b, ha.append hb, fun y hy => ?_, fun n t' hn => ?_⟩
    · exact (List.mem_append.1 hy).elim (hPa y) (hPb y)
    · rw [hmore n t' hn, hcount v t₁ h, List.countP_append, Nat.add_assoc]

theorem CountsLinks.ite {c : Prop} [Decidable c] {x y : Edit Nat} (hx : CountsLinks P base x)
    (hy : CountsLinks P base y) : CountsLinks P base (if c then x else y) := by
  split
  · exact hx
  · exact hy

/-- Counting on from a number. -/
theorem CountsLinks.add {x : Edit Nat} (hx : CountsLinks P 0 x) (made : Nat) :
    CountsLinks P made (do return made + (← x)) := by
  refine ⟨fun t => ?_⟩
  obtain ⟨new, hnew, hP, hcount⟩ := hx.grows t
  rw [left_bind]
  simp only [Bind.bind, EStateM.bind]
  cases h : x t with
  | error e t₁ =>
    rw [left_of_error h] at hnew
    exact ⟨new, hnew, hP, nofun⟩
  | ok v t₁ =>
    rw [left_of_ok h] at hnew
    refine ⟨new, hnew, hP, fun n t' hn => ?_⟩
    obtain ⟨rfl, -⟩ := EStateM.Result.ok.inj hn
    rw [hcount v t₁ h, Nat.zero_add]

theorem CountsLinks.foldlM {f : Nat → α → Edit Nat} (hf : ∀ made a, CountsLinks P made (f made a))
    (made : Nat) (l : List α) : CountsLinks P made (l.foldlM f made) := by
  induction l generalizing made with
  | nil => exact countsLinks_pure made
  | cons a l ih => exact (hf made a).bind ih

/-- One link, which counts if it is made. -/
theorem countsLinks_symlink {target link : Path} (hP : P (.symlink target)) (context : Context) :
    CountsLinks P 0 (do inContext context (change (·.symlink target link)); return 1) := by
  refine ⟨fun t => ?_⟩
  cases h : t.symlink target link with
  | error e =>
    have hrun : inContext context (change (·.symlink target link)) t = .error (.failure (.within context e)) t := by
      simp [inContext, change, h, NoResult.within]
    rw [left_bind]
    simp only [Bind.bind, EStateM.bind, hrun]
    exact ⟨[], .refl t, by simp, fun n t' hn => by cases hn⟩
  | ok t₁ =>
    have hrun : inContext context (change (·.symlink target link)) t = .ok () t₁ := by
      simp [inContext, change, h]
    obtain ⟨l, hl⟩ := symlink_grows h
    rw [left_bind]
    simp only [Bind.bind, EStateM.bind, hrun]
    refine ⟨_, hl, fun y hy => ?_, fun n t' hn => ?_⟩
    · rw [List.mem_singleton.1 hy]
      exact hP
    · obtain ⟨rfl, -⟩ := EStateM.Result.ok.inj hn
      rfl

end

/-! ## Links of applets -/

theorem linkApplet_countsLinks (applet : Path) :
    CountsLinks (fun e => e = .symlink Applet.binary ∨ e = .directory 0o755) 0 (linkApplet applet) := by
  refine .after within_get fun t => .ite (countsLinks_pure 0) ?_
  refine .after (within_ensureDirectories (fun h => ?_) [] _) fun _ =>
    countsLinks_symlink (Or.inl rfl) _
  refine (ensureDirectory_grows h).mono ?_
  rintro l e ⟨-, rfl⟩
  exact ⟨Or.inr rfl, rfl⟩

theorem listApplets_within {R : Tree → Tree → Prop} [IsPreorder Tree R] : Within R listApplets := by
  refine within_get.bind fun t => Within.ite ?_ (within_pure _)
  exact (within_inContext (within_consult _) _).bind fun contents => within_pure _

theorem linkApplets_countsLinks (installed : List InstalledPackage) :
    CountsLinks (fun e => e = .symlink Applet.binary ∨ e = .directory 0o755) 0
      (linkApplets installed) := by
  refine .after within_get fun t => .ite (.after listApplets_within fun applets => ?_) (countsLinks_pure 0)
  exact .foldlM (fun made applet => (linkApplet_countsLinks applet).add made) 0 applets

/-! ## Links of shared objects -/

theorem linkSoname_countsLinks (directory : Path) (soname name : String) :
    CountsLinks (fun e => e.isSymlink) 0 (linkSoname directory soname name) := by
  refine .after within_get fun t => .ite (countsLinks_pure 0) (countsLinks_symlink ?_ _)
  rfl

theorem sonameIn_within {R : Tree → Tree → Prop} [IsPreorder Tree R] (directory : Path) (name : Name) :
    Within R (sonameIn directory name) := by
  unfold sonameIn
  split
  · exact within_pure none
  · refine Within.ite (within_pure none) (Within.bind (within_ask _) fun e => ?_)
    refine Within.ite (within_pure none) (Within.bind ?_ fun contents => within_pure _)
    exact within_inContext (within_consult _) _

theorem linkSonamesIn_countsLinks (directory : Path) :
    CountsLinks (fun e => e.isSymlink) 0 (linkSonamesIn directory) := by
  refine .after within_get fun t => .ite (countsLinks_pure 0) ?_
  refine .after (within_ask _) fun names => ?_
  refine .after (Within.mapM (sonameIn_within directory) names) fun found => ?_
  exact .foldlM (fun made (soname, name) => (linkSoname_countsLinks directory soname name).add made) 0 _

theorem linkSonames_countsLinks : CountsLinks (fun e => e.isSymlink) 0 linkSonames :=
  .foldlM (fun made directory => (linkSonamesIn_countsLinks directory).add made) 0
    SharedObject.directories

/-! ## Devices -/

theorem makeDevices_grows (t : Tree) :
    GrowsBy (fun l e => t.locate? true Device.directory.parts = some l ∧ e = .directory 0o755 ∨
      ∃ major minor, e = .ofKind (.charDevice major minor) 0o666) t (makeDevices.left t) := by
  have hdev : Device.directory.parts = [.name (Bytes.ofString "dev")] := by decide +kernel
  have hdevices : Within (GrowsBy fun _ e => ∃ major minor, e = .ofKind (.charDevice major minor) 0o666)
      (Device.all.forM fun device => makeDeviceIfMissing device.1 device.2.1 device.2.2) := by
    refine Within.forM _ fun device _ => within_get.bind fun t => Within.ite (within_pure ()) ?_
    refine within_inContext (within_change fun t t' h => ?_) _
    obtain ⟨l, hl⟩ := makeDevice_grows h
    exact ⟨_, hl, fun x hx => ⟨device.2.1, device.2.2, by rw [List.mem_singleton.1 hx]⟩⟩
  rw [makeDevices, makeDirectories_of_parts hdev, left_change_bind]
  cases hmade : t.ensureDirectory 0o755 [.name (Bytes.ofString "dev")] with
  | error e => exact .refl _ t
  | ok t₁ =>
    rw [hdev]
    exact ((ensureDirectory_grows hmade).mono fun _ _ => Or.inl).trans
      ((related_left hdevices t₁).mono fun _ _ => Or.inr)

/-! ## The passes together -/

/-- Whatever links a tree has, the four passes leave every entry as it was, also where they fail. Linking
applets adds symbolic links to the binary and directories, and says how many links if it succeeds; linking
shared objects adds symbolic links alone, and says how many; making devices adds devices and at most the
directory that the path to it leads to. -/
theorem finishing_grows (t : Tree) (r : OsRelease) (installed : List InstalledPackage) :
    (∃ new, t.Grows ((writeOsRelease r).left t) new) ∧
      (∃ new, t.Grows ((linkApplets installed).left t) new ∧
        (∀ x ∈ new, x.2 = .symlink Applet.binary ∨ x.2 = .directory 0o755) ∧
        ∀ n t', linkApplets installed t = .ok n t' → n = new.countP fun x => x.2.isSymlink) ∧
      (∃ new, t.Grows (linkSonames.left t) new ∧ (∀ x ∈ new, x.2.isSymlink) ∧
        ∀ n t', linkSonames t = .ok n t' → n = new.length) ∧
      ∃ new, t.Grows (makeDevices.left t) new ∧ ∀ x ∈ new,
        t.locate? true Device.directory.parts = some x.1 ∧ x.2 = .directory 0o755 ∨
          ∃ major minor, x.2 = .ofKind (.charDevice major minor) 0o666 := by
  refine ⟨?_, ?_, ?_, makeDevices_grows t⟩
  · obtain ⟨new, hnew, -⟩ := writeOsRelease_grows r t
    exact ⟨new, hnew⟩
  · obtain ⟨new, hnew, hP, hcount⟩ := (linkApplets_countsLinks installed).grows t
    exact ⟨new, hnew, hP, fun n t' h => by rw [hcount n t' h, Nat.zero_add]⟩
  · obtain ⟨new, hnew, hP, hcount⟩ := linkSonames_countsLinks.grows t
    refine ⟨new, hnew, hP, fun n t' h => ?_⟩
    rw [hcount n t' h, Nat.zero_add]
    exact List.countP_eq_length.2 hP

/-- Two of the three applets in a list lead to one place, and the directory of the third is a link that leads
nowhere: two links are added, and a directory where the link leads. -/
theorem finishing_grows_listing :
    let t : Tree := (((Tree.empty.insert Applet.binary (.file [] 0o755)).insert (.ofString "etc")
      (.directory 0o755)).insert Applet.listing (.file (Bytes.ofString "/x\nx\nl/y\n") 0o644)).insert
      (.ofString "l") (.symlink (.ofString "gone"))
    ∃ t' new, linkApplets [{ package := { name := Applet.packageName } }] t = .ok 2 t' ∧
      t.Grows t' new ∧ (new.countP fun x => x.2.isSymlink) = 2 ∧
      ([.name (Bytes.ofString "gone")], .directory 0o755) ∈ new := by
  intro t
  let installed : List InstalledPackage := [{ package := { name := Applet.packageName } }]
  obtain ⟨-, ⟨new, hnew, -, hcount⟩, -⟩ := finishing_grows t {} installed
  have hmade : ((linkApplets installed).left t).get? [.name (Bytes.ofString "gone")]
      = some (.directory 0o755) := by decide +kernel
  have hok : (match linkApplets installed t with
      | .ok n _ => n == 2
      | .error _ _ => false) = true := by decide +kernel
  cases hrun : linkApplets installed t with
  | error e t' => simp [hrun] at hok
  | ok n t' =>
    obtain rfl : n = 2 := by simpa [hrun] using hok
    rw [left_of_ok hrun] at hnew hmade
    refine ⟨t', new, rfl, hnew, (hcount _ _ hrun).symm, ?_⟩
    exact (hnew.only hmade).resolve_left (by decide +kernel)

end Edit

end ImageLayer
