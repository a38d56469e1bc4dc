import ImageLayer.Proofs.Host.Loaded
/-!
Trees that are loaded from the host.

A loaded tree is as good a start as the empty one. `Host.loadTree_sound`, the main statement, says that it is
sound and that each hard link stands behind the first name of its file, for every host whose directories have
proper names that differ. Both are read off what the nodes of the directory are loaded as (`HostNode.LoadsAs`):
of several names of a file the first in the order of locations becomes the file, and the others hard links to
it.

`Initial` is what later statements start from: a tree before any operation, either the empty one or one that is
loaded. It is sound in either case (`Initial.sound`), and hard links stand behind their files
(`Initial.linksBackward`), which operations need not keep.

A hard link gets the permissions that its file has on the host, and neither gets an owner, so that the names of
a file agree.
-/

namespace ImageLayer

/-- Every hard link stands behind the location that it spells out. -/
def Tree.LinksBackward (t : Tree) : Prop :=
  ∀ l e p, t.get? l = some e → e.kind = .hardlink p → ∃ s, p.location? = some s ∧ compare s l = .lt

theorem Tree.linksBackward_empty : Tree.empty.LinksBackward := by
  intro l e p hl hkind
  by_cases hnil : l = []
  · subst hnil
    rw [get?_nil, Option.some.injEq] at hl
    subst hl
    cases hkind
  · rw [get?_of_ne_nil _ hnil] at hl
    cases hl

theorem HostNode.LoadsAs.mode {files : List HostFile} {root node : HostNode} {place : Place}
    {e : Entry} (h : root.LoadsAs files place node e) : e.mode < 4096 := by
  cases h with
  | symlink => exact (by decide : 0o777 < 4096)
  | _ => exact Nat.mod_lt _ (by decide)

/-- What is loaded from a directory is sound, and its hard links stand behind their files. -/
theorem Tree.ofChildren_sound {files : List HostFile} {children : List (Name × HostNode)}
    (h : HostNode.ProperChildren children) :
    (Tree.ofChildren files children).Sound ∧ (Tree.ofChildren files children).LinksBackward := by
  have hproper : (HostNode.directory 0 children).Proper := h
  obtain ⟨hroot, hentries⟩ := Tree.ofChildren_spec 0 h
  -- Behind every hard link is the first name of its file, which is loaded as a file.
  have hlink : ∀ {l e p}, (l, e) ∈ (ofChildren files children).walk → e.kind = .hardlink p →
      ∃ s f, Location.Proper s ∧ p = s.path ∧ (s, f) ∈ (ofChildren files children).walk ∧ f.isFile ∧
        f.mode = e.mode ∧ f.owner = e.owner ∧ compare s l = .lt := by
    intro l e p hmem hkind
    obtain ⟨place, node, -, rfl, hnode, hloads⟩ := (hentries l e).1 hmem
    cases hloads with
    | @hardlink i first isFirst other =>
      obtain rfl := EntryKind.hardlink.inj hkind
      have hnil : first ≠ [] := by
        rintro rfl
        cases isFirst.here
      refine ⟨first.location, _, hproper.location isFirst.here, rfl,
        (hentries _ _).2 ⟨first, _, hnil, rfl, isFirst.here, .file isFirst⟩, rfl, rfl, rfl, ?_⟩
      exact (isFirst.least place hnode).resolve_left fun heq => other heq.symm
    | _ => cases hkind
  refine ⟨sound_iff.2 ⟨?_, ⟨fun hmem => ?_, fun hmem => ?_, fun hmem hkind => ?_⟩,
    ⟨fun hmem hkind => ?_⟩⟩, fun l e p hget hkind => ?_⟩
  · exact ⟨by rw [hroot]; rfl, by rw [hroot]; decide⟩
  · obtain ⟨place, node, hnil, rfl, hnode, -⟩ := (hentries _ _).1 hmem
    exact ⟨by simpa [Place.location] using hnil, hproper.location hnode⟩
  · obtain ⟨place, node, -, -, -, hloads⟩ := (hentries _ _).1 hmem
    exact Nat.le_of_lt_succ hloads.mode
  · obtain ⟨s, f, hs, rfl, hf, hfile, hmode, howner, -⟩ := hlink hmem hkind
    exact ⟨s, f, Location.location?_path hs, hf, hfile, hmode, howner⟩
  · obtain ⟨s, -, hs, hp, -⟩ := hlink hmem hkind
    exact ⟨s, hs, hp⟩
  · by_cases hnil : l = []
    · subst hnil
      rw [get?_nil, hroot, Option.some.injEq] at hget
      subst hget
      cases hkind
    · rw [get?_of_ne_nil _ hnil] at hget
      obtain ⟨s, f, hs, rfl, -, -, -, -, hlt⟩ := hlink (mem_walk.2 hget) hkind
      exact ⟨s, Location.location?_path hs, hlt⟩

/-- A loaded tree is sound, and its hard links stand behind their files. -/
theorem Host.loadTree_sound {h : Host} {p : Path} {t : Tree} (hroot : h.root.Proper)
    (hload : h.loadTree p = .ok t) : t.Sound ∧ t.LinksBackward := by
  unfold Host.loadTree at hload
  cases hnode : h.node .entry p with
  | error fault => simp [hnode] at hload
  | ok node =>
    cases node with
    | directory mode children =>
      simp only [hnode, Except.ok.injEq] at hload
      subst hload
      have hchildren : HostNode.ProperChildren children := Host.node_proper hroot hnode
      exact Tree.ofChildren_sound hchildren
    | _ => simp [hnode] at hload

namespace Tree

/-- A tree before any operation: the empty one, or one that is loaded from the host. -/
def Initial (t : Tree) : Prop :=
  t = empty ∨ ∃ (h : Host) (p : Path), h.root.Proper ∧ h.loadTree p = .ok t

theorem initial_empty : empty.Initial := Or.inl rfl

theorem Initial.sound {t : Tree} (h : t.Initial) : t.Sound := by
  rcases h with rfl | ⟨host, p, hroot, hload⟩
  · exact sound_empty
  · exact (host.loadTree_sound hroot hload).1

theorem Initial.linksBackward {t : Tree} (h : t.Initial) : t.LinksBackward := by
  rcases h with rfl | ⟨host, p, hroot, hload⟩
  · exact linksBackward_empty
  · exact (host.loadTree_sound hroot hload).2

end Tree

end ImageLayer
