import ImageLayer.Proofs.Host.Listing
import ImageLayer.Proofs.Tree.Parents
/-!
What is loaded from the host.

`Host.loadTree_eq`, the main statement, says what tree comes of a directory of the host. It has an entry for
each node below the directory and no others: what the node becomes is the relation `HostNode.LoadsAs`. In
particular, of the names of a regular file the least is the file, and all others are hard links to it. Every
entry stands in a directory, and the order in which the host enumerates directories makes no difference.

Sections:

* One node at a time. Loading is recursive over nodes, with the tree so far and the files met so far as its
  state. It comes to the same as taking the nodes of the listing from the front, each without what is below it
  (`Loading.addChildren_eq_foldl`). `Loading.Taken` is the invariant of that: the tree holds what each node
  taken is loaded as, and a file has been met if it has a name among them, the first. `Loading.Taken.addAlone`
  is the step and `Loading.Taken.foldl` the run.
* Whole directories. The first name that is met is the least, since the list is in the order of locations
  (`HostNode.firstName_loadOrder`). So what a node is loaded as, which is said through the list, is what it
  becomes, which is said through the places in the directory (`HostNode.loaded_loadOrder`).

That a host gives proper and different names is a hypothesis here (`HostNode.Proper`): without it there would be
locations with two nodes. A path that leads to anything but a directory is refused, and so is one that leads
nowhere.
-/

namespace ImageLayer

namespace HostNode

/-- Whether the node is the regular file with a number. -/
def isFileOf (inode : Nat) : HostNode → Bool
  | .file i => i = inode
  | _ => false

/-- The entry that a node is loaded as. A regular file is a hard link if it has another name, which
stands in front. -/
def loaded (files : List HostFile) (other : Nat → Option Location) : HostNode → Option Entry
  | .directory mode _ => some (.ofKind .directory mode)
  | .file inode =>
    let f := files.getD inode default
    match other inode with
    | some first => some (.ofKind (.hardlink first.path) f.mode)
    | none => some (.ofKind (.file f.contents) f.mode)
  | .symlink target => some (.ofKind (.symlink target) 0o777)
  | .charDevice mode number =>
    let (major, minor) := splitDevice (UInt64.ofNat number)
    some (.ofKind (.charDevice major minor) mode)
  | .other => none

theorem loaded_sorted (files : List HostFile) (other : Nat → Option Location) (node : HostNode) :
    node.sorted.loaded files other = node.loaded files other := by
  cases node <;> rfl

end HostNode

/-! ## One node at a time -/

namespace Loading

/-- The first location of a list at which the file with a number stands. -/
def firstName (nodes : List (Location × HostNode)) (inode : Nat) : Option Location :=
  (nodes.find? fun x => x.2.isFileOf inode).map Prod.fst

/-- The first name of a file, if it is another one than `l`. -/
def otherName (nodes : List (Location × HostNode)) (l : Location) (inode : Nat) : Option Location :=
  (firstName nodes inode).filter (· ≠ l)

/-- Adds one node, without what is below it. -/
def addAlone (files : List HostFile) (s : Loading) (x : Location × HostNode) : Loading :=
  match x.2 with
  | .directory mode _ => s.add x.1 .directory mode
  | .file inode => s.addFile x.1 inode (files.getD inode default)
  | .symlink target => s.add x.1 (.symlink target) 0o777
  | .charDevice mode number =>
    let (major, minor) := splitDevice (UInt64.ofNat number)
    s.add x.1 (.charDevice major minor) mode
  | .other => s

mutual

theorem addNode_eq_foldl (files : List HostFile) : ∀ (node : HostNode) (l : Location) (s : Loading),
    addNode files l node s = (node.listing l).foldl (addAlone files) s
  | .directory mode children, l, s => by
    rw [addNode, addChildren_eq_foldl files children, HostNode.listing, List.foldl_cons]
    rfl
  | .file _, _, _ => rfl
  | .symlink _, _, _ => rfl
  | .charDevice _ _, _, _ => rfl
  | .other, _, _ => rfl

/-- Loading takes the nodes in the order of the listing. -/
theorem addChildren_eq_foldl (files : List HostFile) :
    ∀ (children : List (Name × HostNode)) (l : Location) (s : Loading),
    addChildren files l children s
      = (HostNode.listingChildren l children).foldl (addAlone files) s
  | [], _, _ => rfl
  | (n, node) :: rest, l, s => by
    rw [addChildren, addNode_eq_foldl files node, addChildren_eq_foldl files rest,
      HostNode.listingChildren, List.foldl_append]

end

theorem isFileOf_iff {node : HostNode} {i : Nat} : node.isFileOf i ↔ node = .file i := by
  cases node <;> simp [HostNode.isFileOf]

theorem firstName_append (nodes more : List (Location × HostNode)) (i : Nat) :
    firstName (nodes ++ more) i = (firstName nodes i).or (firstName more i) := by
  rw [firstName, List.find?_append, Option.map_or]
  rfl

theorem mem_of_firstName {nodes : List (Location × HostNode)} {i : Nat} {l : Location}
    (h : firstName nodes i = some l) : (l, .file i) ∈ nodes := by
  obtain ⟨⟨k, node⟩, hfind, rfl⟩ := Option.map_eq_some_iff.1 h
  have hfound := List.find?_some hfind
  have hfile : node = .file i := isFileOf_iff.1 hfound
  subst hfile
  exact List.mem_of_find?_eq_some hfind

theorem isSome_firstName {nodes : List (Location × HostNode)} {i : Nat} {l : Location}
    (h : (l, .file i) ∈ nodes) : (firstName nodes i).isSome := by
  rw [firstName, Option.isSome_map, List.find?_isSome]
  exact ⟨_, h, isFileOf_iff.2 rfl⟩

/-- Nodes that come later do not change what a node is loaded as. -/
theorem loaded_append {files : List HostFile} {nodes : List (Location × HostNode)} {l : Location}
    {node : HostNode} (h : (l, node) ∈ nodes) (more : List (Location × HostNode)) :
    node.loaded files (otherName (nodes ++ more) l) = node.loaded files (otherName nodes l) := by
  cases node with
  | file i =>
    obtain ⟨first, hfirst⟩ := Option.isSome_iff_exists.1 (isSome_firstName h)
    have hsame : otherName (nodes ++ more) l i = otherName nodes l i := by
      rw [otherName, otherName, firstName_append, hfirst]
      rfl
    simp only [HostNode.loaded, hsame]
  | _ => rfl

/-- What is there after the nodes of a list have been taken: what each of them is loaded as. -/
structure Taken (files : List HostFile) (nodes : List (Location × HostNode)) (s : Loading) :
    Prop where
  /-- The root is that of the empty tree. -/
  root : s.tree.root = Tree.empty.root
  /-- Of every file the first name is known. -/
  met : ∀ i, s.met.lookup i = firstName nodes i
  /-- The entries are those of the nodes. -/
  entries : ∀ l e, s.tree.entries.get? l = some e ↔
    ∃ node, (l, node) ∈ nodes ∧ node.loaded files (otherName nodes l) = some e

theorem taken_nil (files : List HostFile) : Taken files [] ⟨.empty, []⟩ :=
  ⟨rfl, fun _ => rfl, by simp⟩

/-- The first name of a file that is met at a new location is another one, or the file is new. -/
theorem otherName_concat {nodes : List (Location × HostNode)} {l : Location} {i : Nat}
    (hnew : ∀ y ∈ nodes, y.1 ≠ l) : otherName (nodes ++ [(l, .file i)]) l i = firstName nodes i := by
  rw [otherName, firstName_append]
  cases hfirst : firstName nodes i with
  | none => simp [firstName, HostNode.isFileOf, Option.filter]
  | some first =>
    have hne : first ≠ l := hnew _ (mem_of_firstName hfirst)
    simp [Option.filter, hne]

theorem addAlone_tree {files : List HostFile} {nodes : List (Location × HostNode)} {s : Loading}
    (h : Taken files nodes s) {x : Location × HostNode} (hnew : ∀ y ∈ nodes, y.1 ≠ x.1) :
    (addAlone files s x).tree = match x.2.loaded files (otherName (nodes ++ [x]) x.1) with
      | some e => s.tree.set x.1 e
      | none => s.tree := by
  obtain ⟨l, node⟩ := x
  cases node with
  | file i =>
    simp only [addAlone, addFile, h.met i, HostNode.loaded, otherName_concat hnew]
    cases firstName nodes i <;> rfl
  | _ => rfl

theorem addAlone_met {files : List HostFile} {nodes : List (Location × HostNode)} {s : Loading}
    (h : Taken files nodes s) (x : Location × HostNode) (i : Nat) :
    (addAlone files s x).met.lookup i = firstName (nodes ++ [x]) i := by
  obtain ⟨l, node⟩ := x
  rw [firstName_append, ← h.met i]
  cases node with
  | file j =>
    simp only [addAlone, addFile]
    cases hj : s.met.lookup j with
    | some first =>
      by_cases hij : i = j
      · simp [hij, hj, add]
      · simp [firstName, HostNode.isFileOf, Ne.symm hij, add]
    | none =>
      by_cases hij : i = j
      · simp [hij, hj, firstName, HostNode.isFileOf]
      · have hbeq : (i == j) = false := by simpa using hij
        simp [List.lookup_cons, hbeq, firstName, HostNode.isFileOf, Ne.symm hij]
  | _ => simp [addAlone, add, firstName, HostNode.isFileOf]

theorem Taken.addAlone {files : List HostFile} {nodes : List (Location × HostNode)} {s : Loading}
    (h : Taken files nodes s) {x : Location × HostNode} (hnil : x.1 ≠ [])
    (hnew : ∀ y ∈ nodes, y.1 ≠ x.1) : Taken files (nodes ++ [x]) (addAlone files s x) := by
  have htree := addAlone_tree h hnew
  refine ⟨?_, addAlone_met h x, fun l e => ?_⟩
  · rw [htree]
    split
    · rw [Tree.root_set _ hnil, h.root]
    · exact h.root
  · -- At the location of the new node there was nothing, and at the others nothing changes.
    have hget : (Loading.addAlone files s x).tree.entries.get? l
        = if l = x.1 then x.2.loaded files (otherName (nodes ++ [x]) x.1)
          else s.tree.entries.get? l := by
      have hvacant : s.tree.entries.get? x.1 = none := by
        cases hx : s.tree.entries.get? x.1 with
        | none => rfl
        | some e =>
          obtain ⟨node, hmem, -⟩ := (h.entries x.1 e).1 hx
          exact absurd rfl (hnew (x.1, node) hmem)
      rw [htree]
      cases x.2.loaded files (otherName (nodes ++ [x]) x.1) with
      | some e => rw [Tree.entries_set _ hnil]
      | none =>
        by_cases hl : l = x.1
        · simp [hl, hvacant]
        · simp [hl]
    rw [hget]
    by_cases hl : l = x.1
    · subst hl
      rw [if_pos rfl]
      constructor
      · intro he
        exact ⟨x.2, List.mem_append_right _ (List.mem_singleton.2 rfl), he⟩
      · rintro ⟨node, hmem, he⟩
        rcases List.mem_append.1 hmem with hmem | hmem
        · exact absurd rfl (hnew (x.1, node) hmem)
        · obtain rfl : node = x.2 := congrArg Prod.snd (List.mem_singleton.1 hmem)
          exact he
    · rw [if_neg hl, h.entries]
      constructor
      · rintro ⟨node, hmem, he⟩
        exact ⟨node, List.mem_append_left _ hmem, by rw [loaded_append hmem]; exact he⟩
      · rintro ⟨node, hmem, he⟩
        rcases List.mem_append.1 hmem with hmem | hmem
        · exact ⟨node, hmem, by rwa [loaded_append hmem] at he⟩
        · exact absurd (congrArg Prod.fst (List.mem_singleton.1 hmem)) hl

theorem Taken.foldl {files : List HostFile} {nodes more : List (Location × HostNode)} {s : Loading}
    (h : Taken files nodes s) (hnil : ∀ x ∈ more, x.1 ≠ [])
    (hsorted : (nodes ++ more).Pairwise fun a b => compare a.1 b.1 = .lt) :
    Taken files (nodes ++ more) (more.foldl (Loading.addAlone files) s) := by
  induction more generalizing nodes s with
  | nil => simpa using h
  | cons x rest ih =>
    rw [List.append_cons] at hsorted ⊢
    have hnew : ∀ y ∈ nodes, y.1 ≠ x.1 := by
      intro y hy heq
      have hlt := (List.pairwise_append.1 (List.pairwise_append.1 hsorted).1).2.2 y hy x
        (List.mem_singleton.2 rfl)
      simp [heq] at hlt
    exact ih (h.addAlone (hnil x (List.mem_cons_self ..)) hnew)
      (fun y hy => hnil y (List.mem_cons_of_mem _ hy)) hsorted

theorem compare_firstName {nodes : List (Location × HostNode)}
    (hsorted : nodes.Pairwise fun a b => compare a.1 b.1 = .lt) {i : Nat} {l k : Location}
    (hfirst : firstName nodes i = some l) (hmem : (k, .file i) ∈ nodes) :
    k = l ∨ compare l k = .lt := by
  obtain ⟨x, hfind, rfl⟩ := Option.map_eq_some_iff.1 hfirst
  obtain ⟨-, before, after, rfl, hbefore⟩ := List.find?_eq_some_iff_append.1 hfind
  rcases List.mem_append.1 hmem with hmem | hmem
  · have := hbefore _ hmem
    simp [HostNode.isFileOf] at this
  · rcases List.mem_cons.1 hmem with rfl | hmem
    · exact Or.inl rfl
    · exact Or.inr ((List.pairwise_cons.1 (List.pairwise_append.1 hsorted).2.1).1 _ hmem)

end Loading

/-! ## Whole directories -/

namespace HostNode

/-- The least of the places below a node at which the file with a number stands. -/
structure FirstName (root : HostNode) (inode : Nat) (first : Place) : Prop where
  /-- The file stands there. -/
  here : root.get? first = some (.file inode)
  /-- All other places at which it stands come later. -/
  least : ∀ place : Place, root.get? place = some (.file inode) →
    place = first ∨ compare first.location place.location = .lt

/-- The entry that a node at a place below `root` is in the tree of that directory: with permissions
within their bits and no owner, and for a file a regular file under its first name and a hard link to
that under any other. -/
inductive LoadsAs (files : List HostFile) (root : HostNode) (place : Place) : HostNode → Entry → Prop
  | directory (mode : Nat) (children : List (Name × HostNode)) :
      LoadsAs files root place (.directory mode children) ⟨.directory, mode % 4096, none⟩
  | symlink (target : Path) : LoadsAs files root place (.symlink target) ⟨.symlink target, 0o777, none⟩
  | charDevice (mode number : Nat) :
      LoadsAs files root place (.charDevice mode number)
        ⟨.charDevice (splitDevice (.ofNat number)).1 (splitDevice (.ofNat number)).2, mode % 4096, none⟩
  | file {inode : Nat} (first : root.FirstName inode place) :
      LoadsAs files root place (.file inode)
        ⟨.file (files.getD inode default).contents, (files.getD inode default).mode % 4096, none⟩
  | hardlink {inode : Nat} {first : Place} (isFirst : root.FirstName inode first)
      (other : first ≠ place) :
      LoadsAs files root place (.file inode)
        ⟨.hardlink first.location.path, (files.getD inode default).mode % 4096, none⟩

theorem FirstName.unique {root : HostNode} {i : Nat} {a b : Place} (ha : root.FirstName i a)
    (hb : root.FirstName i b) : a = b := by
  rcases ha.least b hb.here with h | hlt
  · exact h.symm
  · rcases hb.least a ha.here with h | hgt
    · exact h
    · rw [Std.OrientedCmp.gt_of_lt hlt] at hgt
      cases hgt

/-- A node below a directory is in a directory. -/
theorem get?_dropLast {root node : HostNode} {place : Place} (hplace : place ≠ [])
    (h : root.get? place = some node) :
    ∃ mode children, root.get? place.dropLast = some (.directory mode children) := by
  induction place generalizing root with
  | nil => exact absurd rfl hplace
  | cons n rest ih =>
    cases root with
    | directory mode children =>
      cases rest with
      | nil => exact ⟨mode, children, rfl⟩
      | cons m rest =>
        rw [get?] at h
        obtain ⟨c, hc, hrest⟩ := Option.bind_eq_some_iff.1 h
        obtain ⟨mode', children', hdir⟩ := ih (List.cons_ne_nil _ _) hrest
        refine ⟨mode', children', ?_⟩
        rw [List.dropLast_cons_of_ne_nil (List.cons_ne_nil m rest), get?, hc]
        exact hdir
    | _ => simp [get?] at h

section

variable {mode : Nat} {children : List (Name × HostNode)}

/-- The first name that is met is the least. -/
theorem firstName_loadOrder (h : ProperChildren children) {place : Place} {i : Nat}
    (hplace : (directory mode children).get? place = some (.file i)) :
    ∃ first : Place, Loading.firstName (loadOrder children) i = some first.location ∧
      (directory mode children).FirstName i first := by
  obtain ⟨l, hl⟩ := Option.isSome_iff_exists.1
    (Loading.isSome_firstName ((mem_loadOrder_file mode h).2 hplace))
  obtain ⟨first, node, -, rfl, hnode, hsorted⟩ :=
    (mem_loadOrder mode h).1 (Loading.mem_of_firstName hl)
  rw [sorted_eq_file.1 hsorted] at hnode
  refine ⟨first, hl, hnode, fun other hother => ?_⟩
  have hcompare := Loading.compare_firstName (pairwise_loadOrder h) hl
    ((mem_loadOrder_file mode h).2 hother)
  exact hcompare.imp_left fun heq => Place.location_inj heq

/-- What a node is loaded as is what it becomes. -/
theorem loaded_loadOrder (h : ProperChildren children) (files : List HostFile) {place : Place}
    {node : HostNode} (hplace : (directory mode children).get? place = some node) (e : Entry) :
    node.loaded files (Loading.otherName (loadOrder children) place.location) = some e ↔
      (directory mode children).LoadsAs files place node e := by
  cases node with
  | directory =>
    refine ⟨fun he => ?_, fun he => ?_⟩
    · obtain rfl := Option.some.inj he
      exact .directory ..
    · cases he
      rfl
  | symlink =>
    refine ⟨fun he => ?_, fun he => ?_⟩
    · obtain rfl := Option.some.inj he
      exact .symlink ..
    · cases he
      rfl
  | charDevice =>
    refine ⟨fun he => ?_, fun he => ?_⟩
    · obtain rfl := Option.some.inj he
      exact .charDevice ..
    · cases he
      rfl
  | other => exact ⟨nofun, nofun⟩
  | file i =>
    obtain ⟨first, hfirst, hleast⟩ := firstName_loadOrder h hplace
    simp only [loaded, Loading.otherName, hfirst]
    by_cases hsame : first = place
    · subst hsame
      simp only [Option.filter, decide_not, decide_true, Bool.not_true, Bool.false_eq_true, if_false]
      refine ⟨fun he => ?_, fun he => ?_⟩
      · obtain rfl := Option.some.inj he
        exact .file hleast
      · cases he with
        | file => rfl
        | hardlink hfirst' hne => exact absurd (hfirst'.unique hleast) hne
    · have hne : first.location ≠ place.location := fun heq => hsame (Place.location_inj heq)
      simp only [Option.filter, hne, ne_eq, not_false_eq_true, decide_true, if_true]
      refine ⟨fun he => ?_, fun he => ?_⟩
      · obtain rfl := Option.some.inj he
        exact .hardlink hleast hsame
      · cases he with
        | file hfirst' => exact absurd (hleast.unique hfirst') hsame
        | hardlink hfirst' => rw [hfirst'.unique hleast]; rfl

end

end HostNode

/-- What is loaded from a directory: nothing at the root, and below it what the nodes become. -/
theorem Tree.ofChildren_spec {files : List HostFile} (mode : Nat)
    {children : List (Name × HostNode)} (h : HostNode.ProperChildren children) :
    (Tree.ofChildren files children).root = Tree.empty.root ∧
      ∀ l e, (l, e) ∈ (Tree.ofChildren files children).walk ↔
        ∃ (place : Place) (node : HostNode), place ≠ [] ∧ l = place.location ∧
          (HostNode.directory mode children).get? place = some node ∧
          (HostNode.directory mode children).LoadsAs files place node e := by
  have htaken : Loading.Taken files ([] ++ HostNode.loadOrder children)
      ((HostNode.loadOrder children).foldl (Loading.addAlone files) ⟨.empty, []⟩) := by
    refine (Loading.taken_nil files).foldl (fun x hx => ?_) (HostNode.pairwise_loadOrder h)
    obtain ⟨place, -, hnil, hl, -⟩ := (HostNode.mem_loadOrder mode h).1 hx
    rw [hl]
    simpa [Place.location] using hnil
  rw [List.nil_append] at htaken
  have htree : Tree.ofChildren files children
      = ((HostNode.loadOrder children).foldl (Loading.addAlone files) ⟨.empty, []⟩).tree := by
    rw [Tree.ofChildren, Loading.addChildren_eq_foldl]
    rfl
  rw [htree]
  refine ⟨htaken.root, fun l e => ?_⟩
  rw [Tree.mem_walk, htaken.entries]
  constructor
  · rintro ⟨node', hmem, he⟩
    obtain ⟨place, node, hnil, rfl, hnode, rfl⟩ := (HostNode.mem_loadOrder mode h).1 hmem
    rw [HostNode.loaded_sorted] at he
    exact ⟨place, node, hnil, rfl, hnode, (HostNode.loaded_loadOrder h files hnode e).1 he⟩
  · rintro ⟨place, node, hnil, rfl, hnode, he⟩
    refine ⟨node.sorted, (HostNode.mem_loadOrder mode h).2 ⟨place, node, hnil, rfl, hnode, rfl⟩, ?_⟩
    rw [HostNode.loaded_sorted]
    exact (HostNode.loaded_loadOrder h files hnode e).2 he

theorem HostNode.exists_loadsAs {mode : Nat} {children : List (Name × HostNode)}
    (h : ProperChildren children) (files : List HostFile) {place : Place} {node : HostNode}
    (hplace : (directory mode children).get? place = some node) (hother : node ≠ .other) :
    ∃ e, (directory mode children).LoadsAs files place node e := by
  cases node with
  | directory => exact ⟨_, .directory ..⟩
  | symlink => exact ⟨_, .symlink ..⟩
  | charDevice => exact ⟨_, .charDevice ..⟩
  | other => exact absurd rfl hother
  | file i =>
    obtain ⟨first, -, hfirst⟩ := firstName_loadOrder h hplace
    by_cases hsame : first = place
    · exact ⟨_, .file (hsame ▸ hfirst)⟩
    · exact ⟨_, .hardlink hfirst hsame⟩

theorem Tree.ofChildren_parentClosed {files : List HostFile} {children : List (Name × HostNode)}
    (h : HostNode.ProperChildren children) : (Tree.ofChildren files children).ParentClosed := by
  obtain ⟨-, hentries⟩ := Tree.ofChildren_spec 0 h
  intro l e hmem
  obtain ⟨place, node, hnil, rfl, hnode, -⟩ := (hentries l e).1 hmem
  obtain ⟨mode', children', hdir⟩ := HostNode.get?_dropLast hnil hnode
  have habove : List.dropLast place.location = Place.location place.dropLast := by
    rw [Place.location, Place.location, List.map_dropLast]
  rw [habove]
  by_cases htop : place.dropLast = []
  · rw [htop]
    rfl
  · have hloaded := (hentries _ _).2 ⟨place.dropLast, _, htop, rfl, hdir, .directory mode' children'⟩
    exact Tree.isDirectoryAt_iff.2 (Or.inr ⟨_, Tree.mem_walk.1 hloaded, rfl⟩)

/-- Whatever directory a path names, and in whatever order the host enumerates it and all below it: the
same tree is loaded. Every entry is in a directory, and the entries are those that the nodes below the
directory are loaded as; each of them is, but for what can be neither read nor written. -/
theorem Host.loadTree_eq {h : Host} (hroot : h.root.Proper) {p : Path} {mode : Nat}
    {children : List (Name × HostNode)} (hnode : h.node .entry p = .ok (.directory mode children)) :
    ∃ t, h.loadTree p = .ok t ∧ (∀ h', h.Reordered h' → h'.loadTree p = .ok t) ∧
      t.root = Tree.empty.root ∧ t.ParentClosed ∧
      (∀ l e, (l, e) ∈ t.walk ↔ ∃ (place : Place) (node : HostNode), place ≠ [] ∧
        l = place.location ∧ (HostNode.directory mode children).get? place = some node ∧
        (HostNode.directory mode children).LoadsAs h.files place node e) ∧
      ∀ (place : Place) (node : HostNode), place ≠ [] →
        (HostNode.directory mode children).get? place = some node → node ≠ .other →
        ∃ e, (place.location, e) ∈ t.walk := by
  have hchildren : HostNode.ProperChildren children := Host.node_proper hroot hnode
  have hload : h.loadTree p = .ok (.ofChildren h.files children) := by
    rw [Host.loadTree, hnode]
  obtain ⟨htop, hentries⟩ := Tree.ofChildren_spec mode hchildren
  refine ⟨_, hload, fun h' hsame => ?_, htop, Tree.ofChildren_parentClosed hchildren, hentries, ?_⟩
  · rw [← hsame.loadTree hroot, hload]
  · intro place node hnil hplace hother
    obtain ⟨e, he⟩ := HostNode.exists_loadsAs hchildren h.files hplace hother
    exact ⟨e, (hentries _ e).2 ⟨place, node, hnil, rfl, hplace, he⟩⟩

/-- A file with names in two directories, one of them beside a directory of nearly the same name: the
first name in the order of locations is the one in the directory, and it is the file whichever way the
host enumerates. -/
theorem Host.loadTree_shared_file :
    let a : Name := [0x61]
    let b : Name := [0x62]
    let beside : Name := [0x61, 0x2D, 0x62]
    let inner : List (Name × HostNode) := [(a, .other), (b, .file 0)]
    let outer : List (Name × HostNode) := [(beside, .file 0), (a, .directory 0o40755 inner)]
    let h : Host := ⟨.directory 0o755 outer, [⟨0o100644, [1]⟩], []⟩
    let h' : Host := ⟨.directory 0o755 outer.reverse, [⟨0o100644, [1]⟩], []⟩
    let p : Path := .ofString "/"
    h.root.Proper ∧ h.node .entry p = .ok (.directory 0o755 outer) ∧ h.Reordered h' ∧
      ∃ t, h'.loadTree p = .ok t ∧
        ([.name a, .name b], ⟨.file [1], 0o644, none⟩) ∈ t.walk ∧
        ([.name beside], ⟨.hardlink (.ofString "a/b"), 0o644, none⟩) ∈ t.walk := by
  intro a b beside inner outer h h' p
  have hproper : h.root.Proper := by
    refine ⟨by decide, by decide, trivial, by decide, by simp, ⟨by decide, by decide, trivial, ?_⟩,
      trivial⟩
    exact ⟨by decide, by simp, trivial, trivial⟩
  have hnode : h.node .entry p = .ok (.directory 0o755 outer) := rfl
  have hsame : h.Reordered h' := ⟨.of_perm (List.reverse_perm outer).symm, rfl, rfl⟩
  obtain ⟨t, -, hload, -, -, hentries, -⟩ := Host.loadTree_eq hproper hnode
  have hfirst : (HostNode.directory 0o755 outer).FirstName 0 [a, b] := by
    have hbeside : (HostNode.directory 0o755 outer).get? [beside] = some (.file 0) := rfl
    obtain ⟨first, hmet, hfirst⟩ := HostNode.firstName_loadOrder hproper hbeside
    have hab : Loading.firstName (HostNode.loadOrder outer) 0 = some (Place.location [a, b]) := by
      decide
    rw [hab] at hmet
    rwa [Place.location_inj (Option.some.inj hmet)]
  have hbits : (h.files.getD 0 default).mode % 4096 = 0o644 := by decide
  have hfile : (HostNode.directory 0o755 outer).LoadsAs h.files [a, b] (.file 0)
      ⟨.file [1], 0o644, none⟩ := by
    rw [← hbits]
    exact .file hfirst
  have hlink : (HostNode.directory 0o755 outer).LoadsAs h.files [beside] (.file 0)
      ⟨.hardlink (.ofString "a/b"), 0o644, none⟩ := by
    rw [← hbits]
    exact .hardlink hfirst (show [a, b] ≠ [beside] by decide)
  refine ⟨hproper, hnode, hsame, t, hload h' hsame, ?_, ?_⟩
  · exact (hentries _ _).2 ⟨[a, b], .file 0, by simp, rfl, rfl, hfile⟩
  · exact (hentries _ _).2 ⟨[beside], .file 0, by simp, rfl, rfl, hlink⟩

end ImageLayer
