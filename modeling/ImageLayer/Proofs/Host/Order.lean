import ImageLayer.Host.Load
import ImageLayer.Proofs.Tree.Location
/-!
The order in which the host enumerates a directory.

A host gives the names in a directory in any order it likes, and the order may differ between two runs. What is
loaded must not depend on it: `Host.Reordered.loadTree`, the main statement, says that the same tree is loaded
from two hosts that differ in the order of enumeration alone.

Sections:

* Nodes in order. On a host the names in one directory are proper and differ (`HostNode.Proper`), so that they
  can be put in order, in every directory at once (`HostNode.ordered_sorted`).
* Two orders of enumeration. `HostNode.Reordered` relates two nodes that are the same but for the order: the
  children of one are a permutation of others that are related one by one to those of the other. It is mutual
  with the relation on children, as nodes are.
* Names of a directory, which a reordering keeps, and which differ on either side if they do on one.
* Directories in the order of names. Inserting by name commutes for different names
  (`HostNode.insertByName_comm`), so that sorting forgets a permutation, and nothing is left of the order of
  enumeration (`HostNode.sorted_eq_of_reordered`).
* Nodes at places: related hosts have related nodes everywhere (`HostNode.Reordered.get?`).
* Whole hosts. Every path leads to the same place on both (`Host.Reordered.place`), since following a path looks
  at what stands at places and never at the order of children. Loading puts the children in order before
  anything else.

That names differ is what makes this true: of two children with one name the first would be found, and which one
is first is a matter of order.
-/

namespace ImageLayer

/-! ## Nodes in order -/

namespace HostNode

mutual

/-- A node as a host has it: in every directory the names are proper and differ. -/
def Proper : HostNode → Prop
  | .directory _ children => ProperChildren children
  | _ => True

/-- The nodes of a directory as a host has them. -/
def ProperChildren : List (Name × HostNode) → Prop
  | [] => True
  | (n, node) :: rest =>
    Name.Proper n ∧ (∀ c ∈ rest, c.1 ≠ n) ∧ node.Proper ∧ ProperChildren rest

end

mutual

/-- A node in which the names of every directory are proper and increase. -/
def Ordered : HostNode → Prop
  | .directory _ children => OrderedChildren children
  | _ => True

/-- Nodes under proper and increasing names, and so is every directory below. -/
def OrderedChildren : List (Name × HostNode) → Prop
  | [] => True
  | (n, node) :: rest =>
    Name.Proper n ∧ (∀ c ∈ rest, compare n c.1 = .lt) ∧ node.Ordered ∧ OrderedChildren rest

end

theorem mem_insertByName {n : Name} {node : HostNode} {l : List (Name × HostNode)}
    {c : Name × HostNode} (h : c ∈ insertByName n node l) : c = (n, node) ∨ c ∈ l := by
  induction l with
  | nil => simpa [insertByName] using h
  | cons hd tl ih =>
    obtain ⟨n', node'⟩ := hd
    rw [insertByName] at h
    split at h
    · exact List.mem_cons.1 h
    · rcases List.mem_cons.1 h with rfl | h
      · exact Or.inr (List.mem_cons_self ..)
      · exact (ih h).imp_right (List.mem_cons_of_mem _)

theorem orderedChildren_insertByName {n : Name} {node : HostNode} {l : List (Name × HostNode)}
    (hn : n.Proper) (hnode : node.Ordered) (hne : ∀ c ∈ l, c.1 ≠ n) (hl : OrderedChildren l) :
    OrderedChildren (insertByName n node l) := by
  induction l with
  | nil => exact ⟨hn, by simp, hnode, trivial⟩
  | cons hd tl ih =>
    obtain ⟨n', node'⟩ := hd
    obtain ⟨hn', hlt, hnode', htl⟩ := hl
    have hne' : n' ≠ n := hne _ (List.mem_cons_self ..)
    rw [insertByName]
    split
    · rename_i hle
      have hlt' : compare n n' = .lt := by
        cases hc : compare n n' with
        | lt => rfl
        | eq => exact absurd (Std.compare_eq_iff_eq.1 hc).symm hne'
        | gt => simp [hc] at hle
      refine ⟨hn, fun c hc => ?_, hnode, hn', hlt, hnode', htl⟩
      rcases List.mem_cons.1 hc with rfl | hc
      · exact hlt'
      · exact Std.TransCmp.lt_trans hlt' (hlt c hc)
    · rename_i hgt
      have hgt' : compare n' n = .lt := by
        cases hc : compare n n' with
        | gt => exact Std.OrientedCmp.lt_of_gt hc
        | _ => simp [hc] at hgt
      refine ⟨hn', fun c hc => ?_, hnode', ih (fun c hc => hne c (List.mem_cons_of_mem _ hc)) htl⟩
      rcases mem_insertByName hc with rfl | hc
      · exact hgt'
      · exact hlt c hc

theorem exists_of_mem_sortedChildren {l : List (Name × HostNode)} {c : Name × HostNode}
    (h : c ∈ sortedChildren l) : ∃ c' ∈ l, c'.1 = c.1 := by
  induction l with
  | nil => simp [sortedChildren] at h
  | cons hd tl ih =>
    obtain ⟨n, node⟩ := hd
    rw [sortedChildren] at h
    rcases mem_insertByName h with rfl | h
    · exact ⟨(n, node), List.mem_cons_self .., rfl⟩
    · obtain ⟨c', hc', heq⟩ := ih h
      exact ⟨c', List.mem_cons_of_mem _ hc', heq⟩

mutual

theorem ordered_sorted : ∀ (node : HostNode), node.Proper → node.sorted.Ordered
  | .directory _ children, h => orderedChildren_sortedChildren children h
  | .file _, _ => trivial
  | .symlink _, _ => trivial
  | .charDevice _ _, _ => trivial
  | .other, _ => trivial

theorem orderedChildren_sortedChildren : ∀ (l : List (Name × HostNode)),
    ProperChildren l → OrderedChildren (sortedChildren l)
  | [], _ => trivial
  | (_, node) :: rest, ⟨hn, hne, hnode, hrest⟩ => by
      refine orderedChildren_insertByName hn (ordered_sorted node hnode) (fun c hc => ?_)
        (orderedChildren_sortedChildren rest hrest)
      obtain ⟨c', hc', heq⟩ := exists_of_mem_sortedChildren hc
      exact heq ▸ hne c' hc'

end

theorem Proper.child? {n : Name} {l : List (Name × HostNode)} {node : HostNode}
    (h : ProperChildren l) (hn : HostNode.child? n l = some node) : node.Proper := by
  induction l with
  | nil => simp [HostNode.child?] at hn
  | cons hd tl ih =>
    obtain ⟨n', node'⟩ := hd
    obtain ⟨-, -, hnode', htl⟩ := h
    rw [HostNode.child?] at hn
    split at hn
    · exact Option.some.inj hn ▸ hnode'
    · exact ih htl hn

theorem Proper.get? {node node' : HostNode} {l : Place} (h : node.Proper)
    (hl : node.get? l = some node') : node'.Proper := by
  induction l generalizing node with
  | nil =>
    rw [HostNode.get?] at hl
    exact Option.some.inj hl ▸ h
  | cons n rest ih =>
    cases node with
    | directory mode children =>
      rw [HostNode.get?] at hl
      obtain ⟨c, hc, hrest⟩ := Option.bind_eq_some_iff.1 hl
      exact ih (Proper.child? h hc) hrest
    | _ => simp [HostNode.get?] at hl

end HostNode

theorem Host.node_proper {h : Host} {aim : Aim} {p : Path} {node : HostNode} (hroot : h.root.Proper)
    (hnode : h.node aim p = .ok node) : node.Proper := by
  unfold Host.node at hnode
  cases hplace : h.place aim p with
  | error fault =>
    rw [hplace] at hnode
    cases hnode
  | ok place =>
    rw [hplace] at hnode
    obtain rfl := Except.ok.inj hnode
    cases hn : h.node? place with
    | none => trivial
    | some node => exact hroot.get? hn

/-! ## Two orders of enumeration -/

namespace HostNode

mutual

/-- The nodes are the same but for the order of the directories in them. -/
def Reordered : HostNode → HostNode → Prop
  | .directory mode children, .directory mode' children' =>
    mode = mode' ∧ ∃ matched : List (Name × HostNode), matched.Perm children' ∧
      ReorderedChildren children matched
  | .file inode, .file inode' => inode = inode'
  | .symlink target, .symlink target' => target = target'
  | .charDevice mode number, .charDevice mode' number' => mode = mode' ∧ number = number'
  | .other, .other => True
  | _, _ => False

/-- The nodes of two directories, one by one, are the same but for the order of directories in them. -/
def ReorderedChildren : List (Name × HostNode) → List (Name × HostNode) → Prop
  | [], [] => True
  | (n, node) :: rest, (n', node') :: rest' =>
    n = n' ∧ node.Reordered node' ∧ ReorderedChildren rest rest'
  | _, _ => False

end

mutual

theorem Reordered.refl : ∀ (node : HostNode), node.Reordered node
  | .directory _ children => ⟨rfl, children, .refl _, ReorderedChildren.refl children⟩
  | .file _ => rfl
  | .symlink _ => rfl
  | .charDevice _ _ => ⟨rfl, rfl⟩
  | .other => trivial

theorem ReorderedChildren.refl : ∀ (children : List (Name × HostNode)),
    ReorderedChildren children children
  | [] => trivial
  | (_, node) :: rest => ⟨rfl, Reordered.refl node, ReorderedChildren.refl rest⟩

end

theorem Reordered.of_perm {mode : Nat} {children children' : List (Name × HostNode)}
    (h : children.Perm children') :
    (HostNode.directory mode children).Reordered (.directory mode children') :=
  ⟨rfl, children, h, ReorderedChildren.refl children⟩

/-! ## Names of a directory -/

/-- The names in a directory. -/
def names (children : List (Name × HostNode)) : List Name := children.map Prod.fst

theorem names_eq : ∀ {children children' : List (Name × HostNode)},
    ReorderedChildren children children' → names children = names children'
  | [], [], _ => rfl
  | (n, _) :: _, (_, _) :: _, ⟨hn, _, hrest⟩ => by
    subst hn
    exact congrArg (n :: ·) (names_eq hrest)

theorem nodup_names : ∀ {children : List (Name × HostNode)},
    ProperChildren children → (names children).Nodup
  | [], _ => List.nodup_nil
  | (n, _) :: rest, ⟨_, hne, _, hrest⟩ => by
    refine List.nodup_cons.2 ⟨fun hmem => ?_, nodup_names hrest⟩
    obtain ⟨c, hc, heq⟩ := List.mem_map.1 hmem
    exact hne c hc heq

theorem nodup_names_of_perm {children children' : List (Name × HostNode)}
    (h : children.Perm children') (hnodup : (names children).Nodup) : (names children').Nodup :=
  (h.map Prod.fst).nodup_iff.1 hnodup

/-! ## Directories in the order of names -/

theorem insertByName_comm {n m : Name} (hne : n ≠ m) (x y : HostNode)
    (children : List (Name × HostNode)) :
    insertByName n x (insertByName m y children) = insertByName m y (insertByName n x children) := by
  have hlt : ∀ {a b : Name}, a ≠ b → (compare a b).isLE → compare a b = .lt := by
    intro a b hab hle
    cases hc : compare a b with
    | lt => rfl
    | eq => exact absurd (Std.compare_eq_iff_eq.1 hc) hab
    | gt => simp [hc] at hle
  have hgt : ∀ {a b : Name}, ¬ (compare a b).isLE → compare b a = .lt := by
    intro a b hle
    cases hc : compare a b with
    | gt => exact Std.OrientedCmp.lt_of_gt hc
    | _ => simp [hc] at hle
  have hnot : ∀ {a b : Name}, compare a b = .lt → ¬ (compare b a).isLE := by
    intro a b h hle
    rw [Std.OrientedCmp.gt_of_lt h] at hle
    cases hle
  induction children with
  | nil =>
    by_cases h : (compare n m).isLE
    · simp [insertByName, h, hnot (hlt hne h)]
    · have h' : (compare m n).isLE := by simp [hgt h]
      simp [insertByName, h, h']
  | cons c rest ih =>
    obtain ⟨k, z⟩ := c
    by_cases hn : (compare n k).isLE <;> by_cases hm : (compare m k).isLE
    -- Both stand in front: they are compared with one another.
    · by_cases h : (compare n m).isLE
      · simp [insertByName, h, hn, hm, hnot (hlt hne h)]
      · have h' : (compare m n).isLE := by simp [hgt h]
        simp [insertByName, h, h', hn, hm]
    · have h : compare n m = .lt := Std.TransCmp.lt_of_isLE_of_lt hn (hgt hm)
      simp [insertByName, hn, hm, hnot h]
    · have h : compare m n = .lt := Std.TransCmp.lt_of_isLE_of_lt hm (hgt hn)
      simp [insertByName, hn, hm, hnot h]
    · simp [insertByName, hn, hm, ih]

theorem sortedChildren_perm {children children' : List (Name × HostNode)}
    (h : children.Perm children') (hnodup : (names children).Nodup) :
    sortedChildren children = sortedChildren children' := by
  induction h with
  | nil => rfl
  | cons c _ ih =>
    obtain ⟨n, node⟩ := c
    rw [sortedChildren, sortedChildren, ih (List.nodup_cons.1 hnodup).2]
  | swap c c' rest =>
    obtain ⟨n, node⟩ := c
    obtain ⟨m, node'⟩ := c'
    have hne : m ≠ n := by
      rintro rfl
      exact (List.nodup_cons.1 hnodup).1 (List.mem_cons_self ..)
    simp only [sortedChildren]
    exact insertByName_comm hne _ _ _
  | trans h₁ _ ih₁ ih₂ => rw [ih₁ hnodup, ih₂ (nodup_names_of_perm h₁ hnodup)]

mutual

/-- In the order of names nothing is left of the order of enumeration. -/
theorem sorted_eq_of_reordered : ∀ (node node' : HostNode), node.Proper → node.Reordered node' →
    node.sorted = node'.sorted
  | .directory mode children, .directory _ children', hnode, ⟨rfl, matched, hperm, hmatched⟩ => by
    have hnodup : (names matched).Nodup := names_eq hmatched ▸ nodup_names hnode
    rw [sorted, sorted, sortedChildren_eq_of_reordered children matched hnode hmatched,
      sortedChildren_perm hperm hnodup]
  | .file _, .file _, _, rfl => rfl
  | .symlink _, .symlink _, _, rfl => rfl
  | .charDevice _ _, .charDevice _ _, _, ⟨rfl, rfl⟩ => rfl
  | .other, .other, _, _ => rfl

theorem sortedChildren_eq_of_reordered : ∀ (children children' : List (Name × HostNode)),
    ProperChildren children → ReorderedChildren children children' →
    sortedChildren children = sortedChildren children'
  | [], [], _, _ => rfl
  | (_, node) :: rest, (_, node') :: rest', ⟨_, _, hnode, hrest⟩, ⟨rfl, hsame, hmore⟩ => by
    rw [sortedChildren, sortedChildren, sorted_eq_of_reordered node node' hnode hsame,
      sortedChildren_eq_of_reordered rest rest' hrest hmore]

end

/-! ## Nodes at places -/

theorem child?_perm {children children' : List (Name × HostNode)} (h : children.Perm children')
    (hnodup : (names children).Nodup) (n : Name) : child? n children = child? n children' := by
  induction h with
  | nil => rfl
  | cons c _ ih => rw [child?, child?, ih (List.nodup_cons.1 hnodup).2]
  | swap c c' rest =>
    have hne : c'.1 ≠ c.1 := fun heq => (List.nodup_cons.1 hnodup).1 (heq ▸ List.mem_cons_self ..)
    simp only [child?]
    by_cases hc : n = c.1
    · have hc' : n ≠ c'.1 := fun heq => hne (heq ▸ hc)
      simp [hc, hne.symm]
    · simp [hc]
  | trans h₁ _ ih₁ ih₂ => rw [ih₁ hnodup, ih₂ (nodup_names_of_perm h₁ hnodup)]

theorem child?_reordered (n : Name) : ∀ {children children' : List (Name × HostNode)},
    ReorderedChildren children children' →
    Option.Rel Reordered (child? n children) (child? n children')
  | [], [], _ => .none
  | (m, node) :: _, (_, node') :: _, ⟨rfl, hsame, hrest⟩ => by
    rw [child?, child?]
    split
    · exact .some hsame
    · exact child?_reordered n hrest

/-- The same nodes stand at the same places. -/
theorem Reordered.get? {node node' : HostNode} (hnode : node.Proper) (h : node.Reordered node')
    (l : Place) : Option.Rel Reordered (node.get? l) (node'.get? l) := by
  induction l generalizing node node' with
  | nil =>
    rw [HostNode.get?, HostNode.get?]
    exact .some h
  | cons n rest ih =>
    cases node <;> cases node' <;> try exact absurd h id
    case directory.directory mode children mode' children' =>
      obtain ⟨rfl, matched, hperm, hmatched⟩ := h
      have hnodup : (names matched).Nodup := names_eq hmatched ▸ nodup_names hnode
      have hchild := child?_reordered n hmatched
      rw [child?_perm hperm hnodup] at hchild
      rw [HostNode.get?, HostNode.get?]
      generalize hc : child? n children = c at hchild ⊢
      generalize child? n children' = c' at hchild ⊢
      cases hchild with
      | none => exact .none
      | some hsame => exact ih (Proper.child? hnode hc) hsame
    all_goals exact .none

end HostNode

/-! ## Whole hosts -/

namespace Host

/-- The hosts are the same but for the order in which they enumerate directories. -/
structure Reordered (h h' : Host) : Prop where
  /-- The same nodes stand at the same places. -/
  root : h.root.Reordered h'.root
  /-- The files are the same. -/
  files : h.files = h'.files
  /-- Relative paths start at the same place. -/
  workingDirectory : h.workingDirectory = h'.workingDirectory

theorem advance_congr {h h' : Host}
    (hnodes : ∀ l, Option.Rel HostNode.Reordered (h.node? l) (h'.node? l)) (aim : Aim) (l : Place)
    (pieces : List Piece) : advance h aim l pieces = advance h' aim l pieces := by
  induction pieces generalizing l with
  | nil => rfl
  | cons piece rest ih =>
    cases piece with
    | stay => simp only [advance, ih]
    | slash => simp only [advance, ih]
    | up => simp only [advance, ih]
    | name n =>
      rw [advance, advance]
      have hnode := hnodes (l ++ [n])
      generalize h.node? (l ++ [n]) = x at hnode ⊢
      generalize h'.node? (l ++ [n]) = x' at hnode ⊢
      cases hnode with
      | none => rfl
      | @some x x' hsame =>
        cases x <;> cases x' <;> try exact absurd hsame id
        case directory.directory => simp only [ih]
        case symlink.symlink =>
          cases hsame
          rfl
        all_goals rfl

theorem walkFrom_congr {h h' : Host}
    (hnodes : ∀ l, Option.Rel HostNode.Reordered (h.node? l) (h'.node? l)) (aim : Aim)
    (links : Nat) (l : Place) (pieces : List Piece) :
    walkFrom h aim links l pieces = walkFrom h' aim links l pieces := by
  induction links generalizing l pieces with
  | zero => rw [walkFrom, walkFrom, advance_congr hnodes]
  | succ links ih =>
    rw [walkFrom, walkFrom, advance_congr hnodes]
    split
    · rfl
    · rfl
    · exact ih _ _

/-- Every path leads to the same place. -/
theorem Reordered.place {h h' : Host} (hroot : h.root.Proper) (hsame : h.Reordered h') (aim : Aim)
    (p : Path) : h.place aim p = h'.place aim p := by
  have hwalk := walkFrom_congr (fun l => hsame.root.get? hroot l) aim maxLinks
  rw [Host.place, Host.place, walk, walk, walkPieces, walkPieces, hsame.workingDirectory]
  simp only [hwalk]

/-- The same tree is loaded. -/
theorem Reordered.loadTree {h h' : Host} (hroot : h.root.Proper) (hsame : h.Reordered h')
    (p : Path) : h.loadTree p = h'.loadTree p := by
  unfold Host.loadTree Host.node
  rw [hsame.place hroot, hsame.files]
  cases h'.place .entry p with
  | error fault => rfl
  | ok l =>
    have hnode := hsame.root.get? hroot l
    change Option.Rel HostNode.Reordered (h.node? l) (h'.node? l) at hnode
    simp only [bind, Except.bind, pure, Except.pure]
    generalize hx : h.node? l = x at hnode ⊢
    generalize h'.node? l = x' at hnode ⊢
    cases hnode with
    | none => rfl
    | @some node node' hsame =>
      cases node <;> cases node' <;> try exact absurd hsame id
      case directory.directory mode children mode' children' =>
        have hproper : (HostNode.directory mode children).Proper := hroot.get? hx
        have hsorted := HostNode.sorted_eq_of_reordered _ _ hproper hsame
        rw [HostNode.sorted, HostNode.sorted] at hsorted
        have hchildren := (HostNode.directory.inj hsorted).2
        simp only [Option.getD_some, Tree.ofChildren, hchildren]
      all_goals rfl

end Host

end ImageLayer
