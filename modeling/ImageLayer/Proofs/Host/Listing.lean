import ImageLayer.Proofs.Host.Order
/-!
The nodes below a directory in one list.

Loading goes down a directory depth first, and the result is a tree in which entries are in the order of whole
paths. `HostNode.listing` is the walk as a list: a node, and if it is a directory then all that is below it,
child by child, each under its location. This module says that the list is the right one, so that proofs about
loading are inductions on a list and not on nested nodes.

Sections:

* The order of the listing. Where names are in order, the listing is in the order of locations
  (`HostNode.pairwise_listing`). All that is below a child begins with the location of the child, and of two
  such locations the names of the children decide.
* What is in the listing: every node under the place at which it stands, once, and nothing else
  (`HostNode.mem_listing`).
* Nodes in the order of names. Sorting changes no node and no place, but for the order of children
  (`HostNode.get?_sorted`).
* Directories in order: `HostNode.loadOrder` is the list that is loaded, of the sorted directory, with both
  properties (`HostNode.pairwise_loadOrder`, `HostNode.mem_loadOrder`).

That depth first and the order of paths agree is no matter of course: it needs paths to be compared part by
part. Compared as texts, `a.b` would stand between `a` and `a/b`.
-/

namespace ImageLayer

/-- The location of a place below a directory. -/
def Place.location (place : Place) : Location := place.map .name

theorem Place.location_inj {a b : Place} (h : a.location = b.location) : a = b :=
  (List.map_inj_right fun _ _ => Part.name.inj).1 h

namespace HostNode

mutual

/-- A node and all below it with their locations, a directory in front of what is in it. -/
def listing (l : Location) : HostNode → List (Location × HostNode)
  | .directory mode children => (l, .directory mode children) :: listingChildren l children
  | node => [(l, node)]

/-- The nodes of the directory at a location and all below them. -/
def listingChildren (l : Location) : List (Name × HostNode) → List (Location × HostNode)
  | [] => []
  | (n, node) :: rest => node.listing (l ++ [.name n]) ++ listingChildren l rest

end

/-! ## The order of the listing -/

theorem prefix_of_mem_leaf {l : Location} {node : HostNode} {x : Location × HostNode}
    (h : x ∈ [(l, node)]) : l <+: x.1 := by
  obtain rfl := List.mem_singleton.1 h
  exact List.prefix_rfl

mutual

theorem prefix_of_mem_listing : ∀ (node : HostNode) {l : Location} {x : Location × HostNode},
    x ∈ node.listing l → l <+: x.1
  | .directory _ children, l, x, h => by
    rw [listing] at h
    rcases List.mem_cons.1 h with rfl | h
    · exact List.prefix_rfl
    · obtain ⟨n, -, hn⟩ := prefix_of_mem_listingChildren children h
      exact (List.prefix_append l _).trans hn
  | .file _, _, _, h => prefix_of_mem_leaf h
  | .symlink _, _, _, h => prefix_of_mem_leaf h
  | .charDevice _ _, _, _, h => prefix_of_mem_leaf h
  | .other, _, _, h => prefix_of_mem_leaf h

theorem prefix_of_mem_listingChildren : ∀ (children : List (Name × HostNode)) {l : Location}
    {x : Location × HostNode}, x ∈ listingChildren l children →
    ∃ c ∈ children, l ++ [.name c.1] <+: x.1
  | [], _, _, h => by
    rw [listingChildren] at h
    cases h
  | (n, node) :: rest, l, x, h => by
    rw [listingChildren] at h
    rcases List.mem_append.1 h with h | h
    · exact ⟨(n, node), List.mem_cons_self .., prefix_of_mem_listing node h⟩
    · obtain ⟨c, hc, hprefix⟩ := prefix_of_mem_listingChildren rest h
      exact ⟨c, List.mem_cons_of_mem _ hc, hprefix⟩

end

mutual

/-- Where names are in order, the listing is in the order of locations. -/
theorem pairwise_listing : ∀ (node : HostNode) (l : Location), node.Ordered →
    (node.listing l).Pairwise fun a b => compare a.1 b.1 = .lt
  | .directory _ children, l, h => by
    rw [listing]
    refine List.pairwise_cons.2 ⟨fun x hx => ?_, pairwise_listingChildren children l h⟩
    obtain ⟨c, -, rest, hrest⟩ := prefix_of_mem_listingChildren children hx
    rw [← hrest, List.append_assoc]
    exact Location.compare_append l (.name c.1) rest
  | .file _, _, _ => List.pairwise_singleton ..
  | .symlink _, _, _ => List.pairwise_singleton ..
  | .charDevice _ _, _, _ => List.pairwise_singleton ..
  | .other, _, _ => List.pairwise_singleton ..

theorem pairwise_listingChildren : ∀ (children : List (Name × HostNode)) (l : Location),
    OrderedChildren children →
    (listingChildren l children).Pairwise fun a b => compare a.1 b.1 = .lt
  | [], _, _ => List.Pairwise.nil
  | (n, node) :: rest, l, ⟨_, hlt, hnode, hrest⟩ => by
    rw [listingChildren]
    refine List.pairwise_append.2 ⟨pairwise_listing node _ hnode,
      pairwise_listingChildren rest l hrest, fun a ha b hb => ?_⟩
    -- What is below one name stands in front of what is below a later name.
    obtain ⟨c, hc, more, hmore⟩ := prefix_of_mem_listingChildren rest hb
    have hfirst := Location.compare_of_prefix (prefix_of_mem_listing node ha) (hlt c hc)
    rw [← hmore]
    cases more with
    | nil => rwa [List.append_nil]
    | cons p more => exact Std.TransCmp.lt_trans hfirst (Location.compare_append _ p more)

end

/-! ## What is in the listing -/

theorem mem_of_child? {n : Name} {node : HostNode} : ∀ {children : List (Name × HostNode)},
    child? n children = some node → (n, node) ∈ children
  | (m, first) :: rest, h => by
    rw [child?] at h
    split at h
    · rename_i hnm
      rw [hnm, Option.some.inj h]
      exact List.mem_cons_self ..
    · exact List.mem_cons_of_mem _ (mem_of_child? h)

theorem properName_of_mem {children : List (Name × HostNode)} (h : ProperChildren children)
    {c : Name × HostNode} (hc : c ∈ children) : Name.Proper c.1 := by
  induction children with
  | nil => cases hc
  | cons first rest ih =>
    obtain ⟨hn, -, -, hrest⟩ := h
    rcases List.mem_cons.1 hc with rfl | hc
    · exact hn
    · exact ih hrest hc

/-- The names on the way to a node are proper. -/
theorem Proper.location {node node' : HostNode} {place : Place} (h : node.Proper)
    (hplace : node.get? place = some node') : Location.Proper place.location := by
  induction place generalizing node with
  | nil => exact Location.proper_nil
  | cons n place ih =>
    cases node with
    | directory mode children =>
      rw [HostNode.get?] at hplace
      obtain ⟨child, hchild, hrest⟩ := Option.bind_eq_some_iff.1 hplace
      have hn : Name.Proper n := properName_of_mem h (mem_of_child? hchild)
      exact List.forall_mem_cons.2 ⟨hn, ih (Proper.child? h hchild) hrest⟩
    | _ => simp [HostNode.get?] at hplace

theorem mem_listing_leaf {node : HostNode} {l : Location} {x : Location × HostNode}
    (hlisting : node.listing l = [(l, node)]) (hget : ∀ n place, node.get? (n :: place) = none) :
    x ∈ node.listing l ↔ ∃ place : Place, x.1 = l ++ place.location ∧ node.get? place = some x.2 := by
  rw [hlisting, List.mem_singleton]
  constructor
  · rintro rfl
    exact ⟨[], by simp [Place.location], by rw [get?]⟩
  · rintro ⟨place, hl, hx⟩
    cases place with
    | nil =>
      rw [get?, Option.some.injEq] at hx
      exact Prod.ext (by simpa [Place.location] using hl) hx.symm
    | cons n place =>
      rw [hget] at hx
      cases hx

mutual

theorem mem_listing : ∀ (node : HostNode) {l : Location} {x : Location × HostNode}, node.Proper →
    (x ∈ node.listing l ↔ ∃ place : Place, x.1 = l ++ place.location ∧ node.get? place = some x.2)
  | .directory mode children, l, x, h => by
    rw [listing, List.mem_cons, mem_listingChildren children h]
    constructor
    · rintro (rfl | ⟨n, place, hl, hx⟩)
      · exact ⟨[], by simp [Place.location], rfl⟩
      · exact ⟨n :: place, hl, by rw [get?]; exact hx⟩
    · rintro ⟨place, hl, hx⟩
      cases place with
      | nil =>
        rw [get?, Option.some.injEq] at hx
        exact Or.inl (Prod.ext (by simpa [Place.location] using hl) hx.symm)
      | cons n place =>
        rw [get?] at hx
        exact Or.inr ⟨n, place, hl, hx⟩
  | .file _, _, _, _ => mem_listing_leaf rfl fun _ _ => rfl
  | .symlink _, _, _, _ => mem_listing_leaf rfl fun _ _ => rfl
  | .charDevice _ _, _, _, _ => mem_listing_leaf rfl fun _ _ => rfl
  | .other, _, _, _ => mem_listing_leaf rfl fun _ _ => rfl

theorem mem_listingChildren : ∀ (children : List (Name × HostNode)) {l : Location}
    {x : Location × HostNode}, ProperChildren children →
    (x ∈ listingChildren l children ↔ ∃ (n : Name) (place : Place),
      x.1 = l ++ Place.location (n :: place) ∧ ((child? n children).bind (·.get? place)) = some x.2)
  | [], _, _, _ => by simp [listingChildren, child?]
  | (m, node) :: rest, l, x, ⟨_, hne, hnode, hrest⟩ => by
    rw [listingChildren, List.mem_append, mem_listing node hnode, mem_listingChildren rest hrest]
    constructor
    · rintro (⟨place, hl, hx⟩ | ⟨n, place, hl, hx⟩)
      · exact ⟨m, place, by simpa [Place.location] using hl, by simpa [child?] using hx⟩
      · have hnm : n ≠ m := by
          rintro rfl
          obtain ⟨c, hc, -⟩ := Option.bind_eq_some_iff.1 hx
          exact hne _ (mem_of_child? hc) rfl
        exact ⟨n, place, hl, by simpa [child?, hnm] using hx⟩
    · rintro ⟨n, place, hl, hx⟩
      rw [child?] at hx
      split at hx
      · rename_i hnm
        subst hnm
        exact Or.inl ⟨place, by simpa [Place.location] using hl, by simpa using hx⟩
      · exact Or.inr ⟨n, place, hl, hx⟩

end

/-! ## Nodes in the order of names -/

mutual

theorem Ordered.proper : ∀ {node : HostNode}, node.Ordered → node.Proper
  | .directory _ _, h => OrderedChildren.proper h
  | .file _, _ => trivial
  | .symlink _, _ => trivial
  | .charDevice _ _, _ => trivial
  | .other, _ => trivial

theorem OrderedChildren.proper : ∀ {children : List (Name × HostNode)},
    OrderedChildren children → ProperChildren children
  | [], _ => trivial
  | _ :: _, ⟨hn, hlt, hnode, hrest⟩ =>
    ⟨hn, fun c hc heq => by simpa [heq] using hlt c hc, hnode.proper, OrderedChildren.proper hrest⟩

end

theorem child?_insertByName {n : Name} {children : List (Name × HostNode)}
    (hne : ∀ c ∈ children, c.1 ≠ n) (m : Name) (node : HostNode) :
    child? m (insertByName n node children) = if m = n then some node else child? m children := by
  induction children with
  | nil => rfl
  | cons c rest ih =>
    obtain ⟨k, first⟩ := c
    have hkn : k ≠ n := hne _ (List.mem_cons_self ..)
    have hrest := ih fun c hc => hne c (List.mem_cons_of_mem _ hc)
    rw [insertByName]
    split
    · rw [child?]
    · rw [child?, child?, hrest]
      by_cases hmk : m = k
      · have hmn : m ≠ n := fun heq => hkn (hmk ▸ heq)
        simp [hmk, hkn]
      · simp [hmk]

theorem child?_sortedChildren (m : Name) : ∀ {children : List (Name × HostNode)},
    ProperChildren children → child? m (sortedChildren children) = (child? m children).map sorted
  | [], _ => rfl
  | (n, node) :: rest, ⟨_, hne, _, hrest⟩ => by
    have hsorted : ∀ c ∈ sortedChildren rest, c.1 ≠ n := by
      intro c hc
      obtain ⟨c', hc', heq⟩ := exists_of_mem_sortedChildren hc
      exact heq ▸ hne c' hc'
    rw [sortedChildren, child?_insertByName hsorted, child?_sortedChildren m hrest, child?]
    split <;> rfl

/-- The same nodes stand at the same places, their directories in the order of names. -/
theorem get?_sorted {node : HostNode} (h : node.Proper) (place : Place) :
    node.sorted.get? place = (node.get? place).map sorted := by
  induction place generalizing node with
  | nil => rw [get?, get?, Option.map_some]
  | cons n place ih =>
    cases node with
    | directory mode children =>
      rw [sorted, get?, get?, child?_sortedChildren n h]
      cases hc : child? n children with
      | none => rfl
      | some c => exact ih (Proper.child? h hc)
    | _ => rfl

theorem sorted_eq_file {node : HostNode} {i : Nat} : node.sorted = .file i ↔ node = .file i := by
  cases node <;> simp [sorted]

/-! ## Directories in order -/

section

variable {children : List (Name × HostNode)}

/-- The nodes below a directory in the order in which they are loaded. -/
def loadOrder (children : List (Name × HostNode)) : List (Location × HostNode) :=
  listingChildren [] (sortedChildren children)

theorem pairwise_loadOrder (h : ProperChildren children) :
    (loadOrder children).Pairwise fun a b => compare a.1 b.1 = .lt :=
  pairwise_listingChildren _ [] (orderedChildren_sortedChildren children h)

theorem mem_loadOrder (mode : Nat) (h : ProperChildren children) {l : Location} {node' : HostNode} :
    (l, node') ∈ loadOrder children ↔ ∃ (place : Place) (node : HostNode), place ≠ [] ∧
      l = place.location ∧ (directory mode children).get? place = some node ∧
      node.sorted = node' := by
  have hproper : ProperChildren (sortedChildren children) :=
    (orderedChildren_sortedChildren children h).proper
  rw [loadOrder, mem_listingChildren _ hproper]
  have hget : ∀ (n : Name) (place : Place),
      ((child? n (sortedChildren children)).bind (·.get? place))
        = ((directory mode children).get? (n :: place)).map sorted := by
    intro n place
    have hdirectory : (directory mode children).Proper := h
    have hsorted := get?_sorted hdirectory (n :: place)
    rwa [sorted, get?] at hsorted
  constructor
  · rintro ⟨n, place, hl, hx⟩
    rw [hget] at hx
    obtain ⟨node, hnode, hsorted⟩ := Option.map_eq_some_iff.1 hx
    exact ⟨n :: place, node, List.cons_ne_nil _ _, hl, hnode, hsorted⟩
  · rintro ⟨place, node, hnil, hl, hnode, hsorted⟩
    cases place with
    | nil => exact absurd rfl hnil
    | cons n place => exact ⟨n, place, hl, by rw [hget, hnode, Option.map_some, hsorted]⟩

theorem mem_loadOrder_file (mode : Nat) (h : ProperChildren children) {place : Place} {i : Nat} :
    (place.location, .file i) ∈ loadOrder children ↔
      (directory mode children).get? place = some (.file i) := by
  rw [mem_loadOrder mode h]
  constructor
  · rintro ⟨place', node, -, hl, hnode, hsorted⟩
    rw [Place.location_inj hl, hnode, sorted_eq_file.1 hsorted]
  · intro hnode
    refine ⟨place, .file i, ?_, rfl, hnode, rfl⟩
    rintro rfl
    simp [get?] at hnode

end

end HostNode

end ImageLayer
