import ImageLayer.Pass.SharedObjects
import ImageLayer.Proofs.Elf.Soname
import ImageLayer.Proofs.Tree.Children
import ImageLayer.Proofs.Tree.Detour
/-!
Where the links of shared objects are made.

A shared object says in its contents under which name programs look for it. For each that is found in a library
directory under another name, a symbolic link of that name is made, which points to the file beside it. The name
is whatever stands in the file. `linkSonames_inPlace_iff`, the main statement, says that every link is made for
such an object, and that all links are where they should be and lead to their objects exactly if every one of
the names is a proper name. One with a slash or of dots leads out of the directory, away from the file that
the link is for (`linkSonames_out_of_directory`).

Sections:

* Reading a directory. Nothing changes by reading, and what is found is a shared object in the directory
  (`sharedObjectIn_of_sonameIn`).
* Links of one directory. `Tree.Linked` relates the trees before and after, with the objects that links may be
  for and the links that were made. It holds of a single link (`linked_of_symlink`) and is kept by making more
  (`Tree.Linked.append`), so that it holds of the directory (`linkSonamesIn_eq_ok`).
* Links of all directories. `Tree.LinkedAll` forgets which directory it was and remembers, for each link, the
  tree in between in which its object was found. `Tree.LinkedAll.inPlace` says where a link leads in the end.

The path of a library directory is followed anew for each link, in a tree that has the links made so far, and it
may go over the name of one of them, as in `linkSonames_inPlace_behind_link`. So the directory need not be found
any more. But it is not found elsewhere either (`Tree.Leads.link`): a path that goes over the name of a link now
goes to the file beside it, and no further. This takes a closed tree, in which every entry is in a directory and
nothing is below the name before the link is made.

That locations can be spelled (`Tree.KeysSpelled`) makes the names that a directory lists proper names, so that
a link written with one of them leads to the entry of that name.
-/

namespace ImageLayer

/-- In a library directory, which leads to `home`, there is a shared object of this name and this soname. -/
structure Tree.SharedObjectIn (t : Tree) (directory : Path) (home : Location) (name soname : String) :
    Prop where
  /-- The path of the directory leads there. -/
  leads : t.locate? true directory.parts = some home
  /-- There is a directory. -/
  isDirectory : t.isDirectoryAt home
  /-- The name can be spelled. -/
  proper : Name.Proper (Bytes.ofString name)
  /-- There is a file of this name, or a hard link to one. -/
  file : ∃ e, t.get? (home ++ [.name (Bytes.ofString name)]) = some e ∧ SharedObject.hasContents e
  /-- It contains its soname. -/
  soname : ∃ contents, t.contentsAt (directory.join (.ofString name)) = .ok contents ∧
    Elf.soname? contents = some soname

/-- A symbolic link that was made for a shared object. -/
structure SonameLink where
  /-- The library directory. -/
  directory : Path
  /-- Where that led. -/
  home : Location
  /-- The name of the shared object. -/
  name : String
  /-- Its soname. -/
  soname : String
  /-- Where the link was made. -/
  place : Location

namespace SonameLink

/-- The link in its place. -/
def entry (link : SonameLink) : Location × Entry := (link.place, .symlink (.ofString link.name))

/-- The link has the soname as its name, stands in the library directory and leads to the shared object. -/
structure InPlace (link : SonameLink) (t : Tree) : Prop where
  /-- It is beside the shared object. -/
  place : link.place = link.home ++ [.name (Bytes.ofString link.soname)]
  /-- It leads to the shared object. -/
  leads : t.locate? true link.place = some (link.home ++ [.name (Bytes.ofString link.name)])

end SonameLink

namespace Edit

/-! ## Reading a directory -/

/-- What is found in a file that is read, and the tree stays as it is. -/
theorem sonameIn_eq_ok {directory : Path} {name : Name} {t t' : Tree} {r : Option (String × String)}
    (h : sonameIn directory name t = .ok r t') :
    t' = t ∧ ∀ soname text, r = some (soname, text) → name = Bytes.ofString text ∧
      (∃ e, t.entryAt (directory.join ⟨name⟩) = .ok e ∧ SharedObject.hasContents e) ∧
      ∃ contents, t.contentsAt (directory.join ⟨name⟩) = .ok contents ∧
        Elf.soname? contents = some soname := by
  cases hdecode : Utf8.decode? name with
  | none =>
    simp only [sonameIn, hdecode] at h
    obtain ⟨rfl, rfl⟩ := of_pure_eq_ok h
    exact ⟨rfl, fun _ _ hr => by cases hr⟩
  | some text =>
    simp only [sonameIn, hdecode] at h
    split at h
    · obtain ⟨rfl, rfl⟩ := of_pure_eq_ok h
      exact ⟨rfl, fun _ _ hr => by cases hr⟩
    · obtain ⟨e, _, hask, hrest⟩ := of_bind_eq_ok h
      obtain ⟨hentry, rfl⟩ := of_ask_eq_ok hask
      split at hrest
      · obtain ⟨rfl, rfl⟩ := of_pure_eq_ok hrest
        exact ⟨rfl, fun _ _ hr => by cases hr⟩
      · rename_i hcontents
        obtain ⟨contents, _, hread, hpure⟩ := of_bind_eq_ok hrest
        obtain ⟨hread, rfl⟩ := of_consult_eq_ok (of_inContext_eq_ok hread)
        obtain ⟨rfl, rfl⟩ := of_pure_eq_ok hpure
        refine ⟨rfl, fun soname text' hr => ?_⟩
        obtain ⟨_, hother, hpair⟩ := Option.map_eq_some_iff.1 hr
        obtain ⟨rfl, rfl⟩ := Prod.mk.inj hpair
        exact ⟨Utf8.decode?_eq_some_iff.1 hdecode, ⟨e, hentry, by simpa using hcontents⟩, contents, hread,
          (Option.filter_eq_some_iff.1 hother).1⟩

/-- Readings in order leave the tree as it is, and each of them says what it finds there. -/
theorem mapM_eq_ok {α β : Type} {f : α → Edit β} (hf : ∀ a t b t', f a t = .ok b t' → t' = t)
    {as : List α} {bs : List β} {t t' : Tree} (h : as.mapM f t = .ok bs t') :
    t' = t ∧ ∀ b ∈ bs, ∃ a ∈ as, f a t = .ok b t := by
  induction as generalizing bs t t' with
  | nil =>
    rw [List.mapM_nil] at h
    obtain ⟨rfl, rfl⟩ := of_pure_eq_ok h
    exact ⟨rfl, fun _ hb => absurd hb List.not_mem_nil⟩
  | cons a as ih =>
    rw [List.mapM_cons] at h
    obtain ⟨b, _, hb, hmore⟩ := of_bind_eq_ok h
    obtain rfl := hf _ _ _ _ hb
    obtain ⟨bs', _, hbs, hpure⟩ := of_bind_eq_ok hmore
    obtain ⟨rfl, hall⟩ := ih hbs
    obtain ⟨rfl, rfl⟩ := of_pure_eq_ok hpure
    refine ⟨rfl, fun b' hb' => ?_⟩
    rcases List.mem_cons.1 hb' with rfl | hb'
    · exact ⟨a, List.mem_cons_self, hb⟩
    · obtain ⟨a', ha', heq⟩ := hall b' hb'
      exact ⟨a', List.mem_cons_of_mem a ha', heq⟩

/-- What is found in a directory is a shared object in it. -/
theorem sharedObjectIn_of_sonameIn {t : Tree} (hkeys : ∀ x ∈ t.walk, ∀ p ∈ x.1, p.Spelled) {directory : Path}
    {home : Location} (hloc : t.locate? true directory.parts = some home) (hdir : t.isDirectoryAt home)
    {name : Name} {e : Entry} (hget : t.get? (home ++ [.name name]) = some e) {soname text : String}
    (h : sonameIn directory name t = .ok (some (soname, text)) t) :
    t.SharedObjectIn directory home text soname := by
  obtain ⟨rfl, ⟨e', hentry, hcontents⟩, hsoname⟩ := (sonameIn_eq_ok h).2 soname text rfl
  have hproper : Name.Proper (Bytes.ofString text) := by
    rw [Tree.get?_of_ne_nil t (by simp)] at hget
    exact hkeys _ (Tree.mem_walk.2 hget) (.name _) (List.mem_append_right home (List.mem_singleton.2 rfl))
  have hchild : t.locate? false (directory.join ⟨Bytes.ofString text⟩).parts
      = some (home ++ [.name (Bytes.ofString text)]) := by
    rw [Path.parts_join_name _ hproper]
    exact Tree.locate?_concat hloc (Or.inl rfl)
  rw [Tree.entryAt_of_locate? hchild, hget, Option.some.injEq] at hentry
  exact ⟨hloc, hdir, hproper, ⟨e, hget, hentry ▸ hcontents⟩, hsoname⟩

/-! ## Links of one directory -/

theorem linkSoname_eq_ok {directory : Path} {soname name : String} {t t' : Tree} {k : Nat}
    (h : linkSoname directory soname name t = .ok k t') :
    k = 0 ∧ t' = t ∨ k = 1 ∧ t.symlink (.ofString name) (directory.join (.ofString soname)) = .ok t' := by
  obtain ⟨_, _, hget, hlink⟩ := of_bind_eq_ok h
  obtain ⟨rfl, rfl⟩ := of_get_eq_ok hget
  split at hlink
  · exact Or.inl (of_pure_eq_ok hlink)
  · obtain ⟨_, _, hchange, hpure⟩ := of_bind_eq_ok hlink
    obtain ⟨rfl, rfl⟩ := of_pure_eq_ok hpure
    exact Or.inr ⟨rfl, of_change_eq_ok (of_inContext_eq_ok hchange)⟩

end Edit

/-- A directory is still found where it was, if it is found. -/
def Tree.Leads (t : Tree) (directory : Path) (home : Location) : Prop :=
  ∀ l, t.locate? true directory.parts = some l → l = home

/-- `t'` is `t` with links for some shared objects of a directory, which leads to `home`. -/
structure Tree.Linked (t : Tree) (directory : Path) (home : Location) (objects : List (String × String))
    (links : List SonameLink) (t' : Tree) : Prop where
  /-- The links are what is new. -/
  grows : t.Grows t' (links.map SonameLink.entry)
  /-- They stand in places that can be spelled. -/
  proper : ∀ link ∈ links, link.place.Proper
  /-- Each is for one of the shared objects. -/
  object : ∀ link ∈ links, link.directory = directory ∧ link.home = home ∧
    (link.soname, link.name) ∈ objects
  /-- A closed tree stays closed. -/
  closed : t.ParentClosed → t'.ParentClosed
  /-- With proper names they stand in the directory, which stays where it is. -/
  places : t.ParentClosed → t.Leads directory home →
    (∀ x ∈ objects, Name.Proper (Bytes.ofString x.2) ∧
      ∃ e, t.get? (home ++ [.name (Bytes.ofString x.2)]) = some e ∧ SharedObject.hasContents e) →
    (∀ link ∈ links, Name.Proper (Bytes.ofString link.soname)) →
    t'.Leads directory home ∧
      ∀ link ∈ links, link.place = home ++ [.name (Bytes.ofString link.soname)]

section

variable {t t₁ t' : Tree} {directory : Path} {home : Location} {objects : List (String × String)}
  {links more : List SonameLink}

theorem Tree.Linked.refl (t : Tree) (directory : Path) (home : Location) (objects : List (String × String)) :
    t.Linked directory home objects [] t where
  grows := .refl t
  proper _ h := absurd h List.not_mem_nil
  object _ h := absurd h List.not_mem_nil
  closed h := h
  places _ hleads _ _ := ⟨hleads, fun _ h => absurd h List.not_mem_nil⟩

theorem Tree.Linked.append (h : t.Linked directory home objects links t₁)
    (h' : t₁.Linked directory home objects more t') : t.Linked directory home objects (links ++ more) t' where
  grows := by
    rw [List.map_append]
    exact h.grows.append h'.grows
  proper link hlink := (List.mem_append.1 hlink).elim (h.proper link) (h'.proper link)
  object link hlink := (List.mem_append.1 hlink).elim (h.object link) (h'.object link)
  closed hclosed := h'.closed (h.closed hclosed)
  places hclosed hleads hobjects hproper := by
    obtain ⟨hleads₁, hplaces⟩ := h.places hclosed hleads hobjects fun link hlink =>
      hproper link (List.mem_append_left more hlink)
    obtain ⟨hleads', hplaces'⟩ := h'.places (h.closed hclosed) hleads₁
      (fun x hx => ⟨(hobjects x hx).1, (hobjects x hx).2.imp fun e he => ⟨h.grows.keeps he.1, he.2⟩⟩)
      fun link hlink => hproper link (List.mem_append_right links hlink)
    exact ⟨hleads', fun link hlink => (List.mem_append.1 hlink).elim (hplaces link) (hplaces' link)⟩

theorem SharedObject.plain_of_hasContents {e : Entry} (h : SharedObject.hasContents e) :
    e.isSymlink = false ∧ e.isDirectory = false := by
  unfold SharedObject.hasContents at h
  unfold Entry.isSymlink Entry.isDirectory
  split at h <;> simp_all

/-- A name in the directory, for a link to an entry beside it that is neither a link nor a directory: the
directory stays where it is. -/
theorem Tree.Leads.link {s n : Name} {e : Entry} (hclosed : t.ParentClosed)
    (hloc : t.locate? true directory.parts = some home) (hvacant : t.get? (home ++ [.name s]) = none)
    (hget : t.get? (home ++ [.name n]) = some e) (hplain : e.isSymlink = false ∧ e.isDirectory = false)
    (hn : n.Proper) : (t.set (home ++ [.name s]) (.symlink ⟨n⟩)).Leads directory home := by
  intro l hl
  have hneighbour := hclosed.neighbour hvacant hget hplain.1 hplain.2 hn
  have hbeside := hneighbour.resolve (Tree.resolve_eq_ok_iff.2 hloc) (Tree.resolve_eq_ok_iff.2 hl)
  refine hbeside.eq_or_below.resolve_right fun hbelow => ?_
  have hle := hbelow.length_le
  rw [List.length_append, List.length_singleton] at hle
  exact absurd hle (Nat.not_succ_le_self _)

/-- One link, wherever its name leads. -/
theorem linked_of_symlink {soname name : String} (hobject : (soname, name) ∈ objects)
    (h : t.symlink (.ofString name) (directory.join (.ofString soname)) = .ok t') :
    ∃ place, t.Linked directory home objects [⟨directory, home, name, soname, place⟩] t' := by
  have hspelled : ∀ p ∈ (directory.join (.ofString soname)).parts, p.Spelled := fun _ =>
    Path.spelled_of_mem_parts
  obtain ⟨parent, last, hnew, hproper, hdir, hvacant, rfl⟩ := Tree.insertNew_eq_ok hspelled h
  refine ⟨parent ++ [.name last], Tree.grows_set hvacant _, by simpa using hproper, by simpa using hobject,
    fun hclosed => hclosed.set (by simp [hvacant]) (by simpa using hdir) _, ?_⟩
  intro hclosed hleads hobjects hsonames
  have hsoname : Name.Proper (Bytes.ofString soname) := hsonames _ List.mem_cons_self
  obtain ⟨parent', n, hlast, hloc, -, hplace⟩ := Tree.resolveNew_eq_ok hnew
  rw [Path.ofString, Path.parts_join_name _ hsoname] at hlast hloc
  rw [List.dropLast_concat] at hloc
  rw [List.getLast?_concat, Option.some.injEq, Part.name.injEq] at hlast
  subst hlast
  obtain rfl := hleads parent' hloc
  rw [hplace] at hvacant ⊢
  obtain ⟨hname, e, hget, hcontents⟩ := hobjects _ hobject
  refine ⟨.link hclosed hloc hvacant hget (SharedObject.plain_of_hasContents hcontents) hname, ?_⟩
  simp

/-- Steps that make links and count them, one after the other. -/
theorem exists_of_foldlM {α : Type} {f : α → Edit Nat} {P : Tree → List SonameLink → Tree → Prop}
    (refl : ∀ t, P t [] t)
    (append : ∀ {t t₁ t' links more}, P t links t₁ → P t₁ more t' → P t (links ++ more) t') {as : List α}
    (hf : ∀ a ∈ as, ∀ t k t', f a t = .ok k t' → ∃ links, k = links.length ∧ P t links t') {made k : Nat}
    (h : (as.foldlM (fun made a => return made + (← f a)) made : Edit Nat) t = .ok k t') :
    ∃ links, k = made + links.length ∧ P t links t' := by
  induction as generalizing made t with
  | nil =>
    obtain ⟨rfl, rfl⟩ := Edit.of_pure_eq_ok h
    exact ⟨[], rfl, refl t'⟩
  | cons a as ih =>
    rw [List.foldlM_cons] at h
    obtain ⟨_, t₁, hfirst, hrest⟩ := of_bind_eq_ok h
    obtain ⟨_, _, hone, hpure⟩ := of_bind_eq_ok hfirst
    obtain ⟨rfl, rfl⟩ := Edit.of_pure_eq_ok hpure
    obtain ⟨links, rfl, hlinks⟩ := hf a List.mem_cons_self _ _ _ hone
    obtain ⟨more, rfl, hmore⟩ := ih (fun b hb => hf b (List.mem_cons_of_mem a hb)) hrest
    exact ⟨links ++ more, by rw [List.length_append, Nat.add_assoc], append hlinks hmore⟩

theorem linked_of_linkSoname {x : String × String} (hx : x ∈ objects) {k : Nat}
    (h : Edit.linkSoname directory x.1 x.2 t = .ok k t') :
    ∃ links, k = links.length ∧ t.Linked directory home objects links t' := by
  rcases Edit.linkSoname_eq_ok h with ⟨rfl, rfl⟩ | ⟨rfl, hsymlink⟩
  · exact ⟨[], rfl, .refl t' directory home objects⟩
  · obtain ⟨place, hone⟩ : ∃ place, t.Linked directory home objects
        [⟨directory, home, x.2, x.1, place⟩] t' := linked_of_symlink hx hsymlink
    exact ⟨_, rfl, hone⟩

/-- The locations of a tree can be spelled. -/
def Tree.KeysSpelled (t : Tree) : Prop := ∀ x ∈ t.walk, ∀ p ∈ x.1, p.Spelled

/-- The links of one directory, which are for the shared objects that are found in it. -/
theorem linkSonamesIn_eq_ok {k : Nat} (h : Edit.linkSonamesIn directory t = .ok k t') :
    ∃ home objects links, k = links.length ∧ t.Linked directory home objects links t' ∧
      (t.KeysSpelled → ∀ x ∈ objects, t.SharedObjectIn directory home x.2 x.1) := by
  obtain ⟨_, _, hget, hrun⟩ := of_bind_eq_ok h
  obtain ⟨rfl, rfl⟩ := Edit.of_get_eq_ok hget
  split at hrun
  · obtain ⟨rfl, rfl⟩ := Edit.of_pure_eq_ok hrun
    exact ⟨[], [], [], rfl, .refl t' directory [] [], fun _ _ hx => absurd hx List.not_mem_nil⟩
  · obtain ⟨names, _, hlist, hmore⟩ := of_bind_eq_ok hrun
    obtain ⟨hnames, rfl⟩ := Edit.of_ask_eq_ok hlist
    obtain ⟨found, _, hfound, hlink⟩ := of_bind_eq_ok hmore
    obtain ⟨rfl, hfound⟩ := Edit.mapM_eq_ok (fun _ _ _ _ hone => (Edit.sonameIn_eq_ok hone).1) hfound
    obtain ⟨home, hloc, hdir, rfl⟩ := Tree.readDirectory_eq_ok_iff.1 hnames
    obtain ⟨links, hk, hlinks⟩ := exists_of_foldlM (P := fun t links t' =>
        t.Linked directory home (found.filterMap id) links t') (fun t => .refl t _ _ _) .append
      (fun x hx _ _ _ hone => linked_of_linkSoname (x := x) hx hone) hlink
    refine ⟨home, _, links, by rw [hk, Nat.zero_add], hlinks, fun hkeys x hx => ?_⟩
    obtain ⟨name, hname, hread⟩ := hfound _ (by simpa using hx)
    obtain ⟨e, hget⟩ := Tree.mem_children.1 hname
    exact Edit.sharedObjectIn_of_sonameIn hkeys hloc hdir hget hread

/-! ## Links of all directories -/

/-- `t'` is `t` with links for shared objects of library directories. -/
structure Tree.LinkedAll (t : Tree) (links : List SonameLink) (t' : Tree) : Prop where
  /-- The links are what is new. -/
  grows : t.Grows t' (links.map SonameLink.entry)
  /-- They stand in places that can be spelled. -/
  proper : ∀ link ∈ links, link.place.Proper
  /-- A closed tree stays closed. -/
  closed : t.ParentClosed → t'.ParentClosed
  /-- Each is for a shared object, as it was found in between. -/
  found : t.KeysSpelled → ∀ link ∈ links, link.directory ∈ SharedObject.directories ∧
    ∃ between, (∃ before, t.Grows between before) ∧ (∃ after, between.Grows t' after) ∧
      between.SharedObjectIn link.directory link.home link.name link.soname
  /-- With proper names they stand in the directory. -/
  places : t.KeysSpelled → t.ParentClosed → (∀ link ∈ links, Name.Proper (Bytes.ofString link.soname)) →
    ∀ link ∈ links, link.place = link.home ++ [.name (Bytes.ofString link.soname)]

theorem Tree.LinkedAll.refl (t : Tree) : t.LinkedAll [] t where
  grows := .refl t
  proper _ h := absurd h List.not_mem_nil
  closed h := h
  found _ _ h := absurd h List.not_mem_nil
  places _ _ _ _ h := absurd h List.not_mem_nil

theorem Tree.LinkedAll.keysSpelled (h : t.LinkedAll links t') (hkeys : t.KeysSpelled) : t'.KeysSpelled := by
  rintro ⟨l, e⟩ hmem p hp
  have hl : l ≠ [] := List.ne_nil_of_mem hp
  rw [Tree.mem_walk, ← Tree.get?_of_ne_nil t' hl] at hmem
  rcases h.grows.only hmem with hold | hnew
  · rw [Tree.get?_of_ne_nil t hl] at hold
    exact hkeys _ (Tree.mem_walk.2 hold) p hp
  · obtain ⟨link, hlink, heq⟩ := List.mem_map.1 hnew
    obtain ⟨rfl, -⟩ := Prod.mk.inj heq
    exact (h.proper link hlink).spelled p hp

theorem Tree.LinkedAll.append (h : t.LinkedAll links t₁) (h' : t₁.LinkedAll more t') :
    t.LinkedAll (links ++ more) t' where
  grows := by
    rw [List.map_append]
    exact h.grows.append h'.grows
  proper link hlink := (List.mem_append.1 hlink).elim (h.proper link) (h'.proper link)
  closed hclosed := h'.closed (h.closed hclosed)
  found hkeys link hlink := by
    rcases List.mem_append.1 hlink with hlink | hlink
    · obtain ⟨hdirectory, between, hbefore, ⟨_, hafter⟩, hobject⟩ := h.found hkeys link hlink
      exact ⟨hdirectory, between, hbefore, ⟨_, hafter.append h'.grows⟩, hobject⟩
    · obtain ⟨hdirectory, between, ⟨_, hbefore⟩, hafter, hobject⟩ :=
        h'.found (h.keysSpelled hkeys) link hlink
      exact ⟨hdirectory, between, ⟨_, h.grows.append hbefore⟩, hafter, hobject⟩
  places hkeys hclosed hproper link hlink := by
    rcases List.mem_append.1 hlink with hlink | hlink
    · exact h.places hkeys hclosed (fun l hl => hproper l (List.mem_append_left more hl)) link hlink
    · exact h'.places (h.keysSpelled hkeys) (h.closed hclosed)
        (fun l hl => hproper l (List.mem_append_right links hl)) link hlink

theorem linkedAll_of_linkSonamesIn (hdirectory : directory ∈ SharedObject.directories) {k : Nat}
    (h : Edit.linkSonamesIn directory t = .ok k t') :
    ∃ links, k = links.length ∧ t.LinkedAll links t' := by
  obtain ⟨home, objects, links, hk, hlinked, hobjects⟩ := linkSonamesIn_eq_ok h
  refine ⟨links, hk, hlinked.grows, hlinked.proper, hlinked.closed, fun hkeys link hlink => ?_,
    fun hkeys hclosed hproper link hlink => ?_⟩
  · obtain ⟨rfl, rfl, hmem⟩ := hlinked.object link hlink
    exact ⟨hdirectory, t, ⟨_, .refl t⟩, ⟨_, hlinked.grows⟩, hobjects hkeys _ hmem⟩
  · obtain ⟨rfl, rfl, hmem⟩ := hlinked.object link hlink
    have hleads : t.Leads link.directory link.home := fun l hl =>
      Option.some.inj (hl.symm.trans (hobjects hkeys _ hmem).leads)
    exact (hlinked.places hclosed hleads
      (fun x hx => ⟨(hobjects hkeys x hx).proper, (hobjects hkeys x hx).file⟩) hproper).2 link hlink

theorem linkSonames_eq_ok {n : Nat} (h : Edit.linkSonames t = .ok n t') :
    ∃ links, n = links.length ∧ t.LinkedAll links t' := by
  obtain ⟨links, hn, hlinks⟩ := exists_of_foldlM (P := fun t links t' => t.LinkedAll links t') .refl .append
    (fun directory hdirectory _ _ _ hone => linkedAll_of_linkSonamesIn hdirectory hone) h
  exact ⟨links, by rw [hn, Nat.zero_add], hlinks⟩

/-- A link in the directory leads to the shared object beside it. -/
theorem Tree.LinkedAll.inPlace (h : t.LinkedAll links t') (hkeys : t.KeysSpelled) (hclosed : t.ParentClosed)
    {link : SonameLink} (hlink : link ∈ links)
    (hplace : link.place = link.home ++ [.name (Bytes.ofString link.soname)]) : link.InPlace t' := by
  refine ⟨hplace, ?_⟩
  obtain ⟨-, between, -, ⟨_, hafter⟩, hobject⟩ := h.found hkeys link hlink
  obtain ⟨e, he, hcontents⟩ := hobject.file
  have hentry : t'.get? link.place = some (.symlink (.ofString link.name)) :=
    (h.grows.added (List.mem_map_of_mem hlink)).2
  have hproper := h.proper link hlink
  rw [hplace] at hentry hproper ⊢
  rw [Tree.get?_of_ne_nil t' (by simp)] at hentry
  have hlinkAt : t'.linkAt (link.home ++ [.name (Bytes.ofString link.soname)])
      = some ⟨Bytes.ofString link.name⟩ := by
    rw [Tree.linkAt, hentry]
    rfl
  have hhome : link.home.Proper := fun p hp => hproper p (List.mem_append_left _ hp)
  exact ((h.closed hclosed).founded (Tree.mem_walk.2 hentry)).locate?_link hhome hlinkAt rfl hobject.proper
    (hafter.keeps he) (SharedObject.plain_of_hasContents hcontents).1

end

/-- All that linking sonames adds are links for shared objects, each of which was found under its name in a
library directory and contains its soname. In a closed tree they have their sonames as names, stand beside the
shared objects and lead to them exactly if every soname is a proper name. -/
theorem linkSonames_inPlace_iff {t t' : Tree} {n : Nat} (hkeys : ∀ x ∈ t.walk, ∀ p ∈ x.1, p.Spelled)
    (h : Edit.linkSonames t = .ok n t') :
    ∃ links : List SonameLink, n = links.length ∧ t.Grows t' (links.map SonameLink.entry) ∧
      (∀ link ∈ links, link.directory ∈ SharedObject.directories ∧
        ∃ between, (∃ before, t.Grows between before) ∧ (∃ after, between.Grows t' after) ∧
          between.SharedObjectIn link.directory link.home link.name link.soname) ∧
      (t.ParentClosed → ((∀ link ∈ links, link.InPlace t') ↔
        ∀ link ∈ links, Name.Proper (Bytes.ofString link.soname))) := by
  obtain ⟨links, hn, hlinked⟩ := linkSonames_eq_ok h
  refine ⟨links, hn, hlinked.grows, hlinked.found hkeys, fun hclosed => ⟨fun hplaces link hlink => ?_,
    fun hsonames link hlink => ?_⟩⟩
  · have hproper := hlinked.proper link hlink
    rw [(hplaces link hlink).place] at hproper
    exact hproper (.name _) (List.mem_append_right _ (List.mem_singleton.2 rfl))
  · exact hlinked.inPlace hkeys hclosed hlink (hlinked.places hkeys hclosed hsonames link hlink)

theorem Edit.exists_of_count {x : Edit Nat} {t : Tree} {n : Nat}
    (h : (match x t with
      | .ok k _ => k == n
      | .error _ _ => false) = true) : x t = .ok n (x.left t) := by
  unfold Edit.left
  split at h
  · rename_i hx
    rw [hx, eq_of_beq h]
  · cases h

/-- A shared object in a library directory behind a symbolic link, which leads over the name of the new link. -/
theorem linkSonames_inPlace_behind_link :
    let t := Tree.empty.run [.makeDirectories (.ofString "usr/lib") 0o755,
      .symlink (.ofString "usr/lib/x/..") (.ofString "lib"),
      .writeFile (.ofString "lib/a.so") (Elf.sharedObject (Bytes.ofString "x")) 0o755]
    (∀ x ∈ t.walk, ∀ p ∈ x.1, p.Spelled) ∧ t.ParentClosed ∧ ∃ (t' : Tree) (link : SonameLink),
      Edit.linkSonames t = .ok 1 t' ∧ t.Grows t' [link.entry] ∧
        link.place = (Path.ofString "usr/lib/x").parts ∧
        (link.InPlace t' ↔ Name.Proper (Bytes.ofString link.soname)) := by
  intro t
  have hproper : ∀ x ∈ t.walk, x.1.Proper := by decide +kernel
  have hkeys : ∀ x ∈ t.walk, ∀ p ∈ x.1, p.Spelled := fun x hx => (hproper x hx).spelled
  have hclosed : ∀ x ∈ t.walk, t.isDirectoryAt x.1.dropLast := by decide +kernel
  have hrun := Edit.exists_of_count (x := Edit.linkSonames) (t := t) (n := 1) (by decide +kernel)
  obtain ⟨links, hn, hgrows, -, hplaces⟩ := linkSonames_inPlace_iff hkeys hrun
  obtain ⟨link, rfl⟩ := List.length_eq_one_iff.1 hn.symm
  have hmade : (Edit.linkSonames.left t).get? (Path.ofString "usr/lib/x").parts
      = some (.symlink (.ofString "a.so")) := by decide +kernel
  have hentry := (hgrows.only hmade).resolve_left (by decide +kernel)
  have hplace := congrArg Prod.fst (List.mem_singleton.1 hentry)
  exact ⟨hkeys, fun l e hmem => hclosed (l, e) hmem, _, link, hrun, hgrows, hplace.symm,
    by simpa using hplaces fun l e hmem => hclosed (l, e) hmem⟩

/-- A soname that leads out of the library directory: the link is made at the root, and points to nothing. -/
theorem linkSonames_out_of_directory :
    let library : Path := .ofString "lib"
    let file : Path := .ofString "lib/libx.so.1"
    let outside : Path := .ofString "x"
    let t := Tree.empty.run
      [.makeDirectories library 0o755, .writeFile file (Elf.sharedObject (Bytes.ofString "../x")) 0o755]
    t.locate? true library.parts = some library.parts ∧ t.exists? outside = false ∧
      ∃ t', Edit.linkSonames t = .ok 1 t' ∧
        t'.get? outside.parts = some (.symlink (.ofString "libx.so.1")) ∧
        t'.locate? true outside.parts = some (Path.ofString "libx.so.1").parts ∧
        t'.get? (Path.ofString "libx.so.1").parts = none := by
  intro library file outside t
  have hrun := Edit.exists_of_count (x := Edit.linkSonames) (t := t) (n := 1) (by decide +kernel)
  exact ⟨by decide +kernel, by decide +kernel, _, hrun, by decide +kernel, by decide +kernel, by decide +kernel⟩

end ImageLayer
