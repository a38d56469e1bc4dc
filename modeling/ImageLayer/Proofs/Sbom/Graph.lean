import ImageLayer.Sbom.CycloneDx
import ImageLayer.Sbom.Spdx
/-!
The graph that a bill of materials describes.

A build writes bills in two formats, and both have to tell the same: which packages there are, and what is
contained in what. `same_graph`, the main statement, says that they do, for all that can be known of a build and
for all packages. It is about what is written, and not about the data that it is written from.

To this end each format has a reader here, which knows the format alone and nothing of how documents are made
(`Spdx.graph?`, `CycloneDx.graph?`). A reader takes JSON apart and gives a `Graph`: the nodes with what they are
known under, the edges of containment, the identifiers that the document refers to, and what it is about. It
finds nothing in JSON of any other form.

Sections:

* Reading JSON, member by member. Lists are read if all of their elements are (`mapM_map_eq_some`).
* Graphs. Identifiers mean something within one document only, so that graphs of two documents are compared by
  what nodes are known under (`Node.content`) and by the places of the nodes that an edge is between
  (`Graph.edgeAt?`).
* Reading SPDX, and reading CycloneDX. Each reader reads back what is written (`Spdx.graph?_toJson`,
  `CycloneDx.graph?_toJson`). Most of that is by computation. What is left is the members that may be left out
  (`lookup_unless`), and lists.
* The graph of both formats. `Graph.Shows` says that a graph has given nodes and edges between given places, and
  refers to nothing else. Both graphs show the same (`spdx_shows`, `cycloneDx_shows`).

In the one format containment is a list of relationships, in the other each component lists what it depends on.
The order of edges is the same all the same, as an image that is known contains the layer and the layer contains
the packages: `Graph.places` says so with numbers.
-/

namespace ImageLayer

/-! ## Reading JSON -/

namespace Json

/-! A reader finds nothing where there is JSON of another form than it reads. -/

def member? (name : String) : Json → Option Json
  | .object members => members.lookup name
  | _ => none

def text? : Json → Option String
  | .text s => some s
  | _ => none

def elements? : Json → Option (List Json)
  | .array vs => some vs
  | _ => none

def textAt? (name : String) (v : Json) : Option String := v.member? name >>= text?

def elementsAt? (name : String) (v : Json) : Option (List Json) := v.member? name >>= elements?

def textsAt? (name : String) (v : Json) : Option (List String) := do
  (← v.elementsAt? name).mapM text?

end Json

/-- Reading what was written for each element of a list. -/
theorem mapM_map_eq_some {α β γ : Type} {read : β → Option γ} {write : α → β} {f : α → γ}
    (h : ∀ a, read (write a) = some (f a)) (l : List α) : (l.map write).mapM read = some (l.map f) := by
  induction l with
  | nil => rfl
  | cons a l ih =>
    rw [List.map_cons, List.mapM_cons, h, ih]
    rfl

theorem Json.textsAt?_eq_some {name : String} {v : Json} {values : List String}
    (h : v.member? name = some (.texts values)) : v.textsAt? name = some values := by
  have hread : ∀ s : String, text? (.text s) = some (id s) := fun _ => rfl
  have htexts := mapM_map_eq_some hread values
  rw [List.map_id] at htexts
  rw [textsAt?, elementsAt?, h]
  exact htexts

/-! ## Graphs -/

namespace Sbom

/-- A node of a document, under an identifier that only the document knows. -/
structure Node where
  id : String
  name : String
  /-- Empty if none is given. -/
  version : String
  locator : String
  deriving DecidableEq, Repr

/-- What a node is known under outside of the document. -/
def Node.content (n : Node) : String × String × String := (n.name, n.version, n.locator)

/-- What a document describes. -/
structure Graph where
  /-- Identifiers of what the document is about. -/
  subjects : List String
  /-- The nodes, in order. -/
  nodes : List Node
  /-- Identifiers of a node and of one that it contains, in order. -/
  edges : List (String × String)
  /-- All identifiers that say what contains what. -/
  references : List String
  deriving DecidableEq, Repr

namespace Graph

/-- A graph that refers to nothing but its nodes. -/
def Closed (g : Graph) : Prop := ∀ id ∈ g.references, id ∈ g.nodes.map Node.id

/-- The identifiers of the nodes at two places. -/
def edgeAt? (g : Graph) (places : Nat × Nat) : Option (String × String) := do
  return ((← g.nodes[places.1]?).id, (← g.nodes[places.2]?).id)

/-- The places of the nodes of which one contains the other: the image, if there is one, is first and
contains the layer behind it, which contains the packages behind that. -/
def places (image : Bool) (packages : Nat) : List (Nat × Nat) :=
  if image then (0, 1) :: (List.range packages).map fun i => (1, i + 2)
  else (List.range packages).map fun i => (0, i + 1)

/-- The edges from a node to those behind it. -/
theorem map_edgeAt?_range {g : Graph} {before parts : List Node} {layer : Node}
    (h : g.nodes = before ++ layer :: parts) :
    (List.range parts.length).map (fun i => g.edgeAt? (before.length, i + (before.length + 1)))
      = parts.map fun p => some (layer.id, p.id) := by
  refine List.ext_getElem? fun i => ?_
  rw [List.getElem?_map, List.getElem?_map]
  by_cases hi : i < parts.length
  · have hlayer : g.nodes[before.length]? = some layer := by simp [h]
    have hpart : g.nodes[i + (before.length + 1)]? = some parts[i] := by
      rw [h, List.getElem?_append_right (by omega)]
      simp [show i + (before.length + 1) - before.length = i + 1 by omega, hi]
    simp [hi, edgeAt?, hlayer, hpart]
  · rw [List.getElem?_eq_none (by simpa using hi), List.getElem?_eq_none (by simpa using hi)]
    rfl

theorem map_edgeAt?_places {g : Graph} {image? : Option Node} {layer : Node} {parts : List Node}
    (h : g.nodes = image?.toList ++ layer :: parts) :
    (places image?.isSome parts.length).map g.edgeAt?
      = (image?.toList.map fun image => some (image.id, layer.id)) ++
          parts.map fun p => some (layer.id, p.id) := by
  have hparts := map_edgeAt?_range h
  cases image? with
  | none => simpa [places, Function.comp_def] using hparts
  | some image =>
    have hfirst : g.edgeAt? (0, 1) = some (image.id, layer.id) := by simp [edgeAt?, h]
    simpa [places, Function.comp_def, hfirst] using hparts

end Graph

end Sbom

open Sbom

/-! ## Reading SPDX -/

namespace Spdx

/-- The locator of a node stands behind its first reference of the type `purl`. -/
def readLocator? (v : Json) : Option String := do
  let refs ← v.elementsAt? "externalRefs"
  let purl ← refs.find? fun ref => ref.textAt? "referenceType" = some "purl"
  purl.textAt? "referenceLocator"

def readNode? (v : Json) : Option Sbom.Node := do
  return ⟨← v.textAt? "SPDXID", ← v.textAt? "name", ← v.textAt? "versionInfo", ← readLocator? v⟩

/-- The type of a relationship, and the identifiers of its sides. -/
def readRelationship? (v : Json) : Option (String × String × String) := do
  return (← v.textAt? "relationshipType", ← v.textAt? "spdxElementId", ← v.textAt? "relatedSpdxElement")

/-- Reads the graph of a document. -/
def graph? (v : Json) : Option Graph := do
  let relationships ← (← v.elementsAt? "relationships").mapM readRelationship?
  return {
    subjects := ← v.textsAt? "documentDescribes"
    nodes := ← (← v.elementsAt? "packages").mapM readNode?
    edges := (relationships.filter (·.1 = "CONTAINS")).map Prod.snd
    references := relationships.flatMap fun r => [r.2.1, r.2.2] }

def Node.graphNode (n : Node) : Sbom.Node := ⟨n.id, n.name, n.version, n.locator.text⟩

/-- The graph of a document. -/
def Document.graph (d : Document) : Graph where
  subjects := d.describes
  nodes := d.nodes.map Node.graphNode
  edges := d.containments.map fun c => (c.outer, c.inner)
  references := d.containments.flatMap fun c => [c.outer, c.inner]

theorem readNode?_toJson (n : Node) : readNode? n.toJson = some n.graphNode := rfl

theorem readRelationship?_toJson (c : Containment) :
    readRelationship? c.toJson = some ("CONTAINS", c.outer, c.inner) := rfl

theorem graph?_toJson (d : Document) : graph? d.toJson = some d.graph := by
  have hdescribes : d.toJson.textsAt? "documentDescribes" = some d.describes :=
    Json.textsAt?_eq_some rfl
  have hnodes : d.toJson.elementsAt? "packages" = some (d.nodes.map Node.toJson) := rfl
  have hcontainments :
      d.toJson.elementsAt? "relationships" = some (d.containments.map Containment.toJson) := rfl
  simp only [graph?, hdescribes, hnodes, hcontainments, Option.bind_eq_bind, Option.bind_some,
    mapM_map_eq_some readNode?_toJson, mapM_map_eq_some readRelationship?_toJson]
  -- The program writes no relationships of any other type.
  have hall : (d.containments.map fun c => ("CONTAINS", c.outer, c.inner)).filter (·.1 = "CONTAINS")
      = d.containments.map fun c => ("CONTAINS", c.outer, c.inner) :=
    List.filter_eq_self.2 fun r hr => by
      obtain ⟨c, -, rfl⟩ := List.mem_map.1 hr
      rfl
  rw [hall, List.map_map, List.flatMap_map]
  rfl

end Spdx

/-! ## Reading CycloneDX -/

namespace CycloneDx

/-- A component without a version has the empty one. -/
def readComponent? (v : Json) : Option Sbom.Node := do
  return ⟨← v.textAt? "bom-ref", ← v.textAt? "name", (v.textAt? "version").getD "", ← v.textAt? "purl"⟩

/-- The identifier of a component, and those of the components that it contains. -/
def readDependency? (v : Json) : Option (String × List String) := do
  return (← v.textAt? "ref", ← v.textsAt? "dependsOn")

/-- Reads the graph of a bill. -/
def graph? (v : Json) : Option Graph := do
  let subject ← readComponent? (← (← v.member? "metadata").member? "component")
  let components ← (← v.elementsAt? "components").mapM readComponent?
  let dependencies ← (← v.elementsAt? "dependencies").mapM readDependency?
  return {
    subjects := [subject.id]
    nodes := subject :: components
    edges := dependencies.flatMap fun d => d.2.map fun on => (d.1, on)
    references := dependencies.flatMap fun d => d.1 :: d.2 }

def Component.graphNode (c : Component) : Sbom.Node := ⟨c.locator, c.name, c.version, c.locator⟩

/-- The graph of a bill. -/
def Bill.graph (b : Bill) : Graph where
  subjects := [b.subject.locator]
  nodes := (b.subject :: b.components).map Component.graphNode
  edges := b.dependencies.flatMap fun d => d.on.map fun on => (d.of, on)
  references := b.dependencies.flatMap fun d => d.of :: d.on

/-- What is found in a member that may be left out. -/
theorem lookup_unless (key name : String) (absent : Bool) (v : Json) :
    (if absent then [] else [(name, v)]).lookup key
      = if key = name ∧ absent = false then some v else none := by
  cases absent with
  | true => simp
  | false =>
    by_cases hkey : key = name
    · simp [hkey]
    · simp [List.lookup_cons, beq_eq_false_iff_ne.2 hkey, hkey]

theorem readComponent?_toJson (c : Component) : readComponent? c.toJson = some c.graphNode := by
  have hid : c.toJson.textAt? "bom-ref" = some c.locator := rfl
  have hname : c.toJson.textAt? "name" = some c.name := rfl
  have hversion : (c.toJson.textAt? "version").getD "" = c.version := by
    simp only [Json.textAt?, Json.member?, Component.toJson, member, List.lookup_append, lookup_unless]
    by_cases hempty : c.version = "" <;> simp [List.lookup_cons, hempty, Json.text?]
  have hpurl : c.toJson.textAt? "purl" = some c.locator := by
    simp only [Json.textAt?, Json.member?, Component.toJson, member, List.lookup_append, lookup_unless]
    simp [List.lookup_cons, Json.text?]
  simp [readComponent?, hid, hname, hversion, hpurl, Component.graphNode]

theorem readDependency?_toJson (d : Dependency) : readDependency? d.toJson = some (d.of, d.on) := by
  have hof : d.toJson.textAt? "ref" = some d.of := rfl
  have hon : d.toJson.textsAt? "dependsOn" = some d.on := Json.textsAt?_eq_some rfl
  simp [readDependency?, hof, hon]

theorem graph?_toJson (b : Bill) : graph? b.toJson = some b.graph := by
  obtain ⟨metadata, hmetadata, hsubject⟩ : ∃ metadata, b.toJson.member? "metadata" = some metadata ∧
      metadata.member? "component" = some b.subject.toJson := ⟨_, rfl, rfl⟩
  have hcomponents :
      b.toJson.elementsAt? "components" = some (b.components.map Component.toJson) := rfl
  have hdependencies :
      b.toJson.elementsAt? "dependencies" = some (b.dependencies.map Dependency.toJson) := rfl
  simp only [graph?, hmetadata, hsubject, hcomponents, hdependencies, readComponent?_toJson,
    Option.bind_eq_bind, Option.bind_some, mapM_map_eq_some readComponent?_toJson,
    mapM_map_eq_some readDependency?_toJson]
  rw [List.flatMap_map, List.flatMap_map]
  rfl

end CycloneDx

/-! ## The graph of both formats -/

namespace Sbom

/-- What the nodes are known under: the image, if its digest is known, the layer and the packages. -/
def contents (m : BuildMetadata) (packages : List Package) : List (String × String × String) :=
  (m.image.knownDigest?.toList.map fun digest =>
      (m.image.name ++ "@" ++ digest, "", (m.image.locator digest).text)) ++
    (m.image.layerName, m.os.version, m.image.layerLocator.text) ::
      packages.map fun p => (p.name, p.version, (m.packageLocator p).text)

/-- A graph with one node for each of the contents and edges between the nodes at the places, which refers to
nothing else. -/
structure Graph.Shows (g : Graph) (contents : List (String × String × String))
    (places : List (Nat × Nat)) : Prop where
  /-- The nodes, in order. -/
  nodes : g.nodes.map Node.content = contents
  /-- The edges, in order. -/
  edges : g.edges.map some = places.map g.edgeAt?
  /-- There is a node for each reference. -/
  closed : g.Closed

theorem Graph.shows_of_edges {g : Graph} {image? : Option Node} {layer : Node} {parts : List Node}
    (hnodes : g.nodes = image?.toList ++ layer :: parts)
    (hedges : g.edges = (image?.toList.map fun image => (image.id, layer.id)) ++
      parts.map fun p => (layer.id, p.id))
    (hreferences : ∀ id ∈ g.references, id = layer.id ∨ ∃ edge ∈ g.edges, id = edge.1 ∨ id = edge.2) :
    g.Shows ((image?.toList ++ layer :: parts).map Node.content)
      (places image?.isSome parts.length) := by
  refine ⟨by rw [hnodes], ?_, fun id hid => ?_⟩
  · rw [map_edgeAt?_places hnodes, hedges, List.map_append, List.map_map, List.map_map]
    rfl
  · -- The layer is a node also where no edge says so.
    have hlayer : layer.id ∈ g.nodes.map Node.id := by simp [hnodes]
    rcases hreferences id hid with rfl | ⟨edge, hedge, hside⟩
    · exact hlayer
    · rw [hedges, List.mem_append, List.mem_map, List.mem_map] at hedge
      obtain ⟨n, hn, rfl⟩ | ⟨n, hn, rfl⟩ := hedge
      · obtain rfl | rfl := hside
        · exact List.mem_map_of_mem (hnodes ▸ List.mem_append_left _ hn)
        · exact hlayer
      · obtain rfl | rfl := hside
        · exact hlayer
        · exact List.mem_map_of_mem
            (hnodes ▸ List.mem_append_right _ (List.mem_cons_of_mem layer hn))

theorem spdx_shows (m : BuildMetadata) (packages : List Package) :
    (Spdx.document m packages).graph.Shows (contents m packages)
      (Graph.places m.image.knownDigest?.isSome packages.length) := by
  let image? := m.image.knownDigest?.map fun digest => (Spdx.imageNode m.image digest).graphNode
  let layer := (Spdx.layerNode m).graphNode
  let parts := packages.map fun p => (Spdx.packageNode m layer.id p).graphNode
  have hnodes : (Spdx.document m packages).graph.nodes = image?.toList ++ layer :: parts := by
    unfold Spdx.document Spdx.Document.graph
    cases hdigest : m.image.knownDigest? <;>
      simp [image?, hdigest, layer, parts, Spdx.Node.graphNode]
  have hedges : (Spdx.document m packages).graph.edges
      = (image?.toList.map fun image => (image.id, layer.id)) ++
          parts.map fun p => (layer.id, p.id) := by
    unfold Spdx.document Spdx.Document.graph
    cases hdigest : m.image.knownDigest? <;>
      simp [image?, hdigest, layer, parts, Spdx.Node.graphNode, Function.comp_def]
  have hreferences : ∀ id ∈ (Spdx.document m packages).graph.references,
      id = layer.id ∨ ∃ edge ∈ (Spdx.document m packages).graph.edges, id = edge.1 ∨ id = edge.2 := by
    intro id hid
    obtain ⟨c, hc, hid⟩ := List.mem_flatMap.1 hid
    exact Or.inr ⟨(c.outer, c.inner), List.mem_map_of_mem hc, by simpa using hid⟩
  have hshows := Graph.shows_of_edges hnodes hedges hreferences
  have hcontents : (image?.toList ++ layer :: parts).map Node.content = contents m packages := by
    rw [contents, List.map_append, List.map_cons, List.map_map]
    cases hdigest : m.image.knownDigest? <;> simp only [image?, hdigest] <;> rfl
  rwa [hcontents, Option.isSome_map, List.length_map] at hshows

theorem cycloneDx_shows (m : BuildMetadata) (packages : List Package) :
    (CycloneDx.bill m packages).graph.Shows (contents m packages)
      (Graph.places m.image.knownDigest?.isSome packages.length) := by
  let image? := m.image.knownDigest?.map fun digest =>
    (CycloneDx.imageComponent m.image digest).graphNode
  let layer := (CycloneDx.layerComponent m).graphNode
  let parts := packages.map fun p => (CycloneDx.packageComponent m p).graphNode
  have hnodes : (CycloneDx.bill m packages).graph.nodes = image?.toList ++ layer :: parts := by
    unfold CycloneDx.bill CycloneDx.Bill.graph
    cases hdigest : m.image.knownDigest? <;> simp [image?, hdigest, layer, parts]
  have hedges : (CycloneDx.bill m packages).graph.edges
      = (image?.toList.map fun image => (image.id, layer.id)) ++
          parts.map fun p => (layer.id, p.id) := by
    unfold CycloneDx.bill CycloneDx.Bill.graph
    cases hdigest : m.image.knownDigest? <;>
      simp [image?, hdigest, layer, parts, CycloneDx.Component.graphNode, Function.comp_def]
  have hreferences : ∀ id ∈ (CycloneDx.bill m packages).graph.references,
      id = layer.id ∨ ∃ edge ∈ (CycloneDx.bill m packages).graph.edges, id = edge.1 ∨ id = edge.2 := by
    intro id hid
    obtain ⟨d, hd, hid⟩ := List.mem_flatMap.1 hid
    rcases List.mem_cons.1 hid with rfl | hon
    · -- The layer is listed even if it contains nothing.
      unfold CycloneDx.bill at hd ⊢
      cases hdigest : m.image.knownDigest? with
      | none =>
        simp only [hdigest, List.mem_singleton] at hd
        exact Or.inl (hd ▸ rfl)
      | some digest =>
        simp only [hdigest, List.mem_cons, List.not_mem_nil, or_false] at hd
        rcases hd with rfl | rfl
        · refine Or.inr ⟨(_, layer.id), List.mem_flatMap.2 ⟨_, List.mem_cons_self .., ?_⟩, Or.inl rfl⟩
          exact List.mem_cons_self ..
        · exact Or.inl rfl
    · exact Or.inr ⟨(d.of, id), List.mem_flatMap.2 ⟨d, hd, List.mem_map_of_mem hon⟩, Or.inr rfl⟩
  have hshows := Graph.shows_of_edges hnodes hedges hreferences
  have hcontents : (image?.toList ++ layer :: parts).map Node.content = contents m packages := by
    rw [contents, List.map_append, List.map_cons, List.map_map]
    cases hdigest : m.image.knownDigest? <;> simp only [image?, hdigest] <;> rfl
  rwa [hcontents, Option.isSome_map, List.length_map] at hshows

/-- An SPDX document is about its first node. -/
theorem subjects_document (m : BuildMetadata) (packages : List Package) :
    ∃ first, (Spdx.document m packages).graph.nodes.head? = some first ∧
      (Spdx.document m packages).graph.subjects = [first.id] := by
  unfold Spdx.document
  cases m.image.knownDigest? <;> exact ⟨_, rfl, rfl⟩

/-- Both documents about a build can be read, and describe one graph: the same nodes in the same order, and
containment between the nodes at the same places. Neither refers to anything but its nodes, and the SPDX
document is about the first of them. -/
theorem same_graph (m : BuildMetadata) (packages : List Package) :
    ∃ s c, Spdx.graph? (Spdx.document m packages).toJson = some s ∧
      CycloneDx.graph? (CycloneDx.bill m packages).toJson = some c ∧
      s.nodes.map Node.content = c.nodes.map Node.content ∧
      (∃ first, s.nodes.head? = some first ∧ s.subjects = [first.id]) ∧
      s.Shows (contents m packages) (Graph.places m.image.knownDigest?.isSome packages.length) ∧
      c.Shows (contents m packages) (Graph.places m.image.knownDigest?.isSome packages.length) := by
  have hspdx := spdx_shows m packages
  have hcycloneDx := cycloneDx_shows m packages
  exact ⟨_, _, Spdx.graph?_toJson _, CycloneDx.graph?_toJson _,
    hspdx.nodes.trans hcycloneDx.nodes.symm, subjects_document m packages, hspdx, hcycloneDx⟩

/-- An image, its layer and one package in it. -/
example : Graph.places true 1 = [(0, 1), (1, 2)] := by decide

end Sbom

end ImageLayer
