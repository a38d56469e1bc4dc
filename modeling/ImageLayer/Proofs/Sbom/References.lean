import Mathlib.Data.List.Nodup
import ImageLayer.Proofs.Package.Url
import ImageLayer.Proofs.Sbom.Graph
/-!
When the components of a CycloneDX bill have different references.

In a CycloneDX bill a component is referred to by its locator in written form, a URL that says what the
component is and where it comes from. `nodup_references`, the main statement, says exactly when no two
components have one, the subject of the bill included: no two packages have the same name and version, and the
digest of the image is not that of the layer, if it is known. It says too that the references are those that
stand in the written bill.

Sections:

* Locators of one build. The locators of packages in one build differ in names and versions only, as all else in
  them is the same for all packages. These can be read off a written locator (`text_packageLocator_eq_iff`), and
  so can the digest in that of an image or a layer (`text_locator_eq_iff`). Images and packages have locators of
  different types (`text_locator_ne`). All of this goes through the reader of locators: what is read from a text
  is one locator and no other.
* References of a bill, which are the locators of the image, of the layer and of the packages
  (`references_bill`). Since types differ, the list has no duplicates if its two parts have none.

What the bill says about dependencies is about the image and the layer, and there the digests alone matter.

Names and versions may contain what separates the parts of a locator, and may be empty. Nothing is assumed of
them here, in contrast to identifiers, which do not determine what they were made of.
-/

namespace ImageLayer

open PackageUrl

/-! ## Locators of one build -/

theorem BuildMetadata.text_packageLocator_eq_iff (m : BuildMetadata) {p q : Package} :
    (m.packageLocator p).text = (m.packageLocator q).text ↔ p.name = q.name ∧ p.version = q.version := by
  rw [text_eq_iff]
  · simp [packageLocator, withVersion, nonEmpty?_inj, withNamespace]
  · simp [packageLocator, withVersion, withNamespace]
  · simp [packageLocator, withVersion, withNamespace]
  · simp [packageLocator, withVersion, withNamespace, withQualifier_qualifiers]

theorem ImageInfo.text_locator_eq_iff (image : ImageInfo) {d d' : String} :
    (image.locator d).text = (image.locator d').text ↔ d = d' := by
  rw [text_eq_iff]
  · simp [locator, withVersion, nonEmpty?_inj]
  · simp [locator, withVersion]
  · simp [locator, withVersion]
  · simp [locator, withVersion, withQualifier_qualifiers]

/-- Images and packages have locators of different types. -/
theorem ImageInfo.text_locator_ne (image : ImageInfo) (d : String) (m : BuildMetadata) (p : Package) :
    (image.locator d).text ≠ (m.packageLocator p).text := by
  have himage : (image.locator d).type = "oci" := by simp [locator, withVersion]
  have hpackage : (m.packageLocator p).type = "apk" := by
    simp [BuildMetadata.packageLocator, withVersion, withNamespace]
  intro h
  have htype := type_of_text_eq (by rw [himage]; decide +kernel) (by rw [hpackage]; decide +kernel) h
  rw [himage, hpackage] at htype
  exact absurd htype (by decide +kernel)

theorem ImageInfo.knownDigest?_eq_some {image : ImageInfo} {d : String} :
    image.knownDigest? = some d ↔ image.imageDigest = some d ∧ d ≠ "" := by
  simp [knownDigest?, Option.filter_eq_some_iff]

namespace CycloneDx

/-! ## References of a bill -/

/-- The references of the subject and of all components, in order. -/
def Bill.references (b : Bill) : List String := (b.subject :: b.components).map Component.locator

theorem references_bill (m : BuildMetadata) (packages : List Package) :
    (bill m packages).references =
      (m.image.knownDigest?.toList.map fun d => (m.image.locator d).text) ++
        m.image.layerLocator.text :: packages.map fun p => (m.packageLocator p).text := by
  have hparts : (packages.map (packageComponent m)).map Component.locator
      = packages.map fun p => (m.packageLocator p).text := by
    simp [packageComponent, Function.comp_def]
  unfold bill Bill.references
  cases m.image.knownDigest? <;> simp [hparts, layerComponent, imageComponent]

theorem dependencies_bill (m : BuildMetadata) (packages : List Package) :
    (bill m packages).dependencies.map Dependency.of =
      (m.image.knownDigest?.toList.map fun d => (m.image.locator d).text) ++
        [m.image.layerLocator.text] := by
  unfold bill
  cases m.image.knownDigest? <;> simp [layerComponent, imageComponent]

theorem nodup_locators (m : BuildMetadata) (packages : List Package) :
    (packages.map fun p => (m.packageLocator p).text).Nodup ↔
      (packages.map fun p => (p.name, p.version)).Nodup := by
  simp only [List.Nodup, List.pairwise_map, ne_eq, m.text_packageLocator_eq_iff, Prod.mk.injEq]

/-- The locators of the image, if its digest is known, and of the layer differ exactly if their digests do. -/
theorem nodup_digests (image : ImageInfo) (rest : List String)
    (hrest : ∀ d, (image.locator d).text ∉ rest) :
    ((image.knownDigest?.toList.map fun d => (image.locator d).text) ++
        image.layerLocator.text :: rest).Nodup ↔
      (∀ d, image.imageDigest = some d → d = "" ∨ d ≠ image.layerDigest) ∧ rest.Nodup := by
  have hknown : (∀ d, image.imageDigest = some d → d = "" ∨ d ≠ image.layerDigest) ↔
      ∀ d, image.knownDigest? = some d → d ≠ image.layerDigest := by
    simp only [ImageInfo.knownDigest?_eq_some, and_imp, or_iff_not_imp_left]
  rw [hknown]
  cases image.knownDigest? with
  | none => simp [ImageInfo.layerLocator, hrest]
  | some d => simp [ImageInfo.layerLocator, hrest, ImageInfo.text_locator_eq_iff]

/-- All references of a bill differ exactly if no two packages have the same name and version and the digest of
the image, unless it is missing or empty, is not that of the layer. For what the bill says about dependencies the
digests alone matter. The written bill has these references. -/
theorem nodup_references (m : BuildMetadata) (packages : List Package) :
    ((bill m packages).references.Nodup ↔
        (∀ d, m.image.imageDigest = some d → d = "" ∨ d ≠ m.image.layerDigest) ∧
          (packages.map fun p => (p.name, p.version)).Nodup) ∧
      (((bill m packages).dependencies.map Dependency.of).Nodup ↔
        ∀ d, m.image.imageDigest = some d → d = "" ∨ d ≠ m.image.layerDigest) ∧
      (∃ g, graph? (bill m packages).toJson = some g ∧
        g.nodes.map Sbom.Node.id = (bill m packages).references) ∧
      ∃ ds, (bill m packages).toJson.elementsAt? "dependencies" = some ds ∧
        ds.mapM (Json.textAt? "ref") = some ((bill m packages).dependencies.map Dependency.of) := by
  refine ⟨?_, ?_, ⟨_, graph?_toJson _, ?_⟩, _, rfl, ?_⟩
  · rw [references_bill, nodup_digests, nodup_locators]
    intro d h
    obtain ⟨p, -, hp⟩ := List.mem_map.1 h
    exact m.image.text_locator_ne d m p hp.symm
  · rw [dependencies_bill, nodup_digests _ _ fun _ => List.not_mem_nil]
    exact and_iff_left List.nodup_nil
  · simp [Bill.graph, Bill.references, Component.graphNode]
  · have href : ∀ d : Dependency, Json.textAt? "ref" d.toJson = some d.of := fun _ => rfl
    exact mapM_map_eq_some href _

/-- What separates the parts of locators may be in names and versions, and these may be empty. -/
theorem nodup_references_separators :
    let image : ImageInfo := { name := "a", layerDigest := "1", sourceDate := 0 }
    let m : BuildMetadata := ⟨{ image with imageDigest := some "" }, {}, ⟨.ofString "out", none⟩⟩
    let packages : List Package :=
      [{ name := "a", version := "1" }, { name := "a@1", version := "" }, { name := "a", version := "" },
       { name := "", version := "a" }, { name := "", version := "" }, { name := "a/1", version := "" },
       { name := "a", version := "1?arch=x" }, { name := "a%40é", version := "1" }]
    (bill m packages).references.Nodup ∧ ((bill m packages).dependencies.map Dependency.of).Nodup := by
  intro image m packages
  obtain ⟨hreferences, hdependencies, -⟩ := nodup_references m packages
  have hdigest : ∀ d, m.image.imageDigest = some d → d = "" ∨ d ≠ m.image.layerDigest :=
    fun d hd => Or.inl (Option.some.inj hd).symm
  exact ⟨hreferences.2 ⟨hdigest, by decide +kernel⟩, hdependencies.2 hdigest⟩

end CycloneDx

end ImageLayer
