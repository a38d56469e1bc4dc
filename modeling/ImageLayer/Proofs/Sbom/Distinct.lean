import Mathlib.Data.List.Nodup
import ImageLayer.Proofs.Sbom.Identifier
import ImageLayer.Sbom.Spdx
/-!
When the nodes of an SPDX document have different identifiers.

Relationships refer to nodes by their identifiers, so that a document says what it means only if no two nodes
have one. They need not differ: identifiers are made of names and versions that are given from outside.
`nodup_ids`, the main statement, says exactly when they do, names an ordinary case in which they do, and says
that then each containment is between one node and one other.

Sections:

* What identifiers are made of. All of them begin alike, and what is behind this is a label (`ids_document`):
  the digest for the image, the name for the layer, and for a package that of the layer with name and version
  behind it.
* When they differ. Two packages have one label exactly if their names and versions come to the same text when
  they are sanitized and a hyphen is put between them (`packageKey`). A package is never taken for its layer,
  whose identifier is only a part of the package's (`sanitize_layerName_ne`). The image may be taken for the
  layer or for a package, by a digest that is such a label.
* What containments refer to: nodes of the document, and one each if identifiers differ.

There are two ways for packages to have one label. Sanitizing takes different texts to one, and a hyphen within
a name may be the one in front of a version. `TellsApart` rules out both by conditions on each package alone:
names and versions are legible, so that their identifiers determine them (`Legible.eq_of_sanitize`), and all
versions have as many hyphens, so that it is known which of them is between name and version (`eq_of_hyphen`).
Packages of a distribution are like this, whose versions have one hyphen, in front of the release.
-/

namespace ImageLayer.Spdx

open Identifier

/-! ## What identifiers are made of -/

/-- What the identifier of a package says about it, behind that of the layer. -/
def packageKey (p : Package) : String := sanitize p.name ++ "-" ++ sanitize p.version

/-- What stands behind `SPDXRef-Package-` in the identifiers of a document's nodes. -/
def labels (m : BuildMetadata) (packages : List Package) : List String :=
  m.image.knownDigest?.toList.map sanitize ++ sanitize m.image.layerName ::
    packages.map fun p => (layerNode m).id ++ "-" ++ packageKey p

theorem sanitize_lead : sanitize "SPDXRef-Package-" = "SPDXRef-Package-" :=
  sanitize_of_isAllowed (List.all_eq_true.1 (by decide))

theorem layerNode_id (m : BuildMetadata) :
    (layerNode m).id = "SPDXRef-Package-" ++ sanitize m.image.layerName := rfl

theorem imageNode_id (image : ImageInfo) (digest : String) :
    (imageNode image digest).id = "SPDXRef-Package-" ++ sanitize digest := by
  rw [imageNode, sanitize_append, sanitize_lead]

theorem sanitize_layerNode_id (m : BuildMetadata) : sanitize (layerNode m).id = (layerNode m).id := by
  rw [layerNode_id, sanitize_append, sanitize_lead, sanitize_sanitize]

theorem packageNode_id (m : BuildMetadata) (p : Package) :
    (packageNode m (layerNode m).id p).id
      = "SPDXRef-Package-" ++ ((layerNode m).id ++ "-" ++ packageKey p) := by
  have hhyphen : sanitize "-" = "-" := sanitize_of_isAllowed (List.all_eq_true.1 (by decide))
  simp only [packageNode, sanitize_append, sanitize_lead, sanitize_layerNode_id, hhyphen, packageKey,
    String.append_assoc]

theorem ids_document (m : BuildMetadata) (packages : List Package) :
    (document m packages).nodes.map Node.id = (labels m packages).map ("SPDXRef-Package-" ++ ·) := by
  have hparts : (packages.map (packageNode m (layerNode m).id)).map Node.id
      = (packages.map fun p => (layerNode m).id ++ "-" ++ packageKey p).map
          ("SPDXRef-Package-" ++ ·) := by
    simp [packageNode_id]
  unfold document labels
  cases m.image.knownDigest? with
  | none =>
    simp only [List.map_cons, hparts]
    rfl
  | some digest =>
    simp only [List.map_cons, hparts, imageNode_id]
    rfl

/-! ## When they differ -/

/-- A package is never taken for its layer, whose identifier is only a part of the package's. -/
theorem sanitize_layerName_ne (m : BuildMetadata) (key : String) :
    sanitize m.image.layerName ≠ (layerNode m).id ++ "-" ++ key := by
  intro h
  have hlength := congrArg String.length h
  simp only [layerNode_id, String.length_append] at hlength
  have hlead : "SPDXRef-Package-".length = 16 := by decide
  omega

theorem nodup_labels_iff (m : BuildMetadata) (packages : List Package) :
    (labels m packages).Nodup ↔ (packages.map packageKey).Nodup ∧
      ∀ digest ∈ m.image.knownDigest?, sanitize digest ≠ sanitize m.image.layerName ∧
        ∀ p ∈ packages, sanitize digest ≠ (layerNode m).id ++ "-" ++ packageKey p := by
  have hparts : (sanitize m.image.layerName ::
      packages.map fun p => (layerNode m).id ++ "-" ++ packageKey p).Nodup
        ↔ (packages.map packageKey).Nodup := by
    have hmap : (packages.map fun p => (layerNode m).id ++ "-" ++ packageKey p)
        = (packages.map packageKey).map ((layerNode m).id ++ "-" ++ ·) := by
      rw [List.map_map]
      rfl
    rw [List.nodup_cons, hmap, List.nodup_map_iff fun _ _ h => (String.append_right_inj _).1 h]
    refine and_iff_right ?_
    rintro hmem
    obtain ⟨key, -, hkey⟩ := List.mem_map.1 hmem
    exact sanitize_layerName_ne m key hkey.symm
  unfold labels
  cases m.image.knownDigest? with
  | none => simp [hparts]
  | some digest =>
    rw [Option.toList_some, List.map_singleton, List.singleton_append, List.nodup_cons, hparts]
    simp [not_or, and_comm, eq_comm]

theorem nodup_ids_iff_labels (m : BuildMetadata) (packages : List Package) :
    ((document m packages).nodes.map Node.id).Nodup ↔ (labels m packages).Nodup := by
  rw [ids_document, List.nodup_map_iff fun _ _ h => (String.append_right_inj _).1 h]

/-- Distinct packages whose names and versions are legible, all versions with the same number of hyphens, and a
digest of the image that is neither the name of the layer nor looks like an identifier. -/
structure TellsApart (m : BuildMetadata) (packages : List Package) : Prop where
  /-- No two packages have the same name and the same version. -/
  distinct : (packages.map fun p => (p.name, p.version)).Nodup
  /-- Names and versions do not look like identifiers of other text. -/
  legible : ∀ p ∈ packages, Legible p.name.toList ∧ Legible p.version.toList
  /-- It is known which hyphen stands between name and version. -/
  hyphens : ∀ p ∈ packages, ∀ q ∈ packages, p.version.toList.count '-' = q.version.toList.count '-'
  /-- Neither does a known digest of the image nor the name of the layer, which is another text. -/
  digest : ∀ digest ∈ m.image.knownDigest?, Legible digest.toList ∧ Legible m.image.layerName.toList ∧
    digest ≠ m.image.layerName ∧ ¬ "SPDXRef-Package-".toList <+: digest.toList

theorem TellsApart.nodup_labels {m : BuildMetadata} {packages : List Package}
    (h : TellsApart m packages) : (labels m packages).Nodup := by
  refine (nodup_labels_iff m packages).2 ⟨?_, fun digest hdigest => ?_⟩
  · refine (List.nodup_map_iff_inj_on (List.Nodup.of_map _ h.distinct)).2 fun p hp q hq hkey => ?_
    refine List.inj_on_of_nodup_map h.distinct hp hq ?_
    have hsplit := congrArg String.toList hkey
    simp only [packageKey, String.toList_append, List.append_assoc] at hsplit
    -- As many hyphens in both versions, so the hyphen in front of them is the same one in both keys.
    have hcount : (sanitize p.version).toList.count '-' = (sanitize q.version).toList.count '-' := by
      rw [count_hyphen_sanitize, count_hyphen_sanitize, h.hyphens p hp q hq]
    obtain ⟨hname, hversion⟩ := eq_of_hyphen hsplit hcount
    rw [(h.legible p hp).1.eq_of_sanitize (h.legible q hq).1 (String.toList_inj.1 hname),
      (h.legible p hp).2.eq_of_sanitize (h.legible q hq).2 (String.toList_inj.1 hversion)]
  · obtain ⟨hlegible, hlayer, hne, hlead⟩ := h.digest digest hdigest
    refine ⟨fun hsame => hne (hlegible.eq_of_sanitize hlayer hsame), fun p hp hsame => hlead ?_⟩
    -- What stands for a package starts with the lead of the layer's identifier, which the digest does not.
    refine isPrefix_of_escapes (by decide) ?_
    rw [← toList_sanitize, hsame, layerNode_id]
    simp only [String.toList_append, List.append_assoc]
    exact List.prefix_append ..

/-! ## What containments refer to -/

theorem containments_listed {m : BuildMetadata} {packages : List Package} {c : Containment}
    (h : c ∈ (document m packages).containments) :
    (∃ n ∈ (document m packages).nodes, n.id = c.outer) ∧
      ∃ n ∈ (document m packages).nodes, n.id = c.inner := by
  unfold document at h ⊢
  cases hdigest : m.image.knownDigest? with
  | none =>
    simp only [hdigest, List.map_map, List.mem_map] at h ⊢
    obtain ⟨p, hp, rfl⟩ := h
    refine ⟨⟨_, List.mem_cons_self .., rfl⟩, _, List.mem_cons_of_mem _ ?_, rfl⟩
    exact List.mem_map_of_mem hp
  | some digest =>
    simp only [hdigest, List.map_map, List.mem_cons, List.mem_map] at h ⊢
    rcases h with rfl | ⟨p, hp, rfl⟩
    · exact ⟨⟨_, Or.inl rfl, rfl⟩, _, Or.inr (Or.inl rfl), rfl⟩
    · exact ⟨⟨_, Or.inr (Or.inl rfl), rfl⟩, _, Or.inr (Or.inr ⟨p, hp, rfl⟩), rfl⟩

theorem existsUnique_of_nodup {nodes : List Node} (h : (nodes.map Node.id).Nodup) {id : String}
    (hid : ∃ n ∈ nodes, n.id = id) : ∃! n, n ∈ nodes ∧ n.id = id := by
  obtain ⟨n, hn, rfl⟩ := hid
  exact ⟨n, ⟨hn, rfl⟩, fun k hk => List.inj_on_of_nodup_map h hk.1 hn hk.2⟩

/-- The nodes of a document have different identifiers exactly if no two packages come to the same text with a
hyphen between name and version, and a known digest of the image comes neither to the name of the layer nor to
what stands for a package. That holds for ordinary packages and digests. Then every containment is of one
node in one other. -/
theorem nodup_ids (m : BuildMetadata) (packages : List Package) :
    (((document m packages).nodes.map Node.id).Nodup ↔
        (packages.map fun p => sanitize p.name ++ "-" ++ sanitize p.version).Nodup ∧
          ∀ digest ∈ m.image.knownDigest?, sanitize digest ≠ sanitize m.image.layerName ∧
            ∀ p ∈ packages, sanitize digest
              ≠ (layerNode m).id ++ "-" ++ (sanitize p.name ++ "-" ++ sanitize p.version)) ∧
      (TellsApart m packages → ((document m packages).nodes.map Node.id).Nodup) ∧
      (((document m packages).nodes.map Node.id).Nodup → ∀ c ∈ (document m packages).containments,
        (∃! n, n ∈ (document m packages).nodes ∧ n.id = c.outer) ∧
          ∃! n, n ∈ (document m packages).nodes ∧ n.id = c.inner) := by
  have hlabels := nodup_ids_iff_labels m packages
  refine ⟨hlabels.trans (nodup_labels_iff m packages), fun h => hlabels.2 h.nodup_labels, ?_⟩
  intro h c hc
  obtain ⟨houter, hinner⟩ := containments_listed hc
  exact ⟨existsUnique_of_nodup h houter, existsUnique_of_nodup h hinner⟩

/-- Plus signs in names and several packages of one name do no harm. -/
theorem nodup_ids_ordinary :
    let image : ImageInfo := { name := "image", layerDigest := "sha256:4a5b", sourceDate := 0 }
    let m : BuildMetadata :=
      ⟨{ image with imageDigest := some "sha256:9f00" }, {}, ⟨.ofString "out", none⟩⟩
    let packages : List Package :=
      [{ name := "libstdc++", version := "13.2.1-r0" }, { name := "so-c", version := "1-r2" },
       { name := "so", version := "1-r2" }, { name := "so", version := "1-r3" }]
    TellsApart m packages ∧ ((document m packages).nodes.map Node.id).Nodup := by
  intro image m packages
  have h : TellsApart m packages := by
    refine ⟨by decide +kernel, by decide +kernel, by decide +kernel, ?_⟩
    rintro digest hdigest
    obtain rfl := Option.some.inj hdigest
    decide +kernel
  exact ⟨h, (nodup_ids m packages).2.1 h⟩

/-- Identifiers do not differ for characters of as many bytes, for a hyphen that may belong to a name or to a
version, and for an image with a digest that names the layer, although the packages are distinct and the
digest of the image is not that of the layer. -/
theorem not_nodup_ids :
    let image : ImageInfo := { name := "image", layerDigest := "sha256:4a5b", sourceDate := 0 }
    let metadata (digest : Option String) : BuildMetadata :=
      ⟨{ image with imageDigest := digest }, {}, ⟨.ofString "out", none⟩⟩
    let colliding : List (Option String × List Package) :=
      [(none, [{ name := "é", version := "1" }, { name := "è", version := "1" }]),
       (none, [{ name := "a-b", version := "c" }, { name := "a", version := "b-c" }]),
       (some "image@sha256:4a5b", [])]
    ∀ x ∈ colliding, x.1 ≠ some image.layerDigest ∧ (x.2.map fun p => (p.name, p.version)).Nodup ∧
      ¬ ((document (metadata x.1) x.2).nodes.map Node.id).Nodup := by
  intro image metadata colliding x hx
  rw [nodup_ids_iff_labels, nodup_labels_iff]
  simp only [colliding, List.mem_cons, List.not_mem_nil, or_false] at hx
  obtain rfl | rfl | rfl := hx <;> decide +kernel

end ImageLayer.Spdx
