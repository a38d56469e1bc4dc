import ImageLayer.Proofs.Sbom.Distinct
import ImageLayer.Proofs.Text.Percent
/-!
What identifiers are written with.

In an SPDX document every element has an identifier, and a reader rejects one with characters that identifiers
may not have. `sanitize_bytewise`, the main statement, says that none is written: what stands under the name of
identifiers, wherever in the document it stands, is the lead of all identifiers and, behind it, what identifiers
may contain. It says as well how they come about, byte by byte.

Sections:

* Values of one name. `Json.valuesUnder` finds every value that stands under a name in a piece of JSON, at any
  depth. It knows nothing of the format, so that what is said of identifiers is said of the text that is written
  and not of the places where they are expected.
* Bytes of identifiers. The bytes of an identifier are those of the text that it is made of, each of them on its
  own kept or replaced (`ofString_sanitize`). The definition cuts a text into runs of characters and encodes
  each run that is replaced. Neither shows: a run is replaced character by character (`toList_sanitize`), and a
  character byte by byte (`encode_escape`), since the bytes of a character are all below the end of ASCII or all
  beyond it.
* Identifiers of a document. Those that are found are the ones of the document and of its nodes
  (`valuesUnder_document`), each of which begins with the lead and is left as it is by sanitizing
  (`sanitize_id`). The identifier of a package is put together from others that were sanitized before, and this
  does no harm.

Bytes come in because a character that is replaced is known by the numbers of its bytes. Of one beyond ASCII
only their number is left, which is where different texts come to one identifier.
-/

namespace ImageLayer

/-! ## Values of one name -/

namespace Json

mutual

/-- The values that stand under a name in a value, at any depth and in order. -/
def valuesUnder (name : String) : Json → List Json
  | .bool _ => []
  | .number _ => []
  | .text _ => []
  | .array elements => elementsUnder name elements
  | .object members => membersUnder name members

def elementsUnder (name : String) : List Json → List Json
  | [] => []
  | v :: rest => valuesUnder name v ++ elementsUnder name rest

def membersUnder (name : String) : List (String × Json) → List Json
  | [] => []
  | (key, v) :: rest => (if key = name then [v] else []) ++ valuesUnder name v ++ membersUnder name rest

end

theorem elementsUnder_map {α : Type} (name : String) (write : α → Json) (l : List α) :
    elementsUnder name (l.map write) = l.flatMap fun a => valuesUnder name (write a) := by
  induction l with
  | nil => rfl
  | cons a l ih => rw [List.map_cons, elementsUnder, ih, List.flatMap_cons]

end Json

/-! ## Bytes of identifiers -/

namespace Identifier

/-- How a byte of a text stands in its identifier: a character that is allowed as it is, another one of ASCII
by its number, and a part of a longer one by the number of the replacement character. -/
def escapeByte (b : UInt8) : Bytes :=
  if b < 0x80 then
    if isAllowed (Char.ofNat b.toNat) then [b] else Bytes.ofString ("C" ++ b.toNat.repr)
  else Bytes.ofString "C65533"

theorem toNat_lt_of_isAllowed {c : Char} (h : isAllowed c) : c.toNat < 0x80 := by
  have hval : c.toNat = c.val.toNat := rfl
  have hupper : 'Z'.val.toNat = 90 := rfl
  have hlower : 'z'.val.toNat = 122 := rfl
  have hdigit : '9'.val.toNat = 57 := rfl
  have hletter : c.isAlpha = (decide (c.val ≥ 'A'.val ∧ c.val ≤ 'Z'.val) ||
    (decide (c.val ≥ 'a'.val) && decide (c.val ≤ 'z'.val))) := rfl
  simp only [isAllowed, Char.isAlphanum, hletter, Char.isDigit, Bool.or_eq_true, Bool.and_eq_true,
    decide_eq_true_eq, ge_iff_le, UInt32.le_iff_toNat_le] at h
  rcases h with (((h | h) | h) | rfl) | rfl
  · omega
  · omega
  · omega
  · decide
  · decide

theorem encode_code (n : Nat) :
    ('C' :: Nat.toDigits 10 n).flatMap String.utf8EncodeChar = Bytes.ofString ("C" ++ n.repr) := by
  simp [Bytes.ofString, Nat.repr]

/-- What stands for a character stands for its bytes. -/
theorem encode_escape (c : Char) :
    (escape c).flatMap String.utf8EncodeChar = (String.utf8EncodeChar c).flatMap escapeByte := by
  cases hc : isAllowed c with
  | true =>
    have hlt := toNat_lt_of_isAllowed hc
    rw [escape_of_isAllowed hc, Utf8.encode_ascii hlt]
    simp [escapeByte, UInt8.lt_iff_toNat_lt, Utf8.toNat_ofNat_ascii hlt, hlt, hc, Utf8.encode_ascii hlt]
  | false =>
    rw [escape, hc, if_neg Bool.false_ne_true, List.flatMap_assoc]
    refine List.flatMap_congr fun b hb => ?_
    rw [encode_code]
    by_cases hlt : c.toNat < 0x80
    · rw [Utf8.encode_ascii hlt, List.mem_singleton] at hb
      subst hb
      simp [escapeByte, codeOf, UInt8.lt_iff_toNat_lt, Utf8.toNat_ofNat_ascii hlt, hlt, hc]
    · -- No byte of a longer character is taken for one of ASCII, allowed or not.
      have hnot : ¬ b < 0x80 := by
        simpa [UInt8.lt_iff_toNat_lt] using Utf8.le_of_mem_encode (Nat.le_of_not_lt hlt) hb
      rw [escapeByte, codeOf, if_neg hnot, if_neg hnot]
      decide

/-- An identifier is made byte by byte. -/
theorem ofString_sanitize (s : String) :
    Bytes.ofString (sanitize s) = (Bytes.ofString s).flatMap escapeByte := by
  rw [Bytes.ofString, Bytes.ofString, toList_sanitize, List.flatMap_assoc, List.flatMap_assoc]
  exact List.flatMap_congr fun c _ => encode_escape c

end Identifier

/-! ## Identifiers of a document -/

namespace Spdx

open Identifier

/-- An identifier of an element: the lead of all of them, and behind it what identifiers may contain. -/
def IsElementId (id : String) : Prop := ∃ rest, id = "SPDXRef-" ++ rest ∧ ∀ c ∈ rest.toList, isAllowed c

/-- The identifiers of a document and of its nodes. -/
def Document.ids (d : Document) : List String := "SPDXRef-DOCUMENT" :: d.nodes.map Node.id

theorem valuesUnder_node (n : Node) : n.toJson.valuesUnder "SPDXID" = [.text n.id] := by
  simp [Node.toJson, Json.valuesUnder, Json.membersUnder, Json.elementsUnder, Json.elementsUnder_map]

/-- Identifiers stand nowhere else in a document. -/
theorem valuesUnder_document (d : Document) : d.toJson.valuesUnder "SPDXID" = d.ids.map .text := by
  have hnone : ∀ {α : Type} (l : List α), (l.flatMap fun _ => ([] : List Json)) = [] := by simp
  simp [Document.ids, Document.toJson, Json.texts, Json.valuesUnder, Json.membersUnder, Json.elementsUnder,
    Json.elementsUnder_map, Containment.toJson, valuesUnder_node, hnone, ← List.map_eq_flatMap]

/-- Sanitizing the identifier of a node changes nothing, also where parts of it were put together after they were
sanitized. -/
theorem sanitize_id {m : BuildMetadata} {packages : List Package} {n : Node}
    (h : n ∈ (document m packages).nodes) : sanitize n.id = n.id := by
  have hnodes : ∀ n ∈ layerNode m :: packages.map (packageNode m (layerNode m).id), sanitize n.id = n.id := by
    intro n hn
    rcases List.mem_cons.1 hn with rfl | hn
    · exact sanitize_layerNode_id m
    · obtain ⟨p, -, rfl⟩ := List.mem_map.1 hn
      exact sanitize_sanitize _
  unfold document at h
  cases hdigest : m.image.knownDigest? with
  | none =>
    simp only [hdigest] at h
    exact hnodes n h
  | some digest =>
    simp only [hdigest] at h
    rcases List.mem_cons.1 h with rfl | h
    · exact sanitize_sanitize _
    · exact hnodes n h

theorem isElementId_of_mem_ids {m : BuildMetadata} {packages : List Package} {id : String}
    (h : id ∈ (document m packages).ids) : IsElementId id := by
  rcases List.mem_cons.1 h with rfl | h
  · exact ⟨"DOCUMENT", rfl, List.all_eq_true.1 (by decide)⟩
  · obtain ⟨label, -, hlabel⟩ := List.mem_map.1 (ids_document m packages ▸ h)
    obtain ⟨n, hn, rfl⟩ := List.mem_map.1 h
    have hid : n.id = "SPDXRef-" ++ ("Package-" ++ label) := by
      rw [← hlabel, ← String.append_assoc]
      rfl
    refine ⟨_, hid, fun c hc => isAllowed_of_mem_sanitize (s := n.id) ?_⟩
    rw [sanitize_id hn, hid, String.toList_append]
    exact List.mem_append_right _ hc

/-- The identifier made of a text is the text with each byte replaced or kept on its own. So it is made of two
texts as of each of them, and it is its own identifier. The identifiers in a document are those of the document
and of its nodes, and each of them is the lead of all identifiers with nothing but what they may contain behind
it. -/
theorem sanitize_bytewise (s t : String) (m : BuildMetadata) (packages : List Package) :
    Bytes.ofString (sanitize s) = (Bytes.ofString s).flatMap escapeByte ∧
      sanitize (s ++ t) = sanitize s ++ sanitize t ∧
      sanitize (sanitize s) = sanitize s ∧
      (document m packages).toJson.valuesUnder "SPDXID" = (document m packages).ids.map .text ∧
      ∀ id ∈ (document m packages).ids, IsElementId id :=
  ⟨ofString_sanitize s, sanitize_append s t, sanitize_sanitize s, valuesUnder_document _,
    fun _ => isElementId_of_mem_ids⟩

/-- A run of characters of one, two and four bytes, and an image, a layer and a package with such names. -/
theorem sanitize_bytewise_mixed :
    let s := "a/é😀-C47!"
    let image : ImageInfo :=
      { name := "é", layerDigest := "sha256:4a5b", imageDigest := some "😀:1", sourceDate := 0 }
    let m : BuildMetadata := ⟨image, {}, ⟨.ofString "out", none⟩⟩
    let packages : List Package := [{ name := "c++", version := "1.0~ß" }]
    let id := "SPDXRef-Package-SPDXRef-Package-C65533C65533C64sha256C584a5b-cC43C43-1.0C126C65533C65533"
    (Bytes.ofString s).flatMap escapeByte
        = Bytes.ofString "aC47C65533C65533C65533C65533C65533C65533-C47C33" ∧
      sanitize s = "aC47C65533C65533C65533C65533C65533C65533-C47C33" ∧
      id ∈ (document m packages).ids ∧ IsElementId id := by
  intro s image m packages id
  obtain ⟨hbytes, -, -, -, hids⟩ := sanitize_bytewise s "" m packages
  have hescaped : (Bytes.ofString s).flatMap escapeByte
      = Bytes.ofString "aC47C65533C65533C65533C65533C65533C65533-C47C33" := by decide +kernel
  have hmem : id ∈ (document m packages).ids := by decide +kernel
  exact ⟨hescaped, Bytes.ofString_injective (hbytes.trans hescaped), hmem, hids id hmem⟩

end Spdx

end ImageLayer
