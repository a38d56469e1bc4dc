import Mathlib.Data.List.Nodup
import ImageLayer.Proofs.Package.Version
/-!
Tags made from repositories and versions.

New tags combine the repository of each tag there is with each stem of a version, behind a lead that may be
configured. `newTags_complete`, the main statement, says that all combinations that were not there are added and
nothing else, each once, behind the old tags; and that nothing is left to add when the same is done again, if
neither the lead nor the version has a slash or a colon in it.

Sections:

* Taking references apart. A repository may have slashes in it and a port behind a colon, so that a tag is what
  stands behind a colon of the last segment only. What was put together is taken apart again
  (`splitTag_append`), whatever the repository is, as long as the tag has neither character in it.
* New tags. Membership is said by `Combines`, which mentions no order (`mem_newTags`). From taking references
  apart follows that new tags have the repositories of the old ones (`Combines.of_append`), so that they make no
  new combinations.

The condition is needed: a version with a colon in it is taken for a tag with a repository in front, and a
second run would go on from there.
-/

namespace ImageLayer

namespace Reference

/-! ## Taking references apart -/

theorem lastSegment_append (s : List Char) {tail : List Char} (h : '/' ∉ tail) :
    lastSegment (s ++ tail) = ((lastSegment s).1, (lastSegment s).2 ++ tail) := by
  unfold lastSegment
  cases hsplit : Text.splitLast? '/' s with
  | none =>
    have hnone : Text.splitLast? '/' (s ++ tail) = none := by
      rw [Text.splitLast?_eq_none_iff] at hsplit ⊢
      simp [hsplit, h]
    rw [hnone]
  | some parts =>
    obtain ⟨front, behind⟩ := parts
    obtain ⟨rfl, hbehind⟩ := Text.splitLast?_eq_some_iff.1 hsplit
    have hsome : Text.splitLast? '/' (front ++ '/' :: behind ++ tail) = some (front, behind ++ tail) :=
      Text.splitLast?_eq_some_iff.2 ⟨by simp, by simp [hbehind, h]⟩
    rw [hsome]

theorem lastSegment_parts (s : List Char) : (lastSegment s).1 ++ (lastSegment s).2 = s := by
  unfold lastSegment
  cases hsplit : Text.splitLast? '/' s with
  | none => rfl
  | some parts =>
    obtain ⟨front, behind⟩ := parts
    rw [(Text.splitLast?_eq_some_iff.1 hsplit).1]
    simp

/-- A tag that was put behind a repository is what is split off, also where the repository has ports or tags. -/
theorem splitTag_append (repository : String) {tag : String} (hslash : '/' ∉ tag.toList)
    (hcolon : ':' ∉ tag.toList) : splitTag (repository ++ ":" ++ tag) = (repository, some tag) := by
  have hsegment : lastSegment (repository ++ ":" ++ tag).toList
      = ((lastSegment repository.toList).1, (lastSegment repository.toList).2 ++ ':' :: tag.toList) := by
    have htail : '/' ∉ ':' :: tag.toList := by simp [hslash]
    rw [← lastSegment_append repository.toList htail]
    simp
  have hsplit : Text.splitLast? ':' ((lastSegment repository.toList).2 ++ ':' :: tag.toList)
      = some ((lastSegment repository.toList).2, tag.toList) :=
    Text.splitLast?_eq_some_iff.2 ⟨rfl, hcolon⟩
  simp only [splitTag, hsegment, hsplit, lastSegment_parts, String.ofList_toList]

end Reference

namespace Version

/-! ## New tags -/

/-- A tag that is made of the repository of a tag that is there, the lead and a stem of the version. -/
def Combines (tags : List String) (version : String) (tagging : VersionTagging) (tag : String) : Prop :=
  ∃ old ∈ tags, ∃ stem ∈ stems version tagging.stems,
    tag = (Reference.splitTag old).1 ++ ":" ++ tagging.lead.getD "" ++ stem

section

variable (tags : List String) (version : String) (tagging : VersionTagging)

theorem mem_candidates (tag : String) :
    tag ∈ candidates tags version tagging ↔ Combines tags version tagging tag := by
  simp only [candidates, Combines, List.mem_flatMap, List.mem_map, eq_comm]

theorem nodup_newTags : (newTags tags version tagging).Nodup := by
  obtain ⟨new, heq, -, hnodup, -⟩ := exists_gather tags.contains [] (candidates tags version tagging)
  rw [newTags, ← gather, heq, List.nil_append]
  exact hnodup

theorem mem_newTags (tag : String) :
    tag ∈ newTags tags version tagging ↔ Combines tags version tagging tag ∧ tag ∉ tags := by
  obtain ⟨new, heq, -, -, hmem⟩ := exists_gather tags.contains [] (candidates tags version tagging)
  rw [newTags, ← gather, heq, List.nil_append, hmem, mem_candidates]
  simp

/-- Without tags there are no repositories. -/
theorem newTags_nil : newTags [] version tagging = [] := rfl

variable {tags version tagging}

/-- The repository of a new tag is one of those there were, where lead and version keep out of it. -/
theorem Combines.of_append (hlead : ∀ c ∈ ['/', ':'], c ∉ (tagging.lead.getD "").toList)
    (hversion : ∀ c ∈ ['/', ':'], c ∉ version.toList) {tag : String}
    (h : Combines (tags ++ newTags tags version tagging) version tagging tag) :
    Combines tags version tagging tag := by
  obtain ⟨old, hold, stem, hstem, rfl⟩ := h
  rcases List.mem_append.1 hold with hold | hold
  · exact ⟨old, hold, stem, hstem, rfl⟩
  · obtain ⟨⟨older, holder, stem', hstem', rfl⟩, -⟩ := (mem_newTags tags version tagging old).1 hold
    have hclean : ∀ c ∈ ['/', ':'], c ∉ (tagging.lead.getD "" ++ stem').toList := by
      intro c hc hmem
      rw [String.toList_append, List.mem_append] at hmem
      rcases hmem with hmem | hmem
      · exact hlead c hc hmem
      · exact hversion c hc ((isPrefix_of_mem_stems hstem').subset hmem)
    have hparts : (Reference.splitTag older).1 ++ ":" ++ tagging.lead.getD "" ++ stem'
        = (Reference.splitTag older).1 ++ ":" ++ (tagging.lead.getD "" ++ stem') := String.append_assoc
    refine ⟨older, holder, stem, hstem, ?_⟩
    rw [hparts, Reference.splitTag_append _ (hclean '/' (by simp)) (hclean ':' (by simp))]

end

/-- New tags are the combinations of repositories and stems that are not there, each once. Behind the old tags
they leave the first one first and repeat none. Where neither lead nor version has a slash or a colon, nothing is
new after that. -/
theorem newTags_complete (tags : List String) (version : String) (tagging : VersionTagging) :
    (newTags tags version tagging).Nodup ∧
      (∀ tag, tag ∈ newTags tags version tagging ↔ Combines tags version tagging tag ∧ tag ∉ tags) ∧
      (tags ++ newTags tags version tagging).head? = tags.head? ∧
      (∀ tag ∈ newTags tags version tagging, (tags ++ newTags tags version tagging).count tag = 1) ∧
      ((∀ c ∈ ['/', ':'], c ∉ (tagging.lead.getD "").toList) → (∀ c ∈ ['/', ':'], c ∉ version.toList) →
        newTags (tags ++ newTags tags version tagging) version tagging = []) := by
  have hnodup := nodup_newTags tags version tagging
  have hmem := mem_newTags tags version tagging
  refine ⟨hnodup, hmem, ?_, fun tag htag => ?_, fun hlead hversion => ?_⟩
  · cases tags with
    | nil => rw [newTags_nil, List.append_nil]
    | cons first rest => rfl
  · rw [List.count_append, List.count_eq_zero.2 ((hmem tag).1 htag).2, Nat.zero_add]
    exact List.count_eq_one_of_mem hnodup htag
  · refine List.eq_nil_iff_forall_not_mem.2 fun tag htag => ?_
    obtain ⟨hcombines, hnot⟩ := (mem_newTags _ version tagging tag).1 htag
    rw [List.mem_append, not_or] at hnot
    exact hnot.2 ((hmem tag).2 ⟨hcombines.of_append hlead hversion, hnot.1⟩)

/-- A repository at a port, one without a tag, and a combination that is there. -/
theorem newTags_complete_port :
    let tags := ["localhost:5000/a/b:dev", "nginx", "nginx:v1", "localhost:5000/a/b"]
    let tagging : VersionTagging := { stems := true, lead := some "v" }
    let new := ["localhost:5000/a/b:v1.2-r0", "localhost:5000/a/b:v1.2", "localhost:5000/a/b:v1",
      "nginx:v1.2-r0", "nginx:v1.2"]
    newTags tags "1.2-r0" tagging = new ∧ (∀ c ∈ ['/', ':'], c ∉ "v".toList) ∧
      (∀ c ∈ ['/', ':'], c ∉ "1.2-r0".toList) ∧ newTags (tags ++ new) "1.2-r0" tagging = [] := by
  intro tags tagging new
  have hnew : newTags tags "1.2-r0" tagging = new := by decide +kernel
  have hlead : ∀ c ∈ ['/', ':'], c ∉ "v".toList := by simp
  have hversion : ∀ c ∈ ['/', ':'], c ∉ "1.2-r0".toList := by simp
  obtain ⟨-, -, -, -, hagain⟩ := newTags_complete tags "1.2-r0" tagging
  exact ⟨hnew, hlead, hversion, hnew ▸ hagain hlead hversion⟩

end Version

end ImageLayer
