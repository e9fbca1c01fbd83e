import Phrasebook.Proofs.Markup.Openers
import Phrasebook.Proofs.Validation.Gaps

/-!
# Findings and what they tell

The findings of a report on a place where the schema and the dataset both have a value are what
comparing these two values gives (`compareAt_subset`). So without errors the dataset fits the schema
wherever it has anything, and where it has nothing the report misses a key, there or above.
-/

namespace Phrasebook

section

variable {schema data value found : Json} {fields values : Fields} {key path : String}
  {place : List String}

theorem compareFields_subset (hmem : (key, value) ∈ fields)
    (hfound : values.lookup key = some found) :
    compareAt (KeyPath.join path key) value found ⊆ compareFields path fields values := by
  induction fields with
  | nil => cases hmem
  | cons field rest ih =>
    obtain ⟨name, first⟩ := field
    rw [compareFields]
    rcases List.mem_cons.1 hmem with heq | hmem
    · cases heq
      have hget : values.get? key = some found := hfound
      rw [hget]
      exact List.subset_append_left _ _
    · exact List.subset_append_of_subset_right _ (ih hmem)

/-- The findings on two values inside a schema and a dataset are findings on these. -/
theorem compareAt_subset (hvalue : schema.follow? place = some value)
    (hfound : data.follow? place = some found) :
    compareAt (KeyPath.below path place) value found ⊆ compareAt path schema data := by
  induction place generalizing schema data path with
  | nil =>
    cases hvalue
    cases hfound
    exact List.Subset.refl _
  | cons key rest ih =>
    obtain ⟨child, hchild, hrest⟩ := Option.bind_eq_some_iff.1 hvalue
    obtain ⟨fields, rfl, hlookup⟩ := Json.eq_obj_of_get? hchild
    obtain ⟨given, hgiven, hinside⟩ := Option.bind_eq_some_iff.1 hfound
    obtain ⟨values, rfl, hget⟩ := Json.eq_obj_of_get? hgiven
    rw [compareAt]
    exact List.subset_append_of_subset_left _ (List.Subset.trans (ih hrest hinside)
      (compareFields_subset (Json.mem_of_lookup hlookup) hget))

namespace Report

theorem not_isError (h : (Report.of schema data).hasErrors = false) :
    ∀ finding ∈ compareAt "" schema data, finding.isError = false := by
  intro finding hmem
  have hnone : (Report.of schema data).errors = [] := by simpa [hasErrors] using h
  have hnot := List.filter_eq_nil_iff.1 hnone finding hmem
  simpa using hnot

theorem fits_of_not_hasErrors (h : (Report.of schema data).hasErrors = false)
    (hvalue : schema.follow? place = some value) (hfound : data.follow? place = some found) :
    value.fits found = true := by
  cases hfits : value.fits found with
  | true => rfl
  | false =>
    have hmismatch := compareAt_of_not_fits hfits (KeyPath.below "" place)
    have hmem : Finding.shapeMismatch (KeyPath.below "" place) value.kind found.kind ∈
        compareAt "" schema data :=
      compareAt_subset hvalue hfound (hmismatch ▸ List.mem_singleton_self _)
    cases not_isError h _ hmem

theorem exists_missingKey (h : (Report.of schema data).hasErrors = false)
    (hvalue : schema.follow? place = some value) (hnone : data.follow? place = none) :
    ∃ above, above <+: place ∧
      Finding.missingKey (KeyPath.below "" above) ∈ (Report.of schema data).warnings := by
  have hunusable : ∀ found, data.follow? place = some found → value.fits found = false :=
    fun found hfound => nomatch hnone.symm.trans hfound
  obtain ⟨above, habove, hgap⟩ := exists_gap_of_unusable hvalue hunusable
  obtain ⟨finding, hmem, hblames⟩ := (blamed_iff schema data "").2 ⟨above, hgap, rfl⟩
  have hwarning := not_isError h finding hmem
  refine ⟨above, habove, List.mem_filter.2 ⟨?_, rfl⟩⟩
  cases finding with
  | missingKey p =>
    obtain rfl : p = KeyPath.below "" above := hblames
    exact hmem
  | shapeMismatch _ _ _ => cases hwarning
  | _ => cases hblames

end Report

end

/-! ## Tags

Validation compares the words of the openers of two texts and knows nothing of closers. These words
are those of the openers that the scanner reads, so they are no fewer than the tags of the parsed
text: a translation whose tags do not drift has no element that the default text does not open
(`Report.sees_tags`).
-/

section

open Markup

variable {base localized path word : String} {schema dataset : Json} {place : List String}

theorem mem_tagSet_iff {text : String} :
    word ∈ tagSet text ↔ word.toList ∈ Span.wordsRead text.toList := by
  unfold tagSet
  rw [Text.mem_sortedSet, Span.wordsRead_eq, List.mem_map]
  constructor
  · exact fun h => ⟨word, h, rfl⟩
  · rintro ⟨other, hmem, heq⟩
    rwa [← String.toList_inj.1 heq]

theorem tagDrift_mem_compareTexts (hne : tagSet base ≠ tagSet localized) (path : String) :
    Finding.tagDrift path (tagSet base) (tagSet localized) ∈ compareTexts path base localized := by
  unfold compareTexts
  rw [if_neg hne]
  exact List.mem_append_right _ (List.mem_singleton_self _)

/-- Where a report says nothing of the tags at a place, the tags there are the same. -/
theorem Report.tagSet_eq (hbase : schema.follow? place = some (.str base))
    (hlocalized : dataset.follow? place = some (.str localized))
    (h : (Finding.tagDrift (KeyPath.below "" place) (tagSet base) (tagSet localized)).message ∉
      (Report.of schema dataset).warnings.map Finding.message) :
    tagSet base = tagSet localized := by
  by_cases heq : tagSet base = tagSet localized
  · exact heq
  · have hmem : Finding.tagDrift (KeyPath.below "" place) (tagSet base) (tagSet localized) ∈
        compareAt "" schema dataset :=
      compareAt_subset hbase hlocalized (tagDrift_mem_compareTexts heq _)
    have hwarning : Finding.tagDrift (KeyPath.below "" place) (tagSet base) (tagSet localized) ∈
        (Report.of schema dataset).warnings :=
      List.mem_filter.2 ⟨hmem, rfl⟩
    exact absurd (List.mem_map_of_mem hwarning) h

/-- **Validation sees the tags that parsing sees.** The scanner pairs what it reads; the openers
that it reads are the leftmost ones that do not overlap, and their words, closed or not, are what
validation compares. So every tag of a parsed text is among them, and where a report says nothing of
the tags of a text, all of its tags are opened in the default text. -/
theorem Report.sees_tags (text : String) :
    Span.all (Mark.ofText text.toList) =
        Span.paired (Span.readings (Mark.ofText text.toList) 0 0) [] ∧
      (∀ words, LeftmostOpeners text.toList words ↔ words = Span.wordsRead text.toList) ∧
      (∀ word, word ∈ tagSet text ↔ word.toList ∈ Span.wordsRead text.toList) ∧
      (∀ tag ∈ (parseTags text).tags, tag.name ∈ tagSet text) ∧
      ∀ schema dataset place base, schema.follow? place = some (.str base) →
        dataset.follow? place = some (.str text) →
        (Finding.tagDrift (KeyPath.below "" place) (tagSet base) (tagSet text)).message ∉
          (Report.of schema dataset).warnings.map Finding.message →
        ∀ tag ∈ (parseTags text).tags, tag.name.toList ∈ Span.wordsRead base.toList := by
  have hseen : ∀ tag ∈ (parseTags text).tags, tag.name ∈ tagSet text := fun tag hmem =>
    Text.mem_sortedSet.2 (name_mem_of_mem_tags hmem)
  refine ⟨Span.scan_eq_paired _ _ _, fun words => ?_, fun word => mem_tagSet_iff, hseen, ?_⟩
  · rw [leftmostOpeners_iff, Span.wordsRead_eq]
  · intro schema dataset place base hbase hlocalized h tag hmem
    rw [← mem_tagSet_iff, Report.tagSet_eq hbase hlocalized h]
    exact hseen tag hmem

/-- A text with an opener in the middle of what could be another one, and its translation with an
opener that is never closed and closers of nothing. -/
theorem Report.sees_tags_crossed :
    let schema := Json.obj [("a", .obj [("b", .str "\x7bb\x7bi\x7bone\x7d\x7d \x7bi\x7b")])]
    let dataset := Json.obj [("a", .obj [("b", .str "\x7d\x7d\x7bb\x7b \x7bi\x7btwo\x7d\x7d\x7d")])]
    (Report.of schema dataset).warnings.map Finding.message = [] ∧
      (parseTags "\x7d\x7d\x7bb\x7b \x7bi\x7btwo\x7d\x7d\x7d").tags = [.italic] ∧
      Tag.italic.name.toList ∈
        Span.wordsRead "\x7bb\x7bi\x7bone\x7d\x7d \x7bi\x7b".toList := by
  intro schema dataset
  have hsilent : (Report.of schema dataset).warnings.map Finding.message = [] := by
    decide +kernel
  have htags : (parseTags "\x7d\x7d\x7bb\x7b \x7bi\x7btwo\x7d\x7d\x7d").tags = [.italic] := by
    decide +kernel
  refine ⟨hsilent, htags, ?_⟩
  have hnone : ∀ message, message ∉ (Report.of schema dataset).warnings.map Finding.message := by
    rw [hsilent]
    exact fun _ => List.not_mem_nil
  exact (Report.sees_tags _).2.2.2.2 schema dataset ["a", "b"] _ rfl rfl (hnone _)
    .italic (htags ▸ List.mem_singleton_self _)

end

end Phrasebook
