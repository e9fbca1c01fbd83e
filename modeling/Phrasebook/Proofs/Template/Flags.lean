import Mathlib.Data.List.Basic
import Phrasebook.Proofs.Markup.Parsing
import Phrasebook.Template

/-!
# The tests on a template

A template without a `{{` that a `}}` follows has no placeholder, so there is nothing to put in
(`interpolate_of_not_hasVars`). A text has an opener that a `}}` follows if and only if the scanner
finds a span in it (`hasClosableOpener_iff_spans`): the test may begin at any opener and the scanner
reads openers that do not overlap, but the first `}}` after an opener always closes something. So
what a template evaluates to does not depend on the tests that save it work.
-/

namespace Phrasebook

open Markup

variable {s t before after pattern word inner rest run : List Char} {c : Char} {pos depth : Nat}

/-! ## Searching -/

namespace Text

theorem eq_of_after? (h : after? pattern s = some rest) :
    ∃ before, s = before ++ (pattern ++ rest) := by
  induction s with
  | nil =>
    simp only [after?] at h
    split at h
    · next hempty =>
      cases h
      exact ⟨[], by simpa using hempty⟩
    · cases h
  | cons c tail ih =>
    simp only [after?] at h
    split at h
    · next hprefix =>
      cases h
      exact ⟨[], List.prefix_iff_eq_append.1 (List.isPrefixOf_iff_prefix.1 hprefix) |>.symm⟩
    · obtain ⟨before, rfl⟩ := ih h
      exact ⟨c :: before, rfl⟩

theorem exists_after? (pattern before after : List Char) :
    ∃ rest, after? pattern (before ++ (pattern ++ after)) = some rest ∧ after <:+ rest := by
  induction before with
  | nil =>
    refine ⟨after, ?_, List.suffix_rfl⟩
    cases hs : pattern ++ after with
    | nil =>
      obtain ⟨rfl, rfl⟩ := List.append_eq_nil_iff.1 hs
      rfl
    | cons c tail =>
      have hprefix : pattern.isPrefixOf (c :: tail) = true :=
        List.isPrefixOf_iff_prefix.2 ⟨after, hs⟩
      rw [List.nil_append, after?, if_pos hprefix, ← hs, List.drop_left]
  | cons c before ih =>
    rw [List.cons_append, after?]
    split
    · refine ⟨_, rfl, List.suffix_of_suffix_length_le ?_ (List.drop_suffix _ _) ?_⟩
      · exact ⟨c :: (before ++ pattern), by simp⟩
      · simp only [List.length_drop, List.length_cons, List.length_append]
        omega
    · exact ih

theorem isSome_after?_iff : (after? pattern s).isSome = true ↔ pattern <:+: s := by
  rw [Option.isSome_iff_exists]
  constructor
  · rintro ⟨rest, h⟩
    obtain ⟨before, rfl⟩ := eq_of_after? h
    exact ⟨before, rest, List.append_assoc _ _ _⟩
  · rintro ⟨before, after, rfl⟩
    rw [List.append_assoc]
    obtain ⟨rest, h, -⟩ := exists_after? pattern before after
    exact ⟨rest, h⟩

end Text

abbrev HasCloser (s : List Char) : Prop := ['}', '}'] <:+: s

theorem hasCloser_cons (hc : c ≠ '}') : HasCloser (c :: rest) ↔ HasCloser rest := by
  rw [HasCloser, List.infix_cons_iff, List.cons_prefix_cons]
  simp [hc.symm]

theorem hasCloser_append (h : '}' ∉ s) : HasCloser (s ++ t) ↔ HasCloser t := by
  induction s with
  | nil => rfl
  | cons c rest ih =>
    have hc : c ≠ '}' := fun heq => h (heq ▸ List.mem_cons_self)
    rw [List.cons_append, hasCloser_cons hc, ih fun hmem => h (List.mem_cons_of_mem _ hmem)]

/-- An opener does not begin or complete a closer. -/
theorem hasCloser_of_opener? (h : opener? s = some (word, after)) :
    HasCloser s ↔ HasCloser after := by
  obtain ⟨rfl, -, hword⟩ := opener?_eq_some_iff.1 h
  have hnot : '}' ∉ '{' :: (word ++ ['{']) := by
    have : '}' ∉ word := fun hmem => by cases hword _ hmem
    simpa using this
  have heq : '{' :: (word ++ '{' :: after) = '{' :: (word ++ ['{']) ++ after := by simp
  rw [heq]
  exact hasCloser_append hnot

/-! ## Variables -/

namespace Template

theorem hasVars_iff {template : Template} :
    template.hasVars = true ↔
      ∃ before after, template.source.toList = before ++ '{' :: '{' :: after ∧ HasCloser after := by
  unfold hasVars
  constructor
  · intro h
    obtain ⟨tail, h⟩ := Option.isSome_iff_exists.1 h
    obtain ⟨after, hafter, hcloser⟩ := Option.bind_eq_some_iff.1 h
    obtain ⟨before, heq⟩ := Text.eq_of_after? hafter
    exact ⟨before, after, heq, Text.isSome_after?_iff.1 (hcloser ▸ rfl)⟩
  · rintro ⟨before, after, heq, hcloser⟩
    obtain ⟨rest, hrest, hsuffix⟩ := Text.exists_after? ['{', '{'] before after
    have hfirst : Text.after? ['{', '{'] template.source.toList = some rest := heq ▸ hrest
    rw [hfirst, Option.bind_some, Text.isSome_after?_iff]
    exact hcloser.trans hsuffix.isInfix

theorem hasVars_of_placeholder {template : Template}
    (h : .placeholder run ∈ pieces template.source.toList) : template.hasVars = true := by
  obtain ⟨first, last, heq⟩ := List.append_of_mem h
  have hwritten := written_pieces template.source.toList
  rw [heq, List.flatMap_append, List.flatMap_cons] at hwritten
  rw [hasVars_iff]
  refine ⟨first.flatMap Piece.written, run ++ ['}', '}'] ++ last.flatMap Piece.written, ?_, ?_⟩
  · rw [← hwritten]
    rfl
  · exact ⟨run, last.flatMap Piece.written, rfl⟩

theorem interpolate_of_not_hasVars {template : Template} (h : template.hasVars = false)
    (vars : Option Fields) : interpolate template.source vars = template.source := by
  have hfilled : ∀ piece ∈ pieces template.source.toList, piece.filled vars = piece.written := by
    intro piece hmem
    cases piece with
    | literal c => rfl
    | placeholder run => exact absurd (hasVars_of_placeholder hmem) (by simp [h])
  unfold interpolate
  rw [List.flatMap_congr hfilled, written_pieces, String.ofList_toList]

/-- What is put in does not depend on the test. -/
theorem interpolated_eq (template : Template) (vars : Option Fields) :
    template.interpolated vars = interpolate template.source vars := by
  unfold interpolated
  cases h : template.hasVars with
  | true => rfl
  | false => exact (interpolate_of_not_hasVars h vars).symm

end Template

/-! ## Markup -/

theorem hasClosableOpener_of_opener? (h : opener? (c :: rest) = some (word, after)) :
    hasClosableOpener (c :: rest) = true ↔ HasCloser after ∨ hasClosableOpener rest = true := by
  obtain ⟨rfl, rfl⟩ := List.cons.inj (eq_of_opener? h)
  have hdrop : (word ++ '{' :: after).drop (word.length + 2 - 1) = after := by
    show (word ++ '{' :: after).drop (word.length + 1) = after
    rw [← List.drop_drop, List.drop_left]
    rfl
  rw [hasClosableOpener, Mark.openerLength?_ofText, h, Option.map_some]
  simp only [hdrop, Bool.or_eq_true, Text.isSome_after?_iff]

theorem hasClosableOpener_of_not_opener? (h : opener? (c :: rest) = none) :
    hasClosableOpener (c :: rest) = hasClosableOpener rest := by
  rw [hasClosableOpener, Mark.openerLength?_ofText, h]
  rfl

theorem hasCloser_of_hasClosableOpener (h : hasClosableOpener s = true) : HasCloser s := by
  induction s with
  | nil => cases h
  | cons c rest ih =>
    cases hopen : opener? (c :: rest) with
    | none =>
      rw [hasClosableOpener_of_not_opener? hopen] at h
      exact List.infix_cons (ih h)
    | some cut =>
      rcases (hasClosableOpener_of_opener? hopen).1 h with h | h
      · exact (hasCloser_of_opener? hopen).2 h
      · exact List.infix_cons (ih h)

/-- At an opener the test asks for a closer, and for no more. -/
theorem hasClosableOpener_iff_hasCloser (h : opener? s = some (word, after)) :
    hasClosableOpener s = true ↔ HasCloser after := by
  constructor
  · exact fun hclosable => (hasCloser_of_opener? h).1 (hasCloser_of_hasClosableOpener hclosable)
  · intro hcloser
    obtain rfl := eq_of_opener? h
    exact (hasClosableOpener_of_opener? h).2 (.inl hcloser)

/-- The closer of a text in which the outermost level is never closed has an opener before it. -/
theorem hasClosableOpener_of_closer?_eq_none (hclose : closer? 0 s = none) (h : HasCloser s) :
    hasClosableOpener s = true := by
  induction s using tokenInduction with
  | nil => cases List.infix_nil.1 h
  | opener s word after hopen _ =>
    exact (hasClosableOpener_iff_hasCloser hopen).2 ((hasCloser_of_opener? hopen).1 h)
  | closer rest _ =>
    rw [closer?_zero_closer] at hclose
    cases hclose
  | char c rest hopen hnot ih =>
    rw [closer?_char hopen hnot, Option.map_eq_none_iff] at hclose
    rw [hasClosableOpener_of_not_opener? hopen]
    refine ih hclose ((List.infix_cons_iff.1 h).resolve_left fun hprefix => ?_)
    exact Bool.eq_false_iff.1 hnot (List.isPrefixOf_iff_prefix.2 hprefix)

/-- **The test on openers finds what the scanner finds**: there is a span in a text if and only if
some opener of the text is followed by a closer. -/
theorem hasClosableOpener_iff_spans (s : List Char) (pos : Nat) :
    hasClosableOpener s = true ↔ Span.spans s pos ≠ [] := by
  induction s using pieceInduction generalizing pos with
  | nil => simp [hasClosableOpener, Span.spans, Span.scan_nil]
  | char c rest hopen ih =>
    rw [hasClosableOpener_of_not_opener? hopen, Span.spans_char hopen]
    exact ih _
  | unclosed s word after hopen hclose ih =>
    rw [hasClosableOpener_iff_hasCloser hopen, Span.spans_unclosed hopen hclose, ← ih]
    -- This opener stays open, so what the first closer behind it closes is an opener in between.
    exact ⟨hasClosableOpener_of_closer?_eq_none hclose, hasCloser_of_hasClosableOpener⟩
  | closed s word after inner rest hopen hclose _ _ =>
    rw [hasClosableOpener_iff_hasCloser hopen, Span.spans_closed hopen hclose]
    refine iff_of_true ?_ (by simp)
    exact ⟨inner, rest, by rw [eq_of_closer? hclose]; simp⟩

theorem exists_span_iff (s : List Char) :
    (∃ (i : Nat) (span : Span), (Span.table (Mark.ofText s))[i]? = some (some span)) ↔
      Span.spans s 0 ≠ [] := by
  constructor
  · rintro ⟨i, span, h⟩ hnil
    have hall : Span.all (Mark.ofText s) = [] := hnil
    rw [Span.table, hall, List.foldl_nil, Array.getElem?_replicate] at h
    split at h <;> cases h
  · intro h
    obtain ⟨span, hmem⟩ := List.exists_mem_of_ne_nil _ h
    exact ⟨span.start, span, (Span.charts_table s).span span hmem⟩

theorem not_hasElement_of_spans_eq_nil (h : Span.spans s pos = []) (depth : Nat) :
    hasElement (nodes depth s) = false := by
  induction s using pieceInduction generalizing pos with
  | nil => rw [nodes_nil]; rfl
  | char c rest hopen ih =>
    rw [nodes_char hopen, hasElement_literal]
    exact ih (Span.spans_char hopen pos ▸ h)
  | unclosed s word after hopen hclose ih =>
    rw [nodes_unclosed hopen hclose, hasElement_literal]
    exact ih (Span.spans_unclosed hopen hclose pos ▸ h)
  | closed s word after inner rest hopen hclose _ _ =>
    rw [Span.spans_closed hopen hclose] at h
    simp at h

theorem Rendered.ofNodes_literal (text : String) :
    Rendered.ofNodes (literal text.toList []) = .text text := by
  unfold literal
  split
  · next hempty =>
    rw [List.isEmpty_iff, String.toList_eq_nil_iff] at hempty
    rw [hempty]
    rfl
  · show Rendered.text (String.ofList text.toList) = .text text
    rw [String.ofList_toList]

theorem Template.parseTags_of_not_hasTags {template : Template} (h : template.hasTags = false) :
    parseTags template.source = .text template.source := by
  have hspans : Span.spans template.source.toList 0 = [] := by
    have hiff := hasClosableOpener_iff_spans template.source.toList 0
    have hnot : hasClosableOpener template.source.toList = false := h
    simpa [hnot] using hiff
  rw [parseTags, parseNodes_eq,
    nodes_of_not_hasElement (not_hasElement_of_spans_eq_nil hspans 0), Rendered.ofNodes_literal]

/-! ## Evaluation -/

theorem Template.render_of_hasTags {template : Template} (h : template.hasTags = true)
    (vars : Option Fields) :
    template.render vars = parseTags (interpolate template.source vars) := by
  rw [render, h, interpolated_eq]
  rfl

theorem Template.render_of_not_hasTags {template : Template} (h : template.hasTags = false)
    (vars : Option Fields) :
    template.render vars = .text (interpolate template.source vars) := by
  rw [render, h, interpolated_eq]
  rfl

/-- **The tests on a template do not change what it evaluates to.** A template without variables has
none to put in, and it has tags if and only if the scanner finds a span in it. With tags it is
parsed after its variables have been put in; without tags it is that text as it is, so a variable
cannot bring markup into it. -/
theorem Template.render_eq_parseTags (template : Template) :
    (template.hasVars = false →
      ∀ vars, interpolate template.source vars = template.source) ∧
    (template.hasTags = true ↔
      ∃ (i : Nat) (span : Span),
        (Span.table (Mark.ofText template.source.toList))[i]? = some (some span)) ∧
    (template.hasTags = false → parseTags template.source = .text template.source) ∧
    (∀ vars, template.hasTags = true ∨ interpolate template.source vars = template.source →
      template.render vars = parseTags (interpolate template.source vars)) ∧
    (template.hasTags = false →
      ∀ vars, template.render vars = .text (interpolate template.source vars)) := by
  refine ⟨interpolate_of_not_hasVars, ?_, parseTags_of_not_hasTags, ?_, render_of_not_hasTags⟩
  · rw [exists_span_iff, ← hasClosableOpener_iff_spans]
    rfl
  · intro vars h
    cases htags : template.hasTags with
    | true => exact render_of_hasTags htags vars
    | false =>
      have hsame : interpolate template.source vars = template.source :=
        h.resolve_left (by simp [htags])
      rw [render_of_not_hasTags htags, hsame, parseTags_of_not_hasTags htags]

end Phrasebook
