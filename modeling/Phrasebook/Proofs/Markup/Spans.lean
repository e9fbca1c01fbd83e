import Phrasebook.Proofs.Markup.Grammar

/-!
# Where the spans are

`Span.scan` pairs openers with closers by a stack of positions, once for the whole text. What it
finds inside a span is what it finds in the inner text alone (`spans_closed`), and an opener without
a closer changes nothing about what follows it (`spans_unclosed`). So the table of a text agrees
with its grammar at every piece (`Charts`).
-/

namespace Phrasebook

open Markup

namespace Mark

variable {c : Char}

theorem ofChar_eq_opening : ofChar c = opening ↔ c = '{' := by
  unfold ofChar
  split
  · simp [*]
  · split
    · simp [*]
    · split <;> simp [*]

theorem ofChar_eq_closing : ofChar c = closing ↔ c = '}' := by
  unfold ofChar
  split
  · next h => subst h; simp
  · split
    · simp [*]
    · split <;> simp [*]

theorem ofChar_eq_word : ofChar c = word ↔ isWordChar c = true := by
  unfold ofChar isWordChar
  split
  · next h => subst h; decide
  · split
    · next h => subst h; decide
    · split <;> simp_all

theorem takeWhile_ofText (s : List Char) :
    (ofText s).takeWhile (· = word) = ofText (s.takeWhile isWordChar) := by
  unfold ofText
  rw [List.takeWhile_map]
  congr 2
  funext c
  simp [ofChar_eq_word]

theorem openerLength?_ofText (s : List Char) :
    openerLength? (ofText s) = (opener? s).map fun cut => cut.1.length + 2 := by
  cases s with
  | nil => rfl
  | cons c rest =>
    unfold opener?
    by_cases hc : c = '{'
    · have hopening : ofText (c :: rest) = opening :: ofText rest := by
        simp [ofText, ofChar_eq_opening, hc]
      rw [hopening]
      simp only [openerLength?, takeWhile_ofText]
      have hlength : (ofText (rest.takeWhile isWordChar)).length =
          (rest.takeWhile isWordChar).length := by simp [ofText]
      have hhead : ((ofText rest).drop (rest.takeWhile isWordChar).length).head? = some opening ↔
          (rest.drop (rest.takeWhile isWordChar).length).head? = some '{' := by
        unfold ofText
        rw [← List.map_drop, List.head?_map, Option.map_eq_some_iff]
        simp [ofChar_eq_opening]
      rw [hlength]
      simp only [hhead, hc, true_and, List.length_eq_zero_iff]
      split
      · next hnil => simp [hnil]
      · next hne => simp only [ne_eq, hne, not_false_eq_true, true_and]; split <;> rfl
    · have hnot : ofChar c ≠ opening := fun h => hc (ofChar_eq_opening.1 h)
      simp only [hc, false_and, if_false, Option.map_none]
      unfold openerLength? ofText
      rw [List.map_cons]
      split
      · next heq => exact absurd (List.cons.inj heq).1 hnot
      · rfl

end Mark

namespace Span

variable {s t word after inner rest : List Char} {c : Char} {opened outer : List (Nat × Nat)}
  {pos start first : Nat}

/-! ## One token -/

theorem scan_nil (pos : Nat) (opened : List (Nat × Nat)) :
    scan (Mark.ofText []) pos opened = [] := by
  unfold scan; rfl

theorem scan_opener (h : opener? s = some (word, after)) (pos : Nat) (opened : List (Nat × Nat)) :
    scan (Mark.ofText s) pos opened =
      scan (Mark.ofText after) (pos + (word.length + 2))
        ((pos, pos + (word.length + 2)) :: opened) := by
  have hlength : Mark.openerLength? (Mark.ofText s) = some (word.length + 2) := by
    rw [Mark.openerLength?_ofText, h]; rfl
  obtain rfl := eq_of_opener? h
  have hdrop : (Mark.ofText ('{' :: (word ++ '{' :: after))).drop (word.length + 2) =
      Mark.ofText after := by
    unfold Mark.ofText
    rw [← List.map_drop, List.drop_succ_cons, ← List.drop_drop, List.drop_left]
    rfl
  conv => lhs; unfold scan
  rw [← hdrop]
  split
  · next heq => cases heq
  · next mark rest heq =>
    rw [heq] at hlength ⊢
    split
    · next length h' =>
      obtain rfl := Option.some.inj (hlength.symm.trans h')
      rfl
    · next h' => cases hlength.symm.trans h'

theorem scan_of_not_opener (h : opener? (c :: rest) = none) (pos : Nat)
    (opened : List (Nat × Nat)) :
    scan (Mark.ofText (c :: rest)) pos opened =
      if startsWithCloser (c :: rest) = true then
        match opened with
        | (start, first) :: outer =>
          ⟨start, first, pos⟩ :: scan (Mark.ofText (rest.drop 1)) (pos + 2) outer
        | [] => scan (Mark.ofText rest) (pos + 1) []
      else scan (Mark.ofText rest) (pos + 1) opened := by
  have hlength : Mark.openerLength? (Mark.ofText (c :: rest)) = none := by
    rw [Mark.openerLength?_ofText, h]; rfl
  have hcloser : (Mark.ofChar c = .closing ∧ (Mark.ofText rest).head? = some .closing) ↔
      startsWithCloser (c :: rest) = true := by
    rw [startsWithCloser_iff]
    unfold Mark.ofText
    rw [List.head?_map, Option.map_eq_some_iff, Mark.ofChar_eq_closing]
    constructor
    · rintro ⟨rfl, d, hd, hclosing⟩
      obtain ⟨tail, rfl⟩ := List.head?_eq_some_iff.1 hd
      rw [Mark.ofChar_eq_closing.1 hclosing]
      exact ⟨tail, rfl⟩
    · rintro ⟨tail, heq⟩
      obtain ⟨rfl, rfl⟩ := List.cons.inj heq
      exact ⟨rfl, '}', rfl, Mark.ofChar_eq_closing.2 rfl⟩
  have hdrop : (Mark.ofText rest).drop 1 = Mark.ofText (rest.drop 1) := List.map_drop.symm
  have hcons : Mark.ofText (c :: rest) = Mark.ofChar c :: Mark.ofText rest := rfl
  rw [hcons] at hlength ⊢
  conv => lhs; unfold scan
  split
  · next h' => cases hlength.symm.trans h'
  · by_cases hclose : startsWithCloser (c :: rest) = true
    · rw [if_pos hclose, ← hdrop]
      exact if_pos (hcloser.2 hclose)
    · rw [if_neg hclose]
      exact if_neg (mt hcloser.1 hclose)

theorem scan_closer (pos : Nat) (start first : Nat) (outer : List (Nat × Nat)) (rest : List Char) :
    scan (Mark.ofText ('}' :: '}' :: rest)) pos ((start, first) :: outer) =
      ⟨start, first, pos⟩ :: scan (Mark.ofText rest) (pos + 2) outer :=
  scan_of_not_opener (opener?_closer rest) pos _

theorem scan_char (hopener : opener? (c :: rest) = none)
    (hcloser : startsWithCloser (c :: rest) = false) (pos : Nat) (opened : List (Nat × Nat)) :
    scan (Mark.ofText (c :: rest)) pos opened = scan (Mark.ofText rest) (pos + 1) opened := by
  rw [scan_of_not_opener hopener, hcloser]; rfl

/-! ## One piece -/

/-- What is found up to the closer of an opener is what is found in its inner text, if `mids` are
the openers that were open there. -/
theorem scan_closed (mids : List (Nat × Nat)) (h : closer? mids.length s = some (inner, rest))
    (pos start first : Nat) (outer : List (Nat × Nat)) :
    scan (Mark.ofText s) pos (mids ++ (start, first) :: outer) =
      scan (Mark.ofText inner) pos mids ++ ⟨start, first, pos + inner.length⟩ ::
        scan (Mark.ofText rest) (pos + inner.length + 2) outer := by
  induction s using tokenInduction generalizing pos mids inner with
  | nil => rw [closer?_nil] at h; cases h
  | opener s word after hopen ih =>
    rw [closer?_opener hopen] at h
    obtain ⟨⟨inner', rest'⟩, hcut, heq⟩ := Option.map_eq_some_iff.1 h
    obtain ⟨rfl, rfl⟩ := Prod.mk.inj heq
    rw [scan_opener hopen, scan_opener (opener?_replace hopen inner')]
    have hrest := ih ((pos, pos + (word.length + 2)) :: mids) hcut (pos + (word.length + 2))
    rw [List.cons_append] at hrest
    rw [hrest]
    have hlength : ('{' :: (word ++ '{' :: inner')).length = word.length + 2 + inner'.length := by
      simp only [List.length_cons, List.length_append]; omega
    rw [hlength, Nat.add_assoc pos]
  | closer tail ih =>
    cases mids with
    | nil =>
      rw [List.length_nil, closer?_zero_closer] at h
      obtain ⟨rfl, rfl⟩ := Prod.mk.inj (Option.some.inj h)
      rw [List.nil_append, scan_closer, scan_nil]
      rfl
    | cons mid mids =>
      obtain ⟨start', first'⟩ := mid
      rw [List.length_cons, closer?_succ_closer] at h
      obtain ⟨⟨inner', rest'⟩, hcut, heq⟩ := Option.map_eq_some_iff.1 h
      obtain ⟨rfl, rfl⟩ := Prod.mk.inj heq
      rw [List.cons_append, scan_closer, scan_closer, ih mids hcut (pos + 2), List.cons_append]
      have hlength : ('}' :: '}' :: inner').length = 2 + inner'.length := by
        simp only [List.length_cons]; omega
      rw [hlength, Nat.add_assoc pos]
  | char c tail hopen hclose ih =>
    rw [closer?_char hopen hclose] at h
    obtain ⟨⟨inner', rest'⟩, hcut, heq⟩ := Option.map_eq_some_iff.1 h
    obtain ⟨rfl, rfl⟩ := Prod.mk.inj heq
    obtain rfl := eq_of_closer? hcut
    have hopen' : opener? (c :: inner') = none := by
      cases hsome : opener? (c :: inner') with
      | none => rfl
      | some cut =>
        obtain ⟨word, after⟩ := cut
        cases hopen.symm.trans (opener?_append hsome ('}' :: '}' :: rest'))
    have hclose' : startsWithCloser (c :: inner') = false := by
      rw [Bool.eq_false_iff] at hclose ⊢
      intro hyes
      obtain ⟨tail, heq⟩ := startsWithCloser_iff.1 hyes
      obtain ⟨rfl, rfl⟩ := List.cons.inj heq
      exact hclose (startsWithCloser_iff.2 ⟨_, rfl⟩)
    rw [scan_char hopen hclose, scan_char hopen' hclose', ih mids hcut (pos + 1),
      List.length_cons,
      Nat.add_assoc pos, Nat.add_comm 1]

/-- An opener that is never closed does not matter. -/
theorem scan_unclosed (mids : List (Nat × Nat)) (h : closer? mids.length s = none) (pos : Nat)
    (below : List (Nat × Nat)) :
    scan (Mark.ofText s) pos (mids ++ below) = scan (Mark.ofText s) pos mids := by
  induction s using tokenInduction generalizing pos mids with
  | nil => rw [scan_nil, scan_nil]
  | opener s word after hopen ih =>
    rw [closer?_opener hopen, Option.map_eq_none_iff] at h
    rw [scan_opener hopen, scan_opener hopen]
    exact ih ((pos, pos + (word.length + 2)) :: mids) h _
  | closer tail ih =>
    cases mids with
    | nil => rw [List.length_nil, closer?_zero_closer] at h; cases h
    | cons mid mids =>
      rw [List.length_cons, closer?_succ_closer, Option.map_eq_none_iff] at h
      rw [List.cons_append, scan_closer, scan_closer, ih mids h]
  | char c tail hopen hclose ih =>
    rw [closer?_char hopen hclose, Option.map_eq_none_iff] at h
    rw [scan_char hopen hclose, scan_char hopen hclose, ih mids h]

def spans (s : List Char) (pos : Nat) : List Span := scan (Mark.ofText s) pos []

theorem spans_char (h : opener? (c :: rest) = none) (pos : Nat) :
    spans (c :: rest) pos = spans rest (pos + 1) := by
  unfold spans
  rw [scan_of_not_opener h]
  split <;> rfl

theorem spans_unclosed (hopen : opener? s = some (word, after)) (hclose : closer? 0 after = none)
    (pos : Nat) : spans s pos = spans after (pos + (word.length + 2)) := by
  unfold spans
  rw [scan_opener hopen]
  exact scan_unclosed [] hclose _ _

theorem spans_closed (hopen : opener? s = some (word, after))
    (hclose : closer? 0 after = some (inner, rest)) (pos : Nat) :
    spans s pos =
      spans inner (pos + (word.length + 2)) ++
        ⟨pos, pos + (word.length + 2), pos + (word.length + 2) + inner.length⟩ ::
          spans rest (pos + (word.length + 2) + inner.length + 2) := by
  unfold spans
  rw [scan_opener hopen]
  exact scan_closed [] hclose _ _ _ _

theorem bounds_of_mem {span : Span} (h : span ∈ spans s pos) :
    pos ≤ span.start ∧ span.start < span.inner ∧ span.inner ≤ span.close ∧
      span.close + 2 ≤ pos + s.length := by
  induction s using pieceInduction generalizing pos with
  | nil => rw [spans, scan_nil] at h; cases h
  | char c rest hopen ih =>
    rw [spans_char hopen] at h
    have := ih h
    rw [List.length_cons]
    omega
  | unclosed s word after hopen hclose ih =>
    rw [spans_unclosed hopen hclose] at h
    have := ih h
    have := length_after_lt hopen
    rw [eq_of_opener? hopen, List.length_cons, List.length_append, List.length_cons]
    omega
  | closed s word after inner rest hopen hclose ihInner ihRest =>
    rw [spans_closed hopen hclose] at h
    have hlength : s.length = word.length + 2 + inner.length + 2 + rest.length := by
      rw [eq_of_opener? hopen, eq_of_closer? hclose]
      simp only [List.length_cons, List.length_append]
      omega
    rcases List.mem_append.1 h with h | h
    · have := ihInner h
      omega
    · rcases List.mem_cons.1 h with rfl | h
      · simp only; omega
      · have := ihRest h
        omega

theorem pairwise_start (s : List Char) (pos : Nat) :
    (spans s pos).Pairwise (·.start ≠ ·.start) := by
  induction s using pieceInduction generalizing pos with
  | nil => rw [spans, scan_nil]; exact .nil
  | char c rest hopen ih => rw [spans_char hopen]; exact ih _
  | unclosed s word after hopen hclose ih => rw [spans_unclosed hopen hclose]; exact ih _
  | closed s word after inner rest hopen hclose ihInner ihRest =>
    rw [spans_closed hopen hclose]
    refine List.pairwise_append.2 ⟨ihInner _, List.pairwise_cons.2 ⟨fun b hb => ?_, ihRest _⟩,
      fun a ha b hb => ?_⟩
    · have := bounds_of_mem hb
      show pos ≠ b.start
      omega
    · have := bounds_of_mem ha
      rcases List.mem_cons.1 hb with rfl | hb
      · show a.start ≠ pos
        omega
      · have := bounds_of_mem hb
        omega

/-! ## The table -/

section Filling

variable {found : List Span} {table : Array (Option Span)} {span : Span} {i : Nat}

theorem getElem?_fill_of_forall_ne (h : ∀ span ∈ found, span.start ≠ i) :
    (found.foldl (fun table span => table.setIfInBounds span.start (some span)) table)[i]? =
      table[i]? := by
  induction found generalizing table with
  | nil => rfl
  | cons first rest ih =>
    rw [List.foldl_cons, ih fun span hmem => h span (List.mem_cons_of_mem _ hmem),
      Array.getElem?_setIfInBounds_ne (h first List.mem_cons_self)]

theorem getElem?_fill_of_mem (hstarts : found.Pairwise (·.start ≠ ·.start)) (hmem : span ∈ found)
    (hsize : span.start < table.size) :
    (found.foldl (fun table span => table.setIfInBounds span.start (some span))
      table)[span.start]? = some (some span) := by
  induction found generalizing table with
  | nil => cases hmem
  | cons first rest ih =>
    obtain ⟨hfirst, hrest⟩ := List.pairwise_cons.1 hstarts
    rw [List.foldl_cons]
    rcases List.mem_cons.1 hmem with rfl | hmem
    · rw [getElem?_fill_of_forall_ne fun other hother => (hfirst other hother).symm]
      exact Array.getElem?_setIfInBounds_self_of_lt hsize
    · exact ih hrest hmem (by rwa [Array.size_setIfInBounds])

end Filling

/-- The table is right about the piece of text `s` that stands at `pos`. -/
structure Charts (table : Array (Option Span)) (s : List Char) (pos : Nat) : Prop where
  span : ∀ span ∈ spans s pos, table[span.start]? = some (some span)
  none : ∀ i, pos ≤ i → i < pos + s.length → (∀ span ∈ spans s pos, span.start ≠ i) →
    table[i]? = some none

variable {table : Array (Option Span)}

theorem charts_table (s : List Char) : Charts (Span.table (Mark.ofText s)) s 0 where
  span span hmem := by
    have := bounds_of_mem hmem
    refine getElem?_fill_of_mem (pairwise_start s 0) hmem ?_
    rw [Array.size_replicate, Mark.ofText, List.length_map]
    omega
  none i _ hi hnone := by
    refine (getElem?_fill_of_forall_ne hnone).trans ?_
    rw [Array.getElem?_replicate, if_pos (by rw [Mark.ofText, List.length_map]; omega)]

theorem Charts.char (h : Charts table (c :: rest) pos) (hopen : opener? (c :: rest) = .none) :
    table[pos]? = some .none ∧ Charts table rest (pos + 1) := by
  have hspans := spans_char hopen pos
  constructor
  · refine h.none pos (Nat.le_refl _) (by rw [List.length_cons]; omega) fun span hmem => ?_
    have := bounds_of_mem (hspans ▸ hmem)
    omega
  · refine ⟨fun span hmem => h.span span (hspans ▸ hmem), fun i hpos hi hnone => ?_⟩
    exact h.none i (by omega) (by rw [List.length_cons]; omega) (hspans ▸ hnone)

theorem Charts.unclosed (h : Charts table s pos) (hopen : opener? s = some (word, after))
    (hclose : closer? 0 after = .none) :
    (∀ i, pos ≤ i → i < pos + (word.length + 2) → table[i]? = some .none) ∧
      Charts table after (pos + (word.length + 2)) := by
  have hspans := spans_unclosed hopen hclose pos
  have hlength : s.length = word.length + 2 + after.length := by
    rw [eq_of_opener? hopen]
    simp only [List.length_cons, List.length_append]
    omega
  constructor
  · refine fun i hpos hi => h.none i hpos (by omega) fun span hmem => ?_
    have := bounds_of_mem (hspans ▸ hmem)
    omega
  · refine ⟨fun span hmem => h.span span (hspans ▸ hmem), fun i hpos hi hnone => ?_⟩
    exact h.none i (by omega) (by omega) (hspans ▸ hnone)

theorem Charts.closed (h : Charts table s pos) (hopen : opener? s = some (word, after))
    (hclose : closer? 0 after = some (inner, rest)) :
    table[pos]? = some (some
        ⟨pos, pos + (word.length + 2), pos + (word.length + 2) + inner.length⟩) ∧
      Charts table inner (pos + (word.length + 2)) ∧
      Charts table rest (pos + (word.length + 2) + inner.length + 2) := by
  have hspans := spans_closed hopen hclose pos
  have hlength : s.length = word.length + 2 + inner.length + 2 + rest.length := by
    rw [eq_of_opener? hopen, eq_of_closer? hclose]
    simp only [List.length_cons, List.length_append]
    omega
  have hmem : ∀ span, span ∈ spans s pos ↔ span ∈ spans inner (pos + (word.length + 2)) ∨
      span = ⟨pos, pos + (word.length + 2), pos + (word.length + 2) + inner.length⟩ ∨
      span ∈ spans rest (pos + (word.length + 2) + inner.length + 2) := fun span => by
    rw [hspans, List.mem_append, List.mem_cons]
  refine ⟨h.span _ ((hmem _).2 (.inr (.inl rfl))), ⟨fun span hin => ?_, fun i hpos hi hnone => ?_⟩,
    ⟨fun span hin => ?_, fun i hpos hi hnone => ?_⟩⟩
  · exact h.span span ((hmem span).2 (.inl hin))
  · refine h.none i (by omega) (by omega) fun span hin => ?_
    rcases (hmem span).1 hin with hin | rfl | hin
    · exact hnone span hin
    · simp only; omega
    · have := bounds_of_mem hin
      omega
  · exact h.span span ((hmem span).2 (.inr (.inr hin)))
  · refine h.none i (by omega) (by omega) fun span hin => ?_
    rcases (hmem span).1 hin with hin | rfl | hin
    · have := bounds_of_mem hin
      omega
    · simp only; omega
    · exact hnone span hin

end Span

end Phrasebook
