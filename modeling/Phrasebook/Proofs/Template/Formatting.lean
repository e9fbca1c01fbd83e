import Phrasebook.Proofs.Markup.Printing
import Phrasebook.Proofs.Template.Substitution

/-!
# Tags around placeholders

A tag around a placeholder formats what is put in, as long as there is text between the opener of
the tag and the placeholder. Right behind the opener a placeholder is read one brace too early: its
braces are the last one of the opener and the first one of its own, and the other one becomes a part
of its name (`Template.render_tagged_iff`).
-/

namespace Phrasebook

open Markup Text Node

variable {s lead run rest tail : List Char} {c d : Char} {tag : Tag}
  {text before name after word : String} {vars : Option Fields}

def IsPlain (text : String) : Prop := ∀ c ∈ text.toList, IsPlainChar c

def Tag.around (tag : Tag) (text : String) : String :=
  "\x7b" ++ tag.name ++ "\x7b" ++ text ++ "\x7d\x7d"

/-- A tag around a placeholder, with text before and after it. -/
def Template.tagged (tag : Tag) (before name after : String) : Template :=
  ⟨tag.around (before ++ "\x7b\x7b" ++ name ++ "\x7d\x7d" ++ after)⟩

/-- An element with this text in it; the empty text is no node. -/
def Rendered.formatted (tag : Tag) (text : String) : Rendered :=
  .markup [.element tag (if text = "" then [] else [.text text])]

/-! ## Literal text -/

theorem not_startsPlaceholder_of_ne (h : c ≠ '{') : ¬ StartsPlaceholder (c :: s) := by
  rintro ⟨run, after, heq, -⟩
  exact h (List.cons.inj heq).1

theorem not_startsPlaceholder_of_second (h : d ≠ '{') : ¬ StartsPlaceholder (c :: d :: s) := by
  rintro ⟨run, after, heq, -⟩
  exact h (List.cons.inj (List.cons.inj heq).2).1

theorem IsFree.append (h : '{' ∉ s) (hfree : IsFree lead rest) : IsFree (s ++ lead) rest := by
  induction s with
  | nil => exact hfree
  | cons c s ih =>
    exact (ih (List.not_mem_of_not_mem_cons h)).cons
      (not_startsPlaceholder_of_ne (List.ne_of_not_mem_cons h).symm)

theorem isFree_of_not_mem (h : '{' ∉ s) (rest : List Char) : IsFree s rest := by
  have hfree := IsFree.append h (.nil rest)
  rwa [List.append_nil] at hfree

theorem IsFree.brace (hfree : IsFree (d :: lead) rest) (h : d ≠ '{') :
    IsFree ('{' :: d :: lead) rest :=
  hfree.cons (not_startsPlaceholder_of_second h)

theorem IsPlain.opener_not_mem (h : IsPlain text) : '{' ∉ text.toList :=
  fun hmem => (h _ hmem).1 rfl

theorem IsPlain.closer_not_mem (h : IsPlain text) : '}' ∉ text.toList :=
  fun hmem => (h _ hmem).2 rfl

theorem Tag.exists_name (tag : Tag) : ∃ c rest, tag.name.toList = c :: rest ∧ '{' ∉ c :: rest := by
  cases tag <;> exact ⟨_, _, rfl, by decide⟩

theorem IsFree.opener (tag : Tag) (hfree : IsFree lead rest) :
    IsFree ('{' :: (tag.name.toList ++ lead)) rest := by
  obtain ⟨c, word, hname, hnot⟩ := tag.exists_name
  rw [hname]
  exact (hfree.append hnot).brace (List.ne_of_not_mem_cons hnot).symm

/-! ## Interpolation of a single placeholder -/

theorem flatMap_filled_literal (vars : Option Fields) (lead : List Char) :
    (lead.map Piece.literal).flatMap (Piece.filled vars) = lead := by
  induction lead with
  | nil => rfl
  | cons c lead ih => exact congrArg (c :: ·) ih

/-- Between literal text a placeholder gives way to its variable. -/
theorem toList_interpolate (hfree : IsFree lead ('{' :: '{' :: (run ++ '}' :: '}' :: tail)))
    (hne : run ≠ []) (hrun : '}' ∉ run) (htail : '{' ∉ tail)
    (htext : text.toList = lead ++ '{' :: '{' :: (run ++ '}' :: '}' :: tail)) :
    (interpolate text vars).toList =
      lead ++ ((valueText vars (String.ofList (Piece.nameOf run))).toList ++ tail) := by
  have hpieces : pieces tail = tail.map .literal := by
    have happend := (isFree_of_not_mem htail []).pieces_append
    rw [List.append_nil] at happend
    rw [happend]
    simp [pieces]
  unfold interpolate
  rw [String.toList_ofList, htext, hfree.pieces_append, pieces_placeholder hne hrun, hpieces,
    List.flatMap_append, List.flatMap_cons, flatMap_filled_literal, flatMap_filled_literal]
  rfl

theorem trimEnd_eq_self_of_trim (h : trim s = s) : trimEnd s = s :=
  trimEnd_eq_self (trim_eq_self_iff.1 h).2

theorem trim_eq_self (htrim : trimmed name = name) : trim name.toList = name.toList := by
  have hlist := congrArg String.toList htrim
  rwa [trimmed, String.toList_ofList] at hlist

theorem nameOf_eq_self (hne : name ≠ "") (htrim : trimmed name = name) :
    Piece.nameOf name.toList = name.toList := by
  unfold Piece.nameOf
  rw [trim_eq_self htrim]
  split
  · next hnil => exact absurd (String.toList_eq_nil_iff.1 hnil) hne
  · rfl

theorem nameOf_brace (htrim : trimmed name = name) :
    Piece.nameOf ('{' :: name.toList) = '{' :: name.toList := by
  rw [Piece.nameOf_cons_of_not_blank (by decide), trimEnd_eq_self_of_trim (trim_eq_self htrim)]

/-! ## A tag around a placeholder -/

theorem Tag.toList_around (tag : Tag) (text : String) :
    (tag.around text).toList =
      '{' :: (tag.name.toList ++ '{' :: (text.toList ++ ['}', '}'])) := by
  simp [around]

/-- Behind other text the placeholder is the one that was written. -/
theorem interpolate_tagged_of_ne (hbefore : IsPlain before) (hempty : before ≠ "")
    (hafter : IsPlain after) (hname : IsPlain name) (hne : name ≠ "")
    (htrim : trimmed name = name) :
    interpolate (Template.tagged tag before name after).source vars =
      tag.around (before ++ valueText vars name ++ after) := by
  obtain ⟨c, rest, hcons⟩ := List.exists_cons_of_ne_nil (mt String.toList_eq_nil_iff.1 hempty)
  have hnot : '{' ∉ c :: rest := hcons ▸ hbefore.opener_not_mem
  have hfree (tail : List Char) :
      IsFree ('{' :: (tag.name.toList ++ '{' :: before.toList)) tail := by
    rw [hcons]
    exact ((isFree_of_not_mem hnot tail).brace (List.ne_of_not_mem_cons hnot).symm).opener tag
  have hrun : name.toList ≠ [] := mt String.toList_eq_nil_iff.1 hne
  have htail : '{' ∉ after.toList ++ ['}', '}'] := by simp [hafter.opener_not_mem]
  apply String.toList_inj.1
  rw [toList_interpolate (hfree _) hrun hname.closer_not_mem htail (by simp [Template.tagged,
    Tag.toList_around]), nameOf_eq_self hne htrim, String.ofList_toList, Tag.toList_around]
  simp

/-- Right behind the opener it begins with the brace of the opener. -/
theorem interpolate_tagged_empty (hafter : IsPlain after) (hname : IsPlain name)
    (htrim : trimmed name = name) :
    interpolate (Template.tagged tag "" name after).source vars =
      "\x7b" ++ tag.name ++ valueText vars ("\x7b" ++ name) ++ after ++ "\x7d\x7d" := by
  have hfree (tail : List Char) : IsFree ('{' :: (tag.name.toList ++ [])) tail :=
    (IsFree.nil tail).opener tag
  have hrun : '}' ∉ '{' :: name.toList := by simp [hname.closer_not_mem]
  have htail : '{' ∉ after.toList ++ ['}', '}'] := by simp [hafter.opener_not_mem]
  have hstring : String.ofList ('{' :: name.toList) = "\x7b" ++ name := by
    apply String.toList_inj.1
    simp
  apply String.toList_inj.1
  rw [toList_interpolate (hfree _) (List.cons_ne_nil _ _) hrun htail (by simp [Template.tagged,
    Tag.toList_around]), nameOf_brace htrim, hstring]
  simp

theorem hasTags_tagged (tag : Tag) (before name after : String) :
    (Template.tagged tag before name after).hasTags = true := by
  unfold Template.hasTags Template.tagged
  rw [Tag.toList_around]
  exact (hasClosableOpener_iff_hasCloser (opener?_name tag _)).2 (List.suffix_append _ _).isInfix

/-! ## Markup -/

theorem IsPlain.append (h : IsPlain text) (hafter : IsPlain after) : IsPlain (text ++ after) := by
  intro c hmem
  rw [String.toList_append, List.mem_append] at hmem
  exact hmem.elim (h c) (hafter c)

theorem parseTags_around_sourceAll (tag : Tag) {children : List Node}
    (htidy : areTidy children = true) (hplain : areBraceless children = true)
    (hflat : nestingAll children = 0) :
    parseTags (tag.around (sourceAll children)) = .markup [.element tag children] := by
  have hsource : tag.around (sourceAll children) = sourceAll [.element tag children] := by
    simp [sourceAll, source, Tag.around]
  have hnodes : Markup.nodes 0 (sourceAll [.element tag children]).toList =
      [.element tag children] := by
    apply nodes_sourceAll
    · simp [areTidy, isTidy, isText, htidy]
    · simp [areBraceless, isBraceless, hplain]
    · simp [nestingAll, nesting, hflat, maxTagDepth]
  rw [parseTags, hsource, parseNodes_eq, hnodes]
  rfl

theorem parseTags_around (tag : Tag) (h : IsPlain text) :
    parseTags (tag.around text) = .formatted tag text := by
  unfold Rendered.formatted
  by_cases hempty : text = ""
  · have hsource : text = sourceAll [] := hempty
    rw [if_pos hempty, hsource]
    exact parseTags_around_sourceAll tag rfl rfl rfl
  · have hsource : sourceAll [.text text] = text := String.append_empty
    have hplain : areBraceless [.text text] = true := by
      simp only [areBraceless, isBraceless_text_iff.2 h, Bool.and_self]
    have htidy : areTidy [.text text] = true := by simp [areTidy, isTidy, hempty]
    rw [if_neg hempty, ← parseTags_around_sourceAll tag htidy hplain rfl, hsource]

theorem Rendered.source_formatted (tag : Tag) (text : String) :
    (formatted tag text).source = tag.around text := by
  unfold formatted source
  split
  · next hmarkup => cases hmarkup
  · next hmarkup =>
    obtain rfl := Rendered.markup.inj hmarkup
    split
    · next hempty => simp [sourceAll, Node.source, Tag.around, hempty]
    · simp [sourceAll, Node.source, Tag.around]

theorem eq_around_of_parseTags {whole : String} (h : parseTags whole = .formatted tag text) :
    whole = tag.around text := by
  have hsource : (parseTags whole).source = whole := by
    rw [parseTags, Rendered.source_ofNodes, parseNodes_eq, sourceAll_nodes, String.ofList_toList]
  rw [← hsource, h, Rendered.source_formatted]

theorem hasClosableOpener_of_not_mem (h : '{' ∉ s) : hasClosableOpener s = false := by
  induction s with
  | nil => rfl
  | cons c s ih =>
    have hopen : opener? (c :: s) = none := by
      simp [opener?, (List.ne_of_not_mem_cons h).symm]
    rw [hasClosableOpener_of_not_opener? hopen]
    exact ih (List.not_mem_of_not_mem_cons h)

theorem parseTags_brace (h : '{' ∉ text.toList) :
    parseTags ("\x7b" ++ text) = .text ("\x7b" ++ text) := by
  have hopen : opener? ('{' :: text.toList) = none := by
    refine Option.eq_none_iff_forall_ne_some.2 fun cut hsome => h ?_
    obtain ⟨heq, -⟩ := opener?_eq_some_iff.1 hsome
    rw [(List.cons.inj heq).2]
    simp
  have htags : Template.hasTags ⟨"\x7b" ++ text⟩ = false := by
    unfold Template.hasTags
    rw [String.toList_append]
    exact (hasClosableOpener_of_not_opener? hopen).trans (hasClosableOpener_of_not_mem h)
  exact Template.parseTags_of_not_hasTags htags

/-! ## Evaluation -/

variable {fields : Fields}

theorem valueText_of_get? {value : String} (h : fields.get? name = some (.str value)) :
    valueText (some fields) name = value := by
  rw [valueText_eq, Option.bind_some, h]
  rfl

theorem Template.render_tagged (tag : Tag) (before name after : String) (vars : Option Fields) :
    (tagged tag before name after).render vars =
      parseTags (interpolate (tagged tag before name after).source vars) :=
  render_of_hasTags (hasTags_tagged tag before name after) vars

/-- Right behind the opener the name is another one, and a variable that is absent has no text. -/
theorem Template.render_tagged_empty (tag : Tag) (hafter : IsPlain after) (hname : IsPlain name)
    (htrim : trimmed name = name) (habsent : fields.get? ("\x7b" ++ name) = none) :
    (tagged tag "" name after).render (some fields) =
      .text ("\x7b" ++ tag.name ++ after ++ "\x7d\x7d") := by
  have hvalue : valueText (some fields) ("\x7b" ++ name) = "" := by
    rw [valueText_eq, Option.bind_some, habsent]
    rfl
  obtain ⟨c, rest, hword, hnot⟩ := tag.exists_name
  have hrest : '{' ∉ (tag.name ++ after ++ "\x7d\x7d").toList := by
    simp only [String.toList_append, List.mem_append, hword]
    simp [hafter.opener_not_mem, hnot]
  have hliteral := parseTags_brace hrest
  rw [render_tagged, interpolate_tagged_empty hafter hname htrim, hvalue, String.append_empty]
  simpa only [String.append_assoc] using hliteral

theorem eq_of_around {value : String}
    (h : "\x7b" ++ tag.name ++ value ++ after ++ "\x7d\x7d" = tag.around ("" ++ word ++ after)) :
    value = "\x7b" ++ word := by
  have hlist := congrArg String.toList h
  rw [Tag.toList_around] at hlist
  have hbehind : value.toList ++ (after.toList ++ ['}', '}']) =
      ('{' :: word.toList) ++ (after.toList ++ ['}', '}']) := by
    simpa using hlist
  apply String.toList_inj.1
  rw [List.append_cancel_right hbehind, String.toList_append]
  rfl

/-- **A tag around a placeholder formats what is put in** if and only if there is text between the
opener of the tag and the placeholder, or the variable for which the brace of the opener is part of
the name happens to bring that brace back. With no such variable the tag has lost its opener, and
what is left of it is text. -/
theorem Template.render_tagged_iff (tag : Tag) (hbefore : IsPlain before) (hafter : IsPlain after)
    (hname : IsPlain name) (hne : name ≠ "") (htrim : trimmed name = name) (hword : IsPlain word)
    (hvar : fields.get? name = some (.str word)) :
    ((tagged tag before name after).render (some fields) = .formatted tag (before ++ word ++ after)
      ↔ before ≠ "" ∨ valueText (some fields) ("\x7b" ++ name) = "\x7b" ++ word) ∧
    (before = "" → fields.get? ("\x7b" ++ name) = none →
      (tagged tag before name after).render (some fields) =
        .text ("\x7b" ++ tag.name ++ after ++ "\x7d\x7d")) := by
  have hwhole : IsPlain (before ++ word ++ after) := (hbefore.append hword).append hafter
  refine ⟨⟨fun h => ?_, fun h => ?_⟩, fun hempty habsent => ?_⟩
  · refine or_iff_not_imp_left.2 fun hempty => ?_
    obtain rfl := not_not.1 hempty
    rw [render_tagged, interpolate_tagged_empty hafter hname htrim] at h
    exact eq_of_around (eq_around_of_parseTags h)
  · by_cases hempty : before = ""
    · subst hempty
      have hvalue := h.resolve_left (fun hnot => hnot rfl)
      rw [render_tagged, interpolate_tagged_empty hafter hname htrim, hvalue,
        ← parseTags_around tag hwhole]
      simp [Tag.around, String.append_assoc]
    · rw [render_tagged, interpolate_tagged_of_ne hbefore hempty hafter hname hne htrim,
        valueText_of_get? hvar, parseTags_around tag hwhole]
  · subst hempty
    exact render_tagged_empty tag hafter hname htrim habsent

theorem Template.render_tagged_iff_greeting :
    IsPlain "Dear " ∧ IsPlain "!" ∧ IsPlain "name" ∧ "name" ≠ "" ∧ trimmed "name" = "name" ∧
      IsPlain "Ana" ∧ Fields.get? [("name", .str "Ana")] "name" = some (.str "Ana") ∧
      (tagged .bold "Dear " "name" "!").render (some [("name", .str "Ana")]) =
        .markup [.element .bold [.text "Dear Ana!"]] := by
  have hbefore : IsPlain "Dear " := isBraceless_text_iff.1 (by decide)
  have hafter : IsPlain "!" := isBraceless_text_iff.1 (by decide)
  have hname : IsPlain "name" := isBraceless_text_iff.1 (by decide)
  have hword : IsPlain "Ana" := isBraceless_text_iff.1 (by decide)
  have hne : "name" ≠ "" := by decide
  have htrim : trimmed "name" = "name" := by decide
  have hvar : Fields.get? [("name", .str "Ana")] "name" = some (.str "Ana") := rfl
  have hempty : "Dear " ≠ "" := by decide
  refine ⟨hbefore, hafter, hname, hne, htrim, hword, hvar, ?_⟩
  exact (render_tagged_iff .bold hbefore hafter hname hne htrim hword hvar).1.2 (.inl hempty)

/-- A tag right around a placeholder leaves text, although its variable has no brace in it. -/
theorem Template.render_tagged_tight :
    (tagged .bold "" "n" "").source = "\x7bb\x7b\x7b\x7bn\x7d\x7d\x7d\x7d" ∧
      (tagged .bold "" "n" "").render (some [("n", .str "Ana")]) = .text "\x7bb\x7d\x7d" ∧
      (tagged .bold "" "n" "").render (some [("n", .str "Ana")]) ≠ .formatted .bold "Ana" := by
  have hafter : IsPlain "" := nofun
  have hname : IsPlain "n" := isBraceless_text_iff.1 (by decide)
  have htext : (tagged .bold "" "n" "").render (some [("n", .str "Ana")]) =
      .text "\x7bb\x7d\x7d" :=
    render_tagged_empty .bold hafter hname (by decide) rfl
  refine ⟨by decide, htext, ?_⟩
  rw [htext]
  nofun

end Phrasebook
