import Phrasebook.Proofs.Markup.Grammar
import Phrasebook.Proofs.Markup.Spans

/-!
# What the parser makes of a text

The walk over the table of spans reads a text as the grammar does: a part of the text that the table
is right about reads as the nodes of the grammar (`reads_nodes`), and the table is right about the
whole text.
-/

namespace Phrasebook

/-! ## The walk over a text

The cursor of the parser walks over a text with a stack of open elements. `Reads` says which nodes a
part of a text reads as, by the table of its spans and without a stack. A cursor `Yields` nodes if
what it has, what is ahead of it and what encloses it read as these together. Every step of the
walk keeps what the cursor yields and moves it forward (`Yields.step`), so the walk ends with it
(`Yields.run`).
-/

section

open Markup

/-! ### Cutting -/

section Cut

variable {text a b : List Char} {first last : Nat}

theorem cut?_self (h : first ≤ text.length) : cut? text first first = some [] := by
  unfold cut?
  rw [if_pos ⟨Nat.le_refl _, h⟩, Nat.sub_self, List.take_zero]

theorem bounds_of_cut? (h : cut? text first last = some a) :
    first ≤ last ∧ last ≤ text.length ∧ last = first + a.length := by
  unfold cut? at h
  split at h
  · next hb =>
    obtain rfl := Option.some.inj h
    refine ⟨hb.1, hb.2, ?_⟩
    rw [List.length_take, List.length_drop]
    omega
  · cases h

theorem cut?_append {mid : Nat} (ha : cut? text first mid = some a)
    (hb : cut? text mid last = some b) : cut? text first last = some (a ++ b) := by
  obtain ⟨hle, hlen, hmid⟩ := bounds_of_cut? ha
  obtain ⟨hle', hlen', hlast⟩ := bounds_of_cut? hb
  unfold cut? at ha hb ⊢
  rw [if_pos ⟨hle, hlen⟩] at ha
  rw [if_pos ⟨hle', hlen'⟩] at hb
  rw [if_pos ⟨by omega, hlen'⟩, ← Option.some.inj ha, ← Option.some.inj hb]
  have hsum : last - first = (mid - first) + (last - mid) := by omega
  have hdrop : text.drop mid = (text.drop first).drop (mid - first) := by
    rw [List.drop_drop]; congr 1; omega
  rw [hsum, List.take_add, hdrop]

end Cut

/-! ### What a part reads as -/

/-- At this depth the text from `pos` to `stop` reads as `nodes`. -/
inductive Reads (text : List Char) (table : Array (Option Span)) :
    (depth pos stop : Nat) → (nodes : List Node) → Prop where
  | done {depth pos : Nat} : pos ≤ text.length → Reads text table depth pos pos []
  | char {depth pos stop : Nat} {part : List Char} {nodes : List Node} :
      cut? text pos (pos + 1) = some part → table[pos]? = some none →
      Reads text table depth (pos + 1) stop nodes →
      Reads text table depth pos stop (literal part nodes)
  | verbatim {depth pos stop : Nat} {span : Span} {word part : List Char} {nodes : List Node} :
      table[pos]? = some (some span) → cut? text (pos + 1) (span.inner - 1) = some word →
      tagAt depth word = none → cut? text pos (span.close + 2) = some part →
      pos < span.close + 2 → Reads text table depth (span.close + 2) stop nodes →
      Reads text table depth pos stop (literal part nodes)
  | element {depth pos stop : Nat} {span : Span} {word : List Char} {tag : Tag}
      {children nodes : List Node} :
      table[pos]? = some (some span) → cut? text (pos + 1) (span.inner - 1) = some word →
      tagAt depth word = some tag → pos < span.inner →
      Reads text table (depth + 1) span.inner span.close children →
      Reads text table depth (span.close + 2) stop nodes →
      Reads text table depth pos stop (.element tag children :: nodes)

variable {text : List Char} {table : Array (Option Span)} {depth pos stop : Nat}
  {part : List Char} {nodes result : List Node}

theorem Reads.bounds (h : Reads text table depth pos stop nodes) :
    pos ≤ stop ∧ stop ≤ text.length := by
  induction h with
  | done hle => exact ⟨Nat.le_refl _, hle⟩
  | char _ _ _ ih => omega
  | verbatim _ _ _ _ _ _ ih => omega
  | element _ _ _ _ _ _ ihInner ihRest => omega

/-! ### What a cursor yields -/

/-- When the innermost frame is left with `nodes`, the frames around it and what is ahead of them
give `result`. -/
inductive Encloses (text : List Char) (table : Array (Option Span)) :
    (below : List Frame) → (tag : Option Tag) → (stop : Nat) → (nodes result : List Node) →
      Prop where
  | root {stop : Nat} {nodes : List Node} : Encloses text table [] none stop nodes nodes
  | inside {parent : Frame} {outer : List Frame} {tag : Tag} {stop : Nat}
      {nodes ahead result : List Node} :
      Reads text table outer.length (stop + 2) parent.stop ahead →
      Encloses text table outer parent.tag parent.stop
        ((parent.addElement tag nodes).nodes.reverse ++ ahead) result →
      Encloses text table (parent :: outer) (some tag) stop nodes result

/-- What is pending is merged with the text ahead of it. -/
inductive Cursor.Yields (text : List Char) (table : Array (Option Span)) :
    Cursor → (result : List Node) → Prop where
  | intro {pos pending : Nat} {top : Frame} {below : List Frame} {part : List Char}
      {ahead result : List Node} :
      cut? text pending pos = some part →
      Reads text table below.length pos top.stop ahead →
      Encloses text table below top.tag top.stop (top.nodes.reverse ++ literal part ahead) result →
      Cursor.Yields text table ⟨pos, pending, top :: below⟩ result

theorem Frame.reverse_nodes_addText (frame : Frame) (part : List Char) :
    (frame.addText part).nodes.reverse = frame.nodes.reverse ++ literal part [] := by
  unfold Frame.addText literal
  cases part with
  | nil => exact (List.append_nil _).symm
  | cons c rest => exact List.reverse_cons

theorem Frame.stop_addText (frame : Frame) (part : List Char) :
    (frame.addText part).stop = frame.stop := by
  unfold addText; split <;> rfl

theorem Frame.tag_addText (frame : Frame) (part : List Char) :
    (frame.addText part).tag = frame.tag := by
  unfold addText; split <;> rfl

namespace Cursor

/-! ### Steps -/

variable {cursor : Cursor} {top parent : Frame} {below outer : List Frame} {before : List Node}
  {word : List Char} {tag : Tag} {span : Span} {pending : Nat}

theorem step_finish (hpart : cut? text pending stop = some part) :
    step text table ⟨stop, pending, [⟨none, stop, before⟩]⟩ =
      some (.finished (before.reverse ++ literal part [])) := by
  have hnodes := Frame.reverse_nodes_addText ⟨none, stop, before⟩ part
  rw [← hnodes]
  simp only [step, Nat.le_refl, if_true, hpart]

theorem step_close (hpart : cut? text pending stop = some part) :
    step text table ⟨stop, pending, ⟨some tag, stop, before⟩ :: parent :: outer⟩ =
      some (.walking ⟨stop + 2, stop + 2,
        parent.addElement tag (before.reverse ++ literal part []) :: outer⟩) := by
  have hnodes := Frame.reverse_nodes_addText ⟨some tag, stop, before⟩ part
  rw [← hnodes]
  simp only [step, Nat.le_refl, if_true, hpart]

theorem step_char (hlt : pos < top.stop) (hnone : table[pos]? = some none) :
    step text table ⟨pos, pending, top :: below⟩ =
      some (.walking ⟨pos + 1, pending, top :: below⟩) := by
  simp only [step, Nat.not_le.2 hlt, if_false, hnone]

theorem step_verbatim (hlt : pos < top.stop) (hspan : table[pos]? = some (some span))
    (hword : cut? text (pos + 1) (span.inner - 1) = some word)
    (htag : tagAt below.length word = none) :
    step text table ⟨pos, pending, top :: below⟩ =
      some (.walking ⟨span.close + 2, pending, top :: below⟩) := by
  rw [tagAt_eq] at htag
  simp only [step, Nat.not_le.2 hlt, if_false, hspan, hword, htag]

theorem step_open (hlt : pos < top.stop) (hspan : table[pos]? = some (some span))
    (hword : cut? text (pos + 1) (span.inner - 1) = some word)
    (htag : tagAt below.length word = some tag) (hpart : cut? text pending pos = some part) :
    step text table ⟨pos, pending, top :: below⟩ =
      some (.walking ⟨span.inner, span.inner,
        ⟨some tag, span.close, []⟩ :: top.addText part :: below⟩) := by
  rw [tagAt_eq] at htag
  simp only [step, Nat.not_le.2 hlt, if_false, hspan, hword, htag, hpart]

theorem Yields.bounds (h : cursor.Yields text table result) : cursor.pos ≤ text.length := by
  cases h with
  | intro _ hreads _ =>
    have := hreads.bounds
    exact Nat.le_trans this.1 this.2

/-- An element is opened: the text that was pending belongs to the frame around it. -/
theorem Yields.open {children ahead : List Node}
    (hlength : span.close + 2 ≤ text.length)
    (hchildren : Reads text table (below.length + 1) span.inner span.close children)
    (hahead : Reads text table below.length (span.close + 2) top.stop ahead)
    (hencl : Encloses text table below top.tag top.stop
      (top.nodes.reverse ++ literal part (.element tag children :: ahead)) result) :
    Cursor.Yields text table
      ⟨span.inner, span.inner, ⟨some tag, span.close, []⟩ :: top.addText part :: below⟩ result := by
  have hclose := hchildren.bounds
  have hadded : ((top.addText part).addElement tag children).nodes.reverse ++ ahead =
      top.nodes.reverse ++ literal part (.element tag children :: ahead) := by
    unfold Frame.addElement
    rw [List.reverse_cons, Frame.reverse_nodes_addText, literal_element]
    simp
  have hparent : Encloses text table (top.addText part :: below) (some tag) span.close children
      result := by
    refine .inside (by rw [Frame.stop_addText]; exact hahead) ?_
    rw [Frame.stop_addText, Frame.tag_addText, hadded]
    exact hencl
  exact .intro (cut?_self (by omega)) hchildren hparent

/-- Every step ends the walk with what the cursor yields, or moves the cursor forward and keeps what
it yields. -/
theorem Yields.step (h : cursor.Yields text table result) :
    cursor.step text table = some (.finished result) ∨
      ∃ next, cursor.step text table = some (.walking next) ∧ next.Yields text table result ∧
        cursor.pos < next.pos := by
  obtain @⟨pos, pending, ⟨tag, stop, before⟩, below, part, ahead, _, hpart, hreads, hencl⟩ := h
  have hbounds : pos ≤ stop ∧ stop ≤ text.length := hreads.bounds
  cases hreads with
  | done _ =>
    cases hencl with
    | root => exact .inl (step_finish hpart)
    | @inside parent outer tag _ _ ahead _ hahead hencl =>
      have hahead' := hahead.bounds
      refine .inr ⟨_, step_close hpart, .intro (cut?_self (by omega)) hahead hencl, ?_⟩
      exact Nat.lt_add_of_pos_right (by decide)
  | @char _ _ _ next rest hnext hnone hrest =>
    have hlt : pos < stop := hrest.bounds.1
    rw [← literal_append] at hencl
    exact .inr ⟨_, step_char hlt hnone, .intro (cut?_append hpart hnext) hrest hencl,
      Nat.lt_succ_self pos⟩
  | @verbatim _ _ _ span word kept rest hspan hword htag hkept hforth hrest =>
    have hlt : pos < stop := Nat.lt_of_lt_of_le hforth hrest.bounds.1
    rw [← literal_append] at hencl
    exact .inr ⟨_, step_verbatim hlt hspan hword htag,
      .intro (cut?_append hpart hkept) hrest hencl, hforth⟩
  | @element _ _ _ span word found children rest hspan hword htag hforth hchildren hrest =>
    have hclose := hchildren.bounds
    have hstop : span.close + 2 ≤ stop := hrest.bounds.1
    exact .inr ⟨_, step_open (show pos < stop by omega) hspan hword htag hpart,
      .open (by omega) hchildren hrest hencl, hforth⟩

/-- A walk that is long enough ends with what the cursor yields. -/
theorem Yields.run (h : cursor.Yields text table result) {steps : Nat}
    (hsteps : text.length < cursor.pos + steps) :
    cursor.run text table steps = some result := by
  induction steps generalizing cursor with
  | zero =>
    have := h.bounds
    omega
  | succ steps ih =>
    unfold Cursor.run
    rcases h.step with hend | ⟨next, hnext, hyields, hlt⟩
    · rw [hend]
    · rw [hnext]
      exact ih hyields (by omega)

end Cursor

end

/-! ## The nodes of the grammar -/

section

open Markup

variable {text s : List Char} {table : Array (Option Span)} {depth pos stop : Nat}
  {nodes : List Node}

/-- `s` stands in the text at `pos`. -/
def Stands (text : List Char) (pos : Nat) (s : List Char) : Prop :=
  cut? text pos (pos + s.length) = some s

theorem stands_self (text : List Char) : Stands text 0 text := by
  unfold Stands cut?
  simp

theorem Stands.append {a b : List Char} (h : Stands text pos (a ++ b)) :
    Stands text pos a ∧ Stands text (pos + a.length) b := by
  unfold Stands cut? at h ⊢
  rw [List.length_append] at h
  split at h
  · next hbounds =>
    have htake : (text.drop pos).take (a.length + b.length) = a ++ b := by
      rw [← Option.some.inj h]; congr 1; omega
    have hdrop : text.drop (pos + a.length) = (text.drop pos).drop a.length :=
      List.drop_drop.symm
    constructor
    · rw [if_pos (by omega), Nat.add_sub_cancel_left]
      have := congrArg (List.take a.length) htake
      rw [List.take_take, Nat.min_eq_left (by omega), List.take_left] at this
      rw [this]
    · rw [if_pos (by omega), Nat.add_sub_cancel_left, hdrop]
      have := congrArg (List.drop a.length) htake
      rw [List.drop_take, Nat.add_sub_cancel_left, List.drop_left] at this
      rw [this]
  · cases h

theorem Reads.chars {part : List Char} (hpart : Stands text pos part)
    (hnone : ∀ i, pos ≤ i → i < pos + part.length → table[i]? = some none)
    (h : Reads text table depth (pos + part.length) stop nodes) :
    Reads text table depth pos stop (literal part nodes) := by
  induction part generalizing pos with
  | nil => exact h
  | cons c rest ih =>
    have hsum : pos + (c :: rest).length = pos + 1 + rest.length := by
      rw [List.length_cons]; omega
    rw [hsum] at hnone h
    obtain ⟨hc, hrest⟩ := hpart.append (a := [c])
    have htail := ih hrest (fun i hlo hhi => hnone i (by omega) hhi) h
    have hlit : literal (c :: rest) nodes = literal [c] (literal rest nodes) :=
      literal_append [c] rest nodes
    rw [hlit]
    exact .char hc (hnone pos (Nat.le_refl _) (by omega)) htail

/-- Every part of a text reads as the grammar says. -/
theorem reads_nodes (depth : Nat) (hstands : Stands text pos s)
    (htable : Span.Charts table s pos) :
    Reads text table depth pos (pos + s.length) (Markup.nodes depth s) := by
  induction s using pieceInduction generalizing pos depth with
  | nil =>
    rw [nodes_nil]
    have := bounds_of_cut? hstands
    exact .done this.2.1
  | char c rest hopen ih =>
    obtain ⟨hc, hrest⟩ := hstands.append (a := [c])
    obtain ⟨hnone, htable⟩ := htable.char hopen
    have hread := ih depth hrest htable
    rw [nodes_char hopen, List.length_cons, Nat.add_comm rest.length, ← Nat.add_assoc]
    exact .char hc hnone hread
  | unclosed s word after hopen hclose ih =>
    obtain ⟨hnone, htable⟩ := htable.unclosed hopen hclose
    have heq : s = ('{' :: (word ++ ['{'])) ++ after := by rw [eq_of_opener? hopen]; simp
    have hlength : ('{' :: (word ++ ['{'])).length = word.length + 2 := by simp
    rw [heq] at hstands
    obtain ⟨hopener, hafter⟩ := hstands.append
    have hsum : pos + s.length = pos + (word.length + 2) + after.length := by
      rw [heq, List.length_append, hlength]; omega
    rw [hlength] at hafter
    have hread := ih depth hafter htable
    rw [nodes_unclosed hopen hclose, hsum]
    exact .chars hopener (hlength ▸ hnone) (hlength ▸ hread)
  | closed s word after inner rest hopen hclose ihInner ihRest =>
    obtain ⟨hspan, hinner, hrest⟩ := htable.closed hopen hclose
    let part := '{' :: (word ++ '{' :: (inner ++ ['}', '}']))
    have heq : s = part ++ rest := by rw [eq_of_opener? hopen, eq_of_closer? hclose]; simp [part]
    have hlength : pos + part.length = pos + (word.length + 2) + inner.length + 2 := by
      simp only [part, List.length_cons, List.length_append, List.length_nil]; omega
    rw [heq] at hstands
    obtain ⟨hpart, hbehind⟩ := hstands.append
    obtain ⟨hword, hin⟩ := (hpart.append (a := ['{'])).2.append
    obtain ⟨hin, -⟩ := (hin.append (a := ['{'])).2.append
    have hfirst : pos + ['{'].length + word.length + ['{'].length = pos + (word.length + 2) := by
      simp only [List.length_singleton]; omega
    have hsum : pos + s.length = pos + part.length + rest.length := by
      rw [heq, List.length_append]; omega
    rw [hfirst] at hin
    rw [← hlength] at hrest
    have hahead := ihRest depth hbehind hrest
    have hcut : cut? text (pos + 1) (pos + (word.length + 2) - 1) = some word := by
      have hlast : pos + (word.length + 2) - 1 = pos + 1 + word.length := by omega
      rw [hlast]; exact hword
    rw [nodes_closed hopen hclose, hsum]
    cases htag : tagAt depth word with
    | some tag =>
      refine .element hspan hcut htag ?_ (ihInner (depth + 1) hin hinner) (hlength ▸ hahead)
      show pos < pos + (word.length + 2)
      omega
    | none =>
      refine .verbatim hspan hcut htag (hlength ▸ hpart) ?_ (hlength ▸ hahead)
      show pos < pos + (word.length + 2) + inner.length + 2
      omega

theorem Cursor.yields_start (text : List Char) :
    (Cursor.start text.length).Yields text (Span.table (Mark.ofText text))
      (Markup.nodes 0 text) := by
  have hread := reads_nodes 0 (stands_self text) (Span.charts_table text)
  rw [Nat.zero_add] at hread
  exact .intro (cut?_self (Nat.zero_le _)) hread .root

theorem Cursor.run_start (text : List Char) :
    (Cursor.start text.length).run text (Span.table (Mark.ofText text)) (text.length + 1) =
      some (Markup.nodes 0 text) :=
  (Cursor.yields_start text).run (by show text.length < 0 + (text.length + 1); omega)

theorem parseNodes_eq (text : List Char) : parseNodes text = Markup.nodes 0 text := by
  unfold parseNodes
  simp only [Cursor.run_start, Option.getD_some]

theorem ofNodes_of_hasElement (h : hasElement nodes = true) :
    Rendered.ofNodes nodes = .markup nodes := by
  unfold Rendered.ofNodes
  split
  · cases h
  · cases h
  · rfl

/-- **The parser agrees with the grammar**: what it makes of a text are the nodes of the grammar, or
the text itself if none of them is an element. -/
theorem parseTags_eq (text : String) :
    parseTags text =
      if hasElement (Markup.nodes 0 text.toList) then .markup (Markup.nodes 0 text.toList)
      else .text text := by
  unfold parseTags
  rw [parseNodes_eq]
  cases h : hasElement (Markup.nodes 0 text.toList) with
  | true => rw [if_pos rfl, ofNodes_of_hasElement h]
  | false =>
    rw [if_neg (by decide), nodes_of_not_hasElement h]
    unfold literal
    split
    · next hempty =>
      rw [List.isEmpty_iff, String.toList_eq_nil_iff] at hempty
      rw [hempty]
      rfl
    · show Rendered.text (String.ofList text.toList) = .text text
      rw [String.ofList_toList]

end

end Phrasebook
