import Phrasebook.Proofs.Markup.Nesting
import Phrasebook.Proofs.Markup.Octets

/-!
# The walk over the bytes of a text

On the octets of a text the cursor goes byte by byte, through the middle of characters as well. It
cuts the text all the same between characters: what is pending begins at the start of the text,
behind an opener or behind a closer, every frame ends at a closer or at the end of the text
(`Cursor.Cuts`), and a step keeps that (`Cursor.Cuts.step`). With what the cursor yields this gives
the bounds of all that a step reads (`walks_bytewise`).
-/

namespace Phrasebook

open Markup Text

/-! ## Steps -/

namespace Cursor

section Steps

variable {text : List Char} {table : Array (Option Span)} {cursor : Cursor} {walk : Walk}
  {result : List Node}

/-- All that a step can do, with what it has read. -/
inductive Steps (text : List Char) (table : Array (Option Span)) : Cursor → Walk → Prop where
  | char {pos pending : Nat} {top : Frame} {below : List Frame} :
      pos < top.stop → table[pos]? = some none →
      Steps text table ⟨pos, pending, top :: below⟩ (.walking ⟨pos + 1, pending, top :: below⟩)
  | verbatim {pos pending : Nat} {top : Frame} {below : List Frame} {span : Span}
      {word : List Char} :
      pos < top.stop → table[pos]? = some (some span) →
      cut? text (pos + 1) (span.inner - 1) = some word → tagAt below.length word = none →
      Steps text table ⟨pos, pending, top :: below⟩
        (.walking ⟨span.close + 2, pending, top :: below⟩)
  | opens {pos pending : Nat} {top : Frame} {below : List Frame} {span : Span}
      {word part : List Char} {tag : Tag} :
      pos < top.stop → table[pos]? = some (some span) →
      cut? text (pos + 1) (span.inner - 1) = some word → tagAt below.length word = some tag →
      cut? text pending pos = some part →
      Steps text table ⟨pos, pending, top :: below⟩
        (.walking
          ⟨span.inner, span.inner, ⟨some tag, span.close, []⟩ :: top.addText part :: below⟩)
  | closes {pos pending : Nat} {top parent : Frame} {outer : List Frame} {tag : Tag}
      {part : List Char} :
      top.stop ≤ pos → top.tag = some tag → cut? text pending top.stop = some part →
      Steps text table ⟨pos, pending, top :: parent :: outer⟩
        (.walking ⟨top.stop + 2, top.stop + 2,
          parent.addElement tag (top.addText part).nodes.reverse :: outer⟩)
  | ends {pos pending : Nat} {top : Frame} {below : List Frame} {part : List Char} :
      top.stop ≤ pos → top.tag = none ∨ below = [] → cut? text pending top.stop = some part →
      Steps text table ⟨pos, pending, top :: below⟩ (.finished (top.addText part).nodes.reverse)

theorem steps_of_step (h : cursor.step text table = some walk) : Steps text table cursor walk := by
  obtain ⟨pos, pending, frames⟩ := cursor
  unfold Cursor.step at h
  cases frames with
  | nil => cases h
  | cons top below =>
    simp only at h
    split at h
    · next hstop =>
      split at h
      · cases h
      · next part hpart =>
        split at h
        · next tag parent outer htag =>
          cases h
          exact .closes hstop htag hpart
        · next below _ _ hother =>
          cases h
          refine .ends hstop ?_ hpart
          cases htag : top.tag with
          | none => exact .inl rfl
          | some tag =>
            cases below with
            | nil => exact .inr rfl
            | cons parent outer => exact absurd rfl (hother tag parent outer htag)
    · next hstop =>
      have hlt : pos < top.stop := Nat.not_le.1 hstop
      split at h
      · cases h
      · next hnone =>
        cases h
        exact .char hlt hnone
      · next span hspan =>
        split at h
        · cases h
        · next word hword =>
          split at h
          · next htag =>
            cases h
            exact .verbatim hlt hspan hword ((tagAt_eq _ _).trans htag)
          · next tag htag =>
            split at h
            · cases h
            · next part hpart =>
              cases h
              exact .opens hlt hspan hword ((tagAt_eq _ _).trans htag) hpart

/-- A cursor stands in its innermost frame, and only the outermost one has no tag. -/
theorem Yields.exists_top (h : cursor.Yields text table result) :
    ∃ top below, cursor.frames = top :: below ∧ (top.tag = none ↔ below = []) ∧
      cursor.pending ≤ cursor.pos ∧ cursor.pos ≤ top.stop ∧ top.stop ≤ text.length := by
  obtain @⟨pos, pending, top, below, part, ahead, _, hpart, hreads, hencl⟩ := h
  refine ⟨top, below, rfl, ?_, (bounds_of_cut? hpart).1, hreads.bounds⟩
  obtain ⟨tag, stop, before⟩ := top
  cases hencl with
  | root => exact ⟨fun _ => rfl, fun _ => rfl⟩
  | inside _ _ => exact ⟨nofun, nofun⟩

end Steps

end Cursor

/-! ## Braces -/

def byteMarks (text : String) : List Mark := (bytes text).map Mark.ofByte

def byteTable (text : String) : Array (Option Span) := Span.table (byteMarks text)

variable {text : String} {pos start inner : Nat} {cursor next : Cursor}

theorem ofText_octets (text : String) : Mark.ofText (octets text.toList) = byteMarks text := by
  rw [octets_toList, Mark.ofText, List.map_map]
  rfl

namespace Mark

theorem isAscii_of_ofChar {c : Char} (h : ofChar c ≠ other) : IsAscii c := by
  cases hmark : ofChar c with
  | opening => rw [ofChar_eq_opening.1 hmark]; decide
  | closing => rw [ofChar_eq_closing.1 hmark]; decide
  | word => exact isAscii_of_isWordChar (ofChar_eq_word.1 hmark)
  | other => exact absurd hmark h

theorem isBoundary_of_getElem? {mark : Mark} (h : (byteMarks text)[pos]? = some mark)
    (hmark : mark ≠ other) : IsBoundary text pos ∧ IsBoundary text (pos + 1) := by
  rw [← ofText_octets, ofText, List.getElem?_map, Option.map_eq_some_iff] at h
  obtain ⟨c, hc, rfl⟩ := h
  exact isBoundary_of_getElem?_octets (isAscii_of_ofChar hmark) hc

theorem getElem?_of_prefix_drop {part marks : List Mark} (h : part <+: marks.drop pos) {i : Nat}
    (hi : i < part.length) : marks[pos + i]? = part[i]? := by
  obtain ⟨rest, hrest⟩ := h
  rw [← List.getElem?_drop, ← hrest, List.getElem?_append_left hi]

theorem CloserAt.isBoundary (h : CloserAt (byteMarks text) pos) :
    IsBoundary text pos ∧ IsBoundary text (pos + 2) := by
  have hfirst : (byteMarks text)[pos]? = some closing :=
    getElem?_of_prefix_drop h (i := 0) (by decide)
  have hsecond : (byteMarks text)[pos + 1]? = some closing :=
    getElem?_of_prefix_drop h (by decide)
  exact ⟨(isBoundary_of_getElem? hfirst nofun).1, (isBoundary_of_getElem? hsecond nofun).2⟩

/-- An opener can be cut off in front and behind, and its word is a part of the text. -/
theorem OpenerAt.isBoundary (h : OpenerAt (byteMarks text) start inner) :
    IsBoundary text start ∧ IsSlice text (start + 1) (inner - 1) ∧ IsBoundary text inner := by
  obtain ⟨n, -, rfl, hopener⟩ := h
  have hfirst : (byteMarks text)[start]? = some opening :=
    getElem?_of_prefix_drop hopener (i := 0) (by simp)
  have hlast : (byteMarks text)[start + (n + 1)]? = some opening := by
    rw [getElem?_of_prefix_drop hopener (by simp)]
    simp
  obtain ⟨hstart, hword⟩ := isBoundary_of_getElem? hfirst nofun
  obtain ⟨hend, hinner⟩ := isBoundary_of_getElem? hlast nofun
  exact ⟨hstart, hword.isSlice hend (by omega), hinner⟩

end Mark

/-! ## Cuts -/

namespace Frame

variable {frame : Frame}

/-- A frame ends at a closer, or with the text if it has no tag. -/
def StopsIn (text : String) (frame : Frame) : Prop :=
  match frame.tag with
  | none => frame.stop = (bytes text).length
  | some _ => Mark.CloserAt (byteMarks text) frame.stop

theorem StopsIn.addText (h : frame.StopsIn text) (part : List Char) :
    (frame.addText part).StopsIn text := by
  unfold StopsIn
  rw [tag_addText, stop_addText]
  exact h

theorem StopsIn.addElement (h : frame.StopsIn text) (tag : Tag) (children : List Node) :
    (frame.addElement tag children).StopsIn text := h

theorem StopsIn.isBoundary (h : frame.StopsIn text) : IsBoundary text frame.stop := by
  unfold StopsIn at h
  split at h
  · rw [h]
    exact isBoundary_length text
  · exact h.isBoundary.1

end Frame

namespace Cursor

/-- Where a cursor cuts a text it can be cut. -/
structure Cuts (text : String) (cursor : Cursor) : Prop where
  pending : IsBoundary text cursor.pending
  frames : ∀ frame ∈ cursor.frames, frame.StopsIn text

theorem cuts_start (text : String) : (Cursor.start (bytes text).length).Cuts text where
  pending := isBoundary_zero text
  frames := List.forall_mem_singleton.2 rfl

theorem Cuts.step (h : cursor.Cuts text)
    (hstep : cursor.step (octets text.toList) (byteTable text) = some (.walking next)) :
    next.Cuts text := by
  obtain ⟨hpending, hframes⟩ := h
  cases steps_of_step hstep with
  | char _ _ => exact ⟨hpending, hframes⟩
  | verbatim _ _ _ _ => exact ⟨hpending, hframes⟩
  | @opens pos pending top below span word part tag _ hspan _ _ _ =>
    obtain ⟨hopener, hcloser⟩ :=
      Span.stands_of_mem_all (Span.getElem?_table_eq_some_iff.1 hspan).1
    obtain ⟨htop, hbelow⟩ := List.forall_mem_cons.1 hframes
    have hframes := List.forall_mem_cons.2 ⟨htop.addText part, hbelow⟩
    exact ⟨hopener.isBoundary.2.2, List.forall_mem_cons.2 ⟨hcloser, hframes⟩⟩
  | @closes pos pending top parent outer tag part _ htag _ =>
    obtain ⟨htop, hbelow⟩ := List.forall_mem_cons.1 hframes
    obtain ⟨hparent, houter⟩ := List.forall_mem_cons.1 hbelow
    unfold Frame.StopsIn at htop
    rw [htag] at htop
    exact ⟨htop.isBoundary.2, List.forall_mem_cons.2 ⟨hparent.addElement _ _, houter⟩⟩

/-! ## Visits -/

/-- The walk over the bytes of a text is at the cursor after so many steps. -/
inductive Visits (text : String) : (steps : Nat) → Cursor → Prop where
  | start : Visits text 0 (Cursor.start (bytes text).length)
  | step {steps : Nat} {cursor next : Cursor} : Visits text steps cursor →
      cursor.step (octets text.toList) (byteTable text) = some (.walking next) →
      Visits text (steps + 1) next

variable {steps : Nat}

theorem Visits.cuts (h : Visits text steps cursor) : cursor.Cuts text := by
  induction h with
  | start => exact cuts_start text
  | step _ hstep ih => exact ih.step hstep

theorem yields_start_bytes (text : String) :
    (Cursor.start (bytes text).length).Yields (octets text.toList) (byteTable text)
      (Node.inOctetsAll (parseNodes text.toList)) := by
  have hyields := yields_start (octets text.toList)
  rwa [length_octets, ofText_octets, ← parseNodes_eq, parseNodes_octets] at hyields

/-- The walk yields the nodes of the text, and every step goes on by at least one byte. -/
theorem Visits.yields (h : Visits text steps cursor) :
    cursor.Yields (octets text.toList) (byteTable text)
      (Node.inOctetsAll (parseNodes text.toList)) ∧ steps ≤ cursor.pos := by
  induction h with
  | start => exact ⟨yields_start_bytes text, Nat.le_refl _⟩
  | @step steps cursor next _ hstep ih =>
    obtain ⟨hyields, hle⟩ := ih
    rcases hyields.step with hend | ⟨other, hnext, hyields, hlt⟩
    · cases hstep.symm.trans hend
    · cases hstep.symm.trans hnext
      exact ⟨hyields, by omega⟩

/-- The walk ends in the outermost frame, at the end of the text. -/
theorem Visits.eq_length_of_finished {nodes : List Node} (h : Visits text steps cursor)
    (hstep : cursor.step (octets text.toList) (byteTable text) = some (.finished nodes)) :
    ∃ root, cursor.frames = [root] ∧ root.tag = none ∧ cursor.pos = (bytes text).length := by
  obtain ⟨top, below, htop, hroot, -, hle, -⟩ := h.yields.1.exists_top
  have hstops : top.StopsIn text := h.cuts.frames top (htop ▸ List.mem_cons_self)
  cases steps_of_step hstep with
  | ends hge hnone _ =>
    obtain ⟨rfl, rfl⟩ := List.cons.inj htop
    have hbelow := hnone.elim hroot.1 id
    have htag := hroot.2 hbelow
    unfold Frame.StopsIn at hstops
    rw [htag] at hstops
    exact ⟨_, by rw [hbelow], htag, (Nat.le_antisymm hle hge).trans hstops⟩

/-- What a step reads at a cursor with this innermost frame is in the text and between
characters. -/
structure IsWithin (text : String) (cursor : Cursor) (top : Frame) : Prop where
  pending_le : cursor.pending ≤ cursor.pos
  pos_le : cursor.pos ≤ top.stop
  stop_le : top.stop ≤ (bytes text).length
  entry : cursor.pos < top.stop → cursor.pos < (byteTable text).size
  content : top.stop ≤ cursor.pos → IsSlice text cursor.pending top.stop
  word : ∀ span : Span, cursor.pos < top.stop → (byteTable text)[cursor.pos]? = some (some span) →
    IsSlice text (cursor.pos + 1) (span.inner - 1)
  lead : ∀ span : Span, cursor.pos < top.stop → (byteTable text)[cursor.pos]? = some (some span) →
    IsSlice text cursor.pending cursor.pos

end Cursor

/-- What the walk over the bytes of a text does: it reads within the text at every cursor, each step
goes forward or ends the walk in the outermost frame with the nodes of the text, and there are at
most as many cursors as bytes and one more. -/
structure WalksBytewise (text : String) : Prop where
  within : ∀ (steps : Nat) (cursor : Cursor), Cursor.Visits text steps cursor →
    ∃ top below, cursor.frames = top :: below ∧ cursor.IsWithin text top
  forward : ∀ (steps : Nat) (cursor : Cursor), Cursor.Visits text steps cursor →
    (∃ next, cursor.step (octets text.toList) (byteTable text) = some (.walking next) ∧
      cursor.pos < next.pos) ∨
    ∃ root, cursor.frames = [root] ∧ root.tag = none ∧ cursor.pos = (bytes text).length ∧
      cursor.step (octets text.toList) (byteTable text) =
        some (.finished (Node.inOctetsAll (parseNodes text.toList)))
  short : ∀ (steps : Nat) (cursor : Cursor), Cursor.Visits text steps cursor →
    steps ≤ (bytes text).length
  ends : (Cursor.start (bytes text).length).run (octets text.toList) (byteTable text)
    ((bytes text).length + 1) = some (Node.inOctetsAll (parseNodes text.toList))
  characters : (Cursor.start text.toList.length).run text.toList
    (Span.table (Mark.ofText text.toList)) (text.toList.length + 1) = some (parseNodes text.toList)

/-- **The walk over the bytes of a text is safe**: no cut is out of bounds or inside a character,
and it ends. -/
theorem walks_bytewise (text : String) : WalksBytewise text where
  within steps cursor h := by
    obtain ⟨hyields, -⟩ := h.yields
    obtain ⟨hpending, hframes⟩ := h.cuts
    obtain ⟨top, below, htop, -, hpendingle, hposle, hstople⟩ := hyields.exists_top
    have hstop : IsBoundary text top.stop := (hframes top (htop ▸ List.mem_cons_self)).isBoundary
    rw [length_octets] at hstople
    have hopener (span : Span) (hspan : (byteTable text)[cursor.pos]? = some (some span)) :
        Mark.OpenerAt (byteMarks text) cursor.pos span.inner := by
      obtain ⟨hmem, hstart⟩ := Span.getElem?_table_eq_some_iff.1 hspan
      exact hstart ▸ (Span.stands_of_mem_all hmem).1
    refine ⟨top, below, htop, hpendingle, hposle, hstople, fun hlt => ?_, fun _ => ?_,
      fun span _ hspan => ?_, fun span _ hspan => ?_⟩
    · rw [byteTable, Span.size_table, byteMarks, List.length_map]
      omega
    · exact hpending.isSlice hstop (by omega)
    · exact (hopener span hspan).isBoundary.2.1
    · exact hpending.isSlice (hopener span hspan).isBoundary.1 hpendingle
  forward steps cursor h := by
    rcases h.yields.1.step with hend | ⟨next, hnext, -, hlt⟩
    · obtain ⟨root, hframes, htag, hpos⟩ := h.eq_length_of_finished hend
      exact .inr ⟨root, hframes, htag, hpos, hend⟩
    · exact .inl ⟨next, hnext, hlt⟩
  short steps cursor h := by
    obtain ⟨hyields, hle⟩ := h.yields
    have := hyields.bounds
    rw [length_octets] at this
    omega
  ends := (Cursor.yields_start_bytes text).run
    (by rw [length_octets]; show _ < 0 + _; omega)
  characters := by rw [Cursor.run_start, parseNodes_eq]

end Phrasebook
