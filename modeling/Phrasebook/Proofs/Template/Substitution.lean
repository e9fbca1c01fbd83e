import Phrasebook.Proofs.Template.Pattern
import Phrasebook.Proofs.Template.Variables

/-!
# Substitution

A text is read in one way as literal text and placeholders, the leftmost that do not overlap
(`laidOut_iff`). What is put in stands where the placeholders stood, and all else stays
(`substitutes`), so nothing that is put in is read again.
-/

namespace Phrasebook

open Text

variable {s t lead run rest name trail : List Char} {c : Char} {text : String}

/-! ## Layouts -/

/-- A placeholder by its run, and the literal text between it and the next one. -/
structure Hole where
  run : List Char
  next : List Char

/-- A text as literal text and placeholders. -/
structure Layout where
  lead : List Char
  holes : List Hole

namespace Layout

/-- The literal text, with what `fill` makes of the runs in the places of the placeholders. -/
def filled (fill : List Char → List Char) (layout : Layout) : List Char :=
  layout.lead ++ layout.holes.flatMap fun hole => fill hole.run ++ hole.next

def ofPieces : List Piece → Layout
  | [] => ⟨[], []⟩
  | .literal c :: rest => ⟨c :: (ofPieces rest).lead, (ofPieces rest).holes⟩
  | .placeholder run :: rest => ⟨[], ⟨run, (ofPieces rest).lead⟩ :: (ofPieces rest).holes⟩

theorem ofPieces_append_literal (lead : List Char) (rest : List Piece) :
    ofPieces (lead.map .literal ++ rest) =
      ⟨lead ++ (ofPieces rest).lead, (ofPieces rest).holes⟩ := by
  induction lead with
  | nil => rfl
  | cons c lead ih => rw [List.map_cons, List.cons_append, ofPieces, ih]; rfl

/-- What is made of pieces one by one is made of their layout. -/
theorem flatMap_eq_filled {f : Piece → List Char} (hliteral : ∀ c, f (.literal c) = [c])
    (pieces : List Piece) :
    pieces.flatMap f = (ofPieces pieces).filled fun run => f (.placeholder run) := by
  induction pieces with
  | nil => rfl
  | cons piece rest ih =>
    rw [List.flatMap_cons, ih]
    cases piece with
    | literal c => rw [hliteral]; rfl
    | placeholder run => simp [ofPieces, filled]

theorem filterMap_name?_eq (pieces : List Piece) :
    pieces.filterMap Piece.name? =
      (ofPieces pieces).holes.map fun hole => String.ofList (Piece.nameOf hole.run) := by
  induction pieces with
  | nil => rfl
  | cons piece rest ih =>
    cases piece with
    | literal c => exact ih
    | placeholder run =>
      rw [ofPieces, List.map_cons, ← ih]
      rfl

end Layout

/-! ## Reading -/

/-- A placeholder stands at the start of a text. -/
def StartsPlaceholder (s : List Char) : Prop :=
  ∃ run after, s = '{' :: '{' :: (run ++ '}' :: '}' :: after) ∧ run ≠ [] ∧ '}' ∉ run

/-- No placeholder begins in `lead` when `rest` follows it. -/
def IsFree (lead rest : List Char) : Prop :=
  ∀ part, part ≠ [] → part <:+ lead → ¬ StartsPlaceholder (part ++ rest)

/-- The text is read from left to right: up to the first placeholder it is literal, and behind that
it is read in the same way. -/
inductive LaidOut : List Char → Layout → Prop where
  | literal {lead : List Char} : IsFree lead [] → LaidOut lead ⟨lead, []⟩
  | hole {lead run rest : List Char} {layout : Layout} : run ≠ [] → '}' ∉ run →
      IsFree lead ('{' :: '{' :: (run ++ '}' :: '}' :: rest)) → LaidOut rest layout →
      LaidOut (lead ++ '{' :: '{' :: (run ++ '}' :: '}' :: rest))
        ⟨lead, ⟨run, layout.lead⟩ :: layout.holes⟩

theorem placeholder?_eq_none_iff : placeholder? s = none ↔ ¬ StartsPlaceholder s := by
  constructor
  · rintro h ⟨run, after, hhole⟩
    rw [placeholder?_eq_some_iff.2 hhole] at h
    cases h
  · intro h
    cases hsome : placeholder? s with
    | none => rfl
    | some hole => exact absurd ⟨hole.1, hole.2, placeholder?_eq_some_iff.1 hsome⟩ h

theorem pieces_literal (h : ¬ StartsPlaceholder (c :: s)) :
    pieces (c :: s) = .literal c :: pieces s := by
  rw [pieces]
  split
  · next hsome => rw [placeholder?_eq_none_iff.2 h] at hsome; cases hsome
  · rfl

theorem pieces_placeholder (hne : run ≠ []) (hrun : '}' ∉ run) (rest : List Char) :
    pieces ('{' :: '{' :: (run ++ '}' :: '}' :: rest)) = .placeholder run :: pieces rest := by
  have hfound : placeholder? ('{' :: '{' :: (run ++ '}' :: '}' :: rest)) = some (run, rest) :=
    placeholder?_eq_some_iff.2 ⟨rfl, hne, hrun⟩
  rw [pieces]
  split
  · next hsome =>
    obtain ⟨rfl, rfl⟩ := Prod.mk.inj (Option.some.inj (hsome.symm.trans hfound))
    rfl
  · next hnone => cases hnone.symm.trans hfound

theorem IsFree.of_cons (h : IsFree (c :: lead) rest) : IsFree lead rest :=
  fun part hne hsuffix => h part hne (hsuffix.trans (List.suffix_cons c lead))

theorem IsFree.cons (h : IsFree lead rest) (hnot : ¬ StartsPlaceholder (c :: (lead ++ rest))) :
    IsFree (c :: lead) rest := by
  intro part hne hsuffix
  rcases List.suffix_cons_iff.1 hsuffix with rfl | hsuffix
  · exact hnot
  · exact h part hne hsuffix

theorem IsFree.nil (rest : List Char) : IsFree [] rest :=
  fun _ hne hsuffix => absurd (List.suffix_nil.1 hsuffix) hne

theorem IsFree.pieces_append (h : IsFree lead rest) :
    pieces (lead ++ rest) = lead.map .literal ++ pieces rest := by
  induction lead with
  | nil => rfl
  | cons c lead ih =>
    have hnot : ¬ StartsPlaceholder (c :: (lead ++ rest)) :=
      h (c :: lead) (List.cons_ne_nil _ _) List.suffix_rfl
    rw [List.cons_append, pieces_literal hnot, ih h.of_cons]
    rfl

theorem LaidOut.cons {layout : Layout} (h : LaidOut s layout)
    (hnot : ¬ StartsPlaceholder (c :: s)) :
    LaidOut (c :: s) ⟨c :: layout.lead, layout.holes⟩ := by
  cases h with
  | literal hfree => exact .literal (hfree.cons (by rwa [List.append_nil]))
  | hole hne hrun hfree hrest => exact .hole hne hrun (hfree.cons hnot) hrest

/-- **There is one way to read a text**, and its pieces are read in this way. -/
theorem laidOut_iff {layout : Layout} : LaidOut s layout ↔ layout = .ofPieces (pieces s) := by
  constructor
  · intro h
    induction h with
    | @literal lead hfree =>
      have hpieces := hfree.pieces_append
      rw [List.append_nil] at hpieces
      rw [hpieces, Layout.ofPieces_append_literal]
      simp [pieces, Layout.ofPieces]
    | hole hne hrun hfree _ ih =>
      rw [hfree.pieces_append, Layout.ofPieces_append_literal, pieces_placeholder hne hrun,
        Layout.ofPieces, ← ih, List.append_nil]
  · rintro rfl
    fun_induction pieces s with
    | case1 => exact .literal (.nil [])
    | case2 c rest run after h _ ih =>
      obtain ⟨heq, hne, hrun⟩ := placeholder?_eq_some_iff.1 h
      rw [heq]
      exact .hole hne hrun (.nil _) ih
    | case3 c rest h ih => exact ih.cons (placeholder?_eq_none_iff.1 h)

/-! ## Names -/

/-- The name in a run: the run without the white space around it, or the last character of a run
that is all white space. -/
inductive IsName : (run name : List Char) → Prop where
  | core {lead name trail : List Char} : (∀ c ∈ lead, isBlank c = true) →
      (∀ c ∈ trail, isBlank c = true) → name ≠ [] → (∀ c ∈ name.head?, isBlank c = false) →
      (∀ c ∈ name.getLast?, isBlank c = false) → IsName (lead ++ (name ++ trail)) name
  | last {lead : List Char} {c : Char} : (∀ x ∈ lead, isBlank x = true) → isBlank c = true →
      IsName (lead ++ [c]) [c]

theorem IsName.cons_of_blank (h : IsName run name) (hc : isBlank c = true) :
    IsName (c :: run) name := by
  cases h with
  | @core lead _ trail hlead htrail hne hhead hlast =>
    have hmore : IsName ((c :: lead) ++ (name ++ trail)) name :=
      .core (List.forall_mem_cons.2 ⟨hc, hlead⟩) htrail hne hhead hlast
    exact hmore
  | @last lead last hlead hlast =>
    have hmore : IsName ((c :: lead) ++ [last]) [last] :=
      .last (List.forall_mem_cons.2 ⟨hc, hlead⟩) hlast
    exact hmore

theorem isName_nameOf (hne : run ≠ []) : IsName run (Piece.nameOf run) := by
  induction run with
  | nil => exact absurd rfl hne
  | cons c run ih =>
    cases hc : isBlank c with
    | true =>
      by_cases hrun : run = []
      · subst hrun
        have hsingle : IsName ([] ++ [c]) [c] := .last nofun hc
        rw [Piece.nameOf_singleton]
        exact hsingle
      · rw [Piece.nameOf_cons_of_blank hc hrun]
        exact (ih hrun).cons_of_blank hc
    | false =>
      obtain ⟨trail, heq, htrail, hlast⟩ := exists_trail run
      have hhead : ∀ x ∈ (c :: trimEnd run).head?, isBlank x = false := by simpa using hc
      have hend : ∀ x ∈ (c :: trimEnd run).getLast?, isBlank x = false := by
        rw [List.getLast?_cons]
        cases hl : (trimEnd run).getLast? with
        | none => simpa using hc
        | some last => simpa using hlast last hl
      have hcore : IsName ([] ++ (c :: trimEnd run ++ trail)) (c :: trimEnd run) :=
        .core nofun htrail (List.cons_ne_nil _ _) hhead hend
      rw [Piece.nameOf_cons_of_not_blank hc]
      nth_rewrite 1 [heq]
      exact hcore

theorem nameOf_append_of_blank (h : ∀ x ∈ lead, isBlank x = true) (hne : run ≠ []) :
    Piece.nameOf (lead ++ run) = Piece.nameOf run := by
  induction lead with
  | nil => rfl
  | cons c lead ih =>
    obtain ⟨hc, hlead⟩ := List.forall_mem_cons.1 h
    rw [List.cons_append, Piece.nameOf_cons_of_blank hc (by simp [hne]), ih hlead]

theorem isName_iff (hne : run ≠ []) : IsName run name ↔ name = Piece.nameOf run := by
  constructor
  · intro h
    cases h with
    | @core lead name trail hlead htrail hname hhead hlast =>
      rw [nameOf_append_of_blank hlead (by simp [hname])]
      cases name with
      | nil => exact absurd rfl hname
      | cons c name =>
        have hc : isBlank c = false := hhead c rfl
        have hend : ∀ x ∈ name.getLast?, isBlank x = false := fun x hx =>
          hlast x (by rw [List.getLast?_cons, Option.mem_def.1 hx]; rfl)
        rw [List.cons_append, Piece.nameOf_cons_of_not_blank hc, trimEnd_append htrail,
          trimEnd_eq_self hend]
    | last hlead _ =>
      rw [nameOf_append_of_blank hlead (List.cons_ne_nil _ _), Piece.nameOf_singleton]
  · rintro rfl
    exact isName_nameOf hne

/-! ## What is put in -/

theorem LaidOut.run_ne_nil {layout : Layout} (h : LaidOut s layout) :
    ∀ hole ∈ layout.holes, hole.run ≠ [] := by
  induction h with
  | literal _ => nofun
  | hole hne _ _ _ ih => exact List.forall_mem_cons.2 ⟨hne, ih⟩

theorem valueText_eq (vars : Option Fields) (name : String) :
    valueText vars name = ((vars.bind (·.get? name)).map Json.display).getD "" := by
  unfold valueText
  cases vars with
  | none => rfl
  | some fields =>
    rw [Option.getD_some, Option.bind_some]
    cases fields.get? name <;> rfl

/-- What a text comes to with its variables, by its layout. -/
structure Substitutes (text : String) (layout : Layout) : Prop where
  unique : ∀ other, LaidOut text.toList other ↔ other = layout
  written : layout.filled (fun run => '{' :: '{' :: (run ++ ['}', '}'])) = text.toList
  placeholders_eq : placeholders text =
    layout.holes.map fun hole => String.ofList (Piece.nameOf hole.run)
  name_iff : ∀ hole ∈ layout.holes, ∀ name, IsName hole.run name ↔ name = Piece.nameOf hole.run
  /-- A variable that is absent has no text. -/
  interpolate_eq : ∀ vars, (interpolate text vars).toList = layout.filled fun run =>
    (((vars.bind (·.get? (String.ofList (Piece.nameOf run)))).map Json.display).getD "").toList
  congr : ∀ vars vars', AgreeOn (placeholders text) vars vars' →
    interpolate text vars = interpolate text vars'

theorem substitutes_pieces (text : String) :
    Substitutes text (.ofPieces (pieces text.toList)) where
  unique _ := laidOut_iff
  written := (Layout.flatMap_eq_filled (fun _ => rfl) _).symm.trans (written_pieces _)
  placeholders_eq := Layout.filterMap_name?_eq _
  name_iff hole hmem _ := isName_iff ((laidOut_iff.2 rfl).run_ne_nil hole hmem)
  interpolate_eq vars := by
    have hfilled := Layout.flatMap_eq_filled (f := Piece.filled vars) (fun _ => rfl)
      (pieces text.toList)
    unfold interpolate
    rw [String.toList_ofList, hfilled]
    simp only [Piece.filled, valueText_eq]
  congr _ _ := interpolate_congr

/-- **Variables are put in once, from left to right.** A text has one layout of literal text and the
leftmost placeholders that do not overlap; the names in these are its placeholders, and with
variables it is the same layout with their texts in place of the placeholders. The pattern of a
placeholder can be read just where one of these begins, and then it prefers this run and this
name. -/
theorem substitutes (text : String) :
    (∃ layout : Layout, Substitutes text layout) ∧ Json.display .null = "" ∧
    (∀ run rest, run ≠ [] → '}' ∉ run →
      (Pattern.ways ('{' :: '{' :: (run ++ '}' :: '}' :: rest))).head?
        = some (Piece.nameOf run, rest)) ∧
    ∀ s, Pattern.ways s ≠ [] → StartsPlaceholder s := by
  refine ⟨⟨_, substitutes_pieces text⟩, rfl, fun run rest hne hrun => ?_, fun s hways => ?_⟩
  · rw [Pattern.head?_ways, placeholder?_eq_some_iff.2 ⟨rfl, hne, hrun⟩, Option.map_some]
  · obtain ⟨way, hmem⟩ := List.exists_mem_of_ne_nil _ hways
    obtain ⟨run, hfound⟩ := Pattern.placeholder?_of_mem_ways hmem
    exact ⟨run, way.2, placeholder?_eq_some_iff.1 hfound⟩

end Phrasebook
