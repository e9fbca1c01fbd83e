import Phrasebook.Proofs.Markup.Printing

/-!
# The openers of a text

The scanner pairs openers with closers, and only pairs are left in the end. `Span.readings` lists
all that it reads, in order and before it is paired (`scan_eq_paired`), so an opener that is never
closed is there too. The words of these openers are the leftmost matches of `\{([A-Za-z0-9_]+)\{`
that do not overlap (`leftmostOpeners_iff`), whatever closers stand between them, and every element
of the parsed text has the word of one of them for its name (`name_mem_openerWords`).
-/

namespace Phrasebook

open Markup

variable {s lead word after rest text : List Char} {words : List (List Char)} {c : Char}
  {pos depth : Nat}

/-! ## What the scanner reads -/

namespace Span

/-- An opener, by where it starts and where its content starts, or a closer of the innermost opener
that is still open. -/
inductive Reading where
  | opener (start inner : Nat)
  | closer (pos : Nat)

/-- What the scanner reads in `marks`, which stand at position `pos`, while `depth` openers are
open. Where none is open there is nothing to close. -/
def readings (marks : List Mark) (pos depth : Nat) : List Reading :=
  match marks with
  | [] => []
  | mark :: rest =>
    match h : Mark.openerLength? (mark :: rest) with
    | some length =>
      have : 2 < length := Mark.two_lt_of_openerLength? h
      .opener pos (pos + length)
        :: readings ((mark :: rest).drop length) (pos + length) (depth + 1)
    | none =>
      if mark = .closing ∧ rest.head? = some .closing then
        match depth with
        | outer + 1 => .closer pos :: readings (rest.drop 1) (pos + 2) outer
        | 0 => readings rest (pos + 1) 0
      else readings rest (pos + 1) depth
termination_by marks.length
decreasing_by all_goals simp only [List.length_drop, List.length_cons]; omega

section Equations

variable {mark : Mark} {marks : List Mark} {length : Nat}

theorem readings_opener (h : Mark.openerLength? (mark :: marks) = some length) (pos depth : Nat) :
    readings (mark :: marks) pos depth =
      .opener pos (pos + length)
        :: readings ((mark :: marks).drop length) (pos + length) (depth + 1) := by
  conv => lhs; unfold readings
  split
  · next length' h' =>
    obtain rfl := Option.some.inj (h.symm.trans h')
    rfl
  · next h' => cases h.symm.trans h'

theorem readings_closer (h : Mark.openerLength? (mark :: marks) = none)
    (hclose : mark = .closing ∧ marks.head? = some .closing) (pos depth : Nat) :
    readings (mark :: marks) pos (depth + 1) =
      .closer pos :: readings (marks.drop 1) (pos + 2) depth := by
  conv => lhs; unfold readings
  split
  · next h' => cases h.symm.trans h'
  · exact if_pos hclose

theorem readings_skip (h : Mark.openerLength? (mark :: marks) = none)
    (hskip : mark = .closing ∧ marks.head? = some .closing → depth = 0) (pos : Nat) :
    readings (mark :: marks) pos depth = readings marks (pos + 1) depth := by
  conv => lhs; unfold readings
  split
  · next h' => cases h.symm.trans h'
  · split
    · next hclose =>
      obtain rfl := hskip hclose
      rfl
    · rfl

end Equations

/-- The spans of what was read: a closer belongs to the innermost opener. -/
def paired : List Reading → (opened : List (Nat × Nat)) → List Span
  | [], _ => []
  | .opener start inner :: rest, opened => paired rest ((start, inner) :: opened)
  | .closer pos :: rest, (start, inner) :: outer => ⟨start, inner, pos⟩ :: paired rest outer
  | .closer _ :: rest, [] => paired rest []

theorem scan_eq_paired (marks : List Mark) (pos : Nat) (opened : List (Nat × Nat)) :
    scan marks pos opened = paired (readings marks pos opened.length) opened := by
  fun_induction scan marks pos opened with
  | case1 => unfold readings; rfl
  | case2 pos opened mark rest length h _ ih =>
    rw [readings_opener h]
    exact ih
  | case3 pos mark rest h hclose start inner outer ih =>
    rw [List.length_cons, readings_closer h hclose]
    exact congrArg _ ih
  | case4 pos mark rest h hclose ih =>
    rw [List.length_nil, readings_skip h fun _ => rfl]
    exact ih
  | case5 pos opened mark rest h hclose ih =>
    rw [readings_skip h fun hc => absurd hc hclose]
    exact ih

def Reading.word? (text : List Char) : Reading → Option (List Char)
  | opener start inner => cut? text (start + 1) (inner - 1)
  | closer _ => none

/-- The words of the openers that are read in a text, closed or not. -/
def wordsRead (text : List Char) : List (List Char) :=
  (readings (Mark.ofText text) 0 0).filterMap (Reading.word? text)

end Span

/-! ## Tokens -/

theorem opener?_of_ne (h : c ≠ '{') (rest : List Char) : opener? (c :: rest) = none := by
  simp [opener?, h]

theorem openerLength?_of_opener? (h : opener? s = some (word, after)) :
    Mark.openerLength? (Mark.ofText s) = some (word.length + 2) := by
  rw [Mark.openerLength?_ofText, h]; rfl

theorem openerLength?_of_not_opener? (h : opener? s = none) :
    Mark.openerLength? (Mark.ofText s) = none := by
  rw [Mark.openerLength?_ofText, h]; rfl

theorem drop_of_opener? (h : opener? s = some (word, after)) :
    s.drop (word.length + 2) = after := by
  rw [eq_of_opener? h, List.drop_succ_cons, ← List.drop_drop, List.drop_left]
  rfl

theorem openerWords_opener (h : opener? s = some (word, after)) :
    openerWords s = String.ofList word :: openerWords after := by
  have hlength := openerLength?_of_opener? h
  have hdrop := drop_of_opener? h
  obtain rfl := eq_of_opener? h
  conv => lhs; unfold openerWords
  split
  · next length h' =>
    obtain rfl := Option.some.inj (hlength.symm.trans h')
    rw [hdrop, Nat.add_sub_cancel, List.take_left]
  · next h' => cases hlength.symm.trans h'

theorem openerWords_char (h : opener? (c :: rest) = none) :
    openerWords (c :: rest) = openerWords rest := by
  conv => lhs; unfold openerWords
  split
  · next h' => cases (openerLength?_of_not_opener? h).symm.trans h'
  · rfl

namespace Span

theorem readings_of_opener? (h : opener? s = some (word, after)) (pos depth : Nat) :
    readings (Mark.ofText s) pos depth =
      .opener pos (pos + (word.length + 2))
        :: readings (Mark.ofText after) (pos + (word.length + 2)) (depth + 1) := by
  have hlength := openerLength?_of_opener? h
  have hdrop : (Mark.ofText s).drop (word.length + 2) = Mark.ofText after := by
    unfold Mark.ofText
    rw [← List.map_drop, drop_of_opener? h]
  obtain rfl := eq_of_opener? h
  have hread := readings_opener hlength pos depth
  rw [← hdrop]
  exact hread

theorem readings_of_closer (rest : List Char) (pos depth : Nat) :
    readings (Mark.ofText ('}' :: '}' :: rest)) pos (depth + 1) =
      .closer pos :: readings (Mark.ofText rest) (pos + 2) depth :=
  readings_closer (openerLength?_of_not_opener? (opener?_closer rest)) ⟨rfl, rfl⟩ pos depth

theorem readings_of_not_opener? (h : opener? (c :: rest) = none)
    (hskip : startsWithCloser (c :: rest) = true → depth = 0) (pos : Nat) :
    readings (Mark.ofText (c :: rest)) pos depth =
      readings (Mark.ofText rest) (pos + 1) depth := by
  refine readings_skip (openerLength?_of_not_opener? h) (fun hclose => hskip ?_) pos
  obtain ⟨hc, hhead⟩ := hclose
  rw [← Mark.ofText, Mark.ofText, List.head?_map, Option.map_eq_some_iff] at hhead
  obtain ⟨d, hd, hclosing⟩ := hhead
  obtain ⟨tail, rfl⟩ := List.head?_eq_some_iff.1 hd
  rw [Mark.ofChar_eq_closing.1 hc, Mark.ofChar_eq_closing.1 hclosing]
  exact startsWithCloser_iff.2 ⟨tail, rfl⟩

/-- The scanner passes over closers in one way or the other, but over no opener. -/
theorem filterMap_word?_readings (hstands : Stands text pos s) (depth : Nat) :
    (readings (Mark.ofText s) pos depth).filterMap (Reading.word? text) =
      (openerWords s).map String.toList := by
  induction hn : s.length using Nat.strongRecOn generalizing s pos depth with
  | ind n ih =>
    cases s with
    | nil => unfold readings openerWords; rfl
    | cons c rest =>
      cases hopen : opener? (c :: rest) with
      | some cut =>
        obtain ⟨word, after⟩ := cut
        have heq : c :: rest = ['{'] ++ (word ++ (['{'] ++ after)) := eq_of_opener? hopen
        rw [heq] at hstands
        obtain ⟨hword, hafter⟩ := hstands.append.2.append
        have hrest := hafter.append.2
        have hsum : pos + ['{'].length + word.length + ['{'].length = pos + (word.length + 2) := by
          simp only [List.length_singleton]; omega
        have hlast : pos + ['{'].length + word.length = pos + (word.length + 2) - 1 := by
          simp only [List.length_singleton]; omega
        rw [hsum] at hrest
        have hcut : Reading.word? text (.opener pos (pos + (word.length + 2))) = some word := by
          unfold Stands at hword
          rw [hlast] at hword
          exact hword
        rw [readings_of_opener? hopen, openerWords_opener hopen, List.map_cons,
          List.filterMap_cons_some hcut, String.toList_ofList,
          ih _ (hn ▸ length_after_lt hopen) hrest (depth + 1) rfl]
      | none =>
        have hlt : rest.length < n := by simp [← hn]
        have hrest : Stands text (pos + 1) rest := (hstands.append (a := [c])).2
        rw [openerWords_char hopen]
        by_cases hskip : startsWithCloser (c :: rest) = true → depth = 0
        · rw [readings_of_not_opener? hopen hskip, ih _ hlt hrest depth rfl]
        · obtain ⟨hclose, hdepth⟩ := Classical.not_imp.1 hskip
          obtain ⟨tail, heq⟩ := startsWithCloser_iff.1 hclose
          obtain ⟨rfl, rfl⟩ := List.cons.inj heq
          obtain ⟨outer, rfl⟩ := Nat.exists_eq_succ_of_ne_zero hdepth
          have htail := (hrest.append (a := ['}'])).2
          rw [readings_of_closer, openerWords_char (opener?_of_ne (by decide) tail)]
          exact ih _ (by simp only [← hn, List.length_cons]; omega) htail outer rfl

theorem wordsRead_eq (s : List Char) : wordsRead s = (openerWords s).map String.toList :=
  filterMap_word?_readings (stands_self s) 0

end Span

/-! ## Leftmost matches -/

/-- The pattern of an opener matches at the start of a text. -/
def StartsOpener (s : List Char) : Prop :=
  ∃ word after, s = '{' :: (word ++ '{' :: after) ∧ word ≠ [] ∧ ∀ c ∈ word, isWordChar c = true

/-- No match begins in `lead` when `rest` follows it. -/
def IsOpenerFree (lead rest : List Char) : Prop :=
  ∀ part, part ≠ [] → part <:+ lead → ¬ StartsOpener (part ++ rest)

/-- The words of the leftmost matches in a text that do not overlap: up to the first match there is
none, and behind it the text is searched in the same way. -/
inductive LeftmostOpeners : List Char → (words : List (List Char)) → Prop where
  | none {s : List Char} : IsOpenerFree s [] → LeftmostOpeners s []
  | next {lead word after : List Char} {words : List (List Char)} : word ≠ [] →
      (∀ c ∈ word, isWordChar c = true) → IsOpenerFree lead ('{' :: (word ++ '{' :: after)) →
      LeftmostOpeners after words →
      LeftmostOpeners (lead ++ '{' :: (word ++ '{' :: after)) (word :: words)

theorem opener?_eq_none_iff : opener? s = none ↔ ¬ StartsOpener s := by
  constructor
  · rintro h ⟨word, after, hopener⟩
    cases h.symm.trans (opener?_eq_some_iff.2 hopener)
  · intro h
    cases hsome : opener? s with
    | none => rfl
    | some cut => exact absurd ⟨cut.1, cut.2, opener?_eq_some_iff.1 hsome⟩ h

theorem IsOpenerFree.of_cons (h : IsOpenerFree (c :: lead) rest) : IsOpenerFree lead rest :=
  fun part hne hsuffix => h part hne (hsuffix.trans (List.suffix_cons c lead))

theorem IsOpenerFree.cons (h : IsOpenerFree lead rest)
    (hnot : ¬ StartsOpener (c :: (lead ++ rest))) : IsOpenerFree (c :: lead) rest := by
  intro part hne hsuffix
  rcases List.suffix_cons_iff.1 hsuffix with rfl | hsuffix
  · exact hnot
  · exact h part hne hsuffix

theorem IsOpenerFree.nil (rest : List Char) : IsOpenerFree [] rest :=
  fun _ hne hsuffix => absurd (List.suffix_nil.1 hsuffix) hne

theorem IsOpenerFree.openerWords_append (h : IsOpenerFree lead rest) :
    openerWords (lead ++ rest) = openerWords rest := by
  induction lead with
  | nil => rfl
  | cons c lead ih =>
    have hnot : ¬ StartsOpener (c :: (lead ++ rest)) :=
      h (c :: lead) (List.cons_ne_nil _ _) List.suffix_rfl
    rw [List.cons_append, openerWords_char (opener?_eq_none_iff.2 hnot), ih h.of_cons]

theorem LeftmostOpeners.cons (h : LeftmostOpeners s words) (hnot : ¬ StartsOpener (c :: s)) :
    LeftmostOpeners (c :: s) words := by
  cases h with
  | none hfree => exact .none (hfree.cons (by rwa [List.append_nil]))
  | next hne hword hfree hrest => exact .next hne hword (hfree.cons hnot) hrest

/-- **There is one list of leftmost matches**, and its words are those of the openers. -/
theorem leftmostOpeners_iff :
    LeftmostOpeners s words ↔ words = (openerWords s).map String.toList := by
  constructor
  · intro h
    induction h with
    | @none s hfree =>
      have hwords := hfree.openerWords_append
      rw [List.append_nil] at hwords
      rw [hwords]
      unfold openerWords
      rfl
    | @next lead word after words hne hword hfree _ ih =>
      rw [hfree.openerWords_append, openerWords_opener (opener?_eq_some_iff.2 ⟨rfl, hne, hword⟩),
        List.map_cons, String.toList_ofList, ← ih]
  · rintro rfl
    induction hn : s.length using Nat.strongRecOn generalizing s with
    | ind n ih =>
      cases s with
      | nil => unfold openerWords; exact .none (.nil [])
      | cons c rest =>
        cases hopen : opener? (c :: rest) with
        | some cut =>
          obtain ⟨word, after⟩ := cut
          have hlt := length_after_lt hopen
          obtain ⟨heq, hne, hword⟩ := opener?_eq_some_iff.1 hopen
          rw [openerWords_opener hopen, List.map_cons, String.toList_ofList, heq]
          exact .next hne hword (.nil _) (ih _ (hn ▸ hlt) rfl)
        | none =>
          rw [openerWords_char hopen]
          exact (ih _ (by simp [← hn]) rfl).cons (opener?_eq_none_iff.1 hopen)

/-! ## Elements -/

namespace Node

mutual

/-- The tags of all elements in a node. -/
def tags : Node → List Tag
  | .text _ => []
  | .element tag children => tag :: tagsAll children
termination_by structural node => node

def tagsAll : List Node → List Tag
  | [] => []
  | node :: rest => tags node ++ tagsAll rest
termination_by structural nodes => nodes

end

theorem tagsAll_literal (part : List Char) (nodes : List Node) :
    tagsAll (literal part nodes) = tagsAll nodes := by
  unfold literal
  split
  · rfl
  · rcases nodes with _ | ⟨_ | _, _⟩ <;> rfl

end Node

def Rendered.tags : Rendered → List Tag
  | .text _ => []
  | .markup nodes => Node.tagsAll nodes

/-- An opener in front of a closing brace ends in front of it. -/
theorem opener?_of_append_closer {a b : List Char}
    (h : opener? (a ++ '}' :: b) = some (word, after)) :
    ∃ tail, opener? a = some (word, tail) ∧ after = tail ++ '}' :: b := by
  obtain ⟨heq, hne, hword⟩ := opener?_eq_some_iff.1 h
  have hnot : '}' ∉ '{' :: (word ++ ['{']) := by
    have : '}' ∉ word := fun hmem => by cases hword _ hmem
    simpa using this
  have hsplit : a ++ '}' :: b = '{' :: (word ++ ['{']) ++ after := by simp [heq]
  rcases List.append_eq_append_iff.1 hsplit with ⟨mid, hopener, hb⟩ | ⟨tail, rfl, hafter⟩
  · cases mid with
    | nil =>
      refine ⟨[], ?_, by simpa using hb.symm⟩
      rw [List.append_nil] at hopener
      exact opener?_eq_some_iff.2 ⟨by rw [← hopener], hne, hword⟩
    | cons c mid =>
      obtain ⟨rfl, -⟩ := List.cons.inj hb
      exact absurd (hopener ▸ List.mem_append_right a List.mem_cons_self) hnot
  · exact ⟨tail, opener?_eq_some_iff.2 ⟨by simp, hne, hword⟩, hafter⟩

theorem openerWords_append_closer (a b : List Char) :
    openerWords (a ++ '}' :: b) = openerWords a ++ openerWords b := by
  induction hn : a.length using Nat.strongRecOn generalizing a with
  | ind n ih =>
    cases a with
    | nil =>
      have hnil : openerWords [] = [] := by unfold openerWords; rfl
      rw [hnil, List.nil_append, List.nil_append, openerWords_char (opener?_of_ne (by decide) b)]
    | cons c a =>
      cases hopen : opener? (c :: a) with
      | some cut =>
        obtain ⟨word, after⟩ := cut
        rw [openerWords_opener (opener?_append hopen ('}' :: b)), openerWords_opener hopen,
          ih _ (hn ▸ length_after_lt hopen) after rfl, List.cons_append]
      | none =>
        have hnone : opener? (c :: (a ++ '}' :: b)) = none := by
          cases hsome : opener? (c :: (a ++ '}' :: b)) with
          | none => rfl
          | some cut =>
            obtain ⟨tail, htail, -⟩ := opener?_of_append_closer (a := c :: a) hsome
            cases hopen.symm.trans htail
        rw [List.cons_append, openerWords_char hnone, openerWords_char hopen]
        exact ih _ (by simp [← hn]) a rfl

/-- An element has its name from an opener of the text. -/
theorem name_mem_openerWords {tag : Tag} (h : tag ∈ Node.tagsAll (Markup.nodes depth s)) :
    tag.name ∈ openerWords s := by
  induction s using pieceInduction generalizing depth with
  | nil => rw [nodes_nil] at h; cases h
  | char c rest hopen ih =>
    rw [nodes_char hopen, Node.tagsAll_literal] at h
    rw [openerWords_char hopen]
    exact ih h
  | unclosed s word after hopen hclose ih =>
    rw [nodes_unclosed hopen hclose, Node.tagsAll_literal] at h
    rw [openerWords_opener hopen]
    exact List.mem_cons_of_mem _ (ih h)
  | closed s word after inner rest hopen hclose ihInner ihRest =>
    rw [nodes_closed hopen hclose] at h
    rw [openerWords_opener hopen, eq_of_closer? hclose, openerWords_append_closer,
      openerWords_char (opener?_of_ne (by decide) rest), List.mem_cons, List.mem_append]
    cases htag : tagAt depth word with
    | some found =>
      rw [htag, Node.tagsAll, Node.tags, List.cons_append, List.mem_cons, List.mem_append] at h
      rcases h with rfl | h | h
      · exact .inl (Node.name_of_tagAt htag)
      · exact .inr (.inl (ihInner h))
      · exact .inr (.inr (ihRest h))
    | none =>
      rw [htag, Node.tagsAll_literal] at h
      exact .inr (.inr (ihRest h))

theorem name_mem_of_mem_tags {text : String} {tag : Tag} (h : tag ∈ (parseTags text).tags) :
    tag.name ∈ openerWords text.toList := by
  rw [parseTags_eq] at h
  split at h
  · exact name_mem_openerWords h
  · cases h

end Phrasebook
