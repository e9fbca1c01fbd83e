import Phrasebook.Proofs.Markup.Printing

/-!
# What HTML shows

`Html.Fragment` is a grammar of safe HTML: characters that HTML gives a meaning stand there as their
escapes only, and elements are closed in the order in which they were opened. A fragment can be read
in one way only (`Fragment.unique`), since neither an escape nor a tag begins with another one, and
without its tags it is the escaped text (`Fragment.outside_eq`). What is written for a result is a
fragment, and it is read as the result with its texts merged (`fragment_htmlAll`).
-/

namespace Phrasebook

open Markup

namespace Html

variable {s t a b r : List Char} {c d : Char} {nodes others children : List Node} {tag : Tag}

/-! ## Escapes -/

/-- The characters that HTML gives a meaning, and what stands for them. -/
def escapes : List (Char × String) :=
  [('&', "&amp;"), ('<', "&lt;"), ('>', "&gt;"), ('"', "&quot;"), ('\'', "&#39;")]

/-- How a character stands in a text: as its escape if it has one, else as itself. -/
def writtenAs (c : Char) : List Char :=
  match escapes.find? (·.1 = c) with
  | some escape => escape.2.toList
  | none => [c]

/-- A text with its escapes undone. -/
def unescaped : List Char → List Char
  | '&' :: 'a' :: 'm' :: 'p' :: ';' :: rest => '&' :: unescaped rest
  | '&' :: 'l' :: 't' :: ';' :: rest => '<' :: unescaped rest
  | '&' :: 'g' :: 't' :: ';' :: rest => '>' :: unescaped rest
  | '&' :: 'q' :: 'u' :: 'o' :: 't' :: ';' :: rest => '"' :: unescaped rest
  | '&' :: '#' :: '3' :: '9' :: ';' :: rest => '\'' :: unescaped rest
  | c :: rest => c :: unescaped rest
  | [] => []

/-- HTML gives the character no meaning. -/
def IsOrdinary (c : Char) : Prop := c ≠ '&' ∧ c ≠ '<' ∧ c ≠ '>' ∧ c ≠ '"' ∧ c ≠ '\''

theorem writtenAs_cases (c : Char) :
    (∃ escape, (c, escape) ∈ escapes ∧ writtenAs c = escape.toList) ∨
      writtenAs c = [c] ∧ IsOrdinary c := by
  unfold writtenAs
  cases h : escapes.find? (·.1 = c) with
  | some escape =>
    obtain rfl : escape.1 = c := by simpa using List.find?_some h
    exact .inl ⟨escape.2, List.mem_of_find?_eq_some h, rfl⟩
  | none =>
    have hnone := List.find?_eq_none.1 h
    refine .inr ⟨rfl, ?_⟩
    simpa [escapes, IsOrdinary, eq_comm] using hnone

/-- An escape is an ampersand with characters behind it that have no escape. -/
theorem exists_of_mem_escapes {escape : String} (h : (c, escape) ∈ escapes) :
    ∃ tail, escape.toList = '&' :: tail ∧ ∀ d ∈ tail, IsOrdinary d := by
  have hall : ∀ e ∈ escapes, e.2.toList.head? = some '&' ∧
      e.2.toList.tail.all
        (fun d => d ≠ '&' && d ≠ '<' && d ≠ '>' && d ≠ '"' && d ≠ '\'') = true := by
    decide
  obtain ⟨hhead, htail⟩ := hall _ h
  obtain ⟨tail, heq⟩ := List.head?_eq_some_iff.1 hhead
  rw [heq] at htail
  refine ⟨tail, heq, fun d hd => ?_⟩
  simpa [IsOrdinary, and_assoc] using List.all_eq_true.1 htail d hd

theorem unescaped_of_mem_escapes {escape : String} (h : (c, escape) ∈ escapes) (s : List Char) :
    unescaped (escape.toList ++ s) = c :: unescaped s := by
  simp only [escapes, List.mem_cons, Prod.mk.injEq, List.not_mem_nil, or_false] at h
  rcases h with ⟨rfl, rfl⟩ | ⟨rfl, rfl⟩ | ⟨rfl, rfl⟩ | ⟨rfl, rfl⟩ | ⟨rfl, rfl⟩ <;> rfl

theorem unescaped_cons (h : c ≠ '&') (s : List Char) : unescaped (c :: s) = c :: unescaped s := by
  conv => lhs; unfold unescaped
  split <;> simp_all

theorem unescaped_writtenAs (c : Char) (s : List Char) :
    unescaped (writtenAs c ++ s) = c :: unescaped s := by
  rcases writtenAs_cases c with ⟨escape, hmem, heq⟩ | ⟨heq, hc⟩
  · rw [heq]
    exact unescaped_of_mem_escapes hmem s
  · rw [heq]
    exact unescaped_cons hc.1 s

theorem eq_of_writtenAs_append (h : writtenAs c ++ a = writtenAs d ++ b) : c = d ∧ a = b := by
  have hread := congrArg unescaped h
  rw [unescaped_writtenAs, unescaped_writtenAs] at hread
  obtain rfl := (List.cons.inj hread).1
  exact ⟨rfl, List.append_cancel_left h⟩

/-- A text with its characters as they are written. -/
def escaped (s : List Char) : List Char := s.flatMap writtenAs

theorem unescaped_escaped (s : List Char) : unescaped (escaped s) = s := by
  induction s with
  | nil => rfl
  | cons c rest ih =>
    show unescaped (writtenAs c ++ escaped rest) = c :: rest
    rw [unescaped_writtenAs, ih]

/-- Nothing in a text has a meaning in HTML but the ampersands of escapes. -/
structure IsSafe (s : List Char) : Prop where
  unmarked : ∀ c ∈ s, c ≠ '<' ∧ c ≠ '>' ∧ c ≠ '"' ∧ c ≠ '\''
  ampersand : ∀ after, '&' :: after <:+ s → ∃ e ∈ escapes, e.2.toList <+: '&' :: after

theorem suffix_of_append (h : '&' ∉ a) {after : List Char} (hsuffix : '&' :: after <:+ a ++ s) :
    '&' :: after <:+ s := by
  induction a with
  | nil => exact hsuffix
  | cons c a ih =>
    rcases List.suffix_cons_iff.1 hsuffix with heq | hsuffix
    · exact absurd (List.cons.inj heq).1 (List.ne_of_not_mem_cons h)
    · exact ih (List.not_mem_of_not_mem_cons h) hsuffix

theorem IsSafe.escape {escape : String} (hmem : (c, escape) ∈ escapes) (h : IsSafe s) :
    IsSafe (escape.toList ++ s) := by
  obtain ⟨tail, heq, htail⟩ := exists_of_mem_escapes hmem
  constructor
  case unmarked =>
    intro d hd
    rw [heq] at hd
    rcases List.mem_append.1 hd with hd | hd
    · rcases List.mem_cons.1 hd with rfl | hd
      · decide
      · exact (htail d hd).2
    · exact h.unmarked d hd
  case ampersand =>
    intro after hsuffix
    rw [heq, List.cons_append] at hsuffix
    rcases List.suffix_cons_iff.1 hsuffix with hwhole | hsuffix
    · refine ⟨_, hmem, ?_⟩
      rw [hwhole, heq]
      exact List.prefix_append _ _
    · exact h.ampersand after (suffix_of_append (fun hin => (htail _ hin).1 rfl) hsuffix)

theorem IsSafe.ordinary (hc : IsOrdinary c) (h : IsSafe s) : IsSafe (c :: s) := by
  constructor
  case unmarked => exact List.forall_mem_cons.2 ⟨hc.2, h.unmarked⟩
  case ampersand =>
    intro after hsuffix
    refine h.ampersand after (suffix_of_append (a := [c]) ?_ hsuffix)
    simpa using hc.1.symm

theorem isSafe_escaped (s : List Char) : IsSafe (escaped s) := by
  induction s with
  | nil => exact ⟨nofun, fun _ h => absurd (List.suffix_nil.1 h) (List.cons_ne_nil _ _)⟩
  | cons c rest ih =>
    show IsSafe (writtenAs c ++ escaped rest)
    rcases writtenAs_cases c with ⟨escape, hmem, heq⟩ | ⟨heq, hc⟩
    · rw [heq]
      exact ih.escape hmem
    · rw [heq]
      exact ih.ordinary hc

/-! ## Fragments -/

def opening (tag : Tag) : List Char := '<' :: (tag.name.toList ++ ['>'])

def closing (tag : Tag) : List Char := '<' :: '/' :: (tag.name.toList ++ ['>'])

/-- Safe HTML and the nodes it shows: characters as they are written, and elements between the two
tags of one name. -/
inductive Fragment : List Char → (nodes : List Node) → Prop where
  | nil : Fragment [] []
  | char {s : List Char} {nodes : List Node} (c : Char) :
      Fragment s nodes → Fragment (writtenAs c ++ s) (literal [c] nodes)
  | element {inner s : List Char} {children nodes : List Node} (tag : Tag) :
      Fragment inner children → Fragment s nodes →
      Fragment (opening tag ++ (inner ++ (closing tag ++ s))) (.element tag children :: nodes)

/-- What can follow a fragment that has been read to its end: nothing, or a tag that closes. -/
def Ends (r : List Char) : Prop := r = [] ∨ ∃ rest, r = '<' :: '/' :: rest

theorem ends_closing (tag : Tag) (s : List Char) : Ends (closing tag ++ s) := .inr ⟨_, rfl⟩

theorem writtenAs_append_ne (c : Char) (a b : List Char) : writtenAs c ++ a ≠ '<' :: b := by
  intro h
  rcases writtenAs_cases c with ⟨escape, hmem, heq⟩ | ⟨heq, hc⟩
  · obtain ⟨tail, htail, -⟩ := exists_of_mem_escapes hmem
    rw [heq, htail] at h
    exact absurd (List.cons.inj h).1 (by decide)
  · rw [heq] at h
    exact hc.2.1 (List.cons.inj h).1

theorem writtenAs_append_ne_nil (c : Char) (a : List Char) : writtenAs c ++ a ≠ [] := by
  rcases writtenAs_cases c with ⟨escape, hmem, heq⟩ | ⟨heq, -⟩
  · obtain ⟨tail, htail, -⟩ := exists_of_mem_escapes hmem
    rw [heq, htail]
    exact List.cons_ne_nil _ _
  · rw [heq]
    exact List.cons_ne_nil _ _

theorem Ends.ne_char (h : Ends r) (c : Char) (a : List Char) : r ≠ writtenAs c ++ a := by
  rcases h with rfl | ⟨rest, rfl⟩
  · exact (writtenAs_append_ne_nil c a).symm
  · exact (writtenAs_append_ne c a _).symm

theorem Ends.ne_opening (h : Ends r) (tag : Tag) (a : List Char) : r ≠ opening tag ++ a := by
  rcases h with rfl | ⟨rest, rfl⟩
  · exact (List.cons_ne_nil _ _).symm
  · cases tag <;> simp [opening, Tag.name]

theorem eq_of_opening_append {tag' : Tag} (h : opening tag ++ a = opening tag' ++ b) :
    tag = tag' ∧ a = b := by
  have heq : tag = tag' := by
    cases tag <;> cases tag' <;> first | rfl | simp [opening, Tag.name] at h
  subst heq
  exact ⟨rfl, List.append_cancel_left h⟩

/-- Fragments that are followed by an end can be told from what follows them. -/
theorem Fragment.unique_append {r' : List Char} (h : Fragment s nodes) (h' : Fragment t others)
    (hr : Ends r) (hr' : Ends r') (heq : s ++ r = t ++ r') : s = t ∧ nodes = others := by
  induction h generalizing t others r r' with
  | nil =>
    cases h' with
    | nil => exact ⟨rfl, rfl⟩
    | char d _ =>
      rw [List.append_assoc] at heq
      exact absurd heq (hr.ne_char _ _)
    | element tag' _ _ =>
      rw [List.append_assoc] at heq
      exact absurd heq (hr.ne_opening _ _)
  | char c _ ih =>
    rw [List.append_assoc] at heq
    cases h' with
    | nil => exact absurd heq.symm (hr'.ne_char _ _)
    | char d h' =>
      rw [List.append_assoc] at heq
      obtain ⟨rfl, hrest⟩ := eq_of_writtenAs_append heq
      obtain ⟨rfl, rfl⟩ := ih h' hr hr' hrest
      exact ⟨rfl, rfl⟩
    | element tag' _ _ => exact absurd heq (writtenAs_append_ne _ _ _)
  | element tag _ _ ihInner ihRest =>
    cases h' with
    | nil =>
      rw [List.append_assoc] at heq
      exact absurd heq.symm (hr'.ne_opening _ _)
    | char d _ =>
      rw [List.append_assoc (writtenAs d)] at heq
      exact absurd heq.symm (writtenAs_append_ne _ _ _)
    | element tag' hinner hrest =>
      simp only [List.append_assoc] at heq
      obtain ⟨rfl, hbehind⟩ := eq_of_opening_append heq
      obtain ⟨rfl, rfl⟩ := ihInner hinner (ends_closing tag _) (ends_closing tag _) hbehind
      have htail := List.append_cancel_left (List.append_cancel_left hbehind)
      obtain ⟨rfl, rfl⟩ := ihRest hrest hr hr' htail
      exact ⟨rfl, rfl⟩

/-- **A fragment shows one thing.** -/
theorem Fragment.unique (h : Fragment s nodes) (h' : Fragment s others) : nodes = others :=
  (h.unique_append h' (.inl rfl) (.inl rfl) rfl).2

/-! ## Outside of tags -/

/-- What stands outside of tags, where a tag is all from a `<` to the next `>`. -/
def outside (inTag : Bool) : List Char → List Char
  | [] => []
  | c :: rest =>
    if inTag then outside (c != '>') rest
    else if c = '<' then outside true rest
    else c :: outside false rest

theorem outside_append (h : '<' ∉ a) (b : List Char) :
    outside false (a ++ b) = a ++ outside false b := by
  induction a with
  | nil => rfl
  | cons c a ih =>
    have hc : c ≠ '<' := (List.ne_of_not_mem_cons h).symm
    rw [List.cons_append, outside, if_neg Bool.false_ne_true, if_neg hc,
      ih (List.not_mem_of_not_mem_cons h)]
    rfl

theorem outside_name (h : '>' ∉ a) (b : List Char) :
    outside true (a ++ '>' :: b) = outside false b := by
  induction a with
  | nil => rfl
  | cons c a ih =>
    have hc : (c != '>') = true := by simpa using (List.ne_of_not_mem_cons h).symm
    rw [List.cons_append, outside, if_pos rfl, hc, ih (List.not_mem_of_not_mem_cons h)]

theorem outside_opening (tag : Tag) (b : List Char) :
    outside false (opening tag ++ b) = outside false b := by
  have hname : '>' ∉ tag.name.toList := by cases tag <;> decide
  show outside true (tag.name.toList ++ ['>'] ++ b) = _
  rw [List.append_assoc]
  exact outside_name hname b

theorem outside_closing (tag : Tag) (b : List Char) :
    outside false (closing tag ++ b) = outside false b := by
  have hname : '>' ∉ '/' :: tag.name.toList := by cases tag <;> decide
  show outside true ('/' :: tag.name.toList ++ ['>'] ++ b) = _
  rw [List.append_assoc]
  exact outside_name hname b

theorem not_mem_writtenAs (c : Char) : '<' ∉ writtenAs c := by
  have hsafe := isSafe_escaped [c]
  intro hmem
  have hin : '<' ∈ escaped [c] := List.mem_flatMap.2 ⟨c, List.mem_singleton_self c, hmem⟩
  exact (hsafe.unmarked _ hin).1 rfl

end Html

namespace Node

theorem plainAll_literal (part : List Char) (nodes : List Node) :
    plainAll (literal part nodes) = String.ofList part ++ plainAll nodes := by
  unfold literal
  cases part with
  | nil => simp
  | cons c rest =>
    rcases nodes with _ | ⟨_ | _, _⟩ <;> simp [plainAll, plain, String.append_assoc]

end Node

namespace Html

theorem Fragment.outside_append_eq {s : List Char} {nodes : List Node} (h : Fragment s nodes)
    (t : List Char) :
    outside false (s ++ t) = escaped (Node.plainAll nodes).toList ++ outside false t := by
  induction h generalizing t with
  | nil => rfl
  | @char s nodes c _ ih =>
    rw [List.append_assoc, outside_append (not_mem_writtenAs c), ih, Node.plainAll_literal,
      String.toList_append, String.toList_ofList]
    simp [escaped]
  | @element inner s children nodes tag _ _ ihInner ihRest =>
    rw [List.append_assoc, outside_opening, List.append_assoc, ihInner, List.append_assoc,
      outside_closing, ihRest, Node.plainAll, Node.plain, String.toList_append]
    simp [escaped]

/-- Without its tags a fragment is the text it shows, escaped. -/
theorem Fragment.outside_eq {s : List Char} {nodes : List Node} (h : Fragment s nodes) :
    outside false s = escaped (Node.plainAll nodes).toList := by
  have hall := h.outside_append_eq []
  rwa [List.append_nil, outside, List.append_nil] at hall

end Html

/-! ## What is written -/

namespace Node

mutual

/-- A node in front of others, where a text is merged with the text that may be first there. -/
def mergeInto : Node → List Node → List Node
  | .text s, rest => literal s.toList rest
  | .element tag children, rest => .element tag (merged children) :: rest
termination_by structural node => node

/-- The same nodes, on every level with the texts that stand side by side merged and the empty ones
left out. -/
def merged : List Node → List Node
  | [] => []
  | node :: rest => mergeInto node (merged rest)
termination_by structural nodes => nodes

end

mutual

theorem plainAll_mergeInto :
    ∀ (node : Node) (rest : List Node), plainAll (mergeInto node rest) = plain node ++ plainAll rest
  | .text s, rest => by rw [mergeInto, plainAll_literal, String.ofList_toList, plain]
  | .element tag children, rest => by
    rw [mergeInto, plainAll, plain, plain, plainAll_merged children]

theorem plainAll_merged : ∀ nodes : List Node, plainAll (merged nodes) = plainAll nodes
  | [] => rfl
  | node :: rest => by rw [merged, plainAll_mergeInto node, plainAll_merged rest, plainAll]

end

theorem merged_of_areTidy :
    ∀ nodes : List Node, areTidy nodes = true → merged nodes = nodes
  | [], _ => rfl
  | .text s :: rest, h => by
    simp only [areTidy, isTidy, isText, Bool.and_eq_true, Bool.not_eq_true', Bool.true_and] at h
    rw [merged, mergeInto, merged_of_areTidy rest h.1.2, literal_text h.1.1 h.2]
  | .element tag children :: rest, h => by
    obtain ⟨hchildren, hrest⟩ := areTidy_element_cons.1 h
    rw [merged, mergeInto, merged_of_areTidy children hchildren, merged_of_areTidy rest hrest]

end Node

namespace Html

theorem toList_htmlEscape (c : Char) : (htmlEscape c).toList = writtenAs c := by
  rcases writtenAs_cases c with ⟨escape, hmem, heq⟩ | ⟨heq, hamp, hlt, hgt, hquote, hapostrophe⟩
  · rw [heq]
    simp only [escapes, List.mem_cons, Prod.mk.injEq, List.not_mem_nil, or_false] at hmem
    rcases hmem with ⟨rfl, rfl⟩ | ⟨rfl, rfl⟩ | ⟨rfl, rfl⟩ | ⟨rfl, rfl⟩ | ⟨rfl, rfl⟩ <;> rfl
  · rw [heq, htmlEscape, if_neg hamp, if_neg hlt, if_neg hgt, if_neg hquote, if_neg hapostrophe]
    exact String.toList_singleton c

theorem toList_htmlEscaped (s : String) : (htmlEscaped s).toList = escaped s.toList := by
  have heach : (fun c => (htmlEscape c).toList) = writtenAs := funext toList_htmlEscape
  unfold htmlEscaped escaped
  rw [String.toList_join, List.flatMap_map, heach]

theorem toList_html_element (tag : Tag) (children : List Node) :
    (Node.html (.element tag children)).toList =
      opening tag ++ ((Node.htmlAll children).toList ++ closing tag) := by
  have hopen : "<".toList = ['<'] := rfl
  have hclose : "</".toList = ['<', '/'] := rfl
  have hend : ">".toList = ['>'] := rfl
  unfold opening closing
  simp only [Node.html, String.toList_append, hopen, hclose, hend, List.append_assoc,
    List.cons_append, List.nil_append]

theorem Fragment.escaped_append {s : List Char} {nodes : List Node} (h : Fragment s nodes)
    (text : List Char) : Fragment (escaped text ++ s) (literal text nodes) := by
  induction text with
  | nil => exact h
  | cons c rest ih =>
    have hfirst := Fragment.char c ih
    rw [← literal_append, ← List.append_assoc] at hfirst
    exact hfirst

mutual

theorem Fragment.html_append : ∀ (node : Node) {s : List Char} {rest : List Node},
    Fragment s rest → Fragment ((Node.html node).toList ++ s) (Node.mergeInto node rest)
  | .text text, _, _, h => by
    rw [Node.html, Node.mergeInto, toList_htmlEscaped]
    exact h.escaped_append text.toList
  | .element tag children, _, _, h => by
    rw [toList_html_element, Node.mergeInto, List.append_assoc, List.append_assoc]
    exact .element tag (fragment_htmlAll children) h

/-- What is written for nodes shows these nodes, with their texts merged. -/
theorem fragment_htmlAll :
    ∀ nodes : List Node, Fragment (Node.htmlAll nodes).toList (Node.merged nodes)
  | [] => .nil
  | node :: rest => by
    rw [Node.htmlAll, Node.merged, String.toList_append]
    exact .html_append node (fragment_htmlAll rest)

end

end Html

def Rendered.merged : Rendered → List Node
  | .text s => literal s.toList []
  | .markup nodes => Node.merged nodes

theorem Rendered.fragment_html (rendered : Rendered) :
    Html.Fragment rendered.html.toList rendered.merged := by
  cases rendered with
  | text s =>
    have hwritten := Html.Fragment.nil.escaped_append s.toList
    rw [List.append_nil, ← Html.toList_htmlEscaped] at hwritten
    exact hwritten
  | markup nodes => exact Html.fragment_htmlAll nodes

theorem Rendered.plainAll_merged (rendered : Rendered) :
    Node.plainAll rendered.merged = rendered.plain := by
  cases rendered with
  | text s =>
    show Node.plainAll (literal s.toList []) = s
    rw [Node.plainAll_literal, String.ofList_toList]
    exact String.append_empty
  | markup nodes => exact Node.plainAll_merged nodes

theorem Rendered.merged_parseTags (text : String) :
    (parseTags text).merged = parseNodes text.toList := by
  rw [parseTags_eq, parseNodes_eq]
  cases helement : hasElement (Markup.nodes 0 text.toList) with
  | true => exact Node.merged_of_areTidy _ (Node.areTidy_nodes 0 text.toList)
  | false => exact (nodes_of_not_hasElement helement).symm

/-- **HTML shows the result and nothing else.** What is written is safe HTML and can be read in one
way only: as the nodes of the result with their texts merged, which for a parsed text are its nodes.
Outside of its tags only escapes have a meaning, and with these undone that is the plain text. -/
theorem Rendered.html_shows (rendered : Rendered) :
    (∀ nodes, Html.Fragment rendered.html.toList nodes ↔ nodes = rendered.merged) ∧
      (∀ text, rendered = parseTags text → rendered.merged = parseNodes text.toList) ∧
      Html.IsSafe (Html.outside false rendered.html.toList) ∧
      Html.unescaped (Html.outside false rendered.html.toList) = rendered.plain.toList := by
  have hfragment := rendered.fragment_html
  have houtside := hfragment.outside_eq
  rw [rendered.plainAll_merged] at houtside
  refine ⟨fun nodes => ⟨fun h => h.unique hfragment, fun h => h ▸ hfragment⟩, ?_, ?_, ?_⟩
  · rintro text rfl
    exact merged_parseTags text
  · rw [houtside]
    exact Html.isSafe_escaped _
  · rw [houtside, Html.unescaped_escaped]

end Phrasebook
