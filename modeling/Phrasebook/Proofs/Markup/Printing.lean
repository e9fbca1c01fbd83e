import Phrasebook.Proofs.Markup.Parsing

/-!
# Printing and parsing

A node as it stands in a text is its `source`. What is parsed has the text for its source, nodes
without braces are read back from their source, and what is parsed is the tree of its text in which
texts are merged.
-/

namespace Phrasebook

/-! ## The source of what was parsed

What the grammar reads in a text has the text for its source, whatever braces there are, and so has
what the parser makes of it.
-/

open Markup

namespace Node

mutual

/-- A node as it stands in a text. -/
def source : Node → String
  | .text s => s
  | .element tag children => "\x7b" ++ tag.name ++ "\x7b" ++ sourceAll children ++ "\x7d\x7d"
termination_by structural node => node

def sourceAll : List Node → String
  | [] => ""
  | node :: rest => source node ++ sourceAll rest
termination_by structural nodes => nodes

end

theorem sourceAll_literal (part : List Char) (nodes : List Node) :
    sourceAll (literal part nodes) = String.ofList part ++ sourceAll nodes := by
  unfold literal
  cases part with
  | nil => simp
  | cons c rest =>
    rcases nodes with _ | ⟨_ | _, _⟩ <;> simp [sourceAll, source, String.append_assoc]

theorem name_of_tagAt {depth : Nat} {word : List Char} {tag : Tag}
    (h : tagAt depth word = some tag) : tag.name = String.ofList word := by
  rw [tagAt_eq] at h
  split at h
  · exact Tag.name_of_ofName? h
  · cases h

theorem source_element {word inner : List Char} {tag : Tag} {children : List Node}
    (hname : tag.name = String.ofList word) (hinner : sourceAll children = String.ofList inner) :
    source (.element tag children) =
      String.ofList ('{' :: (word ++ '{' :: (inner ++ ['}', '}']))) := by
  have hopener : "\x7b" = String.ofList ['{'] := rfl
  have hcloser : "\x7d\x7d" = String.ofList ['}', '}'] := rfl
  rw [source, hname, hinner, hopener, hcloser]
  simp only [← String.ofList_append, List.append_assoc, List.cons_append, List.nil_append]

theorem sourceAll_nodes (depth : Nat) (s : List Char) :
    sourceAll (Markup.nodes depth s) = String.ofList s := by
  induction s using pieceInduction generalizing depth with
  | nil => rw [nodes_nil]; rfl
  | char c rest hopen ih =>
    rw [nodes_char hopen, sourceAll_literal, ih, ← String.ofList_append]
    rfl
  | unclosed s word after hopen hclose ih =>
    rw [nodes_unclosed hopen hclose, sourceAll_literal, ih, ← String.ofList_append,
      eq_of_opener? hopen]
    simp
  | closed s word after inner rest hopen hclose ihInner ihRest =>
    have heq : s = '{' :: (word ++ '{' :: (inner ++ ['}', '}'])) ++ rest := by
      rw [eq_of_opener? hopen, eq_of_closer? hclose]; simp
    rw [nodes_closed hopen hclose, heq, String.ofList_append]
    cases htag : tagAt depth word with
    | some tag =>
      show source _ ++ sourceAll _ = _
      rw [source_element (name_of_tagAt htag) (ihInner (depth + 1)), ihRest]
    | none =>
      show sourceAll (literal _ _) = _
      rw [sourceAll_literal, ihRest]

end Node

def Rendered.source : Rendered → String
  | .text s => s
  | .markup nodes => Node.sourceAll nodes

theorem Rendered.source_ofNodes (nodes : List Node) :
    (Rendered.ofNodes nodes).source = Node.sourceAll nodes := by
  unfold Rendered.ofNodes
  split
  · rfl
  · exact (String.append_empty).symm
  · rfl

/-- **Parsing loses nothing**: what was parsed has the text for its source. -/
theorem source_parseTags (text : String) : (parseTags text).source = text := by
  unfold parseTags
  rw [Rendered.source_ofNodes, parseNodes_eq, Node.sourceAll_nodes, String.ofList_toList]

/-! ## Reading back what was printed

Where no text has a brace in it, the source has the braces of its elements and no other ones, so a
closer that is looked for behind it is found behind it (`closer?_sourceAll`), and the grammar reads
the nodes that were printed (`nodes_sourceAll`). Empty texts and texts side by side can not be told
from what is printed, so there must be none.
-/

open Markup

namespace Node

def isText : Node → Bool
  | text _ => true
  | element _ _ => false

mutual

/-- In no list of siblings is there an empty text, or a text next to another one. -/
def isTidy : Node → Bool
  | text s => !s.isEmpty
  | element _ children => areTidy children
termination_by structural node => node

def areTidy : List Node → Bool
  | [] => true
  | node :: rest =>
    isTidy node && areTidy rest && !(node.isText && rest.head?.any isText)
termination_by structural nodes => nodes

end

mutual

/-- No text has a brace in it. -/
def isBraceless : Node → Bool
  | text s => s.toList.all fun c => c ≠ '{' && c ≠ '}'
  | element _ children => areBraceless children
termination_by structural node => node

def areBraceless : List Node → Bool
  | [] => true
  | node :: rest => isBraceless node && areBraceless rest
termination_by structural nodes => nodes

end

mutual

/-- How many elements stand inside each other, at most. -/
def nesting : Node → Nat
  | text _ => 0
  | element _ children => nestingAll children + 1
termination_by structural node => node

def nestingAll : List Node → Nat
  | [] => 0
  | node :: rest => max (nesting node) (nestingAll rest)
termination_by structural nodes => nodes

end

variable {nodes rest children : List Node} {node : Node} {tag : Tag} {depth : Nat} {s : List Char}
  {part : List Char}

/-! ### Sources -/

theorem toList_source_element (tag : Tag) (children : List Node) :
    (source (.element tag children)).toList =
      '{' :: (tag.name.toList ++ '{' :: ((sourceAll children).toList ++ ['}', '}'])) := by
  have hname : tag.name = String.ofList tag.name.toList := String.ofList_toList.symm
  have hinner : sourceAll children = String.ofList (sourceAll children).toList :=
    String.ofList_toList.symm
  rw [source_element hname hinner, String.toList_ofList]

theorem toList_sourceAll_cons (node : Node) (rest : List Node) :
    (sourceAll (node :: rest)).toList = (source node).toList ++ (sourceAll rest).toList := by
  rw [sourceAll, String.toList_append]

theorem opener?_name (tag : Tag) (after : List Char) :
    opener? ('{' :: (tag.name.toList ++ '{' :: after)) = some (tag.name.toList, after) := by
  have hword : tag.name.toList ≠ [] ∧ tag.name.toList.all isWordChar = true := by
    cases tag <;> decide
  exact opener?_eq_some_iff.2 ⟨rfl, hword.1, List.all_eq_true.1 hword.2⟩

/-! ### Texts without braces -/

def IsPlainChar (c : Char) : Prop := c ≠ '{' ∧ c ≠ '}'

theorem isBraceless_text_iff {text : String} :
    isBraceless (.text text) = true ↔ ∀ c ∈ text.toList, IsPlainChar c := by
  simp [isBraceless, IsPlainChar]

theorem IsPlainChar.opener?_eq_none {c : Char} (h : IsPlainChar c) (rest : List Char) :
    opener? (c :: rest) = none := by
  simp [opener?, h.1]

theorem IsPlainChar.not_startsWithCloser {c : Char} (h : IsPlainChar c) (rest : List Char) :
    startsWithCloser (c :: rest) = false := by
  cases hclose : startsWithCloser (c :: rest) with
  | false => rfl
  | true =>
    obtain ⟨_, heq⟩ := startsWithCloser_iff.1 hclose
    exact absurd (List.cons.inj heq).1 h.2

theorem closer?_append_of_plain (hpart : ∀ c ∈ part, IsPlainChar c) (opened : Nat)
    (s : List Char) :
    closer? opened (part ++ s) = (closer? opened s).map fun cut => (part ++ cut.1, cut.2) := by
  induction part with
  | nil => exact Option.map_id'.symm
  | cons c part ih =>
    obtain ⟨hc, hrest⟩ := List.forall_mem_cons.1 hpart
    rw [List.cons_append, closer?_char (hc.opener?_eq_none _) (hc.not_startsWithCloser _),
      ih hrest, Option.map_map]
    rfl

theorem nodes_append_of_plain (hpart : ∀ c ∈ part, IsPlainChar c) (depth : Nat)
    (s : List Char) :
    Markup.nodes depth (part ++ s) = literal part (Markup.nodes depth s) := by
  induction part with
  | nil => rfl
  | cons c part ih =>
    obtain ⟨hc, hrest⟩ := List.forall_mem_cons.1 hpart
    rw [List.cons_append, nodes_char (hc.opener?_eq_none _), ih hrest, ← literal_append]
    rfl

theorem toList_source_element_append (tag : Tag) (children : List Node) (s : List Char) :
    (source (.element tag children)).toList ++ s =
      '{' :: (tag.name.toList ++ '{' :: ((sourceAll children).toList ++ '}' :: '}' :: s)) := by
  rw [toList_source_element]
  simp

/-! ### Closers behind printed nodes -/

mutual

theorem closer?_source :
    ∀ (node : Node) (opened : Nat) (s : List Char), node.isBraceless = true →
      closer? opened ((source node).toList ++ s) =
        (closer? opened s).map fun cut => ((source node).toList ++ cut.1, cut.2)
  | .text _, opened, s, h => closer?_append_of_plain (isBraceless_text_iff.1 h) opened s
  | .element tag children, opened, s, h => by
    have hchildren : areBraceless children = true := by rwa [isBraceless] at h
    have hinner := closer?_sourceAll children (opened + 1) ('}' :: '}' :: s) hchildren
    rw [toList_source_element_append, closer?_opener (opener?_name tag _), hinner,
      closer?_succ_closer, Option.map_map, Option.map_map]
    congr 1
    funext cut
    simp only [Function.comp, toList_source_element_append]

theorem closer?_sourceAll :
    ∀ (nodes : List Node) (opened : Nat) (s : List Char), areBraceless nodes = true →
      closer? opened ((sourceAll nodes).toList ++ s) =
        (closer? opened s).map fun cut => ((sourceAll nodes).toList ++ cut.1, cut.2)
  | [], _, _, _ => Option.map_id'.symm
  | node :: rest, opened, s, h => by
    obtain ⟨hnode, hrest⟩ : node.isBraceless = true ∧ areBraceless rest = true := by
      rwa [areBraceless, Bool.and_eq_true] at h
    rw [toList_sourceAll_cons, List.append_assoc, closer?_source node opened _ hnode,
      closer?_sourceAll rest opened s hrest, Option.map_map]
    congr 1
    funext cut
    simp only [Function.comp, List.append_assoc]

end

/-- The closer of a printed element is the one that was printed for it. -/
theorem closer?_zero_sourceAll (h : areBraceless children = true) (s : List Char) :
    closer? 0 ((sourceAll children).toList ++ '}' :: '}' :: s) =
      some ((sourceAll children).toList, s) := by
  rw [closer?_sourceAll children 0 _ h, closer?_zero_closer]
  simp

/-! ### Reading printed nodes -/

theorem literal_text {text : String} (hne : text.isEmpty = false)
    (hrest : rest.head?.any isText = false) :
    literal text.toList rest = .text text :: rest := by
  have hlist : text.toList.isEmpty = false := by
    simpa using hne
  unfold literal
  rw [hlist, String.ofList_toList]
  rcases rest with _ | ⟨_ | _, _⟩
  · rfl
  · cases hrest
  · rfl

theorem tagAt_name (hdepth : depth < maxTagDepth) (tag : Tag) :
    tagAt depth tag.name.toList = some tag := by
  rw [tagAt_eq, if_pos hdepth, String.ofList_toList, Tag.ofName?_name]

/-- The grammar reads the nodes that were printed, as deep as elements may stand. -/
theorem nodes_sourceAll :
    ∀ (nodes : List Node) (depth : Nat), areTidy nodes = true → areBraceless nodes = true →
      depth + nestingAll nodes ≤ maxTagDepth →
      Markup.nodes depth (sourceAll nodes).toList = nodes
  | [], depth, _, _, _ => nodes_nil depth
  | .text _ :: rest, depth, htidy, hplain, hdepth => by
    simp only [areTidy, isTidy, isText, Bool.and_eq_true, Bool.not_eq_true', Bool.true_and] at htidy
    simp only [areBraceless, Bool.and_eq_true] at hplain
    simp only [nestingAll, nesting] at hdepth
    obtain ⟨⟨hne, htidy⟩, hnext⟩ := htidy
    have hrest := nodes_sourceAll rest depth htidy hplain.2 (by omega)
    rw [toList_sourceAll_cons, source, nodes_append_of_plain (isBraceless_text_iff.1 hplain.1),
      hrest, literal_text hne hnext]
  | .element tag children :: rest, depth, htidy, hplain, hdepth => by
    simp only [areTidy, isTidy, isText, Bool.and_eq_true, Bool.false_and, Bool.not_false,
      and_true] at htidy
    simp only [areBraceless, isBraceless, Bool.and_eq_true] at hplain
    simp only [nestingAll, nesting] at hdepth
    have hinner := nodes_sourceAll children (depth + 1) htidy.1 hplain.1 (by omega)
    have hrest := nodes_sourceAll rest depth htidy.2 hplain.2 (by omega)
    rw [toList_sourceAll_cons, toList_source_element_append,
      nodes_closed (opener?_name tag _) (closer?_zero_sourceAll hplain.1 _),
      tagAt_name (by omega), hinner, hrest]

end Node

/-- Tidy nodes without an element are one text, or none at all. -/
theorem Rendered.ofNodes_of_not_hasElement {nodes : List Node}
    (htidy : Node.areTidy nodes = true) (helement : hasElement nodes = false) :
    Rendered.ofNodes nodes = .text (Node.plainAll nodes) := by
  rcases nodes with _ | ⟨text | ⟨tag, children⟩, _ | ⟨next | ⟨tag', children'⟩, rest⟩⟩
  · rfl
  · show Rendered.text text = .text (text ++ "")
    rw [String.append_empty]
  · simp [Node.areTidy, Node.isText] at htidy
  · cases helement
  · cases helement
  · cases helement
  · cases helement

/-- **Parsing undoes printing**: nodes that stand no deeper inside each other than elements may, and
whose texts have no braces, are not empty and not next to each other, are read back from what is
printed for them. -/
theorem parseTags_sourceAll {nodes : List Node} (htidy : Node.areTidy nodes = true)
    (hplain : Node.areBraceless nodes = true) (hdepth : Node.nestingAll nodes ≤ maxTagDepth) :
    parseTags (Node.sourceAll nodes) =
      if hasElement nodes then .markup nodes else .text (Node.plainAll nodes) := by
  have hnodes := Node.nodes_sourceAll nodes 0 htidy hplain (by omega)
  unfold parseTags
  rw [parseNodes_eq, hnodes]
  cases helement : hasElement nodes with
  | true => exact ofNodes_of_hasElement helement
  | false => exact Rendered.ofNodes_of_not_hasElement htidy helement

def Node.crowded : List Node :=
  [.text "H", .element .bold [.element .italic [.text "x"], .element .small []],
    .element .superscript []]

theorem parseTags_sourceAll_crowded :
    Node.areTidy Node.crowded = true ∧ Node.areBraceless Node.crowded = true ∧
      Node.nestingAll Node.crowded ≤ maxTagDepth ∧
      parseTags (Node.sourceAll Node.crowded) = .markup Node.crowded := by
  have htidy : Node.areTidy Node.crowded = true := by decide
  have hplain : Node.areBraceless Node.crowded = true := by decide
  have hdepth : Node.nestingAll Node.crowded ≤ maxTagDepth := by decide
  exact ⟨htidy, hplain, hdepth, parseTags_sourceAll htidy hplain hdepth⟩

/-! ## Parsed markup is canonical

A text has many trees that print as it, but the parser gives the one in which text is merged:
`literal` never leaves an empty text or two texts side by side (`areTidy_literal`), and an element
is opened only where fewer than `maxTagDepth` enclose it (`add_nestingAll_nodes_le`). So what is
parsed can be printed and parsed again, and a tree without an element is never given.
-/

open Markup

namespace Node

variable {nodes children rest : List Node} {tag : Tag} {depth : Nat}

theorem areTidy_element_cons :
    areTidy (.element tag children :: rest) = true ↔
      areTidy children = true ∧ areTidy rest = true := by
  simp [areTidy, isTidy, isText]

/-- Literal text in front of tidy nodes is merged with them. -/
theorem areTidy_literal (part : List Char) (h : areTidy nodes = true) :
    areTidy (literal part nodes) = true := by
  unfold literal
  split
  · exact h
  · next hpart =>
    have hne : (String.ofList part).isEmpty = false := by simpa using hpart
    rcases nodes with _ | ⟨s | ⟨tag, children⟩, rest⟩
    · simp [areTidy, isTidy, hne]
    · have hjoined : (String.ofList part ++ s).isEmpty = false := by
        simp [List.isEmpty_eq_false_iff.1 (Bool.eq_false_iff.2 hpart)]
      simp only [areTidy, isTidy, isText, hjoined, Bool.and_eq_true] at h ⊢
      exact ⟨⟨rfl, h.1.2⟩, h.2⟩
    · simpa [areTidy, isTidy, isText, hne] using areTidy_element_cons.1 h

theorem nestingAll_literal (part : List Char) (nodes : List Node) :
    nestingAll (literal part nodes) = nestingAll nodes := by
  unfold literal
  split
  · rfl
  · rcases nodes with _ | ⟨_ | _, _⟩ <;> simp [nestingAll, nesting]

/-! ### What the grammar reads -/

theorem areTidy_nodes (depth : Nat) (s : List Char) : areTidy (Markup.nodes depth s) = true := by
  induction s using pieceInduction generalizing depth with
  | nil => rw [nodes_nil]; rfl
  | char c rest hopen ih =>
    rw [nodes_char hopen]
    exact areTidy_literal _ (ih depth)
  | unclosed s word after hopen hclose ih =>
    rw [nodes_unclosed hopen hclose]
    exact areTidy_literal _ (ih depth)
  | closed s word after inner rest hopen hclose ihInner ihRest =>
    rw [nodes_closed hopen hclose]
    cases tagAt depth word with
    | some tag => exact areTidy_element_cons.2 ⟨ihInner (depth + 1), ihRest depth⟩
    | none => exact areTidy_literal _ (ihRest depth)

theorem lt_of_tagAt {word : List Char} (h : tagAt depth word = some tag) : depth < maxTagDepth := by
  rw [tagAt_eq] at h
  split at h
  · assumption
  · cases h

/-- The elements in a text and those around it are no more than may stand inside each other. -/
theorem add_nestingAll_nodes_le (hdepth : depth ≤ maxTagDepth) (s : List Char) :
    depth + nestingAll (Markup.nodes depth s) ≤ maxTagDepth := by
  induction s using pieceInduction generalizing depth with
  | nil => rwa [nodes_nil]
  | char c rest hopen ih =>
    rw [nodes_char hopen, nestingAll_literal]
    exact ih hdepth
  | unclosed s word after hopen hclose ih =>
    rw [nodes_unclosed hopen hclose, nestingAll_literal]
    exact ih hdepth
  | closed s word after inner rest hopen hclose ihInner ihRest =>
    rw [nodes_closed hopen hclose]
    have hrest := ihRest hdepth
    cases htag : tagAt depth word with
    | some tag =>
      have hinner : depth + 1 + _ ≤ _ := ihInner (lt_of_tagAt htag)
      simp only [nestingAll, nesting]
      omega
    | none =>
      simp only [nestingAll_literal]
      exact hrest

end Node

/-- **Parsing gives a canonical tree**: plain text exactly if there is no element, and then the text
itself. Markup has an element in it, no empty text and no two texts side by side on any level, and
no more elements inside each other than may stand there. -/
theorem parseTags_canonical (text : String) :
    ((∃ s, parseTags text = .text s) ↔ hasElement (parseNodes text.toList) = false) ∧
      (∀ s, parseTags text = .text s → s = text) ∧
      ∀ nodes, parseTags text = .markup nodes →
        hasElement nodes = true ∧ Node.areTidy nodes = true ∧
          Node.nestingAll nodes ≤ maxTagDepth := by
  rw [parseTags_eq, parseNodes_eq]
  have htidy := Node.areTidy_nodes 0 text.toList
  have hnesting := Node.add_nestingAll_nodes_le (Nat.zero_le _) text.toList
  cases helement : hasElement (Markup.nodes 0 text.toList) with
  | true =>
    refine ⟨⟨nofun, nofun⟩, nofun, fun nodes h => ?_⟩
    obtain rfl : Markup.nodes 0 text.toList = nodes := by simpa using h
    exact ⟨helement, htidy, by omega⟩
  | false => exact ⟨⟨fun _ => rfl, fun _ => ⟨text, rfl⟩⟩, fun s h => by simpa using h.symm, nofun⟩

end Phrasebook
