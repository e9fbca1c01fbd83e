import Phrasebook.Markup

/-!
# The markup language

The language by recursion on the text, without positions and without a stack. A text is read from
left to right: an opener `{word{` whose closer is found is a span and is read as a whole, an opener
without a closer is literal, and so is every other character. The closer is the first `}}` at which
every opener read since has been closed. A span whose word is a tag becomes an element, and its
inner text is read by itself, one level deeper; every other span is literal with all that is in it.

`tokenInduction` and `pieceInduction` are the inductions that go with this reading.
-/

namespace Phrasebook.Markup

def isWordChar (c : Char) : Bool := c.isAlphanum || c = '_'

/-- The word of the opener at the start of a text, and what follows the opener. -/
def opener? : List Char → Option (List Char × List Char)
  | [] => none
  | c :: rest =>
    let word := rest.takeWhile isWordChar
    if c = '{' ∧ word ≠ [] ∧ (rest.drop word.length).head? = some '{' then
      some (word, rest.drop (word.length + 1))
    else none

variable {s t word after inner rest : List Char} {c : Char} {opened depth : Nat}

theorem opener?_eq_some_iff :
    opener? s = some (word, after) ↔
      s = '{' :: (word ++ '{' :: after) ∧ word ≠ [] ∧ ∀ c ∈ word, isWordChar c = true := by
  constructor
  · intro h
    cases s with
    | nil => cases h
    | cons c rest =>
      simp only [opener?] at h
      split at h
      · next hopen =>
        obtain ⟨rfl, hne, hbrace⟩ := hopen
        obtain ⟨rfl, rfl⟩ := Prod.mk.inj (Option.some.inj h)
        refine ⟨?_, hne, fun c hc => List.all_eq_true.1 List.all_takeWhile c hc⟩
        have htake : rest.takeWhile isWordChar = rest.take (rest.takeWhile isWordChar).length :=
          (List.prefix_iff_eq_take.1 (List.takeWhile_prefix _))
        obtain ⟨tail, htail⟩ := List.head?_eq_some_iff.1 hbrace
        have hdrop : rest.drop ((rest.takeWhile isWordChar).length + 1) = tail := by
          rw [← List.drop_drop, htail]; rfl
        rw [hdrop, ← htail]
        congr 1
        conv => lhs; rw [← List.take_append_drop (rest.takeWhile isWordChar).length rest]
        rw [← htake]
      · cases h
  · rintro ⟨rfl, hne, hword⟩
    have htake : (word ++ '{' :: after).takeWhile isWordChar = word := by
      rw [List.takeWhile_append_of_pos hword, List.takeWhile_cons_of_neg (by decide),
        List.append_nil]
    have hdrop : (word ++ '{' :: after).drop word.length = '{' :: after := List.drop_left
    simp only [opener?, htake, hdrop, ← List.drop_drop, List.head?_cons, List.drop_one,
      List.tail_cons, ne_eq, hne, not_false_eq_true, and_self, if_true]

theorem eq_of_opener? (h : opener? s = some (word, after)) : s = '{' :: (word ++ '{' :: after) :=
  (opener?_eq_some_iff.1 h).1

theorem opener?_replace (h : opener? s = some (word, after)) (t : List Char) :
    opener? ('{' :: (word ++ '{' :: t)) = some (word, t) :=
  opener?_eq_some_iff.2 ⟨rfl, (opener?_eq_some_iff.1 h).2⟩

theorem opener?_append (h : opener? s = some (word, after)) (t : List Char) :
    opener? (s ++ t) = some (word, after ++ t) := by
  obtain ⟨rfl, hword⟩ := opener?_eq_some_iff.1 h
  exact opener?_eq_some_iff.2 ⟨by simp, hword⟩

theorem length_after_lt (h : opener? s = some (word, after)) : after.length < s.length := by
  rw [eq_of_opener? h, List.length_cons, List.length_append, List.length_cons]
  omega

/-! ## Closers -/

def startsWithCloser (s : List Char) : Bool := ['}', '}'].isPrefixOf s

theorem startsWithCloser_iff : startsWithCloser s = true ↔ ∃ rest, s = '}' :: '}' :: rest := by
  unfold startsWithCloser
  rw [List.isPrefixOf_iff_prefix]
  exact ⟨fun ⟨rest, h⟩ => ⟨rest, h.symm⟩, fun ⟨rest, h⟩ => ⟨rest, h.symm⟩⟩

/-- What stands before the closer of an opener, and what follows the closer, in the text after the
opener. Of the openers read since, `opened` have not been closed. -/
def closer? (opened : Nat) (s : List Char) : Option (List Char × List Char) :=
  match s with
  | [] => none
  | c :: rest =>
    match h : opener? (c :: rest) with
    | some (word, after) =>
      have : after.length < (c :: rest).length := length_after_lt h
      (closer? (opened + 1) after).map fun cut => ('{' :: (word ++ '{' :: cut.1), cut.2)
    | none =>
      if startsWithCloser (c :: rest) then
        match opened with
        | 0 => some ([], rest.drop 1)
        | opened + 1 =>
          (closer? opened (rest.drop 1)).map fun cut => ('}' :: '}' :: cut.1, cut.2)
      else (closer? opened rest).map fun cut => (c :: cut.1, cut.2)
termination_by s.length
decreasing_by
  · assumption
  · simp only [List.length_drop, List.length_cons]; omega
  · exact Nat.lt_succ_self _

theorem opener?_closer (rest : List Char) : opener? ('}' :: '}' :: rest) = none := by
  simp [opener?]

/-- A text by its tokens: openers, closers and other characters. -/
@[elab_as_elim]
theorem tokenInduction {motive : List Char → Prop} (nil : motive [])
    (opener : ∀ s word after, opener? s = some (word, after) → motive after → motive s)
    (closer : ∀ rest, motive rest → motive ('}' :: '}' :: rest))
    (char : ∀ c rest, opener? (c :: rest) = none → startsWithCloser (c :: rest) = false →
      motive rest → motive (c :: rest))
    (s : List Char) : motive s := by
  induction hn : s.length using Nat.strongRecOn generalizing s with
  | ind n ih =>
    cases s with
    | nil => exact nil
    | cons c rest =>
      cases hopen : opener? (c :: rest) with
      | some cut =>
        obtain ⟨word, after⟩ := cut
        exact opener _ word after hopen (ih _ (hn ▸ length_after_lt hopen) _ rfl)
      | none =>
        cases hclose : startsWithCloser (c :: rest) with
        | false => exact char c rest hopen hclose (ih _ (by simp [← hn]) _ rfl)
        | true =>
          obtain ⟨rest, heq⟩ := startsWithCloser_iff.1 hclose
          rw [heq] at hn ⊢
          exact closer rest (ih _ (by simp only [← hn, List.length_cons]; omega) _ rfl)

theorem closer?_nil (opened : Nat) : closer? opened [] = none := by
  unfold closer?; rfl

theorem closer?_opener (h : opener? s = some (word, after)) (opened : Nat) :
    closer? opened s =
      (closer? (opened + 1) after).map fun cut => ('{' :: (word ++ '{' :: cut.1), cut.2) := by
  obtain rfl := eq_of_opener? h
  conv => lhs; unfold closer?
  split
  · next h' =>
    obtain ⟨rfl, rfl⟩ := Prod.mk.inj (Option.some.inj (h.symm.trans h'))
    rfl
  · next h' => cases h.symm.trans h'

theorem closer?_zero_closer (rest : List Char) :
    closer? 0 ('}' :: '}' :: rest) = some ([], rest) := by
  unfold closer?
  split
  · next h => cases (opener?_closer rest).symm.trans h
  · rfl

theorem closer?_succ_closer (opened : Nat) (rest : List Char) :
    closer? (opened + 1) ('}' :: '}' :: rest) =
      (closer? opened rest).map fun cut => ('}' :: '}' :: cut.1, cut.2) := by
  conv => lhs; unfold closer?
  split
  · next h => cases (opener?_closer rest).symm.trans h
  · rfl

theorem closer?_char (hopener : opener? (c :: rest) = none)
    (hcloser : startsWithCloser (c :: rest) = false) (opened : Nat) :
    closer? opened (c :: rest) = (closer? opened rest).map fun cut => (c :: cut.1, cut.2) := by
  conv => lhs; unfold closer?
  split
  · next h => cases hopener.symm.trans h
  · rw [hcloser]; rfl

theorem eq_of_closer? (h : closer? opened s = some (inner, rest)) :
    s = inner ++ '}' :: '}' :: rest := by
  induction s using tokenInduction generalizing opened inner with
  | nil => rw [closer?_nil] at h; cases h
  | opener s word after hopen ih =>
    rw [closer?_opener hopen] at h
    obtain ⟨⟨inner', rest'⟩, hcut, heq⟩ := Option.map_eq_some_iff.1 h
    obtain ⟨rfl, rfl⟩ := Prod.mk.inj heq
    rw [eq_of_opener? hopen, ih hcut]
    simp
  | closer tail ih =>
    cases opened with
    | zero =>
      rw [closer?_zero_closer] at h
      obtain ⟨rfl, rfl⟩ := Prod.mk.inj (Option.some.inj h)
      rfl
    | succ opened =>
      rw [closer?_succ_closer] at h
      obtain ⟨⟨inner', rest'⟩, hcut, heq⟩ := Option.map_eq_some_iff.1 h
      obtain ⟨rfl, rfl⟩ := Prod.mk.inj heq
      rw [ih hcut]
      rfl
  | char c tail hopen hclose ih =>
    rw [closer?_char hopen hclose] at h
    obtain ⟨⟨inner', rest'⟩, hcut, heq⟩ := Option.map_eq_some_iff.1 h
    obtain ⟨rfl, rfl⟩ := Prod.mk.inj heq
    rw [ih hcut]
    rfl

/-! ## Nodes -/

/-- `part` as literal text before `nodes`: it is merged with the text that may be first there. -/
def literal (part : List Char) (nodes : List Node) : List Node :=
  if part.isEmpty then nodes
  else
    match nodes with
    | .text s :: rest => .text (String.ofList part ++ s) :: rest
    | _ => .text (String.ofList part) :: nodes

/-- The words that are tags. -/
def tagOf (word : List Char) : Option Tag :=
  match word with
  | ['b'] => some .bold
  | ['i'] => some .italic
  | ['u'] => some .underline
  | ['s', 'm', 'a', 'l', 'l'] => some .small
  | ['s', 'u', 'p'] => some .superscript
  | ['s', 'u', 'b'] => some .subscript
  | _ => none

/-- The tag of a span with this word, where `depth` elements enclose it: from the seventeenth level
on a span is literal. -/
def tagAt (depth : Nat) (word : List Char) : Option Tag :=
  if depth < 16 then tagOf word else none

theorem tagOf_eq (word : List Char) : tagOf word = Tag.ofName? (String.ofList word) := by
  unfold tagOf
  split
  iterate 6 rfl
  next hb hi hu hsmall hsup hsub =>
    refine (List.find?_eq_none.2 fun tag _ hname => ?_).symm
    obtain rfl : word = tag.name.toList := by
      rw [of_decide_eq_true hname, String.toList_ofList]
    cases tag with
    | bold => exact hb rfl
    | italic => exact hi rfl
    | underline => exact hu rfl
    | small => exact hsmall rfl
    | superscript => exact hsup rfl
    | subscript => exact hsub rfl

/-- The parser has the same tags at the same depths. -/
theorem tagAt_eq (depth : Nat) (word : List Char) :
    tagAt depth word =
      if depth < maxTagDepth then Tag.ofName? (String.ofList word) else none := by
  rw [tagAt, tagOf_eq]
  rfl

/-- The nodes of a text that `depth` elements enclose. -/
def nodes (depth : Nat) (s : List Char) : List Node :=
  match s with
  | [] => []
  | c :: rest =>
    match h : opener? (c :: rest) with
    | none => literal [c] (nodes depth rest)
    | some (word, after) =>
      have := length_after_lt h
      match h' : closer? 0 after with
      | none => literal ('{' :: (word ++ ['{'])) (nodes depth after)
      | some (inner, rest) =>
        have : after.length = inner.length + (rest.length + 2) := by
          rw [eq_of_closer? h', List.length_append]; rfl
        match tagAt depth word with
        | some tag => .element tag (nodes (depth + 1) inner) :: nodes depth rest
        | none => literal ('{' :: (word ++ '{' :: (inner ++ ['}', '}']))) (nodes depth rest)
termination_by s.length
decreasing_by all_goals simp_all <;> omega

/-- A text by its pieces: closed spans, openers without a closer, and other characters. -/
@[elab_as_elim]
theorem pieceInduction {motive : List Char → Prop} (nil : motive [])
    (char : ∀ c rest, opener? (c :: rest) = none → motive rest → motive (c :: rest))
    (unclosed : ∀ s word after, opener? s = some (word, after) → closer? 0 after = none →
      motive after → motive s)
    (closed : ∀ s word after inner rest, opener? s = some (word, after) →
      closer? 0 after = some (inner, rest) → motive inner → motive rest → motive s)
    (s : List Char) : motive s := by
  induction hn : s.length using Nat.strongRecOn generalizing s with
  | ind n ih =>
    cases s with
    | nil => exact nil
    | cons c rest =>
      cases hopen : opener? (c :: rest) with
      | none => exact char c rest hopen (ih _ (by simp [← hn]) _ rfl)
      | some cut =>
        obtain ⟨word, after⟩ := cut
        have hafter := length_after_lt hopen
        cases hclose : closer? 0 after with
        | none => exact unclosed _ word after hopen hclose (ih _ (hn ▸ hafter) _ rfl)
        | some cut =>
          obtain ⟨inner, rest⟩ := cut
          have hlength : after.length = inner.length + (rest.length + 2) := by
            rw [eq_of_closer? hclose, List.length_append]; rfl
          exact closed _ word after inner rest hopen hclose (ih _ (by omega) _ rfl)
            (ih _ (by omega) _ rfl)

theorem nodes_nil (depth : Nat) : nodes depth [] = [] := by
  unfold nodes; rfl

theorem nodes_char (h : opener? (c :: rest) = none) (depth : Nat) :
    nodes depth (c :: rest) = literal [c] (nodes depth rest) := by
  conv => lhs; unfold nodes
  split
  · rfl
  · next h' => cases h.symm.trans h'

theorem nodes_unclosed (hopen : opener? s = some (word, after)) (hclose : closer? 0 after = none)
    (depth : Nat) :
    nodes depth s = literal ('{' :: (word ++ ['{'])) (nodes depth after) := by
  obtain rfl := eq_of_opener? hopen
  conv => lhs; unfold nodes
  split
  · next h => cases hopen.symm.trans h
  · next h =>
    obtain ⟨rfl, rfl⟩ := Prod.mk.inj (Option.some.inj (hopen.symm.trans h))
    split
    · rfl
    · next h => cases hclose.symm.trans h

theorem nodes_closed (hopen : opener? s = some (word, after))
    (hclose : closer? 0 after = some (inner, rest)) (depth : Nat) :
    nodes depth s =
      match tagAt depth word with
      | some tag => .element tag (nodes (depth + 1) inner) :: nodes depth rest
      | none => literal ('{' :: (word ++ '{' :: (inner ++ ['}', '}']))) (nodes depth rest) := by
  obtain rfl := eq_of_opener? hopen
  conv => lhs; unfold nodes
  split
  · next h => cases hopen.symm.trans h
  · next h =>
    obtain ⟨rfl, rfl⟩ := Prod.mk.inj (Option.some.inj (hopen.symm.trans h))
    split
    · next h => cases hclose.symm.trans h
    · next h =>
      obtain ⟨rfl, rfl⟩ := Prod.mk.inj (Option.some.inj (hclose.symm.trans h))
      rfl

/-! ## Literal text -/

theorem literal_append (a b : List Char) (nodes : List Node) :
    literal (a ++ b) nodes = literal a (literal b nodes) := by
  unfold literal
  cases a with
  | nil => rfl
  | cons x a =>
    cases b with
    | nil => simp
    | cons y b =>
      rcases nodes with _ | ⟨_ | _, _⟩ <;> simp [String.append_assoc]

theorem literal_element (part : List Char) (tag : Tag) (children rest : List Node) :
    literal part (.element tag children :: rest) =
      literal part [] ++ .element tag children :: rest := by
  unfold literal
  split <;> rfl

def hasElement (nodes : List Node) : Bool :=
  nodes.any fun node => match node with
    | .text _ => false
    | .element _ _ => true

theorem hasElement_literal (part : List Char) (nodes : List Node) :
    hasElement (literal part nodes) = hasElement nodes := by
  unfold literal
  split
  · rfl
  · rcases nodes with _ | ⟨_ | _, _⟩ <;> simp [hasElement]

theorem nodes_of_not_hasElement (h : hasElement (nodes depth s) = false) :
    nodes depth s = literal s [] := by
  induction s using pieceInduction with
  | nil => exact nodes_nil depth
  | char c rest hopen ih =>
    rw [nodes_char hopen] at h ⊢
    rw [hasElement_literal] at h
    rw [ih h, ← literal_append]
    rfl
  | unclosed s word after hopen hclose ih =>
    rw [nodes_unclosed hopen hclose] at h ⊢
    rw [hasElement_literal] at h
    rw [ih h, ← literal_append, eq_of_opener? hopen]
    simp
  | closed s word after inner rest hopen hclose _ ih =>
    rw [nodes_closed hopen hclose] at h ⊢
    cases htag : tagAt depth word with
    | some tag => simp [htag, hasElement] at h
    | none =>
      simp only [htag] at h ⊢
      rw [hasElement_literal] at h
      rw [ih h, ← literal_append, eq_of_opener? hopen, eq_of_closer? hclose]
      simp

end Phrasebook.Markup
