import Phrasebook.Proofs.Markup.Printing
import Phrasebook.Proofs.Text

/-!
# Parsing octets

The grammar knows the braces and the characters of a word, all of them ASCII, so it finds the same
openers and closers among the octets of a text as in the text itself. The nodes that the octets read
as are those of the text, each text in them as its octets (`parseNodes_octets`).
-/

namespace Phrasebook

open Markup Text

variable {s word after inner rest part : List Char} {c : Char}

/-! ## Tokens -/

theorem isAscii_of_isWordChar (h : isWordChar c = true) : IsAscii c := by
  have hword : (((c.val ≥ 'A'.val ∧ c.val ≤ 'Z'.val) || (c.val ≥ 'a'.val && c.val ≤ 'z'.val) ||
      (c.val ≥ '0'.val && c.val ≤ '9'.val)) || c = '_') = true := h
  simp only [Bool.or_eq_true, Bool.and_eq_true, decide_eq_true_eq] at hword
  rcases hword with ((h | h) | h) | rfl
  · exact Nat.lt_of_le_of_lt (UInt32.le_iff_toNat_le.1 h.2) (by decide)
  · exact Nat.lt_of_le_of_lt (UInt32.le_iff_toNat_le.1 h.2) (by decide)
  · exact Nat.lt_of_le_of_lt (UInt32.le_iff_toNat_le.1 h.2) (by decide)
  · decide

theorem isPlainChar_of_mem_octetsOf (hc : ¬ IsAscii c) : ∀ d ∈ octetsOf c, Node.IsPlainChar d := by
  intro d hd
  have hnot := not_isAscii_of_mem_octetsOf hc hd
  constructor
  · rintro rfl
    exact hnot (by decide)
  · rintro rfl
    exact hnot (by decide)

theorem octets_opener (hword : ∀ c ∈ word, isWordChar c = true) (after : List Char) :
    octets ('{' :: (word ++ '{' :: after)) = '{' :: (word ++ '{' :: octets after) := by
  have hbrace : IsAscii '{' := by decide
  have hsame : octets word = word :=
    octets_of_isAscii fun c hc => isAscii_of_isWordChar (hword c hc)
  rw [octets_cons_of_isAscii hbrace, octets_append, octets_cons_of_isAscii hbrace, hsame]

theorem octets_closer (rest : List Char) :
    octets ('}' :: '}' :: rest) = '}' :: '}' :: octets rest := by
  have hbrace : IsAscii '}' := by decide
  rw [octets_cons_of_isAscii hbrace, octets_cons_of_isAscii hbrace]

theorem opener?_octets (h : opener? s = some (word, after)) :
    opener? (octets s) = some (word, octets after) := by
  obtain ⟨rfl, hne, hword⟩ := opener?_eq_some_iff.1 h
  exact opener?_eq_some_iff.2 ⟨octets_opener hword after, hne, hword⟩

theorem opener?_octets_eq_none (h : opener? s = none) : opener? (octets s) = none := by
  cases hsome : opener? (octets s) with
  | none => rfl
  | some cut =>
    obtain ⟨word, after⟩ := cut
    obtain ⟨heq, hne, hword⟩ := opener?_eq_some_iff.1 hsome
    have hascii : ∀ c ∈ '{' :: (word ++ ['{']), IsAscii c := by
      have hbrace : IsAscii '{' := by decide
      refine List.forall_mem_cons.2 ⟨hbrace, List.forall_mem_append.2 ⟨fun c hc => ?_, ?_⟩⟩
      · exact isAscii_of_isWordChar (hword c hc)
      · exact List.forall_mem_singleton.2 hbrace
    have hlead : octets s = ('{' :: (word ++ ['{'])) ++ after := by rw [heq]; simp
    obtain ⟨behind, rfl, -⟩ := exists_of_octets_eq_append hascii hlead
    have hopen : opener? ('{' :: (word ++ ['{']) ++ behind) = some (word, behind) :=
      opener?_eq_some_iff.2 ⟨by simp, hne, hword⟩
    cases h.symm.trans hopen

theorem startsWithCloser_octets (h : startsWithCloser s = false) :
    startsWithCloser (octets s) = false := by
  rw [Bool.eq_false_iff] at h ⊢
  intro hcloser
  obtain ⟨tail, heq⟩ := startsWithCloser_iff.1 hcloser
  have hbrace : IsAscii '}' := by decide
  have hascii : ∀ c ∈ ['}', '}'], IsAscii c :=
    List.forall_mem_cons.2 ⟨hbrace, List.forall_mem_singleton.2 hbrace⟩
  have hlead : octets s = ['}', '}'] ++ tail := heq
  obtain ⟨after, rfl, -⟩ := exists_of_octets_eq_append hascii hlead
  exact h (startsWithCloser_iff.2 ⟨after, rfl⟩)

/-- The closer of an opener is where it is in the text. -/
theorem closer?_octets (opened : Nat) (s : List Char) :
    closer? opened (octets s) =
      (closer? opened s).map fun cut => (octets cut.1, octets cut.2) := by
  induction s using tokenInduction generalizing opened with
  | nil =>
    show closer? opened [] = _
    rw [closer?_nil]
    rfl
  | opener s word after hopen ih =>
    have hword := (opener?_eq_some_iff.1 hopen).2.2
    rw [closer?_opener (opener?_octets hopen), closer?_opener hopen, ih, Option.map_map,
      Option.map_map]
    refine Option.map_congr fun cut _ => ?_
    simp only [Function.comp, octets_opener hword]
  | closer rest ih =>
    rw [octets_closer]
    cases opened with
    | zero => rw [closer?_zero_closer, closer?_zero_closer]; rfl
    | succ opened =>
      rw [closer?_succ_closer, closer?_succ_closer, ih, Option.map_map, Option.map_map]
      refine Option.map_congr fun cut _ => ?_
      simp only [Function.comp, octets_closer]
  | char c rest hopen hclose ih =>
    rw [closer?_char hopen hclose, Option.map_map]
    by_cases hc : IsAscii c
    · have hopen := opener?_octets_eq_none hopen
      have hclose := startsWithCloser_octets hclose
      rw [octets_cons_of_isAscii hc] at hopen hclose ⊢
      rw [closer?_char hopen hclose, ih, Option.map_map]
      refine Option.map_congr fun cut _ => ?_
      simp only [Function.comp, octets_cons_of_isAscii hc]
    · rw [octets_cons, Node.closer?_append_of_plain (isPlainChar_of_mem_octetsOf hc), ih,
        Option.map_map]
      refine Option.map_congr fun cut _ => ?_
      simp only [Function.comp, octets_cons]

/-! ## Nodes -/

namespace Node

mutual

/-- A node with its texts as octets. -/
def inOctets : Node → Node
  | text s => text (String.ofList (octets s.toList))
  | element tag children => element tag (inOctetsAll children)
termination_by structural node => node

def inOctetsAll : List Node → List Node
  | [] => []
  | node :: rest => inOctets node :: inOctetsAll rest
termination_by structural nodes => nodes

end

theorem inOctetsAll_literal (part : List Char) (nodes : List Node) :
    inOctetsAll (literal part nodes) = literal (octets part) (inOctetsAll nodes) := by
  cases part with
  | nil => rfl
  | cons c rest =>
    have hne : octets (c :: rest) ≠ [] := by
      rw [octets_cons]
      exact List.append_ne_nil_of_left_ne_nil (octetsOf_ne_nil c) _
    obtain ⟨first, more, hocts⟩ := List.exists_cons_of_ne_nil hne
    have hjoin (s : String) : octets (String.ofList (c :: rest) ++ s).toList =
        octets (c :: rest) ++ octets s.toList := by
      rw [String.toList_append, String.toList_ofList, octets_append]
    rcases nodes with _ | ⟨s | ⟨tag, children⟩, nodes⟩
    · simp [literal, inOctetsAll, inOctets, hocts]
    · show inOctets (.text (String.ofList (c :: rest) ++ s)) :: inOctetsAll nodes = _
      rw [inOctets, hjoin, hocts, String.ofList_append]
      rfl
    · simp [literal, inOctetsAll, inOctets, hocts]

end Node

theorem nodes_octets (depth : Nat) (s : List Char) :
    Markup.nodes depth (octets s) = Node.inOctetsAll (Markup.nodes depth s) := by
  induction s using pieceInduction generalizing depth with
  | nil =>
    rw [nodes_nil]
    exact nodes_nil depth
  | char c rest hopen ih =>
    rw [nodes_char hopen, Node.inOctetsAll_literal, ← ih]
    by_cases hc : IsAscii c
    · have hopen := opener?_octets_eq_none hopen
      have hsame : octets [c] = [c] := octets_of_isAscii (List.forall_mem_singleton.2 hc)
      rw [octets_cons_of_isAscii hc] at hopen ⊢
      rw [nodes_char hopen, hsame]
    · have hsame : octets [c] = octetsOf c := List.append_nil _
      rw [octets_cons, Node.nodes_append_of_plain (isPlainChar_of_mem_octetsOf hc), hsame]
  | unclosed s word after hopen hclose ih =>
    have hword := (opener?_eq_some_iff.1 hopen).2.2
    have hnone : closer? 0 (octets after) = none := by rw [closer?_octets, hclose]; rfl
    rw [nodes_unclosed (opener?_octets hopen) hnone, nodes_unclosed hopen hclose,
      Node.inOctetsAll_literal, ih, octets_opener hword]
    rfl
  | closed s word after inner rest hopen hclose ihInner ihRest =>
    have hword := (opener?_eq_some_iff.1 hopen).2.2
    have hcut : closer? 0 (octets after) = some (octets inner, octets rest) := by
      rw [closer?_octets, hclose]; rfl
    rw [nodes_closed (opener?_octets hopen) hcut, nodes_closed hopen hclose]
    cases htag : tagAt depth word with
    | some tag =>
      show Node.element tag _ :: _ = Node.element tag _ :: _
      rw [ihInner, ihRest]
    | none =>
      have hpart : octets (inner ++ ['}', '}']) = octets inner ++ ['}', '}'] := by
        rw [octets_append, octets_closer]
        rfl
      show literal _ _ = Node.inOctetsAll (literal _ _)
      rw [Node.inOctetsAll_literal, octets_opener hword, hpart, ihRest]

/-- **The octets of a text are parsed as the text is.** -/
theorem parseNodes_octets (text : List Char) :
    parseNodes (octets text) = Node.inOctetsAll (parseNodes text) := by
  rw [parseNodes_eq, parseNodes_eq, nodes_octets]

end Phrasebook
