import Mathlib.Data.List.TakeWhile
import Mathlib.Tactic.SplitIfs
import Phrasebook.Text.Basic

/-!
# Texts

White space around a text, the order of texts and of their bytes, and a text as the bytes of its
UTF-8.
-/

namespace Phrasebook.Text

/-! ## White space around a text

`trim` cuts off the white space at both ends and nothing else. So a trimmed text neither begins nor
ends in white space, and such a text is trimmed already (`trim_eq_self_iff`).
-/

section

variable {s trail : List Char} {c : Char}

theorem trimEnd_of_blank (h : ∀ x ∈ s, isBlank x = true) : trimEnd s = [] := by
  unfold trimEnd
  rw [List.dropWhile_eq_nil_iff.2 fun x hx => h x (List.mem_reverse.1 hx), List.reverse_nil]

theorem trimEnd_cons (h : ¬ ∀ x ∈ c :: s, isBlank x = true) :
    trimEnd (c :: s) = c :: trimEnd s := by
  unfold trimEnd
  rw [List.reverse_cons, List.dropWhile_append]
  split
  · next hempty =>
    have hs : ∀ x ∈ s, isBlank x = true := fun x hx =>
      List.dropWhile_eq_nil_iff.1 (List.isEmpty_iff.1 hempty) x (List.mem_reverse.2 hx)
    have hc : ¬ isBlank c = true := fun hc => h (List.forall_mem_cons.2 ⟨hc, hs⟩)
    rw [List.isEmpty_iff.1 hempty, List.dropWhile_cons_of_neg hc]
    rfl
  · rw [List.reverse_append]
    rfl

theorem trimEnd_append (h : ∀ x ∈ trail, isBlank x = true) : trimEnd (s ++ trail) = trimEnd s := by
  unfold trimEnd
  rw [List.reverse_append,
    List.dropWhile_append_of_pos fun x hx => h x (List.mem_reverse.1 hx)]

theorem trimEnd_eq_self (h : ∀ x ∈ s.getLast?, isBlank x = false) : trimEnd s = s := by
  unfold trimEnd
  rw [List.getLast?_eq_head?_reverse] at h
  cases hs : s.reverse with
  | nil => rw [List.reverse_eq_nil_iff.1 hs]; rfl
  | cons c rest =>
    rw [hs] at h
    rw [List.dropWhile_cons_of_neg (by simpa using h), ← hs, List.reverse_reverse]

/-- What is cut off at the end is white space, and what is left does not end in any. -/
theorem exists_trail (s : List Char) : ∃ trail, s = trimEnd s ++ trail ∧
    (∀ x ∈ trail, isBlank x = true) ∧ ∀ x ∈ (trimEnd s).getLast?, isBlank x = false := by
  refine ⟨(s.reverse.takeWhile isBlank).reverse, ?_, fun x hx => ?_, fun x hx => ?_⟩
  · unfold trimEnd
    rw [← List.reverse_append, List.takeWhile_append_dropWhile, List.reverse_reverse]
  · exact List.mem_takeWhile_imp (List.mem_reverse.1 hx)
  · unfold trimEnd at hx
    rw [List.getLast?_reverse] at hx
    have hhead := List.head?_dropWhile_not isBlank s.reverse
    rw [Option.mem_def.1 hx] at hhead
    simpa using hhead

theorem trim_cons_of_blank (h : isBlank c = true) : trim (c :: s) = trim s := by
  unfold trim trimStart
  rw [List.dropWhile_cons_of_pos h]

theorem trim_cons_of_not_blank (h : isBlank c = false) : trim (c :: s) = c :: trimEnd s := by
  have hnot : ¬ isBlank c = true := by simp [h]
  unfold trim trimStart
  rw [List.dropWhile_cons_of_neg hnot, trimEnd_cons fun hall => hnot (hall c List.mem_cons_self)]

theorem isBlank_of_head?_trim (h : c ∈ (trim s).head?) : isBlank c = false := by
  induction s with
  | nil => cases h
  | cons d rest ih =>
    cases hd : isBlank d with
    | true => exact ih (trim_cons_of_blank hd ▸ h)
    | false =>
      rw [trim_cons_of_not_blank hd] at h
      obtain rfl := Option.some.inj h
      exact hd

theorem isBlank_of_getLast?_trim (h : c ∈ (trim s).getLast?) : isBlank c = false := by
  obtain ⟨-, -, -, hlast⟩ := exists_trail (trimStart s)
  exact hlast c h

theorem mem_of_mem_trim (h : c ∈ trim s) : c ∈ s := by
  have hstart : c ∈ (trimStart s).reverse :=
    (List.dropWhile_suffix isBlank).subset (List.mem_reverse.1 h)
  exact (List.dropWhile_suffix isBlank).subset (List.mem_reverse.1 hstart)

theorem trim_eq_self_iff : trim s = s ↔
    (∀ c ∈ s.head?, isBlank c = false) ∧ ∀ c ∈ s.getLast?, isBlank c = false := by
  constructor
  · intro h
    rw [← h]
    exact ⟨fun c => isBlank_of_head?_trim, fun c => isBlank_of_getLast?_trim⟩
  · rintro ⟨hfirst, hlast⟩
    cases s with
    | nil => rfl
    | cons c rest =>
      have hc : isBlank c = false := hfirst c rfl
      have hall : ¬ ∀ x ∈ c :: rest, isBlank x = true := fun hall => by
        have := hall c List.mem_cons_self
        rw [hc] at this
        cases this
      rw [trim_cons_of_not_blank hc, ← trimEnd_cons hall, trimEnd_eq_self hlast]

end

/-! ## The order of texts and of their bytes

Texts are ordered character by character. In UTF-8 this is the order of their bytes: the bytes of
two different characters differ at some place before the end of either, and the greater character
has the greater byte at the first such place (`precedes_of_lt`).
-/

def bytes (s : String) : List UInt8 := s.toUTF8.data.toList

theorem bytes_eq_flatMap (s : String) : bytes s = s.toList.flatMap String.utf8EncodeChar := by
  rw [bytes, String.toUTF8, ← String.utf8Encode_toList, List.utf8Encode, List.data_toByteArray]

/-- At the first place where two lists differ both go on, and the first has the lesser byte. -/
inductive Precedes : List UInt8 → List UInt8 → Prop where
  | head {x y : UInt8} (h : x < y) (u v : List UInt8) : Precedes (x :: u) (y :: v)
  | tail (x : UInt8) {u v : List UInt8} (h : Precedes u v) : Precedes (x :: u) (x :: v)

theorem Precedes.append_lt {u v : List UInt8} (h : Precedes u v) (u' v' : List UInt8) :
    u ++ u' < v ++ v' := by
  induction h with
  | head h u v => exact List.cons_lt_cons_iff.2 (.inl h)
  | tail x _ ih => exact List.cons_lt_cons_iff.2 (.inr ⟨rfl, ih⟩)

theorem Precedes.ofNat {a b : Nat} {u v : List UInt8} (hle : a ≤ b) (hb : b < 256)
    (h : a = b → Precedes u v) : Precedes (UInt8.ofNat a :: u) (UInt8.ofNat b :: v) := by
  rcases Nat.eq_or_lt_of_le hle with rfl | hlt
  · exact .tail _ (h rfl)
  · refine .head (UInt8.lt_iff_toNat_lt.2 ?_) u v
    rwa [UInt8.toNat_ofNat_of_lt' (Nat.lt_trans hlt hb), UInt8.toNat_ofNat_of_lt' hb]

theorem precedes_of_lt {c d : Char} (h : c < d) :
    Precedes (String.utf8EncodeChar c) (String.utf8EncodeChar d) := by
  have hlt : c.val.toNat < d.val.toNat := h
  have hmost : d.val.toNat < 0x110000 := by
    rcases d.valid with hd | ⟨-, hd⟩ <;> omega
  simp only [String.utf8EncodeChar]
  generalize c.val.toNat = v at hlt ⊢
  generalize d.val.toNat = w at hlt hmost ⊢
  split_ifs <;> try omega
  all_goals
    repeat refine .ofNat (by omega) (by omega) fun _ => ?_
    omega

theorem flatMap_lt_flatMap {cs ds : List Char} (h : cs < ds) :
    cs.flatMap String.utf8EncodeChar < ds.flatMap String.utf8EncodeChar := by
  induction cs generalizing ds with
  | nil =>
    cases ds with
    | nil => exact absurd h (List.lt_irrefl _)
    | cons d ds =>
      have hne : String.utf8EncodeChar d ≠ [] := String.utf8EncodeChar_ne_nil
      obtain ⟨first, rest, hbytes⟩ := List.exists_cons_of_ne_nil hne
      rw [List.flatMap_nil, List.flatMap_cons, hbytes]
      exact List.nil_lt_cons _ _
  | cons c cs ih =>
    cases ds with
    | nil => exact absurd h (List.not_lt_nil _)
    | cons d ds =>
      rw [List.flatMap_cons, List.flatMap_cons]
      rcases List.cons_lt_cons_iff.1 h with hlt | ⟨rfl, hlt⟩
      · exact (precedes_of_lt hlt).append_lt _ _
      · exact List.append_left_lt (ih hlt)

theorem bytes_lt_bytes {s t : String} (h : s < t) : bytes s < bytes t := by
  rw [bytes_eq_flatMap, bytes_eq_flatMap]
  exact flatMap_lt_flatMap h

/-- **Texts are ordered as their bytes are.** -/
theorem bytes_lt_iff {s t : String} : bytes s < bytes t ↔ s < t := by
  refine ⟨fun h => ?_, bytes_lt_bytes⟩
  refine Decidable.not_not.1 fun hnot => ?_
  rcases Decidable.em (s = t) with rfl | hne
  · exact List.lt_irrefl _ h
  · exact List.lt_asymm h (bytes_lt_bytes (Std.lt_of_le_of_ne (String.not_lt.1 hnot) (Ne.symm hne)))

/-! ## Octets

The octets of a text are its bytes in UTF-8, each as the character with its number. The bytes of an
ASCII character are that character and the bytes of any other one are not ASCII, so an ASCII
character among the octets is one of the text (`exists_of_getElem?_octets`), and the text can be cut
in front of it and behind it (`isBoundary_of_getElem?_octets`).
-/

section

variable {s rest lead : List Char} {c d : Char} {text : String} {pos first last : Nat}

/-! ### Octets -/

def octetsOf (c : Char) : List Char := (String.utf8EncodeChar c).map Char.ofUInt8

def octets (s : List Char) : List Char := s.flatMap octetsOf

theorem octets_cons (c : Char) (s : List Char) : octets (c :: s) = octetsOf c ++ octets s :=
  List.flatMap_cons

theorem octets_append (s t : List Char) : octets (s ++ t) = octets s ++ octets t :=
  List.flatMap_append

theorem octets_toList (text : String) : octets text.toList = (bytes text).map Char.ofUInt8 := by
  rw [bytes_eq_flatMap, List.map_flatMap]
  rfl

theorem length_octets (text : String) : (octets text.toList).length = (bytes text).length := by
  rw [octets_toList, List.length_map]

theorem length_bytes (text : String) : (bytes text).length = text.utf8ByteSize := by
  rw [bytes, Array.length_toList]
  rfl

example : octets ['a', 'é'] = ['a', 'Ã', '©'] := by decide

/-! ### ASCII characters -/

def IsAscii (c : Char) : Prop := c.toNat < 128

instance (c : Char) : Decidable (IsAscii c) := inferInstanceAs (Decidable (_ < _))

theorem octetsOf_of_isAscii (h : IsAscii c) : octetsOf c = [c] := by
  have hle : c.val.toNat ≤ 127 := Nat.le_of_lt_succ h
  have hencode : String.utf8EncodeChar c = [UInt8.ofNat c.val.toNat] := by
    simp only [String.utf8EncodeChar]
    exact if_pos hle
  rw [octetsOf, hencode]
  refine congrArg (fun d => [d]) (Char.toNat_inj.1 ?_)
  show (UInt8.ofNat c.val.toNat).toUInt32.toNat = c.val.toNat
  rw [UInt8.toNat_toUInt32]
  exact UInt8.toNat_ofNat_of_lt' (Nat.lt_of_le_of_lt hle (by decide))

/-- The bytes of a character that is not ASCII are beyond ASCII. -/
theorem le_of_mem_utf8EncodeChar (h : ¬ IsAscii c) :
    ∀ b ∈ String.utf8EncodeChar c, 128 ≤ b.toNat := by
  have hlt : ¬ c.val.toNat ≤ 127 := fun hle => h (Nat.lt_succ_of_le hle)
  simp only [String.utf8EncodeChar, if_neg hlt]
  generalize c.val.toNat = v
  split_ifs <;>
    simp only [List.mem_cons, List.not_mem_nil, or_false, forall_eq_or_imp, forall_eq,
      UInt8.toNat_ofNat']
  all_goals omega

theorem not_isAscii_of_mem_octetsOf (h : ¬ IsAscii c) (hmem : d ∈ octetsOf c) : ¬ IsAscii d := by
  obtain ⟨b, hb, rfl⟩ := List.mem_map.1 hmem
  have hnumber : (Char.ofUInt8 b).toNat = b.toNat := UInt8.toNat_toUInt32 b
  unfold IsAscii
  rw [hnumber, Nat.not_lt]
  exact le_of_mem_utf8EncodeChar h b hb

theorem octets_cons_of_isAscii (h : IsAscii c) (s : List Char) :
    octets (c :: s) = c :: octets s := by
  rw [octets_cons, octetsOf_of_isAscii h]
  rfl

theorem octets_of_isAscii (h : ∀ c ∈ s, IsAscii c) : octets s = s := by
  induction s with
  | nil => rfl
  | cons c s ih =>
    obtain ⟨hc, hs⟩ := List.forall_mem_cons.1 h
    rw [octets_cons_of_isAscii hc, ih hs]

theorem octetsOf_ne_nil (c : Char) : octetsOf c ≠ [] :=
  fun h => String.utf8EncodeChar_ne_nil (List.map_eq_nil_iff.1 h)

theorem exists_of_octets_eq_append (hlead : ∀ c ∈ lead, IsAscii c) (h : octets s = lead ++ rest) :
    ∃ after, s = lead ++ after ∧ octets after = rest := by
  induction lead generalizing s with
  | nil => exact ⟨s, rfl, h⟩
  | cons c lead ih =>
    have hc : IsAscii c := hlead c List.mem_cons_self
    cases s with
    | nil => cases h
    | cons d s =>
      by_cases hd : IsAscii d
      · rw [octets_cons_of_isAscii hd] at h
        obtain ⟨rfl, htail⟩ := List.cons.inj h
        obtain ⟨after, rfl, hafter⟩ := ih (fun c hmem => hlead c (.tail _ hmem)) htail
        exact ⟨after, rfl, hafter⟩
      · obtain ⟨first, more, hocts⟩ := List.exists_cons_of_ne_nil (octetsOf_ne_nil d)
        rw [octets_cons, hocts] at h
        obtain ⟨rfl, -⟩ := List.cons.inj h
        exact absurd hc (not_isAscii_of_mem_octetsOf hd (hocts ▸ List.mem_cons_self))

/-- An ASCII character among the octets is one of the text. -/
theorem exists_of_getElem?_octets (hc : IsAscii c) (h : (octets s)[pos]? = some c) :
    ∃ before after, s = before ++ c :: after ∧ pos = (octets before).length := by
  induction s generalizing pos with
  | nil => cases h
  | cons d s ih =>
    rw [octets_cons] at h
    rcases Nat.lt_or_ge pos (octetsOf d).length with hlt | hle
    · rw [List.getElem?_append_left hlt] at h
      have hd : IsAscii d := Decidable.byContradiction fun hd =>
        not_isAscii_of_mem_octetsOf hd (List.mem_of_getElem? h) hc
      rw [octetsOf_of_isAscii hd] at h hlt
      obtain rfl : pos = 0 := by simpa using hlt
      obtain rfl := Option.some.inj h
      exact ⟨[], s, rfl, rfl⟩
    · rw [List.getElem?_append_right hle] at h
      obtain ⟨before, after, rfl, hpos⟩ := ih h
      refine ⟨d :: before, after, rfl, ?_⟩
      rw [octets_cons, List.length_append]
      omega

/-! ### Cutting -/

/-- A character of the text begins at this byte, or the text ends in front of it. -/
def IsBoundary (text : String) (pos : Nat) : Prop := (⟨pos⟩ : String.Pos.Raw).IsValid text

/-- The bytes from `first` up to but not including `last` are a text of their own. -/
structure IsSlice (text : String) (first last : Nat) : Prop where
  le : first ≤ last
  bound : last ≤ (bytes text).length
  begins : IsBoundary text first
  ends : IsBoundary text last

theorem isBoundary_zero (text : String) : IsBoundary text 0 := String.Pos.Raw.isValid_zero

theorem isBoundary_length (text : String) : IsBoundary text (bytes text).length := by
  rw [length_bytes]
  exact String.Pos.Raw.isValid_rawEndPos

theorem IsBoundary.isSlice (hfirst : IsBoundary text first) (hlast : IsBoundary text last)
    (hle : first ≤ last) : IsSlice text first last where
  le := hle
  bound := length_bytes text ▸ hlast.le_utf8ByteSize
  begins := hfirst
  ends := hlast

theorem isBoundary_of_toList_eq_append {before after : List Char}
    (h : text.toList = before ++ after) : IsBoundary text (octets before).length := by
  refine String.Pos.Raw.isValid_iff_exists_append.2
    ⟨String.ofList before, String.ofList after, ?_, ?_⟩
  · rw [← String.ofList_append, ← h, String.ofList_toList]
  · have hlength := length_octets (String.ofList before)
    rw [String.toList_ofList, length_bytes] at hlength
    rw [hlength]
    rfl

/-- A text can be cut on both sides of an ASCII character. -/
theorem isBoundary_of_getElem?_octets (hc : IsAscii c)
    (h : (octets text.toList)[pos]? = some c) :
    IsBoundary text pos ∧ IsBoundary text (pos + 1) := by
  obtain ⟨before, after, htext, rfl⟩ := exists_of_getElem?_octets hc h
  refine ⟨isBoundary_of_toList_eq_append htext, ?_⟩
  have hbehind : text.toList = (before ++ [c]) ++ after := by rw [htext, List.append_assoc]; rfl
  have hcut := isBoundary_of_toList_eq_append hbehind
  rwa [octets_append, octets_cons_of_isAscii hc, List.length_append] at hcut

end

end Phrasebook.Text
