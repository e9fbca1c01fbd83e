import Mathlib.Data.List.Pairwise
import Mathlib.Data.List.TakeWhile
import Phrasebook.Proofs.Markup.Openers

/-!
# The spans of a text nest

The scanner keeps the openers that are still open, innermost first. Each of them begins behind the
one around it and they all end in front of the scanner (`Stacked`), and a closer takes the innermost
one. So of any two spans one lies before the other or inside its content (`pairwise_follows_scan`),
and what was opened inside a span has been closed in it (`exists_of_opened`).
-/

namespace Phrasebook

open Markup

namespace Mark

variable {marks : List Mark} {length : Nat}

/-- An opener stands in `marks` from `start` to `inner`. -/
def OpenerAt (marks : List Mark) (start inner : Nat) : Prop :=
  ∃ n, 0 < n ∧ inner = start + (n + 2) ∧
    opening :: (List.replicate n word ++ [opening]) <+: marks.drop start

/-- A closer stands in `marks` at `pos`. -/
def CloserAt (marks : List Mark) (pos : Nat) : Prop := [closing, closing] <+: marks.drop pos

theorem exists_of_openerLength? (h : openerLength? marks = some length) :
    ∃ n, 0 < n ∧ length = n + 2 ∧ opening :: (List.replicate n word ++ [opening]) <+: marks := by
  unfold openerLength? at h
  split at h
  · next rest =>
    simp only at h
    split at h
    · cases h
    · next hpos =>
      split at h
      · next hbrace =>
        obtain rfl := Option.some.inj h
        refine ⟨_, Nat.pos_of_ne_zero hpos, rfl, ?_⟩
        have hword : rest.takeWhile (· = word) =
            List.replicate (rest.takeWhile (· = word)).length word :=
          List.eq_replicate_iff.2 ⟨rfl, fun mark hmem => by
            simpa using List.mem_takeWhile_imp hmem⟩
        have htake : rest.takeWhile (· = word) =
            rest.take (rest.takeWhile (· = word)).length :=
          List.prefix_iff_eq_take.1 (List.takeWhile_prefix _)
        obtain ⟨tail, htail⟩ := List.head?_eq_some_iff.1 hbrace
        refine ⟨tail, ?_⟩
        conv => rhs; rw [← List.take_append_drop (rest.takeWhile (· = word)).length rest]
        rw [htail, ← htake, ← hword]
        simp
      · cases h
  · cases h

end Mark

namespace Span

open Mark

variable {marks whole : List Mark} {opened outer : List (Nat × Nat)} {span : Span}
  {pos depth start inner : Nat}

/-! ## The openers that are open -/

/-- The openers that are open at `pos`, innermost first. -/
inductive Stacked : (opened : List (Nat × Nat)) → (pos : Nat) → Prop where
  | nil {pos : Nat} : Stacked [] pos
  | cons {start inner pos : Nat} {outer : List (Nat × Nat)} : start < inner → inner ≤ pos →
      Stacked outer start → Stacked ((start, inner) :: outer) pos

theorem Stacked.mono (h : Stacked opened pos) {next : Nat} (hle : pos ≤ next) :
    Stacked opened next := by
  cases h with
  | nil => exact .nil
  | cons hlt hinner houter => exact .cons hlt (Nat.le_trans hinner hle) houter

theorem Stacked.bounds (h : Stacked opened pos) (hmem : (start, inner) ∈ opened) :
    start < inner ∧ inner ≤ pos := by
  induction h with
  | nil => cases hmem
  | cons hlt hinner _ ih =>
    rcases List.mem_cons.1 hmem with heq | hmem
    · obtain ⟨rfl, rfl⟩ := Prod.mk.inj heq
      exact ⟨hlt, hinner⟩
    · have := ih hmem
      omega

/-! ## What the scanner finds -/

/-- The opener of a span that is found from `pos` on was open there or comes later. -/
theorem open_or_le_of_mem_scan (h : span ∈ scan marks pos opened) :
    (span.start, span.inner) ∈ opened ∨ pos ≤ span.start := by
  fun_induction scan marks pos opened with
  | case1 => cases h
  | case2 pos opened mark rest length _ _ ih =>
    rcases ih h with hopen | hle
    · rcases List.mem_cons.1 hopen with heq | hopen
      · exact .inr (Nat.le_of_eq (Prod.mk.inj heq).1.symm)
      · exact .inl hopen
    · exact .inr (by omega)
  | case3 pos mark rest _ _ start inner outer ih =>
    rcases List.mem_cons.1 h with rfl | h
    · exact .inl List.mem_cons_self
    · rcases ih h with hopen | hle
      · exact .inl (List.mem_cons_of_mem _ hopen)
      · exact .inr (by omega)
  | case4 pos mark rest _ _ ih => exact (ih h).imp id fun hle => by omega
  | case5 pos opened mark rest _ _ ih => exact (ih h).imp id fun hle => by omega

/-- A span that is found from `pos` on ends there or later. -/
theorem bounds_of_mem_scan (hopened : Stacked opened pos) (h : span ∈ scan marks pos opened) :
    pos ≤ span.close ∧ span.start < span.inner ∧ span.inner ≤ span.close := by
  fun_induction scan marks pos opened with
  | case1 => cases h
  | case2 pos opened mark rest length _ hlt ih =>
    have hnext := ih (.cons (by omega) (Nat.le_refl _) hopened) h
    omega
  | case3 pos mark rest _ _ start inner outer ih =>
    cases hopened with
    | cons hlt hinner houter =>
      rcases List.mem_cons.1 h with rfl | h
      · exact ⟨Nat.le_refl _, hlt, hinner⟩
      · have hnext := ih (houter.mono (by omega)) h
        omega
  | case4 pos mark rest _ _ ih =>
    have hnext := ih .nil h
    omega
  | case5 pos opened mark rest _ _ ih =>
    have hnext := ih (hopened.mono (Nat.le_succ _)) h
    omega

def Before (a b : Span) : Prop := a.close + 2 ≤ b.start

/-- A span lies in the content of another one. -/
def Inside (a b : Span) : Prop := b.inner ≤ a.start ∧ a.close + 2 ≤ b.close

/-- Two spans are apart, or one of them is inside the other. -/
def Nested (a b : Span) : Prop := a.Before b ∨ b.Before a ∨ a.Inside b ∨ b.Inside a

/-- Spans are found in the order in which they close: each one lies before all later ones or inside
them. -/
theorem pairwise_scan (hopened : Stacked opened pos) :
    (scan marks pos opened).Pairwise fun a b => a.Before b ∨ a.Inside b := by
  fun_induction scan marks pos opened with
  | case1 => exact .nil
  | case2 pos opened mark rest length hlength hlt ih =>
    exact ih (.cons (by omega) (Nat.le_refl _) hopened)
  | case3 pos mark rest _ _ start inner outer ih =>
    cases hopened with
    | cons hlt hinner houter =>
      have hnext : Stacked outer (pos + 2) := houter.mono (by omega)
      refine List.pairwise_cons.2 ⟨fun later hlater => ?_, ih hnext⟩
      have hclose : pos + 2 ≤ later.close := (bounds_of_mem_scan hnext hlater).1
      rcases open_or_le_of_mem_scan hlater with hopen | hstart
      · exact .inr ⟨(houter.bounds hopen).2, hclose⟩
      · exact .inl hstart
  | case4 pos mark rest _ _ ih => exact ih .nil
  | case5 pos opened mark rest _ _ ih => exact ih (hopened.mono (Nat.le_succ _))

/-- A span stands in the marks that are scanned as its opener, its content and its closer. -/
theorem stands_of_mem_scan (hmarks : whole.drop pos = marks)
    (hopened : ∀ opener ∈ opened, OpenerAt whole opener.1 opener.2)
    (h : span ∈ scan marks pos opened) :
    OpenerAt whole span.start span.inner ∧ CloserAt whole span.close := by
  fun_induction scan marks pos opened with
  | case1 => cases h
  | case2 pos opened mark rest length hlength _ ih =>
    refine ih (by rw [← hmarks, List.drop_drop]) (List.forall_mem_cons.2 ⟨?_, hopened⟩) h
    obtain ⟨n, hn, rfl, hopener⟩ := exists_of_openerLength? hlength
    exact ⟨n, hn, rfl, hmarks ▸ hopener⟩
  | case3 pos mark rest _ hclose start inner outer ih =>
    have hrest : whole.drop (pos + 2) = rest.drop 1 := by
      rw [← List.drop_drop, hmarks]; rfl
    obtain ⟨hopener, houter⟩ := List.forall_mem_cons.1 hopened
    rcases List.mem_cons.1 h with rfl | h
    · obtain ⟨rfl, hhead⟩ := hclose
      obtain ⟨tail, rfl⟩ := List.head?_eq_some_iff.1 hhead
      exact ⟨hopener, tail, hmarks.symm⟩
    · exact ih hrest houter h
  | case4 pos mark rest _ _ ih =>
    exact ih (by rw [← List.drop_drop, hmarks]; rfl) hopened h
  | case5 pos opened mark rest _ _ ih =>
    exact ih (by rw [← List.drop_drop, hmarks]; rfl) hopened h

theorem stands_of_mem_all (h : span ∈ all marks) :
    OpenerAt marks span.start span.inner ∧ CloserAt marks span.close := by
  have hnone : ∀ opener ∈ ([] : List (Nat × Nat)), OpenerAt marks opener.1 opener.2 := nofun
  exact stands_of_mem_scan List.drop_zero hnone h

/-! ## What the scanner reads -/

theorem le_of_opener_mem_readings (h : .opener start inner ∈ readings marks pos depth) :
    pos ≤ start := by
  fun_induction readings marks pos depth with
  | case1 => cases h
  | case2 pos depth mark rest length _ _ ih =>
    rcases List.mem_cons.1 h with heq | h
    · cases heq; exact Nat.le_refl _
    · have := ih h
      omega
  | case3 pos mark rest _ _ depth ih =>
    rcases List.mem_cons.1 h with heq | h
    · cases heq
    · have := ih h
      omega
  | case4 pos mark rest _ _ ih => have := ih h; omega
  | case5 pos depth mark rest _ _ ih => have := ih h; omega

/-- What was opened in a span that is closed has been closed in it. -/
theorem exists_of_opened (hopened : Stacked opened pos) (hspan : span ∈ scan marks pos opened)
    (hopener : (start, inner) ∈ opened ∨ .opener start inner ∈ readings marks pos opened.length)
    (hstart : span.start ≤ start) (hclose : start < span.close) :
    ∃ close, ⟨start, inner, close⟩ ∈ scan marks pos opened := by
  fun_induction scan marks pos opened with
  | case1 => cases hspan
  | case2 pos opened mark rest length hlength hlt ih =>
    refine ih (.cons (by omega) (Nat.le_refl _) hopened) hspan ?_
    rw [readings_opener hlength] at hopener
    rcases hopener with hopen | hread
    · exact .inl (List.mem_cons_of_mem _ hopen)
    · rcases List.mem_cons.1 hread with heq | hread
      · cases heq; exact .inl List.mem_cons_self
      · exact .inr hread
  | case3 pos mark rest hnone hcloser first begin outer ih =>
    cases hopened with
    | cons hlt hbegin houter =>
      rw [List.length_cons, readings_closer hnone hcloser, List.mem_cons, List.mem_cons,
        or_assoc] at hopener
      rcases hopener with heq | hopener
      · cases heq; exact ⟨pos, List.mem_cons_self⟩
      · have hnot : Reading.opener start inner ≠ .closer pos := by rintro ⟨⟩
        have hopener : (start, inner) ∈ outer ∨
            .opener start inner ∈ readings (rest.drop 1) (pos + 2) outer.length :=
          hopener.imp id fun hread => hread.resolve_left hnot
        have hne : span ≠ ⟨first, begin, pos⟩ := by
          rintro rfl
          have hfirst : first ≤ start := hstart
          have hpos : start < pos := hclose
          rcases hopener with hopen | hread
          · have := houter.bounds hopen
            omega
          · have := le_of_opener_mem_readings hread
            omega
        obtain ⟨close, hmem⟩ := ih (houter.mono (by omega))
          ((List.mem_cons.1 hspan).resolve_left hne) hopener
        exact ⟨close, List.mem_cons_of_mem _ hmem⟩
  | case4 pos mark rest hnone _ ih =>
    rw [List.length_nil, readings_skip hnone fun _ => rfl] at hopener
    exact ih .nil hspan hopener
  | case5 pos opened mark rest hnone hcloser ih =>
    rw [readings_skip hnone fun h => absurd h hcloser] at hopener
    exact ih (hopened.mono (Nat.le_succ _)) hspan hopener

/-- Every closer that is read closes a span, and no span is closed by anything else. -/
theorem closer_mem_readings_iff (marks : List Mark) (pos : Nat) (opened : List (Nat × Nat))
    (close : Nat) : .closer close ∈ readings marks pos opened.length ↔
      ∃ span ∈ scan marks pos opened, span.close = close := by
  fun_induction scan marks pos opened with
  | case1 pos opened => unfold readings; simp
  | case2 pos opened mark rest length hlength _ ih =>
    have hnot : Reading.closer close ≠ .opener pos (pos + length) := by rintro ⟨⟩
    rw [readings_opener hlength, List.mem_cons, or_iff_right hnot]
    exact ih
  | case3 pos mark rest hnone hcloser start inner outer ih =>
    rw [List.length_cons, readings_closer hnone hcloser, List.mem_cons, ih, Reading.closer.injEq,
      eq_comm]
    simp only [List.mem_cons, exists_eq_or_imp]
  | case4 pos mark rest hnone _ ih =>
    rw [List.length_nil, readings_skip hnone fun _ => rfl]
    exact ih
  | case5 pos opened mark rest hnone hcloser ih =>
    rw [readings_skip hnone fun h => absurd h hcloser]
    exact ih

/-! ## The table -/

theorem pairwise_start_all (marks : List Mark) : (all marks).Pairwise (·.start ≠ ·.start) := by
  refine (pairwise_scan .nil).imp_of_mem fun {a b} ha hb h => ?_
  have := bounds_of_mem_scan .nil ha
  have := bounds_of_mem_scan .nil hb
  unfold Before Inside at h
  omega

theorem start_lt_of_mem_all (h : span ∈ all marks) : span.start < marks.length := by
  obtain ⟨⟨n, -, -, hopener⟩, -⟩ := stands_of_mem_all h
  have := hopener.length_le
  rw [List.length_drop, List.length_cons] at this
  omega

theorem getElem?_table_eq_some_iff {i : Nat} :
    (table marks)[i]? = some (some span) ↔ span ∈ all marks ∧ span.start = i := by
  have hmem {span : Span} (h : span ∈ all marks) :
      (table marks)[span.start]? = some (some span) :=
    getElem?_fill_of_mem (pairwise_start_all marks) h
      (by rw [Array.size_replicate]; exact start_lt_of_mem_all h)
  constructor
  · intro h
    by_cases hfound : ∃ other ∈ all marks, other.start = i
    · obtain ⟨other, hother, rfl⟩ := hfound
      rw [hmem hother, Option.some_inj, Option.some_inj] at h
      exact h ▸ ⟨hother, rfl⟩
    · have hnone : (table marks)[i]? = (Array.replicate marks.length none)[i]? :=
        getElem?_fill_of_forall_ne fun other hother heq => hfound ⟨other, hother, heq⟩
      rw [hnone, Array.getElem?_replicate] at h
      split at h <;> cases h
  · rintro ⟨h, rfl⟩
    exact hmem h

theorem size_table (marks : List Mark) : (table marks).size = marks.length := by
  have hfill (found : List Span) (table : Array (Option Span)) :
      (found.foldl (fun table span => table.setIfInBounds span.start (some span)) table).size =
        table.size := by
    induction found generalizing table with
    | nil => rfl
    | cons first rest ih => rw [List.foldl_cons, ih, Array.size_setIfInBounds]
  exact (hfill _ _).trans Array.size_replicate

theorem Nested.symm {a b : Span} (h : a.Nested b) : b.Nested a := by
  rcases h with h | h | h | h
  · exact .inr (.inl h)
  · exact .inl h
  · exact .inr (.inr (.inr h))
  · exact .inr (.inr (.inl h))

theorem nested_of_mem_all {a b : Span} (ha : a ∈ all marks) (hb : b ∈ all marks) (hne : a ≠ b) :
    a.Nested b := by
  have hsymm : Std.Symm Nested := ⟨fun _ _ => Nested.symm⟩
  have hpairs : (all marks).Pairwise Nested := (pairwise_scan .nil).imp fun h =>
    h.elim .inl fun hinside => .inr (.inr (.inl hinside))
  exact hpairs.forall ha hb hne

/-- Spans that nest have each their own opener and closer. -/
theorem Nested.unshared {a b : Span} (h : a.Nested b) (ha : a.start < a.inner ∧ a.inner ≤ a.close)
    (hb : b.start < b.inner ∧ b.inner ≤ b.close) : a.inner ≠ b.inner ∧ a.close ≠ b.close := by
  unfold Nested Before Inside at h
  omega

end Span

/-! ## Bytes -/

section Bytes

variable {bytes : List UInt8} {b : UInt8} {start inner pos : Nat}

/-- The class of a byte is that of the character with its number. -/
def Mark.ofByte (b : UInt8) : Mark := ofChar (Char.ofUInt8 b)

/-- A byte of the word of an opener: an ASCII letter, a digit or the underscore. -/
def isWordByte (b : UInt8) : Bool := isWordChar (Char.ofUInt8 b)

theorem ofUInt8_inj {b d : UInt8} : Char.ofUInt8 b = Char.ofUInt8 d ↔ b = d := by
  refine ⟨fun h => ?_, congrArg _⟩
  have hval : b.toUInt32 = d.toUInt32 := congrArg Char.val h
  have hnat := congrArg UInt32.toNat hval
  rw [UInt8.toNat_toUInt32, UInt8.toNat_toUInt32] at hnat
  exact UInt8.toNat_inj.1 hnat

namespace Mark

theorem ofByte_eq_opening : ofByte b = opening ↔ b = '{'.toUInt8 := by
  have hbrace : '{' = Char.ofUInt8 '{'.toUInt8 := rfl
  rw [ofByte, ofChar_eq_opening, hbrace, ofUInt8_inj]
  rfl

theorem ofByte_eq_closing : ofByte b = closing ↔ b = '}'.toUInt8 := by
  have hbrace : '}' = Char.ofUInt8 '}'.toUInt8 := rfl
  rw [ofByte, ofChar_eq_closing, hbrace, ofUInt8_inj]
  rfl

theorem ofByte_eq_word : ofByte b = word ↔ isWordByte b = true := ofChar_eq_word

theorem exists_of_openerAt (h : OpenerAt (bytes.map ofByte) start inner) :
    ∃ word : List UInt8, word ≠ [] ∧ (∀ b ∈ word, isWordByte b = true) ∧
      inner = start + (word.length + 2) ∧
      '{'.toUInt8 :: (word ++ ['{'.toUInt8]) <+: bytes.drop start := by
  obtain ⟨n, hn, hinner, hopener⟩ := h
  rw [← List.map_drop, List.prefix_map_iff] at hopener
  obtain ⟨part, hpart, heq⟩ := hopener
  obtain ⟨first, rest, rfl, hfirst, hrest⟩ := List.map_eq_cons_iff.1 heq.symm
  obtain ⟨word, last, rfl, hword, hlast⟩ := List.map_eq_append_iff.1 hrest
  obtain ⟨brace, rfl, hbrace⟩ := List.map_eq_singleton_iff.1 hlast
  rw [ofByte_eq_opening.1 hfirst, ofByte_eq_opening.1 hbrace] at hpart
  have hlength : word.length = n := by
    simpa using congrArg List.length hword
  refine ⟨word, List.ne_nil_of_length_pos (hlength ▸ hn), fun b hb => ?_, hlength ▸ hinner, hpart⟩
  exact ofByte_eq_word.1 (List.eq_of_mem_replicate (hword ▸ List.mem_map_of_mem hb))

theorem closer_of_closerAt (h : CloserAt (bytes.map ofByte) pos) :
    ['}'.toUInt8, '}'.toUInt8] <+: bytes.drop pos := by
  unfold CloserAt at h
  rw [← List.map_drop, List.prefix_map_iff] at h
  obtain ⟨part, hpart, heq⟩ := h
  obtain ⟨first, rest, rfl, hfirst, hrest⟩ := List.map_eq_cons_iff.1 heq.symm
  obtain ⟨second, rfl, hsecond⟩ := List.map_eq_singleton_iff.1 hrest
  rwa [ofByte_eq_closing.1 hfirst, ofByte_eq_closing.1 hsecond] at hpart

end Mark

/-- What a table says of the spans of a byte string: each is where its opener starts, its opener and
its closer are there and are its own, any two are apart or one is inside the other, and every
closer that is read closes one. -/
structure Nests (bytes : List UInt8) (table : Array (Option Span)) : Prop where
  size : table.size = bytes.length
  opener : ∀ (i : Nat) (span : Span), table[i]? = some (some span) → span.start = i ∧
    ∃ word : List UInt8, word ≠ [] ∧ (∀ b ∈ word, isWordByte b = true) ∧
      span.inner = i + (word.length + 2) ∧
      '{'.toUInt8 :: (word ++ ['{'.toUInt8]) <+: bytes.drop i
  closer : ∀ (i : Nat) (span : Span), table[i]? = some (some span) →
    span.inner ≤ span.close ∧ ['}'.toUInt8, '}'.toUInt8] <+: bytes.drop span.close
  unshared : ∀ (i j : Nat) (a b : Span), table[i]? = some (some a) → table[j]? = some (some b) →
    i ≠ j → a.inner ≠ b.inner ∧ a.close ≠ b.close
  nested : ∀ (i j : Nat) (a b : Span), table[i]? = some (some a) → table[j]? = some (some b) →
    i ≠ j → a.Nested b
  inside : ∀ (i start inner : Nat) (span : Span), table[i]? = some (some span) →
    .opener start inner ∈ Span.readings (bytes.map Mark.ofByte) 0 0 →
    span.inner ≤ start → start < span.close →
      ∃ close, table[start]? = some (some ⟨start, inner, close⟩)
  closes : ∀ close, .closer close ∈ Span.readings (bytes.map Mark.ofByte) 0 0 ↔
    ∃ (i : Nat) (span : Span), table[i]? = some (some span) ∧ span.close = close

/-- **The spans of a byte string nest.** -/
theorem nests_table (bytes : List UInt8) :
    Nests bytes (Span.table (bytes.map Mark.ofByte)) where
  size := by rw [Span.size_table, List.length_map]
  opener i span h := by
    obtain ⟨hmem, rfl⟩ := Span.getElem?_table_eq_some_iff.1 h
    exact ⟨rfl, Mark.exists_of_openerAt (Span.stands_of_mem_all hmem).1⟩
  closer i span h := by
    obtain ⟨hmem, -⟩ := Span.getElem?_table_eq_some_iff.1 h
    exact ⟨(Span.bounds_of_mem_scan .nil hmem).2.2,
      Mark.closer_of_closerAt (Span.stands_of_mem_all hmem).2⟩
  unshared i j a b ha hb hne := by
    obtain ⟨hamem, rfl⟩ := Span.getElem?_table_eq_some_iff.1 ha
    obtain ⟨hbmem, rfl⟩ := Span.getElem?_table_eq_some_iff.1 hb
    have hnested := Span.nested_of_mem_all hamem hbmem fun heq => hne (congrArg Span.start heq)
    exact hnested.unshared (Span.bounds_of_mem_scan .nil hamem).2
      (Span.bounds_of_mem_scan .nil hbmem).2
  nested i j a b ha hb hne := by
    obtain ⟨hamem, rfl⟩ := Span.getElem?_table_eq_some_iff.1 ha
    obtain ⟨hbmem, rfl⟩ := Span.getElem?_table_eq_some_iff.1 hb
    exact Span.nested_of_mem_all hamem hbmem fun heq => hne (congrArg Span.start heq)
  inside i start inner span h hread hinner hclose := by
    obtain ⟨hmem, -⟩ := Span.getElem?_table_eq_some_iff.1 h
    have hlt := (Span.bounds_of_mem_scan .nil hmem).2.1
    obtain ⟨close, hopened⟩ := Span.exists_of_opened .nil hmem (.inr hread) (by omega) hclose
    exact ⟨close, Span.getElem?_table_eq_some_iff.2 ⟨hopened, rfl⟩⟩
  closes close := by
    refine (Span.closer_mem_readings_iff _ 0 [] close).trans ?_
    constructor
    · rintro ⟨span, hmem, hclose⟩
      exact ⟨_, span, Span.getElem?_table_eq_some_iff.2 ⟨hmem, rfl⟩, hclose⟩
    · rintro ⟨i, span, h, hclose⟩
      exact ⟨span, (Span.getElem?_table_eq_some_iff.1 h).1, hclose⟩

end Bytes

end Phrasebook
