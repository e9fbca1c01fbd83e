import Phrasebook.Proofs.Text
import Phrasebook.Template

/-!
# The pattern of a placeholder

A placeholder is what the pattern `\{\{\s*([^}]+?)\s*\}\}` matches: two braces, as much white space
as possible, a name as short as possible, as much white space as possible, two braces. White space
may be part of a name, so one placeholder can be read in several ways. `Pattern.ways` lists them in
the order in which they are tried by a matcher that goes back to its last choice when it is stuck;
the first of them is the run that `placeholder?` finds, with the name that `Piece.nameOf` gives it
(`Pattern.head?_ways`).
-/

namespace Phrasebook

open Text

variable {s run name after taken left trail : List Char} {c : Char} {p : Char → Bool}

namespace Text

theorem ne_closer_of_isBlank (h : isBlank c = true) : c ≠ '}' := by
  rintro rfl
  revert h
  decide

end Text

/-! ## Names -/

namespace Piece

theorem nameOf_cons_of_blank (h : isBlank c = true) (hne : run ≠ []) :
    nameOf (c :: run) = nameOf run := by
  unfold nameOf
  rw [trim_cons_of_blank h, List.getLast?_cons]
  cases hlast : run.getLast? with
  | none => exact absurd (List.getLast?_eq_none_iff.1 hlast) hne
  | some last => rfl

theorem nameOf_cons_of_not_blank (h : isBlank c = false) :
    nameOf (c :: run) = c :: trimEnd run := by
  unfold nameOf
  rw [trim_cons_of_not_blank h]

theorem nameOf_singleton (c : Char) : nameOf [c] = [c] := by
  cases hc : isBlank c with
  | true =>
    unfold nameOf
    rw [trim_cons_of_blank hc]
    rfl
  | false => exact nameOf_cons_of_not_blank hc

end Piece

/-! ## Runs -/

theorem takeWhile_append_closer (h : '}' ∉ run) (after : List Char) :
    (run ++ '}' :: after).takeWhile (· ≠ '}') = run := by
  have hrun : ∀ c ∈ run, decide (c ≠ '}') = true := fun c hc =>
    decide_eq_true (ne_of_mem_of_not_mem hc h)
  rw [List.takeWhile_append_of_pos hrun, List.takeWhile_cons_of_neg (by simp), List.append_nil]

theorem dropWhile_append_closer (h : '}' ∉ run) (after : List Char) :
    (run ++ '}' :: after).dropWhile (· ≠ '}') = '}' :: after := by
  have hrun : ∀ c ∈ run, decide (c ≠ '}') = true := fun c hc =>
    decide_eq_true (ne_of_mem_of_not_mem hc h)
  rw [List.dropWhile_append_of_pos hrun, List.dropWhile_cons_of_neg (by simp)]

theorem placeholder?_eq_some_iff : placeholder? s = some (run, after) ↔
    s = '{' :: '{' :: (run ++ '}' :: '}' :: after) ∧ run ≠ [] ∧ '}' ∉ run := by
  constructor
  · intro h
    have heq := eq_of_placeholder? h
    refine ⟨heq, ?_⟩
    rw [heq] at h
    unfold placeholder? at h
    simp only at h
    split at h
    · next tail hd =>
      split at h
      · cases h
      · next hne =>
        obtain ⟨hrun, -⟩ := Prod.mk.inj (Option.some.inj h)
        rw [hrun] at hne
        refine ⟨by simpa using hne, fun hmem => ?_⟩
        rw [← hrun] at hmem
        simpa using List.mem_takeWhile_imp hmem
    · cases h
  · rintro ⟨rfl, hne, hrun⟩
    simp only [placeholder?, takeWhile_append_closer hrun, dropWhile_append_closer hrun]
    simpa using hne

/-! ## The ways to read the pattern -/

namespace Pattern

/-- The ways to take characters of a class from the front of a text, each with what it leaves; the
one that takes most comes first. -/
def most (p : Char → Bool) : List Char → List (List Char × List Char)
  | [] => [([], [])]
  | c :: rest =>
    if p c then (most p rest).map (fun way => (c :: way.1, way.2)) ++ [([], c :: rest)]
    else [([], c :: rest)]

/-- The same ways; the one that takes fewest comes first. -/
def fewest (p : Char → Bool) (s : List Char) : List (List Char × List Char) := (most p s).reverse

/-- What is left when a fixed text is taken. -/
def exactly (text s : List Char) : List (List Char) :=
  if text.isPrefixOf s then [s.drop text.length] else []

/-- White space and the closing braces. -/
def closings (s : List Char) : List (List Char) :=
  (most isBlank s).flatMap fun way => exactly ['}', '}'] way.2

/-- A name, and then the rest of the pattern. -/
def names (s : List Char) : List (List Char × List Char) :=
  ((fewest (· ≠ '}') s).filter fun way => !way.1.isEmpty).flatMap fun way =>
    (closings way.2).map fun after => (way.1, after)

/-- White space, and then the rest of the pattern. -/
def insides (s : List Char) : List (List Char × List Char) :=
  (most isBlank s).flatMap fun way => names way.2

/-- The ways to read the pattern at the start of a text, the preferred one first: the name, and what
follows. -/
def ways (s : List Char) : List (List Char × List Char) :=
  (exactly ['{', '{'] s).flatMap insides

/-! ## What every way reads -/

theorem of_mem_most (h : (taken, left) ∈ most p s) :
    s = taken ++ left ∧ ∀ c ∈ taken, p c = true := by
  induction s generalizing taken with
  | nil =>
    cases List.mem_singleton.1 h
    exact ⟨rfl, nofun⟩
  | cons c rest ih =>
    simp only [most] at h
    split at h
    · next hc =>
      rcases List.mem_append.1 h with h | h
      · obtain ⟨way, hmem, heq⟩ := List.mem_map.1 h
        cases heq
        obtain ⟨rfl, hall⟩ := ih hmem
        exact ⟨rfl, List.forall_mem_cons.2 ⟨hc, hall⟩⟩
      · cases List.mem_singleton.1 h
        exact ⟨rfl, nofun⟩
    · cases List.mem_singleton.1 h
      exact ⟨rfl, nofun⟩

theorem of_mem_exactly {text : List Char} (h : left ∈ exactly text s) : s = text ++ left := by
  unfold exactly at h
  split at h
  · next hprefix =>
    rw [List.mem_singleton.1 h]
    exact List.prefix_iff_eq_append.1 (List.isPrefixOf_iff_prefix.1 hprefix) |>.symm
  · cases h

theorem of_mem_closings (h : after ∈ closings s) :
    ∃ trail, s = trail ++ '}' :: '}' :: after ∧ ∀ c ∈ trail, isBlank c = true := by
  obtain ⟨⟨trail, left⟩, hmem, hleft⟩ := List.mem_flatMap.1 h
  obtain ⟨rfl, htrail⟩ := of_mem_most hmem
  obtain rfl := of_mem_exactly hleft
  exact ⟨trail, rfl, htrail⟩

theorem of_mem_names (h : (name, after) ∈ names s) :
    ∃ trail, s = name ++ trail ++ '}' :: '}' :: after ∧ name ≠ [] ∧ '}' ∉ name ++ trail := by
  obtain ⟨⟨taken, left⟩, hway, hmem⟩ := List.mem_flatMap.1 h
  obtain ⟨hway, hne⟩ := List.mem_filter.1 hway
  obtain ⟨rfl, hall⟩ := of_mem_most (List.mem_reverse.1 hway)
  obtain ⟨_, hafter, heq⟩ := List.mem_map.1 hmem
  cases heq
  obtain ⟨trail, rfl, htrail⟩ := of_mem_closings hafter
  refine ⟨trail, (List.append_assoc _ _ _).symm, by simpa using hne, fun hin => ?_⟩
  rcases List.mem_append.1 hin with hin | hin
  · simpa using hall _ hin
  · exact ne_closer_of_isBlank (htrail _ hin) rfl

theorem of_mem_insides (h : (name, after) ∈ insides s) :
    ∃ run, s = run ++ '}' :: '}' :: after ∧ run ≠ [] ∧ '}' ∉ run := by
  obtain ⟨⟨lead, left⟩, hway, hmem⟩ := List.mem_flatMap.1 h
  obtain ⟨rfl, hlead⟩ := of_mem_most hway
  obtain ⟨trail, rfl, hne, hrun⟩ := of_mem_names hmem
  refine ⟨lead ++ (name ++ trail), by simp, by simp [hne], fun hin => ?_⟩
  rcases List.mem_append.1 hin with hin | hin
  · exact ne_closer_of_isBlank (hlead _ hin) rfl
  · exact hrun hin

/-- Wherever the pattern can be read there is a placeholder. -/
theorem placeholder?_of_mem_ways (h : (name, after) ∈ ways s) :
    ∃ run, placeholder? s = some (run, after) := by
  obtain ⟨left, hleft, hmem⟩ := List.mem_flatMap.1 h
  obtain ⟨run, rfl, hne, hrun⟩ := of_mem_insides hmem
  exact ⟨run, placeholder?_eq_some_iff.2 ⟨of_mem_exactly hleft, hne, hrun⟩⟩

/-! ## The preferred way -/

theorem closings_cons_of_blank (h : isBlank c = true) : closings (c :: s) = closings s := by
  have hexactly : exactly ['}', '}'] (c :: s) = [] := by
    simp [exactly, (ne_closer_of_isBlank h).symm]
  simp only [closings, most, h, ↓reduceIte, List.flatMap_append, List.flatMap_map,
    List.flatMap_singleton, hexactly, List.append_nil]

theorem closings_of_blank (h : ∀ x ∈ trail, isBlank x = true) (after : List Char) :
    closings (trail ++ '}' :: '}' :: after) = [after] := by
  induction trail with
  | nil =>
    have hcloser : isBlank '}' = false := by decide
    simp [closings, most, exactly, hcloser]
  | cons c trail ih =>
    obtain ⟨hc, htrail⟩ := List.forall_mem_cons.1 h
    rw [List.cons_append, closings_cons_of_blank hc, ih htrail]

/-- There is no closing before the end of a run unless white space is all that is left of it. -/
theorem closings_eq_nil (h : ¬ ∀ x ∈ trail, isBlank x = true) (hrun : '}' ∉ trail)
    (after : List Char) : closings (trail ++ '}' :: '}' :: after) = [] := by
  refine List.eq_nil_iff_forall_not_mem.2 fun other hmem => ?_
  obtain ⟨blank, heq, hblank⟩ := of_mem_closings hmem
  have hsame : trail = blank := by
    rw [← takeWhile_append_closer hrun ('}' :: after), heq,
      takeWhile_append_closer fun hc => ne_closer_of_isBlank (hblank _ hc) rfl]
  exact h (hsame ▸ hblank)

theorem fewest_cons_of_pos (h : p c = true) (s : List Char) :
    fewest p (c :: s) = ([], c :: s) :: (fewest p s).map fun way => (c :: way.1, way.2) := by
  simp [fewest, most, h]

theorem fewest_cons_of_neg (h : p c = false) (s : List Char) :
    fewest p (c :: s) = [([], c :: s)] := by
  simp [fewest, most, h]

/-- The first part of a run that has a closing behind it is the run without the white space at its
end, whatever `f` makes of it. -/
theorem findSome?_fewest {α : Type} (hrun : '}' ∉ run) (after : List Char) (f : List Char → α) :
    ((fewest (· ≠ '}') (run ++ '}' :: '}' :: after)).findSome? fun way =>
      (closings way.2).head?.map fun rest => (f way.1, rest)) = some (f (trimEnd run), after) := by
  induction run generalizing f with
  | nil =>
    have hblank : ∀ x ∈ ([] : List Char), isBlank x = true := nofun
    have hclose : closings ('}' :: '}' :: after) = [after] := closings_of_blank hblank after
    rw [List.nil_append, fewest_cons_of_neg (by decide)]
    simp [hclose, trimEnd]
  | cons c run ih =>
    have hc : decide (c ≠ '}') = true := decide_eq_true (List.ne_of_not_mem_cons hrun).symm
    rw [List.cons_append, fewest_cons_of_pos hc, List.findSome?_cons, ← List.cons_append]
    by_cases hblank : ∀ x ∈ c :: run, isBlank x = true
    · rw [closings_of_blank hblank, trimEnd_of_blank hblank]
      rfl
    · rw [closings_eq_nil hblank hrun, trimEnd_cons hblank]
      simp only [List.head?_nil, Option.map_none, List.findSome?_map]
      exact ih (List.not_mem_of_not_mem_cons hrun) fun taken => f (c :: taken)

theorem head?_names (hrun : '}' ∉ c :: run) (after : List Char) :
    (names (c :: (run ++ '}' :: '}' :: after))).head? = some (c :: trimEnd run, after) := by
  have hc : decide (c ≠ '}') = true := decide_eq_true (List.ne_of_not_mem_cons hrun).symm
  have hall : ∀ way ∈ (fewest (· ≠ '}') (run ++ '}' :: '}' :: after)).map
      (fun way => (c :: way.1, way.2)), (!way.1.isEmpty) = true := fun way hmem => by
    obtain ⟨_, -, rfl⟩ := List.mem_map.1 hmem
    rfl
  unfold names
  rw [fewest_cons_of_pos hc, List.filter_cons_of_neg (by simp), List.filter_eq_self.2 hall,
    List.head?_flatMap, List.findSome?_map]
  simp only [Function.comp_def, List.head?_map]
  exact findSome?_fewest (List.not_mem_of_not_mem_cons hrun) after (c :: ·)

theorem insides_cons_of_not_blank (h : isBlank c = false) : insides (c :: s) = names (c :: s) := by
  simp [insides, most, h]

theorem insides_cons_of_blank (h : isBlank c = true) :
    insides (c :: s) = insides s ++ names (c :: s) := by
  simp [insides, most, h, List.flatMap_map]

theorem head?_insides (hne : run ≠ []) (hrun : '}' ∉ run) (after : List Char) :
    (insides (run ++ '}' :: '}' :: after)).head? = some (Piece.nameOf run, after) := by
  induction run with
  | nil => exact absurd rfl hne
  | cons c run ih =>
    have hnames := head?_names hrun after
    rw [List.cons_append]
    cases hc : isBlank c with
    | false => rw [insides_cons_of_not_blank hc, hnames, Piece.nameOf_cons_of_not_blank hc]
    | true =>
      rw [insides_cons_of_blank hc, List.head?_append]
      by_cases hlast : run = []
      · subst hlast
        have hstuck : insides ('}' :: '}' :: after) = [] := by
          rw [insides_cons_of_not_blank (by decide)]
          simp [names, fewest_cons_of_neg]
        rw [List.nil_append, hstuck, Piece.nameOf_singleton]
        exact hnames
      · rw [ih hlast (List.not_mem_of_not_mem_cons hrun), Piece.nameOf_cons_of_blank hc hlast]
        rfl

/-- **The preferred way to read the pattern** is to read the run of the placeholder that stands
there, by its name; where no placeholder stands the pattern can not be read. -/
theorem head?_ways (s : List Char) :
    (ways s).head? = (placeholder? s).map fun hole => (Piece.nameOf hole.1, hole.2) := by
  cases h : placeholder? s with
  | none =>
    rw [Option.map_none, List.head?_eq_none_iff]
    refine List.eq_nil_iff_forall_not_mem.2 fun way hmem => ?_
    obtain ⟨run, hsome⟩ := placeholder?_of_mem_ways hmem
    cases h.symm.trans hsome
  | some hole =>
    obtain ⟨rfl, hne, hrun⟩ := placeholder?_eq_some_iff.1 h
    have hopen : exactly ['{', '{'] ('{' :: '{' :: (hole.1 ++ '}' :: '}' :: hole.2))
        = [hole.1 ++ '}' :: '}' :: hole.2] := rfl
    unfold ways
    rw [hopen, List.flatMap_singleton, head?_insides hne hrun]
    rfl

end Pattern

end Phrasebook
