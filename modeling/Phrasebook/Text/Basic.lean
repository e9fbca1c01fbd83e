/-!
# Texts

White space, cutting a text at a character, and sets and maps of texts. Texts are ordered by code
point, which is also the order of their UTF-8 bytes.
-/

namespace Phrasebook.Text

abbrev Ranges := List (Nat × Nat)

def Ranges.contains (ranges : Ranges) (c : Char) : Bool :=
  ranges.any fun range => range.1 ≤ c.toNat && c.toNat ≤ range.2

/-- The characters with the Unicode property White_Space. -/
def blankRanges : Ranges :=
  [(0x09, 0x0D), (0x20, 0x20), (0x85, 0x85), (0xA0, 0xA0), (0x1680, 0x1680), (0x2000, 0x200A),
   (0x2028, 0x2029), (0x202F, 0x202F), (0x205F, 0x205F), (0x3000, 0x3000)]

def isBlank (c : Char) : Bool := blankRanges.contains c

def trimStart (s : List Char) : List Char := s.dropWhile isBlank

def trimEnd (s : List Char) : List Char := (s.reverse.dropWhile isBlank).reverse

/-- `s` without its outer white space. -/
def trim (s : List Char) : List Char := trimEnd (trimStart s)

def trimmed (s : String) : String := String.ofList (trim s.toList)

/-! ## Cutting -/

/-- The parts of `s` between the occurrences of `sep`; there is always at least one. -/
def splitOn (sep : Char) : List Char → List (List Char)
  | [] => [[]]
  | c :: rest =>
    if c = sep then [] :: splitOn sep rest
    else
      match splitOn sep rest with
      | [] => [[c]]
      | part :: parts => (c :: part) :: parts

/-- The parts put back together with `sep` between them. -/
def joinWith (sep : Char) : List (List Char) → List Char
  | [] => []
  | [part] => part
  | part :: parts => part ++ sep :: joinWith sep parts

theorem splitOn_ne_nil (sep : Char) (s : List Char) : splitOn sep s ≠ [] := by
  cases s with
  | nil => simp [splitOn]
  | cons c rest =>
    by_cases h : c = sep
    · simp [splitOn, h]
    · simp only [splitOn, h, if_false]
      split <;> simp

theorem joinWith_splitOn (sep : Char) (s : List Char) : joinWith sep (splitOn sep s) = s := by
  induction s with
  | nil => rfl
  | cons c rest ih =>
    unfold splitOn
    cases hs : splitOn sep rest with
    | nil => exact absurd hs (splitOn_ne_nil sep rest)
    | cons part parts =>
      rw [hs] at ih
      by_cases h : c = sep
      · rw [if_pos h, h, joinWith, ih]
        · rfl
        · simp
      · rw [if_neg h]
        cases parts with
        | nil => rw [joinWith] at ih; simp only [joinWith, ih]
        | cons p ps => rw [joinWith] at ih; simp only [joinWith, List.cons_append, ih]; simp

/-- What stands before and after the first `sep`, if there is one. -/
def splitFirst? (sep : Char) : List Char → Option (List Char × List Char)
  | [] => none
  | c :: rest =>
    if c = sep then some ([], rest)
    else (splitFirst? sep rest).map fun parts => (c :: parts.1, parts.2)

/-- What stands before the first `sep`; all of `s` if there is none. -/
def before (sep : Char) (s : List Char) : List Char := s.takeWhile (· ≠ sep)

/-- What stands after the first occurrence of `pattern`. -/
def after? (pattern : List Char) : List Char → Option (List Char)
  | [] => if pattern.isEmpty then some [] else none
  | c :: rest =>
    if pattern.isPrefixOf (c :: rest) then some ((c :: rest).drop pattern.length)
    else after? pattern rest

def parts (sep : Char) (s : String) : List String := (splitOn sep s.toList).map String.ofList

/-! ## Sorted sets -/

/-- `s` at its place among the ascending `set`. -/
def insertSorted (s : String) : List String → List String
  | [] => [s]
  | t :: rest =>
    if s < t then s :: t :: rest
    else if s = t then t :: rest
    else t :: insertSorted s rest

/-- The texts of `list`, each once, ascending. -/
def sortedSet (list : List String) : List String := list.foldr insertSorted []

theorem mem_insertSorted {s t : String} {set : List String} :
    s ∈ insertSorted t set ↔ s = t ∨ s ∈ set := by
  induction set with
  | nil => simp [insertSorted]
  | cons u rest ih =>
    simp only [insertSorted]
    split
    · simp
    · split
      · next h => subst h; simp
      · simp only [List.mem_cons, ih]
        constructor <;> rintro (h | h | h) <;> simp [h]

theorem mem_sortedSet {s : String} {list : List String} : s ∈ sortedSet list ↔ s ∈ list := by
  induction list with
  | nil => simp [sortedSet]
  | cons t rest ih =>
    have h : sortedSet (t :: rest) = insertSorted t (sortedSet rest) := rfl
    rw [h, mem_insertSorted, ih, List.mem_cons]

/-! ## Sorted maps -/

variable {α : Type}

/-- `map` with `value` under `key`, in place of the value that may be there. -/
def putSorted (key : String) (value : α) : List (String × α) → List (String × α)
  | [] => [(key, value)]
  | (k, v) :: rest =>
    if key < k then (key, value) :: (k, v) :: rest
    else if key = k then (key, value) :: rest
    else (k, v) :: putSorted key value rest

theorem mem_keys_putSorted {key k : String} {value : α} {map : List (String × α)} :
    k ∈ (putSorted key value map).map (·.1) ↔ k = key ∨ k ∈ map.map (·.1) := by
  induction map with
  | nil => simp [putSorted]
  | cons entry rest ih =>
    obtain ⟨k', v⟩ := entry
    simp only [putSorted]
    split
    · simp
    · split
      · next h => subst h; simp
      · simp only [List.map_cons, List.mem_cons, ih]
        constructor <;> rintro (h | h | h) <;> simp [h]

theorem pairwise_keys_putSorted {key : String} {value : α} {map : List (String × α)}
    (h : (map.map (·.1)).Pairwise (· < ·)) :
    ((putSorted key value map).map (·.1)).Pairwise (· < ·) := by
  induction map with
  | nil => simp [putSorted]
  | cons entry rest ih =>
    obtain ⟨k, v⟩ := entry
    obtain ⟨hk, hrest⟩ := List.pairwise_cons.1 h
    simp only [putSorted]
    split
    · next hlt =>
      refine List.pairwise_cons.2 ⟨fun u hu => ?_, h⟩
      rcases List.mem_cons.1 hu with rfl | hu
      · exact hlt
      · exact String.lt_trans hlt (hk u hu)
    · split
      · next heq => subst heq; exact h
      · next hlt hne =>
        refine List.pairwise_cons.2 ⟨fun u hu => ?_, ih hrest⟩
        rcases mem_keys_putSorted.1 hu with rfl | hu
        · exact Std.lt_of_le_of_ne (String.not_lt.1 hlt) (Ne.symm hne)
        · exact hk u hu

theorem lookup_putSorted_self (key : String) (value : α) (map : List (String × α)) :
    (putSorted key value map).lookup key = some value := by
  induction map with
  | nil => simp [putSorted]
  | cons entry rest ih =>
    obtain ⟨k, v⟩ := entry
    simp only [putSorted]
    split
    · simp
    · split
      · simp
      · next hne =>
        have hk : (key == k) = false := by simp [hne]
        rw [List.lookup_cons, hk, ih]

theorem lookup_putSorted_of_ne {key k : String} (hk : k ≠ key) (value : α)
    (map : List (String × α)) : (putSorted key value map).lookup k = map.lookup k := by
  have hkey : (k == key) = false := by simp [hk]
  induction map with
  | nil => simp [putSorted, List.lookup_cons, hkey]
  | cons entry rest ih =>
    obtain ⟨k', v⟩ := entry
    simp only [putSorted]
    split
    · rw [List.lookup_cons, hkey]
    · split
      · next heq => subst heq; simp [List.lookup_cons, hkey]
      · simp only [List.lookup_cons, ih]

end Phrasebook.Text
