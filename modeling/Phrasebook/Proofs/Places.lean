import Phrasebook.Json.Basic
import Phrasebook.Schema

/-!
# Places, their paths and their pointers

A place is the list of the keys that lead to it.
-/

namespace Phrasebook

/-! ## Paths

The path of a place has dots between its keys (`below`), so keys without dots are read back from it
(`keys_intercalate`). Among places whose keys are names, messages that show the same path speak of
the same place (`eq_of_shown`).
-/

namespace Text

theorem splitOn_eq (sep : Char) (s : List Char) : splitOn sep s = s.splitOn sep := by
  induction s with
  | nil => rfl
  | cons c rest ih =>
    rw [splitOn, ih]
    unfold List.splitOn
    rw [List.splitOnP_cons_eq_if_modifyHead]
    by_cases h : c = sep
    · simp [h]
    · obtain ⟨part, parts, hparts⟩ := List.exists_cons_of_ne_nil
        (List.splitOnP_ne_nil (· == sep) rest)
      simp [h, hparts]

end Text

namespace KeyPath

variable {place other : List String}

theorem keys_ne_nil (path : String) : keys path ≠ [] := by
  simp [keys, Text.parts, Text.splitOn_ne_nil]

theorem keys_intercalate (hne : place ≠ []) (hdots : ∀ key ∈ place, '.' ∉ key.toList) :
    keys (".".intercalate place) = place := by
  have hdot : ".".toList = ['.'] := rfl
  have hparts : (['.'].intercalate (place.map String.toList)).splitOn '.' =
      place.map String.toList :=
    List.splitOn_intercalate '.' (by simpa using hdots) (by simpa using hne)
  unfold keys Text.parts
  rw [String.toList_intercalate, Text.splitOn_eq, hdot, hparts]
  simp

theorem intercalate_keys (path : String) : ".".intercalate (keys path) = path := by
  rw [← String.toList_inj, String.toList_intercalate, keys, Text.parts, Text.splitOn_eq]
  simp [List.intercalate_splitOn]

/-- The path of the place that the keys of `place` lead to from the one at `path`. -/
def below (path : String) (place : List String) : String := place.foldl join path

theorem below_cons (path key : String) (rest : List String) :
    below path (key :: rest) = below (join path key) rest := rfl

theorem below_of_ne_empty {path : String} (hpath : path ≠ "") (place : List String) :
    below path place = ".".intercalate (path :: place) := by
  induction place generalizing path with
  | nil => simp [below]
  | cons key rest ih =>
    have hjoin : join path key = path ++ "." ++ key := by simp [join, hpath]
    rw [below_cons, hjoin, ih (by simp [hpath])]
    simp [String.append_assoc]

theorem below_root_cons {key : String} (hkey : key ≠ "") (rest : List String) :
    below "" (key :: rest) = ".".intercalate (key :: rest) := by
  have hjoin : join "" key = key := rfl
  rw [below_cons, hjoin, below_of_ne_empty hkey]

/-- From the root, the path of a place whose keys are not empty is their join. -/
theorem below_root (hkeys : ∀ key ∈ place, key ≠ "") : below "" place = ".".intercalate place := by
  cases place with
  | nil => simp [below]
  | cons key rest => exact below_root_cons (hkeys key List.mem_cons_self) rest

/-- A key that a path shows as itself: not empty, without a dot, and not what stands for the
root. -/
def isName (key : String) : Bool := !key.isEmpty && !key.toList.contains '.' && key != "<root>"

theorem isName_iff : isName key = true ↔ key ≠ "" ∧ '.' ∉ key.toList ∧ key ≠ "<root>" := by
  simp [isName, and_assoc]

theorem intercalate_ne_root (h : ∀ key ∈ place, isName key = true) (hne : place ≠ []) :
    ".".intercalate place ≠ "" ∧ ".".intercalate place ≠ "<root>" := by
  have hkeys := keys_intercalate hne fun key hkey => (isName_iff.1 (h key hkey)).2.1
  constructor <;> intro heq <;> rw [heq] at hkeys
  · have hmem : "" ∈ place := by rw [← hkeys]; decide
    exact (isName_iff.1 (h _ hmem)).1 rfl
  · have hmem : "<root>" ∈ place := by rw [← hkeys]; decide
    exact (isName_iff.1 (h _ hmem)).2.2 rfl

/-- A path that is shown names one place. -/
theorem eq_of_shown (hplace : ∀ key ∈ place, isName key = true)
    (hother : ∀ key ∈ other, isName key = true)
    (h : shown (".".intercalate place) = shown (".".intercalate other)) : place = other := by
  have hshown : ∀ names : List String, names ≠ [] → (∀ key ∈ names, isName key = true) →
      shown (".".intercalate names) = ".".intercalate names := fun names hne hnames => by
    simp [shown, (intercalate_ne_root hnames hne).1]
  have hroot : shown (".".intercalate []) = "<root>" := by decide
  by_cases hp : place = [] <;> by_cases ho : other = []
  · rw [hp, ho]
  · rw [hp, hroot, hshown other ho hother] at h
    exact absurd h.symm (intercalate_ne_root hother ho).2
  · rw [ho, hroot, hshown place hp hplace] at h
    exact absurd h (intercalate_ne_root hplace hp).2
  · rw [hshown place hp hplace, hshown other ho hother] at h
    rw [← keys_intercalate hp fun key hkey => (isName_iff.1 (hplace key hkey)).2.1, h,
      keys_intercalate ho fun key hkey => (isName_iff.1 (hother key hkey)).2.1]

end KeyPath

/-! ## Places in a value

Keys lead from a value through its objects to the values inside it. `follow?` goes to one place;
`ends` lists all places where the way ends because the value there is no object, in the order of
the document. Items of arrays have no keys and are not entered.

Lookups see the first field of a name only. In a `Legible` value every name is there once, so every
field has a path of its own.
-/

namespace Json

variable {value found : Json} {fields : Fields} {place : List String} {key : String}

/-- The value that a list of keys leads to. -/
def follow? (value : Json) : List String → Option Json
  | [] => some value
  | key :: rest => (value.get? key).bind (·.follow? rest)

theorem follow?_cons (value : Json) (key : String) (rest : List String) :
    value.follow? (key :: rest) = (value.get? key).bind (·.follow? rest) := rfl

theorem get?_obj (fields : Fields) (key : String) : (obj fields).get? key = fields.lookup key := rfl

theorem eq_obj_of_get? (h : value.get? key = some found) :
    ∃ fields, value = obj fields ∧ fields.lookup key = some found := by
  cases value with
  | obj fields => exact ⟨fields, rfl, h⟩
  | _ => cases h

/-! A dataset may be absent, and then nothing is at any place. -/

theorem follow?_bind_nil (data : Option Json) : data.bind (·.follow? []) = data := by
  cases data <;> rfl

theorem follow?_bind_cons (data : Option Json) (key : String) (rest : List String) :
    data.bind (·.follow? (key :: rest)) = (data.bind (·.get? key)).bind (·.follow? rest) := by
  cases data <;> rfl

/-- The values that strings and lists are made from. -/
def isLeaf : Json → Bool
  | str _ | arr _ => true
  | _ => false

mutual

/-- The values inside a value that are no objects, each with the keys that lead to it. -/
def ends : Json → List (List String × Json)
  | obj fields => endsBelow fields
  | null => [([], null)]
  | bool b => [([], bool b)]
  | num n => [([], num n)]
  | str s => [([], str s)]
  | arr items => [([], arr items)]
termination_by structural value => value

def endsBelow : List (String × Json) → List (List String × Json)
  | [] => []
  | (key, value) :: rest => (ends value).map (fun e => (key :: e.1, e.2)) ++ endsBelow rest
termination_by structural fields => fields

end

mutual

/-- In every object the keys are names, each there once. -/
def legible : Json → Bool
  | obj fields => decide (fields.map (·.1)).Nodup && legibleBelow fields
  | null | bool _ | num _ | str _ | arr _ => true
termination_by structural value => value

def legibleBelow : List (String × Json) → Bool
  | [] => true
  | (key, value) :: rest => KeyPath.isName key && legible value && legibleBelow rest
termination_by structural fields => fields

end

theorem legibleBelow_iff :
    legibleBelow fields = true ↔
      ∀ field ∈ fields, KeyPath.isName field.1 = true ∧ field.2.legible = true := by
  induction fields with
  | nil => simp [legibleBelow]
  | cons field rest ih => obtain ⟨key, value⟩ := field; simp [legibleBelow, ih]

theorem legible_obj_iff :
    (obj fields).legible = true ↔ (fields.map (·.1)).Nodup ∧
      ∀ field ∈ fields, KeyPath.isName field.1 = true ∧ field.2.legible = true := by
  rw [legible, Bool.and_eq_true, decide_eq_true_iff, legibleBelow_iff]

/-- Where each key is there once, a lookup finds every field. -/
theorem lookup_of_mem (hnodup : (fields.map (·.1)).Nodup) (h : (key, value) ∈ fields) :
    fields.lookup key = some value := by
  induction fields with
  | nil => cases h
  | cons field rest ih =>
    obtain ⟨name, first⟩ := field
    obtain ⟨hname, hrest⟩ := List.nodup_cons.1 hnodup
    rcases List.mem_cons.1 h with heq | hmem
    · cases heq
      simp
    · have hne : key ≠ name := by
        rintro rfl
        exact hname (List.mem_map.2 ⟨_, hmem, rfl⟩)
      rw [List.lookup_cons, beq_false_of_ne hne]
      exact ih hrest hmem

theorem mem_of_lookup {α : Type} {entries : List (String × α)} {value : α}
    (h : entries.lookup key = some value) : (key, value) ∈ entries := by
  obtain ⟨before, after, rfl, -⟩ := List.lookup_eq_some_iff.1 h
  simp

theorem isName_of_follow? (hvalue : value.legible = true) (h : value.follow? place = some found) :
    ∀ key ∈ place, KeyPath.isName key = true := by
  induction place generalizing value with
  | nil => simp
  | cons key rest ih =>
    obtain ⟨child, hchild, hrest⟩ := Option.bind_eq_some_iff.1 h
    obtain ⟨fields, rfl, hlookup⟩ := eq_obj_of_get? hchild
    obtain ⟨hname, hlegible⟩ := (legible_obj_iff.1 hvalue).2 _ (mem_of_lookup hlookup)
    intro name hmem
    rcases List.mem_cons.1 hmem with rfl | hmem
    · exact hname
    · exact ih hlegible hrest name hmem

end Json

/-! ## Pointers

A path with its dots turned into slashes, behind one more slash, is a pointer (`dotted`), but not
always the one of the place: a slash in a key starts a token of its own, and `~0` and `~1` are
escapes. `tokens_dotted_iff` says when the tokens are the keys, and then the pointer goes where
the keys go (`pointer?_dotted`).
-/

namespace Text

variable {sep : Char} {s : List Char}

theorem length_splitOn (sep : Char) (s : List Char) : (splitOn sep s).length = s.count sep + 1 := by
  induction s with
  | nil => rfl
  | cons c rest ih =>
    obtain ⟨part, parts, hparts⟩ := List.exists_cons_of_ne_nil (splitOn_ne_nil sep rest)
    rw [hparts] at ih
    by_cases h : c = sep
    · simp [splitOn, h, hparts, ← ih]
    · simp [splitOn, h, hparts, ← ih]

theorem splitOn_eq_singleton_iff : splitOn sep s = [s] ↔ sep ∉ s := by
  rw [← List.count_eq_zero]
  constructor <;> intro h
  · have hlength := length_splitOn sep s
    rw [h] at hlength
    simpa using hlength.symm
  · obtain ⟨part, hpart⟩ := List.length_eq_one_iff.1 (by rw [length_splitOn, h])
    have hjoin := joinWith_splitOn sep s
    rw [hpart] at hjoin ⊢
    rw [← hjoin]
    rfl

/-- Where one separator is written as another, the parts are cut once more. -/
theorem splitOn_map (sep other : Char) (s : List Char) :
    splitOn other (s.map fun c => if c = sep then other else c) =
      (splitOn sep s).flatMap (splitOn other) := by
  induction s with
  | nil => rfl
  | cons c rest ih =>
    obtain ⟨part, parts, hparts⟩ := List.exists_cons_of_ne_nil (splitOn_ne_nil sep rest)
    rw [hparts] at ih
    by_cases hsep : c = sep
    · simp [splitOn, hsep, hparts, ih]
    · by_cases hother : c = other
      · subst hother
        simp [splitOn, hsep, hparts, ih]
      · obtain ⟨first, others, hfirst⟩ := List.exists_cons_of_ne_nil (splitOn_ne_nil other part)
        simp [splitOn, hsep, hother, hparts, ih, hfirst]

end Text

section Replacement

variable {α : Type} {f : α → List α}

theorem length_le_length_flatMap (hne : ∀ x, f x ≠ []) (xs : List α) :
    xs.length ≤ (xs.flatMap f).length := by
  induction xs with
  | nil => simp
  | cons x rest ih =>
    have := List.length_pos_iff.2 (hne x)
    simp only [List.flatMap_cons, List.length_append, List.length_cons]
    omega

/-- Where each element becomes at least one, a list stays as it is only if each of its elements
does. -/
theorem flatMap_eq_self_iff (hne : ∀ x, f x ≠ []) {xs : List α} :
    xs.flatMap f = xs ↔ ∀ x ∈ xs, f x = [x] := by
  induction xs with
  | nil => simp
  | cons x rest ih =>
    obtain ⟨first, others, hfirst⟩ := List.exists_cons_of_ne_nil (hne x)
    rw [List.flatMap_cons, List.forall_mem_cons]
    constructor
    · intro h
      have hothers : others = [] := by
        have := congrArg List.length h
        have := length_le_length_flatMap hne rest
        rw [← List.length_eq_zero_iff]
        simp only [hfirst, List.length_append, List.length_cons] at *
        omega
      subst hothers
      rw [hfirst] at h ⊢
      obtain ⟨rfl, hrest⟩ := List.cons.inj h
      exact ⟨rfl, ih.1 hrest⟩
    · rintro ⟨hx, hrest⟩
      rw [hx, ih.2 hrest]
      rfl

end Replacement

namespace Json

variable {digit char : Char} {token : List Char} {place : List String} {value found : Json}

/-! ### Escapes -/

/-- A token in which `char` stands where `~` and `digit` stood. -/
def unescape (digit char : Char) : List Char → List Char
  | '~' :: next :: rest =>
    if next = digit then char :: unescape digit char rest
    else '~' :: unescape digit char (next :: rest)
  | c :: rest => c :: unescape digit char rest
  | [] => []

theorem unescapeSlash_eq (token : List Char) : unescapeSlash token = unescape '1' '/' token := by
  fun_induction unescape '1' '/' token <;> simp_all [unescapeSlash]

theorem unescapeTilde_eq (token : List Char) : unescapeTilde token = unescape '0' '~' token := by
  fun_induction unescape '0' '~' token <;> simp_all [unescapeTilde]

/-- An escape is in a token behind its first character, or right at it. -/
theorem escape_infix_cons_iff {c : Char} :
    ['~', digit] <:+: c :: token ↔
      (c = '~' ∧ token.head? = some digit) ∨ ['~', digit] <:+: token := by
  rw [List.infix_cons_iff, List.cons_prefix_cons, List.singleton_prefix_iff_head?_eq_some,
    eq_comm (a := c)]

theorem length_unescape_le (digit char : Char) (token : List Char) :
    (unescape digit char token).length ≤ token.length := by
  fun_induction unescape digit char token with
  | case1 rest ih =>
    simp only [List.length_cons]
    omega
  | case2 next rest hne ih => simpa using ih
  | case3 c rest hescape ih => simpa using ih
  | case4 => exact Nat.le_refl _

theorem length_unescape_lt (char : Char) (h : ['~', digit] <:+: token) :
    (unescape digit char token).length < token.length := by
  fun_induction unescape digit char token with
  | case1 rest ih =>
    have hle := length_unescape_le digit char rest
    simp only [List.length_cons]
    omega
  | case2 next rest hne ih =>
    have hrest := (escape_infix_cons_iff.1 h).resolve_left fun hhead => hne (by simpa using hhead.2)
    simpa using ih hrest
  | case3 c rest hescape ih =>
    have hrest := (escape_infix_cons_iff.1 h).resolve_left fun hhead => by
      obtain ⟨tail, rfl⟩ := List.head?_eq_some_iff.1 hhead.2
      exact hescape digit tail hhead.1 rfl
    simpa using ih hrest
  | case4 => simp at h

theorem unescape_eq_self (h : ¬ ['~', digit] <:+: token) :
    unescape digit char token = token := by
  fun_induction unescape digit char token with
  | case1 rest ih => exact absurd (escape_infix_cons_iff.2 (.inl ⟨rfl, rfl⟩)) h
  | case2 next rest hne ih => rw [ih fun hrest => h (escape_infix_cons_iff.2 (.inr hrest))]
  | case3 c rest hescape ih => rw [ih fun hrest => h (escape_infix_cons_iff.2 (.inr hrest))]
  | case4 => rfl

theorem unescape_unescape_eq_iff :
    unescapeTilde (unescapeSlash token) = token ↔
      ¬ ['~', '0'] <:+: token ∧ ¬ ['~', '1'] <:+: token := by
  rw [unescapeTilde_eq, unescapeSlash_eq]
  constructor
  · intro h
    have hlength := congrArg List.length h
    have htilde := length_unescape_le '0' '~' (unescape '1' '/' token)
    have hslash : ¬ ['~', '1'] <:+: token := fun hescape => by
      have := length_unescape_lt '/' hescape
      omega
    refine ⟨fun hescape => ?_, hslash⟩
    rw [unescape_eq_self hslash] at hlength
    have := length_unescape_lt '~' hescape
    omega
  · rintro ⟨htilde, hslash⟩
    rw [unescape_eq_self hslash, unescape_eq_self htilde]

/-! ### Tokens -/

/-- A key that may stand in a pointer as it is: without slashes and escapes. -/
def IsToken (key : String) : Prop :=
  '/' ∉ key.toList ∧ ¬ ['~', '0'] <:+: key.toList ∧ ¬ ['~', '1'] <:+: key.toList

instance : DecidablePred IsToken := fun _ => inferInstanceAs (Decidable (_ ∧ _ ∧ _))

/-- The tokens that a text becomes inside a pointer. -/
def tokensOf (part : List Char) : List (List Char) :=
  (Text.splitOn '/' part).map fun token => unescapeTilde (unescapeSlash token)

theorem tokensOf_ne_nil (part : List Char) : tokensOf part ≠ [] := by
  simp [tokensOf, Text.splitOn_ne_nil]

theorem tokensOf_eq_singleton_iff {key : String} :
    tokensOf key.toList = [key.toList] ↔ IsToken key := by
  constructor
  · intro h
    have hlength : (Text.splitOn '/' key.toList).length = 1 := by
      simpa [tokensOf] using congrArg List.length h
    have hslash : '/' ∉ key.toList := by
      rw [Text.length_splitOn] at hlength
      exact List.count_eq_zero.1 (by omega)
    rw [tokensOf, Text.splitOn_eq_singleton_iff.2 hslash] at h
    exact ⟨hslash, unescape_unescape_eq_iff.1 (List.singleton_inj.1 h)⟩
  · rintro ⟨hslash, hescapes⟩
    rw [tokensOf, Text.splitOn_eq_singleton_iff.2 hslash]
    simpa using unescape_unescape_eq_iff.2 hescapes

/-- A path with its dots turned into slashes, behind one more. -/
def dotted (path : String) : String :=
  "/" ++ String.ofList (path.toList.map fun c => if c = '.' then '/' else c)

theorem tokens?_dotted (path : String) :
    tokens? (dotted path).toList = some ((Text.splitOn '.' path.toList).flatMap tokensOf) := by
  have hchars : (dotted path).toList =
      '/' :: path.toList.map fun c => if c = '.' then '/' else c := by
    simp [dotted]
  rw [hchars, tokens?, Text.splitOn_map, List.map_flatMap]
  rfl

/-- The tokens are the keys just if every key may stand in a pointer as it is. -/
theorem tokens_dotted_iff {path : String} :
    tokens? (dotted path).toList = some ((KeyPath.keys path).map String.toList) ↔
      ∀ key ∈ KeyPath.keys path, IsToken key := by
  have hkeys : Text.splitOn '.' path.toList = (KeyPath.keys path).map String.toList := by
    simp [KeyPath.keys, Text.parts]
  rw [tokens?_dotted, hkeys, Option.some_inj, flatMap_eq_self_iff tokensOf_ne_nil,
    List.forall_mem_map]
  simp only [tokensOf_eq_singleton_iff]

/-! ### Ways -/

theorem foldlM_child?_of_follow? (h : value.follow? place = some found) :
    (place.map String.toList).foldlM child? value = some found := by
  induction place generalizing value with
  | nil => exact h
  | cons key rest ih =>
    obtain ⟨next, hnext, hrest⟩ := Option.bind_eq_some_iff.1 h
    obtain ⟨fields, rfl, hlookup⟩ := eq_obj_of_get? hnext
    have hchild : child? (obj fields) key.toList = some next := by
      simpa [child?, Fields.get?] using hlookup
    rw [List.map_cons, List.foldlM_cons, hchild]
    exact ih hrest

theorem pointer?_dotted {path : String} (htokens : ∀ key ∈ KeyPath.keys path, IsToken key)
    (h : value.follow? (KeyPath.keys path) = some found) :
    value.pointer? (dotted path) = some found := by
  rw [pointer?, tokens_dotted_iff.2 htokens]
  exact foldlM_child?_of_follow? h

/-! ### Chains -/

/-- The value in which a place leads to an empty array, and nothing else is. -/
def chain (place : List String) : Json := place.foldr (fun key value => obj [(key, value)]) (arr [])

theorem follow?_chain (place : List String) : (chain place).follow? place = some (arr []) := by
  induction place with
  | nil => rfl
  | cons key rest ih =>
    rw [follow?_cons, chain, List.foldr_cons, get?_obj, List.lookup_cons_self]
    exact ih

theorem eq_of_child?_single {key : String} {token : List Char}
    (h : (obj [(key, value)]).child? token = some found) :
    key = String.ofList token ∧ value = found := by
  have hlookup : List.lookup (String.ofList token) [(key, value)] = some found := h
  by_cases hkey : String.ofList token = key
  · simpa [hkey] using hlookup
  · simp [List.lookup_cons, beq_false_of_ne hkey] at hlookup

/-- Only the keys of the place lead to the array. -/
theorem eq_of_foldlM_chain {tokens : List (List Char)} {items : List Json}
    (h : tokens.foldlM child? (chain place) = some (arr items)) :
    tokens = place.map String.toList := by
  induction place generalizing tokens with
  | nil =>
    cases tokens with
    | nil => rfl
    | cons token rest => simp [chain, child?] at h
  | cons key place ih =>
    cases tokens with
    | nil => simp [chain] at h
    | cons token rest =>
      rw [List.foldlM_cons] at h
      obtain ⟨next, hnext, hrest⟩ := Option.bind_eq_some_iff.1 h
      obtain ⟨rfl, rfl⟩ := eq_of_child?_single hnext
      rw [ih hrest]
      simp

end Json

end Phrasebook
