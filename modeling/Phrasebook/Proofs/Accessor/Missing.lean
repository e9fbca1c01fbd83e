import Phrasebook.Proofs.Accessor.Lookup

/-!
# What missing strings show

In development a string without a translation shows its path. The path is put together key by key
from the root, whose own path is empty, and it is looked up by cutting it at its dots. Keys that are
empty are lost as long as nothing stands before them, since what is below them looks as if it were
at the root: what is shown is the path without the dots in front (`below_keys`). So a path is shown
as it was asked for unless it goes through an empty key of the root (`Strings.shows_path_iff`).
-/

namespace Phrasebook

namespace KeyPath

/-- A path without the dots in front of it. -/
def undotted (path : String) : String := String.ofList (path.toList.dropWhile (· = '.'))

theorem keys_dot (path : String) : keys ("." ++ path) = "" :: keys path := by
  simp [keys, Text.parts, Text.splitOn]

theorem undotted_dot (path : String) : undotted ("." ++ path) = undotted path := by
  simp [undotted]

theorem undotted_dot_ne (path : String) : undotted ("." ++ path) ≠ "." ++ path := by
  intro h
  have hlength : (undotted path).toList.length ≤ path.toList.length := by
    rw [undotted, String.toList_ofList]
    exact (List.dropWhile_suffix _).length_le
  rw [← undotted_dot, h, String.toList_append, List.length_append] at hlength
  have hdot : ".".toList.length = 1 := rfl
  omega

theorem ofList_dot (rest : List Char) :
    String.ofList ('.' :: rest) = "." ++ String.ofList rest := by
  simp

theorem undotted_eq_self {c : Char} (hc : c ≠ '.') (rest : List Char) :
    undotted (String.ofList (c :: rest)) = String.ofList (c :: rest) := by
  simp [undotted, hc]

theorem below_keys (path : String) : below "" (keys path) = undotted path := by
  rw [← String.ofList_toList (s := path)]
  induction path.toList with
  | nil => rfl
  | cons c rest ih =>
    by_cases hc : c = '.'
    · rw [hc, ofList_dot, keys_dot, undotted_dot, below_cons]
      exact ih
    · obtain ⟨part, parts, hparts⟩ := List.exists_cons_of_ne_nil (Text.splitOn_ne_nil '.' rest)
      have hkeys : keys (String.ofList (c :: rest)) =
          String.ofList (c :: part) :: parts.map String.ofList := by
        simp [keys, Text.parts, Text.splitOn, hc, hparts]
      rw [undotted_eq_self hc, hkeys, below_root_cons (by simp), ← hkeys, intercalate_keys]

theorem exists_dot_of_undotted_ne {path : String} (h : undotted path ≠ path) :
    ∃ rest, path = "." ++ rest := by
  cases hpath : path.toList with
  | nil =>
    rw [String.toList_eq_nil_iff.1 hpath] at h
    exact absurd rfl h
  | cons c rest =>
    rw [← String.ofList_toList (s := path), hpath] at h ⊢
    by_cases hc : c = '.'
    · exact ⟨String.ofList rest, hc ▸ ofList_dot rest⟩
    · exact absurd (undotted_eq_self hc rest) h

end KeyPath

namespace Json

variable {value : Json}

def hasLeafAt (value : Json) (path : String) : Bool :=
  (value.follow? (KeyPath.keys path)).any isLeaf

theorem hasLeafAt_dot_iff {path : String} :
    value.hasLeafAt ("." ++ path) = true ↔
      ∃ inner, value.get? "" = some inner ∧ inner.hasLeafAt path = true := by
  rw [hasLeafAt, KeyPath.keys_dot, follow?_cons]
  cases value.get? "" with
  | none => simp
  | some inner => simp [hasLeafAt]

/-- The paths to the leaves have no dots in front just if no leaf is inside the value under the
empty key. -/
theorem forall_undotted_iff :
    (∀ path, value.hasLeafAt path = true → KeyPath.undotted path = path) ↔
      ∀ inner, value.get? "" = some inner → ∀ path, inner.hasLeafAt path = false := by
  constructor
  · intro h inner hinner path
    refine Bool.eq_false_iff.2 fun hleaf => ?_
    exact KeyPath.undotted_dot_ne path (h _ (hasLeafAt_dot_iff.2 ⟨inner, hinner, hleaf⟩))
  · intro h path hleaf
    refine Decidable.not_not.1 fun hne => ?_
    obtain ⟨rest, rfl⟩ := KeyPath.exists_dot_of_undotted_ne hne
    obtain ⟨inner, hinner, hrest⟩ := hasLeafAt_dot_iff.1 hleaf
    rw [h inner hinner rest] at hrest
    cases hrest

end Json

namespace Strings

variable {schema : Json} {strings : Strings}

/-- Without a dataset every leaf of the schema is missing. -/
theorem get?_of_no_data (h : Strings.build schema none "" .development = .ok strings)
    (path : String) :
    strings.get? path =
      if schema.hasLeafAt path then some (.missing (KeyPath.undotted path)) else none := by
  rw [Accessor.get?, Strings.follow?_eq h, KeyPath.below_keys, Json.hasLeafAt]
  rcases schema.follow? (KeyPath.keys path) with _ | _ | _ | _ | _ | _ | _ <;> rfl

theorem text_of_no_data (h : Strings.build schema none "" .development = .ok strings)
    (path : String) (vars : Option Fields) :
    strings.text path vars = if schema.hasLeafAt path then KeyPath.undotted path else path := by
  rw [Strings.text, get?_of_no_data h]
  cases schema.hasLeafAt path <;> rfl

/-- **A missing string shows the path that it was asked for**, wherever that path leads, just if the
schema has no leaf inside an object under the empty key of its root. In any schema it shows that
path without the dots in front. -/
theorem shows_path_iff (schema : Schema) :
    ∃ strings, Strings.build schema.value none "" .development = .ok strings ∧
      (∀ path, strings.get? path =
        if schema.value.hasLeafAt path then some (.missing (KeyPath.undotted path)) else none) ∧
      (∀ path vars, strings.text path vars =
        if schema.value.hasLeafAt path then KeyPath.undotted path else path) ∧
      ((∀ path vars, strings.text path vars = path) ↔
        ∀ inner, schema.value.get? "" = some inner → ∀ path, inner.hasLeafAt path = false) ∧
      ((∀ path leaf, strings.get? path = some leaf → leaf = .missing path) ↔
        ∀ inner, schema.value.get? "" = some inner → ∀ path, inner.hasLeafAt path = false) := by
  obtain ⟨strings, hstrings⟩ := schema.exists_build (Leaf.rule .development) none
  refine ⟨strings, hstrings, get?_of_no_data hstrings, text_of_no_data hstrings, ?_, ?_⟩
  · rw [← Json.forall_undotted_iff]
    simp only [text_of_no_data hstrings, ite_eq_right_iff]
    exact ⟨fun h path => h path none, fun h path _ => h path⟩
  · rw [← Json.forall_undotted_iff]
    refine forall_congr' fun path => ?_
    rw [get?_of_no_data hstrings]
    cases schema.value.hasLeafAt path with
    | false => simp
    | true => simp

/-- A text below an empty key. -/
def nameless : Schema where
  value := .obj [("", .obj [("a", .str "A")])]
  valid := rfl

/-- The text at `.a` is shown as `a`, and there is nothing at that path. -/
theorem not_shows_path_nameless :
    ∃ strings, Strings.build nameless.value none "" .development = .ok strings ∧
      strings.get? ".a" = some (.missing "a") ∧ strings.get? "a" = none ∧
      strings.text ".a" none = "a" := by
  exact ⟨_, rfl, rfl, rfl, rfl⟩

end Strings

end Phrasebook
