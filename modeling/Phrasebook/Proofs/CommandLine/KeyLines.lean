import Phrasebook.CommandLine
import Phrasebook.Proofs.Accessor.Lookup
import Phrasebook.Proofs.Places

/-!
# The line for a key

The program that shows strings follows a pointer to find out whether the schema has an array for a
key, but looks the list and the text up along the parts of the key between its dots. The two ways
lead to the same place for the keys whose parts may stand in a pointer as they are, and for no
others (`showsByKind_iff`).
-/

namespace Phrasebook

theorem Schema.check_chain (path : String) (place : List String) :
    Schema.check path (Json.chain place) = .ok () := by
  induction place generalizing path with
  | nil => rfl
  | cons key rest ih =>
    have hfirst : Schema.check (KeyPath.join path key) (Json.chain rest) = .ok () := ih _
    rw [Json.chain, List.foldr_cons, Schema.check, Schema.checkFields, ← Json.chain, hfirst]
    rfl

/-- The schema whose only leaf is an empty array at a place. -/
def Schema.chain (key : String) (rest : List String) : Schema where
  value := Json.chain (key :: rest)
  valid := Schema.check_chain "" (key :: rest)

namespace CommandLine

variable {schema : Schema} {strings : Strings} {lists : Lists} {vars : Fields} {key : String}
  {data : Option Json} {mode : FallbackMode}

/-- The line for a key shows what the schema has at the place of the key: the list if there is an
array, and the text otherwise. -/
structure ShowsByKind (schema : Schema) (strings : Strings) (lists : Lists) (vars : Fields)
    (key : String) : Prop where
  list : ∀ items, schema.value.follow? (KeyPath.keys key) = some (.arr items) →
    ∃ active, lists.get? key = some active ∧
      keyLine schema strings lists vars key = key ++ " = " ++ (Json.arr active).text
  text : (∀ items, schema.value.follow? (KeyPath.keys key) ≠ some (.arr items)) →
    keyLine schema strings lists vars key = key ++ " = " ++ strings.text key (some vars)

theorem isArrayKey_iff : isArrayKey schema key = true ↔
    ∃ items, schema.value.pointer? (Json.dotted key) = some (.arr items) := by
  dsimp only [isArrayKey]
  split
  · next items h => exact iff_of_true rfl ⟨items, h⟩
  · next h => exact iff_of_false Bool.false_ne_true fun ⟨items, hitems⟩ => h items hitems

theorem showsByKind_of_isToken (htokens : ∀ name ∈ KeyPath.keys key, Json.IsToken name)
    (hlists : Lists.build schema.value data "" mode = .ok lists) :
    ShowsByKind schema strings lists vars key := by
  have hactive : lists.get? key = Lists.expected mode (schema.value.follow? (KeyPath.keys key))
      (data.bind (·.follow? (KeyPath.keys key))) :=
    Lists.follow?_eq hlists _
  have hleaf : (lists.get? key).isSome =
      (schema.value.follow? (KeyPath.keys key)).any Json.isLeaf := by
    rw [hactive, Lists.isSome_expected]
  constructor
  case list =>
    intro items hplace
    rw [hplace] at hleaf
    obtain ⟨active, hsome⟩ := Option.isSome_iff_exists.1 hleaf
    refine ⟨active, hsome, ?_⟩
    have hpointer : isArrayKey schema key = true :=
      isArrayKey_iff.2 ⟨items, Json.pointer?_dotted htokens hplace⟩
    simp only [keyLine, hsome, hpointer, if_true]
  case text =>
    intro hplace
    cases hsome : lists.get? key with
    | none => simp only [keyLine, hsome]
    | some active =>
      rw [hsome] at hleaf
      obtain ⟨leaf, hfollow, -⟩ := Option.any_eq_true _ _ |>.1 hleaf.symm
      have hpointer : ¬ isArrayKey schema key = true := by
        rw [isArrayKey_iff, Json.pointer?_dotted htokens hfollow]
        rintro ⟨items, hitems⟩
        exact hplace items (hfollow.trans hitems)
      simp only [keyLine, hsome, hpointer]
      rfl

/-- On the schema that has an array at the place of a key only, the array is shown only if the
pointer finds it. -/
theorem isToken_of_showsByKind {first : String} {rest : List String}
    (hkeys : KeyPath.keys key = first :: rest)
    (hstrings : Strings.build (Schema.chain first rest).value none "" .production = .ok strings)
    (hlists : Lists.build (Schema.chain first rest).value none "" .production = .ok lists)
    (h : ShowsByKind (Schema.chain first rest) strings lists vars key) :
    ∀ name ∈ KeyPath.keys key, Json.IsToken name := by
  have hplace : (Schema.chain first rest).value.follow? (KeyPath.keys key) = some (.arr []) := by
    rw [hkeys]
    exact Json.follow?_chain _
  obtain ⟨active, hsome, hline⟩ := h.list [] hplace
  have hactive : lists.get? key = some [] :=
    (Lists.follow?_eq hlists _).trans (by rw [hplace]; rfl)
  have htext : strings.text key (some vars) = "" := by
    have hleaf : strings.get? key = some (.literal "") :=
      (Strings.follow?_eq hstrings _).trans (by rw [hplace]; rfl)
    simp only [Strings.text, hleaf]
    rfl
  obtain rfl : [] = active := Option.some_inj.1 (hactive.symm.trans hsome)
  have harray : isArrayKey (Schema.chain first rest) key = true := by
    refine Decidable.not_not.1 fun hnot => ?_
    simp only [keyLine, hsome, hnot, htext] at hline
    exact absurd ((String.append_right_inj _).1 hline) (by decide)
  obtain ⟨items, hitems⟩ := isArrayKey_iff.1 harray
  obtain ⟨tokens, htokens, hfold⟩ := Option.bind_eq_some_iff.1 hitems
  rw [← Json.tokens_dotted_iff, htokens, hkeys, Json.eq_of_foldlM_chain hfold]

/-- **Each key is shown as what the schema says it is** exactly for the keys whose parts between the
dots have no slash, no `~0` and no `~1`: whatever the schema, the dataset, the mode and the
variables are, the line has the list of the key if the schema has an array at its place, and the
text of the key otherwise. -/
theorem showsByKind_iff (key : String) :
    (∀ (schema : Schema) (data : Option Json) (mode : FallbackMode), ∃ strings lists,
        Strings.build schema.value data "" mode = .ok strings ∧
        Lists.build schema.value data "" mode = .ok lists ∧
        ∀ vars, ShowsByKind schema strings lists vars key) ↔
      ∀ name ∈ KeyPath.keys key, Json.IsToken name := by
  constructor
  · intro h
    obtain ⟨first, rest, hkeys⟩ := List.exists_cons_of_ne_nil (KeyPath.keys_ne_nil key)
    obtain ⟨strings, lists, hstrings, hlists, hshows⟩ := h (.chain first rest) none .production
    exact isToken_of_showsByKind hkeys hstrings hlists (hshows [])
  · intro htokens schema data mode
    obtain ⟨strings, hstrings⟩ := schema.exists_build (Leaf.rule mode) data
    obtain ⟨lists, hlists⟩ := schema.exists_build (Lists.rule mode) data
    exact ⟨strings, lists, hstrings, hlists, fun _ => showsByKind_of_isToken htokens hlists⟩

example : ∀ name ∈ KeyPath.keys "menu.items.0", Json.IsToken name := by decide +kernel

def slashed : Schema where
  value := .obj [("a/b", .arr [.str "x"])]
  valid := rfl

/-- The list is there and the path stands in its place: the pointer looks for `b` below `a`. -/
theorem not_showsByKind_slashed :
    ∃ strings lists,
      Strings.build slashed.value (some slashed.value) "" .development = .ok strings ∧
      Lists.build slashed.value (some slashed.value) "" .development = .ok lists ∧
      slashed.value.follow? (KeyPath.keys "a/b") = some (.arr [.str "x"]) ∧
      lists.get? "a/b" = some [.str "x"] ∧
      keyLine slashed strings lists [] "a/b" = "a/b = a/b" ∧
      ¬ ShowsByKind slashed strings lists [] "a/b" := by
  refine ⟨_, _, rfl, rfl, rfl, rfl, by decide +kernel, fun h => ?_⟩
  obtain ⟨active, hsome, hline⟩ := h.list [.str "x"] rfl
  obtain rfl : [.str "x"] = active := Option.some_inj.1 hsome
  exact absurd hline (by decide +kernel)

end CommandLine

end Phrasebook
