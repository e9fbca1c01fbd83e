import Phrasebook.Proofs.Accessor.Lookup
import Phrasebook.Proofs.Template.Flags
import Phrasebook.Proofs.Validation.Findings

/-!
# The variables that a text needs

What a template evaluates to depends on the variables of its placeholders only (`render_congr`).
Validation compares just these names, so a translation whose placeholders do not drift needs no
variable that the default text does not use (`Report.needs_no_more`): the names that validation
sees are those that evaluation looks up.
-/

namespace Phrasebook

/-- The variables of these names are the same, or absent from both. -/
def AgreeOn (names : List String) (vars vars' : Option Fields) : Prop :=
  ∀ name ∈ names, (vars.getD []).get? name = (vars'.getD []).get? name

variable {names : List String} {vars vars' : Option Fields} {base localized path text : String}
  {schema dataset : Json} {place : List String} {mode : FallbackMode}

theorem AgreeOn.mono {more : List String} (h : AgreeOn more vars vars') (hsub : names ⊆ more) :
    AgreeOn names vars vars' :=
  fun name hmem => h name (hsub hmem)

/-! ## Evaluation -/

theorem AgreeOn.valueText_eq {name : String} (h : AgreeOn names vars vars') (hmem : name ∈ names) :
    valueText vars name = valueText vars' name := by
  unfold valueText
  rw [h name hmem]

theorem AgreeOn.filled_eq {piece : Piece} (h : AgreeOn (placeholders text) vars vars')
    (hmem : piece ∈ pieces text.toList) : piece.filled vars = piece.filled vars' := by
  cases piece with
  | literal c => rfl
  | placeholder run =>
    have hname : String.ofList (Piece.nameOf run) ∈ placeholders text :=
      List.mem_filterMap.2 ⟨_, hmem, rfl⟩
    exact congrArg String.toList (h.valueText_eq hname)

theorem interpolate_congr (h : AgreeOn (placeholders text) vars vars') :
    interpolate text vars = interpolate text vars' := by
  unfold interpolate
  rw [List.flatMap_congr fun _ hmem => h.filled_eq hmem]

/-- A template depends on the variables of its placeholders only, with its markup. -/
theorem Template.render_congr {template : Template}
    (h : AgreeOn (placeholders template.source) vars vars') :
    template.render vars = template.render vars' := by
  cases htags : template.hasTags with
  | true => rw [render_of_hasTags htags, render_of_hasTags htags, interpolate_congr h]
  | false => rw [render_of_not_hasTags htags, render_of_not_hasTags htags, interpolate_congr h]

/-! ## Drift -/

theorem placeholderDrift_mem_compareTexts
    (hne : placeholderSet base ≠ placeholderSet localized) (path : String) :
    Finding.placeholderDrift path (placeholderSet base) (placeholderSet localized) ∈
      compareTexts path base localized := by
  unfold compareTexts
  rw [if_neg hne]
  exact List.mem_append_left _ (List.mem_singleton_self _)

theorem Finding.message_placeholderDrift (path : String) (base localized : List String) :
    "Placeholder mismatch at ".toList <+:
      (placeholderDrift path base localized).message.toList := by
  unfold message drift
  simp only [String.append_assoc, String.toList_append]
  exact List.prefix_append _ _

theorem Report.placeholderSet_eq
    (h : ∀ text ∈ (Report.of schema dataset).warnings.map Finding.message,
      ¬ "Placeholder mismatch at ".toList <+: text.toList)
    (hbase : schema.follow? place = some (.str base))
    (hlocalized : dataset.follow? place = some (.str localized)) :
    placeholderSet base = placeholderSet localized := by
  by_contra hne
  have hmem : Finding.placeholderDrift (KeyPath.below "" place) (placeholderSet base)
      (placeholderSet localized) ∈ compareAt "" schema dataset :=
    compareAt_subset hbase hlocalized (placeholderDrift_mem_compareTexts hne _)
  have hwarning : Finding.placeholderDrift (KeyPath.below "" place) (placeholderSet base)
      (placeholderSet localized) ∈ (Report.of schema dataset).warnings :=
    List.mem_filter.2 ⟨hmem, rfl⟩
  exact h _ (List.mem_map_of_mem hwarning) (Finding.message_placeholderDrift _ _ _)

theorem subset_of_placeholderSet_eq (h : placeholderSet base = placeholderSet localized) :
    placeholders localized ⊆ placeholders base := by
  intro name hmem
  have hset : name ∈ placeholderSet localized := Text.mem_sortedSet.2 hmem
  rw [← h] at hset
  exact Text.mem_sortedSet.1 hset

/-- **A translation needs no variable that the default text does not use**, if validation reports no
drift of placeholders: two sets of variables that agree on the placeholders of the default text give
the same result, with its markup, and in both modes. -/
theorem Report.needs_no_more (schema : Schema) (dataset : Json)
    (h : ∀ text ∈ (Report.of schema.value dataset).warnings.map Finding.message,
      ¬ "Placeholder mismatch at ".toList <+: text.toList)
    (mode : FallbackMode) :
    ∃ strings, Strings.build schema.value (some dataset) "" mode = .ok strings ∧
      ∀ place base localized, schema.value.follow? place = some (.str base) →
        dataset.follow? place = some (.str localized) →
        ∃ leaf, strings.follow? place = some leaf ∧
          ∀ vars vars', AgreeOn (placeholders base) vars vars' →
            leaf.render vars = leaf.render vars' ∧
            ∀ path, KeyPath.keys path = place →
              strings.render? path vars = strings.render? path vars' := by
  obtain ⟨strings, hstrings⟩ := schema.exists_build (Leaf.rule mode) (some dataset)
  refine ⟨strings, hstrings, fun place base localized hbase hlocalized => ?_⟩
  have hleaf : strings.follow? place = some (.template ⟨localized⟩) := by
    rw [Strings.follow?_eq hstrings, hbase, Option.bind_some, hlocalized]
    rfl
  have hsame := Report.placeholderSet_eq h hbase hlocalized
  refine ⟨_, hleaf, fun vars vars' hagree => ?_⟩
  have hrender : Template.render ⟨localized⟩ vars = Template.render ⟨localized⟩ vars' :=
    Template.render_congr (hagree.mono (subset_of_placeholderSet_eq hsame))
  refine ⟨hrender, fun path hpath => ?_⟩
  unfold Strings.render? Accessor.get?
  rw [hpath, hleaf]
  exact congrArg some hrender

def Schema.greeting : Schema :=
  ⟨.obj [("hi", .str "Hi \x7bb\x7b \x7b\x7bname\x7d\x7d \x7d\x7d")], rfl⟩

def Schema.greetingInFrench : Json :=
  .obj [("hi", .str "\x7bb\x7b \x7b\x7b name \x7d\x7d \x7d\x7d, salut")]

/-- The name is all that the translation needs. -/
theorem Report.needs_no_more_greeting :
    (∀ text ∈ (Report.of Schema.greeting.value Schema.greetingInFrench).warnings.map
        Finding.message, ¬ "Placeholder mismatch at ".toList <+: text.toList) ∧
      ∃ strings, Strings.build Schema.greeting.value (some Schema.greetingInFrench) "" .development
          = .ok strings ∧
        strings.render? "hi" (some [("name", .str "Eva"), ("mood", .str "glad")])
          = strings.render? "hi" (some [("name", .str "Eva")]) := by
  have hclean : ∀ text ∈
      (Report.of Schema.greeting.value Schema.greetingInFrench).warnings.map Finding.message,
      ¬ "Placeholder mismatch at ".toList <+: text.toList := by decide +kernel
  obtain ⟨strings, hstrings, hneeds⟩ :=
    Report.needs_no_more Schema.greeting Schema.greetingInFrench hclean .development
  obtain ⟨leaf, -, hleaf⟩ := hneeds ["hi"] _ _ rfl rfl
  have hnames : placeholders "Hi \x7bb\x7b \x7b\x7bname\x7d\x7d \x7d\x7d" = ["name"] := by
    decide +kernel
  have hagree : AgreeOn ["name"] (some [("name", .str "Eva"), ("mood", .str "glad")])
      (some [("name", .str "Eva")]) := fun name hmem => by
    rw [List.mem_singleton.1 hmem]
    rfl
  exact ⟨hclean, strings, hstrings, (hleaf _ _ (hnames ▸ hagree)).2 "hi" (by decide +kernel)⟩

end Phrasebook
