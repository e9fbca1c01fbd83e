import Mathlib.Tactic.Choose
import Phrasebook.Proofs.Accessor.Lookup
import Phrasebook.Proofs.Validation.Gaps

/-!
# What a report predicts

Validation and the accessors walk over a schema and a dataset on their own, and the one stops at the
first mismatch where the other goes on without data. Both come to the same: a leaf of the schema
finds no value in the dataset if and only if a gap is at it or above it (`exists_gap_iff`), and then
it falls back (`fallsBack_iff`). So a report tells which leaves fall back.
-/

namespace Phrasebook

/-! ## The two cases of a leaf -/

theorem Strings.expected_of_unusable {text : String} {data : Option Json}
    (h : ∀ found, data = some found → (Json.str text).fits found = false) (path : String) :
    Strings.expected .development path (some (.str text)) data = some (.missing path) ∧
      Strings.expected .production path (some (.str text)) data = some (.template ⟨text⟩) := by
  cases data with
  | none => exact ⟨rfl, rfl⟩
  | some found =>
    have hfits := h found rfl
    cases found with
    | arr _ | obj _ => exact ⟨rfl, rfl⟩
    | _ => cases hfits

theorem Strings.expected_of_fits {text : String} {found : Json}
    (h : (Json.str text).fits found = true) (path : String) :
    ∃ leaf : Leaf, leaf.isMissing = false ∧
      ∀ mode, Strings.expected mode path (some (.str text)) (some found) = some leaf := by
  cases found with
  | arr _ | obj _ => cases h
  | _ => exact ⟨_, rfl, fun _ => rfl⟩

theorem Lists.expected_of_unusable {items : List Json} {data : Option Json}
    (h : ∀ found, data = some found → (Json.arr items).fits found = false) :
    Lists.expected .development (some (.arr items)) data = some [] ∧
      Lists.expected .production (some (.arr items)) data = some items := by
  cases data with
  | none => exact ⟨rfl, rfl⟩
  | some found =>
    have hfits := h found rfl
    cases found with
    | arr _ => cases hfits
    | _ => exact ⟨rfl, rfl⟩

theorem Json.eq_arr_of_fits {items : List Json} {found : Json}
    (h : (Json.arr items).fits found = true) : ∃ list, found = .arr list := by
  cases found with
  | arr list => exact ⟨list, rfl⟩
  | _ => cases h

/-! ## Falling back -/

section

variable (strings : FallbackMode → Strings) (lists : FallbackMode → Lists) (dataset : Json)
  (place : List String)

/-- A leaf of the schema falls back: in development it is missing, or empty, and in production it is
what the schema has. An empty list may also be the dataset's own, and does not fall back then. -/
inductive FallsBack : (leaf : Json) → Prop where
  | string {text : String} :
      (strings .development).get? (".".intercalate place) =
        some (.missing (".".intercalate place)) →
      (strings .production).get? (".".intercalate place) = some (.template ⟨text⟩) →
      FallsBack (.str text)
  | array {items : List Json} :
      (∀ found, dataset.follow? place ≠ some (.arr found)) →
      (lists .development).get? (".".intercalate place) = some [] →
      (lists .production).get? (".".intercalate place) = some items →
      FallsBack (.arr items)

/-- A leaf of the schema has the same value in both modes. -/
inductive Settled : (leaf : Json) → Prop where
  | string {text : String} (value : Leaf) :
      (∀ mode, (strings mode).get? (".".intercalate place) = some value) → Settled (.str text)
  | array {items : List Json} (value : List Json) :
      (∀ mode, (lists mode).get? (".".intercalate place) = some value) → Settled (.arr items)

end

section

variable {schema dataset leaf found : Json} {strings : FallbackMode → Strings}
  {lists : FallbackMode → Lists} {place : List String}
  (hstrings : ∀ mode, Strings.build schema (some dataset) "" mode = .ok (strings mode))
  (hlists : ∀ mode, Lists.build schema (some dataset) "" mode = .ok (lists mode))
  (hplace : schema.follow? place = some leaf) (hne : place ≠ [])
  (hnames : ∀ key ∈ place, KeyPath.isName key = true) (hleaf : leaf.isLeaf = true)

include hstrings hlists hplace hne hnames hleaf

theorem fallsBack_of_unusable
    (h : ∀ found, dataset.follow? place = some found → leaf.fits found = false) :
    FallsBack strings lists dataset place leaf := by
  have hdots : ∀ key ∈ place, '.' ∉ key.toList := fun key hkey =>
    (KeyPath.isName_iff.1 (hnames key hkey)).2.1
  have hpath : KeyPath.below "" place = ".".intercalate place :=
    KeyPath.below_root fun key hkey => (KeyPath.isName_iff.1 (hnames key hkey)).1
  cases leaf with
  | str text =>
    obtain ⟨hdevelopment, hproduction⟩ := Strings.expected_of_unusable h (".".intercalate place)
    refine .string ?_ ?_ <;> rw [Strings.get?_eq (hstrings _) hne hdots, hplace, hpath]
    · exact hdevelopment
    · exact hproduction
  | arr items =>
    obtain ⟨hdevelopment, hproduction⟩ := Lists.expected_of_unusable h
    refine .array (fun list hfound => nomatch h _ hfound) ?_ ?_ <;>
      rw [Lists.get?_eq (hlists _) hne hdots, hplace]
    · exact hdevelopment
    · exact hproduction
  | _ => cases hleaf

theorem settled_of_fits (hfound : dataset.follow? place = some found)
    (h : leaf.fits found = true) :
    Settled strings lists place leaf ∧ ¬ FallsBack strings lists dataset place leaf := by
  have hdots : ∀ key ∈ place, '.' ∉ key.toList := fun key hkey =>
    (KeyPath.isName_iff.1 (hnames key hkey)).2.1
  cases leaf with
  | str text =>
    obtain ⟨value, hvalue, heq⟩ := Strings.expected_of_fits h (KeyPath.below "" place)
    have hget : ∀ mode, (strings mode).get? (".".intercalate place) = some value := fun mode => by
      rw [Strings.get?_eq (hstrings mode) hne hdots, hplace, Option.bind_some, hfound, heq]
    refine ⟨.string value hget, ?_⟩
    intro hback
    cases hback with
    | string hmissing _ =>
      cases (hget _).symm.trans hmissing
      cases hvalue
  | arr items =>
    obtain ⟨list, rfl⟩ := Json.eq_arr_of_fits h
    have hget : ∀ mode, (lists mode).get? (".".intercalate place) = some list := fun mode => by
      rw [Lists.get?_eq (hlists mode) hne hdots, hplace, Option.bind_some, hfound]
      rfl
    refine ⟨.array list hget, ?_⟩
    intro hback
    cases hback with
    | array hnone _ _ => exact hnone _ hfound
  | _ => cases hleaf

/-- A leaf falls back just when there is nothing to use for it; else it is settled. -/
theorem fallsBack_iff_unusable :
    (FallsBack strings lists dataset place leaf ↔
      ∀ found, dataset.follow? place = some found → leaf.fits found = false) ∧
    (¬ FallsBack strings lists dataset place leaf → Settled strings lists place leaf) := by
  by_cases h : ∀ found, dataset.follow? place = some found → leaf.fits found = false
  · have hback := fallsBack_of_unusable hstrings hlists hplace hne hnames hleaf h
    exact ⟨iff_of_true hback h, fun hnot => absurd hback hnot⟩
  · obtain ⟨found, hfound, hfits⟩ : ∃ found, dataset.follow? place = some found ∧
        leaf.fits found = true := by simpa using h
    obtain ⟨hsettled, hnot⟩ :=
      settled_of_fits hstrings hlists hplace hne hnames hleaf hfound hfits
    exact ⟨iff_of_false hnot h, fun _ => hsettled⟩

end

/-! ## Reports -/

/-- The report on a dataset blames a place or one above it if and only if there is nothing to use in
the dataset at the place. -/
theorem Report.exists_blames_iff {schema dataset leaf : Json} {place : List String}
    (hschema : schema.legible = true) (hplace : schema.follow? place = some leaf) :
    (∃ above, above <+: place ∧
        (Report.of schema dataset).Blames (KeyPath.shown (".".intercalate above))) ↔
      ∀ found, dataset.follow? place = some found → leaf.fits found = false := by
  rw [← exists_gap_iff hschema hplace]
  have hnames := Json.isName_of_follow? hschema hplace
  refine exists_congr fun above => and_congr_right fun habove => ?_
  exact Report.blames_iff hschema fun key hkey => hnames key (habove.subset hkey)

theorem Report.not_blames {report : Report} {shown : String} (herrors : report.errors = [])
    (hmissing : ∀ path, "Missing key: " ++ path ∉ report.warnings.map Finding.message) :
    ¬ report.Blames shown := by
  rintro (h | ⟨expected, found, h⟩)
  · exact hmissing _ h
  · rw [herrors] at h
    cases h

/-- **A report predicts the accessors.** A string or list of the schema falls back if and only if
the report says that a key is missing, or a shape is wrong, at its path or at that of a value it is
in; the dataset has no value for it then. All others are the same in both modes. Where the report
has no error and misses no key, none falls back. -/
theorem Report.blames_iff_fallsBack (schema : Schema) (hschema : schema.value.legible = true)
    (dataset : Json) :
    ∃ (strings : FallbackMode → Strings) (lists : FallbackMode → Lists),
      (∀ mode, Strings.build schema.value (some dataset) "" mode = .ok (strings mode)) ∧
      (∀ mode, Lists.build schema.value (some dataset) "" mode = .ok (lists mode)) ∧
      (∀ place leaf, schema.value.follow? place = some leaf → leaf.isLeaf = true →
        (FallsBack strings lists dataset place leaf ↔
          ∃ above, above <+: place ∧
            (Report.of schema.value dataset).Blames (KeyPath.shown (".".intercalate above))) ∧
        (FallsBack strings lists dataset place leaf →
          ∀ found, dataset.follow? place = some found → leaf.fits found = false) ∧
        (¬ FallsBack strings lists dataset place leaf → Settled strings lists place leaf)) ∧
      ((Report.of schema.value dataset).errors = [] →
        (∀ path, "Missing key: " ++ path ∉
          (Report.of schema.value dataset).warnings.map Finding.message) →
        ∀ place leaf, schema.value.follow? place = some leaf → leaf.isLeaf = true →
          ¬ FallsBack strings lists dataset place leaf) := by
  choose strings hstrings using fun mode => schema.exists_build (Leaf.rule mode) (some dataset)
  choose lists hlists using fun mode => schema.exists_build (Lists.rule mode) (some dataset)
  have hleaves : ∀ place leaf, schema.value.follow? place = some leaf → leaf.isLeaf = true →
      (FallsBack strings lists dataset place leaf ↔
        ∀ found, dataset.follow? place = some found → leaf.fits found = false) ∧
      (¬ FallsBack strings lists dataset place leaf → Settled strings lists place leaf) := by
    intro place leaf hplace hleaf
    have hne : place ≠ [] := by
      rintro rfl
      obtain ⟨fields, hfields⟩ := schema.isObject
      rw [hfields] at hplace
      cases hplace
      cases hleaf
    exact fallsBack_iff_unusable hstrings hlists hplace hne
      (Json.isName_of_follow? hschema hplace) hleaf
  refine ⟨strings, lists, hstrings, hlists, ?_, ?_⟩
  · intro place leaf hplace hleaf
    obtain ⟨hiff, hsettled⟩ := hleaves place leaf hplace hleaf
    exact ⟨hiff.trans (Report.exists_blames_iff hschema hplace).symm, hiff.1, hsettled⟩
  · intro herrors hmissing place leaf hplace hleaf hback
    have hunusable := (hleaves place leaf hplace hleaf).1.1 hback
    obtain ⟨above, -, hblames⟩ := (Report.exists_blames_iff hschema hplace).2 hunusable
    exact Report.not_blames herrors hmissing hblames

def Schema.home : Schema :=
  ⟨.obj [("title", .str "Home"), ("menu", .obj [("back", .str "Back")]),
    ("tags", .arr [.str "new"])], rfl⟩

/-- A draft of its translation, with a text in the place of the menu and without tags. -/
def Schema.homeDraft : Json := .obj [("title", .num (.int 1)), ("menu", .str "Menu")]

/-- Under the draft the entry of the menu and the tags fall back. -/
theorem Report.blames_iff_fallsBack_home :
    Schema.home.value.legible = true ∧
      ∃ (strings : FallbackMode → Strings) (lists : FallbackMode → Lists),
        (∀ mode, Strings.build Schema.home.value (some Schema.homeDraft) "" mode =
          .ok (strings mode)) ∧
        (∀ mode, Lists.build Schema.home.value (some Schema.homeDraft) "" mode =
          .ok (lists mode)) ∧
        FallsBack strings lists Schema.homeDraft ["menu", "back"] (.str "Back") ∧
        FallsBack strings lists Schema.homeDraft ["tags"] (.arr [.str "new"]) := by
  have hlegible : Schema.home.value.legible = true := by decide
  obtain ⟨strings, lists, hstrings, hlists, hleaves, -⟩ :=
    Report.blames_iff_fallsBack Schema.home hlegible Schema.homeDraft
  refine ⟨hlegible, strings, lists, hstrings, hlists, ?_, ?_⟩
  · exact (hleaves _ _ rfl rfl).1.2 ⟨["menu"], by decide, .inr ⟨.object, .string, by decide⟩⟩
  · exact (hleaves _ _ rfl rfl).1.2 ⟨["tags"], by decide, .inl (by decide)⟩

end Phrasebook
