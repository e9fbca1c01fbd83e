import Phrasebook.Proofs.Places
import Phrasebook.Validation

/-!
# The gaps of a dataset

A gap is a place where a dataset first fails a schema: what the dataset has there does not fit, or
the key is missing from an object. A report blames the gaps and no other place (`blamed_iff`), and
its texts say so: from a report on a legible schema the places can be read off
(`Report.blames_iff`).
-/

namespace Phrasebook

/-- A value of a dataset that can stand for a value of the schema. Scalars stand for strings. -/
def Json.fits : (schema data : Json) → Bool
  | .obj _, .obj _ | .arr _, .arr _ => true
  | .str _, .str _ | .str _, .num _ | .str _, .bool _ | .str _, .null => true
  | _, _ => false

/-- A place where the dataset fails the schema, and does not fail it above. -/
inductive Gap : (schema data : Json) → (place : List String) → Prop where
  | mismatch {schema data : Json} : schema.fits data = false → Gap schema data []
  | missing {fields values : Fields} {key : String} {value : Json} :
      (key, value) ∈ fields → values.lookup key = none → Gap (.obj fields) (.obj values) [key]
  | inside {fields values : Fields} {key : String} {value found : Json} {place : List String} :
      (key, value) ∈ fields → values.lookup key = some found → Gap value found place →
      Gap (.obj fields) (.obj values) (key :: place)

variable {schema data value : Json} {fields values : Fields} {place : List String}
  {key path target : String} {finding : Finding}

theorem Gap.isName (h : Gap schema data place) (hschema : schema.legible = true) :
    ∀ key ∈ place, KeyPath.isName key = true := by
  induction h with
  | mismatch _ => simp
  | missing hmem _ => simpa using ((Json.legible_obj_iff.1 hschema).2 _ hmem).1
  | inside hmem _ _ ih =>
    obtain ⟨hname, hvalue⟩ := (Json.legible_obj_iff.1 hschema).2 _ hmem
    simpa using ⟨hname, ih hvalue⟩

theorem gap_iff_of_not_fits (h : schema.fits data = false) :
    Gap schema data place ↔ place = [] := by
  constructor
  · intro hgap
    cases hgap with
    | mismatch _ => rfl
    | missing _ _ => cases h
    | inside _ _ _ => cases h
  · rintro rfl
    exact .mismatch h

theorem not_gap_of_fits (hfits : schema.fits data = true) (hleaf : schema.isLeaf = true) :
    ¬ Gap schema data place := by
  intro hgap
  cases hgap with
  | mismatch h => cases hfits.symm.trans h
  | missing _ _ => cases hleaf
  | inside _ _ _ => cases hleaf

/-- A gap at or below a field of an object. -/
inductive FieldGap (values : Fields) (key : String) (value : Json) : List String → Prop where
  | missing : values.lookup key = none → FieldGap values key value []
  | inside {found : Json} {place : List String} :
      values.lookup key = some found → Gap value found place → FieldGap values key value place

theorem gap_obj_iff :
    Gap (.obj fields) (.obj values) place ↔
      ∃ field ∈ fields, ∃ rest, FieldGap values field.1 field.2 rest ∧ field.1 :: rest = place := by
  constructor
  · intro h
    cases h with
    | mismatch h => cases h
    | missing hmem hnone => exact ⟨_, hmem, [], .missing hnone, rfl⟩
    | inside hmem hfound h => exact ⟨_, hmem, _, .inside hfound h, rfl⟩
  · rintro ⟨⟨key, value⟩, hmem, rest, h, rfl⟩
    cases h with
    | missing hnone => exact .missing hmem hnone
    | inside hfound h => exact .inside hmem hfound h

theorem fieldGap_iff_of_none (h : values.lookup key = none) :
    FieldGap values key value place ↔ place = [] := by
  constructor
  · intro hgap
    cases hgap with
    | missing _ => rfl
    | inside hfound _ => cases h.symm.trans hfound
  · rintro rfl
    exact .missing h

theorem fieldGap_iff_of_some {found : Json} (h : values.lookup key = some found) :
    FieldGap values key value place ↔ Gap value found place := by
  constructor
  · intro hgap
    cases hgap with
    | missing hnone => cases h.symm.trans hnone
    | inside hfound hgap =>
      cases h.symm.trans hfound
      exact hgap
  · exact .inside h

/-! ## Findings -/

/-- The finding says that the dataset has nothing to use at `path`. -/
def Finding.Blames (path : String) : Finding → Prop
  | .missingKey p => p = path
  | .shapeMismatch p _ _ => p = path
  | _ => False

theorem compareAt_of_not_fits (h : schema.fits data = false) (path : String) :
    compareAt path schema data = [.shapeMismatch path schema.kind data.kind] := by
  cases schema <;> cases data <;> first | rfl | cases h

theorem not_blames_of_mem_compareTexts {base localized : String}
    (h : finding ∈ compareTexts path base localized) : ¬ finding.Blames target := by
  unfold compareTexts at h
  rcases List.mem_append.1 h with h | h <;> split at h <;> simp at h <;> subst h <;> exact id

theorem not_blames_of_mem_extraKeys (h : finding ∈ extraKeys path fields values) :
    ¬ finding.Blames target := by
  obtain ⟨field, -, rfl⟩ := List.mem_map.1 h
  exact id

theorem not_blames_of_fits (hfits : schema.fits data = true) (hleaf : schema.isLeaf = true)
    (h : finding ∈ compareAt path schema data) : ¬ finding.Blames target := by
  cases schema with
  | str base =>
    cases data with
    | str localized => exact not_blames_of_mem_compareTexts h
    | null | bool _ | num _ =>
      rw [List.mem_singleton.1 h]
      exact id
    | arr _ | obj _ => cases hfits
  | arr _ =>
    cases data with
    | arr _ => cases h
    | _ => cases hfits
  | _ => cases hleaf

theorem blamed_iff_of_not_fits (h : schema.fits data = false) (path : String) :
    (∃ finding ∈ compareAt path schema data, finding.Blames target) ↔
      ∃ place, Gap schema data place ∧ KeyPath.below path place = target := by
  simp [compareAt_of_not_fits h, gap_iff_of_not_fits h, Finding.Blames, KeyPath.below]

theorem blamed_iff_of_leaf (hleaf : schema.isLeaf = true) (data : Json) (path : String) :
    (∃ finding ∈ compareAt path schema data, finding.Blames target) ↔
      ∃ place, Gap schema data place ∧ KeyPath.below path place = target := by
  cases hfits : schema.fits data with
  | false => exact blamed_iff_of_not_fits hfits path
  | true =>
    constructor
    · rintro ⟨finding, hmem, hblames⟩
      exact absurd hblames (not_blames_of_fits hfits hleaf hmem)
    · rintro ⟨place, hgap, -⟩
      exact absurd hgap (not_gap_of_fits hfits hleaf)

mutual

/-- A report blames the gaps. -/
theorem blamed_iff {target : String} : ∀ (schema data : Json) (path : String),
    (∃ finding ∈ compareAt path schema data, finding.Blames target) ↔
      ∃ place, Gap schema data place ∧ KeyPath.below path place = target
  | .obj fields, data, path => by
    cases data with
    | obj values =>
      have hextra : ¬ ∃ finding ∈ extraKeys path fields values, finding.Blames target := by
        rintro ⟨finding, hmem, hblames⟩
        exact not_blames_of_mem_extraKeys hmem hblames
      simp only [compareAt, List.mem_append, or_and_right, exists_or, hextra, or_false,
        blamedFields_iff fields values path, gap_obj_iff]
      constructor
      · rintro ⟨field, hmem, rest, hgap, hpath⟩
        exact ⟨_, ⟨field, hmem, rest, hgap, rfl⟩, hpath⟩
      · rintro ⟨place, ⟨field, hmem, rest, hgap, rfl⟩, hpath⟩
        exact ⟨field, hmem, rest, hgap, hpath⟩
    | _ => exact blamed_iff_of_not_fits rfl path
  | .str _, data, path | .arr _, data, path => blamed_iff_of_leaf rfl data path
  | .null, data, path | .bool _, data, path | .num _, data, path =>
    blamed_iff_of_not_fits (by cases data <;> rfl) path

theorem blamedFields_iff {target : String} : ∀ (fields : List (String × Json)) (values : Fields)
    (path : String),
    (∃ finding ∈ compareFields path fields values, finding.Blames target) ↔
      ∃ field ∈ fields, ∃ rest, FieldGap values field.1 field.2 rest ∧
        KeyPath.below path (field.1 :: rest) = target
  | [], _, _ => by simp [compareFields]
  | (key, value) :: rest, values, path => by
    simp only [compareFields, List.mem_append, List.mem_cons, or_and_right, exists_or,
      exists_eq_left, blamedFields_iff rest values path]
    refine or_congr ?_ Iff.rfl
    cases hlookup : values.lookup key with
    | none =>
      have hget : values.get? key = none := hlookup
      simp [hget, fieldGap_iff_of_none hlookup, Finding.Blames, KeyPath.below]
    | some found =>
      have hget : values.get? key = some found := hlookup
      simp only [hget, fieldGap_iff_of_some hlookup, KeyPath.below_cons]
      exact blamed_iff value found (KeyPath.join path key)

end

/-! ## Leaves without a value -/

theorem gap_nil_iff : Gap schema data [] ↔ schema.fits data = false := by
  constructor
  · intro h
    cases h with
    | mismatch h => exact h
  · exact .mismatch

/-- A key of a legible schema leads to the gaps of one field. -/
theorem gap_cons_iff {found : Json} (hfields : (Json.obj fields).legible = true)
    (hvalue : fields.lookup key = some value) (hfound : values.lookup key = some found) :
    Gap (.obj fields) (.obj values) (key :: place) ↔ Gap value found place := by
  rw [gap_obj_iff]
  constructor
  · rintro ⟨⟨name, other⟩, hmem, rest, hgap, heq⟩
    cases heq
    have hother := Json.lookup_of_mem (Json.legible_obj_iff.1 hfields).1 hmem
    cases hvalue.symm.trans hother
    exact (fieldGap_iff_of_some hfound).1 hgap
  · exact fun hgap => ⟨_, Json.mem_of_lookup hvalue, _, .inside hfound hgap, rfl⟩

/-- Where nothing in a dataset fits what the schema has, there is a gap, or there is one above. -/
theorem exists_gap_of_unusable (h : schema.follow? place = some value)
    (hnone : ∀ found, data.follow? place = some found → value.fits found = false) :
    ∃ above, above <+: place ∧ Gap schema data above := by
  induction place generalizing schema data with
  | nil =>
    cases h
    exact ⟨[], List.nil_prefix, .mismatch (hnone data rfl)⟩
  | cons key rest ih =>
    obtain ⟨child, hchild, hrest⟩ := Option.bind_eq_some_iff.1 h
    obtain ⟨fields, rfl, hlookup⟩ := Json.eq_obj_of_get? hchild
    have hmem := Json.mem_of_lookup hlookup
    cases data with
    | obj values =>
      cases hfound : values.lookup key with
      | none => exact ⟨[key], by simp, .missing hmem hfound⟩
      | some found =>
        have hunusable : ∀ deeper, found.follow? rest = some deeper → value.fits deeper = false :=
          fun deeper hdeeper => hnone deeper (by
            rw [Json.follow?_cons, Json.get?_obj, hfound]
            exact hdeeper)
        obtain ⟨above, habove, hgap⟩ := ih hrest hunusable
        exact ⟨key :: above, List.prefix_cons_iff.2 (.inr ⟨above, rfl, habove⟩),
          .inside hmem hfound hgap⟩
    | _ => exact ⟨[], List.nil_prefix, .mismatch rfl⟩

/-- A dataset has no value that fits at a place of a legible schema if and only if the place is a
gap or there is one above it. -/
theorem exists_gap_iff (hschema : schema.legible = true) (h : schema.follow? place = some value) :
    (∃ above, above <+: place ∧ Gap schema data above) ↔
      ∀ found, data.follow? place = some found → value.fits found = false := by
  refine ⟨?_, exists_gap_of_unusable h⟩
  rintro ⟨above, habove, hgap⟩
  induction place generalizing schema data above with
  | nil =>
    cases h
    obtain rfl := List.prefix_nil.1 habove
    rintro found hfound
    cases hfound
    exact gap_nil_iff.1 hgap
  | cons key rest ih =>
    obtain ⟨child, hchild, hrest⟩ := Option.bind_eq_some_iff.1 h
    obtain ⟨fields, rfl, hlookup⟩ := Json.eq_obj_of_get? hchild
    have hlegible := ((Json.legible_obj_iff.1 hschema).2 _ (Json.mem_of_lookup hlookup)).2
    intro deeper hdeeper
    obtain ⟨found, hgiven, hinside⟩ := Option.bind_eq_some_iff.1 hdeeper
    obtain ⟨values, rfl, hfound⟩ := Json.eq_obj_of_get? hgiven
    rcases List.prefix_cons_iff.1 habove with rfl | ⟨below, rfl, hbelow⟩
    · cases gap_nil_iff.1 hgap
    · exact ih hlegible hrest below hbelow ((gap_cons_iff hschema hlookup hfound).1 hgap) deeper
        hinside

/-! ## The texts of a report -/

theorem Kind.colon_notMem_word (kind : Kind) : ':' ∉ kind.word.toList := by
  cases kind <;> decide

theorem eq_of_append_last {c : Char} {s t u v : List Char} (hu : c ∉ u) (hv : c ∉ v)
    (h : s ++ c :: u = t ++ c :: v) : s = t := by
  rcases List.append_eq_append_iff.1 h with ⟨w, rfl, hw⟩ | ⟨w, rfl, hw⟩
  · cases w with
    | nil => simp
    | cons d w => exact absurd (by rw [(List.cons.inj hw).2]; simp) hu
  · cases w with
    | nil => simp
    | cons d w => exact absurd (by rw [(List.cons.inj hw).2]; simp) hv

namespace Finding

/-- The texts of different kinds of findings begin with different letters. -/
def initial : Finding → Char
  | missingKey _ => 'M'
  | extraKey _ => 'E'
  | scalar _ _ => 'N'
  | placeholderDrift _ _ _ => 'P'
  | tagDrift _ _ _ => 'T'
  | shapeMismatch _ _ _ => 'S'

theorem head?_message (finding : Finding) :
    finding.message.toList.head? = some finding.initial := by
  cases finding <;> unfold message initial <;> simp [drift]

theorem eq_of_missing_text (h : finding.message = "Missing key: " ++ path) :
    finding = .missingKey path := by
  have hinitial := head?_message finding
  rw [h] at hinitial
  cases finding with
  | missingKey p => rw [(String.append_right_inj _).1 h]
  | _ => simp [initial] at hinitial

theorem eq_of_mismatch_text {expected found : Kind}
    (h : finding.message =
      "Shape mismatch at " ++ path ++ ": expected " ++ expected.word ++ ", found " ++ found.word) :
    ∃ p e f, finding = .shapeMismatch p e f ∧ KeyPath.shown p = path := by
  have hinitial := head?_message finding
  rw [h] at hinitial
  cases finding with
  | shapeMismatch p e f =>
    refine ⟨p, e, f, rfl, ?_⟩
    unfold message at h
    simp only [String.append_assoc, String.append_right_inj] at h
    have htail : ∀ a b : Kind, ':' ∉ (" expected " ++ (a.word ++ (", found " ++ b.word))).toList :=
      fun a b => by simp [Kind.colon_notMem_word]
    have hcolon : ∀ s : String, (": expected " ++ s).toList = ':' :: (" expected " ++ s).toList :=
      fun s => by simp
    have hlist := congrArg String.toList h
    rw [String.toList_append, String.toList_append (s := path), hcolon, hcolon] at hlist
    exact String.toList_inj.1 (eq_of_append_last (htail _ _) (htail _ _) hlist)
  | _ => simp [initial] at hinitial

end Finding

/-- The report has a text that says of the path shown as `shown` that the key is missing there, or
that the shape is wrong. -/
def Report.Blames (report : Report) (shown : String) : Prop :=
  "Missing key: " ++ shown ∈ report.warnings.map Finding.message ∨
    ∃ expected found : Kind,
      "Shape mismatch at " ++ shown ++ ": expected " ++ expected.word ++ ", found " ++ found.word ∈
        report.errors.map Finding.message

theorem Report.blames_of_mem {report : Report} (hmem : finding ∈ report.findings)
    (h : finding.Blames path) (hpath : path ≠ "" ∨ finding.isError = true) :
    report.Blames (KeyPath.shown path) := by
  cases finding with
  | missingKey p =>
    obtain rfl : p = path := h
    have hwarning : Finding.missingKey p ∈ report.warnings := List.mem_filter.2 ⟨hmem, rfl⟩
    have hne : p ≠ "" := hpath.resolve_right nofun
    have hshown : KeyPath.shown p = p := by simp [KeyPath.shown, hne]
    rw [Report.Blames, hshown]
    exact .inl (List.mem_map_of_mem hwarning)
  | shapeMismatch p e f =>
    obtain rfl : p = path := h
    have herror : Finding.shapeMismatch p e f ∈ report.errors := List.mem_filter.2 ⟨hmem, rfl⟩
    exact .inr ⟨e, f, List.mem_map_of_mem herror⟩
  | _ => cases h

theorem Report.exists_of_blames {report : Report} {shown : String} (h : report.Blames shown)
    (hshown : shown ≠ "") :
    ∃ finding ∈ report.findings, ∃ path, finding.Blames path ∧ KeyPath.shown path = shown := by
  rcases h with h | ⟨expected, found, h⟩
  · obtain ⟨finding, hmem, htext⟩ := List.mem_map.1 h
    cases Finding.eq_of_missing_text htext
    exact ⟨_, (List.mem_filter.1 hmem).1, shown, rfl, by simp [KeyPath.shown, hshown]⟩
  · obtain ⟨finding, hmem, htext⟩ := List.mem_map.1 h
    obtain ⟨p, e, f, rfl, hp⟩ := Finding.eq_of_mismatch_text htext
    exact ⟨_, (List.mem_filter.1 hmem).1, p, rfl, hp⟩

/-- The report on a dataset blames a place of a legible schema if and only if it is a gap. -/
theorem Report.blames_iff (hschema : schema.legible = true)
    (hplace : ∀ key ∈ place, KeyPath.isName key = true) :
    (Report.of schema data).Blames (KeyPath.shown (".".intercalate place)) ↔
      Gap schema data place := by
  have hroot : ∀ names : List String, (∀ key ∈ names, KeyPath.isName key = true) →
      KeyPath.below "" names = ".".intercalate names := fun names h =>
    KeyPath.below_root fun key hkey => (KeyPath.isName_iff.1 (h key hkey)).1
  constructor
  · intro h
    have hshown : KeyPath.shown (".".intercalate place) ≠ "" := by
      unfold KeyPath.shown
      split <;> simp_all
    obtain ⟨finding, hmem, path, hblames, hpath⟩ := Report.exists_of_blames h hshown
    obtain ⟨other, hgap, rfl⟩ := (blamed_iff schema data "").1 ⟨finding, hmem, hblames⟩
    have hother := hgap.isName hschema
    rw [hroot other hother] at hpath
    rwa [← KeyPath.eq_of_shown hother hplace hpath]
  · intro hgap
    rw [← hroot place hplace]
    obtain ⟨finding, hmem, hblames⟩ := (blamed_iff schema data "").2 ⟨place, hgap, rfl⟩
    refine Report.blames_of_mem hmem hblames ?_
    by_cases hne : place = []
    · subst hne
      rw [compareAt_of_not_fits (gap_nil_iff.1 hgap) "", List.mem_singleton] at hmem
      exact .inr (by rw [hmem]; rfl)
    · rw [hroot place hplace]
      exact .inl (KeyPath.intercalate_ne_root hplace hne).1

end Phrasebook
