import Phrasebook.Proofs.Validation.Gaps
import Phrasebook.Registry

/-!
# Datasets of the schema's shape

A dataset mirrors a schema if it has the keys of the schema and no others, and at each a value of
the same kind. A report has nothing to say about the shape of such a dataset; only its texts may
drift (`isDrift_of_mirroredBy`). What a loader delivers may be taken for a module, though, and then
a report is about another dataset: that happens just where the schema has an object under the name
`default`, and such a report never approves of the shape (`exists_not_isDrift`).
-/

namespace Phrasebook

namespace Json

mutual

/-- The value has the keys of the schema and no others, and at each a value of the same kind. -/
def mirroredBy (schema data : Json) : Bool :=
  match schema with
  | obj fields =>
    match data with
    | obj values =>
      mirroredBelow fields values && values.all fun field => (fields.lookup field.1).isSome
    | _ => false
  | str _ =>
    match data with
    | str _ => true
    | _ => false
  | arr _ =>
    match data with
    | arr _ => true
    | _ => false
  | null | bool _ | num _ => false
termination_by structural schema

def mirroredBelow (fields : List (String × Json)) (values : Fields) : Bool :=
  match fields with
  | [] => true
  | (key, value) :: rest =>
    (match values.lookup key with
      | some found => mirroredBy value found
      | none => false)
    && mirroredBelow rest values
termination_by structural fields

end

variable {schema data value found : Json} {fields values : Fields} {key : String}
  {place : List String}

theorem mirroredBelow_iff {fields : Fields} :
    mirroredBelow fields values = true ↔
      ∀ field ∈ fields, ∃ found, values.lookup field.1 = some found ∧
        field.2.mirroredBy found = true := by
  induction fields with
  | nil => simp [mirroredBelow]
  | cons field rest ih =>
    obtain ⟨key, value⟩ := field
    rw [mirroredBelow, Bool.and_eq_true, ih, List.forall_mem_cons]
    refine and_congr ?_ Iff.rfl
    cases values.lookup key <;> simp

theorem mirroredBy_obj_iff :
    (obj fields).mirroredBy (obj values) = true ↔
      (∀ field ∈ fields, ∃ found, values.lookup field.1 = some found ∧
        field.2.mirroredBy found = true) ∧
      ∀ field ∈ values, ∃ value, fields.lookup field.1 = some value := by
  rw [mirroredBy, Bool.and_eq_true, mirroredBelow_iff, List.all_eq_true]
  simp only [Option.isSome_iff_exists]

theorem eq_obj_of_mirroredBy (h : schema.mirroredBy (obj values) = true) :
    ∃ fields, schema = obj fields := by
  cases schema with
  | obj fields => exact ⟨fields, rfl⟩
  | _ => cases h

/-- What the dataset has at a place mirrors what the schema has there. -/
theorem exists_of_mirroredBy (h : schema.mirroredBy data = true)
    (hfound : data.follow? place = some found) :
    ∃ value, schema.follow? place = some value ∧ value.mirroredBy found = true := by
  induction place generalizing schema data with
  | nil =>
    cases hfound
    exact ⟨schema, rfl, h⟩
  | cons key rest ih =>
    obtain ⟨child, hchild, hrest⟩ := Option.bind_eq_some_iff.1 hfound
    obtain ⟨values, rfl, hlookup⟩ := eq_obj_of_get? hchild
    obtain ⟨fields, rfl⟩ := eq_obj_of_mirroredBy h
    obtain ⟨hschema, hdata⟩ := mirroredBy_obj_iff.1 h
    obtain ⟨value, hvalue⟩ := hdata _ (mem_of_lookup hlookup)
    obtain ⟨other, hother, hmirrored⟩ := hschema _ (mem_of_lookup hvalue)
    cases hlookup.symm.trans hother
    obtain ⟨deeper, hdeeper, hdone⟩ := ih hmirrored hrest
    refine ⟨deeper, ?_, hdone⟩
    rw [follow?_cons, get?_obj, hvalue]
    exact hdeeper

end Json

/-! ## Reports -/

namespace Finding

/-- The finding is about texts and not about the shape. -/
def isDrift : Finding → Bool
  | placeholderDrift _ _ _ | tagDrift _ _ _ => true
  | _ => false

theorem isError_of_isDrift {finding : Finding} (h : finding.isDrift = true) :
    finding.isError = false := by
  cases finding <;> first | rfl | cases h

theorem not_blames_of_isDrift {finding : Finding} {path : String} (h : finding.isDrift = true) :
    ¬ finding.Blames path := by
  cases finding with
  | placeholderDrift _ _ _ => exact id
  | tagDrift _ _ _ => exact id
  | _ => cases h

end Finding

theorem isDrift_of_mem_compareTexts {path base localized : String} {finding : Finding}
    (h : finding ∈ compareTexts path base localized) : finding.isDrift = true := by
  unfold compareTexts at h
  rcases List.mem_append.1 h with h | h <;> split at h <;> simp at h <;> subst h <;> rfl

theorem extraKeys_eq_nil {path : String} {fields values : Fields}
    (h : ∀ field ∈ values, ∃ value, fields.lookup field.1 = some value) :
    extraKeys path fields values = [] := by
  unfold extraKeys
  rw [List.map_eq_nil_iff, List.filter_eq_nil_iff]
  intro field hmem
  obtain ⟨value, hvalue⟩ := h field hmem
  have hget : fields.get? field.1 = some value := hvalue
  simp [hget]

mutual

/-- A report has nothing to say about the shape of a dataset that mirrors the schema. -/
theorem isDrift_of_mirroredBy : ∀ (schema data : Json) (path : String),
    schema.mirroredBy data = true →
    ∀ finding ∈ compareAt path schema data, finding.isDrift = true
  | .obj fields, data, path, h => by
    cases data with
    | obj values =>
      obtain ⟨hfields, hvalues⟩ := Json.mirroredBy_obj_iff.1 h
      rw [compareAt, extraKeys_eq_nil hvalues, List.append_nil]
      exact isDrift_of_mirroredBelow fields values path hfields
    | _ => cases h
  | .str base, data, path, h => by
    cases data with
    | str localized => exact fun _ => isDrift_of_mem_compareTexts
    | _ => cases h
  | .arr items, data, path, h => by
    cases data with
    | arr _ => exact fun _ hmem => absurd hmem List.not_mem_nil
    | _ => cases h
  | .null, _, _, h | .bool _, _, _, h | .num _, _, _, h => nomatch h

theorem isDrift_of_mirroredBelow : ∀ (fields : List (String × Json)) (values : Fields)
    (path : String),
    (∀ field ∈ fields, ∃ found, values.lookup field.1 = some found ∧
      field.2.mirroredBy found = true) →
    ∀ finding ∈ compareFields path fields values, finding.isDrift = true
  | [], _, _, _, _, hmem => absurd hmem List.not_mem_nil
  | (key, value) :: rest, values, path, h, finding, hmem => by
    obtain ⟨⟨found, hfound, hmirrored⟩, hrest⟩ := List.forall_mem_cons.1 h
    have hget : values.get? key = some found := hfound
    rw [compareFields, List.mem_append] at hmem
    simp only [hget] at hmem
    rcases hmem with hmem | hmem
    · exact isDrift_of_mirroredBy value found _ hmirrored finding hmem
    · exact isDrift_of_mirroredBelow rest values path hrest finding hmem

end

theorem Report.hasErrors_of_isDrift {report : Report}
    (h : ∀ finding ∈ report.findings, finding.isDrift = true) : report.hasErrors = false := by
  have hnone : report.errors = [] := by
    unfold errors
    rw [List.filter_eq_nil_iff]
    intro finding hmem
    simp [Finding.isError_of_isDrift (h finding hmem)]
  unfold hasErrors
  rw [hnone]
  rfl

/-! ## Modules -/

section Modules

variable {schema data value found : Json} {fields : Fields} {place : List String}

/-- Only a value with an object under the name `default` is a module. -/
theorem unwrapModule_eq_self (h : ∀ fields, value.get? "default" ≠ some (.obj fields)) :
    unwrapModule value = value := by
  unfold unwrapModule
  split
  · next fields hget => exact absurd hget (h fields)
  · rfl

theorem Json.get?_ne_obj_of_mirroredBy {key : String} (h : schema.mirroredBy data = true)
    (hschema : ∀ fields, schema.get? key ≠ some (.obj fields)) (values : Fields) :
    data.get? key ≠ some (.obj values) := by
  intro hget
  have hfollow : data.follow? [key] = some (.obj values) := by
    rw [Json.follow?_cons, hget]
    rfl
  obtain ⟨value, hvalue, hmirrored⟩ := Json.exists_of_mirroredBy h hfollow
  obtain ⟨fields, rfl⟩ := Json.eq_obj_of_mirroredBy hmirrored
  rw [Json.follow?_cons] at hvalue
  obtain ⟨child, hchild, hself⟩ := Option.bind_eq_some_iff.1 hvalue
  cases hself
  exact hschema fields hchild

/-- A dataset without gaps has something that fits wherever the schema has something. -/
theorem exists_of_not_gap (h : ∀ place, ¬ Gap schema data place)
    (hvalue : schema.follow? place = some value) :
    ∃ found, data.follow? place = some found ∧ value.fits found = true := by
  by_cases hany : ∃ found, data.follow? place = some found ∧ value.fits found = true
  · exact hany
  · have hnone : ∀ found, data.follow? place = some found → value.fits found = false :=
      fun found hfound => Bool.eq_false_iff.2 fun hfits => hany ⟨found, hfound, hfits⟩
    obtain ⟨above, -, hgap⟩ := exists_gap_of_unusable hvalue hnone
    exact absurd hgap (h above)

theorem Json.length_lt_sizeOf (h : value.follow? place = some found) :
    place.length < sizeOf value := by
  induction place generalizing value with
  | nil =>
    rw [List.length_nil]
    cases value <;> simp only [null.sizeOf_spec, bool.sizeOf_spec, num.sizeOf_spec,
      str.sizeOf_spec, arr.sizeOf_spec, obj.sizeOf_spec] <;> omega
  | cons key rest ih =>
    obtain ⟨child, hchild, hrest⟩ := Option.bind_eq_some_iff.1 h
    obtain ⟨fields, rfl, hlookup⟩ := eq_obj_of_get? hchild
    have hlt := ih hrest
    have hfield := List.sizeOf_lt_of_mem (mem_of_lookup hlookup)
    simp only [Prod.mk.sizeOf_spec, obj.sizeOf_spec, List.length_cons] at hfield ⊢
    omega

theorem Json.eq_obj_of_fits {values : Fields} (h : (Json.obj values).fits found = true) :
    ∃ fields, found = .obj fields := by
  cases found with
  | obj fields => exact ⟨fields, rfl⟩
  | _ => cases h

/-- A dataset that has the shape of a schema with an object under the name `default` is taken for a
module. -/
theorem exists_unwrapModule (h : schema.mirroredBy data = true)
    (hdefault : schema.get? "default" = some (.obj fields)) :
    ∃ values, data.get? "default" = some (.obj values) ∧ unwrapModule data = .obj values ∧
      (Json.obj fields).mirroredBy (.obj values) = true := by
  obtain ⟨schemaFields, rfl, hlookup⟩ := Json.eq_obj_of_get? hdefault
  cases data with
  | obj dataFields =>
    obtain ⟨found, hfound, hmirrored⟩ :=
      (Json.mirroredBy_obj_iff.1 h).1 _ (Json.mem_of_lookup hlookup)
    cases found with
    | obj values =>
      have hget : (Json.obj dataFields).get? "default" = some (.obj values) := hfound
      refine ⟨values, hget, ?_, hmirrored⟩
      unfold unwrapModule
      rw [hget]
    | _ => cases hmirrored
  | _ => cases h

/-- What is taken from such a dataset does not have the shape of the schema. -/
theorem exists_not_isDrift (h : schema.mirroredBy data = true)
    (hdefault : schema.get? "default" = some (.obj fields)) (path : String) :
    ∃ finding ∈ compareAt path schema (unwrapModule data), finding.isDrift = false := by
  obtain ⟨values, -, hvalues, hmirrored⟩ := exists_unwrapModule h hdefault
  rw [hvalues]
  cases hall : (compareAt path schema (.obj values)).all Finding.isDrift with
  | false => simpa using hall
  | true =>
    have hgaps : ∀ place, ¬ Gap schema (.obj values) place := by
      intro place hgap
      obtain ⟨finding, hmem, hblames⟩ :=
        (blamed_iff schema (.obj values) path).2 ⟨place, hgap, rfl⟩
      exact Finding.not_blames_of_isDrift (List.all_eq_true.1 hall finding hmem) hblames
    -- So the schema has an object under `default` again and again, deeper than it goes.
    have hdeep : ∀ n, ∃ fields,
        schema.follow? (List.replicate n "default") = some (.obj fields) := by
      intro n
      induction n with
      | zero =>
        obtain ⟨schemaFields, rfl, -⟩ := Json.eq_obj_of_get? hdefault
        exact ⟨schemaFields, rfl⟩
      | succ n ih =>
        obtain ⟨above, habove⟩ := ih
        obtain ⟨found, hfound, hfits⟩ := exists_of_not_gap hgaps habove
        obtain ⟨inner, rfl⟩ := Json.eq_obj_of_fits hfits
        obtain ⟨below, hbelow, hobj⟩ := Json.exists_of_mirroredBy hmirrored hfound
        obtain ⟨fields', rfl⟩ := Json.eq_obj_of_mirroredBy hobj
        refine ⟨fields', ?_⟩
        rw [List.replicate_succ, Json.follow?_cons, hdefault]
        exact hbelow
    obtain ⟨_, hfar⟩ := hdeep (sizeOf schema)
    have hlt := Json.length_lt_sizeOf hfar
    rw [List.length_replicate] at hlt
    exact absurd hlt (Nat.lt_irrefl _)

end Modules

end Phrasebook
