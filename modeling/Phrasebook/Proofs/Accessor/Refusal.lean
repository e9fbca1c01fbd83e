import Phrasebook.Proofs.Accessor.Acceptance
import Phrasebook.Proofs.Places
import Phrasebook.Proofs.Session.Acts

/-!
# The first flaw of a schema

`Schema.offences` lists what keeps a value from being a schema, in the order of the document. The
check of a schema and the builders of strings and lists walk over a value on their own; all of them
accept it if there is no offence, and all of them name the first one otherwise.
-/

namespace Phrasebook

namespace Schema

open Json

/-- The values that keep a value from being a schema, with their places. The root has to be an
object. -/
def offences : Json → List (List String × Json)
  | .obj fields => (endsBelow fields).filter fun e => !e.2.isLeaf
  | value => [([], value)]

/-- The verdict on a value at `path` with the given offences. -/
def verdict (path : String) : List (List String × Json) → Except Fault Unit
  | [] => .ok ()
  | (place, offender) :: _ =>
    .error (.invalidSchema (KeyPath.below path place) (.unusableLeaf offender.kind))

theorem verdict_append (path : String) (first rest : List (List String × Json)) :
    verdict path (first ++ rest) = (do verdict path first; verdict path rest) := by
  cases first <;> rfl

theorem verdict_below (path key : String) (found : List (List String × Json)) :
    verdict path (found.map fun e => (key :: e.1, e.2)) =
      verdict (KeyPath.join path key) found := by
  cases found <;> rfl

mutual

theorem check_eq (path : String) : ∀ value : Json,
    check path value = verdict path (value.ends.filter fun e => !e.2.isLeaf)
  | .obj fields => by rw [check, ends, checkFields_eq path fields]
  | .str _ | .arr _ | .null | .bool _ | .num _ => rfl

theorem checkFields_eq (path : String) : ∀ fields : List (String × Json),
    checkFields path fields = verdict path ((endsBelow fields).filter fun e => !e.2.isLeaf)
  | [] => rfl
  | (key, value) :: rest => by
    rw [checkFields, check_eq (KeyPath.join path key) value, checkFields_eq path rest, endsBelow,
      List.filter_append, List.filter_map, verdict_append, verdict_below]
    rfl

end

theorem ne_nil_of_mem_endsBelow {fields : List (String × Json)} {e : List String × Json}
    (h : e ∈ endsBelow fields) : e.1 ≠ [] := by
  induction fields with
  | nil => simp [endsBelow] at h
  | cons field rest ih =>
    obtain ⟨key, value⟩ := field
    rw [endsBelow, List.mem_append, List.mem_map] at h
    rcases h with ⟨inner, -, rfl⟩ | h
    · exact List.cons_ne_nil _ _
    · exact ih h

theorem ofJson_of_ok {value : Json} (h : checkRoot value = .ok ()) :
    ofJson value = .ok ⟨value, h⟩ := by
  unfold ofJson
  split
  · rfl
  · next h' => cases h.symm.trans h'

theorem ofJson_of_error {value : Json} {fault : Fault} (h : checkRoot value = .error fault) :
    ofJson value = .error fault := by
  unfold ofJson
  split
  · next h' => cases h.symm.trans h'
  · next h' => cases h.symm.trans h'; rfl

theorem ofJson_of_sound {value : Json} (h : offences value = []) :
    ∃ schema, ofJson value = .ok schema ∧ schema.value = value := by
  cases value with
  | obj fields =>
    have hcheck : checkRoot (.obj fields) = .ok () := by
      show check "" (.obj fields) = .ok ()
      rw [check, checkFields_eq, show (endsBelow fields).filter _ = [] from h]
      rfl
    exact ⟨_, ofJson_of_ok hcheck, rfl⟩
  | _ => cases h

theorem checkFields_of_offence {fields : List (String × Json)} {place : List String}
    {offender : Json} (h : (offences (.obj fields)).head? = some (place, offender)) :
    place ≠ [] ∧ checkFields "" fields =
      .error (.invalidSchema (KeyPath.below "" place) (.unusableLeaf offender.kind)) := by
  obtain ⟨rest, hrest⟩ := List.head?_eq_some_iff.1 h
  have hmem : (place, offender) ∈ offences (.obj fields) := hrest ▸ List.mem_cons_self
  refine ⟨ne_nil_of_mem_endsBelow (List.mem_of_mem_filter hmem), ?_⟩
  rw [checkFields_eq, show (endsBelow fields).filter _ = _ :: rest from hrest, verdict]

/-- How the check of a schema names an offence. -/
def checkFlaw (place : List String) (offender : Json) : SchemaFlaw :=
  if place = [] then .rootNotObject else .unusableLeaf offender.kind

/-- How a builder names an offence. -/
def buildFlaw (place : List String) (offender : Json) : SchemaFlaw :=
  if place = [] then .notAnObject else .unsupportedLeaf offender.kind

theorem ofJson_of_offence {value offender : Json} {place : List String}
    (h : (offences value).head? = some (place, offender)) :
    ofJson value = .error (.invalidSchema (KeyPath.below "" place) (checkFlaw place offender)) := by
  apply ofJson_of_error
  cases value with
  | obj fields =>
    obtain ⟨hne, hcheck⟩ := checkFields_of_offence h
    show check "" (.obj fields) = _
    rw [check, hcheck, checkFlaw, if_neg hne]
  | _ => cases h; rfl

variable {α : Type}

theorem build_of_sound (rule : LeafRule α) {value : Json} (h : offences value = [])
    (data : Option Json) : ∃ tree, Accessor.build rule "" value data = .ok tree := by
  obtain ⟨schema, -, rfl⟩ := ofJson_of_sound h
  exact schema.exists_build rule data

theorem build_of_offence (rule : LeafRule α) {value offender : Json} {place : List String}
    (h : (offences value).head? = some (place, offender)) (data : Option Json) :
    Accessor.build rule "" value data =
      .error (.invalidSchema (KeyPath.below "" place) (buildFlaw place offender)) := by
  cases value with
  | obj fields =>
    obtain ⟨hne, hcheck⟩ := checkFields_of_offence h
    have hconcur := (rule.concur_entries "" fields data).map Accessor.mk
    rw [hcheck] at hconcur
    rw [Accessor.build, buildFlaw, if_neg hne]
    generalize (rule.entries "" fields data).map Accessor.mk = built at hconcur ⊢
    cases hconcur
    rfl
  | _ => cases h; rfl

theorem sound_or_offence (value : Json) :
    offences value = [] ∨ ∃ place offender, (offences value).head? = some (place, offender) := by
  cases offences value with
  | nil => exact .inl rfl
  | cons first rest => exact .inr ⟨first.1, first.2, rfl⟩

/-- **What is no schema is refused everywhere, at the same place**: the check of a schema and both
builders accept together, whatever the dataset is, and otherwise all of them name the first offence
of the document. So a session with a schema has a view of every dataset. -/
theorem refused_alike (value : Json) (data : Option Json) (mode : FallbackMode) :
    ((∃ schema, ofJson value = .ok schema) ↔
      ∃ strings, Strings.build value data "" mode = .ok strings) ∧
    ((∃ schema, ofJson value = .ok schema) ↔
      ∃ lists, Lists.build value data "" mode = .ok lists) ∧
    (∀ fault, ofJson value = .error fault →
      ∃ place offender, (offences value).head? = some (place, offender) ∧
        fault = .invalidSchema (KeyPath.below "" place) (checkFlaw place offender) ∧
        Strings.build value data "" mode =
          .error (.invalidSchema (KeyPath.below "" place) (buildFlaw place offender)) ∧
        Lists.build value data "" mode =
          .error (.invalidSchema (KeyPath.below "" place) (buildFlaw place offender))) ∧
    ∀ (schema : Schema) (language : String) (direction : Direction) (content : Json)
      (fallback ready : Bool), ∃ snapshot,
        Session.view schema mode language direction content fallback ready = .ok snapshot := by
  have hview := fun (schema : Schema) language direction content fallback ready =>
    Session.exists_view schema mode language direction content fallback ready
  rcases sound_or_offence value with hsound | ⟨place, offender, hoffence⟩
  · obtain ⟨schema, hschema, -⟩ := ofJson_of_sound hsound
    have hstrings := build_of_sound (Leaf.rule mode) hsound data
    have hlists := build_of_sound (Lists.rule mode) hsound data
    refine ⟨iff_of_true ⟨schema, hschema⟩ hstrings, iff_of_true ⟨schema, hschema⟩ hlists, ?_, hview⟩
    intro fault hfault
    cases hschema.symm.trans hfault
  · have hschema := ofJson_of_offence hoffence
    have hstrings : Strings.build value data "" mode = .error _ :=
      build_of_offence (Leaf.rule mode) hoffence data
    have hlists : Lists.build value data "" mode = .error _ :=
      build_of_offence (Lists.rule mode) hoffence data
    refine ⟨?_, ?_, ?_, hview⟩
    · rw [hschema, hstrings]
      simp
    · rw [hschema, hlists]
      simp
    · intro fault hfault
      cases hschema.symm.trans hfault
      exact ⟨place, offender, hoffence, rfl, hstrings, hlists⟩

/-- The first offence is the first of the document, at any depth. -/
example : (offences (.obj [("title", .str "Home"), ("home", .obj [("days", .arr []),
    ("count", .num (.int 3))]), ("flag", .null)])).head? =
    some (["home", "count"], .num (.int 3)) := rfl

end Schema

end Phrasebook
