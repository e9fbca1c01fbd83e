import Phrasebook.Accessor

/-!
# Which schemas accessors accept

Whether an accessor can be built is decided by the schema alone: `LeafRule.entry` refuses a value
just where `Schema.check` does, for the same leaf, whatever the dataset is. So a `Schema` always
has its strings and lists.
-/

namespace Phrasebook

/-- A check and a construction that accept together, or refuse the same leaf. -/
inductive Concur {β : Type} : Except Fault Unit → Except Fault β → Prop where
  | accept (built : β) : Concur (.ok ()) (.ok built)
  | refuse (path : String) (kind : Kind) :
      Concur (.error (.invalidSchema path (.unusableLeaf kind)))
        (.error (.invalidSchema path (.unsupportedLeaf kind)))

theorem Concur.map {β γ : Type} {verdict : Except Fault Unit} {built : Except Fault β}
    (h : Concur verdict built) (f : β → γ) : Concur verdict (built.map f) := by
  cases h with
  | accept built => exact .accept (f built)
  | refuse path kind => exact .refuse path kind

namespace LeafRule

variable {α : Type}

mutual

theorem concur_entry (rule : LeafRule α) (path : String) :
    ∀ (schema : Json) (data : Option Json),
      Concur (Schema.check path schema) (rule.entry path schema data)
  | .obj fields, data => by
    rw [Schema.check, entry]
    exact (concur_entries rule path fields data).map _
  | .str text, data => .accept _
  | .arr items, data => .accept _
  | .null, _ => .refuse path .null
  | .bool _, _ => .refuse path .boolean
  | .num _, _ => .refuse path .number

theorem concur_entries (rule : LeafRule α) (path : String) :
    ∀ (fields : List (String × Json)) (data : Option Json),
      Concur (Schema.checkFields path fields) (rule.entries path fields data)
  | [], _ => .accept _
  | (key, value) :: rest, data => by
    have hvalue := concur_entry rule (KeyPath.join path key) value (data.bind (·.get? key))
    have hrest := concur_entries rule path rest data
    rw [Schema.checkFields, entries]
    generalize Schema.check _ value = verdict at hvalue ⊢
    generalize rule.entry _ value _ = built at hvalue ⊢
    cases hvalue with
    | refuse path kind => exact .refuse path kind
    | accept node =>
      generalize Schema.checkFields path rest = verdict at hrest ⊢
      generalize rule.entries path rest data = nodes at hrest ⊢
      cases hrest with
      | refuse path kind => exact .refuse path kind
      | accept nodes => exact .accept _

end

end LeafRule

namespace Schema

theorem isObject (schema : Schema) : ∃ fields, schema.value = .obj fields := by
  obtain ⟨value, valid⟩ := schema
  unfold checkRoot at valid
  split at valid
  · next fields => exact ⟨fields, rfl⟩
  · cases valid

/-- No dataset makes a schema fail. -/
theorem exists_build {α : Type} (schema : Schema) (rule : LeafRule α) (data : Option Json) :
    ∃ accessor, Accessor.build rule "" schema.value data = .ok accessor := by
  obtain ⟨fields, hfields⟩ := schema.isObject
  have hcheck : Schema.check "" (.obj fields) = .ok () := by
    have := schema.valid
    rwa [hfields] at this
  have hconcur := (LeafRule.concur_entries rule "" fields data).map Accessor.mk
  rw [Schema.check] at hcheck
  rw [hcheck] at hconcur
  rw [hfields, Accessor.build]
  generalize (rule.entries "" fields data).map Accessor.mk = built at hconcur ⊢
  cases hconcur with
  | accept accessor => exact ⟨accessor, rfl⟩

end Schema

end Phrasebook
