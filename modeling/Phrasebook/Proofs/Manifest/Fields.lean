import Phrasebook.Manifest.Reading

/-!
# What records and dictionaries read

Seen from outside, the document of a record is a list of named values (`named`), whether it is an
object or an array of the fields. A field that may be given once holds what its reader makes of the
value of that name, and nothing if there is no such value (`Slot.map_lookup`). A dictionary holds
what its reader makes of the last value of each name, ascending by name (`lookup_dictionary`).
-/

namespace Phrasebook.Manifest

variable {α β D : Type} {read : Reader α} {name : String} {value : Document}

theorem toOption_eq_some_iff {ε : Type} {x : Except ε α} {a : α} :
    x.toOption = some a ↔ x = .ok a := by
  cases x <;> simp [Except.toOption]

theorem foldlM_cons_eq_ok_iff {ε γ : Type} {f : β → γ → Except ε β} {x : γ} {xs : List γ}
    {b c : β} :
    (x :: xs).foldlM f b = .ok c ↔ ∃ b', f b x = .ok b' ∧ xs.foldlM f b' = .ok c := by
  rw [List.foldlM_cons, bind_eq_ok_iff]

theorem mapM_cons_eq_ok_iff {ε γ : Type} {f : γ → Except ε β} {x : γ} {xs : List γ}
    {ys : List β} :
    (x :: xs).mapM f = .ok ys ↔ ∃ y zs, f x = .ok y ∧ xs.mapM f = .ok zs ∧ ys = y :: zs := by
  rw [List.mapM_cons, bind_eq_ok_iff]
  constructor
  · rintro ⟨y, hy, h⟩
    obtain ⟨zs, hzs, h⟩ := bind_eq_ok_iff.1 h
    cases h
    exact ⟨y, zs, hy, hzs, rfl⟩
  · rintro ⟨y, zs, hy, hzs, rfl⟩
    exact ⟨y, hy, bind_eq_ok_iff.2 ⟨zs, hzs, rfl⟩⟩

theorem map_eq_map_ok_iff {given : Option Document} {a? : Option α} :
    given.map read = a?.map .ok ↔ given = none ∧ a? = none ∨
      ∃ value a, given = some value ∧ a? = some a ∧ read value = .ok a := by
  cases given <;> cases a? <;> simp

/-- The fields of an object whose keys are texts. -/
def named (fields : List (Spelling × Document)) : List (String × Document) :=
  fields.filterMap fun field => field.1.text?.map (·, field.2)

theorem spelled_eq_ok_iff {spelling : Spelling} : spelled spelling = .ok name ↔
    spelling.text? = some name := by
  unfold spelled
  cases spelling.text? <;> simp

theorem named_cons {spelling : Spelling} (h : spelling.text? = some name) (value : Document)
    (fields : List (Spelling × Document)) :
    named ((spelling, value) :: fields) = (name, value) :: named fields := by
  have hfirst : spelling.text?.map (·, value) = some (name, value) := by rw [h]; rfl
  exact List.filterMap_cons_some hfirst

theorem once_eq_ok_iff {given given' : Option α} {x : Except ManifestFlaw α} :
    once name given x = .ok given' ↔ given = none ∧ ∃ a, x = .ok a ∧ given' = some a := by
  unfold once
  cases given <;> cases x <;> simp [Except.map, eq_comm]

/-! ## Records -/

namespace RecordForm

variable {form : RecordForm D} {document : Document} {draft draft' : D}

/-- The values of a record by the names of the fields, in the order of the document. -/
def named (form : RecordForm D) : Document → List (String × Document)
  | .object fields => Manifest.named fields
  | .array items => (form.fields.map (·.1)).zip items
  | _ => []

/-- The values of a list of fields are put into a draft one after the other. -/
def putAll (form : RecordForm D) (draft : D) (values : List (String × Document)) :
    Except ManifestFlaw D :=
  values.foldlM (fun draft entry => form.put draft entry.1 entry.2) draft

theorem putAll_cons_iff {values : List (String × Document)} :
    form.putAll draft ((name, value) :: values) = .ok draft' ↔
      ∃ next, form.put draft name value = .ok next ∧ form.putAll next values = .ok draft' :=
  foldlM_cons_eq_ok_iff

theorem putAll_of_fields {fields : List (Spelling × Document)}
    (h : fields.foldlM (fun draft (key, value) => do form.put draft (← spelled key) value) draft =
      .ok draft') :
    form.putAll draft (Manifest.named fields) = .ok draft' := by
  induction fields generalizing draft with
  | nil => exact h
  | cons field rest ih =>
    obtain ⟨key, value⟩ := field
    obtain ⟨next, hput, hrest⟩ := foldlM_cons_eq_ok_iff.1 h
    obtain ⟨name, hname, hput⟩ := bind_eq_ok_iff.1 hput
    rw [named_cons (spelled_eq_ok_iff.1 hname), putAll_cons_iff]
    exact ⟨next, hput, ih hrest⟩

theorem putAll_of_takeItems {taken : Nat} {fields : List (String × Bool)} {items : List Document}
    (h : form.takeItems taken draft fields items = .ok draft') :
    form.putAll draft ((fields.map (·.1)).zip items) = .ok draft' := by
  induction fields generalizing taken draft items with
  | nil =>
    cases items with
    | nil => exact h
    | cons item items => simp [takeItems] at h
  | cons field rest ih =>
    obtain ⟨name, hasDefault⟩ := field
    cases items with
    | nil =>
      rw [takeItems] at h
      split at h
      · simpa using ih h
      · cases h
    | cons item items =>
      rw [takeItems] at h
      obtain ⟨next, hput, hrest⟩ := bind_eq_ok_iff.1 h
      exact putAll_cons_iff.2 ⟨next, hput, ih hrest⟩

/-- Reading a record is putting its values into the draft. -/
theorem putAll_of_read (h : form.read document = .ok draft) :
    form.putAll form.empty (form.named document) = .ok draft := by
  cases document with
  | object fields => exact putAll_of_fields h
  | array items => exact putAll_of_takeItems h
  | _ => cases h

/-- The field `name` of a record, which may be given once, in the drafts. -/
structure Slot (form : RecordForm D) (name : String) (field : D → Option α) (read : Reader α) :
    Prop where
  empty : field form.empty = none
  put : ∀ {draft draft' : D} {value : Document}, form.put draft name value = .ok draft' →
    field draft = none ∧ ∃ a, read value = .ok a ∧ field draft' = some a
  keep : ∀ {draft draft' : D} {other : String} {value : Document}, other ≠ name →
    form.put draft other value = .ok draft' → field draft' = field draft

theorem Slot.of_once {field : D → Option α}
    (set : D → Option α → D) (hempty : field form.empty = none)
    (hput : ∀ draft value, form.put draft name value =
      once name (field draft) (read value) >>= fun given => .ok (set draft given))
    (hset : ∀ draft given, field (set draft given) = given)
    (hkeep : ∀ {draft draft' : D} {other : String} {value : Document}, other ≠ name →
      form.put draft other value = .ok draft' → field draft' = field draft) :
    form.Slot name field read where
  empty := hempty
  put {draft draft' value} h := by
    rw [hput] at h
    obtain ⟨given, honce, h⟩ := bind_eq_ok_iff.1 h
    obtain ⟨hnone, a, ha, rfl⟩ := once_eq_ok_iff.1 honce
    cases h
    exact ⟨hnone, a, ha, hset draft (some a)⟩
  keep := hkeep

variable {field : D → Option α} {values : List (String × Document)}

theorem Slot.putAll_of_some (slot : form.Slot name field read) {a : α} (ha : field draft = some a)
    (h : form.putAll draft values = .ok draft') :
    field draft' = some a := by
  induction values generalizing draft with
  | nil =>
    cases h
    exact ha
  | cons entry rest ih =>
    obtain ⟨other, value⟩ := entry
    obtain ⟨next, hput, hrest⟩ := putAll_cons_iff.1 h
    by_cases hother : other = name
    · subst hother
      rw [(slot.put hput).1] at ha
      cases ha
    · exact ih ((slot.keep hother hput).trans ha) hrest

theorem Slot.putAll (slot : form.Slot name field read) (hnone : field draft = none)
    (h : form.putAll draft values = .ok draft') :
    (values.lookup name).map read = (field draft').map .ok := by
  induction values generalizing draft with
  | nil =>
    cases h
    rw [hnone]
    rfl
  | cons entry rest ih =>
    obtain ⟨other, value⟩ := entry
    obtain ⟨next, hput, hrest⟩ := putAll_cons_iff.1 h
    by_cases hother : other = name
    · subst hother
      obtain ⟨-, a, ha, hnext⟩ := slot.put hput
      rw [List.lookup_cons_self, slot.putAll_of_some hnext hrest, Option.map_some, ha]
      rfl
    · rw [List.lookup_cons, beq_false_of_ne (Ne.symm hother)]
      exact ih ((slot.keep hother hput).trans hnone) hrest

/-- A field holds what its reader makes of the value of its name. -/
theorem Slot.map_lookup (slot : form.Slot name field read) (h : form.read document = .ok draft) :
    ((form.named document).lookup name).map read = (field draft).map .ok :=
  slot.putAll slot.empty (putAll_of_read h)

end RecordForm

/-! ## Dictionaries -/

/-- The entries of a dictionary are put into a map one after the other. -/
def enterAll (read : Reader α) (map : List (String × α)) (fields : List (Spelling × Document)) :
    Except ManifestFlaw (List (String × α)) :=
  fields.foldlM (fun map (key, value) => do
    let key ← spelled key
    return Text.putSorted key (← read value) map) map

variable {fields : List (Spelling × Document)} {map map' : List (String × α)}

theorem exists_of_enterAll_cons {field : Spelling × Document}
    (h : enterAll read map (field :: fields) = .ok map') :
    ∃ name a, named (field :: fields) = (name, field.2) :: named fields ∧ read field.2 = .ok a ∧
      enterAll read (Text.putSorted name a map) fields = .ok map' := by
  obtain ⟨key, value⟩ := field
  obtain ⟨next, hput, hrest⟩ := foldlM_cons_eq_ok_iff.1 h
  obtain ⟨name, hname, hput⟩ := bind_eq_ok_iff.1 hput
  obtain ⟨a, ha, hput⟩ := bind_eq_ok_iff.1 hput
  cases hput
  exact ⟨name, a, named_cons (spelled_eq_ok_iff.1 hname) value fields, ha, hrest⟩

theorem lookup_enterAll (h : enterAll read map fields = .ok map') (c : String) :
    (((named fields).reverse.lookup c).map read).or ((map.lookup c).map .ok) =
      (map'.lookup c).map .ok := by
  induction fields generalizing map with
  | nil =>
    cases h
    rfl
  | cons field rest ih =>
    obtain ⟨name, a, hnamed, ha, hrest⟩ := exists_of_enterAll_cons h
    rw [← ih hrest, hnamed, List.reverse_cons, List.lookup_append]
    by_cases hc : c = name
    · rw [hc, List.lookup_cons_self, Text.lookup_putSorted_self, Option.map_some, ← ha]
      cases (named rest).reverse.lookup name <;> rfl
    · rw [List.lookup_cons, beq_false_of_ne hc, Text.lookup_putSorted_of_ne hc]
      simp

theorem pairwise_enterAll (hmap : (map.map (·.1)).Pairwise (· < ·))
    (h : enterAll read map fields = .ok map') : (map'.map (·.1)).Pairwise (· < ·) := by
  induction fields generalizing map with
  | nil =>
    cases h
    exact hmap
  | cons field rest ih =>
    obtain ⟨name, a, -, -, hrest⟩ := exists_of_enterAll_cons h
    exact ih (Text.pairwise_keys_putSorted hmap) hrest

/-- A dictionary holds what its reader makes of the last value of each name. -/
theorem lookup_dictionary (h : dictionary read (.object fields) = .ok map) (c : String) :
    ((named fields).reverse.lookup c).map read = (map.lookup c).map .ok := by
  have hall : enterAll read [] fields = .ok map := h
  simpa using lookup_enterAll hall c

theorem pairwise_dictionary (h : dictionary read (.object fields) = .ok map) :
    (map.map (·.1)).Pairwise (· < ·) :=
  pairwise_enterAll List.Pairwise.nil h

end Phrasebook.Manifest
