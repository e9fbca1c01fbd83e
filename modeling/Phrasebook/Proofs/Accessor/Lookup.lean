import Phrasebook.Proofs.Accessor.Acceptance
import Phrasebook.Proofs.Places

/-!
# What accessors hold

An accessor has the outline of its schema. At each place it holds what its rule makes of the leaf of
the schema there and of the value that the same keys lead to in the dataset (`follow?_entry`), so
nothing but the dataset's values at the leaves of the schema matters (`entry_congr`).
-/

namespace Phrasebook

inductive Outline where
  | leaf
  | branch (entries : List (String × Outline))

namespace Json

mutual

/-- The keys of a value; its objects are the branches. -/
def outline : Json → Outline
  | obj fields => .branch (outlines fields)
  | null | bool _ | num _ | str _ | arr _ => .leaf
termination_by structural value => value

def outlines : List (String × Json) → List (String × Outline)
  | [] => []
  | (key, value) :: rest => (key, outline value) :: outlines rest
termination_by structural fields => fields

end

end Json

namespace Entry

variable {α : Type}

mutual

def outline : Entry α → Outline
  | leaf _ => .leaf
  | branch entries => .branch (outlines entries)
termination_by structural node => node

def outlines : List (String × Entry α) → List (String × Outline)
  | [] => []
  | (key, node) :: rest => (key, outline node) :: outlines rest
termination_by structural entries => entries

end

/-- The leaf that a list of keys leads to. -/
def follow? (node : Entry α) : List String → Option α
  | [] =>
    match node with
    | leaf value => some value
    | branch _ => none
  | key :: rest =>
    match node with
    | leaf _ => none
    | branch entries => (entries.lookup key).bind (·.follow? rest)

end Entry

namespace Accessor

variable {α : Type}

def outline (tree : Accessor α) : Outline := .branch (Entry.outlines tree.entries)

theorem follow?_eq (tree : Accessor α) (place : List String) :
    tree.follow? place = (Entry.branch tree.entries).follow? place := by
  induction place generalizing tree with
  | nil => rfl
  | cons key rest ih =>
    cases rest with
    | nil =>
      show tree.leaf? key = (tree.entries.lookup key).bind (·.follow? [])
      unfold leaf?
      cases tree.entries.lookup key with
      | none => rfl
      | some node => cases node <;> rfl
    | cons next rest =>
      show (tree.branch? key).bind (fun branch => branch.follow? (next :: rest)) =
        (tree.entries.lookup key).bind (·.follow? (next :: rest))
      unfold branch?
      cases tree.entries.lookup key with
      | none => rfl
      | some node =>
        cases node with
        | leaf _ => rfl
        | branch entries => exact ih ⟨entries⟩

end Accessor

namespace LeafRule

variable {α : Type} {rule : LeafRule α} {path key : String} {schema value : Json}
  {fields : List (String × Json)} {data : Option Json} {node : Entry α}
  {nodes : List (String × Entry α)} {tree : Accessor α}

/-- What the rule makes of a leaf of the schema; it makes nothing of other values. -/
def leaf? (rule : LeafRule α) (path : String) (schema : Json) (data : Option Json) : Option α :=
  match schema with
  | .str text => some (rule.string path text data)
  | .arr items => some (rule.array path items data)
  | _ => none

theorem entry_obj_iff :
    rule.entry path (.obj fields) data = .ok node ↔
      ∃ nodes, rule.entries path fields data = .ok nodes ∧ node = .branch nodes := by
  rw [entry]
  cases rule.entries path fields data <;> simp [Except.map, eq_comm]

theorem entries_cons_iff {rest : List (String × Json)} :
    rule.entries path ((key, value) :: rest) data = .ok nodes ↔
      ∃ node others, rule.entry (KeyPath.join path key) value (data.bind (·.get? key)) = .ok node ∧
        rule.entries path rest data = .ok others ∧ nodes = (key, node) :: others := by
  rw [entries]
  cases rule.entry (KeyPath.join path key) value (data.bind (·.get? key)) with
  | error fault => simp [bind, Except.bind]
  | ok node =>
    cases rule.entries path rest data <;> simp [bind, Except.bind, pure, Except.pure, eq_comm]

theorem build_iff :
    Accessor.build rule path schema data = .ok tree ↔
      rule.entry path schema data = .ok (.branch tree.entries) := by
  cases schema with
  | obj fields =>
    rw [entry_obj_iff, Accessor.build]
    cases rule.entries path fields data with
    | error fault => simp [Except.map]
    | ok nodes =>
      obtain ⟨entries⟩ := tree
      simp [Except.map, eq_comm]
  | _ => simp [Accessor.build, entry]

/-! ## Shape -/

mutual

theorem outline_entry : ∀ {path : String} (schema : Json) {data : Option Json} {node : Entry α},
    rule.entry path schema data = .ok node → node.outline = schema.outline
  | _, .obj fields, _, _, h => by
    obtain ⟨nodes, hnodes, rfl⟩ := entry_obj_iff.1 h
    rw [Entry.outline, Json.outline, outlines_entries fields hnodes]
  | _, .str _, _, _, h | _, .arr _, _, _, h => by
    cases h
    rfl
  | _, .null, _, _, h | _, .bool _, _, _, h | _, .num _, _, _, h => nomatch h

theorem outlines_entries : ∀ {path : String} (fields : List (String × Json)) {data : Option Json}
    {nodes : List (String × Entry α)},
    rule.entries path fields data = .ok nodes → Entry.outlines nodes = Json.outlines fields
  | _, [], _, _, h => by
    cases h
    rfl
  | _, (key, value) :: rest, _, _, h => by
    obtain ⟨node, others, hnode, hothers, rfl⟩ := entries_cons_iff.1 h
    rw [Entry.outlines, Json.outlines, outline_entry value hnode, outlines_entries rest hothers]

end

/-! ## Places -/

theorem lookup_entries (h : rule.entries path fields data = .ok nodes) (key : String) :
    (fields.lookup key = none ∧ nodes.lookup key = none) ∨
      ∃ value node, fields.lookup key = some value ∧ nodes.lookup key = some node ∧
        rule.entry (KeyPath.join path key) value (data.bind (·.get? key)) = .ok node := by
  induction fields generalizing nodes with
  | nil =>
    cases h
    exact .inl ⟨rfl, rfl⟩
  | cons field rest ih =>
    obtain ⟨name, value⟩ := field
    obtain ⟨node, others, hnode, hothers, rfl⟩ := entries_cons_iff.1 h
    by_cases hname : key = name
    · subst hname
      exact .inr ⟨value, node, List.lookup_cons_self, List.lookup_cons_self, hnode⟩
    · simp only [List.lookup_cons, beq_false_of_ne hname]
      exact ih hothers

theorem follow?_entry (h : rule.entry path schema data = .ok node) (place : List String) :
    node.follow? place = (schema.follow? place).bind fun leaf =>
      rule.leaf? (KeyPath.below path place) leaf (data.bind (·.follow? place)) := by
  induction place generalizing path schema data node with
  | nil =>
    rw [Json.follow?_bind_nil]
    cases schema with
    | obj fields =>
      obtain ⟨nodes, -, rfl⟩ := entry_obj_iff.1 h
      rfl
    | str _ | arr _ =>
      cases h
      rfl
    | null | bool _ | num _ => cases h
  | cons key rest ih =>
    rw [Json.follow?_cons, Json.follow?_bind_cons, KeyPath.below_cons]
    cases schema with
    | obj fields =>
      obtain ⟨nodes, hnodes, rfl⟩ := entry_obj_iff.1 h
      show (nodes.lookup key).bind (·.follow? rest) = _
      rw [Json.get?_obj]
      rcases lookup_entries hnodes key with
        ⟨hfields, hlookup⟩ | ⟨value, node, hfields, hlookup, hnode⟩
      · rw [hfields, hlookup]
        rfl
      · rw [hfields, hlookup]
        exact ih hnode
    | str _ | arr _ =>
      cases h
      rfl
    | null | bool _ | num _ => cases h

/-- What is at a place of an accessor, by the schema's leaf and the dataset's value there. -/
theorem follow?_build (h : Accessor.build rule "" schema data = .ok tree) (place : List String) :
    tree.follow? place = (schema.follow? place).bind fun leaf =>
      rule.leaf? (KeyPath.below "" place) leaf (data.bind (·.follow? place)) := by
  rw [Accessor.follow?_eq]
  exact follow?_entry (build_iff.1 h) place

theorem get?_build (h : Accessor.build rule "" schema data = .ok tree) {place : List String}
    (hne : place ≠ []) (hdots : ∀ key ∈ place, '.' ∉ key.toList) :
    tree.get? (".".intercalate place) = (schema.follow? place).bind fun leaf =>
      rule.leaf? (KeyPath.below "" place) leaf (data.bind (·.follow? place)) := by
  rw [Accessor.get?, KeyPath.keys_intercalate hne hdots]
  exact follow?_build h place

/-! ## Datasets -/

mutual

theorem entry_congr : ∀ {path : String} (schema : Json) {data other : Option Json},
    (∀ e ∈ schema.ends, data.bind (·.follow? e.1) = other.bind (·.follow? e.1)) →
      rule.entry path schema data = rule.entry path schema other
  | _, .obj fields, data, other, h => by
    rw [entry, entry, entries_congr fields h]
  | _, .str _, data, other, h | _, .arr _, data, other, h => by
    have hroot := h _ (List.mem_singleton_self _)
    rw [Json.follow?_bind_nil, Json.follow?_bind_nil] at hroot
    rw [hroot]
  | _, .null, _, _, _ | _, .bool _, _, _, _ | _, .num _, _, _, _ => rfl

theorem entries_congr : ∀ {path : String} (fields : List (String × Json))
    {data other : Option Json},
    (∀ e ∈ Json.endsBelow fields, data.bind (·.follow? e.1) = other.bind (·.follow? e.1)) →
      rule.entries path fields data = rule.entries path fields other
  | _, [], _, _, _ => rfl
  | _, (key, value) :: rest, data, other, h => by
    rw [Json.endsBelow] at h
    have hvalue : ∀ e ∈ value.ends, (data.bind (·.get? key)).bind (·.follow? e.1) =
        (other.bind (·.get? key)).bind (·.follow? e.1) := fun e he => by
      rw [← Json.follow?_bind_cons, ← Json.follow?_bind_cons]
      exact h _ (List.mem_append_left _ (List.mem_map.2 ⟨e, he, rfl⟩))
    rw [entries, entries, entry_congr value hvalue,
      entries_congr rest fun e he => h e (List.mem_append_right _ he)]

end

/-- An accessor depends on the dataset's values at the leaves of the schema only. -/
theorem build_congr {other : Option Json}
    (h : ∀ e ∈ schema.ends, data.bind (·.follow? e.1) = other.bind (·.follow? e.1)) :
    Accessor.build rule path schema data = Accessor.build rule path schema other := by
  cases schema with
  | obj fields => rw [Accessor.build, Accessor.build, entries_congr fields h]
  | _ => rfl

end LeafRule

/-! ## Strings and lists -/

/-- The string at a path, by what the schema and the dataset have there. -/
def Strings.expected (mode : FallbackMode) (path : String) :
    (schema data : Option Json) → Option Leaf
  | some (.str _), some (.str text) => some (.template ⟨text⟩)
  | some (.str _), some (.num n) => some (.literal (Json.num n).text)
  | some (.str _), some (.bool b) => some (.literal (Json.bool b).text)
  | some (.str _), some .null => some (.literal Json.null.text)
  | some (.str default), _ =>
    match mode with
    | .development => some (.missing path)
    | .production => some (.template ⟨default⟩)
  | some (.arr _), _ =>
    match mode with
    | .development => some (.missing path)
    | .production => some (.literal "")
  | _, _ => none

/-- The list at a path, by what the schema and the dataset have there. -/
def Lists.expected (mode : FallbackMode) : (schema data : Option Json) → Option (List Json)
  | some (.arr _), some (.arr items) => some items
  | some (.arr default), _ =>
    match mode with
    | .development => some []
    | .production => some default
  | some (.str _), _ => some []
  | _, _ => none

theorem Strings.expected_eq (mode : FallbackMode) (path : String) (schema data : Option Json) :
    Strings.expected mode path schema data =
      schema.bind fun leaf => (Leaf.rule mode).leaf? path leaf data := by
  rcases schema with _ | _ | _ | _ | _ | _ | _ <;> try rfl
  · rcases data with _ | _ | _ | _ | _ | _ | _ <;> cases mode <;> rfl
  · cases mode <;> rfl

theorem Lists.expected_eq (mode : FallbackMode) (path : String) (schema data : Option Json) :
    Lists.expected mode schema data =
      schema.bind fun leaf => (Lists.rule mode).leaf? path leaf data := by
  rcases schema with _ | _ | _ | _ | _ | _ | _ <;> try rfl
  rcases data with _ | _ | _ | _ | _ | _ | _ <;> cases mode <;> rfl

theorem LeafRule.isSome_leaf? {α : Type} (rule : LeafRule α) (path : String) (leaf : Json)
    (data : Option Json) : (rule.leaf? path leaf data).isSome = leaf.isLeaf := by
  cases leaf <;> rfl

theorem Strings.isSome_expected (mode : FallbackMode) (path : String) (schema data : Option Json) :
    (Strings.expected mode path schema data).isSome = schema.any Json.isLeaf := by
  rw [Strings.expected_eq]
  cases schema with
  | none => rfl
  | some leaf => exact LeafRule.isSome_leaf? _ _ _ _

theorem Lists.isSome_expected (mode : FallbackMode) (schema data : Option Json) :
    (Lists.expected mode schema data).isSome = schema.any Json.isLeaf := by
  rw [Lists.expected_eq mode ""]
  cases schema with
  | none => rfl
  | some leaf => exact LeafRule.isSome_leaf? _ _ _ _

variable {schema : Json} {data : Option Json} {mode : FallbackMode} {place : List String}

theorem Strings.follow?_eq {strings : Strings}
    (h : Strings.build schema data "" mode = .ok strings) (place : List String) :
    strings.follow? place =
      Strings.expected mode (KeyPath.below "" place) (schema.follow? place)
        (data.bind (·.follow? place)) := by
  rw [Strings.expected_eq]
  exact LeafRule.follow?_build h place

theorem Lists.follow?_eq {lists : Lists} (h : Lists.build schema data "" mode = .ok lists)
    (place : List String) :
    lists.follow? place =
      Lists.expected mode (schema.follow? place) (data.bind (·.follow? place)) := by
  rw [Lists.expected_eq mode (KeyPath.below "" place)]
  exact LeafRule.follow?_build h place

theorem Strings.get?_eq {strings : Strings} (h : Strings.build schema data "" mode = .ok strings)
    (hne : place ≠ []) (hdots : ∀ key ∈ place, '.' ∉ key.toList) :
    strings.get? (".".intercalate place) =
      Strings.expected mode (KeyPath.below "" place) (schema.follow? place)
        (data.bind (·.follow? place)) := by
  rw [Strings.expected_eq]
  exact LeafRule.get?_build h hne hdots

theorem Lists.get?_eq {lists : Lists} (h : Lists.build schema data "" mode = .ok lists)
    (hne : place ≠ []) (hdots : ∀ key ∈ place, '.' ∉ key.toList) :
    lists.get? (".".intercalate place) =
      Lists.expected mode (schema.follow? place) (data.bind (·.follow? place)) := by
  rw [Lists.expected_eq mode (KeyPath.below "" place)]
  exact LeafRule.get?_build h hne hdots

/-- **Strings and lists, place by place**: both have the outline of the schema. Both have something
at a path exactly where the schema has a leaf, and what it is is given by that leaf and the value of
the dataset there. Datasets that agree at the leaves of the schema have the same strings and
lists. -/
theorem Schema.holds_expected (schema : Schema) (data : Option Json) (mode : FallbackMode) :
    ∃ strings lists,
      Strings.build schema.value data "" mode = .ok strings ∧
      Lists.build schema.value data "" mode = .ok lists ∧
      strings.outline = schema.value.outline ∧ lists.outline = schema.value.outline ∧
      (∀ place, place ≠ [] → (∀ key ∈ place, '.' ∉ key.toList) →
        strings.get? (".".intercalate place) =
            Strings.expected mode (KeyPath.below "" place) (schema.value.follow? place)
              (data.bind (·.follow? place)) ∧
          lists.get? (".".intercalate place) =
            Lists.expected mode (schema.value.follow? place) (data.bind (·.follow? place)) ∧
          (strings.get? (".".intercalate place)).isSome =
            (schema.value.follow? place).any Json.isLeaf ∧
          (lists.get? (".".intercalate place)).isSome =
            (schema.value.follow? place).any Json.isLeaf) ∧
      ∀ other : Option Json,
        (∀ e ∈ schema.value.ends, data.bind (·.follow? e.1) = other.bind (·.follow? e.1)) →
          Strings.build schema.value other "" mode = .ok strings ∧
          Lists.build schema.value other "" mode = .ok lists := by
  obtain ⟨strings, hstrings⟩ := schema.exists_build (Leaf.rule mode) data
  obtain ⟨lists, hlists⟩ := schema.exists_build (Lists.rule mode) data
  refine ⟨strings, lists, hstrings, hlists, ?_, ?_, fun place hne hdots => ?_, fun other h => ?_⟩
  · exact LeafRule.outline_entry _ (LeafRule.build_iff.1 hstrings)
  · exact LeafRule.outline_entry _ (LeafRule.build_iff.1 hlists)
  · have hstring := Strings.get?_eq hstrings hne hdots
    have hlist := Lists.get?_eq hlists hne hdots
    refine ⟨hstring, hlist, ?_, ?_⟩
    · rw [hstring, Strings.isSome_expected]
    · rw [hlist, Lists.isSome_expected]
  · exact ⟨(LeafRule.build_congr h).symm.trans hstrings, (LeafRule.build_congr h).symm.trans hlists⟩

end Phrasebook
