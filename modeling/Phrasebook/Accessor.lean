import Phrasebook.Schema
import Phrasebook.Template

/-!
# Accessors

An accessor is a tree with the keys of the schema, in its order, and a value of some type at each
leaf. `Accessor.build` walks over the schema and looks the same keys up in a dataset; a
`LeafRule` says what a leaf of the schema becomes. Keys that only the dataset has are never
visited.
-/

namespace Phrasebook

/-- A leaf, or the named nodes below a key. -/
inductive Entry (α : Type) where
  | leaf (value : α)
  | branch (entries : List (String × Entry α))
  deriving Repr

/-- A tree of named leaves. -/
structure Accessor (α : Type) where
  entries : List (String × Entry α)
  deriving Repr

namespace Accessor

variable {α : Type}

def keys (tree : Accessor α) : List String := tree.entries.map (·.1)

def size (tree : Accessor α) : Nat := tree.entries.length

def leaf? (tree : Accessor α) (key : String) : Option α :=
  match tree.entries.lookup key with
  | some (.leaf value) => some value
  | _ => none

def branch? (tree : Accessor α) (key : String) : Option (Accessor α) :=
  match tree.entries.lookup key with
  | some (.branch entries) => some ⟨entries⟩
  | _ => none

/-- The leaf at the end of a list of keys; every key but the last has to lead to a branch. -/
def follow? (tree : Accessor α) : List String → Option α
  | [] => none
  | [key] => tree.leaf? key
  | key :: rest => (tree.branch? key).bind fun branch => branch.follow? rest

def get? (tree : Accessor α) (path : String) : Option α := tree.follow? (KeyPath.keys path)

end Accessor

/-- What the leaves of a schema become, given their path and the dataset's value there. -/
structure LeafRule (α : Type) where
  string : (path text : String) → (value : Option Json) → α
  array : (path : String) → (items : List Json) → (value : Option Json) → α

namespace LeafRule

variable {α : Type}

mutual

def entry (rule : LeafRule α) (path : String) (schema : Json) (data : Option Json) :
    Except Fault (Entry α) :=
  match schema with
  | .obj fields => (rule.entries path fields data).map .branch
  | .str text => .ok (.leaf (rule.string path text data))
  | .arr items => .ok (.leaf (rule.array path items data))
  | .null => .error (.invalidSchema path (.unsupportedLeaf .null))
  | .bool _ => .error (.invalidSchema path (.unsupportedLeaf .boolean))
  | .num _ => .error (.invalidSchema path (.unsupportedLeaf .number))
termination_by structural schema

def entries (rule : LeafRule α) (path : String) (fields : List (String × Json))
    (data : Option Json) : Except Fault (List (String × Entry α)) :=
  match fields with
  | [] => .ok []
  | (key, value) :: rest => do
    let node ← rule.entry (KeyPath.join path key) value (data.bind (·.get? key))
    let nodes ← rule.entries path rest data
    return (key, node) :: nodes
termination_by structural fields

end

end LeafRule

/-- The accessor for a schema at `path`, with its leaves read from `data`. -/
def Accessor.build {α : Type} (rule : LeafRule α) (path : String) (schema : Json)
    (data : Option Json) : Except Fault (Accessor α) :=
  match schema with
  | .obj fields => (rule.entries path fields data).map (⟨·⟩)
  | _ => .error (.invalidSchema path .notAnObject)

/-! ## Strings

A string that the dataset lacks shows its path in development and the schema's text in production;
other scalars of the dataset show their JSON text.
-/

/-- How a key that the dataset lacks is resolved. -/
inductive FallbackMode where
  | development
  | production
  deriving DecidableEq, Repr, Inhabited

namespace FallbackMode

def word : FallbackMode → String
  | development => "development"
  | production => "production"

/-- Reads a mode, or its short form, in any mixture of ASCII case; a text that is none comes back
in lower case. -/
def parse (text : String) : Except String FallbackMode :=
  let lower := text.map Char.toLower
  if lower = "development" || lower = "dev" then .ok development
  else if lower = "production" || lower = "prod" then .ok production
  else .error lower

def unknownMessage (lower : String) : String := "unknown fallback mode '" ++ lower ++ "'"

end FallbackMode

/-- What a string of the schema evaluates to. -/
inductive Leaf where
  | template (template : Template)
  /-- The JSON text of a scalar. -/
  | literal (text : String)
  /-- A string that is missing, by its path. -/
  | missing (path : String)
  deriving DecidableEq, Repr

namespace Leaf

def render (leaf : Leaf) (vars : Option Fields) : Rendered :=
  match leaf with
  | template t => t.render vars
  | literal text => .text text
  | missing path => .text path

def text (leaf : Leaf) (vars : Option Fields) : String := (leaf.render vars).plain

def isMissing : Leaf → Bool
  | missing _ => true
  | _ => false

def ofString (mode : FallbackMode) (path default : String) : Option Json → Leaf
  | some (.str text) => template ⟨text⟩
  | some (.num n) => literal (Json.num n).text
  | some (.bool b) => literal (Json.bool b).text
  | some .null => literal Json.null.text
  | _ =>
    match mode with
    | .development => missing path
    | .production => template ⟨default⟩

/-- The leaf for an array of the schema, which has no string. -/
def ofArray (mode : FallbackMode) (path : String) : Leaf :=
  match mode with
  | .development => missing path
  | .production => literal ""

def rule (mode : FallbackMode) : LeafRule Leaf where
  string path default value := ofString mode path default value
  array path _ _ := ofArray mode path

end Leaf

abbrev Strings := Accessor Leaf

namespace Strings

def build (schema : Json) (data : Option Json) (path : String) (mode : FallbackMode) :
    Except Fault Strings :=
  Accessor.build (Leaf.rule mode) path schema data

def render? (strings : Strings) (path : String) (vars : Option Fields) : Option Rendered :=
  (strings.get? path).map (·.render vars)

def text (strings : Strings) (path : String) (vars : Option Fields) : String :=
  match strings.get? path with
  | some leaf => leaf.text vars
  | none => path

end Strings

/-! ## Lists

An array that the dataset lacks is empty in development and the schema's own in production; a
string of the schema has the empty list.
-/

abbrev Lists := Accessor (List Json)

namespace Lists

def ofArray (mode : FallbackMode) (default : List Json) : Option Json → List Json
  | some (.arr items) => items
  | _ =>
    match mode with
    | .development => []
    | .production => default

def rule (mode : FallbackMode) : LeafRule (List Json) where
  string _ _ _ := []
  array _ default value := ofArray mode default value

def build (schema : Json) (data : Option Json) (path : String) (mode : FallbackMode) :
    Except Fault Lists :=
  Accessor.build (rule mode) path schema data

end Lists

end Phrasebook
