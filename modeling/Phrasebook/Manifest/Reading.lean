import Phrasebook.Json.Basic
import Phrasebook.Json.Document
import Phrasebook.Manifest.Basic
import Phrasebook.Schema
import Phrasebook.Text.Basic
import Phrasebook.Text.Quoted

/-!
# Reading manifests

`Manifest.read` turns the text of a manifest into a manifest, or says what is wrong with it: the
first flaw in the order of the text, then a field that is missing, then a language whose dataset
is not in exactly one place. If the text is no JSON document with a value, that is all that is
said of a flaw in it.

The readers look at the document itself, for a repeated field is wrong. A field that no record has
is not looked at.
-/

namespace Phrasebook

namespace Manifest

/-! ## Fields -/

/-- Reads values of one kind. -/
abbrev Reader (α : Type) := Document → Except ManifestFlaw α

/-- What stands in a document, in words. A numeral out of range and a string with an unpaired
surrogate have none. -/
def found? : Document → Option String
  | .null => some "null"
  | .bool value => some ("boolean `" ++ (Json.bool value).text ++ "`")
  | .number numeral =>
    numeral.number?.map fun number =>
      match number with
      | .int _ => "integer `" ++ number.text ++ "`"
      | .double _ => "floating point `" ++ number.text ++ "`"
  | .string spelling => spelling.text?.map fun text => "string " ++ Text.quoted text
  | .array _ => some "sequence"
  | .object _ => some "map"

def mismatch (document : Document) (expected : String) : ManifestFlaw :=
  match found? document with
  | some found => .wrongType found expected
  | none => .malformed

def spelled (spelling : Spelling) : Except ManifestFlaw String :=
  match spelling.text? with
  | some text => .ok text
  | none => .error .malformed

/-- Reads a string, which messages call `expected`. -/
def text (expected : String) : Reader String
  | .string spelling => spelled spelling
  | document => .error (mismatch document expected)

def flag : Reader Bool
  | .bool value => .ok value
  | document => .error (mismatch document "a boolean")

/-- Reads a whole number below 2^64. -/
def count : Reader Nat
  | .number numeral =>
    match numeral.number? with
    | some (.int n) =>
      if 0 ≤ n then .ok n.toNat
      else .error (.outOfRange ("integer `" ++ (Number.int n).text ++ "`") "u64")
    | _ => .error (mismatch (.number numeral) "u64")
  | document => .error (mismatch document "u64")

def optional {α : Type} (read : Reader α) : Reader (Option α)
  | .null => .ok none
  | document => (read document).map some

def choose {α : Type} (choices : List (String × α)) (name : String) : Except ManifestFlaw α :=
  match choices.lookup name with
  | some choice => .ok choice
  | none => .error (.unknownVariant name (choices.map (·.1)))

/-- Reads one of several names. A name may also be written as the only key of an object, with
null under it. -/
def oneOf {α : Type} (choices : List (String × α)) : Reader α
  | .string spelling => do choose choices (← spelled spelling)
  | .object ((key, value) :: rest) => do
    let choice ← choose choices (← spelled key)
    match value with
    | .null => if rest.isEmpty then .ok choice else .error .malformed
    | _ => .error (mismatch value "unit")
  | _ => .error .malformed

/-- Reads an object with any keys, ascending by key. A repeated key keeps its last value. -/
def dictionary {α : Type} (read : Reader α) : Reader (List (String × α))
  | .object fields =>
    fields.foldlM (fun map (key, value) => do
      let key ← spelled key
      return Text.putSorted key (← read value) map) []
  | document => .error (mismatch document "a map")

/-- A field that must not have been given before. -/
def once {α : Type} (name : String) (given : Option α) (value : Except ManifestFlaw α) :
    Except ManifestFlaw (Option α) :=
  if given.isSome then .error (.duplicateField name) else value.map some

/-- A record in which the fields that have come so far are kept in a draft. -/
structure RecordForm (D : Type) where
  name : String
  /-- The fields in their order, and whether each has a value of its own if an array ends before
  it. -/
  fields : List (String × Bool)
  empty : D
  /-- A draft with one more field; a field that the record does not have changes nothing. -/
  put : D → String → Document → Except ManifestFlaw D

namespace RecordForm

variable {D : Type}

/-- Takes the items of an array as the fields, in their order; `taken` fields have been taken. -/
def takeItems (form : RecordForm D) (taken : Nat) (draft : D) :
    List (String × Bool) → List Document → Except ManifestFlaw D
  | [], [] => .ok draft
  | [], _ :: _ => .error .malformed
  | (_, hasDefault) :: fields, [] =>
    if hasDefault then form.takeItems (taken + 1) draft fields []
    else .error (.tooShort taken ("struct " ++ form.name) form.fields.length)
  | (name, _) :: fields, item :: items => do
    form.takeItems (taken + 1) (← form.put draft name item) fields items

/-- Reads a record, which may be an object or an array of its fields. -/
def read (form : RecordForm D) : Reader D
  | .object fields =>
    fields.foldlM (fun draft (key, value) => do form.put draft (← spelled key) value) form.empty
  | .array items => form.takeItems 0 form.empty form.fields items
  | document => .error (mismatch document ("struct " ++ form.name))

end RecordForm

def required {α : Type} (name : String) : Option α → Except ManifestFlaw α
  | some value => .ok value
  | none => .error (.missingField name)

def direction : Reader Direction :=
  oneOf ([Direction.ltr, .rtl].map fun direction => (direction.word, direction))

def fallbackMode : Reader FallbackMode :=
  oneOf ([FallbackMode.development, .production].map fun mode => (mode.word, mode))

/-! ## The default language -/

structure DefaultDraft where
  code : Option String := none
  path : Option String := none
  direction : Option Direction := none

namespace DefaultDraft

def put (draft : DefaultDraft) (name : String) (value : Document) :
    Except ManifestFlaw DefaultDraft := do
  match name with
  | "code" => return { draft with code := ← once name draft.code (text "a string" value) }
  | "path" => return { draft with path := ← once name draft.path (text "path string" value) }
  | "direction" =>
    return { draft with direction := ← once name draft.direction (Manifest.direction value) }
  | _ => return draft

def form : RecordForm DefaultDraft where
  name := "ManifestDefault"
  fields := [("code", false), ("path", false), ("direction", true)]
  empty := {}
  put

def entry (draft : DefaultDraft) : Except ManifestFlaw DefaultEntry := do
  let code ← required "code" draft.code
  let path ← required "path" draft.path
  return { code, path, direction := draft.direction.getD .ltr }

def read : Reader DefaultEntry := fun document => do (← form.read document).entry

end DefaultDraft

/-! ## Other languages -/

structure LanguageDraft where
  path : Option (Option String) := none
  url : Option (Option String) := none
  direction : Option Direction := none

namespace LanguageDraft

def put (draft : LanguageDraft) (name : String) (value : Document) :
    Except ManifestFlaw LanguageDraft := do
  match name with
  | "path" =>
    return { draft with path := ← once name draft.path (optional (text "path string") value) }
  | "url" => return { draft with url := ← once name draft.url (optional (text "a string") value) }
  | "direction" =>
    return { draft with direction := ← once name draft.direction (Manifest.direction value) }
  | _ => return draft

def form : RecordForm LanguageDraft where
  name := "ManifestLanguage"
  fields := [("path", false), ("url", false), ("direction", true)]
  empty := {}
  put

/-- The language, if its dataset is in exactly one place. -/
def entry? (draft : LanguageDraft) : Option LanguageEntry :=
  let direction := draft.direction.getD .ltr
  match draft.path.join, draft.url.join with
  | some path, none => some ⟨.file path, direction⟩
  | none, some url => some ⟨.address url, direction⟩
  | _, _ => none

end LanguageDraft

/-! ## The whole -/

structure Draft where
  default : Option DefaultEntry := none
  languages : Option (List (String × LanguageDraft)) := none
  negotiates : Option Bool := none
  remembers : Option Bool := none
  fadeColor : Option (Option String) := none
  fadeMillis : Option (Option Nat) := none
  mode : Option (Option FallbackMode) := none

namespace Draft

def put (draft : Draft) (name : String) (value : Document) : Except ManifestFlaw Draft := do
  match name with
  | "default" =>
    return { draft with default := ← once name draft.default (DefaultDraft.read value) }
  | "languages" =>
    return { draft with
      languages := ← once name draft.languages (dictionary LanguageDraft.form.read value) }
  | "useBrowserNegotiation" =>
    return { draft with negotiates := ← once name draft.negotiates (flag value) }
  | "useStoredPreference" =>
    return { draft with remembers := ← once name draft.remembers (flag value) }
  | "fadeColor" =>
    return { draft with
      fadeColor := ← once name draft.fadeColor (optional (text "a string") value) }
  | "fadeDurationMs" =>
    return { draft with fadeMillis := ← once name draft.fadeMillis (optional count value) }
  | "mode" => return { draft with mode := ← once name draft.mode (optional fallbackMode value) }
  | _ => return draft

def form : RecordForm Draft where
  name := "Manifest"
  fields := [("default", false), ("languages", true), ("useBrowserNegotiation", true),
    ("useStoredPreference", true), ("fadeColor", false), ("fadeDurationMs", false),
    ("mode", false)]
  empty := {}
  put

def entries (languages : List (String × LanguageDraft)) :
    Except ManifestFlaw (List (String × LanguageEntry)) :=
  languages.mapM fun (code, draft) =>
    match draft.entry? with
    | some entry => .ok (code, entry)
    | none => .error (.ambiguousSource code)

/-- The manifest whose paths start from `folder`. -/
def manifest (draft : Draft) (default : DefaultEntry) (folder : String) :
    Except ManifestFlaw Manifest := do
  return {
    default
    languages := ← entries (draft.languages.getD [])
    negotiates := draft.negotiates.getD false
    remembers := draft.remembers.getD false
    fadeColor := draft.fadeColor.join
    fadeMillis := draft.fadeMillis.join
    mode := draft.mode.join
    folder }

/-- Reads a document whose default language is given. -/
def read (document : Document) : Except ManifestFlaw (Draft × DefaultEntry) := do
  let draft ← form.read document
  return (draft, ← required "default" draft.default)

end Draft

/-- The manifest in a text, whose paths start from `folder`. -/
def read (text folder : String) : Except ManifestFlaw Manifest :=
  match Document.read text with
  | none => .error .malformed
  | some document =>
    match Draft.read document with
    | .ok (draft, default) => draft.manifest default folder
    | .error flaw => .error (if document.json?.isSome then flaw else .malformed)

end Manifest

/-! ## Manifests in files -/

variable {m : Type → Type} [Monad m]

def Manifest.ofFile (host : Host m) (path : String) : m (Except Failure Manifest) := do
  match ← host.readText path with
  | .error fault => return .error ⟨["Failed to read manifest " ++ path], .system fault.detail⟩
  | .ok text =>
    match Manifest.read text ((Path.parent? path).getD "") with
    | .ok manifest => return .ok manifest
    | .error flaw => return .error ⟨["Failed to parse manifest " ++ path], .manifest flaw⟩

def schemaFailure : Fault → Failure
  | .invalidSchema path flaw => ⟨[], .schema path flaw⟩
  | fault => ⟨[], .text fault.message⟩

/-- Reads the default language's strings and configures a session. -/
def Manifest.configure (host : Host m) (manifest : Manifest) :
    m (Except Failure (Configuration DatasetSource)) := do
  match ← host.readJson "default strings" manifest.defaultPath with
  | .error failure => return .error failure
  | .ok value =>
    match Schema.ofJson value with
    | .ok schema => return .ok (manifest.configuration schema)
    | .error fault => return .error (schemaFailure fault)

end Phrasebook
