import Phrasebook.Json.Basic
import Phrasebook.Text.Basic

/-!
# Schemas

The strings of the default language are the schema: they fix the shape of every accessor. A schema
is an object whose leaves are strings and arrays. `Schema.check` reports the first value, in the
order of the document, that is neither a leaf nor an object.
-/

namespace Phrasebook

/-! ## Key paths

A place in a tree of strings is written as its keys with dots between them. The root is the empty
path, which messages show as `<root>`.
-/

namespace KeyPath

def join (parent key : String) : String := if parent.isEmpty then key else parent ++ "." ++ key

def shown (path : String) : String := if path.isEmpty then "<root>" else path

def keys (path : String) : List String := Text.parts '.' path

end KeyPath

/-! ## Faults

Everything that can go wrong and reach a caller, by cause, with its wording in one place. A text
that a dataset lacks is no fault: it is resolved by the fallback mode.
-/

/-- What is wrong with a value that should be a schema. -/
inductive SchemaFlaw where
  | rootNotObject
  | unusableLeaf (kind : Kind)
  | notAnObject
  | unsupportedLeaf (kind : Kind)
  deriving DecidableEq, Repr

def SchemaFlaw.reason : SchemaFlaw → String
  | rootNotObject => "the root must be an object"
  | unusableLeaf kind => "a " ++ kind.word ++ " is neither a template, an array nor an object"
  | notAnObject => "expected an object"
  | unsupportedLeaf kind => "unsupported " ++ kind.word ++ " leaf"

def SchemaFlaw.message (path : String) (flaw : SchemaFlaw) : String :=
  "Invalid schema at '" ++ KeyPath.shown path ++ "': " ++ flaw.reason

inductive StoreAction where
  | read
  | write
  | create
  deriving DecidableEq, Repr

def StoreAction.word : StoreAction → String
  | read => "read"
  | write => "write"
  | create => "create"

inductive StoreFault where
  /-- The host has no storage. -/
  | unavailable
  /-- The system refused an action on a file or directory. -/
  | refused (action : StoreAction) (path detail : String)
  /-- Any other reason, in the store's own words. -/
  | other (text : String)
  deriving DecidableEq, Repr

def StoreFault.cause : StoreFault → String
  | unavailable => "storage is not available"
  | refused action path detail => "failed to " ++ action.word ++ " " ++ path ++ ": " ++ detail
  | other text => text

inductive ManifestFlaw where
  /-- The text is not JSON, or a value has a form that no field takes. -/
  | malformed
  | missingField (name : String)
  | duplicateField (name : String)
  | unknownVariant (found : String) (expected : List String)
  | wrongType (found expected : String)
  | outOfRange (found expected : String)
  /-- A record written as an array that is too short. -/
  | tooShort (length : Nat) (record : String) (fields : Nat)
  | ambiguousSource (code : String)
  deriving DecidableEq, Repr

def ManifestFlaw.cause : ManifestFlaw → String
  | malformed => "the text is not a valid manifest document"
  | missingField name => "missing field `" ++ name ++ "`"
  | duplicateField name => "duplicate field `" ++ name ++ "`"
  | unknownVariant found expected =>
    "unknown variant `" ++ found ++ "`, expected "
      ++ " or ".intercalate (expected.map fun name => "`" ++ name ++ "`")
  | wrongType found expected => "invalid type: " ++ found ++ ", expected " ++ expected
  | outOfRange found expected => "invalid value: " ++ found ++ ", expected " ++ expected
  | tooShort length record fields =>
    "invalid length " ++ toString length ++ ", expected " ++ record ++ " with "
      ++ toString fields ++ " elements"
  | ambiguousSource code =>
    "language '" ++ code ++ "' needs exactly one of 'path' or 'url'"

def ManifestFlaw.message (flaw : ManifestFlaw) : String := "Invalid manifest: " ++ flaw.cause

/-- The innermost cause of a failure. -/
inductive Cause where
  /-- The system refused; `detail` is its own text. -/
  | system (detail : String)
  /-- A text is not a JSON document with a value. -/
  | notJson
  /-- No answer came back for a request. -/
  | network (detail : String)
  /-- The server answered with this status. -/
  | status (code : Nat)
  /-- The body of the answer is not JSON. -/
  | body
  | manifest (flaw : ManifestFlaw)
  | schema (path : String) (flaw : SchemaFlaw)
  | text (words : String)
  deriving DecidableEq, Repr

def Cause.words : Cause → String
  | system detail => detail
  | notJson => "the text is not valid JSON"
  | network detail => "request failed: " ++ detail
  | status code => "server returned HTTP " ++ toString code
  | body => "invalid JSON body: the text is not valid JSON"
  | manifest flaw => flaw.message
  | schema path flaw => flaw.message path
  | text words => words

/-- A failure: what was being done, outermost first, and what went wrong. -/
structure Failure where
  context : List String
  cause : Cause
  deriving DecidableEq, Repr

namespace Failure

/-- The whole chain, outermost first. -/
def chain (failure : Failure) : List String := failure.context ++ [failure.cause.words]

def message (failure : Failure) : String := ": ".intercalate failure.chain

def headline (failure : Failure) : String := failure.context.headD failure.cause.words

end Failure

inductive Fault where
  | missingLanguage (code : String)
  | loadFailure (code : String) (failure : Failure)
  | invalidSchema (path : String) (flaw : SchemaFlaw)
  | storage (fault : StoreFault)
  | manifest (flaw : ManifestFlaw)
  deriving DecidableEq, Repr

def Fault.message : Fault → String
  | missingLanguage code => "Language '" ++ code ++ "' was not found in the registry"
  | loadFailure code failure => "Failed to load language '" ++ code ++ "': " ++ failure.message
  | invalidSchema path flaw => flaw.message path
  | storage fault => "Preference storage unavailable: " ++ fault.cause
  | manifest flaw => flaw.message

/-! ## Checked schemas -/

namespace Schema

mutual

/-- Accepts a value below `path` whose leaves are strings and arrays. -/
def check (path : String) : Json → Except Fault Unit
  | .obj fields => checkFields path fields
  | .str _ | .arr _ => .ok ()
  | .null => .error (.invalidSchema path (.unusableLeaf .null))
  | .bool _ => .error (.invalidSchema path (.unusableLeaf .boolean))
  | .num _ => .error (.invalidSchema path (.unusableLeaf .number))
termination_by structural value => value

def checkFields (path : String) : List (String × Json) → Except Fault Unit
  | [] => .ok ()
  | (key, value) :: rest => do
    check (KeyPath.join path key) value
    checkFields path rest
termination_by structural fields => fields

end

/-- Accepts the strings of a default language. -/
def checkRoot (value : Json) : Except Fault Unit :=
  match value with
  | .obj _ => check "" value
  | _ => .error (.invalidSchema "" .rootNotObject)

end Schema

structure Schema where
  value : Json
  valid : Schema.checkRoot value = .ok ()

/-- The schema that a value is, or its first flaw. -/
def Schema.ofJson (value : Json) : Except Fault Schema :=
  match h : Schema.checkRoot value with
  | .ok () => .ok ⟨value, h⟩
  | .error fault => .error fault

end Phrasebook
