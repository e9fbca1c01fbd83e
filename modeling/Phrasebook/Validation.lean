import Phrasebook.Schema
import Phrasebook.Template
import Phrasebook.Text.Basic
import Phrasebook.Text.Quoted

/-!
# Validation

`Report.of` compares a dataset with the schema and lists what the accessors would have to paper
over: values of the wrong shape are errors; missing keys, extra keys and drift in placeholders or
tags are warnings.
-/

namespace Phrasebook

/-- One observation about a dataset. -/
inductive Finding where
  | missingKey (path : String)
  | extraKey (path : String)
  /-- A scalar where the schema has a string. -/
  | scalar (path : String) (kind : Kind)
  | placeholderDrift (path : String) (base localized : List String)
  | tagDrift (path : String) (base localized : List String)
  | shapeMismatch (path : String) (expected found : Kind)
  deriving DecidableEq, Repr

namespace Finding

/-- Errors are the findings that leave the accessors without a value. -/
def isError : Finding → Bool
  | shapeMismatch .. => true
  | _ => false

def drift (what path : String) (base localized : List String) : String :=
  what ++ " mismatch at " ++ KeyPath.shown path ++ ": original has " ++ Text.quotedSet base
    ++ ", translation has " ++ Text.quotedSet localized

def message : Finding → String
  | missingKey path => "Missing key: " ++ path
  | extraKey path => "Extra key: " ++ path
  | scalar path kind =>
    "Non-string value at " ++ KeyPath.shown path ++ ": " ++ kind.word
      ++ " will render as its JSON text"
  | placeholderDrift path base localized => drift "Placeholder" path base localized
  | tagDrift path base localized => drift "Tag" path base localized
  | shapeMismatch path expected found =>
    "Shape mismatch at " ++ KeyPath.shown path ++ ": expected " ++ expected.word ++ ", found "
      ++ found.word

end Finding

def placeholderSet (text : String) : List String := Text.sortedSet (placeholders text)

def tagSet (text : String) : List String := Text.sortedSet (openerWords text.toList)

def compareTexts (path base localized : String) : List Finding :=
  (if placeholderSet base = placeholderSet localized then []
    else [.placeholderDrift path (placeholderSet base) (placeholderSet localized)])
  ++ (if tagSet base = tagSet localized then []
    else [.tagDrift path (tagSet base) (tagSet localized)])

/-- The keys of `data` that the schema does not have. -/
def extraKeys (path : String) (schema data : Fields) : List Finding :=
  (data.filter fun field => (schema.get? field.1).isNone).map fun field =>
    .extraKey (KeyPath.join path field.1)

mutual

/-- The findings on a value at `path` against the schema's value there. -/
def compareAt (path : String) (schema data : Json) : List Finding :=
  match schema with
  | .obj fields =>
    match data with
    | .obj values => compareFields path fields values ++ extraKeys path fields values
    | _ => [.shapeMismatch path .object data.kind]
  | .str base =>
    match data with
    | .str localized => compareTexts path base localized
    | .num _ | .bool _ | .null => [.scalar path data.kind]
    | _ => [.shapeMismatch path .string data.kind]
  | .arr _ =>
    match data with
    | .arr _ => []
    | _ => [.shapeMismatch path .array data.kind]
  | .null => [.shapeMismatch path .null data.kind]
  | .bool _ => [.shapeMismatch path .boolean data.kind]
  | .num _ => [.shapeMismatch path .number data.kind]
termination_by structural schema

def compareFields (path : String) (schema : List (String × Json)) (data : Fields) :
    List Finding :=
  match schema with
  | [] => []
  | (key, value) :: rest =>
    (match data.get? key with
      | some found => compareAt (KeyPath.join path key) value found
      | none => [.missingKey (KeyPath.join path key)])
    ++ compareFields path rest data
termination_by structural schema

end

structure Report where
  findings : List Finding
  deriving Repr

namespace Report

def of (schema dataset : Json) : Report := ⟨compareAt "" schema dataset⟩

def errors (report : Report) : List Finding := report.findings.filter Finding.isError

def warnings (report : Report) : List Finding := report.findings.filter fun f => !f.isError

def hasErrors (report : Report) : Bool := !report.errors.isEmpty

def hasWarnings (report : Report) : Bool := !report.warnings.isEmpty

def isClean (report : Report) : Bool := !report.hasErrors && !report.hasWarnings

end Report

end Phrasebook
