import Phrasebook.Host
import Phrasebook.Json.Document
import Phrasebook.Registry
import Phrasebook.Retry
import Phrasebook.Schema

/-!
# Manifests

A manifest names the default language, where its strings are, and the other languages with the
places of their datasets. Paths start from the folder that the manifest is in.
-/

namespace Phrasebook

/-! ## Datasets

A dataset is the JSON value in a file or behind an address. An address is asked again after a
failure that may pass: no answer, a server that is overloaded, or one that failed itself.
-/

/-- Where a dataset is. -/
inductive DatasetSource where
  | file (path : String)
  | address (url : String)
  deriving DecidableEq, Repr

namespace DatasetSource

/-- A source whose path starts from `folder`. -/
def below (folder : String) : DatasetSource → DatasetSource
  | file path => file (Path.join folder path)
  | address url => address url

end DatasetSource

def Cause.mayPass : Cause → Bool
  | network _ => true
  | status code => 500 ≤ code || code = 429
  | _ => false

/-- The value that an answer delivers. Only the statuses from 200 to 299 deliver one. -/
def Response.value (response : Response) : Except Cause Json :=
  if response.status < 200 || 300 ≤ response.status then .error (.status response.status)
  else
    match response.body.bind Json.read with
    | some value => .ok value
    | none => .error .body

variable {m : Type → Type} [Monad m]

def Host.fetchOnce (host : Host m) (url : String) : m (Except Cause Json) := do
  match ← host.request url with
  | .ok response => return response.value
  | .error detail => return .error (.network detail)

def fetchFailure (url : String) (cause : Cause) : Failure :=
  ⟨["Failed to fetch dataset from " ++ url], cause⟩

/-- Fetches a dataset under a policy that allows an attempt. -/
def Host.fetch (host : Host m) (policy : RetryPolicy) (allowed : 0 < policy.maxAttempts)
    (url : String) : m (Except Failure Json) := do
  let result ← policy.run allowed host.wait (host.fetchOnce url) Cause.mayPass
  return result.mapError (fetchFailure url)

/-- Reads the JSON value in a file; `what` says what it is. -/
def Host.readJson (host : Host m) (what path : String) : m (Except Failure Json) := do
  match ← host.readText path with
  | .error fault => return .error ⟨["Failed to read " ++ what ++ " " ++ path], .system fault.detail⟩
  | .ok text =>
    match Json.read text with
    | some value => return .ok value
    | none => return .error ⟨["Failed to parse " ++ what ++ " " ++ path], .notJson⟩

def DatasetSource.load (host : Host m) : DatasetSource → m (Except Failure Json)
  | file path => host.readJson "dataset" path
  | address url => host.fetch .datasetFetch (by decide) url

/-! ## Manifests -/

structure DefaultEntry where
  code : String
  path : String
  direction : Direction
  deriving DecidableEq, Repr

structure LanguageEntry where
  source : DatasetSource
  direction : Direction
  deriving DecidableEq, Repr

structure Manifest where
  default : DefaultEntry
  /-- The other languages, ascending by code. -/
  languages : List (String × LanguageEntry)
  negotiates : Bool
  remembers : Bool
  fadeColor : Option String
  fadeMillis : Option Nat
  mode : Option FallbackMode
  /-- The folder from which paths start. -/
  folder : String

namespace Manifest

/-- The path of the default language's strings. -/
def defaultPath (manifest : Manifest) : String := Path.join manifest.folder manifest.default.path

/-- A language with its dataset behind a loader. -/
def languageInfo (folder : String) (entry : LanguageEntry) : LanguageInfo DatasetSource where
  source := .loader (entry.source.below folder)
  direction := entry.direction

/-- The configuration that a manifest describes, given the default language's strings. -/
def configuration (manifest : Manifest) (schema : Schema) : Configuration DatasetSource where
  default := ⟨manifest.default.code, schema, manifest.default.direction⟩
  languages := manifest.languages.map fun (code, entry) =>
    (code, languageInfo manifest.folder entry)
  negotiates := manifest.negotiates
  remembers := manifest.remembers
  fade :=
    let fade : Fade := {}
    { color := manifest.fadeColor.getD fade.color
      duration := (manifest.fadeMillis.map Duration.ofMillis).getD fade.duration }
  mode := manifest.mode.getD .development

end Manifest

end Phrasebook
