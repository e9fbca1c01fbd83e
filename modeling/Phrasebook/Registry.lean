import Phrasebook.Accessor
import Phrasebook.Json.Basic
import Phrasebook.Language
import Phrasebook.Retry
import Phrasebook.Text.Quoted

/-!
# The registry

The languages of a session in the order of their codes. A language's dataset is kept in a cell
that is filled at most once: inline datasets fill it from the start, a loader by its first call
that succeeds. Calls of one loader take turns, so callers that come while one runs share its
outcome if it succeeds, and try for themselves, one after the other, if it fails.
-/

namespace Phrasebook

/-! ## Configuration

Everything a session is started from. `L` is the type of loaders: a value that stands for a way to
get a dataset later.
-/

inductive Source (L : Type) where
  | inline (dataset : Json)
  | loader (loader : L)

def Source.summary {L : Type} : Source L → String
  | inline _ => "Inline(..)"
  | loader _ => "Loader(..)"

structure LanguageInfo (L : Type) where
  source : Source L
  direction : Direction

structure DefaultStrings where
  code : String
  schema : Schema
  direction : Direction

/-- The overlay shown while a freshly loaded language settles in. -/
structure Fade where
  color : String := "black"
  duration : Duration := .ofMillis 200
  deriving DecidableEq, Repr

structure Configuration (L : Type) where
  default : DefaultStrings
  /-- The other languages, in the order in which they were configured. -/
  languages : List (String × LanguageInfo L)
  /-- Whether the host's preferences choose the first language. -/
  negotiates : Bool := false
  /-- Whether the chosen language is stored. -/
  remembers : Bool := false
  fade : Fade := {}
  mode : FallbackMode := .development

/-! ## Turns

One caller at a time, first come first served: whoever asks while the turn is taken waits, and a
turn that is passed on goes to the caller who has waited longest. Callers are numbers.
-/

structure Turn where
  /-- The caller whose turn it is. -/
  holder : Option Nat := none
  /-- The callers behind it, the longest wait first. -/
  waiting : List Nat := []
  deriving DecidableEq, Repr

namespace Turn

/-- `caller` asks for a turn. The answer says whether it is its turn already. -/
def ask (turn : Turn) (caller : Nat) : Turn × Bool :=
  match turn.holder with
  | none => ({ turn with holder := some caller }, true)
  | some _ => ({ turn with waiting := turn.waiting ++ [caller] }, false)

/-- The turn is passed on. The answer is the caller who has it now. -/
def pass (turn : Turn) : Turn × Option Nat :=
  match turn.waiting with
  | [] => ({ holder := none, waiting := [] }, none)
  | next :: rest => ({ holder := some next, waiting := rest }, some next)

end Turn

/-! ## Load metrics

Counters of one session: how its switches found their dataset, how its loader calls ended, and
how many switches were superseded.
-/

structure Metrics where
  /-- Switches whose dataset was there. -/
  cacheHits : Nat := 0
  /-- Switches that had to wait for a loader. -/
  cacheMisses : Nat := 0
  loaderCalls : Nat := 0
  loaderFailures : Nat := 0
  superseded : Nat := 0
  deriving DecidableEq, Repr

namespace Metrics

def hit (m : Metrics) : Metrics := { m with cacheHits := m.cacheHits + 1 }

def miss (m : Metrics) : Metrics := { m with cacheMisses := m.cacheMisses + 1 }

def call (m : Metrics) : Metrics := { m with loaderCalls := m.loaderCalls + 1 }

def failure (m : Metrics) : Metrics := { m with loaderFailures := m.loaderFailures + 1 }

def discard (m : Metrics) : Metrics := { m with superseded := m.superseded + 1 }

/-- `part` of `whole` as a percentage; nothing of nothing is zero. -/
def percentage (part whole : Nat) : Float :=
  if whole = 0 then 0 else part.toFloat / whole.toFloat * 100

/-- The share of switches that found their dataset. -/
def hitRate (m : Metrics) : Float := percentage m.cacheHits (m.cacheHits + m.cacheMisses)

/-- The share of loader calls that did not fail. A failure is counted after its call, so within a
session there are never more failures than calls. -/
def successRate (m : Metrics) : Float :=
  percentage (m.loaderCalls - m.loaderFailures) m.loaderCalls

end Metrics

/-! ## Languages -/

/-- A dataset that is written at most once. -/
structure Cell where
  dataset : Option Json
  /-- Whose turn it is to call the loader. -/
  turn : Turn := {}

namespace Cell

inductive Ticket where
  | dataset (value : Json)
  | turn
  | queued

/-- `caller` asks for the dataset. -/
def ask (cell : Cell) (caller : Nat) : Cell × Ticket :=
  match cell.dataset with
  | some value => (cell, .dataset value)
  | none =>
    let (turn, granted) := cell.turn.ask caller
    ({ cell with turn }, if granted then .turn else .queued)

/-- The dataset has come. The answer lists the callers that waited for it. -/
def fill (cell : Cell) (value : Json) : Cell × List Nat :=
  ({ dataset := some value }, cell.turn.waiting)

def fail (cell : Cell) : Cell × Option Nat :=
  let (turn, next) := cell.turn.pass
  ({ cell with turn }, next)

end Cell

/-- The dataset in what a loader delivers: the `default` member of a module, if that is an
object, and the value itself otherwise. -/
def unwrapModule (value : Json) : Json :=
  match value.get? "default" with
  | some (.obj fields) => .obj fields
  | _ => value

structure Language (L : Type) where
  code : String
  direction : Direction
  loader : Option L
  cell : Cell

namespace Language

variable {L : Type}

def ofInfo (code : String) (info : LanguageInfo L) : Language L :=
  match info.source with
  | .inline dataset =>
    { code, direction := info.direction, loader := none, cell := { dataset := some dataset } }
  | .loader loader =>
    { code, direction := info.direction, loader := some loader, cell := { dataset := none } }

/-- The default language, whose dataset is the schema. -/
def ofDefault (strings : DefaultStrings) : Language L :=
  { code := strings.code, direction := strings.direction, loader := none,
    cell := { dataset := some strings.schema.value } }

def isLoaded (language : Language L) : Bool := language.cell.dataset.isSome

def hasLoader (language : Language L) : Bool := language.loader.isSome

def summary (language : Language L) : String :=
  "LanguageEntry \x7b code: " ++ Text.quoted language.code
    ++ ", direction: " ++ language.direction.name
    ++ ", loaded: " ++ toString language.isLoaded
    ++ ", has_loader: " ++ toString language.hasLoader ++ " \x7d"

def noLoader : Failure := ⟨[], .text "no dataset and no loader configured"⟩

end Language

/-- The languages of a session, ascending by code. -/
structure Registry (L : Type) where
  defaultCode : String
  languages : List (Language L)

namespace Registry

variable {L : Type}

def find? (registry : Registry L) (code : String) : Option (Language L) :=
  registry.languages.find? (·.code = code)

def contains (registry : Registry L) (code : String) : Bool :=
  registry.languages.any (·.code = code)

def codes (registry : Registry L) : List String := registry.languages.map (·.code)

/-- `language` at its place among ascending languages, unless its code is taken. -/
def insert (language : Language L) : List (Language L) → List (Language L)
  | [] => [language]
  | other :: rest =>
    if language.code < other.code then language :: other :: rest
    else if language.code = other.code then other :: rest
    else other :: insert language rest

/-- The registry of a configuration. The default language comes first and of several languages
with one code the first is taken. -/
def ofConfiguration (config : Configuration L) : Registry L where
  defaultCode := config.default.code
  languages :=
    config.languages.foldl (fun languages (code, info) => insert (.ofInfo code info) languages)
      [.ofDefault config.default]

def setCell (registry : Registry L) (code : String) (cell : Cell) : Registry L :=
  { registry with
    languages := registry.languages.map fun language =>
      if language.code = code then { language with cell } else language }

end Registry

/-! ## Loading

Callers come for the dataset of a language, at any time and any number of them. If it is not there,
the first calls the loader, and whoever comes while the call is under way waits. If the call
succeeds, all get what it delivered; if it fails, its caller gets the failure, and the caller who
has waited longest calls the loader in turn.
-/

inductive Caller where
  /-- Behind another caller. -/
  | queued
  /-- Was given the turn to call the loader. -/
  | holdingTurn
  /-- Its call of the loader is under way. -/
  | calling
  /-- The call that it waited for succeeded. -/
  | served
  | done (result : Except Fault Json)

namespace Caller

def result? : Caller → Option (Except Fault Json)
  | done result => some result
  | _ => none

def isCalling : Caller → Bool
  | calling => true
  | _ => false

end Caller

/-- A language and those who have come for its dataset, numbered as they came. -/
structure Loading (L : Type) where
  language : Language L
  metrics : Metrics
  callers : List Caller := []

namespace Loading

variable {L : Type}

def inFlight (loading : Loading L) : Nat := loading.callers.countP (·.isCalling)

def setCell (loading : Loading L) (cell : Cell) : Loading L :=
  { loading with language := { loading.language with cell } }

def move (loading : Loading L) (callers : List Nat) (stage : Caller) : Loading L :=
  { loading with
    callers := loading.callers.mapIdx fun caller old => if caller ∈ callers then stage else old }

def join (loading : Loading L) (stage : Caller) : Loading L :=
  { loading with callers := loading.callers ++ [stage] }

def fail (loading : Loading L) (caller : Nat) (failure : Failure) : Loading L :=
  let (cell, next) := loading.language.cell.fail
  let loading := (loading.setCell cell).move next.toList .holdingTurn
  loading.move [caller] (.done (.error (.loadFailure loading.language.code failure)))

def call (loading : Loading L) (caller : Nat) : Loading L :=
  match loading.language.loader with
  | some _ => { loading with metrics := loading.metrics.call }.move [caller] .calling
  | none => loading.fail caller Language.noLoader

def arrive (loading : Loading L) : Loading L :=
  let caller := loading.callers.length
  match loading.language.cell.ask caller with
  | (_, .dataset value) => loading.join (.done (.ok value))
  | (cell, .queued) => (loading.setCell cell).join .queued
  | (cell, .turn) => ((loading.setCell cell).join .holdingTurn).call caller

def proceed (loading : Loading L) (caller : Nat) : Loading L :=
  match loading.callers[caller]?, loading.language.cell.dataset with
  | some .holdingTurn, _ => loading.call caller
  | some .served, some value => loading.move [caller] (.done (.ok value))
  | _, _ => loading

/-- The dataset has come, and all who waited for it are served. -/
def fill (loading : Loading L) (caller : Nat) (dataset : Json) : Loading L :=
  let (cell, waiters) := loading.language.cell.fill dataset
  ((loading.setCell cell).move waiters .served).move [caller] (.done (.ok dataset))

/-- The loader call of a caller has ended, if there is one under way. -/
def finish (loading : Loading L) (caller : Nat) (result : Except Failure Json) : Loading L :=
  match loading.callers[caller]?, result with
  | some .calling, .ok value => loading.fill caller (unwrapModule value)
  | some .calling, .error failure =>
    { loading with metrics := loading.metrics.failure }.fail caller failure
  | _, _ => loading

variable {m : Type → Type} [Monad m]

/-- A caller goes on to its end, and its call of the loader is waited for if it makes one. -/
def serve (call : String → L → m (Except Failure Json)) (loading : Loading L) (caller : Nat) :
    m (Loading L) := do
  let loading := loading.proceed caller
  match loading.callers[caller]?, loading.language.loader with
  | some .calling, some loader =>
    let result ← call loading.language.code loader
    return loading.finish caller result
  | _, _ => return loading

end Loading

namespace Registry

variable {m : Type → Type} [Monad m] {L : Type}

/-- What callers get who come together for the dataset of a language and wait for it, in the order
in which they came. Nobody gets anything if the language is not registered. -/
def loadTogether (call : String → L → m (Except Failure Json)) (registry : Registry L)
    (metrics : Metrics) (code : String) (callers : Nat) :
    m (Registry L × Metrics × List (Except Fault Json)) := do
  match registry.find? code with
  | none => return (registry, metrics, [])
  | some language =>
    let loading := (List.range callers).foldl (fun loading _ => loading.arrive)
      { language, metrics : Loading L }
    let loading ← (List.range callers).foldlM (Loading.serve call) loading
    return (registry.setCell code loading.language.cell, loading.metrics,
      loading.callers.filterMap (·.result?))

def load (call : String → L → m (Except Failure Json)) (registry : Registry L)
    (metrics : Metrics) (code : String) :
    m (Registry L × Metrics × Option (Except Fault Json)) := do
  let (registry, metrics, results) ← registry.loadTogether call metrics code 1
  return (registry, metrics, results.head?)

end Registry

end Phrasebook
