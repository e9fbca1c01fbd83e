import Phrasebook.Host
import Phrasebook.Language
import Phrasebook.Registry
import Phrasebook.Session.Switching

/-!
# Starting a session

A session starts in its first language at once if the dataset is there. Otherwise it shows the
default language's content while the first switch loads the other; nothing is stored by that
switch.
-/

namespace Phrasebook

/-! ## The first language

A lock decides alone. Otherwise a stored language that is registered is taken, else the host's
preferences choose, else the default language; what was chosen is stored. If the store fails, the
default language it is.
-/

section

variable {m : Type → Type} [Monad m] {L : Type}

/-- The choice without a stored language. -/
def Registry.choose (registry : Registry L) (defaultCode : String) (negotiates : Bool)
    (preferences : Option (List String)) : String :=
  if negotiates then negotiate registry.codes preferences defaultCode else defaultCode

/-- The language that a session starts in. -/
def Registry.initial (registry : Registry L) (defaultCode : String) (locked : Option String)
    (remembers negotiates : Bool) (store : PreferenceStore m)
    (preferences : Option (List String)) : m String :=
  match locked with
  | some code => return code
  | none =>
    let chosen := registry.choose defaultCode negotiates preferences
    if remembers then do
      match ← store.get languageKey with
      | .error _ => return defaultCode
      | .ok saved =>
        match saved.filter registry.contains with
        | some code => return code
        | none =>
          match ← store.set languageKey chosen with
          | .ok () => return chosen
          | .error _ => return defaultCode
    else return chosen

end

/-! ## The start -/

namespace Session

variable {L : Type}

/-- A session that shows `snapshot` and has had no request. -/
def opening (config : Configuration L) (registry : Registry L) (locked : Option String)
    (snapshot : Snapshot) : Session L where
  default := config.default
  registry
  mode := config.mode
  fade := config.fade
  locked
  remembers := config.remembers
  generation := 0
  snapshot
  revision := 0
  lock := {}
  written := []
  applied := []
  metrics := {}
  switches := []
  woken := []

def openIn (config : Configuration L) (registry : Registry L) (locked : Option String)
    (initial : String) : Except Fault (Session L) := do
  let found := registry.find? initial
  let direction := (found.map (·.direction)).getD config.default.direction
  let schema := config.default.schema
  match found.bind (·.cell.dataset) with
  | some content =>
    let snapshot ← view schema config.mode initial direction content false true
    let session := opening config registry locked snapshot
    return { session with applied := [(initial, direction)] }
  | none =>
    let snapshot ←
      view schema config.mode config.default.code config.default.direction schema.value false false
    let session := opening config registry locked { snapshot with pending := some initial }
    return { session with generation := 1, switches := [⟨initial, 1, .resolving⟩] }

/-- Starts a session; a lock on a language that is not registered is refused before anything
else is done. -/
def start {m : Type → Type} [Monad m] (config : Configuration L) (locked : Option String)
    (store : PreferenceStore m) (preferences : Option (List String)) :
    m (Except Fault (Session L)) := do
  let registry := Registry.ofConfiguration config
  match locked.filter fun code => !registry.contains code with
  | some code => return .error (.missingLanguage code)
  | none =>
    let initial ← registry.initial config.default.code locked config.remembers config.negotiates
      store preferences
    return openIn config registry locked initial

end Session

/-! ## Serving

A session whose errands are done at once, one switch after the other, by a store, loaders and a
clock. This is how a program uses a session that nobody else uses.
-/

/-- What does the errands of a session. -/
structure Services (m : Type → Type) (L : Type) where
  store : PreferenceStore m
  load : L → m (Except Failure Json)
  wait : Duration → m Unit

inductive Change where
  | locked
  | unchanged
  | switched (outcome : Outcome)
  deriving DecidableEq, Repr

variable {m : Type → Type} [Monad m] {L : Type}

def Services.serve (services : Services m L) (fade : Fade) : Errand L → m Answer
  | .write code => do
    match ← services.store.set languageKey code with
    | .ok () => return .stored true
    | .error _ => return .stored false
  | .load loader => return .loaded (← services.load loader)
  | .fade => do
    services.wait fade.duration
    return .proceed

namespace Session

/-- Runs a switch for at most `steps` steps, as long as there is something to do for it. -/
def serveSteps (services : Services m L) (generation : Nat) : Nat → Session L → m (Session L)
  | 0, session => return session
  | steps + 1, session => do
    let answer ←
      match session.errand? generation with
      | some errand => services.serve session.fade errand
      | none => pure .proceed
    match session.resume generation answer with
    | some session => serveSteps services generation steps session
    | none => return session

/-- Runs a switch to its end. Alone in its session it is resumed at most four times: it is
accepted, and then it waits for the store, for the loader and for the fade. -/
def serve (services : Services m L) (generation : Nat) (session : Session L) : m (Session L) :=
  serveSteps services generation 4 session

/-- Runs every switch to its end, the oldest first. -/
def serveAll (services : Services m L) (session : Session L) : m (Session L) :=
  session.switches.foldlM (fun session switch => session.serve services switch.generation) session

/-- Asks for a language and runs the switch to its end. -/
def change (services : Services m L) (code : String) (session : Session L) :
    m (Session L × Except Fault Change) := do
  match session.request code with
  | (session, .locked) => return (session, .ok .locked)
  | (session, .unregistered) => return (session, .error (.missingLanguage code))
  | (session, .unchanged) => return (session, .ok .unchanged)
  | (session, .accepted generation) =>
    let session ← session.serve services generation
    match session.result? generation with
    | some result => return (session, result.map .switched)
    | none => return (session, .ok (.switched .superseded))

end Session

/-- The store of a program that keeps nothing: what is stored is gone when the program ends. -/
def PreferenceStore.forgetful : PreferenceStore m where
  get _ := return .ok none
  set _ _ := return .ok ()

end Phrasebook
