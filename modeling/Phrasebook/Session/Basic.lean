import Phrasebook.Accessor
import Phrasebook.Registry

/-!
# Sessions

A session is in one language at a time and publishes immutable snapshots of it. Each accepted
request gets the next generation number and a switch that carries it to its end; a switch waits
for the store lock, for the store, for the loader and for the fade, and between two waits it runs
without interruption. Only the switch of the newest generation may publish.
-/

namespace Phrasebook

/-- One immutable view of a session. -/
structure Snapshot where
  language : String
  direction : Direction
  /-- False while a language is loading and while a fresh one fades in. -/
  ready : Bool
  /-- A requested language that has not been resolved yet. -/
  pending : Option String
  /-- The language failed to load, and the content is the default language's. -/
  fallback : Bool
  strings : Strings
  lists : Lists

namespace Snapshot

/-- The language most recently asked for. -/
def requested (snapshot : Snapshot) : String := snapshot.pending.getD snapshot.language

/-- Ready, with nothing pending. -/
def isSettled (snapshot : Snapshot) : Bool := snapshot.ready && snapshot.pending.isNone

end Snapshot

inductive Outcome where
  | applied
  | fellBack
  | superseded
  deriving DecidableEq, Repr

inductive Stage where
  /-- Accepted, and not run since. -/
  | accepted
  /-- About to look its dataset up. -/
  | resolving
  | awaitingLock
  /-- Was given the store lock. -/
  | holdingLock
  /-- The store has been asked to keep its code. -/
  | writing
  /-- Behind another switch that calls the same loader. -/
  | awaitingLoad
  /-- Was given the turn to call the loader. -/
  | holdingTurn
  /-- The load that it waited for succeeded. -/
  | served
  /-- Its loader call is under way. -/
  | loading
  | fading
  | ended (result : Except Fault Outcome)

structure Switch where
  code : String
  generation : Nat
  stage : Stage

structure Session (L : Type) where
  default : DefaultStrings
  registry : Registry L
  mode : FallbackMode
  fade : Fade
  /-- The one language of a locked session. -/
  locked : Option String
  /-- Whether switches store their language. -/
  remembers : Bool
  /-- The number of requests accepted so far. -/
  generation : Nat
  snapshot : Snapshot
  /-- The number of snapshots published so far. -/
  revision : Nat
  /-- Whose turn it is to write to the store. -/
  lock : Turn
  /-- The writes that succeeded, by generation and code, oldest first. -/
  written : List (Nat × String)
  /-- What the presentation was told, oldest first. -/
  applied : List (String × Direction)
  metrics : Metrics
  switches : List Switch
  /-- The switches that the last event let go on, in that order. -/
  woken : List Nat

namespace Session

variable {L : Type}

/-- The generation of the newest request that is stored. -/
def persisted (session : Session L) : Nat := (session.written.getLast?.map (·.1)).getD 0

def switch? (session : Session L) (generation : Nat) : Option Switch :=
  session.switches.find? (·.generation = generation)

/-- The session with the switch of a generation moved to another stage. -/
def setStage (session : Session L) (generation : Nat) (stage : Stage) : Session L :=
  { session with
    switches := session.switches.map fun switch =>
      if switch.generation = generation then { switch with stage } else switch }

def wake (session : Session L) (generation : Nat) (stage : Stage) : Session L :=
  let session := session.setStage generation stage
  { session with woken := session.woken ++ [generation] }

/-- A snapshot of `language` with the given content and nothing pending. -/
def view (schema : Schema) (mode : FallbackMode) (language : String) (direction : Direction)
    (content : Json) (fallback ready : Bool) : Except Fault Snapshot := do
  let strings ← Strings.build schema.value (some content) "" mode
  let lists ← Lists.build schema.value (some content) "" mode
  return { language, direction, ready, pending := none, fallback, strings, lists }

def publish (session : Session L) (snapshot : Snapshot) : Session L :=
  { session with snapshot, revision := session.revision + 1 }

def summary (session : Session L) : String :=
  "LanguageSession \x7b language: " ++ Text.quoted session.snapshot.language
    ++ ", ready: " ++ toString session.snapshot.ready
    ++ ", pending: " ++ Text.quotedOption session.snapshot.pending
    ++ ", locked: " ++ Text.quotedOption session.locked ++ " \x7d"

end Session

/-! ## Requests

A request is accepted unless the session is locked, the language is not registered, or it is the
one that was asked for last. A settled fallback may be asked for again. Accepting changes only
`ready` and `pending` of the snapshot; refusing changes nothing.
-/

inductive Reply where
  | locked
  | unregistered
  | unchanged
  | accepted (generation : Nat)
  deriving DecidableEq, Repr

namespace Session

variable {L : Type}

/-- The language was asked for last, and asking again would not help. -/
def isCurrent (session : Session L) (code : String) : Bool :=
  session.snapshot.requested = code
    && !(session.snapshot.fallback && session.snapshot.pending.isNone)

def request (session : Session L) (code : String) : Session L × Reply :=
  if session.locked.isSome then (session, .locked)
  else if !session.registry.contains code then (session, .unregistered)
  else if session.isCurrent code then (session, .unchanged)
  else
    let generation := session.generation + 1
    let loading := { session.snapshot with ready := false, pending := some code }
    let session := session.publish loading
    ({ session with
        generation
        switches := session.switches ++ [⟨code, generation, .accepted⟩]
        woken := [] },
      .accepted generation)

end Session

end Phrasebook
