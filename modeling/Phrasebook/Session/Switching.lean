import Phrasebook.Session.Basic

/-!
# Switching

`Session.resume` lets one switch run from one wait to the next: it stores its code unless a newer
one is stored, looks its dataset up or loads it, publishes if it is still the newest, and after a
fresh load waits for the fade before the snapshot is ready. A load that fails shows the default
language's content under the code that was asked for.

A wait for the world outside is an `Errand`; what came of it is the `Answer` with which the
switch is resumed.
-/

namespace Phrasebook

/-- What a switch waits for outside the session. -/
inductive Errand (L : Type) where
  /-- The store keeps a code. -/
  | write (code : String)
  /-- A loader delivers a dataset. -/
  | load (loader : L)
  /-- The fade is over. -/
  | fade

/-- What a switch is resumed with. -/
inductive Answer where
  | proceed
  | stored (success : Bool)
  | loaded (result : Except Failure Json)

namespace Session

variable {L : Type}

def finish (session : Session L) (switch : Switch) (result : Except Fault Outcome) : Session L :=
  session.setStage switch.generation (.ended result)

/-- Ends a switch that a newer request has overtaken. -/
def discard (session : Session L) (switch : Switch) : Session L :=
  { session with metrics := session.metrics.discard }.finish switch (.ok .superseded)

/-- Publishes what a switch came to and tells the presentation, unless it was overtaken. A fresh
dataset fades in. -/
def resolve (session : Session L) (switch : Switch) (direction : Direction) (content : Json)
    (fallback fresh : Bool) : Session L :=
  match view session.default.schema session.mode switch.code direction content fallback (!fresh)
  with
  | .error fault => session.finish switch (.error fault)
  | .ok snapshot =>
    if session.generation = switch.generation then
      let session := session.publish snapshot
      let session :=
        { session with applied := session.applied ++ [(switch.code, direction)] }
      if fresh then session.setStage switch.generation .fading
      else session.finish switch (.ok (if fallback then .fellBack else .applied))
    else session.discard switch

def fallBack (session : Session L) (switch : Switch) : Session L :=
  session.resolve switch session.default.direction session.default.schema.value true false

def failLoad (session : Session L) (switch : Switch) (language : Language L) : Session L :=
  let (cell, next) := language.cell.fail
  let session := { session with registry := session.registry.setCell switch.code cell }
  let session :=
    match next with
    | some waiter => session.wake waiter .holdingTurn
    | none => session
  session.fallBack switch

def fillCell (session : Session L) (switch : Switch) (language : Language L) (dataset : Json) :
    Session L :=
  let (cell, waiters) := language.cell.fill dataset
  let session := { session with registry := session.registry.setCell switch.code cell }
  let session := waiters.foldl (fun session waiter => session.wake waiter .served) session
  session.resolve switch language.direction dataset false true

def callLoader (session : Session L) (switch : Switch) (language : Language L) : Session L :=
  match language.loader with
  | some _ =>
    { session with metrics := session.metrics.call }.setStage switch.generation .loading
  | none => session.failLoad switch language

def lookUp (session : Session L) (switch : Switch) : Session L :=
  match session.registry.find? switch.code with
  | none => session.finish switch (.error (.missingLanguage switch.code))
  | some language =>
    match language.cell.ask switch.generation with
    | (_, .dataset content) =>
      { session with metrics := session.metrics.hit }.resolve switch language.direction content
        false false
    | (cell, ticket) =>
      let session :=
        { session with
          metrics := session.metrics.miss
          registry := session.registry.setCell switch.code cell }
      match ticket with
      | .turn => session.callLoader switch { language with cell }
      | _ => session.setStage switch.generation .awaitingLoad

/-- Gives the store lock back and goes on. -/
def releaseLock (session : Session L) (switch : Switch) : Session L :=
  let (lock, next) := session.lock.pass
  let session := { session with lock }
  let session :=
    match next with
    | some waiter => session.wake waiter .holdingLock
    | none => session
  session.lookUp switch

/-- With the lock: writes the code, unless a newer request is stored. -/
def write (session : Session L) (switch : Switch) : Session L :=
  if switch.generation ≤ session.persisted then session.releaseLock switch
  else session.setStage switch.generation .writing

/-- The first run of a switch after it was accepted. -/
def persist (session : Session L) (switch : Switch) : Session L :=
  if session.remembers then
    let (lock, granted) := session.lock.ask switch.generation
    let session := { session with lock }
    if granted then session.write switch
    else session.setStage switch.generation .awaitingLock
  else session.lookUp switch

def recordWrite (session : Session L) (switch : Switch) (success : Bool) : Session L :=
  let session :=
    if success then
      { session with written := session.written ++ [(switch.generation, switch.code)] }
    else session
  session.releaseLock switch

def recordLoad (session : Session L) (switch : Switch) (result : Except Failure Json) :
    Session L :=
  match session.registry.find? switch.code with
  | none => session.finish switch (.error (.missingLanguage switch.code))
  | some language =>
    match result with
    | .ok value => session.fillCell switch language (unwrapModule value)
    | .error _ =>
      { session with metrics := session.metrics.failure }.failLoad switch language

def takeServed (session : Session L) (switch : Switch) : Session L :=
  match session.registry.find? switch.code with
  | none => session.finish switch (.error (.missingLanguage switch.code))
  | some language =>
    match language.cell.dataset with
    | some content => session.resolve switch language.direction content false true
    | none => session.fallBack switch

def takeTurn (session : Session L) (switch : Switch) : Session L :=
  match session.registry.find? switch.code with
  | none => session.finish switch (.error (.missingLanguage switch.code))
  | some language => session.callLoader switch language

def settle (session : Session L) (switch : Switch) : Session L :=
  if session.generation = switch.generation then
    (session.publish { session.snapshot with ready := true }).finish switch (.ok .applied)
  else session.discard switch

/-- Runs one switch up to its next wait. There is no such run unless the switch waits for just
this kind of answer. -/
def resume (session : Session L) (generation : Nat) (answer : Answer) : Option (Session L) :=
  let session := { session with woken := [] }
  match session.switch? generation with
  | none => none
  | some switch =>
    match switch.stage, answer with
    | .accepted, .proceed => some (session.persist switch)
    | .resolving, .proceed => some (session.lookUp switch)
    | .holdingLock, .proceed => some (session.write switch)
    | .writing, .stored success => some (session.recordWrite switch success)
    | .holdingTurn, .proceed => some (session.takeTurn switch)
    | .served, .proceed => some (session.takeServed switch)
    | .loading, .loaded result => some (session.recordLoad switch result)
    | .fading, .proceed => some (session.settle switch)
    | _, _ => none

/-- What the switch of a generation waits for outside the session. -/
def errand? (session : Session L) (generation : Nat) : Option (Errand L) :=
  match session.switch? generation with
  | none => none
  | some switch =>
    match switch.stage with
    | .writing => some (.write switch.code)
    | .loading =>
      ((session.registry.find? switch.code).bind fun language => language.loader).map .load
    | .fading => some .fade
    | _ => none

/-- How the switch of a generation ended, if it has. -/
def result? (session : Session L) (generation : Nat) : Option (Except Fault Outcome) :=
  match session.switch? generation with
  | some { stage := .ended result, .. } => some result
  | _ => none

end Session

end Phrasebook
