import Phrasebook.Host
import Phrasebook.Session.Start
import Phrasebook.Session.Switching

/-!
# Rehearsals

A rehearsal runs a session on one thread with scripted loaders and a scripted store, a clock that
moves only when it is told to, and gates that open only when they are told to. Jobs that can run
stand in a queue, first in first out. The session is moved by `Session.request` and
`Session.resume` alone.
-/

namespace Phrasebook

/-! ## Scripts

Stand-ins for loaders and stores that follow a script: each call takes the next turn of it, and
the last turn is repeated. A turn first pauses, at a gate or for some time, and then has its
outcome.
-/

inductive Pause where
  | gate (name : String)
  | sleep (ms : Nat)
  deriving DecidableEq, Repr

structure ScriptTurn (α : Type) where
  pauses : List Pause
  outcome : α

/-- The turns to come; the last one stays. -/
abbrev Script (α : Type) := List (ScriptTurn α)

/-- The next turn of a script, and the script after it. -/
def Script.next? {α : Type} : Script α → Option (ScriptTurn α) × Script α
  | [] => (none, [])
  | [turn] => (some turn, [turn])
  | turn :: rest => (some turn, rest)

/-- A loader's script: what it delivers. -/
abbrev LoaderScript := Script (Except Failure Json)

/-- A script of one operation of a store: the fault with which it answers, if any. -/
abbrev StoreScript := Script (Option StoreFault)

/-- A store kept in memory whose operations follow scripts. -/
structure ScriptedStore where
  /-- False for the store of a host without storage. -/
  isAvailable : Bool := true
  contents : List (String × String) := []
  gets : StoreScript := []
  sets : StoreScript := []

namespace ScriptedStore

/-- The value under a key, whatever the scripts say. -/
def value? (store : ScriptedStore) (key : String) : Option String := store.contents.lookup key

def put (store : ScriptedStore) (key value : String) : ScriptedStore :=
  { store with contents := (key, value) :: store.contents.filter (·.1 ≠ key) }

def nextSet (store : ScriptedStore) : ScriptTurn (Option StoreFault) × ScriptedStore :=
  let (turn, sets) := store.sets.next?
  (turn.getD ⟨[], if store.isAvailable then none else some .unavailable⟩, { store with sets })

def nextGet (store : ScriptedStore) : ScriptTurn (Option StoreFault) × ScriptedStore :=
  let (turn, gets) := store.gets.next?
  (turn.getD ⟨[], if store.isAvailable then none else some .unavailable⟩, { store with gets })

/-- The store for a caller who sits out every pause. -/
def preferences : PreferenceStore (StateM ScriptedStore) where
  get key := do
    let (turn, store) := (← get).nextGet
    set store
    match turn.outcome with
    | some fault => return .error fault
    | none => return .ok (store.value? key)
  set key value := do
    let (turn, store) := (← get).nextSet
    match turn.outcome with
    | some fault => do
      set store
      return .error fault
    | none => do
      set (store.put key value)
      return .ok ()

end ScriptedStore

/-! ## Jobs -/

inductive Job where
  /-- A client's request for a language, whose outcome is reported under `id`. -/
  | call (id code : String)
  /-- The switch of a generation. -/
  | switch (generation : Nat)
  /-- A client that waits for a settled snapshot. -/
  | settle (id : String)
  deriving DecidableEq, Repr

inductive Ending where
  | refused (reply : Reply) (code : String)
  | switched (result : Except Fault Outcome)
  | settled (snapshot : Snapshot)

structure Gate where
  units : Nat := 0
  waiting : List Nat := []

/-- An errand on its way: the pauses still ahead, and the answer after them. -/
structure Underway where
  generation : Nat
  pauses : List Pause
  answer : Answer

structure Subscription where
  id : String
  seen : Nat

structure Rehearsal where
  /-- Loaders are numbered in the order of their scripts. -/
  session : Session Nat
  loaders : List LoaderScript
  store : ScriptedStore
  clock : Nat := 0
  /-- The time up to which sleepers have been woken. -/
  woken : Nat := 0
  gates : List (String × Gate) := []
  /-- Switches that sleep, with the time at which they wake. -/
  sleepers : List (Nat × Nat) := []
  underway : List Underway := []
  queue : List Job := []
  /-- Clients that wait for the next snapshot to see whether it is settled. -/
  watching : List String := []
  /-- The clients whose switches are on their way. -/
  clients : List (Nat × String) := []
  endings : List (String × Ending) := []
  /-- How much of what the presentation was told has been reported. -/
  reported : Nat := 0
  subscriptions : List Subscription := []
  held : List (String × Snapshot) := []

namespace Rehearsal

def enqueue (r : Rehearsal) (jobs : List Job) : Rehearsal := { r with queue := r.queue ++ jobs }

def gate (r : Rehearsal) (name : String) : Gate := (r.gates.lookup name).getD {}

def setGate (r : Rehearsal) (name : String) (gate : Gate) : Rehearsal :=
  { r with gates := (name, gate) :: r.gates.filter (·.1 ≠ name) }

/-- Puts a session in place of the one before; if it has a new snapshot, the clients that watch
for one are let go on. -/
def move (r : Rehearsal) (session : Session Nat) : Rehearsal :=
  if session.revision = r.session.revision then { r with session }
  else { r with session, watching := [] }.enqueue (r.watching.map .settle)

def conclude (r : Rehearsal) (id : String) (ending : Ending) : Rehearsal :=
  { r with endings := r.endings ++ [(id, ending)] }

/-- Resumes a switch, lets those go on that it woke, and reports its ending if it has ended.
There is no such run if the switch cannot be resumed with this answer. -/
def resume? (r : Rehearsal) (generation : Nat) (answer : Answer) : Option Rehearsal :=
  (r.session.resume generation answer).map fun session =>
    let r := (r.enqueue (session.woken.map .switch)).move session
    match session.result? generation, r.clients.lookup generation with
    | some result, some id => r.conclude id (.switched result)
    | _, _ => r

/-- Starts an errand: the store and the loaders take the next turn of their scripts. -/
def begin (r : Rehearsal) (generation : Nat) : Errand Nat → Rehearsal
  | .write _ =>
    let (turn, store) := r.store.nextSet
    { r with
      store
      underway := ⟨generation, turn.pauses, .stored turn.outcome.isNone⟩ :: r.underway }
  | .load loader =>
    let (turn, script) := ((r.loaders[loader]?).getD []).next?
    let turn := turn.getD ⟨[], .ok .null⟩
    { r with
      loaders := r.loaders.set loader script
      underway := ⟨generation, turn.pauses, .loaded turn.outcome⟩ :: r.underway }
  | .fade =>
    let pause := Pause.sleep r.session.fade.duration.ticks
    { r with underway := ⟨generation, [pause], .proceed⟩ :: r.underway }

/-- What a step of an errand leads to. -/
inductive Advance where
  | running (r : Rehearsal)
  | waiting (r : Rehearsal)

def underway? (r : Rehearsal) (generation : Nat) : Option Underway :=
  r.underway.find? (·.generation = generation)

/-- The errand of a switch with `pauses` ahead. -/
def setPauses (r : Rehearsal) (generation : Nat) (pauses : List Pause) : Rehearsal :=
  { r with
    underway := r.underway.map fun u =>
      if u.generation = generation then { u with pauses } else u }

/-- A switch meets a pause: a free gate lets it through, and so does a sleep that ends no later
than those whose sleepers have been woken. -/
def meet (r : Rehearsal) (generation : Nat) : Pause → Advance
  | .gate name =>
    let gate := r.gate name
    if 0 < gate.units then .running (r.setGate name { gate with units := gate.units - 1 })
    else .waiting (r.setGate name { gate with waiting := gate.waiting ++ [generation] })
  | .sleep ms =>
    if r.clock + ms ≤ r.woken then .running r
    else .waiting { r with sleepers := r.sleepers ++ [(r.clock + ms, generation)] }

/-- The errand of a switch is over: the store is written if that is what it was for. -/
def deliver? (r : Rehearsal) (u : Underway) : Option Rehearsal :=
  let r := { r with underway := r.underway.filter (·.generation ≠ u.generation) }
  let r :=
    match u.answer, r.session.errand? u.generation with
    | .stored true, some (.write code) => { r with store := r.store.put languageKey code }
    | _, _ => r
  r.resume? u.generation u.answer

/-- One step of a switch: the next pause or the end of its errand, the start of one, or a run
inside the session. -/
def advance (r : Rehearsal) (generation : Nat) : Advance :=
  match r.underway? generation with
  | some u =>
    match u.pauses with
    | pause :: rest => (r.setPauses generation rest).meet generation pause
    | [] =>
      match r.deliver? u with
      | some next => .running next
      | none => .waiting r
  | none =>
    match r.session.errand? generation with
    | some errand => .running (r.begin generation errand)
    | none =>
      match r.resume? generation .proceed with
      | some next => .running next
      | none => .waiting r

/-- Lets a switch run until it has to wait or has ended, for at most `steps` steps. -/
def drive (generation : Nat) : Nat → Rehearsal → Rehearsal
  | 0, r => r
  | steps + 1, r =>
    match r.advance generation with
    | .running next => drive generation steps next
    | .waiting next => next

/-- More steps than a switch can take: it has at most three errands with two pauses each, and
runs at most five times inside the session. -/
def driveSteps : Nat := 32

def runJob (r : Rehearsal) : Job → Rehearsal
  | .call id code =>
    match r.session.request code with
    | (session, .accepted generation) =>
      let r := r.move session
      drive generation driveSteps { r with clients := (generation, id) :: r.clients }
    | (_, reply) => r.conclude id (.refused reply code)
  | .switch generation => drive generation driveSteps r
  | .settle id =>
    if r.session.snapshot.isSettled then r.conclude id (.settled r.session.snapshot)
    else { r with watching := r.watching ++ [id] }

def runQueue : Nat → Rehearsal → Rehearsal
  | 0, r => r
  | jobs + 1, r =>
    match r.queue with
    | [] => r
    | job :: rest => runQueue jobs (runJob { r with queue := rest } job)

/-- Runs everything that can run. A switch is let go on at most three times by others, and each
of its snapshots lets every watching client look once, so the number of jobs is bounded by the
square of those there are. -/
def drain (r : Rehearsal) : Rehearsal :=
  let jobs := r.queue.length + r.session.switches.length + r.watching.length + 1
  runQueue (16 * jobs * jobs) r

def wakeSleepers (r : Rehearsal) : Rehearsal :=
  let (due, later) := r.sleepers.partition fun sleeper => decide (sleeper.1 ≤ r.clock)
  let r := { r with woken := r.clock, sleepers := later }
  r.enqueue (due.map fun sleeper => .switch sleeper.2)

/-- The clock moves on by one millisecond, and then everything that can runs: first what was
already in the queue, then the sleepers whose time has come. -/
def tick (r : Rehearsal) : Rehearsal :=
  let r := { r with clock := r.clock + 1 }
  r.drain.wakeSleepers.drain

/-- Adds units to a gate and hands them to the switches that wait there. -/
def release (r : Rehearsal) (name : String) (units : Nat) : Rehearsal :=
  let gate := r.gate name
  let free := gate.units + units
  let passing := gate.waiting.take free
  (r.setGate name { units := free - passing.length, waiting := gate.waiting.drop free }).enqueue
    (passing.map .switch)

end Rehearsal

/-! ## Steps

What can be done to a session from outside, one step after the other, and what can be seen after
each.
-/

inductive Step where
  /-- A client asks for a language and waits for the outcome. -/
  | call (id code : String)
  /-- A language is asked for, and nobody waits. -/
  | request (code : String)
  /-- A client waits for a settled snapshot. -/
  | settle (id : String)
  | release (gate : String) (units : Nat)
  | advance (ms : Nat)
  | subscribe (id : String)
  /-- A subscriber looks at the newest snapshot. -/
  | poll (id : String)
  /-- Keeps the current snapshot. -/
  | hold (id : String)
  /-- Nothing is done. -/
  | rest
  deriving DecidableEq, Repr

namespace Rehearsal

/-- The rehearsal after a step, before anything runs because of it. -/
def step (r : Rehearsal) : Step → Rehearsal
  | .call id code => r.enqueue [.call id code]
  | .request code =>
    match r.session.request code with
    | (session, .accepted generation) => (r.move session).enqueue [.switch generation]
    | _ => r
  | .settle id => r.enqueue [.settle id]
  | .release gate units => r.release gate units
  | .advance ms => (List.range ms).foldl (fun r _ => r.tick) r
  | .subscribe id =>
    { r with
      subscriptions := ⟨id, r.session.revision⟩ :: r.subscriptions.filter (·.id ≠ id) }
  | .poll id =>
    { r with
      subscriptions := r.subscriptions.map fun s =>
        if s.id = id then { s with seen := r.session.revision } else s }
  | .hold id => { r with held := (id, r.session.snapshot) :: r.held }
  | .rest => r

/-- What a subscriber would see: whether there is a snapshot that it has not seen. -/
def poll? (r : Rehearsal) (id : String) : Option Bool :=
  (r.subscriptions.find? (·.id = id)).map fun s => s.seen ≠ r.session.revision

/-- The snapshot kept under `id`, else the current one. -/
def snapshot (r : Rehearsal) (id : String) : Snapshot :=
  (r.held.lookup id).getD r.session.snapshot

/-- What happened since the last report: the endings by the identifiers of their jobs, and what
the presentation was told. -/
structure News where
  endings : List (String × Ending)
  applied : List (String × Direction)

def report (r : Rehearsal) : News × Rehearsal :=
  ({ endings := r.endings.mergeSort fun a b => !(b.1 < a.1)
     applied := r.session.applied.drop r.reported },
   { r with endings := [], reported := r.session.applied.length })

/-- A rehearsal of the session that a configuration starts. The switch of its first language,
if it has one, is in the queue. -/
def start (config : Configuration Nat) (loaders : List LoaderScript) (locked : Option String)
    (store : ScriptedStore) (preferences : Option (List String)) : Except Fault Rehearsal :=
  let (started, store) := (Session.start config locked ScriptedStore.preferences preferences).run
    store
  started.map fun session =>
    { session, loaders, store, queue := session.switches.map fun s => .switch s.generation }

end Rehearsal

end Phrasebook
