import Phrasebook.Proofs.Registry.Callers

/-!
# Callers share one successful load

Callers come at any time, woken callers go on in any order, and loader calls end as they like: a run
is any list of such events. `Step` lists what an event can do, and `Shared` is what holds all along:
the turn of the loader knows who calls and who waits, a caller that is done has the dataset or the
failure of its own call, and no call succeeds after the dataset is there.
-/

namespace Phrasebook

inductive Loading.Event where
  | arrive
  | proceed (caller : Nat)
  | finish (caller : Nat) (result : Except Failure Json)

def Loading.Event.isArrival : Event → Bool
  | arrive => true
  | _ => false

/-- What the loader calls delivered that succeeded, by the loader calls that have ended. -/
def successes (ended : List (Nat × Except Failure Json)) : List Json :=
  ended.filterMap (·.2.toOption)

namespace Loading

variable {L : Type}

def next (l : Loading L) : Event → Loading L
  | .arrive => l.arrive
  | .proceed caller => l.proceed caller
  | .finish caller result => l.finish caller result

def after (l : Loading L) (events : List Event) : Loading L := events.foldl next l

/-- The loader call that an event ends, with its caller. -/
def ended? (l : Loading L) : Event → Option (Nat × Except Failure Json)
  | .finish caller result =>
    match l.callers[caller]? with
    | some .calling => some (caller, result)
    | _ => none
  | _ => none

/-- The loader calls that end in a run, oldest first, with their callers. -/
def ended (l : Loading L) : List Event → List (Nat × Except Failure Json)
  | [] => []
  | event :: rest => (l.ended? event).toList ++ (l.next event).ended rest

end Loading

namespace Caller

/-- The stage of caller `c` agrees with the loader calls that have ended. -/
def Accords (code : String) (dataset : Option Json) (ended : List (Nat × Except Failure Json))
    (c : Nat) : Caller → Prop
  | done (.ok value) => dataset = some value ∧ ∀ failure, (c, .error failure) ∉ ended
  | done (.error fault) =>
    ∃ failure, fault = .loadFailure code failure ∧ (c, .error failure) ∈ ended
  | served => dataset ≠ none ∧ ∀ result, (c, result) ∉ ended
  | _ => ∀ result, (c, result) ∉ ended

variable {code : String} {dataset dataset' : Option Json}
  {ended : List (Nat × Except Failure Json)} {result : Except Failure Json} {c x : Nat}
  {stage : Caller}

theorem mem_snoc_iff (hne : x ≠ c) {other : Except Failure Json} :
    (x, other) ∈ ended ++ [(c, result)] ↔ (x, other) ∈ ended := by
  simp [hne]

theorem Accords.snoc (h : stage.Accords code dataset ended x) (hne : x ≠ c)
    (hgrows : ∀ value, dataset = some value → dataset' = some value) :
    stage.Accords code dataset' (ended ++ [(c, result)]) x := by
  match stage, h with
  | done (.ok value), ⟨hvalue, hnone⟩ =>
    exact ⟨hgrows value hvalue, fun failure => mt (mem_snoc_iff hne).1 (hnone failure)⟩
  | done (.error fault), ⟨failure, hfault, hmem⟩ =>
    exact ⟨failure, hfault, (mem_snoc_iff hne).2 hmem⟩
  | served, ⟨hthere, hnone⟩ =>
    obtain ⟨value, hvalue⟩ := Option.ne_none_iff_exists'.1 hthere
    refine ⟨?_, fun other => mt (mem_snoc_iff hne).1 (hnone other)⟩
    rw [hgrows value hvalue]
    exact Option.some_ne_none value
  | queued, hnone => exact fun other => mt (mem_snoc_iff hne).1 (hnone other)
  | holdingTurn, hnone => exact fun other => mt (mem_snoc_iff hne).1 (hnone other)
  | calling, hnone => exact fun other => mt (mem_snoc_iff hne).1 (hnone other)

end Caller

namespace Loading

variable {L : Type}

/-- The callers of a loading that began as `start` share its loads. -/
structure Shared (start : Loading L) (ended : List (Nat × Except Failure Json)) (l : Loading L) :
    Prop where
  code : l.language.code = start.language.code
  source : l.language.cell.dataset = none → l.language.loader ≠ none
  turn : l.language.cell.turn.Agrees l.role
  free : l.language.cell.dataset ≠ none → l.language.cell.turn.holder = none
  stages : ∀ c stage, l.At c stage →
    stage.Accords start.language.code l.language.cell.dataset ended c
  once : (ended.map (·.1)).Nodup
  returned : ∀ c result, (c, result) ∈ ended → ∃ got, l.At c (.done got)
  dataset : l.language.cell.dataset.toList =
    start.language.cell.dataset.toList ++ (successes ended).map unwrapModule

def enqueue (l : Loading L) : Loading L :=
  l.setCell { l.language.cell with turn := (l.language.cell.turn.ask l.callers.length).1 }

/-- What an event does to callers that share their loads. -/
inductive Step (l : Loading L) : Event → Loading L → Prop where
  | ignored {event : Event} : event.isArrival = false → l.ended? event = none → Step l event l
  /-- The dataset is there. -/
  | given {value : Json} : l.language.cell.dataset = some value →
      Step l .arrive (l.join (.done (.ok value)))
  | queues : l.language.cell.dataset = none → l.language.cell.turn.holder ≠ none →
      Step l .arrive (l.enqueue.join .queued)
  /-- Nobody else calls the loader. -/
  | calls : l.language.cell.dataset = none → l.language.cell.turn.holder = none →
      Step l .arrive { l.enqueue.join .calling with metrics := l.metrics.call }
  | retries {c : Nat} : l.At c .holdingTurn →
      Step l (.proceed c) ({ l with metrics := l.metrics.call }.move [c] .calling)
  | served {c : Nat} {value : Json} : l.At c .served → l.language.cell.dataset = some value →
      Step l (.proceed c) (l.move [c] (.done (.ok value)))
  | failed {c : Nat} {failure : Failure} : l.At c .calling →
      Step l (.finish c (.error failure))
        ({ l with metrics := l.metrics.failure }.fail c failure)
  | filled {c : Nat} {value : Json} : l.At c .calling →
      Step l (.finish c (.ok value)) (l.fill c (unwrapModule value))

variable {start l t : Loading L} {ended : List (Nat × Except Failure Json)} {c x : Nat}
  {stage old : Caller} {waiters : List Nat} {event : Event}

theorem Shared.holder_of (h : Shared start ended l) (hc : l.At c stage)
    (hrole : stage.role = .holding) : l.language.cell.turn.holder = some c :=
  (h.turn.holder c).2 ((role_of hc).trans hrole)

theorem Shared.dataset_of_holding (h : Shared start ended l) (hc : l.At c stage)
    (hrole : stage.role = .holding) : l.language.cell.dataset = none := by
  by_contra hthere
  have hholder := h.holder_of hc hrole
  rw [h.free hthere] at hholder
  cases hholder

/-- The turn has one holder, who is at one stage. -/
theorem Shared.eq_of_holding (h : Shared start ended l) (hc : l.At c stage)
    (hrole : stage.role = .holding) (hx : l.At x old) (hrole' : old.role = .holding) :
    x = c ∧ old = stage := by
  have hholder := h.holder_of hx hrole'
  rw [h.holder_of hc hrole] at hholder
  obtain rfl := Option.some.inj hholder
  exact ⟨rfl, Option.some.inj (hx.symm.trans hc)⟩

theorem ended?_of_calling (hc : l.At c .calling) (result : Except Failure Json) :
    l.ended? (.finish c result) = some (c, result) := by
  unfold ended?
  simp only [hc]

theorem ended?_of_not_calling (hc : ¬ l.At c .calling) (result : Except Failure Json) :
    l.ended? (.finish c result) = none := by
  unfold ended?
  dsimp only
  split
  · next h => exact absurd h hc
  · rfl

theorem Shared.call (h : Shared start ended l) (hnone : l.language.cell.dataset = none)
    (hsame : t.language.loader = l.language.loader) (c : Nat) :
    t.call c = { t with metrics := t.metrics.call }.move [c] .calling := by
  obtain ⟨loader, hloader⟩ := Option.ne_none_iff_exists'.1 (h.source hnone)
  unfold Loading.call
  rw [hsame, hloader]

theorem Shared.arrives (h : Shared start ended l) : l.Step .arrive l.arrive := by
  unfold arrive
  cases hdata : l.language.cell.dataset with
  | some value =>
    simp only [Cell.ask_full hdata]
    exact .given hdata
  | none =>
    by_cases hturn : l.language.cell.turn.holder = none
    · simp only [Cell.ask_free hdata hturn]
      have hcall := h.call (t := l.enqueue.join .holdingTurn) hdata rfl l.callers.length
      have hmove : (l.enqueue.join .holdingTurn).move [l.callers.length] .calling =
          l.enqueue.join .calling := move_join l.enqueue _ _
      have hend :
          { l.enqueue.join .holdingTurn with metrics := l.metrics.call }.move [l.callers.length]
            .calling = { l.enqueue.join .calling with metrics := l.metrics.call } :=
        congrArg (fun m : Loading L => { m with metrics := l.metrics.call }) hmove
      show l.Step .arrive ((l.enqueue.join .holdingTurn).call l.callers.length)
      rw [hcall]
      exact hend ▸ .calls hdata hturn
    · simp only [Cell.ask_taken hdata hturn]
      exact .queues hdata hturn

/-- **What an event does to callers that share their loads.** -/
theorem Shared.step (h : Shared start ended l) (event : Event) : l.Step event (l.next event) := by
  cases event with
  | arrive => exact h.arrives
  | proceed c =>
    show l.Step (.proceed c) (l.proceed c)
    unfold proceed
    split
    · next hc =>
      rw [h.call (h.dataset_of_holding hc rfl) rfl]
      exact .retries hc
    · next hc hdata => exact .served hc hdata
    · exact .ignored rfl rfl
  | finish c result =>
    show l.Step (.finish c result) (l.finish c result)
    unfold finish
    by_cases hc : l.At c .calling
    · simp only [hc]
      cases result with
      | ok value => exact .filled hc
      | error failure => exact .failed hc
    · split
      · next hcalling => exact absurd hcalling hc
      · next hcalling => exact absurd hcalling hc
      · exact .ignored rfl (ended?_of_not_calling hc _)

/-! ## Every step keeps the order -/

theorem Shared.not_mem_length (h : Shared start ended l) (result : Except Failure Json) :
    (l.callers.length, result) ∉ ended := fun hmem => by
  obtain ⟨got, hat⟩ := h.returned _ _ hmem
  exact Nat.lt_irrefl _ (lt_length_of_at hat)

theorem Shared.join (h : Shared start ended l) (turn : Turn) (metrics : Metrics)
    (hturn : turn.Agrees (Function.update l.role l.callers.length stage.role))
    (hfree : l.language.cell.dataset ≠ none → turn.holder = none)
    (hstage : stage.Accords start.language.code l.language.cell.dataset ended l.callers.length) :
    Shared start ended
      { (l.setCell { l.language.cell with turn }).join stage with metrics } where
  code := h.code
  source := h.source
  turn := by
    have hrole := role_join (l.setCell { l.language.cell with turn }) stage
    exact hturn.congr fun x => congrFun hrole x
  free := hfree
  stages x st hx := by
    rcases of_at_join (l := l.setCell { l.language.cell with turn }) hx with ⟨rfl, rfl⟩ | hold
    · exact hstage
    · exact h.stages x st hold
  once := h.once
  returned x result hmem := by
    obtain ⟨got, hat⟩ := h.returned x result hmem
    exact ⟨got, At.join (l := l.setCell { l.language.cell with turn }) hat stage⟩
  dataset := h.dataset

theorem Shared.advance (h : Shared start ended l) (metrics : Metrics) (hc : l.At c old)
    (hnew : ∀ result, (c, result) ∉ ended) (hrole : stage.role = old.role)
    (hstage : stage.Accords start.language.code l.language.cell.dataset ended c) :
    Shared start ended ({ l with metrics }.move [c] stage) where
  code := h.code
  source := h.source
  turn := by
    have hmoved := role_move_self (l := { l with metrics }) hc stage
    refine h.turn.congr fun x => ?_
    rw [hmoved, hrole, ← role_of hc]
    exact congrFun (Function.update_eq_self c l.role) x
  free := h.free
  stages x st hx := by
    obtain ⟨before, hbefore, ⟨hmem, rfl⟩ | ⟨-, rfl⟩⟩ := of_at_move hx
    · rw [List.mem_singleton.1 hmem]; exact hstage
    · exact h.stages x st hbefore
  once := h.once
  returned x result hmem := by
    obtain ⟨got, hat⟩ := h.returned x result hmem
    have hne : x ≠ c := fun e => hnew result (e ▸ hmem)
    exact ⟨got, (at_move_of_not_mem (by simpa using hne) stage).trans hat⟩
  dataset := h.dataset

theorem Shared.leave {result : Except Failure Json} {got : Except Fault Json}
    (h : Shared start ended l) (cell : Cell) (metrics : Metrics) (hc : l.At c .calling)
    (hwaiters : ∀ w ∈ waiters, l.At w .queued)
    (hturn : cell.turn.Agrees fun x =>
      if x = c then .idle else if x ∈ waiters then stage.role else l.role x)
    (hfree : cell.dataset ≠ none → cell.turn.holder = none)
    (hstage : ∀ w, (∀ other, (w, other) ∉ ended ++ [(c, result)]) →
      stage.Accords start.language.code cell.dataset (ended ++ [(c, result)]) w)
    (hgot : (Caller.done got).Accords start.language.code cell.dataset (ended ++ [(c, result)]) c)
    (hdata : cell.dataset.toList = (successes [(c, result)]).map unwrapModule) :
    Shared start (ended ++ [(c, result)])
      { l.release cell waiters stage c got with metrics } := by
  have hnone := h.dataset_of_holding hc rfl
  have hnew : ∀ other, (c, other) ∉ ended := h.stages c _ hc
  constructor
  · exact h.code
  · exact fun _ => h.source hnone
  · have hrole := role_release hc (fun w hw => ⟨_, hwaiters w hw⟩) cell stage got
    exact hturn.congr fun x => congrFun hrole x
  · exact hfree
  · intro x st hx
    rcases of_at_release hx with ⟨rfl, rfl⟩ | ⟨hne, ⟨hmem, rfl⟩ | hkept⟩
    · exact hgot
    · have hqueued : ∀ other, (x, other) ∉ ended := h.stages x _ (hwaiters x hmem)
      exact hstage x fun other => mt (Caller.mem_snoc_iff hne).1 (hqueued other)
    · refine (h.stages x st hkept).snoc hne fun value hvalue => ?_
      rw [hnone] at hvalue
      cases hvalue
  · rw [List.map_append]
    refine List.nodup_append.2 ⟨h.once, by simp, ?_⟩
    rintro x hx y hy rfl
    obtain ⟨⟨before, other⟩, hmem, rfl⟩ := List.mem_map.1 hx
    obtain rfl : before = c := List.mem_singleton.1 hy
    exact hnew other hmem
  · intro x other hmem
    by_cases hx : x = c
    · rw [hx]; exact ⟨got, at_release_self hc⟩
    · obtain ⟨done, hdone⟩ := h.returned x other ((Caller.mem_snoc_iff hx).1 hmem)
      have hstill : x ∉ waiters := fun hmem => by cases hdone.symm.trans (hwaiters x hmem)
      exact ⟨done, (at_release_of_not_mem hx hstill).trans hdone⟩
  · show cell.dataset.toList = _
    have hbefore := h.dataset
    rw [hnone] at hbefore
    unfold successes at hdata hbefore ⊢
    rw [hdata, List.filterMap_append, List.map_append, ← List.append_assoc, ← hbefore]
    rfl

theorem Shared.queued_of_waiting (h : Shared start ended l)
    (hx : x ∈ l.language.cell.turn.waiting) : l.At x .queued := by
  have hrole := (h.turn.waiting x).1 hx
  obtain ⟨stage, hat, hstage⟩ := exists_of_role (l := l) (c := x) (by rw [hrole]; simp)
  rw [hrole] at hstage
  cases stage <;> first | exact hat | cases hstage

/-- When the holder has what the turn was for, nobody has a part in the turn any more. -/
theorem Shared.agrees_release (h : Shared start ended l) (hc : l.At c .calling) :
    ({} : Turn).Agrees fun x =>
      if x = c then .idle else if x ∈ l.language.cell.turn.waiting then .idle else l.role x := by
  refine Turn.agrees_idle.congr fun x => ?_
  have hclosed := h.turn.close (role_of hc) x
  by_cases hx : x = c
  · rw [if_pos hx]
  · by_cases hw : x ∈ l.language.cell.turn.waiting
    · rw [if_neg hx, if_pos hw]
    · rw [if_neg hx, if_neg hw]
      simpa [hx, hw] using hclosed

theorem Step.shared (hstep : l.Step event t) (h : Shared start ended l) :
    Shared start (ended ++ (l.ended? event).toList) t := by
  have hquiet : ∀ {event}, l.ended? event = none → Shared start ended t →
      Shared start (ended ++ (l.ended? event).toList) t := fun hnone ht => by
    rw [hnone, Option.toList_none, List.append_nil]; exact ht
  cases hstep with
  | ignored _ hnone => exact hquiet hnone h
  | given hvalue =>
    have hlength : Function.update l.role l.callers.length .idle = l.role := by
      rw [← role_length l, Function.update_eq_self]
    exact hquiet rfl (h.join l.language.cell.turn l.metrics (hlength.symm ▸ h.turn) h.free
      ⟨hvalue, fun failure => h.not_mem_length (.error failure)⟩)
  | queues hnone htaken =>
    exact hquiet rfl (h.join _ l.metrics (h.turn.ask_taken htaken (role_length l))
      (fun hthere => absurd hnone hthere) h.not_mem_length)
  | calls hnone hfree =>
    exact hquiet rfl (h.join _ _ (h.turn.ask_free hfree) (fun hthere => absurd hnone hthere)
      h.not_mem_length)
  | retries hc =>
    have hnew : ∀ result, (_, result) ∉ ended := h.stages _ _ hc
    exact hquiet rfl (h.advance _ hc hnew rfl hnew)
  | served hc hvalue =>
    have hnew := (h.stages _ _ hc).2
    exact hquiet rfl (h.advance l.metrics hc hnew rfl ⟨hvalue, fun failure => hnew _⟩)
  | @failed c failure hc =>
    rw [ended?_of_calling hc]
    have hnone := h.dataset_of_holding hc rfl
    refine h.leave l.language.cell.fail.1 l.metrics.failure hc
      (fun w hw => h.queued_of_waiting (Turn.mem_waiting_of_pass hw)) (h.turn.pass (role_of hc))
      (fun hthere => absurd hnone hthere) (fun _ hnew => hnew) ⟨failure, ?_, ?_⟩ ?_
    · exact congrArg (Fault.loadFailure · failure) h.code
    · exact List.mem_append_right _ (List.mem_singleton_self _)
    · exact congrArg Option.toList hnone
  | @filled c value hc =>
    rw [ended?_of_calling hc]
    refine h.leave { dataset := some (unwrapModule value) } l.metrics hc
      (fun w hw => h.queued_of_waiting hw) (h.agrees_release hc) (fun _ => rfl)
      (fun _ hnew => ⟨Option.some_ne_none _, hnew⟩) ⟨rfl, fun failure hmem => ?_⟩ rfl
    rcases List.mem_append.1 hmem with hmem | hmem
    · have hnew : ∀ result, (c, result) ∉ ended := h.stages c _ hc
      exact hnew _ hmem
    · cases List.mem_singleton.1 hmem

end Loading

end Phrasebook
