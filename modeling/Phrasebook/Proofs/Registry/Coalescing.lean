import Mathlib.Data.List.Nodup
import Phrasebook.Proofs.Registry.Languages
import Phrasebook.Proofs.Registry.Sharing

/-!
# Loads of configured languages

The calls of a loader are counted, and the counters tell how they ended: every call has failed, is
under way, or has delivered the dataset. With `Shared` this gives what holds in every run of the
callers of a configured language.
-/

namespace Phrasebook

namespace Loading

variable {L : Type} {start l t : Loading L} {ended : List (Nat × Except Failure Json)} {c x : Nat}
  {event : Event}

/-! ## Calls under way -/

theorem Shared.inFlight_of_calling (h : Shared start ended l) (hc : l.At c .calling) :
    l.inFlight = 1 :=
  inFlight_eq_one hc fun _ hx => (h.eq_of_holding hc rfl hx rfl).1

theorem Shared.inFlight_of_free (h : Shared start ended l)
    (hfree : l.language.cell.turn.holder = none) : l.inFlight = 0 := by
  refine inFlight_eq_zero fun x hx => ?_
  have hholder := h.holder_of hx rfl
  rw [hfree] at hholder
  cases hholder

theorem Shared.inFlight_of_loaded (h : Shared start ended l)
    (hthere : l.language.cell.dataset ≠ none) : l.inFlight = 0 :=
  h.inFlight_of_free (h.free hthere)

theorem Shared.inFlight_le_one (h : Shared start ended l) : l.inFlight ≤ 1 := by
  by_cases hcalling : ∃ c, l.At c .calling
  · obtain ⟨c, hc⟩ := hcalling
    exact Nat.le_of_eq (h.inFlight_of_calling hc)
  · rw [inFlight_eq_zero fun c hc => hcalling ⟨c, hc⟩]
    exact Nat.zero_le 1

theorem Shared.isLoaded_of_calling (h : Shared start ended l) (hc : l.At c .calling) :
    l.language.isLoaded = false := by
  unfold Language.isLoaded
  rw [h.dataset_of_holding hc rfl]
  rfl

/-- Whoever goes on after a failure does not call yet. -/
theorem Shared.inFlight_fail (h : Shared start ended l) (hc : l.At c .calling)
    (metrics : Metrics) (failure : Failure) :
    ({ l with metrics }.fail c failure).inFlight = 0 := by
  refine inFlight_eq_zero fun x hx => ?_
  rcases of_at_release (l := { l with metrics }) hx with ⟨-, hdone⟩ | ⟨hne, ⟨-, hmoved⟩ | hkept⟩
  · cases hdone
  · cases hmoved
  · exact hne (h.eq_of_holding hc rfl hkept rfl).1

/-- Every loader call since `start` has failed, is under way, or has filled the cell. -/
def Balanced (start l : Loading L) : Prop :=
  l.metrics.loaderCalls + start.metrics.loaderFailures + start.language.isLoaded.toNat =
    start.metrics.loaderCalls + l.metrics.loaderFailures + l.inFlight + l.language.isLoaded.toNat

theorem Step.balanced {ended' : List (Nat × Except Failure Json)} (hstep : l.Step event t)
    (h : Shared start ended l) (ht : Shared start ended' t) (hb : Balanced start l) :
    Balanced start t := by
  unfold Balanced at hb ⊢
  cases hstep with
  | ignored _ _ => exact hb
  | given _ => rw [inFlight_join rfl]; exact hb
  | queues _ _ => rw [inFlight_join rfl]; exact hb
  | calls _ hfree =>
    have hone := ht.inFlight_of_calling (at_join_self l.enqueue .calling)
    rw [h.inFlight_of_free hfree] at hb
    rw [hone]
    show l.metrics.loaderCalls + 1 + _ + _ =
      _ + l.metrics.loaderFailures + 1 + l.language.isLoaded.toNat
    omega
  | retries hc =>
    have hone := ht.inFlight_of_calling (at_move_self (l := { l with metrics := _ }) hc .calling)
    have hzero : l.inFlight = 0 :=
      inFlight_eq_zero fun x hx => by cases (h.eq_of_holding hc rfl hx rfl).2
    rw [hzero] at hb
    rw [hone]
    show l.metrics.loaderCalls + 1 + _ + _ =
      _ + l.metrics.loaderFailures + 1 + l.language.isLoaded.toNat
    omega
  | served _ hvalue =>
    have hthere : l.language.cell.dataset ≠ none := by rw [hvalue]; exact Option.some_ne_none _
    rw [h.inFlight_of_loaded hthere] at hb
    rw [ht.inFlight_of_loaded hthere]
    exact hb
  | failed hc =>
    rw [h.inFlight_of_calling hc] at hb
    rw [h.inFlight_fail hc]
    show l.metrics.loaderCalls + _ + _ =
      _ + (l.metrics.loaderFailures + 1) + 0 + l.language.isLoaded.toNat
    omega
  | filled hc =>
    rw [h.inFlight_of_calling hc, h.isLoaded_of_calling hc] at hb
    rw [ht.inFlight_of_loaded (Option.some_ne_none _)]
    exact hb

/-! ## Runs -/

theorem Step.length_callers (hstep : l.Step event t) :
    t.callers.length = l.callers.length + event.isArrival.toNat := by
  have hmove : ∀ (m : Loading L) (callers : List Nat) (stage : Caller),
      (m.move callers stage).callers.length = m.callers.length := fun m callers stage =>
    List.length_mapIdx
  have hjoin : ∀ (m : Loading L) (stage : Caller),
      (m.join stage).callers.length = m.callers.length + 1 := fun m stage => by simp [join]
  cases hstep with
  | ignored hnot _ => rw [hnot]; rfl
  | given _ => exact hjoin l _
  | queues _ _ => exact hjoin l.enqueue _
  | calls _ _ => exact hjoin l.enqueue _
  | retries _ => exact hmove _ _ _
  | served _ _ => exact hmove _ _ _
  | failed _ => exact (hmove _ _ _).trans (hmove _ _ _)
  | filled _ => exact (hmove _ _ _).trans (hmove _ _ _)

theorem Shared.next (h : Shared start ended l) (event : Event) :
    Shared start (ended ++ (l.ended? event).toList) (l.next event) :=
  (h.step event).shared h

theorem Shared.after (h : Shared start ended l) (events : List Event) :
    Shared start (ended ++ l.ended events) (l.after events) := by
  induction events generalizing l ended with
  | nil => rw [show l.ended [] = [] from rfl, List.append_nil]; exact h
  | cons event rest ih =>
    have hrest := ih (h.next event)
    rw [List.append_assoc] at hrest
    exact hrest

theorem Shared.balanced_after (h : Shared start ended l) (hb : Balanced start l)
    (events : List Event) : Balanced start (l.after events) := by
  induction events generalizing l ended with
  | nil => exact hb
  | cons event rest ih =>
    have hnext := h.next event
    exact ih hnext ((h.step event).balanced h hnext hb)

theorem Shared.length_after (h : Shared start ended l) (events : List Event) :
    (l.after events).callers.length = l.callers.length + events.countP (·.isArrival) := by
  induction events generalizing l ended with
  | nil => rfl
  | cons event rest ih =>
    have hnext := (h.step event).length_callers
    have hrest := ih (h.next event)
    show ((l.next event).after rest).callers.length = _
    rw [List.countP_cons]
    cases harrival : event.isArrival <;> simp [harrival] at hnext ⊢ <;> omega

/-- Once the dataset is there, no event changes the language or calls its loader. -/
theorem Shared.loaded_after (h : Shared start ended l) (hthere : l.language.cell.dataset ≠ none)
    (events : List Event) :
    (l.after events).language = l.language ∧ (l.after events).metrics = l.metrics := by
  induction events generalizing l ended with
  | nil => exact ⟨rfl, rfl⟩
  | cons event rest ih =>
    have hsame : (l.next event).language = l.language ∧ (l.next event).metrics = l.metrics := by
      have hstep := h.step event
      generalize l.next event = t at hstep ⊢
      cases hstep with
      | ignored _ _ => exact ⟨rfl, rfl⟩
      | given _ => exact ⟨rfl, rfl⟩
      | queues hnone _ => exact absurd hnone hthere
      | calls hnone _ => exact absurd hnone hthere
      | retries hc => exact absurd (h.dataset_of_holding hc rfl) hthere
      | served _ _ => exact ⟨rfl, rfl⟩
      | failed hc => exact absurd (h.dataset_of_holding hc rfl) hthere
      | filled hc => exact absurd (h.dataset_of_holding hc rfl) hthere
    obtain ⟨hlanguage, hmetrics⟩ := ih (h.next event) (hsame.1 ▸ hthere)
    exact ⟨hlanguage.trans hsame.1, hmetrics.trans hsame.2⟩

/-- While somebody waits, a call is under way or somebody may go on. -/
theorem Shared.exists_of_queued (h : Shared start ended l) (hc : l.At c .queued) :
    ∃ x, l.At x .calling ∨ l.At x .holdingTurn := by
  have hwaits := (h.turn.waiting c).2 (role_of hc)
  have htaken : l.language.cell.turn.holder ≠ none := fun hfree => by
    rw [h.turn.busy hfree] at hwaits
    cases hwaits
  obtain ⟨x, hholder⟩ := Option.ne_none_iff_exists'.1 htaken
  have hholds := (h.turn.holder x).1 hholder
  obtain ⟨stage, hx, hrole⟩ := exists_of_role (l := l) (c := x) (by rw [hholds]; simp)
  rw [hholds] at hrole
  cases stage <;> first | exact ⟨x, .inl hx⟩ | exact ⟨x, .inr hx⟩ | cases hrole

/-! ## Configured languages -/

/-- Callers share the loads of a language whose dataset was not there before they came. -/
structure Coalesces (before : Metrics) (ended : List (Nat × Except Failure Json)) (l : Loading L) :
    Prop where
  alone : l.inFlight ≤ 1
  /-- Nobody waits in vain. -/
  live : ∀ c, l.At c .queued → ∃ x, l.At x .calling ∨ l.At x .holdingTurn
  /-- Every loader call has failed, is under way, or has delivered the dataset. -/
  counts : l.metrics.loaderCalls + before.loaderFailures =
    before.loaderCalls + l.metrics.loaderFailures + l.inFlight + l.language.isLoaded.toNat
  /-- The dataset is what the one call delivered that succeeded. -/
  dataset : l.language.cell.dataset.toList = (successes ended).map unwrapModule
  /-- The dataset stays, and the loader is not called again. -/
  kept : ∀ value, l.language.cell.dataset = some value → ∀ later,
    (l.after later).language.cell.dataset = some value ∧
      (l.after later).metrics.loaderCalls = l.metrics.loaderCalls ∧ (l.after later).inFlight = 0
  /-- No caller makes two calls. -/
  once : (ended.map (·.1)).Nodup
  /-- The failure of a call is returned to the caller who made it. -/
  failed : ∀ c failure, (c, .error failure) ∈ ended ↔
    l.At c (.done (.error (.loadFailure l.language.code failure)))
  /-- Whoever is done has the dataset or the failure of its own call. -/
  done : ∀ c result, l.At c (.done result) →
    (∃ value, result = .ok value ∧ l.language.cell.dataset = some value) ∨
      ∃ failure, result = .error (.loadFailure l.language.code failure) ∧
        (c, .error failure) ∈ ended

theorem Shared.failed_iff (h : Shared start ended l) {failure : Failure} :
    (c, .error failure) ∈ ended ↔
      l.At c (.done (.error (.loadFailure start.language.code failure))) := by
  constructor
  · intro hmem
    obtain ⟨got, hat⟩ := h.returned c _ hmem
    cases got with
    | ok value => exact absurd hmem ((h.stages c _ hat).2 failure)
    | error fault =>
      obtain ⟨other, rfl, hother⟩ := h.stages c _ hat
      have hsame := List.inj_on_of_nodup_map h.once hmem hother rfl
      cases hsame
      exact hat
  · intro hat
    obtain ⟨other, hfault, hother⟩ := h.stages c _ hat
    cases hfault
    exact hother

theorem Shared.coalesces (h : Shared start ended l) (hb : Balanced start l)
    (hempty : start.language.cell.dataset = none) : Coalesces start.metrics ended l where
  alone := h.inFlight_le_one
  live _ := h.exists_of_queued
  counts := by
    have hloaded : start.language.isLoaded = false := by
      unfold Language.isLoaded; rw [hempty]; rfl
    unfold Balanced at hb
    rw [hloaded] at hb
    exact hb
  dataset := by rw [h.dataset, hempty]; rfl
  kept value hvalue later := by
    have hthere : l.language.cell.dataset ≠ none := by rw [hvalue]; exact Option.some_ne_none _
    obtain ⟨hlanguage, hmetrics⟩ := h.loaded_after hthere later
    rw [hmetrics]
    refine ⟨hlanguage ▸ hvalue, rfl, (h.after later).inFlight_of_loaded ?_⟩
    rw [hlanguage]
    exact hthere
  once := h.once
  failed _ _ := by rw [h.code]; exact h.failed_iff
  done c result hat := by
    cases result with
    | ok value => exact .inl ⟨value, rfl, (h.stages c _ hat).1⟩
    | error fault =>
      obtain ⟨failure, rfl, hmem⟩ := h.stages c _ hat
      exact .inr ⟨failure, by rw [h.code], hmem⟩

variable {config : Configuration L} {language : Language L} {code : String}

theorem shared_start (h : (Registry.ofConfiguration config).find? code = some language)
    (metrics : Metrics) :
    Shared { language, metrics : Loading L } [] { language, metrics : Loading L } ∧
      Balanced { language, metrics : Loading L } { language, metrics : Loading L } := by
  obtain ⟨hturn, hsource⟩ := Registry.of_find?_ofConfiguration h
  rw [Option.isSome_iff_ne_none] at hsource
  refine ⟨⟨rfl, fun hnone hloader => hsource.2 hloader hnone, ?_, fun _ => ?_, nofun, .nil, nofun,
    ?_⟩, rfl⟩
  · show language.cell.turn.Agrees _
    rw [hturn]
    exact Turn.agrees_idle
  · show language.cell.turn.holder = none
    rw [hturn]
  · simp [successes]

/-- **Callers share one successful load**: of the callers that come for a configured language, each
gets its dataset or the failure of the call that it made itself. -/
theorem coalesces_of_configured
    (h : (Registry.ofConfiguration config).find? code = some language) (metrics : Metrics)
    (events : List Event) :
    let start : Loading L := { language, metrics }
    (start.after events).callers.length = events.countP (·.isArrival) ∧
      (language.hasLoader = true → Coalesces metrics (start.ended events) (start.after events)) ∧
      ∀ c fault, (start.after events).At c (.done (.error fault)) →
        ∃ failure, fault = .loadFailure code failure ∧
          (c, .error failure) ∈ start.ended events := by
  intro start
  obtain ⟨hstart, hbalanced⟩ := shared_start h metrics
  have hshared := hstart.after events
  rw [List.nil_append] at hshared
  refine ⟨?_, fun hloader => hshared.coalesces (hstart.balanced_after hbalanced events) ?_,
    fun c fault hat => ?_⟩
  · exact (hstart.length_after events).trans (Nat.zero_add _)
  · have hsource := (Registry.of_find?_ofConfiguration h).2
    unfold Language.hasLoader at hloader
    by_contra hthere
    rw [hsource.1 (Option.isSome_iff_ne_none.2 hthere)] at hloader
    cases hloader
  · obtain ⟨failure, hfault, hmem⟩ := hshared.stages c _ hat
    exact ⟨failure, Registry.code_of_find? h ▸ hfault, hmem⟩

def french : Json := .obj [("default", .obj [("hello", .str "Bonjour")])]

def secondTry : List Event :=
  [.arrive, .arrive, .arrive, .finish 0 (.error ⟨[], .body⟩), .proceed 1, .finish 1 (.ok french),
    .arrive, .proceed 2]

theorem coalesces_of_configured_bilingual :
    ∃ language, (Registry.ofConfiguration Configuration.bilingual).find? "fr" = some language ∧
      Coalesces {} [(0, .error ⟨[], .body⟩), (1, .ok french)]
        (after { language, metrics := {} } secondTry) := by
  have hfind : (Registry.ofConfiguration Configuration.bilingual).find? "fr" = some _ := rfl
  exact ⟨_, hfind, (coalesces_of_configured hfind {} secondTry).2.1 rfl⟩

end Loading

end Phrasebook
