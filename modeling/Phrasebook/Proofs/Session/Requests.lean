import Phrasebook.Proofs.Session.Delivery
import Phrasebook.Proofs.Session.Locking

/-!
# Answers to requests

A request has one of four answers (`Replies`), and only the one that accepts it changes the session.
Whether it is accepted depends on the lock, on the registry and on what was asked for last, which
the history of the session tells; a language is accepted a second time in a row only when its switch
was the newest and has fallen back (`Opens.retryable_iff`).
-/

namespace Phrasebook

variable {L : Type}

/-- What a call comes to at once with this answer to its request. -/
def Reply.change? (code : String) : Reply → Option (Except Fault Change)
  | .locked => some (.ok .locked)
  | .unregistered => some (.error (.missingLanguage code))
  | .unchanged => some (.ok .unchanged)
  | .accepted _ => none

/-- A switch that the snapshot shows can be repeated just when it has fallen back. -/
theorem Stage.Shows.retryable_iff {stage : Stage} {code : String} {snapshot : Snapshot}
    (h : stage.Shows code snapshot) :
    snapshot.fallback = true ∧ snapshot.pending = none ↔ stage = .ended (.ok .fellBack) := by
  by_cases hopen : stage.IsOpen
  · obtain ⟨hpending, -⟩ := hopen.shows_iff.1 h
    rw [hpending]
    refine iff_of_false (fun hnone => nomatch hnone.2) ?_
    rintro rfl
    exact hopen
  · cases stage with
    | fading => simp [h.2.2.2]
    | ended result =>
      rcases result with _ | _ | _ | _
      · exact absurd h id
      · simp [h.2.2.2]
      · simp [h.1, h.2.2.2]
      · exact absurd h id
    | _ => exact absurd trivial hopen

namespace Session

variable {s : Session L} {code initial : String} {config : Configuration L}
  {locked : Option String}

/-! ## The answers -/

theorem isCurrent_eq_false_iff : s.isCurrent code = false ↔
    s.snapshot.requested ≠ code ∨ s.snapshot.fallback = true ∧ s.snapshot.pending = none := by
  unfold isCurrent
  rw [Bool.and_eq_false_iff, decide_eq_false_iff_not, Bool.not_eq_false', Bool.and_eq_true,
    Option.isNone_iff_eq_none]

theorem isCurrent_iff : s.isCurrent code = true ↔
    s.snapshot.requested = code ∧ ¬ (s.snapshot.fallback = true ∧ s.snapshot.pending = none) := by
  rw [← Bool.not_eq_false, isCurrent_eq_false_iff, not_or, not_not]

theorem request_accepted_iff : (∃ g, (s.request code).2 = .accepted g) ↔
    s.locked = none ∧ s.registry.contains code = true ∧ s.isCurrent code = false := by
  have hreplies := s.replies code
  generalize s.request code = answer at hreplies ⊢
  cases hreplies <;> simp [*]

theorem request_locked_iff : (s.request code).2 = .locked ↔ s.locked.isSome = true := by
  have hreplies := s.replies code
  generalize s.request code = answer at hreplies ⊢
  cases hreplies <;> simp [*]

theorem request_unregistered_iff : (s.request code).2 = .unregistered ↔
    s.locked = none ∧ s.registry.contains code = false := by
  have hreplies := s.replies code
  generalize s.request code = answer at hreplies ⊢
  cases hreplies <;> simp [*]

theorem request_unchanged_iff : (s.request code).2 = .unchanged ↔
    s.locked = none ∧ s.registry.contains code = true ∧ s.isCurrent code = true := by
  have hreplies := s.replies code
  generalize s.request code = answer at hreplies ⊢
  cases hreplies <;> simp [*]

theorem request_fst (s : Session L) (code : String) :
    (s.request code).1 = match (s.request code).2 with
      | .accepted _ => s.accept code
      | _ => s := by
  have hreplies := s.replies code
  generalize s.request code = answer at hreplies ⊢
  cases hreplies <;> rfl

theorem eq_generation_of_accepted {g : Nat} (h : (s.request code).2 = .accepted g) :
    g = s.generation + 1 := by
  have hreplies := s.replies code
  generalize s.request code = answer at hreplies h
  cases hreplies <;> cases h
  rfl

/-- A call whose request is not accepted does no errand and leaves the session as it is. -/
theorem change_of_request {m : Type → Type} [Monad m] {result : Except Fault Change}
    (h : (s.request code).2.change? code = some result) (services : Services m L) :
    s.change services code = pure (s, result) := by
  have hreplies := s.replies code
  unfold change
  generalize s.request code = answer at h hreplies
  cases hreplies with
  | locked _ => cases h; rfl
  | unregistered _ _ => cases h; rfl
  | unchanged _ _ _ => cases h; rfl
  | accepted _ _ _ => cases h

theorem request_accept (hlocked : s.locked = none) (hcode : s.registry.contains code = true) :
    ((s.accept code).request code).2 = .unchanged := by
  have hcur : (s.accept code).isCurrent code = true := by
    simp [isCurrent, accept, publish, Snapshot.requested]
  exact request_unchanged_iff.2 ⟨hlocked, hcode, hcur⟩

/-! ## Retries -/

theorem Opens.fallback_of_untouched (h : Opens config locked initial s) (schedule : List Event)
    (hzero : (s.after schedule).generation = 0) :
    (s.after schedule).snapshot.fallback = false := by
  by_contra hback
  obtain ⟨transition, hmem, -, g, hs, -⟩ :=
    (h.delivered_after schedule).fallback (by simpa using hback)
  obtain ⟨start, rest, event, rfl, rfl⟩ := exists_of_mem_history hmem
  have ho := h.orderly.after start
  have hpos := ho.numbered.exists_iff.1 ⟨_, hs⟩
  have hle := ho.generation_le_after (event :: rest)
  rw [← after_append] at hle
  omega

/-- What was asked for last may be asked for again if and only if its switch has fallen back. -/
theorem Opens.retryable_iff (h : Opens config locked initial s) (schedule : List Event) :
    (s.after schedule).snapshot.fallback = true ∧ (s.after schedule).snapshot.pending = none ↔
      (s.after schedule).result? (s.after schedule).generation = some (.ok .fellBack) := by
  have hregular := h.regular.after schedule
  have hzero := h.fallback_of_untouched schedule
  generalize s.after schedule = t at hregular hzero ⊢
  by_cases hnone : t.generation = 0
  · rw [hzero hnone, hnone]
    refine iff_of_false (fun hback => nomatch hback.1) fun hend => ?_
    obtain ⟨code, hs⟩ := result?_eq_some_iff.1 hend
    exact absurd (hregular.orderly.numbered.exists_iff.1 ⟨_, hs⟩).1 (Nat.lt_irrefl 0)
  · obtain ⟨⟨code, g, stage⟩, hs⟩ := hregular.orderly.numbered.exists_current hnone
    obtain rfl : g = t.generation := generation_of_switch? hs
    rw [(hregular.phased.current _ hs).retryable_iff, result?_eq_some_iff]
    constructor
    · rintro rfl
      exact ⟨code, hs⟩
    · rintro ⟨other, hother⟩
      exact (Switch.mk.inj (Option.some.inj (hs.symm.trans hother))).2.2

/-! ## Reachable sessions -/

/-- How the session `s` of `config`, with this history since it started in `initial`, answers a
request for `code`. -/
structure Answers (config : Configuration L) (locked : Option String) (initial : String)
    (history : List (Transition L)) (s : Session L) (code : String) : Prop where
  accepted_iff : (∃ g, (s.request code).2 = .accepted g) ↔
    locked = none ∧ (Registry.ofConfiguration config).contains code = true ∧
      (s.snapshot.requested ≠ code ∨ s.snapshot.fallback = true ∧ s.snapshot.pending = none)
  /-- With the next number, the snapshot begins to load. -/
  accepts : ∀ g, (s.request code).2 = .accepted g → g = s.generation + 1 ∧
    (s.request code).1 = { s with
      generation := s.generation + 1
      snapshot := { s.snapshot with ready := false, pending := some code }
      revision := s.revision + 1
      switches := s.switches ++ [⟨code, s.generation + 1, .accepted⟩]
      woken := [] }
  locked_iff : (s.request code).2 = .locked ↔ locked.isSome = true
  unregistered_iff : (s.request code).2 = .unregistered ↔
    locked = none ∧ (Registry.ofConfiguration config).contains code = false
  unchanged_iff : (s.request code).2 = .unchanged ↔
    locked = none ∧ (Registry.ofConfiguration config).contains code = true ∧
      s.snapshot.requested = code ∧ ¬ (s.snapshot.fallback = true ∧ s.snapshot.pending = none)
  /-- Nothing is touched, and a call does not even begin an errand. -/
  refuses : (∀ g, (s.request code).2 ≠ .accepted g) → (s.request code).1 = s ∧
    ∃ result, (s.request code).2.change? code = some result ∧
      ∀ {m : Type → Type} [Monad m] (services : Services m L),
        s.change services code = pure (s, result)
  requested : s.snapshot.requested = (newest Transition.accepted? history).getD initial
  retryable_iff : s.snapshot.fallback = true ∧ s.snapshot.pending = none ↔
    s.result? s.generation = some (.ok .fellBack)
  /-- A request is not accepted twice at once. -/
  again : ∀ g, (s.request code).2 = .accepted g →
    ((s.request code).1.request code).2 = .unchanged

theorem Opens.answers (h : Opens config locked initial s) (schedule : List Event) (code : String) :
    Answers config locked initial (s.history schedule) (s.after schedule) code := by
  have hregular := h.regular.after schedule
  have hrequested := (h.traced_after schedule).requested
  have hretry := h.retryable_iff schedule
  generalize s.after schedule = t at hregular hrequested hretry ⊢
  have hcontains := hregular.truthful.registry.contains code
  obtain rfl := hregular.locked
  have hfst := t.request_fst code
  constructor
  case accepted_iff => rw [← hcontains, ← isCurrent_eq_false_iff, request_accepted_iff]
  case accepts =>
    intro g hg
    rw [hg] at hfst
    exact ⟨eq_generation_of_accepted hg, hfst⟩
  case locked_iff => exact request_locked_iff
  case unregistered_iff => rw [← hcontains, request_unregistered_iff]
  case unchanged_iff => rw [← hcontains, ← isCurrent_iff, request_unchanged_iff]
  case refuses =>
    intro hrefused
    cases hreply : (t.request code).2 with
    | accepted g => exact absurd hreply (hrefused g)
    | _ =>
      have hresult : ∃ result, (t.request code).2.change? code = some result := by
        rw [hreply]; exact ⟨_, rfl⟩
      obtain ⟨result, hresult⟩ := hresult
      rw [hreply] at hfst
      exact ⟨hfst, result, hreply ▸ hresult, fun services => change_of_request hresult services⟩
  case requested => exact hrequested
  case retryable_iff => exact hretry
  case again =>
    intro g hg
    obtain ⟨hlocked, hcode, -⟩ := request_accepted_iff.1 ⟨g, hg⟩
    rw [hg] at hfst
    rw [hfst]
    exact request_accept hlocked hcode

/-- **A request is accepted or it changes nothing**, in every state of every session. It is accepted
if and only if the session is not locked, the language is registered, and it is not the one that was
asked for last or that one has fallen back. -/
theorem answers_of_start {around : Surroundings} (h : (around.start config locked).1 = .ok s)
    (schedule : List Event) (code : String) :
    Answers config locked (around.initial config locked).1 (s.history schedule)
      (s.after schedule) code :=
  (Surroundings.opens_of_start h).1.answers schedule code

def failing : List Event :=
  [.request "fr", .resume 1 .proceed, .resume 1 (.stored true),
    .resume 1 (.loaded (.error ⟨[], .body⟩))]

/-- French has fallen back and may be asked for again, and while it loads it may not. -/
theorem answers_of_start_bilingual :
    ∃ s, ((Surroundings.remembering none).start Configuration.bilingual none).1 = .ok s ∧
      Answers Configuration.bilingual none "en" (s.history failing) (s.after failing) "fr" ∧
      ((s.after failing).request "fr").2 = .accepted 2 ∧
      Answers Configuration.bilingual none "en" (s.history (failing.take 3))
        (s.after (failing.take 3)) "fr" ∧
      ((s.after (failing.take 3)).request "fr").2 = .unchanged := by
  have hstart : ((Surroundings.remembering none).start Configuration.bilingual none).1
      = .ok _ := rfl
  exact ⟨_, hstart, answers_of_start hstart _ _, by decide +kernel, answers_of_start hstart _ _,
    by decide +kernel⟩

end Session

end Phrasebook
