import Mathlib.Algebra.GroupWithZero.Nat
import Mathlib.Order.Bounds.Basic
import Phrasebook.Retry

/-!
# How often an operation is tried

A run that lists what it does, waits and calls, on an operation whose calls come to given outcomes.
From one attempt to the next the list grows by the effects of that attempt (`attempts_scripted`), so
a run ends at the first outcome that settles it, or with the attempts (`exists_attempts_scripted`).
-/

namespace Phrasebook.RetryPolicy

inductive Effect where
  | call
  | wait (delay : Duration)
  deriving DecidableEq, Repr

namespace Effect

def nanos : Effect → Nat
  | call => 0
  | wait delay => delay.nanos

end Effect

/-- Computations that list their effects, oldest first. -/
abbrev Recorded := StateM (List Effect)

def recordWait (delay : Duration) : Recorded Unit := modify (· ++ [.wait delay])

variable {ε α : Type} {policy : RetryPolicy} {outcomes : Nat → Except ε α} {retryable : ε → Bool}
  {attempt last : Nat}

/-- The operation whose calls come to the given outcomes, one after the other. -/
def scripted (outcomes : Nat → Except ε α) : Recorded (Except ε α) := fun log =>
  (outcomes (log.count .call), log ++ [.call])

def waits (policy : RetryPolicy) (attempt : Nat) : List Effect :=
  if policy.delayBefore attempt = .zero then [] else [.wait (policy.delayBefore attempt)]

/-- The effects of a number of attempts. -/
def log (policy : RetryPolicy) (count : Nat) : List Effect :=
  (List.range count).flatMap fun attempt => policy.waits attempt ++ [.call]

/-- No other attempt follows the outcome: a success, or a failure that is not worth one. -/
def settles (retryable : ε → Bool) : Except ε α → Bool
  | .ok _ => true
  | .error fault => !retryable fault

/-! ## The effects -/

theorem log_succ (policy : RetryPolicy) (count : Nat) :
    policy.log (count + 1) = policy.log count ++ policy.waits count ++ [.call] := by
  simp [log, List.range_succ]

theorem count_call_waits : (policy.waits attempt).count .call = 0 := by
  unfold waits
  split <;> rfl

theorem count_call_log (policy : RetryPolicy) (count : Nat) :
    (policy.log count).count .call = count := by
  induction count with
  | zero => rfl
  | succ count ih => simp [log_succ, ih, count_call_waits]

theorem nanos_le_of_mem_waits {effect : Effect} (h : effect ∈ policy.waits attempt) :
    effect.nanos ≤ policy.maxDelay.nanos := by
  unfold waits at h
  split at h
  · cases h
  · obtain rfl := List.mem_singleton.1 h
    exact policy.delayBefore_le attempt

theorem nanos_le_of_mem_log {effect : Effect} {count : Nat} (h : effect ∈ policy.log count) :
    effect.nanos ≤ policy.maxDelay.nanos := by
  obtain ⟨attempt, -, hmem⟩ := List.mem_flatMap.1 h
  rcases List.mem_append.1 hmem with hwait | hcall
  · exact nanos_le_of_mem_waits hwait
  · obtain rfl := List.mem_singleton.1 hcall
    exact Nat.zero_le _

theorem sum_nanos_waits_le (policy : RetryPolicy) (attempt : Nat) :
    ((policy.waits attempt).map Effect.nanos).sum ≤ policy.maxDelay.nanos := by
  unfold waits
  split
  · exact Nat.zero_le _
  · exact policy.delayBefore_le attempt

theorem log_succ_eq_cons (policy : RetryPolicy) (count : Nat) :
    policy.log (count + 1) = .call :: (List.range count).flatMap fun attempt =>
      policy.waits (attempt + 1) ++ [.call] := by
  have hfirst : policy.waits 0 = [] := rfl
  rw [log, List.range_succ_eq_map, List.flatMap_cons, List.flatMap_map, hfirst]
  rfl

theorem sum_nanos_log_le (policy : RetryPolicy) (count : Nat) :
    ((policy.log (count + 1)).map Effect.nanos).sum ≤ count * policy.maxDelay.nanos := by
  induction count with
  | zero => exact Nat.zero_le _
  | succ count ih =>
    have hwaits := sum_nanos_waits_le policy (count + 1)
    have hcall : Effect.call.nanos = 0 := rfl
    rw [log_succ, List.map_append, List.map_append, List.sum_append, List.sum_append,
      List.map_singleton, List.sum_singleton, hcall, Nat.succ_mul]
    omega

/-! ## The attempts -/

theorem run_pause (policy : RetryPolicy) (attempt : Nat) (before : List Effect) :
    (policy.pause recordWait attempt).run before = ((), before ++ policy.waits attempt) := by
  unfold pause waits
  by_cases h : policy.delayBefore attempt = .zero
  · simp only [h, if_true, List.append_nil]
    rfl
  · simp only [h, if_false]
    rfl

theorem attempts_scripted (attempt : Nat) :
    (policy.attempts recordWait (scripted outcomes) retryable attempt).run (policy.log attempt) =
      if policy.left attempt = 0 ∨ settles retryable (outcomes attempt) = true then
        (outcomes attempt, policy.log (attempt + 1))
      else
        (policy.attempts recordWait (scripted outcomes) retryable (attempt + 1)).run
          (policy.log (attempt + 1)) := by
  have hcall : (scripted outcomes).run (policy.log attempt ++ policy.waits attempt) =
      (outcomes attempt, policy.log (attempt + 1)) := by
    show (outcomes _, _) = _
    rw [List.count_append, count_call_log, count_call_waits, log_succ]
    rfl
  rw [attempts, StateT.run_bind, run_pause]
  show (StateT.run (scripted outcomes >>= _) _ : Id _) = _
  rw [StateT.run_bind, hcall]
  cases houtcome : outcomes attempt with
  | ok value =>
    rw [if_pos (.inr rfl)]
    rfl
  | error fault =>
    have hsettles : settles retryable (.error fault : Except ε α) = true ↔
        ¬ retryable fault = true := by simp [settles]
    simp only [hsettles]
    show StateT.run (dite _ _ _) _ = _
    by_cases hlast : policy.left attempt = 0 ∨ ¬ retryable fault = true
    · rw [dif_pos hlast, if_pos hlast]
      rfl
    · rw [dif_neg hlast, if_neg hlast]

/-- The attempts from one on end with the first that settles the matter, or the last. -/
theorem exists_attempts_scripted (outcomes : Nat → Except ε α) (retryable : ε → Bool)
    (h : attempt < policy.maxAttempts) :
    ∃ last, attempt ≤ last ∧ last < policy.maxAttempts ∧
      (∀ n, attempt ≤ n → n < last → settles retryable (outcomes n) = false) ∧
      (last + 1 = policy.maxAttempts ∨ settles retryable (outcomes last) = true) ∧
      (policy.attempts recordWait (scripted outcomes) retryable attempt).run (policy.log attempt) =
        (outcomes last, policy.log (last + 1)) := by
  induction hleft : policy.left attempt generalizing attempt with
  | zero =>
    have hend : attempt + 1 = policy.maxAttempts := by unfold left at hleft; omega
    refine ⟨attempt, Nat.le_refl _, h, fun n _ _ => by omega, .inl hend, ?_⟩
    rw [attempts_scripted, if_pos (.inl hleft)]
  | succ more ih =>
    rw [attempts_scripted]
    by_cases hsettles : settles retryable (outcomes attempt) = true
    · refine ⟨attempt, Nat.le_refl _, h, fun n _ _ => by omega, .inr hsettles, ?_⟩
      rw [if_pos (.inr hsettles)]
    · have hnext : attempt + 1 < policy.maxAttempts := by unfold left at hleft; omega
      obtain ⟨last, hle, hlt, hbefore, hend, hrun⟩ :=
        ih hnext (by rw [left_succ, hleft]; rfl)
      refine ⟨last, by omega, hlt, fun n hn hnlast => ?_, hend, ?_⟩
      · rcases Nat.eq_or_lt_of_le hn with rfl | hn
        · exact Bool.eq_false_iff.2 hsettles
        · exact hbefore n hn hnlast
      · rw [if_neg (by simp [hleft, hsettles]), hrun]

/-- A run on given outcomes that answers `answer`, does `done` and calls `count` times. -/
structure Tries (policy : RetryPolicy) (outcomes : Nat → Except ε α) (retryable : ε → Bool)
    (count : Nat) (answer : Except ε α) (done : List Effect) : Prop where
  /-- The last call is the first one that settles the matter, if there are so many attempts. -/
  least : IsLeast {n | 0 < n ∧
    (n = policy.maxAttempts ∨ settles retryable (outcomes (n - 1)) = true)} count
  calls : done.count .call = count
  answer : answer = outcomes (count - 1)
  earlier : ∀ n, n + 1 < count → ∃ fault, outcomes n = .error fault ∧ retryable fault = true
  /-- The first call comes at once, and each of the others after its own delay. -/
  order : done = .call :: (List.range (count - 1)).flatMap fun n =>
    policy.waits (n + 1) ++ [.call]
  bounded : ∀ delay, .wait delay ∈ done → delay.nanos ≤ policy.maxDelay.nanos
  total : (done.map Effect.nanos).sum ≤ (count - 1) * policy.maxDelay.nanos
  /-- The attempts that are left after one that was made are never fewer than none. -/
  left : ∀ n < count, n + 1 + policy.left n = policy.maxAttempts

/-- **A run makes just the attempts that it should**, and it ends. -/
theorem tries (allowed : 0 < policy.maxAttempts) (outcomes : Nat → Except ε α)
    (retryable : ε → Bool) :
    ∃ count answer done,
      (policy.run allowed recordWait (scripted outcomes) retryable).run [] = (answer, done) ∧
        Tries policy outcomes retryable count answer done := by
  obtain ⟨last, -, hlt, hbefore, hend, hrun⟩ := exists_attempts_scripted outcomes retryable allowed
  refine ⟨last + 1, _, _, hrun, ?_⟩
  constructor
  case least =>
    refine ⟨⟨Nat.succ_pos _, hend⟩, fun n hn => Nat.le_of_not_lt fun hlast => ?_⟩
    obtain ⟨hpos, rfl | hsettles⟩ := hn
    · omega
    · rw [hbefore (n - 1) (Nat.zero_le _) (by omega)] at hsettles
      cases hsettles
  case calls => exact count_call_log policy _
  case answer => rfl
  case earlier =>
    intro n hn
    have h := hbefore n (Nat.zero_le _) (by omega)
    cases houtcome : outcomes n with
    | ok value => rw [houtcome] at h; cases h
    | error fault =>
      rw [houtcome] at h
      exact ⟨fault, rfl, by simpa [settles] using h⟩
  case order => exact log_succ_eq_cons policy last
  case bounded =>
    intro delay hmem
    exact nanos_le_of_mem_log hmem
  case total => exact sum_nanos_log_le policy last
  case left =>
    intro n hn
    unfold left
    omega

def patient : RetryPolicy := { datasetFetch with maxAttempts := 5 }

def busyTwice (n : Nat) : Except String Nat := if n < 2 then .error "busy" else .ok n

theorem tries_busyTwice :
    0 < patient.maxAttempts ∧
      ∃ answer done,
        (patient.run (by decide) recordWait (scripted busyTwice) (· == "busy")).run [] =
          (answer, done) ∧
        Tries patient busyTwice (· == "busy") 3 answer done ∧ answer = .ok 2 := by
  have allowed : 0 < patient.maxAttempts := by decide
  obtain ⟨count, answer, done, hrun, htries⟩ := tries allowed busyTwice (· == "busy")
  obtain rfl : 3 = count := by
    have hle : count ≤ 3 := htries.least.2 ⟨by decide, .inr (by decide)⟩
    obtain ⟨hpos, hmost | hsettles⟩ := htries.least.1
    · have hfive : patient.maxAttempts = 5 := rfl
      omega
    · have hearly : ∀ n < 2, settles (· == "busy") (busyTwice n) = false := by decide
      by_contra hne
      rw [hearly (count - 1) (by omega)] at hsettles
      cases hsettles
  exact ⟨allowed, answer, done, hrun, htries, htries.answer.trans (by rfl)⟩

end Phrasebook.RetryPolicy
