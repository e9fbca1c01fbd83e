/-!
# Retrying

An operation that may fail for a passing reason is tried again after a delay that grows from
attempt to attempt, up to a limit on the attempts and on each delay.
-/

namespace Phrasebook

/-- A span of time in nanoseconds. -/
structure Duration where
  nanos : Nat
  deriving DecidableEq, Repr

namespace Duration

def ofMillis (ms : Nat) : Duration := ⟨ms * 1000000⟩

def ofMicros (us : Nat) : Duration := ⟨us * 1000⟩

def millis (d : Duration) : Nat := d.nanos / 1000000

def micros (d : Duration) : Nat := d.nanos / 1000

/-- The first whole millisecond at which a wait of this length is over. -/
def ticks (d : Duration) : Nat := (d.nanos + 999999) / 1000000

def zero : Duration := ⟨0⟩

def least (a b : Duration) : Duration := if a.nanos ≤ b.nanos then a else b

theorem nanos_least_le (a b : Duration) : (least a b).nanos ≤ b.nanos := by
  unfold least
  split
  · assumption
  · exact Nat.le_refl _

end Duration

/-! ## Policies -/

structure RetryPolicy where
  maxAttempts : Nat
  initialDelay : Duration
  maxDelay : Duration := .ofMillis 5000
  /-- The factor from one delay to the next. -/
  multiplier : Float := 2.0

/-- `x` to the power `n`, by squaring from the lowest bit up, each product rounded. A negative power
is the reciprocal of the positive one. -/
def Float.power (x : Float) (n : Int) : Float :=
  let result := go (n.natAbs.log2 + 1) 1.0 x n.natAbs
  if n < 0 then 1.0 / result else result
where
  go : Nat → Float → Float → Nat → Float
    | 0, result, _, _ => result
    | bits + 1, result, square, n =>
      go bits (if n % 2 = 1 then result * square else result) (square * square) (n / 2)

namespace RetryPolicy

/-- Three attempts, with delays from a quarter of a second up to two seconds. -/
def datasetFetch : RetryPolicy where
  maxAttempts := 3
  initialDelay := .ofMillis 250
  maxDelay := .ofMillis 2000

def single : RetryPolicy where
  maxAttempts := 1
  initialDelay := .zero

/-- The milliseconds before an attempt other than the first, if there is no limit on them. The power
is a number of 32 bits with a sign. -/
def growing (policy : RetryPolicy) (attempt : Nat) : Float :=
  policy.initialDelay.millis.toFloat
    * Float.power policy.multiplier (attempt - 1).toInt32.toInt

/-- The wait before an attempt, the first attempt being number zero. The growing delay is cut to
whole milliseconds; what is no number counts as zero. -/
def delayBefore (policy : RetryPolicy) (attempt : Nat) : Duration :=
  if attempt = 0 then .zero
  else .least (.ofMillis (policy.growing attempt).toUInt64.toNat) policy.maxDelay

theorem delayBefore_le (policy : RetryPolicy) (attempt : Nat) :
    (policy.delayBefore attempt).nanos ≤ policy.maxDelay.nanos := by
  unfold delayBefore
  split
  · exact Nat.zero_le _
  · exact Duration.nanos_least_le _ _

def left (policy : RetryPolicy) (attempt : Nat) : Nat := policy.maxAttempts - attempt - 1

theorem left_succ (policy : RetryPolicy) (attempt : Nat) :
    policy.left (attempt + 1) = policy.left attempt - 1 := by
  unfold left
  omega

variable {m : Type → Type} [Monad m] {ε α : Type}

def pause (policy : RetryPolicy) (wait : Duration → m Unit) (attempt : Nat) : m Unit :=
  let delay := policy.delayBefore attempt
  if delay = .zero then return () else wait delay

/-- Tries `operation`, `attempt` attempts having been made. -/
def attempts (policy : RetryPolicy) (wait : Duration → m Unit) (operation : m (Except ε α))
    (retryable : ε → Bool) (attempt : Nat) : m (Except ε α) := do
  policy.pause wait attempt
  match ← operation with
  | .ok value => return .ok value
  | .error fault =>
    if _last : policy.left attempt = 0 ∨ ¬ retryable fault then return .error fault
    else policy.attempts wait operation retryable (attempt + 1)
termination_by policy.left attempt
decreasing_by
  rw [left_succ]
  omega

def noAttemptMessage (policy : RetryPolicy) : String :=
  "RetryConfig.max_attempts must be >= 1, got " ++ toString policy.maxAttempts

/-- Tries an operation as a policy says that allows an attempt. The answer is the last one: the
first success, the first failure that is not worth another attempt, or the failure of the last
attempt. -/
def run (policy : RetryPolicy) (_ : 0 < policy.maxAttempts) (wait : Duration → m Unit)
    (operation : m (Except ε α)) (retryable : ε → Bool) : m (Except ε α) :=
  policy.attempts wait operation retryable 0

/-- Tries an operation as a policy says, if it allows an attempt. -/
def run? (policy : RetryPolicy) (wait : Duration → m Unit) (operation : m (Except ε α))
    (retryable : ε → Bool) : Option (m (Except ε α)) :=
  if allowed : 0 < policy.maxAttempts then some (policy.run allowed wait operation retryable)
  else none

end RetryPolicy

end Phrasebook
