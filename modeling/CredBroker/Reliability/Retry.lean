import CredBroker.Interaction.Prog
import CredBroker.Models

/-!
# Retries and the circuit breaker

`CircuitBreaker` is the state of one breaker and its methods, each a function
of the clock at the call. `callWithRetries` is the retry loop, over any
operations that give it a breaker, an awaitable `fn` and a `sleep`.
-/

namespace CredBroker

open Python Interaction

/-! ## The breaker -/

inductive CircuitState
  | closed
  | opened
  | halfOpen
  deriving DecidableEq

/-- A breaker that passed its constructor's checks. -/
structure CircuitBreaker where
  failureThreshold : Int
  resetSeconds : Time
  state : CircuitState
  consecutiveFailures : Nat
  openedAt : Option Time
  probeInFlight : Bool
  threshold_pos : 1 ≤ failureThreshold
  reset_nonneg : 0 ≤ resetSeconds
  deriving DecidableEq

namespace CircuitBreaker

/-- `CircuitBreaker(failure_threshold, reset_seconds)`. -/
def new (failureThreshold : Int) (resetSeconds : Time) : Except PyExn CircuitBreaker :=
  if threshold : failureThreshold < 1 then
    .error (.valueError "failure_threshold must be >= 1")
  else if reset : resetSeconds < 0 then
    .error (.valueError "reset_seconds must be >= 0")
  else
    .ok ⟨failureThreshold, resetSeconds, .closed, 0, none, false,
      Int.not_lt.mp threshold, Int.not_lt.mp reset⟩

variable (b : CircuitBreaker) (now : Time)

/-- Open becomes half-open once the reset window has elapsed. -/
def sync : CircuitBreaker :=
  match b.state, b.openedAt with
  | .opened, some openedAt =>
    if now - openedAt ≥ b.resetSeconds then
      { b with state := .halfOpen, probeInFlight := false }
    else b
  | _, _ => b

variable {b now} in
@[simp] theorem sync_threshold : (b.sync now).failureThreshold = b.failureThreshold := by
  unfold sync
  split
  · split <;> rfl
  · rfl

variable {b now} in
@[simp] theorem sync_reset : (b.sync now).resetSeconds = b.resetSeconds := by
  unfold sync
  split
  · split <;> rfl
  · rfl

/-- Whether a call may proceed; half-open, the first caller claims the probe slot. -/
def allow : Bool × CircuitBreaker :=
  let b := b.sync now
  match b.state with
  | .opened => (false, b)
  | .halfOpen => if b.probeInFlight then (false, b) else (true, { b with probeInFlight := true })
  | .closed => (true, b)

def recordSuccess : CircuitBreaker :=
  { b with state := .closed, consecutiveFailures := 0, openedAt := none, probeInFlight := false }

def trip : CircuitBreaker :=
  { b with state := .opened, openedAt := some now, probeInFlight := false }

def recordFailure : CircuitBreaker :=
  let b := b.sync now
  match b.state with
  | .closed =>
    let b := { b with consecutiveFailures := b.consecutiveFailures + 1 }
    if (b.consecutiveFailures : Int) ≥ b.failureThreshold then b.trip now else b
  | _ => b.trip now

end CircuitBreaker

/-! ## The retry loop -/

/-- Python programs over a set of operations. -/
abbrev PySig (Op : Type) (Val : Op → Type) : Sig := ⟨Op, Val, PyExn⟩

/-- A breaker as its users see it. -/
structure Circuit (Op : Type) (Val : Op → Type) where
  allow : Prog (PySig Op Val) Bool
  recordSuccess : Prog (PySig Op Val) Unit
  recordFailure : Prog (PySig Op Val) Unit

/-- `circuit is None or circuit.allow()`. -/
def Circuit.admits {Op : Type} {Val : Op → Type} :
    Option (Circuit Op Val) → Prog (PySig Op Val) Bool
  | none => return true
  | some circuit => circuit.allow

def Circuit.noteSuccess {Op : Type} {Val : Op → Type} :
    Option (Circuit Op Val) → Prog (PySig Op Val) Unit
  | none => return ()
  | some circuit => circuit.recordSuccess

def Circuit.noteFailure {Op : Type} {Val : Op → Type} :
    Option (Circuit Op Val) → Prog (PySig Op Val) Unit
  | none => return ()
  | some circuit => circuit.recordFailure

/-- Timeouts, transport failures and provider answers from 500 on. -/
def defaultRetryable : PyExn → Bool
  | .timeoutException _ | .transportError _ => true
  | .providerCallError _ (some statusCode) => decide (statusCode ≥ 500)
  | _ => false

/-- What Python raises where a number is too large for a float. -/
def floatOverflow : PyExn := .overflowError "int too large to convert to float"

/-- `base_delay * 2**attempt`, a float times an `int` that a float must hold: up to
`2**1023` one does. -/
def backoffDelay (baseDelay : Time) (attempt : Nat) : Except PyExn Time :=
  if attempt < 1024 then .ok (baseDelay * 2 ^ attempt) else .error floatOverflow

/-- A delay fails to be computed by an overflow only. -/
theorem backoffDelay_eq_error {baseDelay : Time} {attempt : Nat} {x : PyExn}
    (failed : backoffDelay baseDelay attempt = .error x) : x = floatOverflow := by
  unfold backoffDelay at failed
  split at failed
  · cases failed
  · exact (Except.error.inj failed).symm

section CallWithRetries

variable {Op : Type} {Val : Op → Type} {α : Type} (fn : Prog (PySig Op Val) α)
  (maxRetries : Int) (baseDelay : Time) (circuit : Option (Circuit Op Val))
  (retryable : PyExn → Bool) (sleep : Time → Prog (PySig Op Val) Unit)

/-- The body of the loop, for the attempts that are left. -/
def callAttempts : List Nat → Prog (PySig Op Val) α
  | [] => .throw (.assertionError "unreachable")
  | attempt :: attempts => do
    let allowed ← Circuit.admits circuit
    if !allowed then
      .throw (.providerUnavailableError "provider temporarily unavailable (circuit breaker open)")
    else
      match ← fn.attempt with
      | .error exc =>
        if !exc.isException then .throw exc
        else if !retryable exc then .throw exc
        else do
          Circuit.noteFailure circuit
          if attempt ≥ maxRetries then .throw exc
          else do
            let delay ← .ofExcept (backoffDelay baseDelay attempt)
            sleep delay
            callAttempts attempts
      | .ok result => do
        Circuit.noteSuccess circuit
        return result

/-- `call_with_retries(fn, max_retries=.., base_delay=.., circuit=..)`. -/
def callWithRetries : Prog (PySig Op Val) α :=
  if maxRetries < 0 then .throw (.valueError "max_retries must be >= 0")
  else if baseDelay < 0 then .throw (.valueError "base_delay must be >= 0")
  else
    callAttempts fn maxRetries baseDelay circuit retryable sleep
      (List.range (maxRetries + 1).toNat)

end CallWithRetries

end CredBroker
