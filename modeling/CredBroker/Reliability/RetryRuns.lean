import CredBroker.Reliability.BreakerHistory

/-!
# Runs of the retry loop

`call_with_retries` against any sequence of outcomes of `fn` and a breaker that
no other call uses: which operations it performs, how it ends, and when the
breaker stops it.
-/

namespace CredBroker

open Interaction

/-! ## The loop and its environment -/

/-- What the loop does: it calls `fn`, uses its breaker, and sleeps. -/
inductive RetryOp
  | fn
  | allow
  | recordSuccess
  | recordFailure
  | sleep (delay : Time)
  deriving DecidableEq

abbrev RetryOp.Val (α : Type) : RetryOp → Type
  | .fn => α
  | .allow => Bool
  | _ => Unit

abbrev RetrySig (α : Type) : Sig := PySig RetryOp (RetryOp.Val α)

section Retries

variable {α : Type}

/-- A breaker, as the loop calls it. -/
def ownCircuit : Circuit RetryOp (RetryOp.Val α) where
  allow := @Prog.perform (RetrySig α) .allow
  recordSuccess := @Prog.perform (RetrySig α) .recordSuccess
  recordFailure := @Prog.perform (RetrySig α) .recordFailure

/-- The loop, for the attempts that are left. -/
abbrev attempts (maxRetries : Int) (baseDelay : Time) (retryable : PyExn → Bool) :
    List Nat → Prog (RetrySig α) α :=
  callAttempts (@Prog.perform (RetrySig α) .fn) maxRetries baseDelay (some ownCircuit) retryable
    fun delay => @Prog.perform (RetrySig α) (.sleep delay)

/-- `call_with_retries(fn, max_retries=.., base_delay=.., circuit=.., retryable=.., sleep=..)`. -/
def retries (maxRetries : Int) (baseDelay : Time) (retryable : PyExn → Bool) :
    Prog (RetrySig α) α :=
  callWithRetries (@Prog.perform (RetrySig α) .fn) maxRetries baseDelay (some ownCircuit) retryable
    fun delay => @Prog.perform (RetrySig α) (.sleep delay)

/-- What an operation is to the breaker. -/
def RetryOp.breakerCall : RetryOp → Option BreakerCall
  | .allow => some .allow
  | .recordSuccess => some .recordSuccess
  -- in the closed state and in the others alike, the first reading does not matter
  | .recordFailure => some (.recordFailure 0)
  | _ => none

/-- The breaker's calls along a trace from its `n`-th operation on, the latest first,
where `clock` is the reading at each operation. -/
def breakerHistory (clock : Nat → Time) : Nat → Trace (RetrySig α) → BreakerHistory
  | _, [] => []
  | n, e :: tr =>
    breakerHistory clock (n + 1) tr ++ (e.op.breakerCall.map fun call => (call, clock n)).toList

/-- The outcomes of `fn`, in their order. -/
def called (tr : Trace (RetrySig α)) : List (Except PyExn α) :=
  tr.filterMap fun
    | ⟨.fn, outcome⟩ => some outcome
    | _ => none

/-- The delays slept, in their order. -/
def delays (tr : Trace (RetrySig α)) : List Time :=
  tr.filterMap fun e =>
    match e.op with
    | .sleep delay => some delay
    | _ => none

/-- The environment of one run: the outcomes of `fn`, the clock, and a breaker that
was `b` when the run began. -/
def retryAnswer (outcomes : Nat → Except PyExn α) (clock : Nat → Time) (b : CircuitBreaker)
    (past : Trace (RetrySig α)) : (e : RetryOp) → (RetrySig α).Ans e
  | .fn => outcomes (called past).length
  | .allow => .ok ((b.after (breakerHistory clock 0 past)).allow (clock past.length)).1
  | .recordSuccess | .recordFailure | .sleep _ => .ok ()

/-- A run: what it performed, and how it ended. -/
def retryRun (outcomes : Nat → Except PyExn α) (clock : Nat → Time) (b : CircuitBreaker)
    (maxRetries : Int) (baseDelay : Time) (retryable : PyExn → Bool) :
    Trace (RetrySig α) × Except PyExn α :=
  (retries maxRetries baseDelay retryable).play (retryAnswer outcomes clock b) []

/-! ## The shape of a run -/

/-- An exception after which the loop tries again. -/
def Retries (retryable : PyExn → Bool) (x : PyExn) : Prop :=
  x.isException = true ∧ retryable x = true

instance (retryable : PyExn → Bool) (x : PyExn) : Decidable (Retries retryable x) :=
  inferInstanceAs (Decidable (_ ∧ _))

/-- What the loop raises where its breaker rejects an attempt. -/
def unavailable : PyExn :=
  .providerUnavailableError "provider temporarily unavailable (circuit breaker open)"

/-- Attempts that failed and are followed by another one, from the `n`-th on. -/
def rounds (baseDelay : Time) : Nat → List PyExn → Trace (RetrySig α)
  | _, [] => []
  | n, x :: fails =>
    ⟨.allow, .ok true⟩ :: ⟨.fn, .error x⟩ :: ⟨.recordFailure, .ok ()⟩ ::
      ⟨.sleep (baseDelay * 2 ^ n), .ok ()⟩ :: rounds baseDelay (n + 1) fails

/-- How a run ends, in its attempt `n`. -/
inductive RetryEnd (maxRetries : Int) (retryable : PyExn → Bool) (n : Nat) :
    Trace (RetrySig α) → Except PyExn α → Prop
  | rejected : RetryEnd maxRetries retryable n [⟨.allow, .ok false⟩]
      (.error unavailable)
  | returned (a : α) : RetryEnd maxRetries retryable n
      [⟨.allow, .ok true⟩, ⟨.fn, .ok a⟩, ⟨.recordSuccess, .ok ()⟩] (.ok a)
  | raised (x : PyExn) (final : ¬ Retries retryable x) : RetryEnd maxRetries retryable n
      [⟨.allow, .ok true⟩, ⟨.fn, .error x⟩] (.error x)
  | exhausted (x : PyExn) (again : Retries retryable x) (last : (n : Int) = maxRetries) :
      RetryEnd maxRetries retryable n
        [⟨.allow, .ok true⟩, ⟨.fn, .error x⟩, ⟨.recordFailure, .ok ()⟩] (.error x)

/-- How a run ends in its attempt `n` where the delay before the next one is too large
for a float. -/
inductive Overflowed (maxRetries : Int) (retryable : PyExn → Bool) (n : Nat) :
    Trace (RetrySig α) → Except PyExn α → Prop
  | overflowed (x : PyExn) (again : Retries retryable x) (more : (n : Int) < maxRetries)
      (large : 1024 ≤ n) : Overflowed maxRetries retryable n
        [⟨.allow, .ok true⟩, ⟨.fn, .error x⟩, ⟨.recordFailure, .ok ()⟩] (.error floatOverflow)

section Play

variable (outcomes : Nat → Except PyExn α) (clock : Nat → Time) (b : CircuitBreaker)
  (maxRetries : Int) (baseDelay : Time) (retryable : PyExn → Bool)

/-- One attempt, and what is left to the others. -/
theorem play_attempt (n : Nat) (ns : List Nat) (past : Trace (RetrySig α)) {allowed : Bool}
    (asked : retryAnswer outcomes clock b past .allow = .ok allowed) {outcome : Except PyExn α}
    (tried : retryAnswer outcomes clock b (past ++ [⟨.allow, .ok true⟩]) .fn = outcome) :
    (attempts maxRetries baseDelay retryable (n :: ns)).play (retryAnswer outcomes clock b) past =
    match allowed, outcome with
    | false, _ => (past ++ [⟨.allow, .ok false⟩], .error unavailable)
    | true, .ok a =>
      (past ++ [⟨.allow, .ok true⟩, ⟨.fn, .ok a⟩, ⟨.recordSuccess, .ok ()⟩], .ok a)
    | true, .error x =>
      if ¬ Retries retryable x then (past ++ [⟨.allow, .ok true⟩, ⟨.fn, .error x⟩], .error x)
      else if n ≥ maxRetries then
        (past ++ [⟨.allow, .ok true⟩, ⟨.fn, .error x⟩, ⟨.recordFailure, .ok ()⟩], .error x)
      else
        match backoffDelay baseDelay n with
        | .error overflow =>
          (past ++ [⟨.allow, .ok true⟩, ⟨.fn, .error x⟩, ⟨.recordFailure, .ok ()⟩], .error overflow)
        | .ok delay =>
          (attempts maxRetries baseDelay retryable ns).play (retryAnswer outcomes clock b)
            (past ++ [⟨.allow, .ok true⟩, ⟨.fn, .error x⟩, ⟨.recordFailure, .ok ()⟩,
              ⟨.sleep delay, .ok ()⟩]) := by
  conv_lhs => rw [attempts, callAttempts]
  simp only [Circuit.admits, ownCircuit, Prog.perform, Prog.call_bind, Prog.play]
  rw [asked]
  cases allowed with
  | false => rfl
  | true =>
    simp only [Prog.ofExcept, Prog.ret_bind, Bool.not_true, Bool.false_eq_true, if_false,
      Prog.attempt_call, Prog.call_bind, Prog.play]
    rw [tried]
    cases outcome with
    | ok a =>
      show (_, _) = _
      rw [List.append_assoc, List.append_assoc]
      rfl
    | error x =>
      simp only [Prog.attempt_throw, Prog.ret_bind]
      by_cases again : Retries retryable x
      · rw [if_neg (not_not.mpr again)]
        simp only [again.1, again.2, Bool.not_true, Bool.false_eq_true, if_false,
          Circuit.noteFailure, Prog.call_bind, Prog.play]
        split
        · show (_, _) = _
          rw [List.append_assoc, List.append_assoc]
          rfl
        · cases backoffDelay baseDelay n with
          | error overflow =>
            show (_, _) = _
            rw [List.append_assoc, List.append_assoc]
            rfl
          | ok delay =>
            show Prog.play _ (_ ++ [_] ++ [_] ++ [_] ++ [_]) _ = _
            rw [List.append_assoc, List.append_assoc, List.append_assoc]
            rfl
      · rw [if_pos again]
        have stops : ∀ rest : Prog (RetrySig α) α, (if !x.isException then .throw x
            else if !retryable x then .throw x else rest) = .throw x := by
          intro rest
          split
          · rfl
          · rename_i is
            rw [if_pos]
            simpa [Retries, Bool.not_eq_true] using fun yes => again ⟨by simpa using is, yes⟩
        rw [stops]
        show (_, _) = _
        rw [List.append_assoc]
        rfl

/-- The attempts from the `n`-th on. -/
theorem play_attempts (left n : Nat) (few : (n : Int) + left = maxRetries)
    (past : Trace (RetrySig α)) : ∃ fails last r,
      (attempts maxRetries baseDelay retryable (List.range' n (left + 1))).play
        (retryAnswer outcomes clock b) past = (past ++ (rounds baseDelay n fails ++ last), r) ∧
      (∀ x ∈ fails, Retries retryable x) ∧ fails.length ≤ left ∧
      (fails ≠ [] → n + fails.length ≤ 1024) ∧
      (RetryEnd maxRetries retryable (n + fails.length) last r ∨
        Overflowed maxRetries retryable (n + fails.length) last r) := by
  induction left generalizing n past with
  | zero =>
    rw [List.range'_succ, play_attempt outcomes clock b maxRetries baseDelay retryable n _ past rfl
      rfl]
    refine ⟨[], ?_⟩
    generalize ((b.after (breakerHistory clock 0 past)).allow (clock past.length)).1 = allowed
    generalize retryAnswer outcomes clock b (past ++ [⟨.allow, .ok true⟩]) .fn = outcome
    rcases allowed with _ | _
    · exact ⟨_, _, rfl, by simp, Nat.le_refl _, by simp, .inl .rejected⟩
    rcases outcome with x | a
    · by_cases again : Retries retryable x
      · have last : (n : Int) = maxRetries := by simpa using few
        simp only [if_neg (not_not.mpr again), if_pos (Int.le_of_eq last.symm)]
        exact ⟨_, _, rfl, by simp, Nat.le_refl _, by simp, .inl (.exhausted x again last)⟩
      · simp only [if_pos again]
        exact ⟨_, _, rfl, by simp, Nat.le_refl _, by simp, .inl (.raised x again)⟩
    · exact ⟨_, _, rfl, by simp, Nat.le_refl _, by simp, .inl (.returned a)⟩
  | succ left ih =>
    rw [List.range'_succ, play_attempt outcomes clock b maxRetries baseDelay retryable n _ past rfl
      rfl]
    generalize ((b.after (breakerHistory clock 0 past)).allow (clock past.length)).1 = allowed
    generalize retryAnswer outcomes clock b (past ++ [⟨.allow, .ok true⟩]) .fn = outcome
    rcases allowed with _ | _
    · exact ⟨[], _, _, rfl, by simp, Nat.zero_le _, by simp, .inl .rejected⟩
    rcases outcome with x | a
    · by_cases again : Retries retryable x
      · -- a failure that is followed by another attempt, where the delay before it is a float
        have more : ¬ (n : Int) ≥ maxRetries := by omega
        simp only [if_neg (not_not.mpr again), if_neg more, backoffDelay]
        by_cases small : n < 1024
        · simp only [if_pos small]
          obtain ⟨fails, last, r, played, all, count, early, ends⟩ := ih (n + 1) (by omega) (past ++
            [⟨.allow, .ok true⟩, ⟨.fn, .error x⟩, ⟨.recordFailure, .ok ()⟩,
              ⟨.sleep (baseDelay * 2 ^ n), .ok ()⟩])
          have shift : n + (x :: fails).length = n + 1 + fails.length := by
            rw [List.length_cons]
            omega
          refine ⟨x :: fails, last, r, ?_, List.forall_mem_cons.mpr ⟨again, all⟩,
            Nat.succ_le_succ count, fun _ => ?_, ?_⟩
          · rw [played, List.append_assoc]
            rfl
          · rw [shift]
            by_cases none : fails = []
            · rw [none]
              exact small
            · exact early none
          · rw [shift]
            exact ends
        · simp only [if_neg small]
          exact ⟨[], _, _, rfl, by simp, Nat.zero_le _, by simp,
            .inr (.overflowed x again (Int.not_le.mp more) (Nat.not_lt.mp small))⟩
      · simp only [if_pos again]
        exact ⟨[], _, _, rfl, by simp, Nat.zero_le _, by simp, .inl (.raised x again)⟩
    · exact ⟨[], _, _, rfl, by simp, Nat.zero_le _, by simp, .inl (.returned a)⟩

/-- A run is rounds of failures, and an end. -/
theorem retryRun_shape {tr : Trace (RetrySig α)} {r : Except PyExn α} (nonneg : 0 ≤ maxRetries)
    (delay_nonneg : 0 ≤ baseDelay)
    (ran : retryRun outcomes clock b maxRetries baseDelay retryable = (tr, r)) :
    ∃ fails last, tr = rounds baseDelay 0 fails ++ last ∧ (∀ x ∈ fails, Retries retryable x) ∧
      (fails.length : Int) ≤ maxRetries ∧ fails.length ≤ 1024 ∧
      (RetryEnd maxRetries retryable fails.length last r ∨
        Overflowed maxRetries retryable fails.length last r) := by
  obtain ⟨fails, last, r', played, all, few, early, ends⟩ := play_attempts outcomes clock b
    maxRetries baseDelay retryable maxRetries.toNat 0 (by omega) []
  have unfolded : retryRun outcomes clock b maxRetries baseDelay retryable =
      (attempts maxRetries baseDelay retryable (List.range' 0 (maxRetries.toNat + 1))).play
        (retryAnswer outcomes clock b) [] := by
    have bounds : (maxRetries + 1).toNat = maxRetries.toNat + 1 := by omega
    rw [retryRun, retries, callWithRetries, if_neg (Int.not_lt.mpr nonneg),
      if_neg (Int.not_lt.mpr delay_nonneg), List.range_eq_range', bounds]
  rw [unfolded, played] at ran
  cases ran
  rw [Nat.zero_add] at early ends
  refine ⟨fails, last, rfl, all, by omega, ?_, ends⟩
  by_cases none : fails = []
  · rw [none]
    exact Nat.zero_le _
  · exact early none

end Play

/-! ## The breaker of a run -/

section Breaker

variable {clock : Nat → Time} (ticks : ∀ n, clock n ≤ clock (n + 1)) {tr : Trace (RetrySig α)}

include ticks

theorem clock_mono {m n : Nat} (le : m ≤ n) : clock m ≤ clock n := by
  induction le with
  | refl => exact Int.le_refl _
  | step _ ih => exact Int.le_trans ih (ticks _)

theorem mem_breakerHistory {n : Nat} {call : BreakerCall × Time}
    (member : call ∈ breakerHistory clock n tr) :
    clock n ≤ call.2 ∧ call.2 ≤ clock (n + tr.length) := by
  induction tr generalizing n with
  | nil => cases member
  | cons e tr ih =>
    have length : n + (e :: tr).length = n + 1 + tr.length := by rw [List.length_cons]; omega
    rw [length]
    rcases List.mem_append.mp member with later | here
    · obtain ⟨low, high⟩ := ih later
      exact ⟨Int.le_trans (ticks n) low, high⟩
    · obtain ⟨_, -, rfl⟩ := Option.map_eq_some_iff.mp (Option.mem_toList.mp here)
      exact ⟨Int.le_refl _, clock_mono ticks (by omega)⟩

/-- The clock of a run is one that a breaker may have. -/
theorem breakerHistory_clocked (n : Nat) :
    (breakerHistory clock n tr).Clocked (clock (n + tr.length)) := by
  refine List.pairwise_cons.mpr ⟨fun t member => ?_, ?_⟩
  · obtain ⟨call, there, rfl⟩ := List.mem_map.mp member
    exact (mem_breakerHistory ticks there).2
  · induction tr generalizing n with
    | nil => exact .nil
    | cons e tr ih =>
      rw [breakerHistory, List.map_append, List.pairwise_append]
      refine ⟨ih (n + 1), ?_, fun later member here member' => ?_⟩
      · cases e.op.breakerCall <;> simp
      · obtain ⟨call, there, rfl⟩ := List.mem_map.mp member
        obtain ⟨call', there', rfl⟩ := List.mem_map.mp member'
        obtain ⟨_, -, rfl⟩ := Option.map_eq_some_iff.mp (Option.mem_toList.mp there')
        exact Int.le_trans (ticks n) (mem_breakerHistory ticks there).1

/-- After a failure the last failure of a history without a success is no earlier. -/
theorem lastFailure_later {n : Nat} (unsuccessful : ∀ e ∈ tr, e.op ≠ .recordSuccess)
    {h : BreakerHistory} {since last : Time} (before : h.lastFailure = some last)
    (late : since ≤ last) (now : since ≤ clock n) :
    ∃ last', BreakerHistory.lastFailure (breakerHistory clock n tr ++ h) = some last' ∧
      since ≤ last' := by
  induction tr generalizing n h last with
  | nil => exact ⟨last, before, late⟩
  | cons e tr ih =>
    have rest := fun e member => unsuccessful e (List.mem_cons_of_mem _ member)
    have next := Int.le_trans now (ticks n)
    rw [breakerHistory, List.append_assoc]
    cases op_eq : e.op with
    | recordSuccess => exact (unsuccessful e List.mem_cons_self op_eq).elim
    | recordFailure => exact ih rest rfl now next
    | allow => exact ih rest before late next
    | fn | sleep delay => exact ih rest before late next

end Breaker

/-- The failures that a trace records. -/
def noted (tr : Trace (RetrySig α)) : Nat := tr.countP fun e => e.op = .recordFailure

theorem failures_noted {clock : Nat → Time} {n : Nat} {tr : Trace (RetrySig α)}
    (unsuccessful : ∀ e ∈ tr, e.op ≠ .recordSuccess) (h : BreakerHistory) :
    BreakerHistory.failures (breakerHistory clock n tr ++ h) = noted tr + h.failures := by
  induction tr generalizing n h with
  | nil => exact (Nat.zero_add _).symm
  | cons e tr ih =>
    have rest := fun e member => unsuccessful e (List.mem_cons_of_mem _ member)
    rw [breakerHistory, List.append_assoc, ih rest, noted, noted, List.countP_cons]
    cases op_eq : e.op with
    | recordSuccess => exact (unsuccessful e List.mem_cons_self op_eq).elim
    | recordFailure =>
      simp only [RetryOp.breakerCall, Option.map_some, Option.toList_some, List.singleton_append,
        BreakerHistory.failures, decide_true, if_true]
      omega
    | allow | fn | sleep delay =>
      simp [RetryOp.breakerCall, BreakerHistory.failures]

theorem breakerHistory_append (clock : Nat → Time) (n : Nat) (tr tr' : Trace (RetrySig α)) :
    breakerHistory clock n (tr ++ tr') =
      breakerHistory clock (n + tr.length) tr' ++ breakerHistory clock n tr := by
  induction tr generalizing n with
  | nil => simp [breakerHistory]
  | cons e tr ih =>
    rw [List.cons_append, breakerHistory, ih, breakerHistory, List.length_cons, List.append_assoc]
    congr 2
    omega

/-- Once the failures on a closed breaker come to its threshold, it admits no attempt
before its window is over. -/
theorem admitted_late {clock : Nat → Time} (ticks : ∀ n, clock n ≤ clock (n + 1))
    {b : CircuitBreaker} (closed : b.state = .closed)
    (few : (b.consecutiveFailures : Int) < b.failureThreshold) {pre mid : Trace (RetrySig α)}
    (unsuccessful : ∀ e ∈ pre ++ ⟨.recordFailure, .ok ()⟩ :: mid, e.op ≠ .recordSuccess)
    (many : b.failureThreshold ≤ (b.consecutiveFailures + noted pre + 1 : Nat))
    (allowed : ((b.after (breakerHistory clock 0 (pre ++ ⟨.recordFailure, .ok ()⟩ :: mid))).allow
      (clock (pre ++ ⟨.recordFailure, .ok ()⟩ :: mid).length)).1 = true) :
    clock pre.length + b.resetSeconds ≤ clock (pre ++ ⟨.recordFailure, .ok ()⟩ :: mid).length := by
  -- the failures that the breaker counted when the run began
  have counted : BreakerHistory.failures
      (List.replicate b.consecutiveFailures (.recordFailure 0, 0)) = b.consecutiveFailures := by
    generalize b.consecutiveFailures = count
    induction count with
    | zero => rfl
    | succ count ih => exact congrArg (· + 1) ih
  have tracks : ∀ t, CircuitBreaker.Tracks
      (List.replicate b.consecutiveFailures (.recordFailure 0, 0)) t b := fun t =>
    .closed closed counted.symm (by rw [counted]; exact few)
  have clocked : (breakerHistory clock 0 (pre ++ ⟨.recordFailure, .ok ()⟩ :: mid)).Clocked
      (clock (0 + (pre ++ ⟨.recordFailure, .ok ()⟩ :: mid).length)) :=
    breakerHistory_clocked ticks 0
  rw [Nat.zero_add] at clocked
  rw [(CircuitBreaker.Tracks.answers tracks clocked).2, breakerHistory_append, List.append_assoc]
    at allowed
  generalize older : breakerHistory clock 0 pre ++
    List.replicate b.consecutiveFailures (.recordFailure 0, 0) = h at allowed
  obtain ⟨before, after⟩ := List.forall_mem_append.mp unsuccessful
  have whole : breakerHistory clock (0 + pre.length)
        (⟨.recordFailure, .ok ()⟩ :: mid : Trace (RetrySig α)) ++ h =
      breakerHistory clock (pre.length + 1) mid ++ (.recordFailure 0, clock pre.length) :: h := by
    rw [Nat.zero_add, breakerHistory, List.append_assoc]
    rfl
  have failed : b.failureThreshold ≤ (BreakerHistory.failures (breakerHistory clock
      (pre.length + 1) mid ++ (.recordFailure 0, clock pre.length) :: h) : Nat) := by
    rw [← whole, failures_noted after, ← older, failures_noted before, counted, noted,
      List.countP_cons]
    simp only [decide_true, if_true]
    exact Int.le_trans many (Int.ofNat_le.mpr (by rw [noted]; omega))
  -- the last failure is not before this one
  have recent : ∃ last, BreakerHistory.lastFailure (breakerHistory clock (pre.length + 1) mid ++
      (.recordFailure 0, clock pre.length) :: h) = some last ∧ clock pre.length ≤ last :=
    lastFailure_later ticks (List.forall_mem_cons.mp after).2 rfl (Int.le_refl _) (ticks _)
  obtain ⟨last, last_eq, late⟩ := recent
  rw [whole, BreakerHistory.admits, BreakerHistory.status, last_eq] at allowed
  simp only [if_neg (Int.not_lt.mpr failed)] at allowed
  by_contra early
  have open_ := Int.lt_of_lt_of_le (Int.not_le.mp early) (Int.add_le_add_right late _)
  rw [if_pos open_] at allowed
  cases allowed

/-! ## The retry loop -/

section Shape

variable {baseDelay : Time}

theorem called_append (tr tr' : Trace (RetrySig α)) :
    called (tr ++ tr') = called tr ++ called tr' :=
  List.filterMap_append

theorem called_rounds (n : Nat) (fails : List PyExn) :
    called (rounds baseDelay n fails : Trace (RetrySig α)) = fails.map .error := by
  induction fails generalizing n with
  | nil => rfl
  | cons x fails ih => exact congrArg (_ :: ·) (ih (n + 1))

theorem delays_rounds (n : Nat) (fails : List PyExn) :
    delays (rounds baseDelay n fails : Trace (RetrySig α)) =
      (List.range' n fails.length).map fun i => baseDelay * 2 ^ i := by
  induction fails generalizing n with
  | nil => rfl
  | cons x fails ih => exact congrArg (_ :: ·) (ih (n + 1))

/-- A trace in which every call of `fn` comes right after it was admitted. -/
def EachAdmitted (tr : Trace (RetrySig α)) : Prop :=
  ∀ pre a post, tr = pre ++ ⟨.fn, a⟩ :: post → ∃ pre', pre = pre' ++ [⟨.allow, .ok true⟩]

theorem admitted_rounds (n : Nat) (fails : List PyExn) {last : Trace (RetrySig α)}
    (ending : EachAdmitted last) : EachAdmitted (rounds baseDelay n fails ++ last) := by
  induction fails generalizing n with
  | nil => exact ending
  | cons x fails ih =>
    intro pre a post cut
    rcases pre with _ | ⟨e₁, _ | ⟨e₂, _ | ⟨e₃, _ | ⟨e₄, pre⟩⟩⟩⟩
    · cases cut
    · obtain ⟨rfl, -⟩ := List.cons.inj cut
      exact ⟨[], rfl⟩
    · cases cut
    · cases cut
    · simp only [rounds, List.cons_append, List.cons.injEq] at cut
      obtain ⟨pre', rfl⟩ := ih (n + 1) pre a post cut.2.2.2.2
      exact ⟨e₁ :: e₂ :: e₃ :: e₄ :: pre', rfl⟩

theorem eachAdmitted_attempt (a : Except PyExn α) {tail : Trace (RetrySig α)}
    (none : ∀ e ∈ tail, e.op ≠ .fn) :
    EachAdmitted (⟨.allow, .ok true⟩ :: ⟨.fn, a⟩ :: tail : Trace (RetrySig α)) := by
  intro pre a' post cut
  rcases pre with _ | ⟨e₁, _ | ⟨e₂, pre⟩⟩
  · cases cut
  · obtain ⟨rfl, -⟩ := List.cons.inj cut
    exact ⟨[], rfl⟩
  · simp only [List.cons_append, List.cons.injEq] at cut
    refine (none ⟨.fn, a'⟩ ?_ rfl).elim
    rw [cut.2.2]
    exact List.mem_append_right _ List.mem_cons_self

theorem unsuccessful_rounds (n : Nat) (fails : List PyExn) :
    ∀ e ∈ (rounds baseDelay n fails : Trace (RetrySig α)), e.op ≠ .recordSuccess := by
  induction fails generalizing n with
  | nil => exact fun e member => nomatch member
  | cons x fails ih =>
    simpa [rounds, or_imp, forall_and] using ih (n + 1)

theorem RetryEnd.ne_nil {maxRetries : Int} {retryable : PyExn → Bool} {n : Nat}
    {last : Trace (RetrySig α)} {r : Except PyExn α}
    (ends : RetryEnd maxRetries retryable n last r) :
    last ≠ [] := by
  cases ends <;> simp

/-- What the last attempt of a run adds. -/
theorem RetryEnd.spec {maxRetries : Int} {retryable : PyExn → Bool} {n : Nat}
    {last : Trace (RetrySig α)} {r : Except PyExn α}
    (ends : RetryEnd maxRetries retryable n last r) :
    delays last = [] ∧ (called last).length ≤ 1 ∧ EachAdmitted last ∧
      (∀ e ∈ last.dropLast, e.op ≠ .recordSuccess) ∧
      ∀ x, r = .error x → x = unavailable ∨ .error x ∈ called last := by
  cases ends with
  | rejected =>
    refine ⟨rfl, Nat.zero_le _, ?_, by simp, fun x raised => .inl (Except.error.inj raised).symm⟩
    intro pre a post cut
    rcases pre with _ | ⟨e, pre⟩
    · cases cut
    · simp at cut
  | returned a =>
    exact ⟨rfl, Nat.le_refl _, eachAdmitted_attempt _ (by simp), by simp, by simp⟩
  | raised x final =>
    refine ⟨rfl, Nat.le_refl _, eachAdmitted_attempt _ (by simp), by simp, fun y raised => .inr ?_⟩
    cases raised
    exact List.mem_singleton_self _
  | exhausted x again last =>
    refine ⟨rfl, Nat.le_refl _, eachAdmitted_attempt _ (by simp), by simp, fun y raised => .inr ?_⟩
    cases raised
    exact List.mem_singleton_self _

end Shape

/-! ## Exact behaviour -/

/-- What `call_with_retries` is documented to do in a run, against a breaker that was `b`
before it. -/
structure RunsExactly (clock : Nat → Time) (b : CircuitBreaker) (maxRetries : Int)
    (baseDelay : Time) (retryable : PyExn → Bool) (tr : Trace (RetrySig α)) (r : Except PyExn α) :
    Prop where
  /-- The attempts that fail and are followed by another one, and how the last one ends. -/
  shape : ∃ fails last, tr = rounds baseDelay 0 fails ++ last ∧
    (∀ x ∈ fails, Retries retryable x) ∧ (fails.length : Int) ≤ maxRetries ∧
    RetryEnd maxRetries retryable fails.length last r ∧
    delays tr = (List.range fails.length).map fun i => baseDelay * 2 ^ i
  few : ((called tr).length : Int) ≤ 1 + maxRetries
  admitted : EachAdmitted tr
  raised : ∀ x, r = .error x → x = unavailable ∨ .error x ∈ called tr
  /-- The failure that trips a closed breaker is the last one before its window is over. -/
  tripped : b.state = .closed → (b.consecutiveFailures : Int) < b.failureThreshold →
    ∀ pre mid a post, tr = pre ++ ⟨.recordFailure, .ok ()⟩ :: (mid ++ ⟨.fn, a⟩ :: post) →
      b.failureThreshold ≤ (b.consecutiveFailures + noted pre + 1 : Nat) →
      clock pre.length + b.resetSeconds ≤ clock (pre.length + 1 + mid.length)

/-- What the breaker was called for before attempt `n`, where all attempts before failed. -/
def failedHistory (clock : Nat → Time) : Nat → BreakerHistory
  | 0 => []
  | n + 1 =>
    (.recordFailure 0, clock (4 * n + 2)) :: (.allow, clock (4 * n)) :: failedHistory clock n

/-- The first 1025 attempts are admitted and fail, and another one is permitted. -/
def Overflows (outcomes : Nat → Except PyExn α) (clock : Nat → Time) (b : CircuitBreaker)
    (maxRetries : Int) (retryable : PyExn → Bool) : Prop :=
  1024 < maxRetries ∧ ∀ n ≤ 1024,
    ((b.after (failedHistory clock n)).allow (clock (4 * n))).1 = true ∧
      ∃ x, outcomes n = .error x ∧ Retries retryable x

section Exact

variable {outcomes : Nat → Except PyExn α} {clock : Nat → Time} {b : CircuitBreaker}
  {maxRetries : Int} {baseDelay : Time} {retryable : PyExn → Bool} {tr : Trace (RetrySig α)}
  {r : Except PyExn α} {fails : List PyExn} {last : Trace (RetrySig α)}

theorem length_rounds (n : Nat) (fails : List PyExn) :
    (rounds baseDelay n fails : Trace (RetrySig α)).length = 4 * fails.length := by
  induction fails generalizing n with
  | nil => rfl
  | cons x fails ih =>
    rw [rounds, List.length_cons, List.length_cons, List.length_cons, List.length_cons, ih,
      List.length_cons]
    omega

theorem rounds_append (n : Nat) (fails more : List PyExn) :
    (rounds baseDelay n (fails ++ more) : Trace (RetrySig α)) =
      rounds baseDelay n fails ++ rounds baseDelay (n + fails.length) more := by
  induction fails generalizing n with
  | nil => rfl
  | cons x fails ih =>
    rw [List.cons_append, rounds, ih, List.length_cons, Nat.add_comm fails.length, ← Nat.add_assoc]
    rfl

theorem breakerHistory_rounds (clock : Nat → Time) (fails : List PyExn) :
    breakerHistory clock 0 (rounds baseDelay 0 fails : Trace (RetrySig α)) =
      failedHistory clock fails.length := by
  induction fails using List.reverseRecOn with
  | nil => rfl
  | append_singleton fails x ih =>
    rw [rounds_append, breakerHistory_append, ih, length_rounds, List.length_append, Nat.zero_add,
      Nat.zero_add]
    rfl

section Answered

variable (answers : ∀ pre e post, tr = pre ++ e :: post →
  e.ans = retryAnswer outcomes clock b pre e.op)

include answers

theorem answered_admission {allowed : Bool} {more : Trace (RetrySig α)}
    (cut : tr = rounds baseDelay 0 fails ++ ⟨.allow, .ok allowed⟩ :: more) :
    ((b.after (failedHistory clock fails.length)).allow (clock (4 * fails.length))).1 =
      allowed := by
  have asked := Except.ok.inj (answers _ _ _ cut)
  rw [breakerHistory_rounds, length_rounds] at asked
  exact asked.symm

theorem answered_call {outcome : Except PyExn α} {more : Trace (RetrySig α)}
    (cut : tr = rounds baseDelay 0 fails ++ ⟨.allow, .ok true⟩ :: ⟨.fn, outcome⟩ :: more) :
    outcomes fails.length = outcome := by
  have calls : called (rounds baseDelay 0 fails ++ [⟨.allow, .ok true⟩] : Trace (RetrySig α)) =
      fails.map .error := by
    rw [called_append, called_rounds]
    exact List.append_nil _
  have called_ : outcome = outcomes (called _).length :=
    answers (rounds baseDelay 0 fails ++ [⟨.allow, .ok true⟩]) ⟨.fn, outcome⟩ more
      (by rw [cut, List.append_assoc]; rfl)
  rw [calls, List.length_map] at called_
  exact called_.symm

end Answered

/-- A run that ends by itself does not overflow. -/
theorem RetryEnd.not_overflows (ends : RetryEnd maxRetries retryable fails.length last r)
    (early : fails.length ≤ 1024)
    (answers : ∀ pre e post, rounds baseDelay 0 fails ++ last = pre ++ e :: post →
      e.ans = retryAnswer outcomes clock b pre e.op) :
    ¬ Overflows outcomes clock b maxRetries retryable := by
  rintro ⟨many, overflows⟩
  obtain ⟨admitted, x, failed, again⟩ := overflows _ early
  cases ends with
  | rejected =>
    rw [answered_admission answers rfl] at admitted
    cases admitted
  | returned a =>
    rw [answered_call answers rfl] at failed
    cases failed
  | raised y final =>
    rw [answered_call answers rfl] at failed
    cases failed
    exact final again
  | exhausted y _ is => omega

/-- The first events of the round of a failure. -/
theorem rounds_cut {n : Nat} (lt : n < fails.length) : ∃ more : Trace (RetrySig α),
    rounds baseDelay 0 fails ++ last = rounds baseDelay 0 (fails.take n) ++
      ⟨.allow, .ok true⟩ :: ⟨.fn, .error fails[n]⟩ :: more := by
  have cut : fails = fails.take n ++ fails[n] :: fails.drop (n + 1) := by
    rw [← List.drop_eq_getElem_cons, List.take_append_drop]
  refine ⟨⟨.recordFailure, .ok ()⟩ ::
    ⟨.sleep (baseDelay * 2 ^ (0 + (fails.take n).length)), .ok ()⟩ ::
    (rounds baseDelay (0 + (fails.take n).length + 1) (fails.drop (n + 1)) ++ last), ?_⟩
  conv_lhs => rw [cut, rounds_append, List.append_assoc]
  rfl

/-- A run that overflows is one of those. -/
theorem Overflowed.overflows (ends : Overflowed maxRetries retryable fails.length last r)
    (all : ∀ x ∈ fails, Retries retryable x) (early : fails.length ≤ 1024)
    (answers : ∀ pre e post, rounds baseDelay 0 fails ++ last = pre ++ e :: post →
      e.ans = retryAnswer outcomes clock b pre e.op) :
    Overflows outcomes clock b maxRetries retryable := by
  obtain ⟨x, again, more, large⟩ := ends
  have length : fails.length = 1024 := Nat.le_antisymm early large
  refine ⟨by omega, fun n le => ?_⟩
  rcases Nat.lt_or_eq_of_le le with lt | rfl
  · -- one of the failures that another attempt followed
    have lt' : n < fails.length := length ▸ lt
    obtain ⟨_, cut⟩ := @rounds_cut _ baseDelay fails _ n lt'
    have taken : (fails.take n).length = n := List.length_take_of_le lt'.le
    have admitted := answered_admission answers cut
    have failed := answered_call answers cut
    rw [taken] at admitted failed
    exact ⟨admitted, _, failed, all _ (List.getElem_mem lt')⟩
  · have admitted := answered_admission answers rfl
    have failed := answered_call answers rfl
    rw [length] at admitted failed
    exact ⟨admitted, x, failed, again⟩

/-- Such a run is none that is documented. -/
theorem Overflowed.inexact (ends : Overflowed maxRetries retryable fails.length last r)
    (early : fails.length ≤ 1024) :
    ¬ RunsExactly clock b maxRetries baseDelay retryable (rounds baseDelay 0 fails ++ last) r := by
  intro exact_
  obtain ⟨fails', last', same, -, -, ends', -⟩ := exact_.shape
  obtain ⟨x, again, more, large⟩ := ends
  have length := congrArg List.length same
  simp only [List.length_append, length_rounds] at length
  -- of the ends that are as long as this one, one returns and one is of the last attempt
  cases ends' with
  | raised => simp at length; omega
  | exhausted y _ is => simp at length; omega

/-- A run that ends by itself is as documented. -/
theorem RetryEnd.exact (ticks : ∀ n, clock n ≤ clock (n + 1))
    (ends : RetryEnd maxRetries retryable fails.length last r)
    (all : ∀ x ∈ fails, Retries retryable x) (few : (fails.length : Int) ≤ maxRetries)
    (answers : ∀ pre e post, rounds baseDelay 0 fails ++ last = pre ++ e :: post →
      e.ans = retryAnswer outcomes clock b pre e.op) :
    RunsExactly clock b maxRetries baseDelay retryable (rounds baseDelay 0 fails ++ last) r := by
  obtain ⟨slept, tried, admitted, unsuccessful, raised⟩ := ends.spec
  refine ⟨⟨fails, last, rfl, all, few, ends, ?_⟩, ?_, admitted_rounds 0 fails admitted, ?_, ?_⟩
  · rw [delays, List.filterMap_append, ← delays, ← delays, delays_rounds, slept, List.append_nil,
      List.range_eq_range']
  · rw [called_append, called_rounds, List.length_append, List.length_map]
    omega
  · intro x ended
    refine (raised x ended).imp_right fun member => ?_
    rw [called_append]
    exact List.mem_append_right _ member
  · intro closed count pre mid a post cut many
    have calling : rounds baseDelay 0 fails ++ last =
        (pre ++ ⟨.recordFailure, .ok ()⟩ :: mid) ++ ⟨.fn, a⟩ :: post := by simp [cut]
    obtain ⟨before, asked⟩ := admitted_rounds 0 fails admitted _ _ _ calling
    rcases List.eq_nil_or_concat mid with rfl | ⟨mid, ev, rfl⟩
    · have same := (List.append_inj' asked rfl).2
      cases same
    · rw [List.concat_eq_append, ← List.cons_append, ← List.append_assoc] at asked calling
      obtain ⟨rfl, same⟩ := List.append_inj' asked rfl
      obtain rfl : ev = ⟨.allow, .ok true⟩ := by simpa using same
      rw [List.append_assoc, List.singleton_append] at calling
      have allowed := Except.ok.inj (answers _ _ _ calling)
      have early : ∀ e ∈ pre ++ ⟨.recordFailure, .ok ()⟩ :: mid, e.op ≠ .recordSuccess := by
        have none : ∀ e ∈ rounds baseDelay 0 fails ++ last.dropLast, e.op ≠ .recordSuccess :=
          List.forall_mem_append.mpr ⟨unsuccessful_rounds 0 fails, unsuccessful⟩
        intro e member
        refine none e ?_
        rw [← List.dropLast_append_of_ne_nil ends.ne_nil, calling,
          List.dropLast_append_of_ne_nil (by simp)]
        exact List.mem_append_left _ member
      refine Int.le_trans (admitted_late ticks closed count early many allowed.symm) ?_
      refine clock_mono ticks ?_
      simp only [List.length_append, List.length_cons, List.concat_eq_append]
      omega

theorem retryRun_answers
    (ran : retryRun outcomes clock b maxRetries baseDelay retryable = (tr, r)) :
    ∀ pre e post, tr = pre ++ e :: post → e.ans = retryAnswer outcomes clock b pre e.op := by
  intro pre e post cut
  have played : ((retries maxRetries baseDelay retryable).play
      (retryAnswer outcomes clock b) []).1 = tr := congrArg Prod.fst ran
  exact (Prog.play_answers _ []).2 pre e post (played.trans cut) (Nat.zero_le _)

/-- A run that comes to such a delay calls `fn` 1025 times, and raises what is no outcome of
its own. -/
theorem Overflows.ends (overflows : Overflows outcomes clock b maxRetries retryable)
    (delay_nonneg : 0 ≤ baseDelay)
    (ran : retryRun outcomes clock b maxRetries baseDelay retryable = (tr, r)) :
    (called tr).length = 1025 ∧ r = .error floatOverflow ∧
      ¬ RunsExactly clock b maxRetries baseDelay retryable tr r := by
  have answers := retryRun_answers ran
  obtain ⟨fails, last, rfl, all, few, early, ends | ends⟩ := retryRun_shape outcomes clock b
    maxRetries baseDelay retryable (by have := overflows.1; omega) delay_nonneg ran
  · exact (ends.not_overflows early answers overflows).elim
  · have inexact := @Overflowed.inexact _ clock b _ baseDelay _ _ _ _ ends early
    obtain ⟨x, again, more, large⟩ := ends
    refine ⟨?_, rfl, inexact⟩
    rw [called_append, called_rounds, List.length_append, List.length_map]
    show fails.length + 1 = 1025
    omega

end Exact

/-- A provider that times out twice and then answers. -/
def Demo.flaky (n : Nat) : Except PyExn Nat :=
  if n < 2 then .error (.timeoutException "") else .ok 7

/-- A closed breaker counts failures up to its threshold. -/
theorem after_failedHistory {b : CircuitBreaker} (closed : b.state = .closed) (clock : Nat → Time)
    {n : Nat} (room : ((b.consecutiveFailures + n : Nat) : Int) < b.failureThreshold) :
    b.after (failedHistory clock n) =
      { b with consecutiveFailures := b.consecutiveFailures + n } := by
  induction n with
  | zero => rfl
  | succ n ih =>
    have more : ¬ ((b.consecutiveFailures + (n + 1) : Nat) : Int) ≥ b.failureThreshold :=
      Int.not_le.mpr room
    rw [failedHistory, CircuitBreaker.after, CircuitBreaker.after, ih (by omega)]
    simp only [CircuitBreaker.perform, CircuitBreaker.recordFailureAt, CircuitBreaker.allow,
      CircuitBreaker.sync, closed, Nat.add_assoc, if_neg more]

end Retries

end CredBroker
