import CredBroker.Reliability.Retry

/-!
# The circuit breaker and its history

A breaker answers by what was recorded on it: how many failures since the last
success, when the last of them was, and whether a probe was admitted since the
reset window elapsed.
-/

namespace CredBroker

/-- The methods of a breaker. Where `record_failure` syncs, it reads the clock once
more, before it trips. -/
inductive BreakerCall
  | allow
  | state
  | recordSuccess
  | recordFailure (synced : Time)
  deriving DecidableEq

/-- Calls on a breaker, each with its reading of the clock, the latest first. -/
abbrev BreakerHistory : Type := List (BreakerCall × Time)

namespace CircuitBreaker

variable (b : CircuitBreaker)

/-- `record_failure()`, with both its readings of the clock. -/
def recordFailureAt (synced now : Time) : CircuitBreaker :=
  let b := b.sync synced
  match b.state with
  | .closed =>
    let b := { b with consecutiveFailures := b.consecutiveFailures + 1 }
    if (b.consecutiveFailures : Int) ≥ b.failureThreshold then b.trip now else b
  | _ => b.trip now

/-- The property `state`. -/
def observe (now : Time) : CircuitState × CircuitBreaker := ((b.sync now).state, b.sync now)

/-- What a call leaves. -/
def perform : BreakerCall × Time → CircuitBreaker
  | (.allow, now) => (b.allow now).2
  | (.state, now) => (b.observe now).2
  | (.recordSuccess, _) => b.recordSuccess
  | (.recordFailure synced, now) => b.recordFailureAt synced now

/-- What a history leaves. -/
def after : BreakerHistory → CircuitBreaker
  | [] => b
  | call :: h => (after h).perform call

end CircuitBreaker

/-! ## What a history determines -/

namespace BreakerHistory

/-- The failures recorded since the last success. -/
def failures : BreakerHistory → Nat
  | [] => 0
  | (.recordSuccess, _) :: _ => 0
  | (.recordFailure _, _) :: h => failures h + 1
  | (.allow, _) :: h | (.state, _) :: h => failures h

/-- When the last failure since the last success was recorded. -/
def lastFailure : BreakerHistory → Option Time
  | [] => none
  | (.recordSuccess, _) :: _ => none
  | (.recordFailure _, now) :: _ => some now
  | (.allow, _) :: h | (.state, _) :: h => lastFailure h

/-- Since the last record, `allow` was called after the reset window. -/
def probed (reset : Time) : BreakerHistory → Bool
  | [] => false
  | (.recordSuccess, _) :: _ | (.recordFailure _, _) :: _ => false
  | (.allow, now) :: h => probed reset h || (lastFailure h).any fun last => last + reset ≤ now
  | (.state, _) :: h => probed reset h

/-- What a breaker is now. -/
def status (threshold : Int) (reset : Time) (h : BreakerHistory) (now : Time) : CircuitState :=
  match lastFailure h with
  | none => .closed
  | some last =>
    if (failures h : Int) < threshold then .closed
    else if now < last + reset then .opened
    else .halfOpen

/-- Whether a breaker admits a call now. -/
def admits (threshold : Int) (reset : Time) (h : BreakerHistory) (now : Time) : Bool :=
  match status threshold reset h now with
  | .closed => true
  | .opened => false
  | .halfOpen => !probed reset h

/-- The clock's readings do not decrease. -/
def Clocked (now : Time) (h : BreakerHistory) : Prop := (now :: h.map (·.2)).Pairwise (· ≥ ·)

instance (now : Time) (h : BreakerHistory) : Decidable (Clocked now h) :=
  inferInstanceAs (Decidable (List.Pairwise _ _))

theorem Clocked.tail {now : Time} {call : BreakerCall × Time} {h : BreakerHistory}
    (clocked : Clocked now (call :: h)) : Clocked call.2 h := (List.pairwise_cons.mp clocked).2

theorem Clocked.le {now : Time} {call : BreakerCall × Time} {h : BreakerHistory}
    (clocked : Clocked now (call :: h)) : call.2 ≤ now :=
  (List.pairwise_cons.mp clocked).1 call.2 List.mem_cons_self

/-- Looking at the state changes nothing that the history determines. -/
theorem skip_state (later earlier : BreakerHistory) (reset now : Time) :
    failures (later ++ (.state, now) :: earlier) = failures (later ++ earlier) ∧
      lastFailure (later ++ (.state, now) :: earlier) = lastFailure (later ++ earlier) ∧
      probed reset (later ++ (.state, now) :: earlier) = probed reset (later ++ earlier) := by
  induction later with
  | nil => exact ⟨rfl, rfl, rfl⟩
  | cons call later ih =>
    obtain ⟨count, last, probe⟩ := ih
    obtain ⟨call, t⟩ := call
    cases call with
    | allow => exact ⟨count, last, by simp only [List.cons_append, probed, probe, last]⟩
    | state => exact ⟨count, last, probe⟩
    | recordSuccess => exact ⟨rfl, rfl, rfl⟩
    | recordFailure synced => exact ⟨congrArg (· + 1) count, rfl, rfl⟩

end BreakerHistory

/-! ## What a breaker keeps of its history -/

namespace CircuitBreaker

/-- The fields of a breaker, after a history whose last reading was not after `now`. -/
inductive Tracks (h : BreakerHistory) (now : Time) (b : CircuitBreaker) : Prop
  | closed (state : b.state = .closed) (count : b.consecutiveFailures = h.failures)
      (few : (h.failures : Int) < b.failureThreshold)
  | opened (last : Time) (state : b.state = .opened) (since : b.openedAt = some last)
      (last_eq : h.lastFailure = some last) (many : b.failureThreshold ≤ h.failures)
      (unprobed : h.probed b.resetSeconds = false)
  | halfOpen (last : Time) (state : b.state = .halfOpen) (last_eq : h.lastFailure = some last)
      (many : b.failureThreshold ≤ h.failures) (elapsed : last + b.resetSeconds ≤ now)
      (probe : b.probeInFlight = h.probed b.resetSeconds)

section Tracks

variable {b : CircuitBreaker} {h : BreakerHistory} {now : Time}

theorem sync_eq_of_ne (other : b.state ≠ .opened) : b.sync now = b := by
  unfold sync
  split
  · rename_i state _
    exact (other state).elim
  · rfl

/-- Syncing an open breaker leaves it tripped. -/
theorem sync_opened (state : b.state = .opened) (t now : Time) :
    (b.sync t).state ≠ .closed ∧ (b.sync t).trip now = b.trip now := by
  unfold sync
  split
  · split
    · exact ⟨by simp, rfl⟩
    · exact ⟨by simp [state], rfl⟩
  · exact ⟨by simp [state], rfl⟩

/-- The second reading of the clock is the one that counts. -/
theorem recordFailureAt_eq (synced : Time) :
    b.recordFailureAt synced now = b.recordFailure now := by
  have trips : ∀ b' : CircuitBreaker, b'.state ≠ .closed → (match b'.state with
      | .closed =>
        let b' := { b' with consecutiveFailures := b'.consecutiveFailures + 1 }
        if (b'.consecutiveFailures : Int) ≥ b'.failureThreshold then b'.trip now else b'
      | _ => b'.trip now) = b'.trip now := by
    intro b' open_
    split
    · rename_i state
      exact (open_ state).elim
    · rfl
  by_cases state : b.state = .opened
  · obtain ⟨open_, same⟩ := sync_opened state synced now
    obtain ⟨open', same'⟩ := sync_opened state now now
    exact (trips _ open_).trans (same.trans (same'.symm.trans (trips _ open').symm))
  · cases is : b.state <;> simp only [recordFailureAt, recordFailure, sync_eq_of_ne state, is]

theorem Tracks.mono {later : Time} (tracks : Tracks h now b) (le : now ≤ later) :
    Tracks h later b := by
  cases tracks with
  | closed state count few => exact .closed state count few
  | opened last state since last_eq many unprobed =>
    exact .opened last state since last_eq many unprobed
  | halfOpen last state last_eq many elapsed probe =>
    exact .halfOpen last state last_eq many (Int.le_trans elapsed le) probe

/-- A breaker tracks a history through what it determines. -/
theorem Tracks.congr {h' : BreakerHistory} (tracks : Tracks h now b)
    (failures : h'.failures = h.failures) (last : h'.lastFailure = h.lastFailure)
    (probed : h'.probed b.resetSeconds = h.probed b.resetSeconds) : Tracks h' now b := by
  cases tracks with
  | closed state count few =>
    exact .closed state (count.trans failures.symm) (failures ▸ few)
  | opened last' state since last_eq many unprobed =>
    exact .opened last' state since (last.trans last_eq) (failures ▸ many) (probed.trans unprobed)
  | halfOpen last' state last_eq many elapsed probe =>
    exact .halfOpen last' state (last.trans last_eq) (failures ▸ many) elapsed
      (probe.trans probed.symm)

/-- What syncing keeps, and which state it comes to. -/
theorem Tracks.sync (tracks : Tracks h now b) : Tracks h now (b.sync now) ∧
    (b.sync now).state = h.status b.failureThreshold b.resetSeconds now := by
  unfold BreakerHistory.status
  cases tracks with
  | closed state count few =>
    rw [sync_eq_of_ne (by simp [state])]
    refine ⟨.closed state count few, ?_⟩
    split
    · exact state
    · rw [if_pos few, state]
  | opened last state since last_eq many unprobed =>
    rw [last_eq]
    simp only [if_neg (Int.not_lt.mpr many)]
    by_cases elapsed : now - last ≥ b.resetSeconds
    · have synced : b.sync now = { b with state := .halfOpen, probeInFlight := false } := by
        simp [CircuitBreaker.sync, state, since, elapsed]
      have past : ¬ now < last + b.resetSeconds :=
        Int.not_lt.mpr (Int.add_le_of_le_sub_left elapsed)
      rw [synced, if_neg past]
      exact ⟨.halfOpen last rfl last_eq many (Int.not_lt.mp past) unprobed.symm, rfl⟩
    · have same : b.sync now = b := by simp [CircuitBreaker.sync, state, since, elapsed]
      have early : now < last + b.resetSeconds :=
        Int.lt_add_of_sub_left_lt (Int.not_le.mp elapsed)
      rw [same, if_pos early]
      exact ⟨.opened last state since last_eq many unprobed, state⟩
  | halfOpen last state last_eq many elapsed probe =>
    rw [sync_eq_of_ne (by simp [state]), last_eq]
    simp only [if_neg (Int.not_lt.mpr many), if_neg (Int.not_lt.mpr elapsed)]
    exact ⟨.halfOpen last state last_eq many elapsed probe, state⟩

theorem allow_eq : b.allow now = match (b.sync now).state with
    | .opened => (false, b.sync now)
    | .halfOpen => if (b.sync now).probeInFlight then (false, b.sync now)
      else (true, { b.sync now with probeInFlight := true })
    | .closed => (true, b.sync now) := rfl

theorem Tracks.allow (tracks : Tracks h now b) : Tracks ((.allow, now) :: h) now (b.allow now).2 ∧
    (b.allow now).1 = h.admits b.failureThreshold b.resetSeconds now := by
  obtain ⟨synced, status⟩ := tracks.sync
  rw [allow_eq, BreakerHistory.admits, ← status]
  cases synced with
  | closed state count few =>
    rw [state]
    exact ⟨.closed state count few, rfl⟩
  | opened last state since last_eq many unprobed =>
    have early : ¬ last + b.resetSeconds ≤ now := by
      -- or else syncing had left the state
      intro past
      rw [status, BreakerHistory.status, last_eq] at state
      rw [sync_threshold] at many
      simp only [if_neg (Int.not_lt.mpr many), if_neg (Int.not_lt.mpr past)] at state
      cases state
    have still : BreakerHistory.probed (b.sync now).resetSeconds ((.allow, now) :: h) = false := by
      simp only [sync_reset] at unprobed
      simp [BreakerHistory.probed, unprobed, last_eq, early]
    rw [state]
    exact ⟨.opened last state since last_eq many still, rfl⟩
  | halfOpen last state last_eq many elapsed probe =>
    have probing : BreakerHistory.probed (b.sync now).resetSeconds ((.allow, now) :: h) = true := by
      simp only [BreakerHistory.probed, last_eq, Option.any_some, decide_eq_true elapsed,
        Bool.or_true]
    rw [state]
    cases inFlight : (b.sync now).probeInFlight with
    | true =>
      rw [inFlight, sync_reset] at probe
      exact ⟨.halfOpen last state last_eq many elapsed (inFlight.trans probing.symm),
        by rw [← probe]; rfl⟩
    | false =>
      rw [inFlight, sync_reset] at probe
      exact ⟨.halfOpen last state last_eq many elapsed probing.symm, by rw [← probe]; rfl⟩

theorem recordFailure_eq : b.recordFailure now = match (b.sync now).state with
    | .closed =>
      if (((b.sync now).consecutiveFailures + 1 : Nat) : Int) ≥ (b.sync now).failureThreshold then
        { b.sync now with consecutiveFailures := (b.sync now).consecutiveFailures + 1 }.trip now
      else { b.sync now with consecutiveFailures := (b.sync now).consecutiveFailures + 1 }
    | _ => (b.sync now).trip now := rfl

theorem Tracks.recordFailure (tracks : Tracks h now b) (synced : Time) :
    Tracks ((.recordFailure synced, now) :: h) now (b.recordFailure now) := by
  have tripped : ∀ b' : CircuitBreaker, b'.failureThreshold ≤ (h.failures + 1 : Nat) →
      Tracks ((.recordFailure synced, now) :: h) now (b'.trip now) := fun b' many =>
    .opened now rfl rfl rfl many rfl
  obtain ⟨tracks, -⟩ := tracks.sync
  rw [recordFailure_eq]
  cases tracks with
  | closed state count few =>
    rw [state, count]
    dsimp only
    split
    · rename_i many
      exact tripped _ many
    · rename_i few'
      exact .closed state rfl (Int.not_le.mp few')
  | opened last state since last_eq many unprobed =>
    rw [state]
    exact tripped _ (by omega)
  | halfOpen last state last_eq many elapsed probe =>
    rw [state]
    exact tripped _ (by omega)

/-- A call leaves the constructor's arguments as they are. -/
theorem perform_fixed (call : BreakerCall × Time) :
    (b.perform call).failureThreshold = b.failureThreshold ∧
      (b.perform call).resetSeconds = b.resetSeconds := by
  obtain ⟨call, t⟩ := call
  cases call with
  | allow =>
    show (b.allow t).2.failureThreshold = _ ∧ (b.allow t).2.resetSeconds = _
    rw [allow_eq]
    cases (b.sync t).state with
    | closed => exact ⟨sync_threshold, sync_reset⟩
    | opened => exact ⟨sync_threshold, sync_reset⟩
    | halfOpen =>
      dsimp only
      split <;> exact ⟨sync_threshold, sync_reset⟩
  | state => exact ⟨sync_threshold, sync_reset⟩
  | recordSuccess => exact ⟨rfl, rfl⟩
  | recordFailure synced =>
    show (b.recordFailureAt synced t).failureThreshold = _ ∧
      (b.recordFailureAt synced t).resetSeconds = _
    rw [recordFailureAt_eq, recordFailure_eq]
    cases (b.sync t).state with
    | closed =>
      dsimp only
      split <;> exact ⟨sync_threshold, sync_reset⟩
    | opened => exact ⟨sync_threshold, sync_reset⟩
    | halfOpen => exact ⟨sync_threshold, sync_reset⟩

end Tracks

/-- A breaker that tracks a history whenever goes on to track it. -/
theorem Tracks.after {b : CircuitBreaker} {h₀ : BreakerHistory} (tracks : ∀ t, Tracks h₀ t b)
    {h : BreakerHistory} {now : Time} (clocked : h.Clocked now) :
    Tracks (h ++ h₀) now (b.after h) := by
  induction h generalizing now with
  | nil => exact tracks now
  | cons call h ih =>
    refine Tracks.mono ?_ clocked.le
    have tracks := ih clocked.tail
    obtain ⟨call, t⟩ := call
    cases call with
    | allow => exact tracks.allow.1
    | state => exact tracks.sync.1.congr rfl rfl rfl
    | recordSuccess =>
      exact .closed rfl rfl (Int.lt_of_lt_of_le Int.zero_lt_one (b.after h).threshold_pos)
    | recordFailure synced =>
      show Tracks _ _ ((b.after h).recordFailureAt synced t)
      rw [recordFailureAt_eq]
      exact tracks.recordFailure synced

theorem after_fixed {b : CircuitBreaker} (h : BreakerHistory) :
    (b.after h).failureThreshold = b.failureThreshold ∧
      (b.after h).resetSeconds = b.resetSeconds := by
  induction h with
  | nil => exact ⟨rfl, rfl⟩
  | cons call h ih =>
    obtain ⟨threshold_eq, reset_eq⟩ := perform_fixed (b := b.after h) call
    exact ⟨threshold_eq.trans ih.1, reset_eq.trans ih.2⟩

/-- A new breaker tracks the history of no calls. -/
theorem new_tracks {threshold : Int} {reset : Time} {b : CircuitBreaker}
    (made : new threshold reset = .ok b) : (∀ t, Tracks [] t b) ∧
      b.failureThreshold = threshold ∧ b.resetSeconds = reset := by
  unfold new at made
  split at made
  · cases made
  · split at made
    · cases made
    · rename_i threshold_pos _
      cases made
      refine ⟨fun t => .closed rfl rfl ?_, rfl, rfl⟩
      exact Int.lt_of_lt_of_le Int.zero_lt_one (Int.not_lt.mp threshold_pos)

/-- What a breaker answers after a history. -/
theorem Tracks.answers {b : CircuitBreaker} {h₀ : BreakerHistory} (tracks : ∀ t, Tracks h₀ t b)
    {h : BreakerHistory} {now : Time} (clocked : h.Clocked now) :
    ((b.after h).observe now).1 =
        BreakerHistory.status b.failureThreshold b.resetSeconds (h ++ h₀) now ∧
      ((b.after h).allow now).1 =
        BreakerHistory.admits b.failureThreshold b.resetSeconds (h ++ h₀) now := by
  have here := Tracks.after tracks clocked
  have observed := here.sync.2
  have allowed := here.allow.2
  obtain ⟨threshold_eq, reset_eq⟩ := after_fixed (b := b) h
  rw [threshold_eq, reset_eq] at observed allowed
  exact ⟨observed, allowed⟩

/-- The circuit breaker is determined by its history: it is closed until the failures
since the last success (or since it was made) come to the threshold, and from then
on until a success it is open for the reset window after the last failure, and
half-open after it; it admits every call while closed, none while open, and one
while half-open, until the next record. Looking at its state changes no answer. -/
theorem determined {threshold : Int} {reset : Time} {b : CircuitBreaker}
    (made : new threshold reset = .ok b) {h : BreakerHistory} {now : Time}
    (clocked : h.Clocked now) :
    ((b.after h).observe now).1 = h.status threshold reset now ∧
      ((b.after h).allow now).1 = h.admits threshold reset now ∧
      ∀ later earlier t, h = later ++ (.state, t) :: earlier →
        ((b.after (later ++ earlier)).observe now).1 = ((b.after h).observe now).1 ∧
        ((b.after (later ++ earlier)).allow now).1 = ((b.after h).allow now).1 := by
  have answers : ∀ h : BreakerHistory, h.Clocked now →
      ((b.after h).observe now).1 = h.status threshold reset now ∧
        ((b.after h).allow now).1 = h.admits threshold reset now := by
    intro h clocked
    obtain ⟨tracks, rfl, rfl⟩ := new_tracks made
    simpa using Tracks.answers tracks clocked
  obtain ⟨observed, allowed⟩ := answers h clocked
  refine ⟨observed, allowed, ?_⟩
  rintro later earlier t rfl
  have shorter : BreakerHistory.Clocked now (later ++ earlier) := by
    refine clocked.sublist (List.Sublist.cons_cons _ (List.Sublist.map _ ?_))
    exact List.Sublist.append (List.Sublist.refl _) (List.sublist_cons_self _ _)
  obtain ⟨observed', allowed'⟩ := answers _ shorter
  obtain ⟨count, last, probe⟩ := BreakerHistory.skip_state later earlier reset t
  have status : BreakerHistory.status threshold reset (later ++ (.state, t) :: earlier) now =
      BreakerHistory.status threshold reset (later ++ earlier) now := by
    rw [BreakerHistory.status, BreakerHistory.status, count, last]
  refine ⟨observed'.trans (status.symm.trans observed.symm),
    allowed'.trans (Eq.trans ?_ allowed.symm)⟩
  rw [BreakerHistory.admits, BreakerHistory.admits, status, probe]

/-- Two failures trip a breaker; it admits one call once its window is over. -/
theorem determined_demo : ∃ b, new 2 (seconds 30) = .ok b ∧
    ((b.after [(.recordFailure 1, 2), (.recordFailure 1, 1)]).observe 3).1 = .opened ∧
    ((b.after [(.recordFailure 1, 2), (.recordFailure 1, 1)]).allow (seconds 31)).1 = true ∧
    ((b.after [(.allow, seconds 31), (.recordFailure 1, 2), (.recordFailure 1, 1)]).allow
      (seconds 32)).1 = false := by
  obtain ⟨b, made⟩ : ∃ b, new 2 (seconds 30) = .ok b := ⟨_, rfl⟩
  refine ⟨b, made, ?_, ?_, ?_⟩
  · rw [(determined made (by decide)).1]
    decide
  · rw [(determined made (by decide)).2.1]
    decide
  · rw [(determined made (by decide)).2.1]
    decide

end CircuitBreaker

end CredBroker
