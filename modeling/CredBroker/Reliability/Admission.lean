import CredBroker.Reliability.ProbeSlot

/-!
# Admission while the breaker is not closed

A breaker that tripped is to admit nothing for its reset window, and then one
probe until that probe reports. Reports carry no identity: one of a run that
was admitted earlier is taken for what it says. `Disturbs` names the reports
that matter, and a run without them keeps both promises.
-/

namespace CredBroker.Admission

open Python Interaction ProbeSlot

variable {α : Type}

/-! ## The promises -/

/-- A failure report that leaves the breaker open. -/
def trips (e : Entry (RetrySig α) Shared) : Bool :=
  match e.event with
  | ⟨.recordFailure, .ok _⟩ => (e.pre.breaker.recordFailure e.pre.now).state = .opened
  | _ => false

/-- An attempt is admitted. -/
def admits (e : Entry (RetrySig α) Shared) : Bool :=
  match e.event with
  | ⟨.allow, .ok true⟩ => true
  | _ => false

/-- A run tells the breaker how its attempt ended. -/
def records (e : Entry (RetrySig α) Shared) : Bool :=
  match e.event.op with
  | .recordSuccess | .recordFailure => true
  | _ => false

/-- After a trip no attempt is admitted within the reset window. -/
def WindowKept (resetSeconds : Time) (c : Runs α) : Prop :=
  ∀ h₁ e h₂ a h₃, c.hist = h₁ ++ e :: (h₂ ++ a :: h₃) → trips e = true → admits a = true →
    e.pre.now + resetSeconds ≤ a.pre.now

/-- After a probe no attempt is admitted before that probe has reported. -/
def ProbeAlone (c : Runs α) : Prop :=
  ∀ h₁ p h₂ a h₃, c.hist = h₁ ++ p :: (h₂ ++ a :: h₃) → claims p = true → admits a = true →
    ∃ e ∈ h₂, e.tid = p.tid ∧ records e = true

/-! ## Disturbing reports -/

/-- The probe slot is taken, and not by program `i`. -/
def TakenByOther (w : Shared) (before : List (Entry (RetrySig α) Shared)) (i : Nat) : Prop :=
  Probing w ∧ ∀ claim, lastClaim before = some claim → claim.tid ≠ i

/-- A success is reported while the breaker is open, or either result while the
probe of another run is on its way. -/
def Disturbs (before : List (Entry (RetrySig α) Shared)) (e : Entry (RetrySig α) Shared) : Prop :=
  (e.event.op = .recordSuccess ∧ (e.pre.breaker.sync e.pre.now).state = .opened) ∨
    (records e = true ∧ TakenByOther e.pre before e.tid)

def NoneDisturbs (c : Runs α) : Prop :=
  ∀ h₁ e h₂, c.hist = h₁ ++ e :: h₂ → ¬ Disturbs h₁ e

/-! ## The breaker -/

section Breaker

variable {b : CircuitBreaker} {now : Time}

/-- An open breaker becomes half-open once its window is over, and not before. -/
theorem sync_cases (b : CircuitBreaker) (now : Time) :
    (b.sync now = b) ∨ ∃ openedAt, b.state = .opened ∧ b.openedAt = some openedAt ∧
      openedAt + b.resetSeconds ≤ now ∧
      b.sync now = { b with state := .halfOpen, probeInFlight := false } := by
  unfold CircuitBreaker.sync
  split
  · rename_i openedAt state opened
    split
    · rename_i elapsed
      exact .inr ⟨openedAt, state, opened, Int.add_le_of_le_sub_left elapsed, rfl⟩
    · exact .inl rfl
  · exact .inl rfl

theorem after_resetSeconds (w : Shared) (e : Op) :
    (w.after e).breaker.resetSeconds = w.breaker.resetSeconds := by
  cases e with
  | allow =>
    simp only [Shared.after, CircuitBreaker.allow]
    split
    · simp
    · split <;> simp
    · simp
  | recordFailure =>
    simp only [Shared.after, CircuitBreaker.recordFailure]
    split
    · split <;> simp [CircuitBreaker.trip]
    · simp [CircuitBreaker.trip]
  | recordSuccess => rfl
  | fn => rfl
  | sleep delay => rfl

/-- Asking takes an open breaker out of its window only when that is over. -/
theorem allow_cases (b : CircuitBreaker) (now : Time) :
    ((b.allow now).2.state = b.state ∧ (b.allow now).2.openedAt = b.openedAt ∧
        ((b.allow now).1 = true → b.state ≠ .opened)) ∨
      ∃ openedAt, b.state = .opened ∧ b.openedAt = some openedAt ∧
        openedAt + b.resetSeconds ≤ now := by
  rcases sync_cases b now with same | ⟨openedAt, state, opened, elapsed, -⟩
  · left
    unfold CircuitBreaker.allow
    dsimp only
    rw [same]
    split
    · rename_i state
      simp [state]
    · rename_i state
      split <;> simp [state]
    · rename_i state
      simp [state]
  · exact .inr ⟨openedAt, state, opened, elapsed⟩

/-- A taken slot is given to nobody else. -/
theorem allow_of_probing {w : Shared} (probing : Probing w) :
    w.breaker.allow w.now = (false, w.breaker) := by
  simp [CircuitBreaker.allow, CircuitBreaker.sync, probing.1, probing.2]

/-- A failure report trips an open breaker anew, or else finds it closed. -/
theorem recordFailure_cases (b : CircuitBreaker) (now : Time) :
    ((b.recordFailure now).state = .opened ∧ (b.recordFailure now).openedAt = some now) ∨
      (b.state = .closed ∧ (b.recordFailure now).state = .closed) := by
  have tripped : ∀ b' : CircuitBreaker, (b'.trip now).state = .opened ∧
      (b'.trip now).openedAt = some now := fun b' => ⟨rfl, rfl⟩
  unfold CircuitBreaker.recordFailure
  dsimp only
  split
  · rename_i closed
    split
    · exact .inl (tripped _)
    · rcases sync_cases b now with same | ⟨openedAt, -, -, -, same⟩
      · exact .inr ⟨by rw [← same]; exact closed, closed⟩
      · rw [same] at closed
        cases closed
  · exact .inl (tripped _)

end Breaker

/-! ## Invariants -/

/-- The window of a trip at `time` is still kept by the breaker, or over. -/
def Guarded (time : Time) (w : Shared) : Prop :=
  (w.breaker.state = .opened ∧ ∃ openedAt, w.breaker.openedAt = some openedAt ∧ time ≤ openedAt) ∨
    time + w.breaker.resetSeconds ≤ w.now

/-- Every trip so far is guarded, and lies in the past. -/
def TripsGuarded (c : Runs α) : Prop :=
  ∀ e ∈ c.hist, trips e = true → e.pre.now ≤ c.world.now ∧ Guarded e.pre.now c.world

/-- A probe that has not reported holds the slot. -/
def ProbesHold (c : Runs α) : Prop :=
  ∀ h₁ p h₂, c.hist = h₁ ++ p :: h₂ → claims p = true →
    (∀ e ∈ h₂, e.tid = p.tid → records e = false) →
    Probing c.world ∧ lastClaim c.hist = some p

/-- An open breaker out of whose window time has run lets the window go. -/
theorem Guarded.elapsed {time openedAt : Time} {w : Shared} (guarded : Guarded time w)
    (opened : w.breaker.openedAt = some openedAt)
    (elapsed : openedAt + w.breaker.resetSeconds ≤ w.now) :
    time + w.breaker.resetSeconds ≤ w.now := by
  rcases guarded with ⟨-, openedAt', opened', later⟩ | gone
  · obtain rfl := Option.some.inj (opened.symm.trans opened')
    exact Int.le_trans (Int.add_le_add_right later _) elapsed
  · exact gone

/-- What is admitted is admitted outside every window. -/
theorem Guarded.admitted {time : Time} {w : Shared} (guarded : Guarded time w)
    (allowed : (w.breaker.allow w.now).1 = true) : time + w.breaker.resetSeconds ≤ w.now := by
  rcases allow_cases w.breaker w.now with ⟨-, -, outside⟩ | ⟨openedAt, -, opened, elapsed⟩
  · rcases guarded with ⟨state, -⟩ | gone
    · exact (outside allowed state).elim
    · exact gone
  · exact guarded.elapsed opened elapsed

/-- An operation keeps a window, if it is no success reported to an open breaker. -/
theorem Guarded.after {time : Time} {w : Shared} (guarded : Guarded time w) (past : time ≤ w.now)
    (e : Op) (undisturbed : e = .recordSuccess → (w.breaker.sync w.now).state ≠ .opened) :
    Guarded time (w.after e) := by
  have reset := after_resetSeconds w e
  have kept : time + w.breaker.resetSeconds ≤ w.now → Guarded time (w.after e) := by
    intro elapsed
    have now : (w.after e).now = w.now := by cases e <;> rfl
    exact .inr (by rw [reset, now]; exact elapsed)
  cases e with
  | fn => exact guarded
  | sleep delay => exact guarded
  | allow =>
    rcases allow_cases w.breaker w.now with ⟨state, openedAt, -⟩ | ⟨openedAt, -, opened, elapsed⟩
    · rcases guarded with ⟨state', openedAt', opened', later⟩ | elapsed
      · exact .inl ⟨state.trans state', openedAt', openedAt.trans opened', later⟩
      · exact kept elapsed
    · exact kept (guarded.elapsed opened elapsed)
  | recordFailure =>
    rcases recordFailure_cases w.breaker w.now with ⟨state, openedAt⟩ | ⟨closed, -⟩
    · exact .inl ⟨state, w.now, openedAt, past⟩
    · rcases guarded with ⟨state, -⟩ | elapsed
      · rw [closed] at state
        cases state
      · exact kept elapsed
  | recordSuccess =>
    rcases guarded with ⟨state, openedAt, opened, later⟩ | elapsed
    · rcases sync_cases w.breaker w.now with same | ⟨openedAt', -, opened', elapsed, -⟩
      · exact (undisturbed rfl (by rw [same]; exact state)).elim
      · obtain rfl := Option.some.inj (opened.symm.trans opened')
        exact kept (Int.le_trans (Int.add_le_add_right later _) elapsed)
    · exact kept elapsed

section Runs

variable {w : Shared} {c : Runs α}

theorem NoneDisturbs.mono {c' : Runs α} (rest : (retries α).Reaches c c')
    (none : NoneDisturbs c') : NoneDisturbs c := by
  intro h₁ e h₂ split
  obtain ⟨h, grown⟩ := rest.hist_mono
  exact none h₁ e (h₂ ++ h) (by rw [← grown, split]; simp)

/-- The entry that a step adds, where it adds one. -/
theorem TripsGuarded.step {c' : Runs α} (guarded : TripsGuarded c) (step : (retries α).Step c c')
    (none : NoneDisturbs c') : TripsGuarded c' := by
  cases step with
  | spawn call => exact guarded
  | nudge elapsed moved =>
    obtain rfl := Option.some.inj moved
    intro e member tripped
    obtain ⟨past, kept⟩ := guarded e member tripped
    have later : c.world.now ≤ c.world.now + (elapsed : Int) :=
      Int.le_add_of_nonneg_right (Int.natCast_nonneg _)
    exact ⟨Int.le_trans past later, kept.imp_right fun gone => Int.le_trans gone later⟩
  | @answer i t e k a thread pending permits =>
    intro e' member tripped
    rcases List.mem_append.mp member with old | new
    · obtain ⟨past, kept⟩ := guarded e' old tripped
      have now : (c.world.after e).now = c.world.now := by cases e <;> rfl
      refine ⟨Int.le_trans past (Int.le_of_eq now.symm), kept.after past e fun success opened => ?_⟩
      exact none c.hist _ [] rfl (.inl ⟨success, opened⟩)
    · obtain rfl := List.mem_singleton.mp new
      unfold trips at tripped
      split at tripped
      · rename_i v same
        cases same
        obtain ⟨state, openedAt⟩ : _ ∧ _ :=
          (recordFailure_cases c.world.breaker c.world.now).resolve_right fun ⟨_, closed⟩ => by
            rw [closed] at tripped
            cases tripped
        exact ⟨Int.le_refl _, .inl ⟨state, c.world.now, openedAt, Int.le_refl _⟩⟩
      · cases tripped

/-- A probe that has not reported keeps the slot through every step that does not disturb it. -/
theorem ProbesHold.step {c' : Runs α} (hold : ProbesHold c) (step : (retries α).Step c c')
    (none : NoneDisturbs c') : ProbesHold c' := by
  cases step with
  | spawn call => exact hold
  | nudge elapsed moved =>
    obtain rfl := Option.some.inj moved
    exact hold
  | @answer i t e k a thread pending permits =>
    change c.world.permits ⟨e, a⟩ = true at permits
    intro h₁ p h₂ split claim silent
    change c.hist ++ [⟨i, c.world, t.trace, ⟨e, a⟩⟩] = h₁ ++ p :: h₂ at split
    show Probing (c.world.after e) ∧ lastClaim (c.hist ++ [⟨i, c.world, t.trace, ⟨e, a⟩⟩]) = some p
    rcases List.eq_nil_or_concat h₂ with rfl | ⟨h₂', last, rfl⟩
    · -- the probe is admitted by this very step
      obtain ⟨rfl, same⟩ := List.append_inj' split rfl
      obtain rfl := (List.cons.inj same).1
      refine ⟨?_, by simp [claim]⟩
      unfold claims at claim
      split at claim
      · rename_i same
        cases same
        have half := of_decide_eq_true claim
        have allowed : (c.world.breaker.allow c.world.now).1 = true :=
          (of_decide_eq_true permits).symm
        unfold CircuitBreaker.allow at allowed
        simp only [half] at allowed
        split at allowed
        · cases allowed
        · rename_i free
          simp [Probing, Shared.after, CircuitBreaker.allow, half, free]
      · cases claim
    · have split' : c.hist ++ [⟨i, c.world, t.trace, ⟨e, a⟩⟩] = (h₁ ++ p :: h₂') ++ [last] := by
        rw [split]
        simp
      obtain ⟨before, same⟩ := List.append_inj' split' rfl
      obtain rfl := (List.cons.inj same).1
      obtain ⟨probing, claimed⟩ := hold h₁ p h₂' before claim fun e' member =>
        silent e' (by simp [member])
      have refused : ∀ b : (RetrySig α).Ans e, claims (⟨i, c.world, t.trace, ⟨e, b⟩⟩ :
          Entry (RetrySig α) Shared) = true → c.world.permits ⟨e, b⟩ = false := by
        intro b claim'
        unfold claims at claim'
        split at claim'
        · rename_i same
          cases same
          simp [Shared.permits, allow_of_probing probing]
        · cases claim'
      have unclaimed : claims (⟨i, c.world, t.trace, ⟨e, a⟩⟩ : Entry (RetrySig α) Shared) =
          false := by
        by_contra claim'
        rw [refused a (by simpa using claim')] at permits
        cases permits
      refine ⟨?_, by simp [unclaimed, claimed]⟩
      -- a report would be the probe's own, or disturb it
      have reports : records (⟨i, c.world, t.trace, ⟨e, a⟩⟩ : Entry (RetrySig α) Shared) =
          false := by
        by_contra report
        have report : records (⟨i, c.world, t.trace, ⟨e, a⟩⟩ : Entry (RetrySig α) Shared) =
            true := by
          simpa using report
        refine none c.hist _ [] rfl (.inr ⟨report, probing, fun claim' last own => ?_⟩)
        obtain rfl := Option.some.inj (claimed.symm.trans last)
        rw [silent _ (by simp) own.symm] at report
        cases report
      cases e with
      | allow =>
        rw [Shared.after, allow_of_probing probing]
        exact probing
      | recordSuccess => cases reports
      | recordFailure => cases reports
      | fn => exact probing
      | sleep delay => exact probing

/-! ## Whole runs -/

theorem tripsGuarded_of_noneDisturbs (run : (retries α).Reaches (.start w) c)
    (none : NoneDisturbs c) : TripsGuarded c := by
  induction run with
  | refl => intro e member; cases member
  | tail before step ih => exact (ih (none.mono (.single step))).step step none

theorem probesHold_of_noneDisturbs (run : (retries α).Reaches (.start w) c)
    (none : NoneDisturbs c) : ProbesHold c := by
  induction run with
  | refl =>
    intro h₁ p h₂ split
    simp [Config.start] at split
  | tail before step ih => exact (ih (none.mono (.single step))).step step none

theorem run_resetSeconds (run : (retries α).Reaches (.start w) c) :
    c.world.breaker.resetSeconds = w.breaker.resetSeconds := by
  induction run with
  | refl => rfl
  | tail before step ih =>
    cases step with
    | spawn call => exact ih
    | nudge elapsed moved =>
      obtain rfl := Option.some.inj moved
      exact ih
    | @answer i t e k a thread pending permits => exact (after_resetSeconds _ e).trans ih

/-- An admission that a run comes to was allowed by the breaker it found. -/
theorem allow_of_admits {a : Entry (RetrySig α) Shared} (admitted : admits a = true)
    (permits : a.pre.permits a.event = true) : (a.pre.breaker.allow a.pre.now).1 = true := by
  unfold admits at admitted
  split at admitted
  · rename_i same
    rw [same] at permits
    exact (of_decide_eq_true permits).symm
  · cases admitted

/-- In a run that no report disturbs, nothing is admitted within the reset window
of a trip, and nothing beside a probe that has not reported. -/
theorem admission_undisturbed (run : (retries α).Reaches (.start w) c) (none : NoneDisturbs c) :
    WindowKept w.breaker.resetSeconds c ∧ ProbeAlone c := by
  constructor
  · intro h₁ e h₂ a h₃ split tripped admitted
    have split' : c.hist = [] ++ ((h₁ ++ e :: h₂) ++ a :: h₃) := by simp [split]
    obtain ⟨before⟩ := run.before split'
    have none' := none.mono before.toEnd
    obtain ⟨-, guarded⟩ := tripsGuarded_of_noneDisturbs before.reached none' e
      (by simp [before.hist_eq]) tripped
    have kept := guarded.admitted (by
      rw [before.world_eq]
      exact allow_of_admits admitted before.permits)
    rwa [run_resetSeconds before.reached, before.world_eq] at kept
  · intro h₁ p h₂ a h₃ split claim admitted
    by_contra silent
    have split' : c.hist = [] ++ ((h₁ ++ p :: h₂) ++ a :: h₃) := by simp [split]
    obtain ⟨before⟩ := run.before split'
    have none' := none.mono before.toEnd
    obtain ⟨probing, -⟩ := probesHold_of_noneDisturbs before.reached none' h₁ p h₂
      (by simp [before.hist_eq, Config.start]) claim fun e member own => by
        by_contra report
        exact silent ⟨e, member, own, by simpa using report⟩
    rw [before.world_eq] at probing
    have allowed := allow_of_admits admitted before.permits
    rw [allow_of_probing probing] at allowed
    cases allowed

end Runs

/-! ## Late reports -/

/-- Two runs are admitted, and one times out: the breaker is open. -/
def tripped : List (Act (RetrySig Unit) Call Shared Nat) :=
  [.spawn once, .spawn once, answer 0 (.ok ()), answer 1 (.ok ()),
    answer 0 (.error (.timeoutException "timed out")), answer 0 (.ok ())]

/-- Whether only failures are reported, and none while the slot is taken. -/
def onlyEarlyFailures (c : Runs Unit) : Bool :=
  c.hist.all fun e => !records e || (!decide (Probing e.pre) && match e.event.op with
    | .recordFailure => true
    | _ => false)

theorem noneDisturbs_of_onlyEarlyFailures {c : Runs Unit} (only : onlyEarlyFailures c = true) :
    NoneDisturbs c := by
  intro h₁ e h₂ split disturbs
  have here := List.all_eq_true.mp only e (by simp [split])
  rcases disturbs with ⟨success, -⟩ | ⟨report, probing, -⟩
  · simp [records, success] at here
  · simp [report, probing] at here

/-- In this run nobody reports anything between the trip and the next probe. -/
theorem admission_undisturbed_demo : ∃ c : Runs Unit,
    (retries Unit).Reaches (.start ⟨0, sensitive⟩) c ∧ c.hist.any trips = true ∧
      c.hist.any claims = true ∧ WindowKept (seconds 30) c ∧ ProbeAlone c := by
  have computed : (Config.play (retries Unit) (.start ⟨0, sensitive⟩) probed).any (fun c =>
      c.hist.any trips && c.hist.any claims && onlyEarlyFailures c) = true := by decide +kernel
  obtain ⟨c, run, computed⟩ := reached computed
  simp only [Bool.and_eq_true] at computed
  obtain ⟨⟨trip, claim⟩, only⟩ := computed
  exact ⟨c, run, trip, claim, admission_undisturbed run (noneDisturbs_of_onlyEarlyFailures only)⟩

/-- Whether something was admitted within the window of a trip. -/
def brokenWindow (resetSeconds : Time) : List (Entry (RetrySig Unit) Shared) → Bool
  | [] => false
  | e :: h => (trips e && h.any fun a => admits a &&
      decide (a.pre.now < e.pre.now + resetSeconds)) || brokenWindow resetSeconds h

theorem not_windowKept {resetSeconds : Time} {c : Runs Unit}
    (broken : brokenWindow resetSeconds c.hist = true) : ¬ WindowKept resetSeconds c := by
  suffices key : ∀ h, brokenWindow resetSeconds h = true → ∃ h₁ e h₂ a h₃,
      h = h₁ ++ e :: (h₂ ++ a :: h₃) ∧ trips e = true ∧ admits a = true ∧
        a.pre.now < e.pre.now + resetSeconds by
    obtain ⟨h₁, e, h₂, a, h₃, split, trip, admitted, early⟩ := key _ broken
    exact fun kept => absurd (kept h₁ e h₂ a h₃ split trip admitted) (Int.not_le.mpr early)
  intro h broken
  induction h with
  | nil => cases broken
  | cons e h ih =>
    simp only [brokenWindow, Bool.or_eq_true, Bool.and_eq_true, List.any_eq_true,
      decide_eq_true_eq] at broken
    rcases broken with ⟨trip, a, member, admitted, early⟩ | later
    · obtain ⟨h₂, h₃, rfl⟩ := List.append_of_mem member
      exact ⟨[], e, h₂, a, h₃, rfl, trip, admitted, early⟩
    · obtain ⟨h₁, e', h₂, a, h₃, rfl, rest⟩ := ih later
      exact ⟨e :: h₁, e', h₂, a, h₃, rfl, rest⟩

/-- Whether something is admitted before program `i` reports. -/
def admitsBefore (i : Nat) : List (Entry (RetrySig Unit) Shared) → Bool
  | [] => false
  | e :: h => admits e || (!(e.tid == i && records e) && admitsBefore i h)

theorem of_admitsBefore {i : Nat} {h : List (Entry (RetrySig Unit) Shared)}
    (early : admitsBefore i h = true) : ∃ h₁ a h₂, h = h₁ ++ a :: h₂ ∧ admits a = true ∧
      ∀ e ∈ h₁, ¬ (e.tid = i ∧ records e = true) := by
  induction h with
  | nil => cases early
  | cons e h ih =>
    simp only [admitsBefore, Bool.or_eq_true, Bool.and_eq_true] at early
    rcases early with admitted | ⟨silent, later⟩
    · exact ⟨[], e, h, rfl, admitted, by simp⟩
    · obtain ⟨h₁, a, h₂, rfl, admitted, before⟩ := ih later
      refine ⟨e :: h₁, a, h₂, rfl, admitted, fun e' member => ?_⟩
      rcases List.mem_cons.mp member with rfl | member
      · simpa [imp_iff_not_or] using silent
      · exact before e' member

/-- Whether something was admitted beside a probe that had not reported. -/
def besideProbe : List (Entry (RetrySig Unit) Shared) → Bool
  | [] => false
  | p :: h => (claims p && admitsBefore p.tid h) || besideProbe h

theorem not_probeAlone {c : Runs Unit} (beside : besideProbe c.hist = true) : ¬ ProbeAlone c := by
  suffices key : ∀ h, besideProbe h = true → ∃ h₁ p h₂ a h₃, h = h₁ ++ p :: (h₂ ++ a :: h₃) ∧
      claims p = true ∧ admits a = true ∧ ∀ e ∈ h₂, ¬ (e.tid = p.tid ∧ records e = true) by
    obtain ⟨h₁, p, h₂, a, h₃, split, claim, admitted, silent⟩ := key _ beside
    intro alone
    obtain ⟨e, member, report⟩ := alone h₁ p h₂ a h₃ split claim admitted
    exact silent e member report
  intro h beside
  induction h with
  | nil => cases beside
  | cons p h ih =>
    simp only [besideProbe, Bool.or_eq_true, Bool.and_eq_true] at beside
    rcases beside with ⟨claim, early⟩ | later
    · obtain ⟨h₂, a, h₃, rfl, admitted, silent⟩ := of_admitsBefore early
      exact ⟨[], p, h₂, a, h₃, rfl, claim, admitted, silent⟩
    · obtain ⟨h₁, p', h₂, a, h₃, rfl, rest⟩ := ih later
      exact ⟨p :: h₁, p', h₂, a, h₃, rfl, rest⟩

/-- The second run reports a success right after the trip, and a third is
admitted at once; or it reports its success while a probe is on its way, and a
run is admitted beside that probe. -/
theorem admission_disturbed_demo :
    (∃ c : Runs Unit, (retries Unit).Reaches (.start ⟨0, sensitive⟩) c ∧
      ¬ WindowKept (seconds 30) c) ∧
    ∃ c : Runs Unit, (retries Unit).Reaches (.start ⟨0, sensitive⟩) c ∧ ¬ ProbeAlone c := by
  have early : (Config.play (retries Unit) (.start ⟨0, sensitive⟩)
      (tripped ++ [answer 1 (.ok ()), answer 1 (.ok ()), .spawn once, answer 2 (.ok ())])).any
        (fun c => brokenWindow (seconds 30) c.hist) = true := by decide +kernel
  have beside : (Config.play (retries Unit) (.start ⟨0, sensitive⟩)
      (tripped ++ [.nudge 30000000, .spawn once, answer 2 (.ok ()), answer 1 (.ok ()),
        answer 1 (.ok ()), .spawn once, answer 3 (.ok ())])).any
        (fun c => besideProbe c.hist) = true := by decide +kernel
  obtain ⟨c, run, broken⟩ := reached early
  obtain ⟨c', run', taken⟩ := reached beside
  exact ⟨⟨c, run, not_windowKept broken⟩, c', run', not_probeAlone taken⟩

end CredBroker.Admission
