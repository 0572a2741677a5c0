import CredBroker.Interaction.History
import CredBroker.Reliability.Retry

/-!
# The probe slot

Any number of `callWithRetries` runs that share one breaker, over any clock
that does not go back. Half-open, the breaker admits one probe; the slot which
that probe claims comes free when the breaker is told how its `fn` ended. A
probe whose `fn` ends in something that is not retried tells it nothing.
-/

namespace CredBroker.ProbeSlot

open Python Interaction

/-! ## The runs -/

inductive Op
  | allow
  | recordSuccess
  | recordFailure
  /-- `await fn()`. -/
  | fn
  /-- `await sleep(delay)`. -/
  | sleep (delay : Time)

abbrev Op.Val (α : Type) : Op → Type
  | .allow => Bool
  | .fn => α
  | _ => Unit

abbrev RetrySig (α : Type) : Sig := PySig Op (Op.Val α)

/-- The arguments of one `call_with_retries`, the breaker apart. -/
structure Call where
  maxRetries : Int
  baseDelay : Time
  retryable : PyExn → Bool

/-- What the runs share. -/
structure Shared where
  now : Time
  breaker : CircuitBreaker

variable {α : Type}

variable (α) in
/-- The breaker, as every run sees it. -/
def circuit : Circuit Op (Op.Val α) where
  allow := @Prog.perform (RetrySig α) .allow
  recordSuccess := @Prog.perform (RetrySig α) .recordSuccess
  recordFailure := @Prog.perform (RetrySig α) .recordFailure

variable (α) in
/-- One run of `call_with_retries`. -/
def Call.prog (call : Call) : Prog (RetrySig α) α :=
  callWithRetries (@Prog.perform (RetrySig α) .fn) call.maxRetries call.baseDelay
    (some (circuit α)) call.retryable fun delay => @Prog.perform (RetrySig α) (.sleep delay)

namespace Shared

/-- `fn` may end in any way; a sleep may be cancelled; the breaker answers as it does. -/
def permits (w : Shared) : Event (RetrySig α) → Bool
  | ⟨.allow, .ok allowed⟩ => allowed = (w.breaker.allow w.now).1
  | ⟨.recordSuccess, .ok _⟩ => true
  | ⟨.recordFailure, .ok _⟩ => true
  | ⟨.fn, _⟩ => true
  | ⟨.sleep _, .ok _⟩ => true
  | ⟨.sleep _, .error x⟩ => !x.isException
  | _ => false

def after (w : Shared) : Op → Shared
  | .allow => { w with breaker := (w.breaker.allow w.now).2 }
  | .recordSuccess => { w with breaker := w.breaker.recordSuccess }
  | .recordFailure => { w with breaker := w.breaker.recordFailure w.now }
  | _ => w

end Shared

variable (α) in
/-- The runs over one breaker, while time passes. -/
def retries : Machine (RetrySig α) Call α Shared Nat where
  entry := Call.prog α
  Permits w _ e := w.permits e = true
  after w _ e := w.after e.op
  nudge elapsed w := some { w with now := w.now + elapsed }

instance (w : Shared) (tr : Trace (RetrySig α)) (e : Event (RetrySig α)) :
    Decidable ((retries α).Permits w tr e) :=
  inferInstanceAs (Decidable (w.permits e = true))

abbrev Runs (α : Type) : Type := Config (RetrySig α) Call α Shared

/-! ## Phases -/

/-- Where a run stands between two operations. -/
inductive Phase
  | idle
  /-- Admitted, and in its `fn`. -/
  | awaiting
  /-- Out of its `fn`, and about to record how that ended. -/
  | recording
  deriving DecidableEq

variable (retryable : PyExn → Bool)

/-- The phase after an event. -/
def Phase.of : Event (RetrySig α) → Phase
  | ⟨.allow, .ok true⟩ => .awaiting
  | ⟨.fn, .ok _⟩ => .recording
  | ⟨.fn, .error x⟩ => if x.isException && retryable x then .recording else .idle
  | _ => .idle

def phase (tr : Trace (RetrySig α)) : Phase :=
  (tr.getLast?.map (Phase.of retryable)).getD .idle

/-- The phase in which an operation is performed. -/
def Phase.before : Op → Phase
  | .fn => .awaiting
  | .recordSuccess | .recordFailure => .recording
  | _ => .idle

@[simp] theorem phase_nil : phase retryable ([] : Trace (RetrySig α)) = .idle := rfl

@[simp] theorem phase_append_singleton (tr : Trace (RetrySig α)) (e : Event (RetrySig α)) :
    phase retryable (tr ++ [e]) = Phase.of retryable e := by
  simp [phase]

/-- Every operation comes in its phase, and a run ends idle. -/
abbrev phaseRole (α : Type) : Role (RetrySig α) :=
  .guarding fun tr e => phase retryable tr = Phase.before e

abbrev phasePost (α : Type) : Post (RetrySig α) α := fun _ tr => phase retryable tr = .idle

section Phases

variable {tr : Trace (RetrySig α)}

/-- What the breaker is told or asked does not fail. -/
theorem may_breaker {e : Op} {a : (RetrySig α).Ans e} (may : (retries α).May tr ⟨e, a⟩)
    (sync : e ≠ .fn ∧ ∀ delay, e ≠ .sleep delay) : ∃ v, a = .ok v := by
  obtain ⟨w, permits⟩ := may
  change w.permits ⟨e, a⟩ = true at permits
  cases a with
  | ok v => exact ⟨v, rfl⟩
  | error x =>
    cases e with
    | fn => exact (sync.1 rfl).elim
    | sleep delay => exact (sync.2 delay rfl).elim
    | _ => cases permits

theorem wp_callAttempts {maxRetries : Int} {baseDelay : Time} {attempts : List Nat}
    (idle : phase retryable tr = .idle) :
    wp (retries α) (phaseRole retryable α)
      (callAttempts (@Prog.perform (RetrySig α) .fn) maxRetries baseDelay (some (circuit α))
        retryable (fun delay => @Prog.perform (RetrySig α) (.sleep delay)) attempts)
      (phasePost retryable α) tr := by
  induction attempts generalizing tr with
  | nil => exact idle
  | cons attempt attempts ih =>
    refine ⟨idle, fun a may _ => ?_⟩
    obtain ⟨allowed, rfl⟩ := may_breaker may ⟨by simp, by simp⟩
    cases allowed with
    | false => exact phase_append_singleton ..
    | true =>
      refine ⟨phase_append_singleton .., fun a _ _ => ?_⟩
      cases a with
      | ok result =>
        refine ⟨phase_append_singleton .., fun a may _ => ?_⟩
        obtain ⟨⟨⟩, rfl⟩ := may_breaker may ⟨by simp, by simp⟩
        exact phase_append_singleton ..
      | error exc =>
        have ended : phase retryable (tr ++ [⟨.allow, .ok true⟩] ++ [⟨.fn, .error exc⟩]) =
            if exc.isException && retryable exc then .recording else .idle :=
          phase_append_singleton ..
        show wp _ _ (if _ then _ else _) _ _
        split
        · rename_i fatal
          exact ended.trans (by simp_all)
        · split
          · rename_i final
            exact ended.trans (by simp_all)
          · rename_i exception again
            refine ⟨ended.trans (by simp_all [Phase.before]), fun a may _ => ?_⟩
            obtain ⟨⟨⟩, rfl⟩ := may_breaker may ⟨by simp, by simp⟩
            show wp _ _ (if _ then _ else _) _ _
            split
            · exact phase_append_singleton ..
            · cases backoffDelay baseDelay attempt with
              | error overflow => exact phase_append_singleton ..
              | ok delay =>
                refine ⟨phase_append_singleton .., fun a _ _ => ?_⟩
                cases a with
                | ok _ => exact ih (phase_append_singleton ..)
                | error x => exact phase_append_singleton ..

theorem wp_call (call : Call) :
    wp (retries α) (phaseRole call.retryable α) (call.prog α) (phasePost call.retryable α) [] := by
  unfold Call.prog callWithRetries
  split
  · exact phase_nil _
  · split
    · exact phase_nil _
    · exact wp_callAttempts _ (phase_nil _)

end Phases

/-! ## The slot -/

/-- Half-open, with the probe slot taken. -/
def Probing (w : Shared) : Prop :=
  w.breaker.state = .halfOpen ∧ w.breaker.probeInFlight = true

instance (w : Shared) : Decidable (Probing w) := inferInstanceAs (Decidable (_ ∧ _))

/-- Admitted as the probe: a half-open breaker said yes. -/
def claims (e : Entry (RetrySig α) Shared) : Bool :=
  match e.event with
  | ⟨.allow, .ok true⟩ => (e.pre.breaker.sync e.pre.now).state = .halfOpen
  | _ => false

/-- The last admission of a probe. -/
def lastClaim (hist : List (Entry (RetrySig α) Shared)) : Option (Entry (RetrySig α) Shared) :=
  hist.reverse.find? claims

@[simp] theorem lastClaim_append_singleton (hist : List (Entry (RetrySig α) Shared))
    (e : Entry (RetrySig α) Shared) :
    lastClaim (hist ++ [e]) = if claims e then some e else lastClaim hist := by
  simp only [lastClaim, List.reverse_append, List.reverse_singleton, List.singleton_append,
    List.find?_cons]
  split <;> simp_all

/-- The run of a claim is in its `fn`, or just out of it and about to record that. -/
def Engaged (claim : Entry (RetrySig α) Shared) (t : Thread (RetrySig α) Call α) : Prop :=
  t.trace = claim.past ++ [claim.event] ∨
    ∃ a : (RetrySig α).Ans .fn, t.trace = claim.past ++ [claim.event, ⟨.fn, a⟩] ∧
      Phase.of t.req.retryable ⟨.fn, a⟩ = .recording

/-- A slot that is taken is held by the run that claimed it. -/
def SlotHeld (c : Runs α) : Prop :=
  Probing c.world → ∃ claim t, lastClaim c.hist = some claim ∧
    c.threads[claim.tid]? = some t ∧ Engaged claim t

/-- With entry `e` the probe's `fn` ends in an exception that is not retried, or
in a cancellation. -/
def Abandons (c : Runs α) (before : List (Entry (RetrySig α) Shared))
    (e : Entry (RetrySig α) Shared) : Prop :=
  Probing e.pre ∧ ∃ claim t x, lastClaim before = some claim ∧ claim.tid = e.tid ∧
    e.past = claim.past ++ [claim.event] ∧ e.event = ⟨.fn, .error x⟩ ∧
    c.threads[e.tid]? = some t ∧ (x.isException && t.req.retryable x) = false

def NoneAbandons (c : Runs α) : Prop :=
  ∀ h₁ e h₂, c.hist = h₁ ++ e :: h₂ → ¬ Abandons c h₁ e

/-- No run is between two of its awaits. -/
def Settled (c : Runs α) : Prop :=
  ∀ t ∈ c.threads, ∀ e, t.prog.next = some e → e = .fn ∨ ∃ delay, e = .sleep delay

section Slot

variable {w : Shared} {c : Runs α}

/-- A run is in the phase that its next operation needs. -/
theorem next_phase (run : (retries α).Reaches (.start w) c) {i : Nat}
    {t : Thread (RetrySig α) Call α} (thread : c.threads[i]? = some t) :
    phase t.req.retryable t.trace = (t.prog.next.map Phase.before).getD .idle := by
  have under : wp (retries α) (phaseRole t.req.retryable α) t.prog
      (phasePost t.req.retryable α) t.trace :=
    Machine.Reaches.under_start run thread (wp_call t.req) (Role.met_guarding _ _)
  cases prog : t.prog with
  | ret a => rw [prog] at under; exact under
  | throw x => rw [prog] at under; exact under
  | call e k => rw [prog] at under; exact under.1

/-- Abandoning is for good. -/
theorem NoneAbandons.mono {c' : Runs α} (rest : (retries α).Reaches c c')
    (none : NoneAbandons c') : NoneAbandons c := by
  rintro h₁ e h₂ split ⟨probing, claim, t, x, last, same, past, event, thread, final⟩
  obtain ⟨h, grown⟩ := rest.hist_mono
  obtain ⟨t', thread', req, -⟩ := Machine.Reaches.thread_mono rest thread
  exact none h₁ e (h₂ ++ h) (by rw [← grown, split]; simp)
    ⟨probing, claim, t', x, last, same, past, event, thread', req ▸ final⟩

theorem Engaged.phase_ne {claim : Entry (RetrySig α) Shared} {t : Thread (RetrySig α) Call α}
    (engaged : Engaged claim t) (claims_ : claims claim = true) :
    phase t.req.retryable t.trace ≠ .idle := by
  rcases engaged with trace | ⟨a, trace, recorded⟩
  · rw [trace, phase_append_singleton]
    unfold claims at claims_
    split at claims_
    · rename_i event
      rw [event]
      simp [Phase.of]
    · cases claims_
  · rw [trace, show claim.past ++ [claim.event, ⟨.fn, a⟩] =
      (claim.past ++ [claim.event]) ++ [⟨.fn, a⟩] by simp, phase_append_singleton, recorded]
    simp

theorem lastClaim_claims {hist : List (Entry (RetrySig α) Shared)}
    {claim : Entry (RetrySig α) Shared} (last : lastClaim hist = some claim) :
    claims claim = true := List.find?_some last

/-! ## One step -/

/-- Asking a breaker leaves a slot taken only where it just took it, or was refused it. -/
theorem allow_probing {b : CircuitBreaker} {now : Time}
    (state : (b.allow now).2.state = .halfOpen) :
    ((b.allow now).1 = true ∧ (b.sync now).state = .halfOpen) ∨
      ((b.allow now).1 = false ∧ b.state = .halfOpen ∧ b.probeInFlight = true) := by
  unfold CircuitBreaker.allow at state ⊢
  dsimp only at state ⊢
  cases synced : (b.sync now).state with
  | closed => simp [synced] at state
  | opened => simp [synced] at state
  | halfOpen =>
    cases flag : (b.sync now).probeInFlight with
    | false => simp
    | true =>
      -- a breaker that has just become half-open has its slot free
      right
      unfold CircuitBreaker.sync at synced flag
      split at synced
      · split at synced <;> simp_all
      · simp_all

theorem recordFailure_state (b : CircuitBreaker) (now : Time) :
    (b.recordFailure now).state ≠ .halfOpen := by
  unfold CircuitBreaker.recordFailure
  dsimp only
  split
  · rename_i closed
    split
    · simp [CircuitBreaker.trip]
    · simp [closed]
  · simp [CircuitBreaker.trip]

/-- An entry of a run that is not engaged leaves the slot with its holder. -/
theorem SlotHeld.answer_other (run : (retries α).Reaches (.start w) c) (held : SlotHeld c)
    {i : Nat} {t : Thread (RetrySig α) Call α} {e : Op} {a : (RetrySig α).Ans e}
    {k : (RetrySig α).Ans e → Prog (RetrySig α) α} (thread : c.threads[i]? = some t)
    (pending : t.prog = .call e k) (idle : Phase.before e = .idle) (probing : Probing c.world)
    (unclaimed : claims ⟨i, c.world, t.trace, ⟨e, a⟩⟩ = false) :
    ∃ claim t', lastClaim (c.hist ++ [⟨i, c.world, t.trace, ⟨e, a⟩⟩]) = some claim ∧
      (c.threads.set i ⟨t.req, k a, t.trace ++ [⟨e, a⟩]⟩)[claim.tid]? = some t' ∧
      Engaged claim t' := by
  obtain ⟨claim, u, last, there, engaged⟩ := held probing
  refine ⟨claim, u, by simp [unclaimed, last], ?_, engaged⟩
  rw [List.getElem?_set_ne, there]
  intro same
  obtain rfl := Option.some.inj (thread.symm.trans (same ▸ there))
  have phase := next_phase run thread
  rw [pending] at phase
  exact engaged.phase_ne (lastClaim_claims last) (phase.trans idle)

/-- Unless it is abandoned, a slot stays held. -/
theorem SlotHeld.step {c' : Runs α} (run : (retries α).Reaches (.start w) c) (held : SlotHeld c)
    (step : (retries α).Step c c') (none : NoneAbandons c') : SlotHeld c' := by
  intro probing
  cases step with
  | spawn call =>
    obtain ⟨claim, t, last, thread, engaged⟩ := held probing
    have inBounds := (List.getElem?_eq_some_iff.mp thread).1
    exact ⟨claim, t, last, (List.getElem?_append_left inBounds).trans thread, engaged⟩
  | nudge elapsed moved =>
    obtain rfl := Option.some.inj moved
    exact held probing
  | @answer i t e k a thread pending permits =>
    have inBounds := (List.getElem?_eq_some_iff.mp thread).1
    change c.world.permits ⟨e, a⟩ = true at permits
    change Probing (c.world.after e) at probing
    cases e with
    | recordSuccess => cases probing.1
    | recordFailure => exact (recordFailure_state _ _ probing.1).elim
    | sleep delay => exact held.answer_other run thread pending rfl probing rfl
    | allow =>
      obtain ⟨allowed, rfl⟩ : ∃ allowed, a = .ok allowed := by
        cases a with
        | ok allowed => exact ⟨allowed, rfl⟩
        | error x => cases permits
      have answered : allowed = (c.world.breaker.allow c.world.now).1 := of_decide_eq_true permits
      rcases allow_probing probing.1 with ⟨yes, half⟩ | ⟨no, half, taken⟩
      · obtain rfl := answered.trans yes
        have claimed : claims (⟨i, c.world, t.trace, ⟨.allow, .ok true⟩⟩ :
            Entry (RetrySig α) Shared) = true := decide_eq_true half
        exact ⟨_, _, (lastClaim_append_singleton _ _).trans (if_pos claimed),
          List.getElem?_set_self inBounds, .inl rfl⟩
      · obtain rfl := answered.trans no
        exact held.answer_other run thread pending rfl ⟨half, taken⟩ rfl
    | fn =>
      obtain ⟨claim, u, last, there, engaged⟩ := held probing
      have last' : lastClaim (c.hist ++ [⟨i, c.world, t.trace, ⟨.fn, a⟩⟩]) = some claim := by
        simpa [claims] using last
      by_cases same : i = claim.tid
      · subst same
        obtain rfl := Option.some.inj (thread.symm.trans there)
        have awaiting := next_phase run thread
        rw [pending] at awaiting
        have trace : t.trace = claim.past ++ [claim.event] := by
          rcases engaged with trace | ⟨b, trace, recorded⟩
          · exact trace
          · rw [trace, show claim.past ++ [claim.event, ⟨.fn, b⟩] =
              (claim.past ++ [claim.event]) ++ [⟨.fn, b⟩] by simp, phase_append_singleton,
              recorded] at awaiting
            cases awaiting
        refine ⟨claim, _, last', List.getElem?_set_self inBounds, .inr ⟨a, by simp [trace], ?_⟩⟩
        cases a with
        | ok result => rfl
        | error x =>
          cases final : x.isException && t.req.retryable x with
          | true => exact if_pos final
          | false =>
            exact (none c.hist _ [] rfl ⟨probing, claim, _, x, last, rfl, trace, rfl,
              List.getElem?_set_self inBounds, final⟩).elim
      · exact ⟨claim, u, last', (List.getElem?_set_ne same).trans there, engaged⟩

/-! ## Whole runs -/

/-- A slot that no probe abandons is held all along. -/
theorem slotHeld_of_noneAbandons (free : w.breaker.probeInFlight = false)
    (run : (retries α).Reaches (.start w) c) (none : NoneAbandons c) : SlotHeld c := by
  induction run with
  | refl =>
    intro probing
    rw [Probing, Config.start, free] at probing
    cases probing.2
  | tail before step ih =>
    exact (ih (none.mono (.single step))).step before step none

/-- A slot that is held all along was abandoned by no probe. -/
theorem noneAbandons_of_slotHeld (run : (retries α).Reaches (.start w) c)
    (held : ∀ mid, (retries α).Reaches (.start w) mid → (retries α).Reaches mid c → SlotHeld mid) :
    NoneAbandons c := by
  rintro h₁ e h₂ split ⟨probing, claim, t, x, last, same, past, event, thread, final⟩
  obtain ⟨before⟩ := run.before (by simpa [Config.start] using split)
  have inBounds := (List.getElem?_eq_some_iff.mp before.running).1
  have hist : before.mid.hist = h₁ := before.hist_eq
  -- right after the entry the slot is still taken, but its holder is gone
  have after : SlotHeld _ := held _ (before.reached.tail before.step) before.rest
  obtain ⟨claim', t', last', there, engaged⟩ := after (by
    show Probing (before.mid.world.after e.event.op)
    rw [before.world_eq, event]
    exact probing)
  obtain rfl : claim = claim' := by
    simpa [Config.answer, hist, claims, event, last] using last'
  rw [same] at there
  obtain rfl := Option.some.inj ((List.getElem?_set_self inBounds).symm.trans there)
  obtain ⟨u, thread', req, -⟩ := Machine.Reaches.thread_mono before.toEnd
    before.running
  obtain rfl := Option.some.inj (thread'.symm.trans thread)
  rcases engaged with trace | ⟨a, trace, recorded⟩
  · simp [before.trace_eq, past] at trace
  · have traces : before.thread.trace ++ [e.event] =
        (claim.past ++ [claim.event]) ++ [⟨.fn, a⟩] := trace.trans (by simp)
    cases event.symm.trans (List.cons.inj (List.append_inj' traces rfl).2).1
    simp [Phase.of, ← req, final] at recorded

/-- Between awaits, the holder of a slot is in its `fn`. -/
theorem SlotHeld.awaiting (run : (retries α).Reaches (.start w) c) (held : SlotHeld c)
    (settled : Settled c) (probing : Probing c.world) : ∃ claim t, lastClaim c.hist = some claim ∧
      c.threads[claim.tid]? = some t ∧ t.prog.next = some .fn := by
  obtain ⟨claim, t, last, thread, engaged⟩ := held probing
  have phase := next_phase run thread
  have busy := engaged.phase_ne (lastClaim_claims last)
  refine ⟨claim, t, last, thread, ?_⟩
  cases next : t.prog.next with
  | none => exact (busy (by rw [phase, next]; rfl)).elim
  | some e =>
    rcases settled t (List.mem_of_getElem? thread) e next with rfl | ⟨delay, rfl⟩
    · rfl
    · exact (busy (by rw [phase, next]; rfl)).elim

theorem allow_of_free {b : CircuitBreaker} (state : b.state = .halfOpen)
    (free : b.probeInFlight = false) (now : Time) : (b.allow now).1 = true := by
  have synced : b.sync now = b := by simp [CircuitBreaker.sync, state]
  simp [CircuitBreaker.allow, synced, state, free]

/-- Once all runs are over, a half-open breaker admits the next one. -/
theorem SlotHeld.admits (run : (retries α).Reaches (.start w) c) (held : SlotHeld c)
    (finished : ∀ t ∈ c.threads, t.prog.next = none) (state : c.world.breaker.state = .halfOpen)
    (now : Time) : (c.world.breaker.allow now).1 = true := by
  refine allow_of_free state ?_ now
  by_contra taken
  obtain ⟨claim, t, -, thread, next⟩ := held.awaiting run
    (fun t member e next => by rw [finished t member] at next; cases next)
    ⟨state, by simpa using taken⟩
  rw [finished t (List.mem_of_getElem? thread)] at next
  cases next

/-- The slot of a breaker is held by its probe in every state of a run exactly if
no probe's `fn` ended in an exception that is not retried, or in a cancellation;
then the probe is in its `fn` whenever the slot is taken between awaits, and
once all runs are over a half-open breaker admits the next one. -/
theorem probe_slot_held_iff {failureThreshold : Int} {resetSeconds : Time}
    (made : CircuitBreaker.new failureThreshold resetSeconds = .ok w.breaker)
    (run : (retries α).Reaches (.start w) c) :
    ((∀ mid, (retries α).Reaches (.start w) mid → (retries α).Reaches mid c → SlotHeld mid) ↔
        NoneAbandons c) ∧
      (NoneAbandons c → Settled c → Probing c.world → ∃ claim t, lastClaim c.hist = some claim ∧
        c.threads[claim.tid]? = some t ∧ t.prog.next = some .fn) ∧
      (NoneAbandons c → (∀ t ∈ c.threads, t.prog.next = none) →
        c.world.breaker.state = .halfOpen → ∀ now, (c.world.breaker.allow now).1 = true) := by
  have free : w.breaker.probeInFlight = false := by
    unfold CircuitBreaker.new at made
    split at made
    · cases made
    · split at made
      · cases made
      · rw [← Except.ok.inj made]
  refine ⟨⟨noneAbandons_of_slotHeld run, fun none mid before rest => ?_⟩, ?_, ?_⟩
  · exact slotHeld_of_noneAbandons free before (none.mono rest)
  · exact fun none => (slotHeld_of_noneAbandons free run none).awaiting run
  · exact fun none => (slotHeld_of_noneAbandons free run none).admits run

end Slot

/-! ## A probe that is refused by the provider -/

/-- A breaker that trips at once and resets after 30 seconds. -/
def sensitive : CircuitBreaker :=
  ⟨1, seconds 30, .closed, 0, none, false, by decide, by decide⟩

/-- A run without retries. -/
def once : Call := ⟨0, 0, defaultRetryable⟩

/-- The next operation of run `i`, which ends as it does where it is not `fn`. -/
def answer (i : Nat) (ended : Except PyExn Unit) : Act (RetrySig Unit) Call Shared Nat :=
  .answer i fun w _ e => match e with
    | .allow => .ok (w.breaker.allow w.now).1
    | .fn => ended
    | .recordSuccess | .recordFailure | .sleep _ => .ok ()

/-- A timeout trips the breaker; 30 seconds later a second run is admitted as the probe. -/
def probed : List (Act (RetrySig Unit) Call Shared Nat) :=
  [.spawn once, answer 0 (.ok ()), answer 0 (.error (.timeoutException "timed out")),
    answer 0 (.ok ()), .nudge 30000000, .spawn once, answer 1 (.ok ())]

theorem reached {script : List (Act (RetrySig Unit) Call Shared Nat)} {P : Runs Unit → Bool}
    (holds : (Config.play (retries Unit) (.start ⟨0, sensitive⟩) script).any P = true) :
    ∃ c, (retries Unit).Reaches (.start ⟨0, sensitive⟩) c ∧ P c = true := by
  obtain ⟨c, at_, there⟩ := (Option.any_eq_true _ _).mp holds
  exact ⟨c, Config.play_reaches at_, there⟩

/-- Whether every `fn` that failed did so in a way its run retries. -/
def onlyRetryable (c : Runs Unit) : Bool :=
  c.hist.all fun e => match e.event with
    | ⟨.fn, .error x⟩ => c.threads[e.tid]?.all fun t => x.isException && t.req.retryable x
    | _ => true

theorem noneAbandons_of_onlyRetryable {c : Runs Unit} (only : onlyRetryable c = true) :
    NoneAbandons c := by
  rintro h₁ e h₂ split ⟨-, claim, t, x, -, -, -, event, thread, final⟩
  have here := List.all_eq_true.mp only e (by simp [split])
  simp only [event, thread, Option.all_some] at here
  rw [final] at here
  cases here

/-- The probe of this run is in its `fn`. -/
theorem probe_slot_held_iff_demo : ∃ c : Runs Unit,
    (retries Unit).Reaches (.start ⟨0, sensitive⟩) c ∧ Probing c.world ∧ NoneAbandons c ∧
      SlotHeld c ∧ ∃ claim t, lastClaim c.hist = some claim ∧ c.threads[claim.tid]? = some t ∧
        t.prog.next = some .fn := by
  have computed : (Config.play (retries Unit) (.start ⟨0, sensitive⟩) probed).any (fun c =>
      decide (Probing c.world) && onlyRetryable c && c.threads.all fun t => t.prog.next.all fun
        | .fn | .sleep _ => true
        | _ => false) = true := by decide +kernel
  obtain ⟨c, run, computed⟩ := reached computed
  simp only [Bool.and_eq_true] at computed
  obtain ⟨⟨probing, only⟩, settled⟩ := computed
  have none := noneAbandons_of_onlyRetryable only
  have settled : Settled c := by
    intro t member e next
    have here := List.all_eq_true.mp settled t member
    rw [next] at here
    cases e with
    | fn => exact .inl rfl
    | sleep delay => exact .inr ⟨delay, rfl⟩
    | _ => cases here
  have made : CircuitBreaker.new 1 (seconds 30) = .ok sensitive := rfl
  obtain ⟨held, awaited, -⟩ := probe_slot_held_iff made run
  exact ⟨c, run, of_decide_eq_true probing, none, held.mpr none c run .refl,
    awaited none settled (of_decide_eq_true probing)⟩

/-- The provider answers the probe with 404: all runs are over, and the breaker
refuses every call from then on. -/
theorem probe_slot_leaked_demo : ∃ c : Runs Unit,
    (retries Unit).Reaches (.start ⟨0, sensitive⟩) c ∧
      CircuitBreaker.new 1 (seconds 30) = .ok sensitive ∧ Probing c.world ∧
      (∀ t ∈ c.threads, t.prog.next = none) ∧ ¬ SlotHeld c ∧
      ∀ now, (c.world.breaker.allow now).1 = false := by
  have computed : (Config.play (retries Unit) (.start ⟨0, sensitive⟩)
      (probed ++ [answer 1 (.error (.providerCallError "not found" (some 404)))])).any (fun c =>
        decide (Probing c.world) && c.threads.all fun t => t.prog.next.isNone) = true := by
    decide +kernel
  obtain ⟨c, run, computed⟩ := reached computed
  simp only [Bool.and_eq_true, List.all_eq_true, Option.isNone_iff_eq_none] at computed
  obtain ⟨probing, finished⟩ := computed
  have probing : Probing c.world := of_decide_eq_true probing
  have refuses : ∀ now, (c.world.breaker.allow now).1 = false := fun now => by
    simp [CircuitBreaker.allow, CircuitBreaker.sync, probing.1, probing.2]
  refine ⟨c, run, rfl, probing, finished, fun held => ?_, refuses⟩
  have admitted := held.admits run finished probing.1 0
  rw [refuses] at admitted
  cases admitted

end CredBroker.ProbeSlot
