import CredBroker.Interaction.Follows
import CredBroker.Invocation.Scope
import CredBroker.Reliability.BreakerHistory
import CredBroker.Transactions

/-!
# The breakers of a broker

All invocations of one server that go to one provider share a breaker. Every provider
call comes right after that breaker has admitted it, and what it answers is determined by
what was recorded on it: nothing else that the broker does has a part in it.
-/

namespace CredBroker

open Python Interaction

variable {lib : Lib} {svc : Services} {lossy : Bool}

/-! ## Calls right after an admission -/

/-- A provider call is allowed right after the breaker of its provider has admitted it, and a
record on a breaker right after a call of its provider. A breaker is as the settings have it. -/
def Guarded (settings : Settings) (surface : Surface) (last : Option (Event BrokerSig)) : Op → Prop
  | .circuitFor _ _ failureThreshold resetSeconds =>
    failureThreshold = settings.circuitFailureThreshold ∧
    resetSeconds = settings.circuitResetSeconds
  | .toolCall tool _ _ => last = some ⟨.circuitAllow surface tool.provider, .ok true⟩
  | .circuitSuccess surface' provider | .circuitFailure surface' provider => surface' = surface ∧
      ∃ tool accessToken arguments a, last = some ⟨.toolCall tool accessToken arguments, a⟩ ∧
        tool.provider = provider
  | _ => True

/-- The operations that are not allowed everywhere. -/
def Op.isGuarded : Op → Bool
  | .circuitFor .. | .toolCall .. | .circuitSuccess .. | .circuitFailure .. => true
  | _ => false

theorem Op.not_isGuarded_of_not_isGranted {e : Op} (other : e.isGranted = false) :
    e.isGuarded = false := by
  cases e <;> first | rfl | cases other

section Programs

variable {surface : Surface} {last : Option (Event BrokerSig)} {α : Type} {p : BrokerProg α}
  {req : InvokeRequest} {grant : Grant} {tokenHash accessToken : Str} {account : ConnectedAccount}
  {tool : ToolAdapter} {start : Time}

/-- What touches neither a breaker nor a provider is allowed anywhere. -/
theorem follows_unguarded (uses : Within p (!·.isGuarded)) :
    p.Follows (Guarded svc.settings surface) last :=
  .of_uses uses fun _ e other => by cases e <;> trivial

theorem follows_ungranted (uses : Within p (!·.isGranted)) :
    p.Follows (Guarded svc.settings surface) last :=
  follows_unguarded (uses.mono fun other => by
    rw [Op.not_isGuarded_of_not_isGranted (by simpa using other)]
    rfl)

theorem follows_refused {status : Status} {msg : Str} {reason : Option DeniedReason} :
    (refused start status msg reason).Follows (Guarded svc.settings surface) last :=
  follows_ungranted
    ((refused_uses ..).mono fun plain => by simp [Op.not_isGranted_of_isPlain plain])

theorem isRevokedNow_unguarded : Within (isRevokedNow svc grant tokenHash) (!·.isGuarded) := by
  refine .bind (markedRevoked_ungranted.mono fun other => ?_) fun marked =>
    .ite (fun _ => trivial) fun _ => .bind (within_op rfl) fun found => ?_
  · rw [Op.not_isGuarded_of_not_isGranted (by simpa using other)]
    rfl
  · split <;> trivial

/-- The loop asks the breaker before each attempt, and notes how it ended. -/
theorem callAttempts_follows (maxRetries : Int) (baseDelay : Time) (retryable : PyExn → Bool)
    (attempts : List Nat) (last : Option (Event BrokerSig)) :
    (callAttempts (op (.toolCall tool accessToken req.arguments)) maxRetries baseDelay
      (some (circuitOf surface tool.provider)) retryable (fun delay => op (.sleep delay))
      attempts).Follows (Guarded svc.settings surface) last := by
  induction attempts generalizing last with
  | nil => trivial
  | cons attempt attempts ih =>
    refine ⟨trivial, fun a => ?_⟩
    rcases a with x | allowed
    · trivial
    · cases allowed with
      | false => trivial
      | true =>
        refine ⟨rfl, fun a => ?_⟩
        rcases a with x | result
        · refine .ite (fun _ => trivial) fun _ => .ite (fun _ => trivial) fun _ =>
            ⟨⟨rfl, tool, accessToken, req.arguments, _, rfl, rfl⟩, fun a => ?_⟩
          rcases a with x' | done
          · trivial
          · refine .ite (fun _ => trivial) fun _ => ?_
            cases backoffDelay baseDelay attempt with
            | error overflow => trivial
            | ok delay =>
              refine ⟨trivial, fun a => ?_⟩
              cases a with
              | error x => trivial
              | ok slept => exact ih _
        · refine ⟨⟨rfl, tool, accessToken, req.arguments, _, rfl, rfl⟩, fun a => ?_⟩
          cases a <;> trivial

/-- A provider is called by the loop, on a breaker that was made with the settings. -/
theorem callProvider_follows (last : Option (Event BrokerSig)) :
    (callProvider svc req tool accessToken).Follows (Guarded svc.settings req.surface) last := by
  refine .bind ⟨⟨rfl, rfl⟩, fun a => ?_⟩ fun _ last => ?_
  · cases a <;> trivial
  · exact .ite (fun _ => trivial) fun _ => .ite (fun _ => trivial) fun _ =>
      callAttempts_follows _ _ _ _ last

/-- A round is a provider call, a refresh, the revocation check and at most one more round. -/
theorem providerRound_follows {refreshed : Bool} (next : refreshed = false → ∀ accessToken last,
      (providerRounds lib svc req grant tokenHash account tool start true accessToken).Follows
        (Guarded svc.settings req.surface) last) :
    (providerRounds lib svc req grant tokenHash account tool start refreshed accessToken).Follows
      (Guarded svc.settings req.surface) last := by
  rw [providerRounds]
  refine .bind (callProvider_follows _).attempt fun ended last => ?_
  split
  · exact follows_ungranted ((succeeded_uses ..).mono fun plain => by
      simp [Op.not_isGranted_of_isPlain plain])
  · split
    · rename_i again
      refine .bind (follows_ungranted (refreshOrOutcome_uses.mono fun refresh => by
        simp [Op.not_isGranted_of_isRefresh refresh])) fun ended last => ?_
      split
      · trivial
      · exact .bind (follows_unguarded isRevokedNow_unguarded) fun _ last =>
          .ite (fun _ => follows_refused) fun _ => next again.2.1 _ last
    · exact follows_refused
  · exact follows_refused
  · exact follows_refused
  · exact follows_refused
  · exact follows_refused
  · trivial

/-- Both rounds of `_execute_call` keep to the breaker of the tool. -/
theorem executeCall_follows : (executeCall lib svc req grant tokenHash tool start).Follows
    (Guarded svc.settings req.surface) last := by
  refine .bind (follows_unguarded (within_op rfl)) fun found last => ?_
  split
  · exact follows_refused
  · refine .bind (follows_ungranted (obtainCredential_uses.mono fun refresh => by
      simp [Op.not_isGranted_of_isRefresh refresh])) fun ended last => ?_
    split
    · trivial
    · exact .bind (follows_unguarded isRevokedNow_unguarded) fun _ last =>
        .ite (fun _ => follows_refused) fun _ =>
        providerRound_follows fun _ _ _ => providerRound_follows nofun

theorem invokeResolved_follows {fastRevoked : Bool} :
    (invokeResolved lib svc req grant tokenHash start fastRevoked).Follows
      (Guarded svc.settings req.surface) last := by
  refine .ite (fun _ => follows_refused) fun _ =>
    .bind (follows_unguarded (within_op rfl)) fun now last =>
    .ite (fun _ => follows_refused) fun _ =>
    .bind (follows_ungranted checkInvokeRate_ungranted) fun allowed last =>
    .ite (fun _ => follows_refused) fun _ => ?_
  split
  · exact follows_refused
  · trivial
  · refine .ite (fun _ => follows_refused) fun _ => ?_
    split
    · refine .bind (follows_ungranted (ungranted_of_keyed claimKey_keyed)) fun claimed last => ?_
      split
      · trivial
      · refine .bind executeCall_follows.attempt fun ended last => ?_
        split
        · exact .ite (fun _ =>
            .bind (follows_ungranted (ungranted_of_keyed release_keyed)) fun _ _ => trivial)
            fun _ => trivial
        · exact .bind (follows_ungranted (ungranted_of_keyed settle_keyed)) fun _ _ => trivial
    · exact executeCall_follows

theorem invokeGranted_follows :
    (invokeGranted lib svc req start).Follows (Guarded svc.settings req.surface) last := by
  refine .bind (follows_ungranted markedRevoked_ungranted) fun fastRevoked last =>
    .bind (follows_unguarded (within_op rfl)) fun found last => ?_
  split
  · exact follows_refused
  · refine .bind (.bind invokeResolved_follows.attempt fun ended last => ?_) fun outcome last =>
      .bind (.bind (follows_unguarded (within_op rfl)) fun _ _ =>
        follows_unguarded (within_op rfl)) fun _ _ => trivial
    split
    · trivial
    · exact .ite (fun _ => .bind (follows_unguarded (within_op rfl)) fun _ _ => follows_refused)
        fun _ => trivial

/-- So does an invocation as a whole; all else that it does is on no breaker. -/
theorem invoke_follows : (invoke lib svc req).Follows (Guarded svc.settings req.surface) last := by
  refine .bind (follows_unguarded (within_op rfl)) fun start last =>
    .bind (.attempt (.bind (follows_unguarded (within_op rfl)) fun now _ =>
      follows_unguarded (Prog.uses_ofExcept _))) fun verified last => ?_
  split
  · exact follows_refused
  · exact follows_refused
  · trivial
  · exact .ite (fun _ => follows_refused) fun _ => .bind invokeGranted_follows.attempt
      fun ended _ => .bind (follows_unguarded (within_op rfl)) fun _ _ =>
        follows_unguarded (Prog.uses_ofExcept _)

end Programs

/-! ## The other requests -/

/-- The operations that are not on a counter. -/
def Op.isUncounted : Op → Bool
  | .redis cmd => cmd.name.take 2 ≠ "ra"
  | _ => true

/-- What requests perform besides those for a grant and invocations. -/
def Op.isClerical : Op → Bool
  | .clock | .secretRegistry | .uuid4 | .tokenHex | .registerSecret _ | .query _ | .add _
  | .setGrant _ | .flush | .commit | .close | .encrypt _ | .tokenEndpoint _ => true
  | .redis cmd => Op.isUncounted (.redis cmd)
  | _ => false

theorem Op.not_isGuarded_of_isClerical {e : Op} (clerical : e.isClerical = true) :
    e.isGuarded = false := by
  cases e <;> first | rfl | cases clerical

theorem Op.isUncounted_of_isClerical {e : Op} (clerical : e.isClerical = true) :
    e.isUncounted = true := by
  cases e <;> first | rfl | exact clerical

theorem Op.not_isGuarded_of_isAnswerable {e : Op} (answerable : e.isAnswerable = true) :
    e.isGuarded = false := by
  cases e <;> first | rfl | cases answerable

theorem Op.isClerical_of_isRegister {e : Op} (register : e.isRegister = true) :
    e.isClerical = true := by
  cases e <;> first | rfl | cases register

theorem seedDemo_clerical : Within seedDemo Op.isClerical := by
  refine .bind (.bind (within_op rfl) fun agent => ?_) fun _ =>
    .bind (.bind (within_op rfl) fun account => ?_) fun _ => .bind (within_op rfl) fun _ => trivial
  · split
    · trivial
    · exact .bind (within_op rfl) fun _ => .bind (within_op rfl) fun _ => .bind (within_op rfl)
        fun _ => .bind (within_op rfl) fun _ => trivial
  · split
    · trivial
    · exact .bind (within_op rfl) fun _ => .bind (within_op rfl) fun _ =>
        .bind (Prog.uses_ofExcept _) fun _ => .bind (within_op rfl) fun _ => .bind (within_op rfl)
        fun _ => .bind (within_op rfl) fun _ => .bind (within_op rfl) fun _ => trivial

theorem Op.isClerical_of_isPlain {e : Op} (plain : e.isPlain = true) : e.isClerical = true := by
  cases e <;> first | rfl | cases plain

theorem callback_clerical (request : CallbackRequest) :
    Within (callback lib svc.settings request) Op.isClerical := by
  refine .bind (.ite (fun _ => trivial) fun _ => trivial) fun _ => ?_
  split
  · trivial
  · refine .bind (.bind (.attempt ?_) fun ended => ?_) fun _ =>
      .bind (within_op rfl) fun _ => .bind ?_ fun _ => .bind ?_ fun _ => withSession_uses rfl ?_
    · exact .bind ((verifyState_plain _).mono Op.isClerical_of_isPlain) fun _ =>
        .bind (Prog.uses_ofExcept _) fun _ =>
        .bind (.bind (within_op rfl) fun _ =>
          (parseTokenResponse_uses _).mono Op.isClerical_of_isRegister) fun _ => trivial
    · split <;> trivial
    · exact .ite (fun _ => .bind (within_op rfl) fun _ => trivial) fun _ => trivial
    · exact (expiryOf_uses _).mono Op.isClerical_of_isPlain
    · exact .bind (within_op rfl) fun _ => .bind (within_op rfl) fun _ => .bind (within_op rfl)
        fun _ => .bind (within_op rfl) fun _ => .bind (within_op rfl) fun _ => trivial
  · trivial

/-- Only an invocation and a request for a grant come to a breaker or a counter. -/
theorem serve_clerical {r : Request} (other : ∀ req, r ≠ .invoke req)
    (grantless : ∀ agentId toolName scope, r ≠ .requestGrant agentId toolName scope) :
    Within (serve lib svc r) Op.isClerical := by
  cases r with
  | createAgent body =>
    refine .bind (.bind ?_ fun _ => withSession_uses rfl ?_) fun _ => trivial
    · unfold userOr
      split
      · trivial
      · exact within_op rfl
    · exact .bind (within_op rfl) fun _ => .bind (within_op rfl) fun _ => .bind (within_op rfl)
        fun _ => .bind (within_op rfl) fun _ => trivial
  | seedDemo => exact .bind (withSession_uses rfl seedDemo_clerical) fun _ => trivial
  | authorize provider userId =>
    exact .bind (.bind (.ite (fun _ => trivial) fun _ => trivial) fun _ => .ite (fun _ => trivial)
      fun _ => .bind (within_op rfl) fun _ => .bind (within_op rfl) fun _ => trivial)
        fun _ => trivial
  | callback request => exact .bind (callback_clerical request) fun _ => trivial
  | requestGrant agentId toolName scope => exact (grantless agentId toolName scope rfl).elim
  | revokeGrant grantId =>
    refine .bind (withSession_uses rfl (.bind (within_op rfl) fun found => ?_)) fun _ => trivial
    split
    · trivial
    · refine .bind ?_ fun grant => ?_
      · exact .ite (fun _ => .bind (within_op rfl) fun _ => .bind (within_op rfl) fun _ =>
          .bind (within_op rfl) fun _ => trivial) fun _ => trivial
      · exact .ite (fun _ => .bind (.bind (within_op rfl) fun _ => .bind (within_op rfl) fun _ =>
          trivial) fun _ => trivial) fun _ => trivial
  | invoke req => exact (other req rfl).elim

/-- The server of a request; only invocations come to a provider. -/
def Request.surface : Request → Surface
  | .invoke req => req.surface
  | _ => .http

/-- Whatever a request is, its program calls a provider right after an admission only. -/
theorem serve_follows (r : Request) :
    (serve lib svc r).Follows (Guarded svc.settings r.surface) none := by
  have unguarded {c : Op → Bool} (uses : Within (serve lib svc r) c)
      (other : ∀ e, c e = true → e.isGuarded = false) :
      (serve lib svc r).Follows (Guarded svc.settings r.surface) none :=
    follows_unguarded (uses.mono fun allowed => by rw [other _ allowed]; rfl)
  cases r with
  | invoke req => exact .bind invoke_follows fun _ _ => trivial
  | requestGrant agentId toolName scope =>
    exact unguarded (requestGrant_answerable agentId toolName scope)
      fun _ => Op.not_isGuarded_of_isAnswerable
  | _ => exact unguarded (serve_clerical nofun nofun) fun _ => Op.not_isGuarded_of_isClerical

/-! ## The history of a breaker -/

/-- What an entry does on the breaker of a provider. -/
def breakerCall (surface : Surface) (provider : Str) (e : Entry BrokerSig World) :
    Option (BreakerCall × Time) :=
  match e.event with
  | ⟨.circuitAllow surface' provider', .ok _⟩ =>
    if surface' = surface ∧ provider' = provider then some (.allow, e.pre.now) else none
  | ⟨.circuitSuccess surface' provider', .ok _⟩ =>
    if surface' = surface ∧ provider' = provider then some (.recordSuccess, e.pre.now) else none
  | ⟨.circuitFailure surface' provider', .ok _⟩ =>
    if surface' = surface ∧ provider' = provider then some (.recordFailure e.pre.now, e.pre.now)
    else none
  | _ => none

/-- What all programs did on the breaker of a provider, the latest first. -/
def sharedHistory (surface : Surface) (provider : Str) (hist : List (Entry BrokerSig World)) :
    BreakerHistory := (hist.filterMap (breakerCall surface provider)).reverse

/-- One more entry of a run is at most one more call on the breaker. -/
theorem sharedHistory_snoc {surface : Surface} {provider : Str}
    {hist : List (Entry BrokerSig World)} {e : Entry BrokerSig World} :
    sharedHistory surface provider (hist ++ [e]) =
      (breakerCall surface provider e).toList ++ sharedHistory surface provider hist := by
  rw [sharedHistory, List.filterMap_append, List.reverse_append, sharedHistory]
  cases called : breakerCall surface provider e <;> simp [called]

theorem mem_sharedHistory {surface : Surface} {provider : Str} {allowed : Bool} {i : Nat}
    {v : World} {past : Trace BrokerSig} {hist : List (Entry BrokerSig World)}
    (entry : (⟨i, v, past, ⟨.circuitAllow surface provider, .ok allowed⟩⟩ :
      Entry BrokerSig World) ∈ hist) :
    (.allow, v.now) ∈ sharedHistory surface provider hist := by
  rw [sharedHistory, List.mem_reverse, List.mem_filterMap]
  exact ⟨_, entry, by simp [breakerCall]⟩

/-- The breaker of a provider is what its history leaves of a new one. -/
def Breaking (settings : Settings) (surface : Surface) (provider : Str) (w : World)
    (h : BreakerHistory) : Prop :=
  h.Clocked w.now ∧ ((w.circuits surface provider = none ∧ h = []) ∨
    ∃ b, CircuitBreaker.new settings.circuitFailureThreshold settings.circuitResetSeconds = .ok b ∧
      w.circuits surface provider = some (b.after h))

section Breaking

variable {settings : Settings} {surface : Surface} {provider : Str} {w : World} {h : BreakerHistory}

/-- Time passes, and the breaker is left alone. -/
theorem Breaking.same {w' : World} (breaking : Breaking settings surface provider w h)
    (now : w.now ≤ w'.now) (same : w'.circuits surface provider = w.circuits surface provider) :
    Breaking settings surface provider w' h := by
  obtain ⟨clocked, kept⟩ := breaking
  rw [← same] at kept
  refine ⟨?_, kept⟩
  have earlier := List.pairwise_cons.mp clocked
  exact List.pairwise_cons.mpr
    ⟨fun t member => Int.le_trans (earlier.1 t member) now, earlier.2⟩

/-- A call on a breaker that is there. -/
theorem Breaking.call {w' : World} {call : BreakerCall} {b : CircuitBreaker}
    (breaking : Breaking settings surface provider w h) (now : w'.now = w.now)
    (there : w.circuits surface provider = some b)
    (called : w'.circuits surface provider = some (b.perform (call, w.now))) :
    Breaking settings surface provider w' ((call, w.now) :: h) := by
  obtain ⟨clocked, ⟨none, -⟩ | ⟨made, new, after⟩⟩ := breaking
  · rw [none] at there
    cases there
  · rw [there] at after
    obtain rfl := Option.some.inj after
    refine ⟨?_, .inr ⟨made, new, called⟩⟩
    rw [now]
    exact List.pairwise_cons.mpr ⟨fun t member => by
      rcases List.mem_cons.mp member with rfl | member
      · exact Int.le_refl _
      · exact (List.pairwise_cons.mp clocked).1 t member, clocked⟩

/-- A breaker answers by its history. -/
theorem Breaking.answers {allowed : Bool} (breaking : Breaking settings surface provider w h)
    {tr : Trace BrokerSig}
    (permits : w.permits tr ⟨.circuitAllow surface provider, .ok allowed⟩ = true) :
    allowed = h.admits settings.circuitFailureThreshold settings.circuitResetSeconds w.now := by
  obtain ⟨clocked, ⟨none, -⟩ | ⟨made, new, after⟩⟩ := breaking
  · simp [World.permits, none] at permits
  · obtain ⟨tracks, threshold, reset⟩ := CircuitBreaker.new_tracks new
    have answer : allowed = ((made.after h).allow w.now).1 := by
      simpa [World.permits, after] using permits
    rw [answer, (CircuitBreaker.Tracks.answers tracks clocked).2, threshold, reset, List.append_nil]

/-! ### One event -/

/-- The operations on breakers. -/
def Op.isBreaker : Op → Bool
  | .circuitFor .. | .circuitAllow .. | .circuitSuccess .. | .circuitFailure .. => true
  | _ => false

theorem World.addSecret_circuits (w : World) (value : Str) :
    (w.addSecret value).circuits = w.circuits := by
  unfold World.addSecret
  split <;> rfl

/-- Only the operations on breakers change one. -/
theorem World.after_circuits {tr : Trace BrokerSig} {e : Event BrokerSig}
    (other : e.op.isBreaker = false) : (w.after tr e).circuits = w.circuits := by
  obtain ⟨e, a⟩ := e
  cases e with
  | circuitFor | circuitAllow | circuitSuccess | circuitFailure => cases other
  | tokenHex | decrypt => cases a <;> first | rfl | exact w.addSecret_circuits _
  | registerSecret value => exact w.addSecret_circuits value
  | encrypt plaintext => cases plaintext <;> first | rfl | exact w.addSecret_circuits _
  | redis cmd =>
    show (if AppliedRedis a then _ else w).circuits = _
    split <;> rfl
  | commit =>
    show (if Applied a then _ else w.unlock _).circuits = _
    split <;> rfl
  | query q =>
    cases q with
    | agentForUpdate id => rcases a with x | _ | agent <;> rfl
    | _ => rfl
  | _ => rfl

theorem World.nudge_circuits {n : World.Nudge} {w' : World}
    (moved : World.nudge lossy n w = some w') : w'.circuits = w.circuits := by
  cases n with
  | tick elapsed =>
    obtain rfl := Option.some.inj moved
    rfl
  | evict keep =>
    rw [World.nudge] at moved
    split at moved
    · obtain rfl := Option.some.inj moved
      rfl
    · cases moved

theorem World.mapCircuit_same {f : CircuitBreaker → CircuitBreaker} {b : CircuitBreaker}
    (there : w.circuits surface provider = some b) :
    (w.mapCircuit surface provider f).circuits surface provider = some (f b) := by
  simp [World.mapCircuit, there, World.putCircuit]

/-- A call on one breaker leaves the others as they are. -/
theorem World.mapCircuit_other {f : CircuitBreaker → CircuitBreaker} {surface' : Surface}
    {provider' : Str} (other : ¬ (surface' = surface ∧ provider' = provider)) :
    (w.mapCircuit surface' provider' f).circuits surface provider =
      w.circuits surface provider := by
  unfold World.mapCircuit
  split
  · have other' : ¬ (surface = surface' ∧ provider = provider') := fun same =>
      other ⟨same.1.symm, same.2.symm⟩
    simp [World.putCircuit, other']
  · rfl

/-- What the programs of the broker keep to in their use of breakers. -/
structure Breaker (settings : Settings) (w : World) (e : Op) : Prop where
  configured : ∀ surface provider threshold reset,
    e = .circuitFor surface provider threshold reset →
      threshold = settings.circuitFailureThreshold ∧ reset = settings.circuitResetSeconds
  there : ∀ surface provider, e = .circuitSuccess surface provider ∨
    e = .circuitFailure surface provider → w.circuits surface provider ≠ none

/-- A breaker is made with the settings, unless it is there. -/
theorem Breaking.provided {surface' : Surface} {provider' : Str} {w' : World}
    (breaking : Breaking settings surface provider w h)
    (after : w' = match w.circuits surface' provider',
        CircuitBreaker.new settings.circuitFailureThreshold settings.circuitResetSeconds with
      | none, .ok b => w.putCircuit surface' provider' b
      | _, _ => w) : Breaking settings surface provider w' h := by
  split at after
  · rename_i b none made
    subst after
    by_cases same : surface = surface' ∧ provider = provider'
    · obtain ⟨rfl, rfl⟩ := same
      obtain ⟨clocked, ⟨-, rfl⟩ | ⟨b', -, some⟩⟩ := breaking
      · exact ⟨clocked, .inr ⟨b, made, by simp [World.putCircuit, CircuitBreaker.after]⟩⟩
      · rw [none] at some
        cases some
    · exact breaking.same (Int.le_refl _) (by simp [World.putCircuit, same])
  · exact after ▸ breaking

/-- An answered operation adds itself to the history of the breaker it is on. -/
theorem Breaking.event {i : Nat} {tr : Trace BrokerSig} {e : Event BrokerSig}
    (breaking : Breaking settings surface provider w h) (keeps : Breaker settings w e.op)
    (permits : w.permits tr e = true) :
    Breaking settings surface provider (w.after tr e)
      ((breakerCall surface provider ⟨i, w, tr, e⟩).toList ++ h) := by
  have now : (w.after tr e).now = w.now := (w.after_framed tr e).now
  by_cases other : e.op.isBreaker = false
  · have uncalled : breakerCall surface provider ⟨i, w, tr, e⟩ = none := by
      obtain ⟨e, a⟩ := e
      cases e <;> first | rfl | cases other
    rw [uncalled]
    exact breaking.same (Int.le_of_eq now.symm) (by rw [World.after_circuits other])
  · obtain ⟨e, a⟩ := e
    -- a call on this breaker, or on another one
    have calls {surface' : Surface} {provider' : Str} {call : BreakerCall}
        {f : CircuitBreaker → CircuitBreaker} {w' : World} (now : w'.now = w.now)
        (after : w' = w.mapCircuit surface' provider' f)
        (performs : ∀ b : CircuitBreaker, f b = b.perform (call, w.now))
        (there : w.circuits surface' provider' ≠ none) :
        Breaking settings surface provider w'
          ((if surface' = surface ∧ provider' = provider then some (call, w.now)
            else none).toList ++ h) := by
      split
      · rename_i same
        obtain ⟨rfl, rfl⟩ := same
        obtain ⟨b, is⟩ := Option.ne_none_iff_exists'.mp there
        exact breaking.call now is (by rw [after, World.mapCircuit_same is, performs])
      · rename_i differs
        exact breaking.same (Int.le_of_eq now.symm) (by rw [after, World.mapCircuit_other differs])
    cases e with
    | circuitFor surface' provider' threshold reset =>
      obtain ⟨rfl, rfl⟩ := keeps.configured _ _ _ _ rfl
      cases a with
      | error x => exact breaking.same (Int.le_of_eq now.symm) rfl
      | ok _ => exact breaking.provided rfl
    | circuitAllow surface' provider' =>
      cases a with
      | error x => exact breaking.same (Int.le_of_eq now.symm) rfl
      | ok allowed =>
        refine calls now rfl (fun b => rfl) fun none => ?_
        simp [World.permits, none] at permits
    | circuitSuccess surface' provider' =>
      cases a with
      | error x => exact breaking.same (Int.le_of_eq now.symm) rfl
      | ok _ => exact calls now rfl (fun b => rfl) (keeps.there _ _ (.inl rfl))
    | circuitFailure surface' provider' =>
      cases a with
      | error x => exact breaking.same (Int.le_of_eq now.symm) rfl
      | ok _ =>
        exact calls now rfl (fun b => (CircuitBreaker.recordFailureAt_eq w.now).symm)
          (keeps.there _ _ (.inr rfl))
    | _ => exact (other rfl).elim

end Breaking

/-! ### A run -/

section Run

variable {w : World} {c : Broker} (run : (broker lib svc lossy).Reaches (.start w) c)

include run

/-- A call of a provider, and the admission right before it. -/
theorem admission_of_call {i : Nat} {t : Thread BrokerSig Request Response}
    (thread : c.threads[i]? = some t) {pre : Trace BrokerSig} {ev : Event BrokerSig}
    (sub : pre ++ [ev] <+: t.trace) {tool : ToolAdapter} {accessToken : Str} {arguments : Arguments}
    (call : ev.op = .toolCall tool accessToken arguments) :
    ∃ (past : Trace BrokerSig) (v : World),
      pre = past ++ [⟨.circuitAllow t.req.surface tool.provider, .ok true⟩] ∧
      (⟨i, v, past, ⟨.circuitAllow t.req.surface tool.provider, .ok true⟩⟩ :
        Entry BrokerSig World) ∈ c.hist := by
  have allowed := Machine.Reaches.follows run thread (serve_follows t.req) sub
  rw [call] at allowed
  obtain ⟨past, cut⟩ := List.getLast?_eq_some_iff.mp allowed
  obtain ⟨v, entry⟩ := entry_at run thread
    (cut ▸ (List.prefix_append pre [ev]).trans sub : past ++ [_] <+: t.trace)
  exact ⟨past, v, cut, entry⟩

/-- Every breaker is determined by what the programs recorded on it. -/
theorem breaking_run (unbroken : ∀ surface provider, w.circuits surface provider = none)
    (surface : Surface) (provider : Str) :
    Breaking svc.settings surface provider c.world (sharedHistory surface provider c.hist) := by
  induction run generalizing surface provider with
  | refl => exact ⟨List.pairwise_singleton _ _, .inl ⟨unbroken surface provider, rfl⟩⟩
  | @tail b c run step ih =>
    cases step with
    | spawn r => exact ih surface provider
    | nudge n moved =>
      exact (ih surface provider).same (World.nudge_now moved) (by rw [World.nudge_circuits moved])
    | @answer i t e k a thread pending permits =>
      have allowed := Machine.Reaches.follows_next run thread (serve_follows t.req) pending
      show Breaking _ _ _ (b.world.after t.trace ⟨e, a⟩) (sharedHistory _ _ (b.hist ++ [_]))
      rw [sharedHistory_snoc]
      refine (ih surface provider).event ⟨?_, ?_⟩ permits
      · rintro surface' provider' threshold reset rfl
        exact allowed
      · -- a record comes after an admission, so the breaker is there
        intro surface' provider' records none
        have called : surface' = t.req.surface ∧ ∃ tool accessToken arguments a,
            t.trace.getLast? = some ⟨.toolCall tool accessToken arguments, a⟩ ∧
              tool.provider = provider' := by
          rcases records with rfl | rfl <;> exact allowed
        obtain ⟨rfl, tool, accessToken, arguments, a', last, rfl⟩ := called
        obtain ⟨past, cut⟩ := List.getLast?_eq_some_iff.mp last
        obtain ⟨past', v, -, entry⟩ := admission_of_call run thread
          (by rw [cut] : past ++ [_] <+: t.trace) rfl
        have member := mem_sharedHistory entry
        obtain ⟨-, ⟨-, empty⟩ | ⟨b', -, some⟩⟩ := ih t.req.surface tool.provider
        · rw [empty] at member
          cases member
        · rw [none] at some
          cases some

/-- From a start without breakers, a breaker answers by what all programs have recorded on
it. For every attempt at a provider, its program has asked the breaker of that provider at
its server last, and what was recorded on the breaker until then admitted the attempt. -/
theorem attempts_admitted (unbroken : ∀ surface provider, w.circuits surface provider = none)
    {h₁ h₂ : List (Entry BrokerSig World)} {e : Entry BrokerSig World}
    (cut : c.hist = h₁ ++ e :: h₂) :
    (∀ surface provider allowed, e.event = ⟨.circuitAllow surface provider, .ok allowed⟩ →
      allowed = (sharedHistory surface provider h₁).admits svc.settings.circuitFailureThreshold
        svc.settings.circuitResetSeconds e.pre.now) ∧
    ∀ tool accessToken arguments, e.event.op = .toolCall tool accessToken arguments →
      ∃ (t : Thread BrokerSig Request Response) (req : InvokeRequest) (a : Entry BrokerSig World)
        (h h' : List (Entry BrokerSig World)),
        c.threads[e.tid]? = some t ∧ t.req = .invoke req ∧ h₁ = h ++ a :: h' ∧ a.tid = e.tid ∧
        a.event = ⟨.circuitAllow req.surface tool.provider, .ok true⟩ ∧
        e.past = a.past ++ [a.event] ∧
        (sharedHistory req.surface tool.provider h).admits svc.settings.circuitFailureThreshold
          svc.settings.circuitResetSeconds a.pre.now = true := by
  have answered {h h' : List (Entry BrokerSig World)} {a : Entry BrokerSig World}
      (cut : c.hist = h ++ a :: h') {surface : Surface} {provider : Str} {allowed : Bool}
      (asked : a.event = ⟨.circuitAllow surface provider, .ok allowed⟩) :
      allowed = (sharedHistory surface provider h).admits svc.settings.circuitFailureThreshold
        svc.settings.circuitResetSeconds a.pre.now := by
    obtain ⟨before⟩ := run.before (by simpa [Config.start] using cut)
    have breaking := breaking_run before.reached unbroken surface provider
    have permits : a.pre.permits a.past a.event = true := before.permits
    rw [before.world_eq, before.hist_eq] at breaking
    rw [asked] at permits
    exact breaking.answers permits
  refine ⟨fun surface provider allowed => answered cut, fun tool accessToken arguments call => ?_⟩
  have member : e ∈ c.hist := by rw [cut]; exact List.mem_append_right _ List.mem_cons_self
  obtain ⟨t, req, -, -, -, thread, sub, request, -⟩ := entry_mediated run member (by rw [call]; rfl)
  obtain ⟨past, -, asked, -⟩ := admission_of_call run thread sub call
  obtain ⟨v, there⟩ := run.precedes cut (by rw [asked] : past ++ [_] <+: e.past)
  obtain ⟨h, h', split⟩ := List.append_of_mem there
  rw [request] at asked split
  exact ⟨t, req, _, h, h', thread, request, split, rfl, rfl, asked,
    (answered (by rw [cut, split, List.append_assoc]; rfl) rfl).symm⟩

end Run

/-- A failed attempt was recorded. -/
def Demo.isFailure (e : Entry BrokerSig World) : Bool :=
  match e.event with
  | ⟨.circuitFailure .., .ok _⟩ => true
  | _ => false

/-- The first attempt at a provider times out, and the second one is admitted with the failure
that was recorded. -/
theorem attempts_admitted_demo : ∃ (c : Broker) (h₁ h₂ : List (Entry BrokerSig World))
    (e : Entry BrokerSig World),
      (broker Demo.lib Demo.services false).Reaches (.start (.fresh Demo.midnight)) c ∧
      c.hist = h₁ ++ e :: h₂ ∧ e.event.op.isToolCall = true ∧ h₁.any Demo.isFailure = true ∧
      ∃ (a : Entry BrokerSig World) (h h' : List (Entry BrokerSig World)) (surface : Surface)
        (provider : Str), h₁ = h ++ a :: h' ∧ a.event = ⟨.circuitAllow surface provider, .ok true⟩ ∧
        e.past = a.past ++ [a.event] ∧
        (sharedHistory surface provider h).admits Demo.services.settings.circuitFailureThreshold
          Demo.services.settings.circuitResetSeconds a.pre.now = true := by
  have computed : (Demo.played false
      (Demo.issued ++ Demo.invocation [] none :: Demo.run 2 15 ++
        Demo.raise 2 (.timeoutException []) ++ Demo.run 2 4)).any (fun c =>
          c.hist.getLast?.any (·.event.op.isToolCall) &&
          c.hist.dropLast.any Demo.isFailure) = true := by
    decide +kernel
  obtain ⟨c, run, computed⟩ := Demo.reached computed
  obtain ⟨called, failed⟩ := Bool.and_eq_true_iff.mp computed
  obtain ⟨e, last, call⟩ := (Option.any_eq_true _ _).mp called
  have cut : c.hist = c.hist.dropLast ++ e :: [] := (List.dropLast_append_getLast? e last).symm
  cases calls : e.event.op with
  | toolCall tool accessToken arguments =>
    obtain ⟨-, req, a, h, h', -, -, split, -, asked, last, admits⟩ :=
      (attempts_admitted run (fun _ _ => rfl) cut).2 tool accessToken arguments calls
    exact ⟨c, c.hist.dropLast, [], e, run, cut, call, failed, a, h, h', req.surface, tool.provider,
      split, asked, last, admits⟩
  | _ =>
    rw [calls] at call
    cases call

end CredBroker
