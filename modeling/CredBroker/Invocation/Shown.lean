import CredBroker.Invocation.Replayed

/-!
# What an outcome shows

Where the strings of an outcome come from. An error message went through `scrub`, and
after that the invocation learns nothing that it did not know. A result is a JSON
document as the provider answered with it, or as it is stored under the key; no step
looks into it.
-/

namespace CredBroker

open Python Interaction

variable {lib : Lib} {svc : Services} {lossy : Bool} {req : InvokeRequest} {grant : Grant}
  {tokenHash : Str} {account : ConnectedAccount} {tool : ToolAdapter} {start : Time}
  {tr ext : Trace BrokerSig}

/-! ## Secrets and documents in a trace -/

/-- The secrets that an event hands to `register_secret`. -/
def learned : Event BrokerSig → List Str
  | ⟨.registerSecret value, _⟩ => [value]
  | ⟨.encrypt (.str plaintext), _⟩ => [plaintext]
  | ⟨.decrypt _, .ok plaintext⟩ => [plaintext]
  | _ => []

/-- The secret was handed to `register_secret`. -/
def Known (s : Str) (tr : Trace BrokerSig) : Prop := ∃ e ∈ tr, s ∈ learned e

/-- The documents that the provider answered with. -/
def bodies (tr : Trace BrokerSig) : List Json :=
  tr.filterMap fun
    | ⟨.toolCall .., .ok body⟩ => some body
    | _ => none

/-- Operations that bring up a secret or a document, and the reading of the registry. -/
def Op.handles : Op → Bool
  | .registerSecret _ | .secretRegistry | .encrypt _ | .decrypt _ | .tokenEndpoint _
  | .toolCall .. => true
  | _ => false

/-- The completed result that the invocation found under its key, where it looked. -/
def Hit (lib : Lib) (tr : Trace BrokerSig) (stored : Json) : Prop :=
  ∃ name value, tr.find? (·.op.isAsk) = some ⟨.redis (.get name), .ok (some value)⟩ ∧
    IdempotencyStore.isPending value = false ∧ Json.loads lib.floatRepr value = some stored

/-- It found nothing, or `null`, which counts as nothing. -/
def Missed (lib : Lib) (tr : Trace BrokerSig) : Prop := ∀ stored, Hit lib tr stored → stored = .null

/-- `_execute_call` succeeds along the trace, and `settle` hands this to `complete`. -/
def Handed (lib : Lib) (svc : Services) (lossy : Bool) (req : InvokeRequest)
    (tr : Trace BrokerSig) (value : Json) : Prop :=
  req.idempotencyKey.isSome = true ∧ svc.idempotencyStore.isSome = true ∧
    ∃ grant tokenHash tool start pre mid o,
      (broker lib svc lossy).Runs (executeCall lib svc req grant tokenHash tool start) pre mid
        (.ok o) ∧ mid <+: tr ∧ o.status = .success ∧ value = storedResult o.result

theorem Known.append {s : Str} (known : Known s tr) (ext : Trace BrokerSig) :
    Known s (tr ++ ext) := by
  obtain ⟨e, member, learns⟩ := known
  exact ⟨e, List.mem_append_left _ member, learns⟩

@[simp] theorem bodies_append : bodies (tr ++ ext) = bodies tr ++ bodies ext :=
  List.filterMap_append ..

/-- The bodies are what the calls have returned. -/
theorem mem_bodies {body : Json} : body ∈ bodies tr ↔ ∃ tool accessToken arguments,
    ⟨.toolCall tool accessToken arguments, .ok body⟩ ∈ tr := by
  unfold bodies
  rw [List.mem_filterMap]
  constructor
  · intro ⟨e, member, here⟩
    split at here
    · cases here
      exact ⟨_, _, _, member⟩
    · cases here
  · intro ⟨tool, accessToken, arguments, member⟩
    exact ⟨_, member, rfl⟩

/-- Without a call there is no body. -/
theorem bodies_of_noCall (none : ∀ e ∈ tr, e.op.isToolCall = false) : bodies tr = [] := by
  refine List.eq_nil_iff_forall_not_mem.mpr fun body member => ?_
  obtain ⟨tool, accessToken, arguments, called⟩ := mem_bodies.mp member
  cases none _ called

theorem bodies_append_noCall (none : ∀ e ∈ ext, e.op.isToolCall = false) :
    bodies (tr ++ ext) = bodies tr := by
  rw [bodies_append, bodies_of_noCall none, List.append_nil]

theorem bodies_snoc {e : Event BrokerSig} (none : e.op.isToolCall = false) :
    bodies (tr ++ [e]) = bodies tr := bodies_append_noCall (by simpa using none)

theorem Op.isToolCall_of_handles {e : Op} (h : e.handles = false) : e.isToolCall = false := by
  cases e <;> first | rfl | cases h

theorem Op.isToolCall_of_isRefresh {e : Op} (h : e.isRefresh = true) : e.isToolCall = false := by
  cases e <;> first | rfl | cases h

theorem Op.isAsk_of_isExecute {e : Op} (h : e.isExecute = true) : e.isAsk = false := by
  cases e with
  | redis cmd => cases cmd <;> first | rfl | cases h
  | _ => rfl

/-! ## The look at the key -/

section Look

theorem find_asked {e : Event BrokerSig} (found : tr.find? (·.op.isAsk) = some e) :
    (tr ++ ext).find? (·.op.isAsk) = some e := by
  rw [List.find?_append, found]
  rfl

theorem find_unasked (none : ∀ e ∈ ext, e.op.isAsk = false) :
    (tr ++ ext).find? (·.op.isAsk) = tr.find? (·.op.isAsk) := by
  have unfound : ext.find? (·.op.isAsk) = .none := by simpa using none
  rw [List.find?_append, unfound, Option.or_none]

theorem Hit.append {stored : Json} (hit : Hit lib tr stored) : Hit lib (tr ++ ext) stored := by
  obtain ⟨name, value, found, complete, parsed⟩ := hit
  exact ⟨name, value, find_asked found, complete, parsed⟩

/-- There is one look, and one thing that it finds. -/
theorem Hit.unique {stored stored' : Json} (hit : Hit lib tr stored) (hit' : Hit lib tr stored') :
    stored = stored' := by
  obtain ⟨name, value, found, -, parsed⟩ := hit
  obtain ⟨name', value', found', -, parsed'⟩ := hit'
  rw [found] at found'
  cases found'
  exact Option.some.inj (parsed.symm.trans parsed')

/-- An invocation that has not looked has found nothing. -/
theorem missed_of_unasked (none : ∀ e ∈ tr, e.op.isAsk = false) : Missed lib tr := by
  intro stored ⟨name, value, found, _⟩
  have asks := List.find?_some found
  rw [none _ (List.mem_of_find?_eq_some found)] at asks
  cases asks

theorem Missed.append_unasked (missed : Missed lib tr) (none : ∀ e ∈ ext, e.op.isAsk = false) :
    Missed lib (tr ++ ext) := by
  intro stored ⟨name, value, found, rest⟩
  rw [find_unasked none] at found
  exact missed stored ⟨name, value, found, rest⟩

/-- Once the invocation has looked, that is settled. -/
theorem Missed.append_asked {e : Event BrokerSig} (missed : Missed lib tr)
    (asked : tr.find? (·.op.isAsk) = some e) : Missed lib (tr ++ ext) := by
  intro stored ⟨name, value, found, rest⟩
  rw [find_asked asked] at found
  exact missed stored ⟨name, value, asked.trans found, rest⟩

end Look

/-! ## Refusals -/

/-- The outcome carries nothing but a scrubbed message, and no secret came up after that. -/
structure Refused (tr : Trace BrokerSig) (o : InvokeOutcome) : Prop where
  status : o.status ≠ .success
  result : o.result = .null
  error : ∃ message order before after, tr = before ++ ⟨.secretRegistry, .ok order⟩ :: after ∧
    (∀ e ∈ after, e.op.handles = false) ∧ o.error = some (scrubWith message order)

/-- The outcome carries a result and no message. -/
def Given (o : InvokeOutcome) : Prop := o.status = .success ∧ o.error = none

theorem Refused.append {o : InvokeOutcome} (refused : Refused tr o)
    (quiet : ∀ e ∈ ext, e.op.handles = false) : Refused (tr ++ ext) o := by
  obtain ⟨status, result, message, order, before, after, rfl, silent, error⟩ := refused
  exact ⟨status, result, message, order, before, after ++ ext, List.append_assoc ..,
    List.forall_mem_append.mpr ⟨silent, quiet⟩, error⟩

/-- A provider call carries an access token that is known. -/
def sentGuard (tr : Trace BrokerSig) : Op → Prop
  | .toolCall _ accessToken _ => Known accessToken tr
  | _ => True

abbrev sentRole : Role BrokerSig := .guarding sentGuard

theorem sentGuard_of_noCall (tr : Trace BrokerSig) (e : Op) (none : e.isToolCall = false) :
    sentGuard tr e := by
  cases e with
  | toolCall => cases none
  | _ => trivial

section Steps

/-- A step that makes no call, of which only the operations matter. -/
theorem wp_noCall {α : Type} {p : BrokerProg α} {c : Op → Bool} {Q : Post BrokerSig α}
    (uses : Within p c) (none : ∀ {e : Op}, c e = true → e.isToolCall = false)
    (post : ∀ r ext, (∀ e ∈ ext, c e.op = true) → Q r (tr ++ ext)) :
    wp (broker lib svc lossy) sentRole p Q tr :=
  wp_of_uses uses (fun tr e is => sentGuard_of_noCall tr e (none is)) post

theorem wp_refused_shown {status : Status} {message : Str} {reason : Option DeniedReason}
    {Q : Post BrokerSig InvokeOutcome} (bad : status ≠ .success)
    (post : ∀ o secrets now, Refused (tr ++ refusal secrets now) o →
      Q (.ok o) (tr ++ refusal secrets now)) :
    wp (broker lib svc lossy) sentRole (refused start status message reason) Q tr := by
  refine ⟨trivial, fun a may _ => ?_⟩
  obtain ⟨secrets, rfl⟩ := may_sync rfl may
  refine ⟨trivial, fun a may _ => ?_⟩
  obtain ⟨now, rfl⟩ := may_sync rfl may
  show Q _ _
  rw [List.append_assoc]
  refine post _ secrets now ⟨bad, rfl, message, secrets, tr, [⟨.clock, .ok now⟩], rfl, ?_, rfl⟩
  simp [Op.handles]

/-- How a step of `_execute_call` may end: with a value, of which `K` holds, or early
with a refusal. -/
def stepPost {α : Type} (K : α → Trace BrokerSig → Prop) :
    Post BrokerSig (Except InvokeOutcome α) :=
  fun r tr => (∀ a, r = .ok (.ok a) → K a tr) ∧ ∀ o, r = .ok (.error o) → Refused tr o

variable {α : Type} {K : α → Trace BrokerSig → Prop}

theorem stepPost_ok {a : α} (holds : K a tr) : stepPost K (.ok (.ok a)) tr := by
  refine ⟨fun a' same => ?_, fun o same => ?_⟩
  · cases same
    exact holds
  · cases same

theorem stepPost_early {o : InvokeOutcome} (refused : Refused tr o) :
    stepPost K (.ok (.error o)) tr := by
  refine ⟨fun a same => ?_, fun o' same => ?_⟩
  · cases same
  · cases same
    exact refused

theorem stepPost_error (x : PyExn) : stepPost K (.error x) tr := by
  refine ⟨fun a same => ?_, fun o same => ?_⟩
  · cases same
  · cases same

theorem wp_failed_early (message : Str) :
    wp (broker lib svc lossy) sentRole
      (.error <$> failed start message : BrokerProg (Except InvokeOutcome α)) (stepPost K) tr := by
  show wp _ _ (refused start .failed message none >>= fun o =>
    (Prog.ret (Except.error o) : BrokerProg (Except InvokeOutcome α))) _ _
  rw [wp_bind]
  apply wp_refused_shown (by simp)
  intro o secrets now refused
  exact stepPost_early refused

/-! ## Credentials -/

/-- A refreshed access token is known: it was encrypted before it was returned. -/
theorem wp_persistRefreshed_known (refreshed : TokenResponse) :
    wp (broker lib svc lossy) sentRole (persistRefreshed refreshed)
      (fun r tr' => ∀ s, r = .ok s → Known s tr') tr := by
  refine wp_returns (persistRefreshed_returns refreshed) ⟨trivial, fun a _ _ => ?_⟩
  refine wp_noCall ((persistRefreshed_uses refreshed).2 a) Op.isToolCall_of_isRefresh ?_
  intro r ext _ value s same
  rw [value s same]
  exact Known.append ⟨⟨.encrypt (.str refreshed.accessToken), a⟩,
    List.mem_append_right _ List.mem_cons_self, List.mem_cons_self⟩ ext

/-- The token of a refresh is one that the endpoint has returned. -/
theorem wp_refreshCredential_known :
    wp (broker lib svc lossy) sentRole (refreshCredential lib svc account)
      (fun r tr' => ∀ s, r = .ok s → Known s tr') tr := by
  have raised : ∀ (x : PyExn) (tr' : Trace BrokerSig) (s : Str),
      (.error x : Except PyExn Str) = .ok s → Known s tr' := by
    intro x tr' s same
    cases same
  unfold refreshCredential
  split
  · exact raised _ _
  · refine ⟨trivial, fun a _ _ => ?_⟩
    cases a with
    | error x => exact raised x _
    | ok refreshToken =>
      show wp _ _ (refreshAccessToken lib svc.settings refreshToken >>= _) _ _
      rw [wp_bind]
      refine ⟨trivial, fun a _ _ => ?_⟩
      cases a with
      | error x => exact raised x _
      | ok response =>
        refine wp_noCall (parseTokenResponse_uses response) ?_ fun r ext _ => ?_
        · intro e is
          exact Op.isToolCall_of_isRefresh (Op.isRefresh_of_isRegister is)
        · cases r with
          | error x => exact raised x _
          | ok refreshed => exact wp_persistRefreshed_known refreshed

theorem wp_refreshOrOutcome_known :
    wp (broker lib svc lossy) sentRole (refreshOrOutcome lib svc account start) (stepPost Known)
      tr := by
  unfold refreshOrOutcome
  rw [wp_bind, wp_attempt]
  refine wp_mono wp_refreshCredential_known fun r tr' _ known => ?_
  rw [Post.next_ok]
  split
  · exact stepPost_ok (known _ rfl)
  · exact wp_failed_early _
  · exact wp_failed_early _
  · exact wp_failed_early _
  · split
    · exact wp_failed_early _
    · exact stepPost_error _

theorem wp_refreshIfStale_known :
    wp (broker lib svc lossy) sentRole (refreshIfStale lib svc account start)
      (stepPost fun found tr' => ∀ s, found = some s → Known s tr') tr := by
  have kept : ∀ tr' : Trace BrokerSig, stepPost (fun (found : Option Str) tr' =>
      ∀ s, found = some s → Known s tr') (.ok (.ok none)) tr' := by
    intro tr'
    apply stepPost_ok
    intro s same
    cases same
  unfold refreshIfStale
  split
  · exact kept tr
  · refine ⟨trivial, fun a may _ => ?_⟩
    obtain ⟨now, rfl⟩ := may_sync rfl may
    show wp _ _ (if _ then _ else _) _ _
    split
    · split
      · show wp _ _ (refreshOrOutcome lib svc account start >>= _) _ _
        rw [wp_bind]
        refine wp_mono wp_refreshOrOutcome_known fun r tr' _ ended => ?_
        rcases r with x | outcome | accessToken
        · rw [Post.next_error]
          exact stepPost_error x
        · rw [Post.next_ok]
          exact stepPost_early (ended.2 outcome rfl)
        · rw [Post.next_ok]
          refine stepPost_ok fun s same => ?_
          cases same
          exact ended.1 accessToken rfl
      · refine ⟨trivial, fun a may _ => ?_⟩
        obtain ⟨now', rfl⟩ := may_sync rfl may
        show wp _ _ (if _ then _ else _) _ _
        split
        · exact wp_failed_early _
        · exact kept _
    · exact kept _

/-- A decrypted token is known from there on. -/
theorem wp_decryptStored_known :
    wp (broker lib svc lossy) sentRole (decryptStored account start) (stepPost Known) tr := by
  unfold decryptStored
  rw [wp_bind, wp_attempt]
  refine ⟨trivial, fun a _ _ => ?_⟩
  show wp _ _ _ _ _
  rcases a with x | accessToken
  · cases x with
    | clientError | valueError => exact wp_failed_early _
    | _ => exact stepPost_error _
  · exact stepPost_ok ⟨_, List.mem_append_right _ List.mem_cons_self, List.mem_cons_self⟩

/-- So is the credential of a call, unless it was decrypted. -/
theorem wp_obtainCredential_known :
    wp (broker lib svc lossy) sentRole (obtainCredential lib svc account start)
      (stepPost fun found tr' => Known found.1 tr') tr := by
  unfold obtainCredential
  rw [wp_bind]
  refine wp_mono wp_refreshIfStale_known fun r tr' _ ended => ?_
  rcases r with x | outcome | _ | accessToken
  · exact stepPost_error x
  · exact stepPost_early (ended.2 outcome rfl)
  · show wp _ _ (decryptStored account start >>= _) _ _
    rw [wp_bind]
    refine wp_mono wp_decryptStored_known fun r tr'' _ ended' => ?_
    rcases r with x | outcome | accessToken
    · exact stepPost_error x
    · exact stepPost_early (ended'.2 outcome rfl)
    · exact stepPost_ok (ended'.1 accessToken rfl)
  · exact stepPost_ok (ended.1 (some accessToken) rfl accessToken rfl)

/-! ## The provider's documents -/

/-- The document that a call returned. -/
def told : Except PyExn Json → List Json
  | .ok body => [body]
  | .error _ => []

/-- A provider call returns the one document that the provider answered with. -/
theorem wp_callAttempts_told {accessToken provider : Str} {surface : Surface} {maxRetries : Int}
    {baseDelay : Time} {base : List Json} (attempts : List Nat) {tr : Trace BrokerSig}
    (known : Known accessToken tr) (before : bodies tr = base) :
    wp (broker lib svc lossy) sentRole
      (callAttempts (op (.toolCall tool accessToken req.arguments)) maxRetries baseDelay
        (some (circuitOf surface provider)) defaultRetryable (fun delay => op (.sleep delay))
        attempts) (fun r tr' => bodies tr' = base ++ told r) tr := by
  have raised : ∀ (x : PyExn) (tr' : Trace BrokerSig), bodies tr' = base →
      bodies tr' = base ++ told (.error x) := by
    intro x tr' same
    rw [same, told, List.append_nil]
  induction attempts generalizing tr with
  | nil => exact raised _ _ before
  | cons attempt attempts ih =>
    refine ⟨trivial, fun a may _ => ?_⟩
    obtain ⟨allowed, rfl⟩ := may_sync rfl may
    cases allowed with
    | false => exact raised _ _ ((bodies_snoc rfl).trans before)
    | true =>
      refine ⟨known.append _, fun a _ _ => ?_⟩
      cases a with
      | ok body =>
        refine ⟨trivial, fun a may _ => ?_⟩
        obtain ⟨⟨⟩, rfl⟩ := may_sync rfl may
        show bodies _ = base ++ [body]
        rw [bodies_snoc rfl, bodies_append, bodies_snoc rfl, before]
        rfl
      | error x =>
        have tried : bodies (tr ++ [⟨.circuitAllow surface provider, .ok true⟩] ++
            [⟨.toolCall tool accessToken req.arguments, .error x⟩]) = base := by
          rw [bodies_append, bodies_snoc rfl, before]
          exact List.append_nil base
        show wp _ _ (if _ then _ else _) _ _
        split
        · exact raised _ _ tried
        · split
          · exact raised _ _ tried
          · refine ⟨trivial, fun a may _ => ?_⟩
            obtain ⟨⟨⟩, rfl⟩ := may_sync rfl may
            have noted := (bodies_snoc (e := ⟨.circuitFailure surface provider, .ok ()⟩) rfl).trans
              tried
            show wp _ _ (if _ then _ else _) _ _
            split
            · exact raised _ _ noted
            · cases backoffDelay baseDelay attempt with
              | error overflow => exact raised _ _ noted
              | ok delay =>
                refine ⟨trivial, fun a may _ => ?_⟩
                have slept := (bodies_snoc (e := ⟨.sleep delay, a⟩) rfl).trans noted
                cases a with
                | error x => exact raised _ _ slept
                | ok _ => exact ih ((((known.append _).append _).append _).append _) slept

/-- A call tells its result or what it has raised. -/
theorem wp_callProvider_told {accessToken : Str} (known : Known accessToken tr) :
    wp (broker lib svc lossy) sentRole (callProvider svc req tool accessToken)
      (fun r tr' => bodies tr' = bodies tr ++ told r) tr := by
  refine ⟨trivial, fun a may _ => ?_⟩
  have created : ∀ a : BrokerSig.Ans (.circuitFor req.surface tool.provider
      svc.settings.circuitFailureThreshold svc.settings.circuitResetSeconds),
      bodies (tr ++ [⟨.circuitFor req.surface tool.provider svc.settings.circuitFailureThreshold
        svc.settings.circuitResetSeconds, a⟩]) = bodies tr := fun a => bodies_snoc rfl
  cases a with
  | error x => exact (created _).trans (List.append_nil _).symm
  | ok _ =>
    show wp _ _ (if _ then _ else _) _ _
    split
    · exact (created _).trans (List.append_nil _).symm
    · split
      · exact (created _).trans (List.append_nil _).symm
      · exact wp_callAttempts_told _ (known.append _) (created _)

/-- How `_execute_call` ends: with a refusal, or with the one document that the provider
has answered with since. -/
def calledPost (base : List Json) : Post BrokerSig InvokeOutcome := fun r tr =>
  (∀ o, r = .ok o → Refused tr o ∧ bodies tr = base ∨ Given o ∧ bodies tr = base ++ [o.result]) ∧
    ∀ x, r = .error x → bodies tr = base

variable {base : List Json}

theorem calledPost_refused {o : InvokeOutcome} (refused : Refused tr o) (none : bodies tr = base) :
    calledPost base (.ok o) tr := by
  refine ⟨fun o' same => ?_, fun x same => ?_⟩
  · cases same
    exact .inl ⟨refused, none⟩
  · cases same

theorem calledPost_error (x : PyExn) (none : bodies tr = base) : calledPost base (.error x) tr := by
  refine ⟨fun o same => ?_, fun y same => none⟩
  cases same

theorem wp_refused_called {status : Status} {message : Str} {reason : Option DeniedReason}
    (bad : status ≠ .success) (none : bodies tr = base) :
    wp (broker lib svc lossy) sentRole (refused start status message reason)
    (calledPost base) tr := by
  apply wp_refused_shown bad
  intro o secrets now refused
  refine calledPost_refused refused ((bodies_append_noCall ?_).trans none)
  simp [refusal, Op.isToolCall]

/-- A step of `_execute_call` before the provider is called, and what follows it. -/
theorem wp_step_called {p : BrokerProg (Except InvokeOutcome α)}
    {f : Except InvokeOutcome α → BrokerProg InvokeOutcome} {c : Op → Bool} (uses : Within p c)
    (noCall : ∀ {e : Op}, c e = true → e.isToolCall = false) (none : bodies tr = base)
    (step : wp (broker lib svc lossy) sentRole p (stepPost K) tr)
    (early : ∀ o, f (.error o) = .ret o)
    (tail : ∀ a tr', K a tr' → bodies tr' = base →
      wp (broker lib svc lossy) sentRole (f (.ok a)) (calledPost base) tr') :
    wp (broker lib svc lossy) sentRole (p >>= f) (calledPost base) tr := by
  rw [wp_bind]
  refine wp_uses uses (wp_mono step fun r tr' _ ended ext split inside => ?_)
  have still : bodies tr' = base := by
    rw [split, bodies_append_noCall fun e member => noCall (inside e member), none]
  rcases r with x | outcome | a
  · exact calledPost_error x still
  · rw [Post.next_ok, early]
    exact calledPost_refused (ended.2 outcome rfl) still
  · exact tail a tr' (ended.1 a rfl) still

/-- The gate before a round of the provider call. -/
theorem wp_gate_called {p : BrokerProg InvokeOutcome} {s : Str} (known : Known s tr)
    (none : bodies tr = base)
    (clear : ∀ tr', Known s tr' → bodies tr' = base →
      wp (broker lib svc lossy) sentRole p (calledPost base) tr') :
    wp (broker lib svc lossy) sentRole (isRevokedNow svc grant tokenHash >>= fun revoked =>
      if revoked then denied start "grant has been revoked" .revoked else p)
        (calledPost base) tr := by
  have checks : Within (isRevokedNow svc grant tokenHash) Op.isCheck := by
    refine .bind (.ite (fun _ => .bind (within_op rfl) fun _ => trivial) fun _ => trivial)
      fun marked => .ite (fun _ => trivial) fun _ => .bind (within_op rfl) fun found => ?_
    split <;> trivial
  rw [wp_bind]
  refine wp_noCall checks Op.isToolCall_of_isCheck fun r ext inside => ?_
  have still : bodies (tr ++ ext) = base :=
    (bodies_append_noCall fun e member => Op.isToolCall_of_isCheck (inside e member)).trans none
  cases r with
  | error x => exact calledPost_error x still
  | ok revoked =>
    show wp _ _ (if _ then _ else _) _ _
    split
    · exact wp_refused_called (by simp) still
    · exact clear _ (known.append ext) still

/-- A round returns the last body, or refuses. -/
theorem wp_providerRound_called {refreshed : Bool} {accessToken : Str}
    (next : refreshed = false → ∀ accessToken tr', Known accessToken tr' → bodies tr' = base →
      wp (broker lib svc lossy) sentRole
        (providerRounds lib svc req grant tokenHash account tool start true accessToken)
        (calledPost base)
        tr')
    (known : Known accessToken tr) (none : bodies tr = base) :
    wp (broker lib svc lossy) sentRole
      (providerRounds lib svc req grant tokenHash account tool start refreshed accessToken)
      (calledPost base) tr := by
  rw [providerRounds, wp_bind, wp_attempt]
  refine wp_mono (wp_callProvider_told known) fun r tr' _ gained => ?_
  rw [none] at gained
  have raised {x : PyExn} (gained : bodies tr' = base ++ told (.error x)) : bodies tr' = base := by
    rwa [told, List.append_nil] at gained
  rw [Post.next_ok]
  split
  · rename_i body
    refine ⟨trivial, fun a may _ => ?_⟩
    obtain ⟨now, rfl⟩ := may_sync rfl may
    refine ⟨fun o same => .inr ?_, fun x same => ?_⟩
    · cases same
      exact ⟨⟨rfl, rfl⟩, (bodies_snoc rfl).trans gained⟩
    · cases same
  · split
    · rename_i again
      refine wp_step_called refreshOrOutcome_uses Op.isToolCall_of_isRefresh (raised gained)
        wp_refreshOrOutcome_known (fun _ => rfl) ?_
      intro accessToken tr'' known' none'
      exact wp_gate_called known' none' (next again.2.1 accessToken)
    · exact wp_refused_called (by simp) (raised gained)
  · exact wp_refused_called (by simp) (raised gained)
  · exact wp_refused_called (by simp) (raised gained)
  · exact wp_refused_called (by simp) (raised gained)
  · exact wp_refused_called (by simp) (raised gained)
  · exact calledPost_error _ (raised gained)

/-- So does a call with its two rounds. -/
theorem wp_executeCall_called (none : bodies tr = base) :
    wp (broker lib svc lossy) sentRole (executeCall lib svc req grant tokenHash tool start)
      (calledPost base) tr := by
  refine ⟨trivial, fun a _ _ => ?_⟩
  have loaded : bodies (tr ++ [⟨.query (.accountById grant.connectedAccountId), a⟩]) = base :=
    (bodies_snoc rfl).trans none
  rcases a with x | _ | account
  · exact calledPost_error x loaded
  · exact wp_refused_called (by simp) loaded
  · refine wp_step_called obtainCredential_uses Op.isToolCall_of_isRefresh loaded
      wp_obtainCredential_known (fun _ => rfl) ?_
    intro found tr' known none'
    refine wp_gate_called known none' fun tr'' known' none'' => ?_
    refine wp_providerRound_called (fun _ accessToken tr₃ known₃ none₃ => ?_) known' none''
    exact wp_providerRound_called (by simp) known₃ none₃

end Steps

/-! ## The service -/

variable (lib svc lossy req) in
/-- What an outcome carries, and where it comes from. -/
inductive Shown (tr : Trace BrokerSig) (o : InvokeOutcome) : Prop
  | refused (refused : Refused tr o) (missed : Missed lib tr)
      (handed : ∀ body ∈ bodies tr, Handed lib svc lossy req tr (storedResult body))
  | performed (given : Given o) (body : bodies tr = [o.result]) (missed : Missed lib tr)
  | replayed (given : Given o) (none : bodies tr = []) (hit : Hit lib tr o.result)

variable (lib svc lossy req) in
/-- The postcondition of the steps around `_execute_call`. -/
def shownPost : Post BrokerSig InvokeOutcome := fun r tr =>
  (∀ o, r = .ok o → Shown lib svc lossy req tr o) ∧
    ∀ x, r = .error x → Missed lib tr ∧
      ∀ body ∈ bodies tr, Handed lib svc lossy req tr (storedResult body)

section Around

theorem shownPost_ok {o : InvokeOutcome} (shown : Shown lib svc lossy req tr o) :
    shownPost lib svc lossy req (.ok o) tr := by
  refine ⟨fun o' same => ?_, fun x same => ?_⟩
  · cases same
    exact shown
  · cases same

theorem shownPost_error (x : PyExn) (missed : Missed lib tr)
    (handed : ∀ body ∈ bodies tr, Handed lib svc lossy req tr (storedResult body)) :
    shownPost lib svc lossy req (.error x) tr := by
  refine ⟨fun o same => ?_, fun y same => ⟨missed, handed⟩⟩
  cases same

theorem Handed.append {value : Json} (handed : Handed lib svc lossy req tr value) :
    Handed lib svc lossy req (tr ++ ext) value := by
  obtain ⟨keyed, stored, grant, tokenHash, tool, start, pre, mid, o, runs, sub, rest⟩ := handed
  exact ⟨keyed, stored, grant, tokenHash, tool, start, pre, mid, o, runs,
    sub.trans (List.prefix_append _ _), rest⟩

/-- Later events that bring up nothing leave an outcome as it is. -/
theorem Shown.append {o : InvokeOutcome} (shown : Shown lib svc lossy req tr o)
    (quiet : ∀ e ∈ ext, e.op.handles = false) (none : ∀ e ∈ ext, e.op.isAsk = false) :
    Shown lib svc lossy req (tr ++ ext) o := by
  have same : bodies (tr ++ ext) = bodies tr :=
    bodies_append_noCall fun e member => Op.isToolCall_of_handles (quiet e member)
  cases shown with
  | refused refused missed handed =>
    refine .refused (refused.append quiet) (missed.append_unasked none) fun body member => ?_
    exact (handed body (same ▸ member)).append
  | performed given body missed =>
    exact .performed given (same.trans body) (missed.append_unasked none)
  | replayed given empty hit => exact .replayed given (same.trans empty) hit.append

theorem bodies_of_entry (inside : ∀ e ∈ tr, e.op.isEntry = true) : bodies tr = [] :=
  bodies_of_noCall fun e member => Op.isToolCall_of_isEntry (inside e member)

theorem missed_of_entry (inside : ∀ e ∈ tr, e.op.isEntry = true) : Missed lib tr :=
  missed_of_unasked fun e member => Op.isAsk_of_isEntry (inside e member)

theorem not_handed (none : bodies tr = []) :
    ∀ body ∈ bodies tr, Handed lib svc lossy req tr (storedResult body) := by
  intro body member
  rw [none] at member
  cases member

theorem shownPost_blank (x : PyExn) (none : bodies tr = []) (missed : Missed lib tr) :
    shownPost lib svc lossy req (.error x) tr := by
  exact shownPost_error x missed (not_handed none)

/-- A refusal is shown as one, where every body so far was handed on. -/
theorem Refused.shown {o : InvokeOutcome} {secrets : List Str} {now : Time}
    (refused : Refused (tr ++ refusal secrets now) o) (missed : Missed lib tr)
    (handed : ∀ body ∈ bodies tr, Handed lib svc lossy req tr (storedResult body)) :
    Shown lib svc lossy req (tr ++ refusal secrets now) o := by
  have same : bodies (tr ++ refusal secrets now) = bodies tr :=
    bodies_append_noCall (by simp [refusal, Op.isToolCall])
  refine .refused refused (missed.append_unasked (by simp [refusal, Op.isAsk])) ?_
  intro body member
  exact (handed body (same ▸ member)).append

theorem wp_refused_service {status : Status} {message : Str} {reason : Option DeniedReason}
    (bad : status ≠ .success) (missed : Missed lib tr)
    (handed : ∀ body ∈ bodies tr, Handed lib svc lossy req tr (storedResult body)) :
    wp (broker lib svc lossy) sentRole (refused start status message reason)
      (shownPost lib svc lossy req) tr := by
  apply wp_refused_shown bad
  intro o secrets now refused
  exact shownPost_ok (refused.shown missed handed)

/-- An invocation that is refused before its call shows a message of the service. -/
theorem wp_refused_blank {status : Status} {message : Str} {reason : Option DeniedReason}
    (bad : status ≠ .success) (none : bodies tr = []) (missed : Missed lib tr) :
    wp (broker lib svc lossy) sentRole (refused start status message reason)
      (shownPost lib svc lossy req) tr := wp_refused_service bad missed (not_handed none)

/-- The call without a key. -/
theorem wp_executeCall_shown (none : bodies tr = []) (missed : Missed lib tr) :
    wp (broker lib svc lossy) sentRole (executeCall lib svc req grant tokenHash tool start)
      (shownPost lib svc lossy req) tr := by
  refine wp_uses executeCall_uses (wp_mono (wp_executeCall_called none) ?_)
  intro r tr' _ called ext split inside
  have missed' : Missed lib tr' := by
    rw [split]
    exact missed.append_unasked fun e member => Op.isAsk_of_isExecute (inside e member)
  cases r with
  | error x => exact shownPost_blank x (called.2 x rfl) missed'
  | ok o =>
    rcases called.1 o rfl with ⟨refused, none'⟩ | ⟨given, body⟩
    · exact shownPost_ok (.refused refused missed' (not_handed none'))
    · exact shownPost_ok (.performed given body missed')

theorem release_redis {key : Str} {owner : Option Str} :
    Within (IdempotencyStore.release key owner) Op.isRedis := by
  refine .bind (within_op rfl) fun value => ?_
  split
  · trivial
  · exact .ite (fun _ => trivial) fun _ => .ite (fun _ => trivial) fun _ =>
      .bind (within_op rfl) fun _ => trivial

theorem settle_redis {store : IdempotencyStore} {key owner : Str} {outcome : InvokeOutcome} :
    Within (settle store key owner outcome) Op.isRedis := by
  refine .ite (fun _ => .bind (within_op rfl) fun value => ?_) fun _ => release_redis
  exact .ite (fun _ => trivial) fun _ => .bind (within_op rfl) fun _ => trivial

theorem Op.handles_of_isRedis {e : Op} (h : e.isRedis = true) : e.handles = false := by
  cases e <;> first | rfl | cases h

/-- The call under a reservation: what settles it looks no further. -/
theorem wp_executeReserved_shown {store : IdempotencyStore} {key owner : Str} {e : Event BrokerSig}
    (keyed : req.idempotencyKey.isSome = true) (stored : svc.idempotencyStore.isSome = true)
    (none : bodies tr = []) (missed : Missed lib tr) (asked : tr.find? (·.op.isAsk) = some e) :
    wp (broker lib svc lossy) sentRole
      (executeReserved lib svc req grant tokenHash tool start store key owner)
      (shownPost lib svc lossy req) tr := by
  unfold executeReserved
  rw [wp_bind, wp_attempt]
  have running : wp (broker lib svc lossy) freeRole
      (executeCall lib svc req grant tokenHash tool start) (fun r mid => (broker lib svc lossy).Runs
        (executeCall lib svc req grant tokenHash tool start) tr mid r) tr :=
    wp_runs (fun _ _ => trivial) _ tr
  refine wp_mono (wp_conj (wp_executeCall_called none) running fun _ _ _ => trivial) ?_
  intro r mid grown ⟨called, runs⟩
  obtain ⟨more, rfl⟩ := grown
  have settled {ext : Trace BrokerSig} (inside : ∀ e ∈ ext, e.op.isRedis = true) :
      Missed lib (tr ++ more ++ ext) ∧ bodies (tr ++ more ++ ext) = bodies (tr ++ more) := by
    refine ⟨?_, bodies_append_noCall fun e member => Op.isToolCall_of_isRedis (inside e member)⟩
    rw [List.append_assoc]
    exact missed.append_asked asked
  rw [Post.next_ok]
  cases r with
  | error x =>
    have none' := called.2 x rfl
    show wp _ _ (if _ then _ else _) _ _
    split
    · rw [wp_bind]
      refine wp_noCall release_redis Op.isToolCall_of_isRedis fun r ext inside => ?_
      obtain ⟨missed', same⟩ := settled inside
      cases r with
      | error y => exact shownPost_blank y (same.trans none') missed'
      | ok _ => exact shownPost_blank x (same.trans none') missed'
    · exact shownPost_blank x none' (missed.append_asked asked)
  | ok o =>
    show wp _ _ (settle store key owner o >>= fun _ => .ret o) _ _
    rw [wp_bind]
    refine wp_noCall settle_redis Op.isToolCall_of_isRedis fun r ext inside => ?_
    obtain ⟨missed', same⟩ := settled inside
    have quiet : ∀ e ∈ ext, e.op.handles = false := fun e member =>
      Op.handles_of_isRedis (inside e member)
    rcases called.1 o rfl with ⟨refused, none'⟩ | ⟨given, body⟩
    · have none' := same.trans none'
      cases r with
      | error x => exact shownPost_blank x none' missed'
      | ok _ =>
        exact shownPost_ok (.refused (refused.append quiet) missed' (not_handed none'))
    · cases r with
      | ok _ => exact shownPost_ok (.performed given (same.trans body) missed')
      | error x =>
        refine shownPost_error x missed' fun document member => ?_
        rw [same, body, List.nil_append, List.mem_singleton] at member
        rw [member]
        exact ⟨keyed, stored, grant, tokenHash, tool, start, tr, tr ++ more, o, runs,
          List.prefix_append _ _, given.1, rfl⟩

/-- How step 6 ends: with a reservation, after a look that found nothing, or with an outcome. -/
def claimShown (lib : Lib) (svc : Services) (lossy : Bool) (req : InvokeRequest) :
    Post BrokerSig (Except InvokeOutcome Str) := fun r tr =>
  (∀ owner, r = .ok (.ok owner) → bodies tr = [] ∧ Missed lib tr ∧
      ∃ e, tr.find? (·.op.isAsk) = some e) ∧
    (∀ o, r = .ok (.error o) → Shown lib svc lossy req tr o) ∧
    ∀ x, r = .error x → bodies tr = [] ∧ Missed lib tr

theorem claimShown_error (x : PyExn) (none : bodies tr = []) (missed : Missed lib tr) :
    claimShown lib svc lossy req (.error x) tr := by
  refine ⟨fun owner same => ?_, fun o same => ?_, fun y same => ⟨none, missed⟩⟩ <;> cases same

theorem claimShown_early {o : InvokeOutcome} (shown : Shown lib svc lossy req tr o) :
    claimShown lib svc lossy req (.ok (.error o)) tr := by
  refine ⟨fun owner same => ?_, fun o' same => ?_, fun x same => ?_⟩
  · cases same
  · cases same
    exact shown
  · cases same

/-- A conflict shows no result. -/
theorem wp_conflict_shown (none : bodies tr = []) (missed : Missed lib tr) :
    wp (broker lib svc lossy) sentRole
      (.error <$> conflict start : BrokerProg (Except InvokeOutcome Str))
      (claimShown lib svc lossy req) tr := by
  show wp _ _ (refused start .denied "concurrent call with same idempotency key"
    (some .idempotencyConflict) >>= fun o =>
      (Prog.ret (Except.error o) : BrokerProg (Except InvokeOutcome Str))) _ _
  rw [wp_bind]
  apply wp_refused_shown (by simp)
  intro o secrets now refused
  exact claimShown_early (refused.shown missed (not_handed none))

/-- The event of a look at a key. -/
abbrev looking (key : Str) (a : BrokerSig.Ans (.redis (.get (IdempotencyStore.name key)))) :
    Event BrokerSig := ⟨.redis (.get (IdempotencyStore.name key)), a⟩

theorem find_looking (unasked : ∀ e ∈ tr, e.op.isAsk = false) (key : Str)
    (a : BrokerSig.Ans (.redis (.get (IdempotencyStore.name key)))) :
    (tr ++ [looking key a]).find? (·.op.isAsk) = some (looking key a) := by
  have unfound : tr.find? (·.op.isAsk) = .none := by simpa using unasked
  rw [List.find?_append, unfound]
  rfl

/-- A look that finds no completed result, or one that is `null`. -/
theorem missed_looking (unasked : ∀ e ∈ tr, e.op.isAsk = false) {key : Str}
    {a : BrokerSig.Ans (.redis (.get (IdempotencyStore.name key)))}
    (misses : ∀ value stored, a = .ok (some value) → IdempotencyStore.isPending value = false →
      Json.loads lib.floatRepr value = some stored → stored = .null) :
    Missed lib (tr ++ [looking key a]) := by
  intro stored ⟨name, value, found, complete, parsed⟩
  rw [find_looking unasked] at found
  cases found
  exact misses value stored rfl complete parsed

/-- A reservation shows nothing yet. -/
theorem wp_reserve_shown {key : Str} {e : Event BrokerSig} (none : bodies tr = [])
    (missed : Missed lib tr) (asked : tr.find? (·.op.isAsk) = some e)
    {next : Option Str → BrokerProg (Except InvokeOutcome Str)}
    (lost : next .none = .error <$> conflict start)
    (won : ∀ reservation, next (some reservation) = return .ok reservation) :
    wp (broker lib svc lossy) sentRole (IdempotencyStore.reserve key >>= next)
      (claimShown lib svc lossy req) tr := by
  rw [wp_bind]
  refine ⟨trivial, fun a may _ => ?_⟩
  obtain ⟨owner, rfl⟩ := may_sync rfl may
  refine ⟨trivial, fun a _ _ => ?_⟩
  rw [List.append_assoc]
  have none' : bodies (tr ++ ([⟨.tokenHex, .ok owner⟩] ++ [⟨.redis (.set (IdempotencyStore.name key)
      (IdempotencyStore.pendingValue owner) true IdempotencyStore.reservationTtlSeconds), a⟩])) =
      [] :=
    (bodies_append_noCall (by simp [Op.isToolCall])).trans none
  rcases a with x | _ | _
  · exact claimShown_error x none' (missed.append_asked asked)
  · show wp _ _ (next .none) _ _
    rw [lost]
    exact wp_conflict_shown none' (missed.append_asked asked)
  · show wp _ _ (next (some owner)) _ _
    rw [won]
    refine ⟨fun owner' same => ⟨none', missed.append_asked asked, e, find_asked asked⟩, ?_, ?_⟩
    · intro o same
      cases same
    · intro x same
      cases same

/-- The look at the key is the first one, and what it finds decides. -/
theorem wp_claimKey_shown (req : InvokeRequest) {key : Str}
    (inside : ∀ e ∈ tr, e.op.isEntry = true) :
    wp (broker lib svc lossy) sentRole (claimKey lib start key) (claimShown lib svc lossy req)
      tr := by
  have unasked : ∀ e ∈ tr, e.op.isAsk = false :=
    fun e member => Op.isAsk_of_isEntry (inside e member)
  have blank : ∀ a, bodies (tr ++ [looking key a]) = [] := fun a =>
    (bodies_snoc rfl).trans (bodies_of_entry inside)
  unfold claimKey
  rw [wp_bind, wp_attempt]
  refine ⟨trivial, fun a _ _ => ?_⟩
  have asked := find_looking unasked key a
  rcases a with x | _ | value
  · have missed : Missed lib (tr ++ [looking key (.error x)]) := missed_looking unasked (by simp)
    cases x with
    | idempotencyConflictError msg => exact wp_conflict_shown (blank _) missed
    | _ => exact claimShown_error _ (blank _) missed
  · exact wp_reserve_shown (blank _) (missed_looking unasked (by simp)) asked rfl fun _ => rfl
  · show wp _ _ (if _ then _ else _) _ _
    split
    · rename_i pending
      refine wp_conflict_shown (blank _)
        (missed_looking unasked fun value' stored same complete => ?_)
      cases same
      rw [pending] at complete
      cases complete
    · rename_i complete
      split
      · rename_i result parsed
        have replaying : wp (broker lib svc lossy) sentRole
            (.error <$> succeeded start result true : BrokerProg (Except InvokeOutcome Str))
            (claimShown lib svc lossy req) (tr ++ [looking key (.ok (some value))]) := by
          refine ⟨trivial, fun a may _ => ?_⟩
          obtain ⟨now, rfl⟩ := may_sync rfl may
          refine claimShown_early (.replayed ⟨rfl, rfl⟩ ?_ (Hit.append ?_))
          · exact (bodies_snoc rfl).trans (blank _)
          · exact ⟨_, value, asked, by simpa using complete, parsed⟩
        cases result with
        | null =>
          refine wp_reserve_shown (blank _) (missed_looking unasked ?_) asked rfl fun _ => rfl
          intro value' stored same _ parsed'
          cases same
          exact Option.some.inj (parsed'.symm.trans parsed)
        | _ => exact replaying
      · rename_i malformed
        refine claimShown_error _ (blank _)
          (missed_looking unasked fun value' stored same _ parsed => ?_)
        cases same
        rw [malformed] at parsed
        cases parsed

/-- The head of a sequence, before the store is asked, adds operations of the entry. -/
theorem wp_entry_shown {α : Type} {p : BrokerProg α} {f : α → BrokerProg InvokeOutcome}
    (uses : Within p Op.isEntry) (inside : ∀ e ∈ tr, e.op.isEntry = true)
    (tail : ∀ a tr', (∀ e ∈ tr', e.op.isEntry = true) →
      wp (broker lib svc lossy) sentRole (f a) (shownPost lib svc lossy req) tr') :
    wp (broker lib svc lossy) sentRole (p >>= f) (shownPost lib svc lossy req) tr := by
  rw [wp_bind]
  refine wp_noCall uses Op.isToolCall_of_isEntry fun r ext entries => ?_
  have inside' := List.forall_mem_append.mpr ⟨inside, entries⟩
  cases r with
  | ok a => exact tail a _ inside'
  | error x => exact shownPost_blank x (bodies_of_entry inside') (missed_of_entry inside')

theorem wp_refused_entry {status : Status} {message : Str} {reason : Option DeniedReason}
    (bad : status ≠ .success) (inside : ∀ e ∈ tr, e.op.isEntry = true) :
    wp (broker lib svc lossy) sentRole (refused start status message reason)
      (shownPost lib svc lossy req) tr :=
  wp_refused_blank bad (bodies_of_entry inside) (missed_of_entry inside)

/-- What `_invoke_resolved` returns is the body of its call, a stored result or a message. -/
theorem wp_invokeResolved_shown {fastRevoked : Bool} (inside : ∀ e ∈ tr, e.op.isEntry = true) :
    wp (broker lib svc lossy) sentRole
      (invokeResolved lib svc req grant tokenHash start fastRevoked) (shownPost lib svc lossy req)
      tr := by
  unfold invokeResolved
  split
  · exact wp_refused_entry (by simp) inside
  · refine wp_entry_shown (within_op rfl) inside fun now tr₁ inside => ?_
    split
    · exact wp_refused_entry (by simp) inside
    · refine wp_entry_shown checkInvokeRate_entry inside fun allowed tr₂ inside => ?_
      split
      · exact wp_refused_entry (by simp) inside
      · split
        · exact wp_refused_entry (by simp) inside
        · exact shownPost_blank _ (bodies_of_entry inside) (missed_of_entry inside)
        · split
          · exact wp_refused_entry (by simp) inside
          · split
            · rename_i key store keyed stored
              rw [wp_bind]
              refine wp_mono (wp_claimKey_shown req inside) fun r tr' _ claimed => ?_
              rcases r with x | outcome | reservation
              · exact shownPost_blank x (claimed.2.2 x rfl).1 (claimed.2.2 x rfl).2
              · exact shownPost_ok (claimed.2.1 outcome rfl)
              · obtain ⟨none, missed, e, asked⟩ := claimed.1 reservation rfl
                exact wp_executeReserved_shown (by rw [keyed]; rfl) (by rw [stored]; rfl) none
                  missed asked
            · exact wp_executeCall_shown (bodies_of_entry inside) (missed_of_entry inside)

/-- The handler around it replaces an exception by a message of its own. -/
theorem wp_invokeAudited_shown {fastRevoked : Bool} (inside : ∀ e ∈ tr, e.op.isEntry = true) :
    wp (broker lib svc lossy) sentRole
      (invokeAudited lib svc req grant tokenHash start fastRevoked) (shownPost lib svc lossy req)
      tr := by
  unfold invokeAudited
  rw [wp_bind, wp_attempt]
  refine wp_mono (wp_invokeResolved_shown inside) fun r tr' _ post => ?_
  rw [Post.next_ok]
  cases r with
  | ok o => exact post
  | error x =>
    obtain ⟨missed, handed⟩ := post.2 x rfl
    show wp _ _ (if _ then _ else _) _ _
    split
    · refine ⟨trivial, fun a _ _ => ?_⟩
      have missed' : Missed lib (tr' ++ [⟨.rollback, a⟩]) :=
        missed.append_unasked (by simp [Op.isAsk])
      have same : bodies (tr' ++ [⟨.rollback, a⟩]) = bodies tr' :=
        bodies_snoc rfl
      have handed' : ∀ body ∈ bodies (tr' ++ [⟨.rollback, a⟩]),
          Handed lib svc lossy req (tr' ++ [⟨.rollback, a⟩]) (storedResult body) :=
        fun body member => (handed body (same ▸ member)).append
      cases a with
      | error y => exact shownPost_error y missed' handed'
      | ok _ => exact wp_refused_service (by simp) missed' handed'
    · exact shownPost_error x missed handed

variable (lib svc lossy req) in
/-- What is shown where an outcome is returned; what else happens is of no matter. -/
def returnedPost : Post BrokerSig InvokeOutcome := fun r tr =>
  ∀ o, r = .ok o → Shown lib svc lossy req tr o

theorem returnedPost_error (x : PyExn) : returnedPost lib svc lossy req (.error x) tr := by
  intro o same
  cases same

theorem returned_of_shownPost {r : Except PyExn InvokeOutcome}
    (post : shownPost lib svc lossy req r tr) : returnedPost lib svc lossy req r tr := post.1

theorem Op.handles_of_isRecord {e : Op} (h : e.isRecord = true) :
    e.handles = false ∧ e.isAsk = false ∧ e.isToolCall = false := by
  cases e <;> first | exact ⟨rfl, rfl, rfl⟩ | cases h

/-- The audit row changes nothing of what is shown. -/
theorem wp_invokeGranted_shown (inside : ∀ e ∈ tr, e.op.isEntry = true) :
    wp (broker lib svc lossy) sentRole (invokeGranted lib svc req start)
      (returnedPost lib svc lossy req) tr := by
  unfold invokeGranted
  rw [wp_bind]
  refine wp_noCall markedRevoked_entry Op.isToolCall_of_isEntry fun r ext entries => ?_
  cases r with
  | error x => exact returnedPost_error x
  | ok fastRevoked =>
    refine ⟨trivial, fun a _ _ => ?_⟩
    have inside' := List.forall_mem_append.mpr ⟨List.forall_mem_append.mpr ⟨inside, entries⟩,
      (show ∀ e ∈ ([⟨.query (.grantByTokenHash (hashToken lib req.grantToken)), a⟩] :
        Trace BrokerSig), e.op.isEntry = true by simp [Op.isEntry])⟩
    rcases a with x | _ | grant
    · exact returnedPost_error x
    · exact wp_mono (wp_refused_entry (by simp) inside') fun _ _ _ => returned_of_shownPost
    · show wp _ _
        (invokeAudited lib svc req grant (hashToken lib req.grantToken) start fastRevoked >>= _) _ _
      rw [wp_bind]
      refine wp_mono (wp_invokeAudited_shown inside') fun r tr'' _ post => ?_
      cases r with
      | error x => exact returnedPost_error x
      | ok outcome =>
        show wp _ _ (recordCall lib grant.id req.toolName req.arguments outcome.status
          outcome.latencyMs >>= _) _ _
        rw [wp_bind]
        have records : Within (recordCall lib grant.id req.toolName req.arguments outcome.status
            outcome.latencyMs) Op.isRecord := .bind (within_op rfl) fun _ => within_op rfl
        refine wp_noCall records (fun is => (Op.handles_of_isRecord is).2.2)
          fun r ext recorded => ?_
        cases r with
        | error x => exact returnedPost_error x
        | ok _ =>
          intro o same
          cases same
          exact (post.1 outcome rfl).append
            (fun e member => (Op.handles_of_isRecord (recorded e member)).1)
            fun e member => (Op.handles_of_isRecord (recorded e member)).2.1

variable (lib svc lossy req) in
/-- What `invoke` returns is shown along its trace. -/
theorem wp_invoke_shown :
    wp (broker lib svc lossy) sentRole (invoke lib svc req)
    (returnedPost lib svc lossy req) [] := by
  refine ⟨trivial, fun a may _ => ?_⟩
  obtain ⟨now, rfl⟩ := may_sync rfl may
  show wp _ _ ((verifyGrantToken lib svc req.grantToken).attempt >>= _) _ _
  rw [wp_bind, wp_attempt]
  refine wp_noCall verifyGrantToken_entry Op.isToolCall_of_isEntry fun r ext entries => ?_
  have inside : ∀ e ∈ [] ++ [⟨.clock, .ok now⟩] ++ ext, e.op.isEntry = true :=
    List.forall_mem_append.mpr ⟨by simp [Op.isEntry], entries⟩
  have refusing {message : Str} {reason : DeniedReason} :
      wp (broker lib svc lossy) sentRole (denied now message reason)
        (returnedPost lib svc lossy req) ([] ++ [⟨.clock, .ok now⟩] ++ ext) :=
    wp_mono (wp_refused_entry (by simp) inside) fun _ _ _ => returned_of_shownPost
  rw [Post.next_ok]
  split
  · exact refusing
  · exact refusing
  · exact returnedPost_error _
  · split
    · exact refusing
    · refine wp_withSession (fun _ => trivial) (wp_mono (wp_invokeGranted_shown inside) ?_)
      intro r tr' _ post closed _
      cases closed with
      | ok _ =>
        intro o same
        exact (post o same).append (by simp [Op.handles]) (by simp [Op.isAsk])
      | error x => exact returnedPost_error x

end Around

end CredBroker
