import CredBroker.Invocation.Facts

/-!
# The protocol of an invocation

`invokeGuard` is what an invocation has established before each of its
operations. The rules below follow the source function by function, from the
revocation check up to the provider rounds: each says which events a step adds,
and what they are worth to the steps after it.
-/

namespace CredBroker

open Python Interaction

variable (lib : Lib) (svc : Services) (req : InvokeRequest)

/-! ## The guard -/

/-- How an invocation uses Redis. -/
inductive RedisUse (tr : Trace BrokerSig) : Redis.Cmd → Prop
  | get (name : Str) : RedisUse tr (.get name)
  | existsKey (name : Str) : RedisUse tr (.existsKey name)
  | incr (key : Str) (window : Int) : RedisUse tr (.incr (RateLimiter.counterKey key window))
  | expire (key : Str) (window ttl : Int) :
      RedisUse tr (.expire (RateLimiter.counterKey key window) ttl)
  /-- A free key is reserved with a token just drawn. -/
  | reserve {grant : Grant} {key owner : Str} {store : IdempotencyStore} {pre : Trace BrokerSig}
      (found : looked lib req grant ∈ pre) (keyed : req.idempotencyKey = some key)
      (stored : svc.idempotencyStore = some store) (unheld : ∀ e ∈ pre, e.op.isReserve = false)
      (drawn : tr = pre ++ [⟨.tokenHex, .ok owner⟩]) :
      RedisUse tr (.set (IdempotencyStore.name (fullKey req grant key))
        (IdempotencyStore.pendingValue owner) true IdempotencyStore.reservationTtlSeconds)
  /-- A marker just seen to be our own becomes the provider's result. -/
  | complete {grant : Grant} {key owner : Str} {store : IdempotencyStore} {result : Json}
      {rest pre : Trace BrokerSig} (found : looked lib req grant ∈ pre)
      (keyed : req.idempotencyKey = some key) (stored : svc.idempotencyStore = some store)
      (held : Reserved (fullKey req grant key) owner pre) (unsettled : Unsettled pre)
      (sent : Sent req result rest pre)
      (own : tr = pre ++ [⟨.redis (.get (IdempotencyStore.name (fullKey req grant key))),
        .ok (some (IdempotencyStore.pendingValue owner))⟩]) :
      RedisUse tr (.set (IdempotencyStore.name (fullKey req grant key))
        (Json.dumps .default (storedResult result)) false store.windowSeconds)
  /-- A marker just seen to be our own is dropped, without a result. -/
  | release {grant : Grant} {key owner : Str} {pre : Trace BrokerSig}
      (found : looked lib req grant ∈ pre) (keyed : req.idempotencyKey = some key)
      (held : Reserved (fullKey req grant key) owner pre) (unsettled : Unsettled pre)
      (noResult : NoResult pre)
      (own : tr = pre ++ [⟨.redis (.get (IdempotencyStore.name (fullKey req grant key))),
        .ok (some (IdempotencyStore.pendingValue owner))⟩]) :
      RedisUse tr (.delete (IdempotencyStore.name (fullKey req grant key)))

/-- What a success may be reported on: a result of this invocation, or a stored one. -/
inductive Evidence (grant : Grant) (result : Json) (tr : Trace BrokerSig) : Prop
  | performed (rest : Trace BrokerSig) (sent : Sent req result rest tr)
  | replayed (key value : Str) (keyed : req.idempotencyKey = some key)
      (seen : ⟨.redis (.get (IdempotencyStore.name (fullKey req grant key))),
        .ok (some value)⟩ ∈ tr)
      (complete : IdempotencyStore.isPending value = false)
      (parsed : Json.loads lib.floatRepr value = some result) (tool : ToolAdapter)
      (tool_eq : getTool req.toolName = .ok tool)

/-- How an invocation uses `commit`: for a refreshed credential, or for its audit row. -/
inductive CommitUse (tr : Trace BrokerSig) : Prop
  | refresh (noAdd : NoAdd tr)
  | audit (grant : Grant) (outcome : InvokeOutcome) (pre : Trace BrokerSig)
      (found : looked lib req grant ∈ pre) (noAdd : NoAdd pre)
      (evidence : outcome.status = .success → Evidence lib req grant outcome.result pre)
      (added : tr = pre ++ [⟨.add (.audit ⟨grant.id, req.toolName,
        hashArguments lib req.arguments, outcome.status, outcome.latencyMs⟩), .ok ()⟩])

/-- What an invocation has established before an operation. -/
def invokeGuard (tr : Trace BrokerSig) : Op → Prop
  | .toolCall tool accessToken arguments =>
    arguments = req.arguments ∧ Unsettled tr ∧ NoResult tr ∧
      ∃ grant, Mediated lib svc req grant tool accessToken tr
  | .tokenEndpoint _ => ∃ grant tool, Admitted lib svc req grant tool tr
  | .redis cmd => RedisUse lib svc req tr cmd
  | .commit => CommitUse lib req tr
  | .add row => ∃ audit, row = .audit audit
  | .query (.grantByTokenHash _) => ∀ e ∈ tr, e.op.isLookup = false
  | .query (.revokedAt id) => ∃ grant, id = grant.id ∧ Live lib req grant tr
  | .setGrant _ => False
  | .flush => False
  | _ => True

abbrev invokeRole : Role BrokerSig := .guarding (invokeGuard lib svc req)

variable {lib svc req} {lossy : Bool} {grant : Grant} {account : ConnectedAccount}
  {tool : ToolAdapter} {start : Time} {tr : Trace BrokerSig}

/-! ## Outcomes -/

/-- The events of an outcome with a message: the message is scrubbed and the
clock read, and neither fails. -/
def refusal (secrets : List Str) (now : Time) : Trace BrokerSig :=
  [⟨.secretRegistry, .ok secrets⟩, ⟨.clock, .ok now⟩]

theorem wp_refused_for {status : Status} {error : Str} {reason : Option DeniedReason}
    {Q : Post BrokerSig InvokeOutcome}
    (post : ∀ o secrets now, o.status = status → o.deniedReason = reason →
      Q (.ok o) (tr ++ refusal secrets now)) :
    wp (broker lib svc lossy) (invokeRole lib svc req)
    (refused start status error reason) Q tr := by
  refine ⟨trivial, fun a may _ => ?_⟩
  obtain ⟨secrets, rfl⟩ := may_sync rfl may
  refine ⟨trivial, fun a may _ => ?_⟩
  obtain ⟨now, rfl⟩ := may_sync rfl may
  rw [List.append_assoc]
  exact post _ secrets now rfl rfl

/-- The same where only the status matters. -/
theorem wp_refused {status : Status} {error : Str} {reason : Option DeniedReason}
    {Q : Post BrokerSig InvokeOutcome}
    (post : ∀ o secrets now, o.status = status → Q (.ok o) (tr ++ refusal secrets now)) :
    wp (broker lib svc lossy) (invokeRole lib svc req) (refused start status error reason) Q tr :=
  wp_refused_for fun o secrets now ended _ => post o secrets now ended

/-- And where the outcome ends the invocation early. -/
theorem wp_refused_early {β : Type} {status : Status} {error : Str}
    {reason : Option DeniedReason} {Q : Post BrokerSig (Except InvokeOutcome β)}
    (post : ∀ o secrets now, o.status = status →
      Q (.ok (.error o)) (tr ++ refusal secrets now)) :
    wp (broker lib svc lossy) (invokeRole lib svc req)
      (.error <$> refused start status error reason) Q tr := by
  show wp _ _ (refused start status error reason >>= fun o =>
    (Prog.ret (Except.error o) : BrokerProg (Except InvokeOutcome β))) _ _
  rw [wp_bind]
  exact wp_refused post

theorem refusal_plain {secrets : List Str} {now : Time} :
    ∀ e ∈ refusal secrets now, e.op.isPlain = true := by
  simp [refusal, Op.isPlain]

/-- A success takes one more look at the clock, which does not fail. -/
theorem wp_succeeded {result : Json} {fromCache : Bool} {Q : Post BrokerSig InvokeOutcome}
    (post : ∀ o now, o.status = .success → o.result = result → o.fromCache = fromCache →
      Q (.ok o) (tr ++ [⟨.clock, .ok now⟩])) :
    wp (broker lib svc lossy) (invokeRole lib svc req) (succeeded start result fromCache) Q tr := by
  refine ⟨trivial, fun a may _ => ?_⟩
  obtain ⟨now, rfl⟩ := may_sync rfl may
  exact post _ now rfl rfl rfl

/-! ## The revocation check -/

theorem wp_markedRevoked {Q : Post BrokerSig Bool}
    (clear : Q (.ok false) (tr ++ unmarkedNow lib svc req))
    (marked : ∀ r ext, r ≠ .ok false → (∀ e ∈ ext, e.op.isCheck = true) → Q r (tr ++ ext)) :
    wp (broker lib svc lossy) (invokeRole lib svc req)
      (markedRevoked svc (hashToken lib req.grantToken)) Q tr := by
  unfold unmarkedNow at clear
  unfold markedRevoked
  split
  · rename_i on
    rw [if_pos on] at clear
    refine ⟨.existsKey _, fun a may _ => ?_⟩
    cases a with
    | error x => exact marked _ [_] (by simp) (by simp [Op.isCheck])
    | ok count =>
      cases count with
      | zero => exact clear
      | succ n => exact marked _ [_] (by simp) (by simp [Op.isCheck])
  · rename_i off
    rw [if_neg off] at clear
    simpa using clear

theorem wp_isRevokedNow {Q : Post BrokerSig Bool} (live : Live lib req grant tr)
    (clear : Q (.ok false) (tr ++ notRevokedNow lib svc req grant.id))
    (revoked : ∀ r ext, r ≠ .ok false → (∀ e ∈ ext, e.op.isCheck = true) → Q r (tr ++ ext)) :
    wp (broker lib svc lossy) (invokeRole lib svc req)
      (isRevokedNow svc grant (hashToken lib req.grantToken)) Q tr := by
  unfold isRevokedNow
  rw [wp_bind]
  refine wp_markedRevoked ?_ ?_
  · have checks : ∀ a : BrokerSig.Ans (.query (.revokedAt grant.id)),
        ∀ e ∈ unmarkedNow lib svc req ++ [⟨.query (.revokedAt grant.id), a⟩],
          e.op.isCheck = true := fun a =>
      List.forall_mem_append.mpr ⟨unmarkedNow_checks, by simp [Op.isCheck]⟩
    refine ⟨⟨grant, rfl, live.append _⟩, fun a may _ => ?_⟩
    rw [List.append_assoc]
    rcases a with x | _ | _ | time
    · exact revoked _ _ (by simp) (checks _)
    · exact revoked _ _ (by simp) (checks _)
    · exact clear
    · exact revoked _ _ (by simp) (checks _)
  · rintro (x | marked) ext stop checks
    · exact revoked _ ext (by simp) checks
    · cases marked with
      | false => exact (stop rfl).elim
      | true => exact revoked _ ext (by simp) checks

/-! ## Credentials -/

/-- The operations of a refresh are open to an admitted invocation. -/
theorem wp_refreshing {α : Type} {p : BrokerProg α} {R : α → Prop} {Q : Post BrokerSig α}
    (uses : Within p Op.isRefresh) (returns : p.Returns R)
    (running : Running lib svc req grant tool tr)
    (post : ∀ r ext, (∀ e ∈ ext, e.op.isRefresh = true) → (∀ a, r = .ok a → R a) →
      Q r (tr ++ ext)) :
    wp (broker lib svc lossy) (invokeRole lib svc req) p Q tr := by
  refine wp_returns returns (wp_invariant uses (fun tr e keep refresh => ?_)
    (fun tr e keep refresh => ?_) running fun r ext inside _ value => post r ext inside value)
  · exact keep.quiet (by simpa using Op.isQuiet_of_isRefresh refresh)
  · cases e with
    | commit => exact .refresh keep.unsettled.noAdd
    | tokenEndpoint form => exact ⟨_, _, keep.admitted⟩
    | clock | secretRegistry | registerSecret | decrypt | encrypt | setAccount => trivial
    | _ => cases refresh

theorem wp_refreshCredential {Q : Post BrokerSig Str}
    (running : Running lib svc req grant tool tr)
    (post : ∀ r ext, (∀ e ∈ ext, e.op.isRefresh = true) →
      (∀ accessToken, r = .ok accessToken → Obtained svc account accessToken ext) →
      Q r (tr ++ ext)) :
    wp (broker lib svc lossy) (invokeRole lib svc req)
    (refreshCredential lib svc account) Q tr := by
  unfold refreshCredential
  split
  · simpa using post _ [] (by simp) (by simp)
  · rename_i blob blob_eq
    refine ⟨trivial, fun a may _ => ?_⟩
    cases a with
    | error x => exact post _ _ (by simp [Op.isRefresh]) (by simp)
    | ok refreshToken =>
      refine ⟨⟨_, _, running.admitted.append _⟩, fun a may _ => ?_⟩
      rw [List.append_assoc]
      cases a with
      | error x => exact post _ _ (by simp [Op.isRefresh]) (by simp)
      | ok response =>
        have running' : Running lib svc req grant tool
            (tr ++ ([⟨.decrypt blob, .ok refreshToken⟩] ++
              [⟨.tokenEndpoint (refreshForm svc.settings refreshToken), .ok response⟩])) :=
          running.quiet (by simp [Op.isQuiet])
        show wp _ _ (parseTokenResponse lib response >>= persistRefreshed) _ _
        rw [wp_bind]
        refine wp_refreshing ((parseTokenResponse_uses response).mono Op.isRefresh_of_isRegister)
          (parseTokenResponse_returns response) running' fun r ext inside parsed => ?_
        rw [List.append_assoc]
        cases r with
        | error x =>
          refine post _ _ ?_ (by simp)
          simpa [or_imp, forall_and, Op.isRefresh] using inside
        | ok refreshed =>
          refine wp_refreshing (persistRefreshed_uses refreshed)
            (persistRefreshed_returns refreshed) (running.quiet ?_) fun r ext' inside' value => ?_
          · simpa [or_imp, forall_and, Op.isQuiet] using
              fun e member => Op.isQuiet_of_isRefresh (inside e member)
          · rw [List.append_assoc]
            refine post _ _ ?_ fun accessToken ended => ?_
            · simpa [or_imp, forall_and, Op.isRefresh] using ⟨inside, inside'⟩
            · obtain rfl := value accessToken ended
              exact .refreshed blob refreshToken response blob_eq (by simp) (by simp)
                (parsed refreshed rfl)

theorem wp_refreshOrOutcome {Q : Post BrokerSig (Except InvokeOutcome Str)}
    (running : Running lib svc req grant tool tr)
    (obtained : ∀ accessToken ext, (∀ e ∈ ext, e.op.isRefresh = true) →
      Obtained svc account accessToken ext → Q (.ok (.ok accessToken)) (tr ++ ext))
    (refused : ∀ o ext, (∀ e ∈ ext, e.op.isRefresh = true) → o.status = .failed →
      Q (.ok (.error o)) (tr ++ ext))
    (raised : ∀ x ext, (∀ e ∈ ext, e.op.isRefresh = true) → Q (.error x) (tr ++ ext)) :
    wp (broker lib svc lossy) (invokeRole lib svc req) (refreshOrOutcome lib svc account start)
      Q tr := by
  have failing : ∀ (ext : Trace BrokerSig) (msg : Str), (∀ e ∈ ext, e.op.isRefresh = true) →
      wp (broker lib svc lossy) (invokeRole lib svc req)
        (.error <$> failed start msg : BrokerProg (Except InvokeOutcome Str)) Q (tr ++ ext) := by
    intro ext msg inside
    refine wp_refused_early fun o secrets now status => ?_
    rw [List.append_assoc]
    exact refused o _ (List.forall_mem_append.mpr
      ⟨inside, fun e member => Op.isRefresh_of_isPlain (refusal_plain e member)⟩) status
  unfold refreshOrOutcome
  rw [wp_bind, wp_attempt]
  refine wp_refreshCredential running fun r ext inside value => ?_
  rw [Post.next_ok]
  split
  · exact obtained _ ext inside (value _ rfl)
  · exact failing ext _ inside
  · exact failing ext _ inside
  · exact failing ext _ inside
  · split
    · exact failing ext _ inside
    · exact raised _ ext inside

/-- Step 7 yields a refreshed token, a refusal, or nothing. -/
theorem wp_refreshIfStale {Q : Post BrokerSig (Except InvokeOutcome (Option Str))}
    (running : Running lib svc req grant tool tr)
    (obtained : ∀ accessToken ext, (∀ e ∈ ext, e.op.isRefresh = true) →
      Obtained svc account accessToken ext → Q (.ok (.ok (some accessToken))) (tr ++ ext))
    (kept : ∀ ext, (∀ e ∈ ext, e.op.isRefresh = true) → Q (.ok (.ok none)) (tr ++ ext))
    (refused : ∀ o ext, (∀ e ∈ ext, e.op.isRefresh = true) → o.status = .failed →
      Q (.ok (.error o)) (tr ++ ext))
    (raised : ∀ x ext, (∀ e ∈ ext, e.op.isRefresh = true) → Q (.error x) (tr ++ ext)) :
    wp (broker lib svc lossy) (invokeRole lib svc req) (refreshIfStale lib svc account start)
      Q tr := by
  unfold refreshIfStale
  split
  · simpa using kept [] (by simp)
  · refine ⟨trivial, fun a may _ => ?_⟩
    obtain ⟨now, rfl⟩ := may_sync rfl may
    have clock : ∀ (ext : Trace BrokerSig), (∀ e ∈ ext, e.op.isRefresh = true) →
        ∀ e ∈ [⟨.clock, .ok now⟩] ++ ext, e.op.isRefresh = true := fun ext inside =>
      List.forall_mem_append.mpr ⟨by simp [Op.isRefresh], inside⟩
    show wp _ _ (if _ then _ else _) _ _
    split
    · split
      · rw [wp_bind]
        refine wp_refreshOrOutcome (running.quiet (by simp [Op.isQuiet])) ?_ ?_ ?_
        · intro accessToken ext inside value
          rw [List.append_assoc]
          exact obtained _ _ (clock ext inside)
            (value.mono fun _ member => List.mem_append_right _ member)
        · intro o ext inside status
          rw [List.append_assoc]
          exact refused o _ (clock ext inside) status
        · intro x ext inside
          rw [List.append_assoc]
          exact raised x _ (clock ext inside)
      · refine ⟨trivial, fun a may _ => ?_⟩
        obtain ⟨later, rfl⟩ := may_sync rfl may
        rw [List.append_assoc]
        have clocks : ∀ e ∈ ([⟨.clock, .ok now⟩] ++ [⟨.clock, .ok later⟩] : Trace BrokerSig),
            e.op.isRefresh = true := by simp [Op.isRefresh]
        show wp _ _ (if _ then _ else _) _ _
        split
        · refine wp_refused_early fun o secrets now status => ?_
          rw [List.append_assoc]
          exact refused o _ (List.forall_mem_append.mpr
            ⟨clocks, fun e member => Op.isRefresh_of_isPlain (refusal_plain e member)⟩) status
        · exact kept _ clocks
    · exact kept _ (clock [] (by simp))

/-- Step 8 yields the stored token or a refusal. -/
theorem wp_decryptStored {Q : Post BrokerSig (Except InvokeOutcome Str)}
    (obtained : ∀ accessToken ext, (∀ e ∈ ext, e.op.isRefresh = true) →
      Obtained svc account accessToken ext → Q (.ok (.ok accessToken)) (tr ++ ext))
    (refused : ∀ o ext, (∀ e ∈ ext, e.op.isRefresh = true) → o.status = .failed →
      Q (.ok (.error o)) (tr ++ ext))
    (raised : ∀ x ext, (∀ e ∈ ext, e.op.isRefresh = true) → Q (.error x) (tr ++ ext)) :
    wp (broker lib svc lossy) (invokeRole lib svc req) (decryptStored account start) Q tr := by
  have failing : ∀ (x : PyExn) (msg : Str),
      wp (broker lib svc lossy) (invokeRole lib svc req)
        (.error <$> failed start msg : BrokerProg (Except InvokeOutcome Str)) Q
        (tr ++ [⟨.decrypt account.encryptedAccessToken, .error x⟩]) := by
    intro x msg
    refine wp_refused_early fun o secrets now status => ?_
    rw [List.append_assoc]
    exact refused o _ (List.forall_mem_append.mpr ⟨by simp [Op.isRefresh],
      fun e member => Op.isRefresh_of_isPlain (refusal_plain e member)⟩) status
  refine ⟨trivial, fun a may _ => ?_⟩
  cases a with
  | ok accessToken =>
    exact obtained _ _ (by simp [Op.isRefresh]) (.stored (List.mem_singleton.mpr rfl))
  | error x =>
    cases x with
    | clientError msg => exact failing _ _
    | valueError msg => exact failing _ _
    | _ => exact raised _ _ (by simp [Op.isRefresh])

theorem wp_obtainCredential {Q : Post BrokerSig (Except InvokeOutcome (Str × Bool))}
    (running : Running lib svc req grant tool tr)
    (obtained : ∀ accessToken refreshed ext, (∀ e ∈ ext, e.op.isRefresh = true) →
      Obtained svc account accessToken ext → Q (.ok (.ok (accessToken, refreshed))) (tr ++ ext))
    (refused : ∀ o ext, (∀ e ∈ ext, e.op.isRefresh = true) → o.status = .failed →
      Q (.ok (.error o)) (tr ++ ext))
    (raised : ∀ x ext, (∀ e ∈ ext, e.op.isRefresh = true) → Q (.error x) (tr ++ ext)) :
    wp (broker lib svc lossy) (invokeRole lib svc req) (obtainCredential lib svc account start)
      Q tr := by
  unfold obtainCredential
  rw [wp_bind]
  refine wp_refreshIfStale running (fun accessToken ext inside value => ?_)
    (fun ext inside => ?_) refused raised
  · exact obtained _ _ ext inside value
  · have both : ∀ ext' : Trace BrokerSig, (∀ e ∈ ext', e.op.isRefresh = true) →
        ∀ e ∈ ext ++ ext', e.op.isRefresh = true := fun ext' inside' =>
      List.forall_mem_append.mpr ⟨inside, inside'⟩
    rw [Post.next_ok, wp_bind]
    refine wp_decryptStored ?_ ?_ ?_
    · intro accessToken ext' inside' value
      rw [List.append_assoc]
      exact obtained _ _ _ (both ext' inside')
        (value.mono fun _ member => List.mem_append_right _ member)
    · intro o ext' inside' status
      rw [List.append_assoc]
      exact refused o _ (both ext' inside') status
    · intro x ext' inside'
      rw [List.append_assoc]
      exact raised x _ (both ext' inside')

/-! ## The provider call -/

/-- The attempts that are left. Each is mediated: the first by a fresh check, the
others as retries. -/
theorem wp_callAttempts {base : Trace BrokerSig} {accessToken provider : Str} {surface : Surface}
    {maxRetries : Int} {baseDelay : Time} {Q : Post BrokerSig Json}
    (returned : ∀ result tr', base <+: tr' →
      Sent req result [⟨.circuitSuccess surface provider, .ok ()⟩] tr' → Unsettled tr' →
      Q (.ok result) tr')
    (raised : ∀ x tr', base <+: tr' → Running lib svc req grant tool tr' → Q (.error x) tr')
    (attempts : List Nat) {tr : Trace BrokerSig} (grown : base <+: tr)
    (poised : Poised lib svc req grant tool accessToken tr)
    (recent : let admitted := tr ++ [⟨.circuitAllow surface provider, .ok true⟩]
      Fresh lib svc req grant.id admitted ∨ Retrying admitted) :
    wp (broker lib svc lossy) (invokeRole lib svc req)
      (callAttempts (op (.toolCall tool accessToken req.arguments)) maxRetries baseDelay
        (some (circuitOf surface provider)) defaultRetryable (fun delay => op (.sleep delay))
        attempts) Q tr := by
  induction attempts generalizing tr with
  | nil => exact raised _ _ grown poised.running
  | cons attempt attempts ih =>
    refine ⟨trivial, fun a may _ => ?_⟩
    obtain ⟨allowed, rfl⟩ := may_sync rfl may
    have grownBy : ∀ {tr' : Trace BrokerSig} (ext), base <+: tr' → base <+: tr' ++ ext :=
      fun ext h => h.trans (List.prefix_append _ ext)
    have asked : Poised lib svc req grant tool accessToken
        (tr ++ [⟨.circuitAllow surface provider, .ok allowed⟩]) :=
      poised.quiet (by simp [Op.isQuiet]) (by simp [Op.exposes])
    cases allowed with
    | false => exact raised _ _ (grownBy _ grown) asked.running
    | true =>
      refine ⟨⟨rfl, asked.running.unsettled, asked.running.noResult, grant,
        asked.mediated recent⟩, fun a may _ => ?_⟩
      cases a with
      | ok result =>
        refine ⟨trivial, fun a may _ => ?_⟩
        obtain ⟨⟨⟩, rfl⟩ := may_sync rfl may
        refine returned result _ (grownBy _ (grownBy _ (grownBy _ grown)))
          ⟨_, tool, accessToken, List.append_assoc _ _ _, asked.running.noResult,
            noResult_of_noCall (by simp [Op.isToolCall])⟩ ?_
        exact (asked.running.unsettled.append (by simp [Op.settles])).append (by simp [Op.settles])
      | error x =>
        have tried : Poised lib svc req grant tool accessToken
            (tr ++ [⟨.circuitAllow surface provider, .ok true⟩] ++
              [⟨.toolCall tool accessToken req.arguments, .error x⟩]) := asked.attempted
        have grown := grownBy [⟨.toolCall tool accessToken req.arguments, .error x⟩]
          (grownBy [⟨.circuitAllow surface provider, .ok true⟩] grown)
        show wp _ _ (if _ then _ else _) _ _
        split
        · exact raised _ _ grown tried.running
        · split
          · exact raised _ _ grown tried.running
          · rename_i retry
            refine ⟨trivial, fun a may _ => ?_⟩
            obtain ⟨⟨⟩, rfl⟩ := may_sync rfl may
            have noted : Poised lib svc req grant tool accessToken
                (tr ++ [⟨.circuitAllow surface provider, .ok true⟩] ++
                  [⟨.toolCall tool accessToken req.arguments, .error x⟩] ++
                  [⟨.circuitFailure surface provider, .ok ()⟩]) :=
              tried.quiet (by simp [Op.isQuiet]) (by simp [Op.exposes])
            show wp _ _ (if _ then _ else _) _ _
            split
            · exact raised _ _ (grownBy _ grown) noted.running
            · cases backoffDelay baseDelay attempt with
              | error overflow => exact raised _ _ (grownBy _ grown) noted.running
              | ok delay =>
                refine ⟨trivial, fun a may _ => ?_⟩
                have slept : Poised lib svc req grant tool accessToken
                    (tr ++ [⟨.circuitAllow surface provider, .ok true⟩] ++
                      [⟨.toolCall tool accessToken req.arguments, .error x⟩] ++
                      [⟨.circuitFailure surface provider, .ok ()⟩] ++ [⟨.sleep delay, a⟩]) :=
                  noted.quiet (by simp [Op.isQuiet]) (by simp [Op.exposes])
                have grown := grownBy [⟨.sleep delay, a⟩]
                  (grownBy [⟨.circuitFailure surface provider, .ok ()⟩] grown)
                cases a with
                | error x => exact raised _ _ grown slept.running
                | ok _ =>
                  refine ih grown slept (.inr ⟨tr ++ [⟨.circuitAllow surface provider, .ok true⟩],
                    tool, accessToken, req.arguments, x, surface, provider, delay, by simp,
                    by simpa using retry⟩)

/-- `_call_provider`, after a fresh check. -/
theorem wp_callProvider {base : Trace BrokerSig} {accessToken : Str} {Q : Post BrokerSig Json}
    (returned : ∀ result surface provider tr', base <+: tr' →
      Sent req result [⟨.circuitSuccess surface provider, .ok ()⟩] tr' → Unsettled tr' →
      Q (.ok result) tr')
    (raised : ∀ x tr', base <+: tr' → Running lib svc req grant tool tr' → Q (.error x) tr')
    (grown : base <+: tr) (poised : Poised lib svc req grant tool accessToken tr)
    (fresh : Fresh lib svc req grant.id tr) :
    wp (broker lib svc lossy) (invokeRole lib svc req) (callProvider svc req tool accessToken)
      Q tr := by
  refine ⟨trivial, fun a may _ => ?_⟩
  have named : Poised lib svc req grant tool accessToken (tr ++ [⟨.circuitFor req.surface
      tool.provider svc.settings.circuitFailureThreshold svc.settings.circuitResetSeconds, a⟩]) :=
    poised.quiet (by simp [Op.isQuiet]) (by simp [Op.exposes])
  have grown := grown.trans (List.prefix_append tr [⟨.circuitFor req.surface tool.provider
    svc.settings.circuitFailureThreshold svc.settings.circuitResetSeconds, a⟩])
  cases a with
  | error x => exact raised _ _ grown named.running
  | ok _ =>
    show wp _ _ (callWithRetries _ _ _ _ _ _) _ _
    unfold callWithRetries
    split
    · exact raised _ _ grown named.running
    · split
      · exact raised _ _ grown named.running
      · refine wp_callAttempts (fun result tr' => returned result _ _ tr') raised _ grown named
          (.inl ?_)
        exact (fresh.append (by simp [Op.isToolCall, Op.isSleep])).append
          (by simp [Op.isToolCall, Op.isSleep])

variable (req) in
/-- How `_execute_call` may end: with the provider's result, or without one. -/
inductive Executed (tr : Trace BrokerSig) : Except PyExn InvokeOutcome → Prop
  | performed {o : InvokeOutcome} (rest : Trace BrokerSig) (status : o.status = .success)
      (sent : Sent req o.result rest tr) (clean : AllOk rest) : Executed tr (.ok o)
  | refused {o : InvokeOutcome} (status : o.status ≠ .success) (noResult : NoResult tr) :
      Executed tr (.ok o)
  | raised {x : PyExn} (noResult : NoResult tr) : Executed tr (.error x)

variable (req) in
/-- The postcondition of the steps after `base` up to the end of `_execute_call`. -/
def executedPost (base : Trace BrokerSig) : Post BrokerSig InvokeOutcome :=
  fun r tr => base <+: tr ∧ Unsettled tr ∧ Executed req tr r

/-- A refusal that ends `_execute_call`. -/
theorem wp_executed_refused {base : Trace BrokerSig} {status : Status} {error : Str}
    {reason : Option DeniedReason} (grown : base <+: tr)
    (running : Running lib svc req grant tool tr) (bad : status ≠ .success) :
    wp (broker lib svc lossy) (invokeRole lib svc req) (refused start status error reason)
      (executedPost req base) tr := by
  refine wp_refused fun o secrets now ended => ?_
  have after : Running lib svc req grant tool (tr ++ refusal secrets now) :=
    running.quiet fun e member => Op.isQuiet_of_isPlain (refusal_plain e member)
  exact ⟨grown.trans (List.prefix_append _ _), after.unsettled,
    .refused (ended ▸ bad) after.noResult⟩

/-- A failed check of the revocation state, by an exception or for cause. -/
theorem Running.checks (running : Running lib svc req grant tool tr) {ext : Trace BrokerSig}
    (checks : ∀ e ∈ ext, e.op.isCheck = true) : Unsettled (tr ++ ext) ∧ NoResult (tr ++ ext) := by
  constructor
  · exact running.unsettled.append fun e member =>
      Op.settles_of_isCheck (checks e member)
  · exact running.noResult.append (noResult_of_noCall fun e member =>
      Op.isToolCall_of_isCheck (checks e member))

/-- The gate before a round: the round starts right after a clear check. -/
theorem wp_gate {base : Trace BrokerSig} {p : BrokerProg InvokeOutcome}
    (grown : base <+: tr) (running : Running lib svc req grant tool tr)
    (clear : wp (broker lib svc lossy) (invokeRole lib svc req) p (executedPost req base)
      (tr ++ notRevokedNow lib svc req grant.id)) :
    wp (broker lib svc lossy) (invokeRole lib svc req)
      (isRevokedNow svc grant (hashToken lib req.grantToken) >>= fun revoked =>
        if revoked then denied start "grant has been revoked" .revoked else p)
      (executedPost req base) tr := by
  rw [wp_bind]
  refine wp_isRevokedNow running.admitted.live clear fun r ext stop checks => ?_
  obtain ⟨unsettled, noResult⟩ := running.checks checks
  have grown := grown.trans (List.prefix_append tr ext)
  cases r with
  | error x => exact ⟨grown, unsettled, .raised noResult⟩
  | ok revoked =>
    obtain rfl : revoked = true := by simpa using stop
    refine wp_refused fun o secrets now ended => ⟨grown.trans (List.prefix_append _ _),
      unsettled.append fun e member => ?_, .refused (by simp [ended])
      (noResult.append (noResult_of_noCall fun e member => ?_))⟩
    · exact Op.settles_of_isQuiet (Op.isQuiet_of_isPlain (refusal_plain e member))
    · exact Op.isToolCall_of_isQuiet (Op.isQuiet_of_isPlain (refusal_plain e member))

/-- One round, and what is left to the next. -/
theorem wp_providerRound {base : Trace BrokerSig} {refreshed : Bool} {accessToken : Str}
    (next : refreshed = false → ∀ accessToken tr', base <+: tr' →
      Poised lib svc req grant tool accessToken tr' → Fresh lib svc req grant.id tr' →
      wp (broker lib svc lossy) (invokeRole lib svc req)
        (providerRounds lib svc req grant (hashToken lib req.grantToken) account tool start true
          accessToken) (executedPost req base) tr')
    (loaded : ⟨.query (.accountById grant.connectedAccountId), .ok (some account)⟩ ∈ base)
    (grown : base <+: tr) (poised : Poised lib svc req grant tool accessToken tr)
    (fresh : Fresh lib svc req grant.id tr) :
    wp (broker lib svc lossy) (invokeRole lib svc req)
      (providerRounds lib svc req grant (hashToken lib req.grantToken) account tool start refreshed
        accessToken) (executedPost req base) tr := by
  rw [providerRounds, wp_bind, wp_attempt]
  refine wp_callProvider ?_ ?_ grown poised fresh
  · rintro result surface provider tr' grown' ⟨pre, tool', accessToken', split, before, after⟩
      unsettled
    refine wp_succeeded fun o now status result_eq _ => ⟨grown'.trans (List.prefix_append _ _),
      unsettled.append (by simp [Op.settles]), .performed
        ([⟨.circuitSuccess surface provider, .ok ()⟩] ++ [⟨.clock, .ok now⟩]) status ?_ ?_⟩
    · subst result_eq
      exact ⟨pre, tool', accessToken', by simp [split], before,
        noResult_of_noCall (by simp [Op.isToolCall])⟩
    · simp [AllOk]
  · intro x tr' grown' running
    rw [Post.next_ok]
    split
    · -- the program has no value to return here
      rename_i h
      cases h
    · split
      · rename_i again
        show wp _ _ (refreshOrOutcome lib svc account start >>= _) _ _
        rw [wp_bind]
        have quiet : ∀ {ext : Trace BrokerSig}, (∀ e ∈ ext, e.op.isRefresh = true) →
            Running lib svc req grant tool (tr' ++ ext) := fun inside =>
          running.quiet fun e member => Op.isQuiet_of_isRefresh (inside e member)
        refine wp_refreshOrOutcome running ?_ ?_ ?_
        · intro accessToken ext inside obtained
          refine wp_gate (grown'.trans (List.prefix_append _ _)) (quiet inside)
            (next again.2.1 _ _ (grown'.trans ((List.prefix_append _ _).trans
              (List.prefix_append _ _))) ⟨(quiet inside).checked, ?_, gated_checked⟩ fresh_checked)
          exact ⟨account, List.mem_append_left _ (List.mem_append_left _ (grown'.subset loaded)),
            obtained.mono fun e member => List.mem_append_left _ (List.mem_append_right _ member)⟩
        · exact fun o ext inside status => ⟨grown'.trans (List.prefix_append _ _),
            (quiet inside).unsettled, .refused (by simp [status]) (quiet inside).noResult⟩
        · exact fun x ext inside => ⟨grown'.trans (List.prefix_append _ _),
            (quiet inside).unsettled, .raised (quiet inside).noResult⟩
      · exact wp_executed_refused grown' running (by simp)
    · exact wp_executed_refused grown' running (by simp)
    · exact wp_executed_refused grown' running (by simp)
    · exact wp_executed_refused grown' running (by simp)
    · exact wp_executed_refused grown' running (by simp)
    · exact ⟨grown', running.unsettled, .raised running.noResult⟩

/-- Step 10: two rounds at most. -/
theorem wp_providerRounds {base : Trace BrokerSig} {refreshed : Bool} {accessToken : Str}
    (loaded : ⟨.query (.accountById grant.connectedAccountId), .ok (some account)⟩ ∈ base)
    (grown : base <+: tr) (poised : Poised lib svc req grant tool accessToken tr)
    (fresh : Fresh lib svc req grant.id tr) :
    wp (broker lib svc lossy) (invokeRole lib svc req)
      (providerRounds lib svc req grant (hashToken lib req.grantToken) account tool start refreshed
        accessToken) (executedPost req base) tr :=
  wp_providerRound (fun _ accessToken tr' grown' poised' fresh' =>
    wp_providerRound (by simp) loaded grown' poised' fresh') loaded grown poised fresh

/-- `_execute_call`, admitted. -/
theorem wp_executeCall (running : Running lib svc req grant tool tr) :
    wp (broker lib svc lossy) (invokeRole lib svc req)
      (executeCall lib svc req grant (hashToken lib req.grantToken) tool start)
      (executedPost req tr) tr := by
  refine ⟨trivial, fun a may _ => ?_⟩
  have loading : Running lib svc req grant tool
      (tr ++ [⟨.query (.accountById grant.connectedAccountId), a⟩]) :=
    running.quiet (by simp [Op.isQuiet])
  have grown := List.prefix_append tr [⟨.query (.accountById grant.connectedAccountId), a⟩]
  rcases a with x | _ | account
  · exact ⟨grown, loading.unsettled, .raised loading.noResult⟩
  · exact wp_executed_refused grown loading (by simp)
  · show wp _ _ (obtainCredential lib svc account start >>= _) _ _
    rw [wp_bind]
    have loaded : ⟨.query (.accountById grant.connectedAccountId), .ok (some account)⟩ ∈
        tr ++ [⟨.query (.accountById grant.connectedAccountId), .ok (some account)⟩] :=
      List.mem_append_right _ (List.mem_singleton.mpr rfl)
    have quiet : ∀ {ext : Trace BrokerSig}, (∀ e ∈ ext, e.op.isRefresh = true) →
        Running lib svc req grant tool
          (tr ++ [⟨.query (.accountById grant.connectedAccountId), .ok (some account)⟩] ++ ext) :=
      fun inside => loading.quiet fun e member => Op.isQuiet_of_isRefresh (inside e member)
    refine wp_obtainCredential loading ?_ ?_ ?_
    · intro accessToken refreshed ext inside obtained
      refine wp_gate (grown.trans (List.prefix_append _ _)) (quiet inside) ?_
      refine wp_mono (wp_providerRounds loaded
        ((List.prefix_append _ _).trans (List.prefix_append _ _))
        ⟨(quiet inside).checked, ?_, gated_checked⟩ fresh_checked) ?_
      · exact ⟨account, List.mem_append_left _ (List.mem_append_left _ loaded),
          obtained.mono fun e member => List.mem_append_left _ (List.mem_append_right _ member)⟩
      · exact fun r tr' _ ended => ⟨grown.trans ended.1, ended.2⟩
    · exact fun o ext inside status => ⟨grown.trans (List.prefix_append _ _),
        (quiet inside).unsettled, .refused (by simp [status]) (quiet inside).noResult⟩
    · exact fun x ext inside => ⟨grown.trans (List.prefix_append _ _),
        (quiet inside).unsettled, .raised (quiet inside).noResult⟩

end CredBroker
