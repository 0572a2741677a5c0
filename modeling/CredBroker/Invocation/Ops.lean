import CredBroker.Broker
import CredBroker.Interaction.Abort

/-!
# The operations of an invocation

Which operations can fail, which ones each step of an invocation may perform,
and what its simplest steps return.
-/

namespace CredBroker

open Python Interaction

variable {lib : Lib} {svc : Services} {lossy : Bool} {req : InvokeRequest}

/-! ## Answers -/

/-- The role of a program that owes nothing. -/
abbrev freeRole : Role BrokerSig := .guarding fun _ _ => True

/-- The operations that are not awaited. -/
def Op.isSync : Op → Bool
  | .clock | .uuid4 | .tokenHex | .registerSecret _ | .secretRegistry | .add _ | .setAccount _
  | .setGrant _ | .circuitAllow .. | .circuitSuccess .. | .circuitFailure .. => true
  | _ => false

/-- What is not awaited does not raise. -/
theorem may_sync {tr : Trace BrokerSig} {e : Op} {a : BrokerSig.Ans e} (sync : e.isSync = true)
    (may : (broker lib svc lossy).May tr ⟨e, a⟩) : ∃ v, a = .ok v := by
  obtain ⟨w, permits⟩ := may
  change w.permits tr ⟨e, a⟩ = true at permits
  cases a with
  | ok v => exact ⟨v, rfl⟩
  | error x =>
    cases e with
    | clock | uuid4 | tokenHex | registerSecret | secretRegistry | add | setAccount | setGrant
    | circuitAllow | circuitSuccess | circuitFailure => simp [World.permits] at permits
    | _ => cases sync

/-- Only a cancellation reaches the closing of a session. -/
theorem may_close {tr : Trace BrokerSig} {x : PyExn}
    (may : (broker lib svc lossy).May tr ⟨.close, .error x⟩) : x.isException = false := by
  obtain ⟨w, permits⟩ := may
  change w.permits tr ⟨.close, .error x⟩ = true at permits
  simpa [World.permits] using permits

/-! ## Classes of operations -/

namespace Op

def isPlain : Op → Bool
  | .clock | .secretRegistry => true
  | _ => false

def isRegister : Op → Bool
  | .registerSecret _ => true
  | _ => false

/-- A revocation check. -/
def isCheck : Op → Bool
  | .redis (.existsKey _) | .query (.revokedAt _) => true
  | _ => false

/-- Plaintext of the account's credentials comes out of these. -/
def exposes : Op → Bool
  | .decrypt _ | .tokenEndpoint _ => true
  | _ => false

def isToolCall : Op → Bool
  | .toolCall .. => true
  | _ => false

def isSleep : Op → Bool
  | .sleep _ => true
  | _ => false

def isRedis : Op → Bool
  | .redis _ => true
  | _ => false

/-- A look at an idempotency key. -/
def isAsk : Op → Bool
  | .redis (.get _) => true
  | _ => false

/-- A reservation of an idempotency key. -/
def isReserve : Op → Bool
  | .redis (.set _ _ true _) => true
  | _ => false

def isAdd : Op → Bool
  | .add _ => true
  | _ => false

/-- A call that is under a reservation is settled by one of these, and then audited. -/
def settles : Op → Bool
  | .add _ | .redis (.set _ _ false _) | .redis (.delete _) => true
  | _ => false

/-- What is performed before the idempotency store is asked. -/
def isEntry : Op → Bool
  | .clock | .redis (.existsKey _) | .redis (.incr _) | .redis (.expire ..)
  | .query (.grantByTokenHash _) | .query (.revokedAt _) => true
  | _ => false

/-- The lookup of the presented token. -/
def isLookup : Op → Bool
  | .query (.grantByTokenHash _) => true
  | _ => false

/-- The operations of a credential refresh. -/
def isRefresh : Op → Bool
  | .clock | .secretRegistry | .registerSecret _ | .decrypt _ | .encrypt _ | .tokenEndpoint _
  | .setAccount _ | .commit => true
  | _ => false

/-- The operations of `_execute_call`. -/
def isExecute : Op → Bool
  | .query (.accountById _) | .query (.revokedAt _) | .redis (.existsKey _) | .circuitFor ..
  | .circuitAllow .. | .circuitSuccess .. | .circuitFailure .. | .toolCall .. | .sleep _ => true
  | e => e.isRefresh

/-- The same, with the one marker that it looks at. -/
def isExecuteOf (tokenHash : Str) : Op → Bool
  | .redis (.existsKey name) => name = GrantCache.revokedKey tokenHash
  | e => e.isExecute

/-- Operations that leave the session alone altogether. -/
def isLocal : Op → Bool
  | .query _ | .setAccount _ | .setGrant _ | .add _ | .flush | .commit | .rollback | .close => false
  | _ => true

/-- What changes none of the facts that an invocation carries along. -/
def isQuiet : Op → Bool
  | .add _ | .setGrant _ | .flush | .rollback | .close | .redis (.existsKey _)
  | .redis (.set _ _ false _) | .redis (.delete _) | .toolCall .. | .query (.grantByTokenHash _) =>
    false
  | _ => true

/-- What settles nothing adds no row. -/
theorem isAdd_of_settles {e : Op} (h : e.settles = false) : e.isAdd = false := by
  cases e <;> first | rfl | cases h

/-- A quiet operation settles nothing. -/
theorem settles_of_isQuiet {e : Op} (h : e.isQuiet = true) : e.settles = false := by
  cases e with
  | redis cmd =>
    cases cmd with
    | set name value nx ex => cases nx <;> first | rfl | cases h
    | _ => first | rfl | cases h
  | _ => first | rfl | cases h

theorem isToolCall_of_isQuiet {e : Op} (h : e.isQuiet = true) : e.isToolCall = false := by
  cases e <;> first | rfl | cases h

theorem settles_of_isCheck {e : Op} (h : e.isCheck = true) : e.settles = false := by
  cases e with
  | redis cmd => cases cmd <;> first | rfl | cases h
  | _ => first | rfl | cases h

theorem isToolCall_of_isCheck {e : Op} (h : e.isCheck = true) : e.isToolCall = false := by
  cases e <;> first | rfl | cases h

theorem isAdd_of_isRedis {e : Op} (h : e.isRedis = true) : e.isAdd = false := by
  cases e <;> first | rfl | cases h

theorem isToolCall_of_isRedis {e : Op} (h : e.isRedis = true) : e.isToolCall = false := by
  cases e <;> first | rfl | cases h

theorem isEntry_of_isCheck {e : Op} (h : e.isCheck = true) : e.isEntry = true := by
  cases e with
  | redis cmd => cases cmd <;> first | rfl | cases h
  | query q => cases q <;> first | rfl | cases h
  | _ => cases h

theorem isLookup_of_isPlain {e : Op} (h : e.isPlain = true) : e.isLookup = false := by
  cases e <;> first | rfl | cases h

theorem isLookup_of_isCheck {e : Op} (h : e.isCheck = true) : e.isLookup = false := by
  cases e with
  | query q => cases q <;> first | rfl | cases h
  | _ => rfl

theorem isAsk_of_isEntry {e : Op} (h : e.isEntry = true) : e.isAsk = false := by
  cases e with
  | redis cmd => cases cmd <;> first | rfl | cases h
  | _ => rfl

theorem isReserve_of_isEntry {e : Op} (h : e.isEntry = true) : e.isReserve = false := by
  cases e with
  | redis cmd => cases cmd <;> first | rfl | cases h
  | _ => rfl

theorem settles_of_isEntry {e : Op} (h : e.isEntry = true) : e.settles = false := by
  cases e with
  | redis cmd => cases cmd <;> first | rfl | cases h
  | _ => first | rfl | cases h

theorem isToolCall_of_isEntry {e : Op} (h : e.isEntry = true) : e.isToolCall = false := by
  cases e <;> first | rfl | cases h

theorem isLocal_of_isPlain {e : Op} (h : e.isPlain = true) : e.isLocal = true := by
  cases e <;> first | rfl | cases h

theorem isQuiet_of_isPlain {e : Op} (h : e.isPlain = true) : e.isQuiet = true := by
  cases e <;> first | rfl | cases h

/-- A refresh is quiet: it neither calls the provider nor adds a row. -/
theorem isQuiet_of_isRefresh {e : Op} (h : e.isRefresh = true) : e.isQuiet = true := by
  cases e <;> first | rfl | cases h

theorem isRefresh_of_isPlain {e : Op} (h : e.isPlain = true) : e.isRefresh = true := by
  cases e <;> first | rfl | cases h

theorem isRefresh_of_isRegister {e : Op} (h : e.isRegister = true) : e.isRefresh = true := by
  cases e <;> first | rfl | cases h

/-- A refresh is part of a call, under any token. -/
theorem isExecuteOf_of_isRefresh {tokenHash : Str} {e : Op} (h : e.isRefresh = true) :
    e.isExecuteOf tokenHash = true := by
  cases e <;> first | rfl | cases h

theorem isExecute_of_isExecuteOf {tokenHash : Str} {e : Op} (h : e.isExecuteOf tokenHash = true) :
    e.isExecute = true := by
  cases e with
  | redis cmd => cases cmd <;> first | rfl | cases h
  | _ => exact h

end Op

/-- A program performs only operations of a class. -/
abbrev Within {α : Type} (p : BrokerProg α) (c : Op → Bool) : Prop :=
  @Prog.Uses BrokerSig α (fun e => c e = true) p

/-- One operation is within a set that it is in. -/
theorem within_op {e : Op} {c : Op → Bool} (inside : c e = true) : Within (op e) c :=
  (Prog.uses_perform _).mpr inside

/-- A class may be widened. -/
theorem Within.mono {α : Type} {p : BrokerProg α} {c d : Op → Bool} (within : Within p c)
    (imp : ∀ {e : Op}, c e = true → d e = true) : Within p d :=
  Prog.Uses.mono within fun _ h => imp h

/-! ## Outcomes -/

theorem elapsedMs_uses (start : Time) : Within (elapsedMs start) Op.isPlain :=
  .bind (within_op rfl) fun _ => trivial

theorem scrub_uses (text : Str) : Within (scrub text) Op.isPlain :=
  .bind (within_op rfl) fun _ => trivial

theorem succeeded_uses (start : Time) (result : Json) (fromCache : Bool) :
    Within (succeeded start result fromCache) Op.isPlain :=
  .bind (elapsedMs_uses start) fun _ => trivial

/-- A refusal scrubs its message and reads the clock. -/
theorem refused_uses (start : Time) (status : Status) (error : Str)
    (reason : Option DeniedReason) : Within (refused start status error reason) Op.isPlain :=
  .bind (scrub_uses error) fun _ => .bind (elapsedMs_uses start) fun _ => trivial

/-! ## Credentials -/

/-- What a response says the new access token is. -/
def AccessTokenOf (response : HttpResponse) (accessToken : Str) : Prop :=
  ∃ payload, response.json = .ok (.obj payload) ∧
    Json.getItem payload "access_token" = .str accessToken

theorem registerSecret_uses (value : Json) :
    Within (registerSecret value) Op.isRegister := by
  unfold registerSecret
  split
  · trivial
  · split
    · split
      · trivial
      · exact within_op rfl
    · split <;> trivial
    · split <;> trivial
    · trivial

/-- Parsing a response may register its two tokens, and does nothing else. -/
theorem parseTokenResponse_uses (response : HttpResponse) :
    Within (parseTokenResponse lib response) Op.isRegister := by
  unfold parseTokenResponse
  split
  · trivial
  · split
    · trivial
    · trivial
    · split
      · exact .bind (registerSecret_uses _) fun _ => .bind (registerSecret_uses _) fun _ =>
          .bind (Prog.uses_ofExcept _) fun _ => trivial
      · trivial
    · trivial

/-- The token that it returns is the one in the body. -/
theorem parseTokenResponse_returns (response : HttpResponse) :
    (parseTokenResponse lib response).Returns fun t => AccessTokenOf response t.accessToken := by
  unfold parseTokenResponse
  split
  · trivial
  · split
    · trivial
    · trivial
    · rename_i payload json
      split
      · rename_i c accessToken found
        exact .bind fun _ => .bind fun _ => .bind fun _ => ⟨payload, json, found⟩
      · trivial
    · trivial

theorem expiryOf_uses (expiresIn : Option Int) :
    Within (expiryOf expiresIn) Op.isPlain := by
  cases expiresIn with
  | none => trivial
  | some n => exact .bind (within_op rfl) fun _ => Prog.uses_ofExcept _

theorem rotateRefresh_uses (refreshToken : Json) :
    Within (rotateRefresh refreshToken) Op.isRefresh := by
  unfold rotateRefresh
  exact .ite (fun _ => .bind (within_op rfl) fun _ => within_op rfl)
    fun _ => trivial

/-- Persisting a refresh is part of the refresh. -/
theorem persistRefreshed_uses (refreshed : TokenResponse) :
    Within (persistRefreshed refreshed) Op.isRefresh :=
  .bind (within_op rfl) fun _ => .bind (within_op rfl) fun _ =>
    .bind (rotateRefresh_uses _) fun _ =>
    .bind ((expiryOf_uses _).mono Op.isRefresh_of_isPlain) fun _ =>
    .bind (within_op rfl) fun _ => .bind (within_op rfl) fun _ => trivial

/-- What is persisted is handed on as it was received. -/
theorem persistRefreshed_returns (refreshed : TokenResponse) :
    (persistRefreshed refreshed).Returns (· = refreshed.accessToken) :=
  .bind fun _ => .bind fun _ => .bind fun _ => .bind fun _ => .bind fun _ => .bind fun _ => rfl

/-! ## The operations of `_execute_call` -/

section Execute

variable {req : InvokeRequest} {grant : Grant} {tokenHash accessToken : Str}
  {account : ConnectedAccount} {tool : ToolAdapter} {start : Time}

/-- The retry loop uses its function, its breaker and the delays. -/
theorem callAttempts_uses {c : Op → Bool} {fn : BrokerProg Json} {maxRetries : Int}
    {baseDelay : Time} {surface : Surface} {provider : Str} {retryable : PyExn → Bool}
    (uses : Within fn c) (allow : c (.circuitAllow surface provider) = true)
    (success : c (.circuitSuccess surface provider) = true)
    (failure : c (.circuitFailure surface provider) = true)
    (sleep : ∀ delay, c (.sleep delay) = true)
    (attempts : List Nat) :
    Within (callAttempts fn maxRetries baseDelay (some (circuitOf surface provider)) retryable
      (fun delay => op (.sleep delay)) attempts) c := by
  induction attempts with
  | nil => trivial
  | cons attempt attempts ih =>
    refine .bind (within_op allow) fun allowed => .ite (fun _ => trivial) fun _ =>
      .bind (.attempt uses) fun r => ?_
    split
    · exact .ite (fun _ => trivial) fun _ => .ite (fun _ => trivial) fun _ =>
        .bind (within_op failure) fun _ => .ite (fun _ => trivial) fun _ =>
        .bind (Prog.uses_ofExcept _) fun _ => .bind (within_op (sleep _)) fun _ => ih
    · exact .bind (within_op success) fun _ => trivial

/-- So is what it exchanges and parses. -/
theorem refreshCredential_uses : Within (refreshCredential lib svc account) Op.isRefresh := by
  unfold refreshCredential
  split
  · trivial
  · exact .bind (within_op rfl) fun _ => .bind (.bind (within_op rfl) fun response =>
      (parseTokenResponse_uses response).mono Op.isRefresh_of_isRegister) persistRefreshed_uses

theorem failed_uses {α : Type} (msg : Str) :
    Within (.error <$> failed start msg : BrokerProg (Except InvokeOutcome α)) Op.isRefresh :=
  .bind ((refused_uses ..).mono Op.isRefresh_of_isPlain) fun _ => trivial

/-- A refresh that fails ends in an outcome, and has done no more than a refresh. -/
theorem refreshOrOutcome_uses : Within (refreshOrOutcome lib svc account start) Op.isRefresh := by
  refine .bind (.attempt refreshCredential_uses) fun r => ?_
  split
  · trivial
  · exact failed_uses _
  · exact failed_uses _
  · exact failed_uses _
  · exact .ite (fun _ => failed_uses _) fun _ => trivial

/-- A credential is decrypted or refreshed. -/
theorem obtainCredential_uses : Within (obtainCredential lib svc account start) Op.isRefresh := by
  refine .bind ?_ fun r => ?_
  · unfold refreshIfStale
    split
    · trivial
    · refine .bind (within_op rfl) fun now => .ite (fun _ => .ite (fun _ => ?_) fun _ => ?_)
        fun _ => trivial
      · refine .bind refreshOrOutcome_uses fun r => ?_
        split <;> trivial
      · exact .bind (within_op rfl) fun now' => .ite (fun _ => failed_uses _) fun _ => trivial
  · split
    · trivial
    · trivial
    · refine .bind (.bind (.attempt (within_op rfl)) fun r => ?_) fun r => ?_
      · split
        · trivial
        · exact failed_uses _
        · exact failed_uses _
        · trivial
      · split <;> trivial

/-- The gate looks at the marker of the token and at the column of its grant. -/
theorem isRevokedNow_uses :
    Within (isRevokedNow svc grant tokenHash) (Op.isExecuteOf tokenHash) := by
  refine .bind (.ite (fun _ => .bind (within_op (by simp [Op.isExecuteOf])) fun _ => trivial)
    fun _ => trivial) fun marked =>
      .ite (fun _ => trivial) fun _ => .bind (within_op rfl) fun found => ?_
  split <;> trivial

/-- A provider call is on its breaker, with its attempts and delays. -/
theorem callProvider_uses :
    Within (callProvider svc req tool accessToken) (Op.isExecuteOf tokenHash) :=
  .bind (within_op rfl) fun _ => .ite (fun _ => trivial) fun _ => .ite (fun _ => trivial) fun _ =>
    callAttempts_uses (within_op rfl) rfl rfl rfl (fun _ => rfl) _

/-- A round is within what a call may do, if the next one is. -/
theorem providerRound_uses {refreshed : Bool} (next : refreshed = false → ∀ accessToken,
      Within (providerRounds lib svc req grant tokenHash account tool start true accessToken)
        (Op.isExecuteOf tokenHash)) :
    Within (providerRounds lib svc req grant tokenHash account tool start refreshed accessToken)
      (Op.isExecuteOf tokenHash) := by
  have plain {status : Status} {msg : Str} {reason : Option DeniedReason} :
      Within (refused start status msg reason) (Op.isExecuteOf tokenHash) :=
    (refused_uses ..).mono fun is => Op.isExecuteOf_of_isRefresh (Op.isRefresh_of_isPlain is)
  rw [providerRounds]
  refine .bind (.attempt callProvider_uses) fun r => ?_
  split
  · exact (succeeded_uses ..).mono fun is =>
      Op.isExecuteOf_of_isRefresh (Op.isRefresh_of_isPlain is)
  · split
    · rename_i again
      refine .bind (refreshOrOutcome_uses.mono Op.isExecuteOf_of_isRefresh) fun r => ?_
      split
      · trivial
      · exact .bind isRevokedNow_uses fun _ => .ite (fun _ => plain) fun _ => next again.2.1 _
    · exact plain
  · exact plain
  · exact plain
  · exact plain
  · exact plain
  · trivial

/-- `_execute_call` looks at no marker but that of the presented token. -/
theorem executeCall_looks : Within (executeCall lib svc req grant tokenHash tool start)
    (Op.isExecuteOf tokenHash) := by
  have plain {status : Status} {msg : Str} {reason : Option DeniedReason} :
      Within (refused start status msg reason) (Op.isExecuteOf tokenHash) :=
    (refused_uses ..).mono fun is => Op.isExecuteOf_of_isRefresh (Op.isRefresh_of_isPlain is)
  refine .bind (within_op rfl) fun found => ?_
  split
  · exact plain
  · refine .bind (obtainCredential_uses.mono Op.isExecuteOf_of_isRefresh) fun r => ?_
    split
    · trivial
    · exact .bind isRevokedNow_uses fun _ => .ite (fun _ => plain) fun _ =>
        providerRound_uses fun _ _ => providerRound_uses nofun

/-- `_execute_call` reads the account and the marker of its own token, refreshes and calls. -/
theorem executeCall_uses : Within (executeCall lib svc req grant tokenHash tool start)
    Op.isExecute := executeCall_looks.mono Op.isExecute_of_isExecuteOf

end Execute

/-! ## Steps that leave the session alone -/

section Local

variable {req : InvokeRequest} {grant : Grant} {tokenHash : Str} {account : ConnectedAccount}
  {tool : ToolAdapter} {start : Time}

theorem refused_local {status : Status} {error : Str} {reason : Option DeniedReason} :
    Within (refused start status error reason) Op.isLocal :=
  (refused_uses start status error reason).mono Op.isLocal_of_isPlain

theorem succeeded_local {result : Json} {fromCache : Bool} :
    Within (succeeded start result fromCache) Op.isLocal :=
  (succeeded_uses start result fromCache).mono Op.isLocal_of_isPlain

theorem refused_early_local {β : Type} {status : Status} {error : Str}
    {reason : Option DeniedReason} :
    Within (.error <$> refused start status error reason : BrokerProg (Except InvokeOutcome β))
      Op.isLocal := .bind refused_local fun _ => trivial

theorem markedRevoked_local : Within (markedRevoked svc tokenHash) Op.isLocal :=
  .ite (fun _ => .bind (within_op rfl) fun _ => trivial) fun _ => trivial

theorem decryptStored_local : Within (decryptStored account start) Op.isLocal := by
  refine .bind (.attempt (within_op rfl)) fun r => ?_
  split
  · trivial
  · exact refused_early_local
  · exact refused_early_local
  · trivial

/-- So does a provider call. -/
theorem callProvider_local {accessToken : Str} :
    Within (callProvider svc req tool accessToken) Op.isLocal :=
  .bind (within_op rfl) fun _ => .ite (fun _ => trivial) fun _ => .ite (fun _ => trivial) fun _ =>
    callAttempts_uses (within_op rfl) rfl rfl rfl (fun _ => rfl) _

theorem get_local {key : Str} : Within (IdempotencyStore.get lib key) Op.isLocal := by
  refine .bind (within_op rfl) fun value => ?_
  split
  · trivial
  · refine .ite (fun _ => trivial) fun _ => ?_
    split <;> trivial

/-- Claiming a key leaves the session alone. -/
theorem claimKey_local {key : Str} : Within (claimKey lib start key) Op.isLocal := by
  refine .bind (.attempt get_local) fun r => ?_
  split
  · exact refused_early_local
  · trivial
  · refine .bind (.bind (within_op rfl) fun _ => .bind (within_op rfl) fun _ => trivial)
      fun reservation => ?_
    split
    · exact refused_early_local
    · trivial
  · exact .bind succeeded_local fun _ => trivial

theorem release_local {key : Str} {owner : Option Str} :
    Within (IdempotencyStore.release key owner) Op.isLocal := by
  refine .bind (within_op rfl) fun value => ?_
  split
  · trivial
  · exact .ite (fun _ => trivial) fun _ => .ite (fun _ => trivial) fun _ =>
      .bind (within_op rfl) fun _ => trivial

theorem settle_local {store : IdempotencyStore} {key reservation : Str} {outcome : InvokeOutcome} :
    Within (settle store key reservation outcome) Op.isLocal := by
  refine .ite (fun _ => .bind (within_op rfl) fun value => ?_) fun _ => release_local
  exact .ite (fun _ => trivial) fun _ => .bind (within_op rfl) fun _ => trivial

theorem checkInvokeRate_local : Within (checkInvokeRate svc grant) Op.isLocal := by
  refine .ite (fun _ => .bind (within_op rfl) fun _ => .bind (within_op rfl) fun _ => ?_)
    fun _ => trivial
  exact .ite (fun _ => .bind (within_op rfl) fun _ => trivial) fun _ => trivial

theorem verifyGrantToken_local {token : Str} : Within (verifyGrantToken lib svc token) Op.isLocal :=
  .bind (within_op rfl) fun _ => Prog.uses_ofExcept _

end Local

end CredBroker
