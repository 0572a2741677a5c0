import CredBroker.Grants
import CredBroker.OAuth

/-!
# Tool invocation

`InvokeService.invoke` with the steps it takes, from the grant token to the
audit row. A step that may end the invocation early returns the outcome as the
error of an `Except`.
-/

namespace CredBroker

open Python Interaction

/-- The arguments of `InvokeService.invoke`. -/
structure InvokeRequest where
  surface : Surface
  grantToken : Str
  toolName : Str
  arguments : Arguments
  idempotencyKey : Option Str

inductive DeniedReason
  | invalidToken
  | expired
  | revoked
  | notFound
  | toolMismatch
  | scopeMismatch
  | rateLimited
  | idempotencyConflict
  deriving DecidableEq

/-- An outcome; a `result` of `None` is `Json.null`. -/
structure InvokeOutcome where
  status : Status
  result : Json
  error : Option Str
  latencyMs : Nat
  fromCache : Bool
  deniedReason : Option DeniedReason

/-! ## Audit rows -/

/-- The canonical serialisation that `hash_arguments` hashes. -/
def canonicalArguments (arguments : Arguments) : Str := Json.dumps .canonical (.obj arguments)

/-- `hash_arguments(arguments)`. -/
def hashArguments (lib : Lib) (arguments : Arguments) : Str :=
  lib.sha256 (canonicalArguments arguments)

/-- `record_call(session, ..)`. -/
def recordCall (lib : Lib) (grantId : Uuid) (toolName : Str) (arguments : Arguments)
    (status : Status) (latencyMs : Nat) : BrokerProg Unit := do
  op (.add (.audit ⟨grantId, toolName, hashArguments lib arguments, status, latencyMs⟩))
  op .commit

/-! ## Outcomes -/

/-- `_elapsed_ms(start)`. -/
def elapsedMs (start : Time) : BrokerProg Nat := do
  let now ← op .clock
  return ((now - start) / 1000).toNat

/-- `_outcome(..)` without an error message. -/
def succeeded (start : Time) (result : Json) (fromCache : Bool) : BrokerProg InvokeOutcome := do
  let latencyMs ← elapsedMs start
  return ⟨.success, result, none, latencyMs, fromCache, none⟩

/-- `_outcome(..)` with an error message. -/
def refused (start : Time) (status : Status) (error : Str) (reason : Option DeniedReason) :
    BrokerProg InvokeOutcome := do
  let error ← scrub error
  let latencyMs ← elapsedMs start
  return ⟨status, .null, some error, latencyMs, false, reason⟩

def denied (start : Time) (error : Str) (reason : DeniedReason) : BrokerProg InvokeOutcome :=
  refused start .denied error (some reason)

def failed (start : Time) (error : Str) : BrokerProg InvokeOutcome :=
  refused start .failed error none

section Service

variable (lib : Lib) (svc : Services) (req : InvokeRequest) (grant : Grant) (tokenHash : Str)
  (account : ConnectedAccount) (tool : ToolAdapter) (start : Time)

/-! ## Revocation re-check -/

/-- `self._grant_cache is not None and await self._grant_cache.is_revoked(token_hash)`. -/
def markedRevoked : BrokerProg Bool :=
  if svc.grantCache then GrantCache.isRevoked tokenHash else return false

/-- `_is_revoked_now(session, grant, token_hash)`. -/
def isRevokedNow : BrokerProg Bool := do
  let marked ← markedRevoked svc tokenHash
  if marked then return true
  else
    match ← op (.query (.revokedAt grant.id)) with
    | none => return true
    | some revokedAt => return revokedAt.isSome

/-! ## Credentials -/

/-- `REFRESH_EXPIRY_MARGIN`. -/
def refreshExpiryMargin : Time := seconds 60

/-- `_can_refresh(account)`. -/
def canRefresh : Bool := account.encryptedRefreshToken.isSome && account.provider = "google"

/-- A rotated refresh token replaces the stored one. -/
def rotateRefresh (refreshToken : Json) : BrokerProg Unit :=
  if refreshToken.truthy then do
    let encryptedRefresh ← op (.encrypt refreshToken)
    op (.setAccount (.encryptedRefreshToken (some encryptedRefresh)))
  else return ()

/-- The refreshed credential is encrypted, assigned and committed. -/
def persistRefreshed (refreshed : TokenResponse) : BrokerProg Str := do
  let encryptedAccess ← op (.encrypt (.str refreshed.accessToken))
  op (.setAccount (.encryptedAccessToken encryptedAccess))
  rotateRefresh refreshed.refreshToken
  let expiresAt ← expiryOf refreshed.expiresIn
  op (.setAccount (.expiresAt expiresAt))
  op .commit
  return refreshed.accessToken

/-- `_refresh_credential(session, account)`. -/
def refreshCredential : BrokerProg Str :=
  match account.encryptedRefreshToken with
  | none => .throw (.typeError "object of type 'NoneType' has no len()")
  | some blob => do
    let refreshToken ← op (.decrypt blob)
    let refreshed ← refreshAccessToken lib svc.settings refreshToken
    persistRefreshed refreshed

/-- `_refresh_or_outcome(session, account, start)`. -/
def refreshOrOutcome : BrokerProg (Except InvokeOutcome Str) := do
  match ← (refreshCredential lib svc account).attempt with
  | .ok accessToken => return .ok accessToken
  | .error (.oauthFlowError msg) => .error <$> failed start ("credential refresh failed: " ++ msg)
  | .error (.clientError _) => .error <$> failed start "stored credential could not be decrypted"
  | .error (.valueError _) => .error <$> failed start "stored credential could not be decrypted"
  | .error exc =>
    if exc.isHTTPError then
      .error <$> failed start "credential refresh failed: could not reach the token endpoint"
    else .throw exc

/-- Step 7: a refreshed access token, where the stored one is stale. -/
def refreshIfStale : BrokerProg (Except InvokeOutcome (Option Str)) :=
  match account.expiresAt with
  | none => return .ok none
  | some expiresAt => do
    let now ← op .clock
    if expiresAt ≤ now + refreshExpiryMargin then
      if canRefresh account then do
        match ← refreshOrOutcome lib svc account start with
        | .ok accessToken => return .ok (some accessToken)
        | .error outcome => return .error outcome
      else do
        let now ← op .clock
        if expiresAt ≤ now then
          .error <$> failed start
            "connected account credential has expired and cannot be refreshed"
        else return .ok none
    else return .ok none

/-- Step 8: the stored access token. -/
def decryptStored : BrokerProg (Except InvokeOutcome Str) := do
  match ← (op (.decrypt account.encryptedAccessToken)).attempt with
  | .ok accessToken => return .ok accessToken
  | .error (.clientError _) => .error <$> failed start "stored credential could not be decrypted"
  | .error (.valueError _) => .error <$> failed start "stored credential could not be decrypted"
  | .error exc => .throw exc

/-! ## The provider call -/

/-- The shared breaker of one provider. -/
def circuitOf (surface : Surface) (provider : Str) : Circuit Op Op.Val where
  allow := op (.circuitAllow surface provider)
  recordSuccess := op (.circuitSuccess surface provider)
  recordFailure := op (.circuitFailure surface provider)

/-- `_call_provider(tool, access_token, arguments)`. -/
def callProvider (accessToken : Str) : BrokerProg Json := do
  op (.circuitFor req.surface tool.provider svc.settings.circuitFailureThreshold
    svc.settings.circuitResetSeconds)
  callWithRetries (op (.toolCall tool accessToken req.arguments))
    svc.settings.outboundMaxRetries svc.settings.outboundBaseDelaySeconds
    (some (circuitOf req.surface tool.provider)) defaultRetryable fun delay => op (.sleep delay)

/-- Step 10, `while True`: a 401 is answered by one refresh and a second round. -/
def providerRounds (refreshed : Bool) (accessToken : Str) : BrokerProg InvokeOutcome := do
  match ← (callProvider svc req tool accessToken).attempt with
  | .ok result => succeeded start result false
  | .error (.providerCallError msg statusCode) =>
    if again : statusCode = some 401 ∧ refreshed = false ∧ canRefresh account then do
      have : (!true).toNat < (!refreshed).toNat := by simp [again.2.1]
      match ← refreshOrOutcome lib svc account start with
      | .error outcome => return outcome
      | .ok accessToken => do
        let revoked ← isRevokedNow svc grant tokenHash
        if revoked then denied start "grant has been revoked" .revoked
        else providerRounds true accessToken
    else failed start msg
  | .error (.providerUnavailableError msg) => failed start msg
  | .error (.timeoutException _) =>
    failed start (tool.name ++ " timed out contacting the provider")
  | .error (.transportError _) => failed start (tool.name ++ " could not reach the provider")
  | .error (.valueError _) => failed start (tool.name ++ " returned a malformed response")
  | .error exc => .throw exc
termination_by (!refreshed).toNat

/-- Steps 7 and 8: the access token, and whether it was just refreshed. -/
def obtainCredential : BrokerProg (Except InvokeOutcome (Str × Bool)) := do
  match ← refreshIfStale lib svc account start with
  | .error outcome => return .error outcome
  | .ok (some accessToken) => return .ok (accessToken, true)
  | .ok none => do
    match ← decryptStored account start with
    | .error outcome => return .error outcome
    | .ok accessToken => return .ok (accessToken, false)

/-- `_execute_call(..)`. -/
def executeCall : BrokerProg InvokeOutcome := do
  match ← op (.query (.accountById grant.connectedAccountId)) with
  | none => failed start "connected account no longer exists"
  | some account => do
    match ← obtainCredential lib svc account start with
    | .error outcome => return outcome
    | .ok (accessToken, refreshed) => do
      let revoked ← isRevokedNow svc grant tokenHash
      if revoked then denied start "grant has been revoked" .revoked
      else providerRounds lib svc req grant tokenHash account tool start refreshed accessToken

/-! ## Idempotency -/

/-- `full_key`. -/
def fullKey (key : Str) : Str :=
  grant.agentId.str ++ ":" ++ grant.connectedAccountId.str ++ ":" ++ req.toolName ++ ":" ++ key

def conflict : BrokerProg InvokeOutcome :=
  denied start "concurrent call with same idempotency key" .idempotencyConflict

/-- Step 6: the reservation of a key, or the outcome that replays or refuses. -/
def claimKey (key : Str) : BrokerProg (Except InvokeOutcome Str) := do
  match ← (IdempotencyStore.get lib key).attempt with
  | .error (.idempotencyConflictError _) => .error <$> conflict start
  | .error exc => .throw exc
  | .ok .null => do
    match ← IdempotencyStore.reserve key with
    | none => .error <$> conflict start
    | some reservation => return .ok reservation
  | .ok cached => .error <$> succeeded start cached true

/-- `outcome.result or {}`. -/
def storedResult (result : Json) : Json := if result.truthy then result else .obj []

/-- What becomes of a reservation once the call has an outcome. -/
def settle (store : IdempotencyStore) (key reservation : Str) (outcome : InvokeOutcome) :
    BrokerProg Unit :=
  if outcome.status = .success then
    store.complete key (storedResult outcome.result) (some reservation)
  else IdempotencyStore.release key (some reservation)

/-- The call under a reservation, which it completes or releases. -/
def executeReserved (store : IdempotencyStore) (key reservation : Str) :
    BrokerProg InvokeOutcome := do
  match ← (executeCall lib svc req grant tokenHash tool start).attempt with
  | .error exc =>
    if exc.isException then do
      IdempotencyStore.release key (some reservation)
      .throw exc
    else .throw exc
  | .ok outcome => do
    settle store key reservation outcome
    return outcome

/-! ## The service -/

/-- Step 4. -/
def checkInvokeRate : BrokerProg Bool :=
  if svc.rateLimiter then
    RateLimiter.check ("invoke:" ++ grant.agentId.str) svc.settings.invokesPerMinutePerAgent
  else return true

/-- `_invoke_resolved(..)`. -/
def invokeResolved (fastRevoked : Bool) : BrokerProg InvokeOutcome :=
  if fastRevoked || grant.revokedAt.isSome then denied start "grant has been revoked" .revoked
  else do
    let now ← op .clock
    if grant.expiresAt ≤ now then denied start "grant has expired" .expired
    else do
      let allowed ← checkInvokeRate svc grant
      if !allowed then denied start "invoke rate limit exceeded" .rateLimited
      else
        match getTool req.toolName with
        | .error (.unknownToolError msg) => denied start msg .notFound
        | .error exc => .throw exc
        | .ok tool =>
          if grant.scope ≠ tool.scope then
            denied start ("grant scope " ++ grant.scope.repr lib.isPrintable ++
              " does not match tool scope " ++ tool.scope.repr lib.isPrintable) .scopeMismatch
          else
            match req.idempotencyKey, svc.idempotencyStore with
            | some key, some store => do
              match ← claimKey lib start (fullKey req grant key) with
              | .error outcome => return outcome
              | .ok reservation =>
                executeReserved lib svc req grant tokenHash tool start store
                  (fullKey req grant key) reservation
            | _, _ => executeCall lib svc req grant tokenHash tool start

/-- The final backstop: an unexpected error becomes a failed outcome. -/
def invokeAudited (fastRevoked : Bool) : BrokerProg InvokeOutcome := do
  match ← (invokeResolved lib svc req grant tokenHash start fastRevoked).attempt with
  | .ok outcome => return outcome
  | .error exc =>
    if exc.isException then do
      op .rollback
      failed start "internal error during tool invocation"
    else .throw exc

/-- The part of `invoke` that has a session. -/
def invokeGranted : BrokerProg InvokeOutcome := do
  let fastRevoked ← markedRevoked svc (hashToken lib req.grantToken)
  match ← op (.query (.grantByTokenHash (hashToken lib req.grantToken))) with
  | none => denied start "grant not found" .notFound
  | some grant => do
    let outcome ←
      invokeAudited lib svc req grant (hashToken lib req.grantToken) start fastRevoked
    recordCall lib grant.id req.toolName req.arguments outcome.status outcome.latencyMs
    return outcome

/-- `InvokeService.invoke(grant_token=.., tool_name=.., arguments=.., idempotency_key=..)`. -/
def invoke : BrokerProg InvokeOutcome := do
  let start ← op .clock
  match ← (verifyGrantToken lib svc req.grantToken).attempt with
  | .error (.grantExpiredError msg) => denied start msg .expired
  | .error (.grantTokenInvalidError msg) => denied start msg .invalidToken
  | .error exc => .throw exc
  | .ok claims =>
    if req.toolName ≠ claims.toolName then
      denied start "grant token is not valid for this tool" .toolMismatch
    else withSession (invokeGranted lib svc req start)

end Service

end CredBroker
