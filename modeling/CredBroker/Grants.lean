import CredBroker.Cache
import CredBroker.Logging
import CredBroker.Reliability.Idempotency

/-!
# Grant tokens, issuance and revocation

`grants.tokens` and `grants.service`: what a grant token says, and the two
programs that write `grants` rows.
-/

namespace CredBroker

open Python Interaction

/-- The collaborators that a broker is assembled from. The Redis-backed ones may
be absent. -/
structure Services where
  settings : Settings
  grantCache : Bool
  rateLimiter : Bool
  idempotencyStore : Option IdempotencyStore

variable (lib : Lib) (svc : Services)

/-! ## Tokens -/

structure GrantClaims where
  grantId : Uuid
  agentId : Uuid
  toolName : Str
  scope : Str
  deriving DecidableEq

/-- `hash_token(token)`. -/
def hashToken (token : Str) : Str := lib.sha256 token

/-- The payload that `sign_grant_token` encodes. -/
def grantPayload (grantId agentId : Uuid) (toolName scope : Str) (issuedAt expiresAt : Time) :
    List (Str × Json) :=
  [("iss", .str svc.settings.jwtIssuer), ("sub", .str agentId.str), ("jti", .str grantId.str),
    ("tool", .str toolName), ("scope", .str scope), ("iat", .int (timestamp issuedAt)),
    ("exp", .int (timestamp expiresAt))]

/-- `sign_grant_token(..)`. -/
def signGrantToken (grantId agentId : Uuid) (toolName scope : Str) (issuedAt expiresAt : Time) :
    Except PyExn Str :=
  lib.jwtEncode (grantPayload svc grantId agentId toolName scope issuedAt expiresAt)
    svc.settings.jwtPrivateKeyPem

/-- `payload[key]`. -/
def claim (payload : List (Str × Json)) (key : Str) : Except PyExn Json :=
  match payload.lookup key with
  | some value => .ok value
  | none => .error (.keyError key)

/-- `uuid.UUID(value)`. -/
def uuidOf : Json → Except PyExn Uuid
  | .str s => Uuid.parse lib.decimal s
  | .null => .error (.typeError
      "one of the hex, bytes, bytes_le, fields, or int arguments must be given")
  | value => .error (.attributeError
      ("'" ++ value.typeName ++ "' object has no attribute 'replace'"))

/-- The claims of a verified payload. -/
def grantClaims (payload : List (Str × Json)) : Except PyExn GrantClaims := do
  let grantId ← uuidOf lib (← claim payload "jti")
  let agentId ← uuidOf lib (← claim payload "sub")
  let toolName ← claim payload "tool"
  let scope ← claim payload "scope"
  return ⟨grantId, agentId, toolName.toStr lib.isPrintable, scope.toStr lib.isPrintable⟩

/-- `verify_grant_token(token, settings)` at a time. -/
def verifiedClaims (token : Str) (now : Time) : Except PyExn GrantClaims :=
  match lib.jwtDecode token svc.settings.jwtPublicKeyPem svc.settings.jwtIssuer now with
  | .error (.expiredSignatureError _) => .error (.grantExpiredError "grant token has expired")
  | .error (.pyJWTError _) => .error (.grantTokenInvalidError "grant token is invalid")
  | .error (.valueError _) => .error (.grantTokenInvalidError "grant token is invalid")
  | .error exc => .error exc
  | .ok payload =>
    match grantClaims lib payload with
    | .error (.keyError _) | .error (.valueError _) | .error (.typeError _) =>
      .error (.grantTokenInvalidError "grant token claims are malformed")
    | claims => claims

/-- `verify_grant_token(token, settings)`. -/
def verifyGrantToken (token : Str) : BrokerProg GrantClaims := do
  let now ← op .clock
  .ofExcept (verifiedClaims lib svc token now)

/-! ## Issuance -/

structure IssuedGrant where
  token : Str
  grant : Grant

/-- The limiter's verdict on one grant request. -/
def checkGrantRate (agentId : Uuid) : BrokerProg Unit :=
  if svc.rateLimiter then do
    let allowed ← RateLimiter.check ("grants:" ++ agentId.str) svc.settings.grantsPerMinutePerAgent
    if !allowed then .throw (.rateLimitedError "grant request rate limit exceeded") else return ()
  else return ()

/-- The policy checks between the agent row and the account query. -/
def checkPolicy (agent : AgentIdentity) (toolName requestedScope : Str) :
    Except PyExn ToolAdapter := do
  let tool ← getTool toolName
  if toolName ∉ agent.allowedScopes then
    .error (.policyDeniedError
      ("agent is not permitted to request tool " ++ toolName.repr lib.isPrintable))
  else if requestedScope ≠ tool.scope then
    .error (.grantScopeMismatchError
      ("tool " ++ toolName.repr lib.isPrintable ++ " has scope " ++
        tool.scope.repr lib.isPrintable ++ ", not " ++ requestedScope.repr lib.isPrintable))
  else .ok tool

/-- `request_grant(session=.., ..)`. -/
def requestGrant (agentId : Uuid) (toolName requestedScope : Str) : BrokerProg IssuedGrant := do
  checkGrantRate svc agentId
  match ← op (.query (.agentForUpdate agentId)) with
  | none => .throw (.unknownAgentError ("unknown agent: " ++ agentId.str))
  | some agent => do
    let tool ← .ofExcept (checkPolicy lib agent toolName requestedScope)
    match ← op (.query (.latestAccount agent.userId tool.provider)) with
    | none =>
      .throw (.noConnectedAccountError
        ("user has no connected account for provider " ++ tool.provider.repr lib.isPrintable))
    | some account => do
      let now ← op .clock
      let activeCount ← op (.query (.countActive agentId toolName requestedScope now))
      if activeCount ≥ svc.settings.maxActiveGrantsPerAgentScope then
        .throw (.concurrencyLimitError
          ("agent already holds " ++ Str.ofNat activeCount ++ " active grant(s) for " ++
            toolName.repr lib.isPrintable))
      else do
        let grantId ← op .uuid4
        let expiresAt ← .ofExcept (addSeconds now svc.settings.grantTokenTtlSeconds)
        let token ← .ofExcept
          (signGrantToken lib svc grantId agentId toolName requestedScope now expiresAt)
        let grant : Grant :=
          ⟨grantId, agentId, account.id, toolName, requestedScope, hashToken lib token, now,
            expiresAt, none⟩
        op (.add (.grant grant))
        op .commit
        if svc.grantCache then do
          GrantCache.recordIssued (hashToken lib token) svc.settings.grantTokenTtlSeconds
          return ⟨token, grant⟩
        else return ⟨token, grant⟩

/-! ## Revocation -/

/-- The permanent record of a revocation, unless there is one. -/
def markRevoked (grant : Grant) : BrokerProg Grant :=
  if grant.revokedAt = none then do
    let now ← op .clock
    op (.setGrant (.revokedAt (some now)))
    op .commit
    return { grant with revokedAt := some now }
  else return grant

/-- `revoke_grant(session=.., grant_id=.., grant_cache=..)`. -/
def revokeGrant (grantId : Uuid) : BrokerProg Grant := do
  match ← op (.query (.grantById grantId)) with
  | none => .throw (.grantNotFoundError ("grant not found: " ++ grantId.str))
  | some grant => do
    let grant ← markRevoked grant
    if svc.grantCache then do
      GrantCache.recordRevoked grant.grantTokenHash
      return grant
    else return grant

end CredBroker
