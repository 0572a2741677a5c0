import CredBroker.Broker
import CredBroker.Interaction.Front
import CredBroker.Python.Url

/-!
# The served API

The gRPC servicer, the console API and the OAuth routes. Each of their methods turns a
call away, or passes it on as a request and makes a reply of how that ends. `gateway` is
the machine that the clients see.
-/

namespace CredBroker

open Python Interaction

/-- What `google.protobuf` makes of a `Struct`, and a `Struct` of. -/
structure Wire where
  Struct : Type
  /-- `json_format.MessageToDict(message)`. -/
  messageToDict : Struct → Except PyExn Arguments
  /-- `json_format.ParseDict(value, Struct())`. -/
  parseDict : Json → Except PyExn Struct

/-! ## Calls -/

/-- A `GrantRequest` message. -/
structure GrantMessage where
  agentId : Str
  toolName : Str
  requestedScope : Str

/-- An `InvokeRequest` message. -/
structure InvokeMessage (wire : Wire) where
  grantToken : Str
  toolName : Str
  arguments : wire.Struct
  idempotencyKey : Str

/-- A `RevokeRequest` message. -/
structure RevokeMessage where
  grantId : Str

/-- A `GrantCreateRequest`. -/
structure GrantCreateRequest where
  agentId : Uuid
  toolName : Str
  requestedScope : Str

/-- The console's `InvokeRequest`. -/
structure InvokeBody where
  grantToken : Str
  toolName : Str
  arguments : Arguments
  idempotencyKey : Option Str

/-- The endpoints under `/console/api` that write. -/
inductive Endpoint
  | createAgent (body : AgentCreateRequest)
  | createGrant (body : GrantCreateRequest)
  | revokeGrant (grantId : Uuid)
  | invokeTool (body : InvokeBody)
  | demoSeed

inductive Call (wire : Wire)
  | requestGrant (request : GrantMessage)
  | invokeTool (request : InvokeMessage wire)
  | revokeGrant (request : RevokeMessage)
  /-- A call of the console API, with its `X-Console-Token`. -/
  | console (token : Option Str) (endpoint : Endpoint)
  | authorize (provider : Str) (userId : Uuid)
  | callback (request : CallbackRequest)

/-! ## Replies -/

/-- The `grpc.StatusCode`s that the servicer aborts with. -/
inductive StatusCode
  | invalidArgument
  | notFound
  | permissionDenied
  | failedPrecondition
  | resourceExhausted
  | unavailable
  | internal
  deriving DecidableEq

inductive Reply (wire : Wire)
  /-- `GrantResponse`. -/
  | grantResponse (grantToken : Str) (expiresAt : Time) (grantId : Str)
  /-- `InvokeResponse`. -/
  | invokeResponse (result : wire.Struct) (status : Status)
  /-- `RevokeResponse`. -/
  | revokeResponse (revoked : Bool)
  /-- `context.abort(code, details)`. -/
  | abort (code : StatusCode) (details : Str)
  -- over HTTP
  | agent (id userId name : Str) (allowedScopes : List Str)
  | issued (grantId grantToken : Str) (expiresAt : Time)
  | revoked
  | outcome (outcome : InvokeOutcome)
  | seeded (userId agentId connectedAccountId : Str) (created : Bool)
  | redirect (url : Str)
  | connected (connectedAccountId provider : Str)
  /-- An error response with its `detail`. -/
  | httpError (statusCode : Nat) (detail : Str)

section Methods

variable (lib : Lib) (svc : Services) (wire : Wire)

/-! ## The gRPC servicer -/

/-- `_GRANT_ERROR_CODES`. -/
def grantErrorCode : PyExn → Option StatusCode
  | .unknownAgentError _ => some .notFound
  | .unknownToolError _ => some .notFound
  | .policyDeniedError _ => some .permissionDenied
  | .grantScopeMismatchError _ => some .permissionDenied
  | .noConnectedAccountError _ => some .failedPrecondition
  | .concurrencyLimitError _ => some .resourceExhausted
  | .rateLimitedError _ => some .resourceExhausted
  | _ => none

/-- `_rpc_error_guard(method)`: the message is scrubbed for the log, and the client gets a
fixed detail. -/
def rpcErrorGuard (method : BrokerProg (Reply wire)) : BrokerProg (Reply wire) := do
  match ← method.attempt with
  | .ok reply => return reply
  | .error exc =>
    if exc.isException then do
      let _ ← scrub exc.str
      return .abort .internal "internal error"
    else .throw exc

/-- `_parse_uuid(raw, field, context)`; of a string, `uuid.UUID` raises a `ValueError` only. -/
def parseUuid (raw field : Str) : Except (Reply wire) Uuid :=
  match Uuid.parse lib.decimal raw with
  | .ok id => .ok id
  | .error _ => .error (.abort .invalidArgument (field ++ " must be a valid UUID"))

/-- `value or default`, for a string. -/
def orDefault (value : Option Str) (default : Str) : Str :=
  match value with
  | none | some [] => default
  | some value => value

/-- What `RequestGrant` does with the end of `request_grant`. -/
def grantReply : Except PyExn IssuedGrant → BrokerProg (Reply wire)
  | .ok issued =>
    return .grantResponse issued.token issued.grant.expiresAt issued.grant.id.str
  | .error exc =>
    match grantErrorCode exc with
    | some code => return .abort code exc.str
    | none => .throw exc

/-- `RequestGrant(request, context)`. -/
def rpcRequestGrant (request : GrantMessage) : BrokerProg (Reply wire) :=
  rpcErrorGuard wire <|
    match parseUuid lib wire request.agentId "agent_id" with
    | .error aborted => return aborted
    | .ok agentId => do
      let ended ← (withSession (requestGrant lib svc agentId request.toolName
        request.requestedScope)).attempt
      grantReply wire ended

/-- What `InvokeTool` does with the end of `invoke`. -/
def invokeReply : Except PyExn InvokeOutcome → BrokerProg (Reply wire)
  | .error exc => .throw exc
  | .ok outcome =>
    match outcome.status with
    | .denied =>
      let code : StatusCode :=
        if outcome.deniedReason = some .rateLimited then .resourceExhausted else .permissionDenied
      return .abort code (orDefault outcome.error "invocation denied")
    | .failed => return .abort .unavailable (orDefault outcome.error "tool call failed")
    | .success => do
      let result ← .ofExcept (wire.parseDict (storedResult outcome.result))
      return .invokeResponse result outcome.status

/-- The arguments of `invoke`; `request.idempotency_key or None`. -/
def invokeRequest (request : InvokeMessage wire) (arguments : Arguments) : InvokeRequest where
  surface := .grpc
  grantToken := request.grantToken
  toolName := request.toolName
  arguments := arguments
  idempotencyKey := if request.idempotencyKey = [] then none else some request.idempotencyKey

/-- `InvokeTool(request, context)`. -/
def rpcInvokeTool (request : InvokeMessage wire) : BrokerProg (Reply wire) :=
  rpcErrorGuard wire do
    let arguments ← .ofExcept (wire.messageToDict request.arguments)
    let ended ← (invoke lib svc (invokeRequest wire request arguments)).attempt
    invokeReply wire ended

/-- What `RevokeGrant` does with the end of `revoke_grant`. -/
def revokeReply : Except PyExn Grant → BrokerProg (Reply wire)
  | .ok _ => return .revokeResponse true
  | .error (.grantNotFoundError msg) => return .abort .notFound msg
  | .error exc => .throw exc

/-- `RevokeGrant(request, context)`. -/
def rpcRevokeGrant (request : RevokeMessage) : BrokerProg (Reply wire) :=
  rpcErrorGuard wire <|
    match parseUuid lib wire request.grantId "grant_id" with
    | .error aborted => return aborted
    | .ok grantId => do
      let ended ← (withSession (revokeGrant svc grantId)).attempt
      revokeReply wire ended

/-! ## HTTP errors -/

/-- How FastAPI answers what an endpoint raises. -/
def httpHandled (endpoint : BrokerProg (Reply wire)) : BrokerProg (Reply wire) := do
  match ← endpoint.attempt with
  | .ok reply => return reply
  | .error (.httpException statusCode detail) => return .httpError statusCode detail
  | .error exc =>
    if exc.isException then return .httpError 500 "Internal Server Error" else .throw exc

/-- `_ERROR_STATUS.get(type(exc), 400)`, for a `CredBrokerError`. -/
def errorStatus : PyExn → Option Nat
  | .policyDeniedError _ => some 403
  | .grantScopeMismatchError _ => some 403
  | .grantExpiredError _ => some 403
  | .grantTokenInvalidError _ => some 403
  | .rateLimitedError _ => some 429
  | .concurrencyLimitError _ => some 429
  | .unknownAgentError _ => some 404
  | .unknownToolError _ => some 404
  | .grantNotFoundError _ => some 404
  | .noConnectedAccountError _ => some 404
  | .idempotencyConflictError _ => some 409
  | .providerUnavailableError _ => some 400
  | .providerCallError .. => some 400
  | .oauthFlowError _ => some 400
  | _ => none

/-- `except CredBrokerError as exc: raise _http_error(exc) from None`. -/
def httpError (exc : PyExn) : PyExn :=
  match errorStatus exc with
  | some statusCode => .httpException statusCode exc.str
  | none => exc

/-! ## The console API -/

/-- `hmac.compare_digest(a, b)`: strings have to be ASCII. -/
def compareDigest (a b : Str) : Except PyExn Bool :=
  if (a ++ b).all fun c => c.toNat < 128 then .ok (a == b)
  else .error (.typeError "comparing strings with non-ASCII characters is not supported")

/-- `require_console_auth(request, x_console_token)`; an empty `expected` leaves the
console open. -/
def requireConsoleAuth (expected : Str) (token : Option Str) : Except PyExn Unit :=
  let refusal : PyExn := .httpException 401 "missing or invalid console token"
  if expected = [] then .ok ()
  else
    match token with
    | none => .error refusal
    | some token => do
      if ← compareDigest token expected then .ok () else .error refusal

/-- `_agent_dict(agent)`. -/
def agentDict (agent : AgentIdentity) : Reply wire :=
  .agent agent.id.str agent.userId.str agent.name agent.allowedScopes

/-- What `create_grant` does with the end of `request_grant`. -/
def createGrantReply : Except PyExn IssuedGrant → BrokerProg (Reply wire)
  | .ok issued => return .issued issued.grant.id.str issued.token issued.grant.expiresAt
  | .error exc => .throw (httpError exc)

/-- What `revoke_grant` of the console does with the end of `revoke_grant`. -/
def revokedReply : Except PyExn Grant → BrokerProg (Reply wire)
  | .ok _ => return .revoked
  | .error exc => .throw (httpError exc)

/-- The arguments of `invoke`. -/
def InvokeBody.request (body : InvokeBody) : InvokeRequest where
  surface := .http
  grantToken := body.grantToken
  toolName := body.toolName
  arguments := body.arguments
  idempotencyKey := body.idempotencyKey

/-- What `seed_demo` returns. -/
def seedDict (report : SeedReport) : Reply wire :=
  .seeded report.userId.str report.agentId.str report.connectedAccountId.str report.created

/-- The endpoints behind `require_console_auth`. -/
def serveEndpoint : Endpoint → BrokerProg (Reply wire)
  | .createAgent body => agentDict wire <$> createAgent body
  | .createGrant body => do
    let ended ← (withSession (requestGrant lib svc body.agentId body.toolName
      body.requestedScope)).attempt
    createGrantReply wire ended
  | .revokeGrant grantId => do
    let ended ← (withSession (revokeGrant svc grantId)).attempt
    revokedReply wire ended
  | .invokeTool body => .outcome <$> invoke lib svc body.request
  | .demoSeed => seedDict wire <$> withSession seedDemo

/-- A call of the console API. -/
def serveConsole (consoleToken : Str) (token : Option Str) (endpoint : Endpoint) :
    BrokerProg (Reply wire) :=
  httpHandled wire do
    .ofExcept (requireConsoleAuth consoleToken token)
    serveEndpoint lib svc wire endpoint

/-! ## The OAuth routes -/

/-- `GOOGLE_AUTH_URL`. -/
def googleAuthUrl : Str := "https://accounts.google.com/o/oauth2/v2/auth"

/-- `DEFAULT_SCOPES`. -/
def defaultScopes : List Str := ["https://www.googleapis.com/auth/drive.readonly"]

/-- The parameters of the consent screen. -/
def authorizeParams (settings : Settings) (state : Str) : List (Str × Str) :=
  [("client_id", settings.googleClientId), ("redirect_uri", redirectUri settings),
    ("response_type", "code"), ("scope", [' '].intercalate defaultScopes), ("state", state),
    ("access_type", "offline"), ("prompt", "consent")]

/-- `build_authorize_url(settings, state)`. -/
def buildAuthorizeUrl (settings : Settings) (state : Str) : Str :=
  googleAuthUrl ++ '?' :: Bytes.urlencode (authorizeParams settings state)

/-- `authorize(provider, user_id, request)`. -/
def serveAuthorize (provider : Str) (userId : Uuid) : BrokerProg (Reply wire) :=
  httpHandled wire do
    let state ← authorize lib svc.settings provider userId
    return .redirect (buildAuthorizeUrl svc.settings state)

/-- `callback(provider, request, code, state, error)`. -/
def serveCallback (request : CallbackRequest) : BrokerProg (Reply wire) :=
  httpHandled wire do
    let accountId ← callback lib svc.settings request
    return .connected accountId.str oauthProvider

/-! ## The machine -/

/-- The program that answers a call. -/
def answerCall (consoleToken : Str) : Call wire → BrokerProg (Reply wire)
  | .requestGrant request => rpcRequestGrant lib svc wire request
  | .invokeTool request => rpcInvokeTool lib svc wire request
  | .revokeGrant request => rpcRevokeGrant lib svc wire request
  | .console token endpoint => serveConsole lib svc wire consoleToken token endpoint
  | .authorize provider userId => serveAuthorize lib svc wire provider userId
  | .callback request => serveCallback lib svc wire request

/-- The served API over one world. -/
def gateway (consoleToken : Str) (lossy : Bool) :
    Machine BrokerSig (Call wire) (Reply wire) World World.Nudge where
  entry := answerCall lib svc wire consoleToken
  Permits w tr e := w.permits tr e = true
  after := World.after
  nudge := World.nudge lossy

instance (lib : Lib) (svc : Services) (wire : Wire) (consoleToken : Str) (lossy : Bool) (w : World)
    (tr : Trace BrokerSig) (e : Event BrokerSig) :
    Decidable ((gateway lib svc wire consoleToken lossy).Permits w tr e) :=
  inferInstanceAs (Decidable (w.permits tr e = true))

end Methods

end CredBroker
