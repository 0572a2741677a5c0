import CredBroker.Logging

/-!
# The OAuth connect flow

The signed state parameter, the calls to the token endpoint, and the callback
that stores a connected account.
-/

namespace CredBroker

open Python Interaction

variable (lib : Lib) (settings : Settings)

/-! ## The state parameter -/

/-- `make_state(settings, user_id)`. -/
def makeState (userId : Str) : BrokerProg Str :=
  if '|' ∈ userId then .throw (.valueError "user_id must not contain '|'")
  else do
    let now ← op .clock
    let expiryEpoch := timestamp now + settings.oauthStateTtlSeconds
    let nonce ← op .tokenHex
    let payload := userId ++ "|" ++ Str.ofInt expiryEpoch ++ "|" ++ nonce
    let signed := payload ++ "|" ++ lib.hmacSha256 settings.oauthStateSecret payload
    return Bytes.urlsafeB64Encode (Bytes.encode signed)

/-- `verify_state(settings, state)`. -/
def verifyState (state : Str) : BrokerProg Str :=
  match (Bytes.urlsafeB64Decode state).bind Bytes.decode with
  | none => .throw (.oauthFlowError "malformed oauth state")
  | some decoded =>
    match decoded.splitOn '|' with
    | [userId, expiryStr, nonce, signature] =>
      let expected :=
        lib.hmacSha256 settings.oauthStateSecret (userId ++ "|" ++ expiryStr ++ "|" ++ nonce)
      if signature ≠ expected then .throw (.oauthFlowError "oauth state signature mismatch")
      else
        match Str.int lib.decimal expiryStr with
        | none => .throw (.oauthFlowError "malformed oauth state")
        | some expiryEpoch => do
          let now ← op .clock
          if now > seconds expiryEpoch then .throw (.oauthFlowError "oauth state expired")
          else return userId
    | _ => .throw (.oauthFlowError "malformed oauth state")

/-! ## The token endpoint -/

/-- A parsed token-endpoint payload. The refresh token is whatever truthy value
the document had there, or `None`. -/
structure TokenResponse where
  accessToken : Str
  refreshToken : Json
  expiresIn : Option Int
  scopes : List Str

/-- `int(value)` for a float. -/
def intOfFloat (printed : FloatText) : Except PyExn Int :=
  if printed.val = "NaN" then .error (.valueError "cannot convert float NaN to integer")
  else if printed.val = "Infinity" ∨ printed.val = "-Infinity" then
    .error (.overflowError "cannot convert float infinity to integer")
  else .ok (lib.floatToInt printed)

/-- `sys.get_int_max_str_digits()`, as it is by default. -/
def maxStrDigits : Nat := 4300

/-- `int(value)`. -/
def jsonInt : Json → Except PyExn Int
  | .int n => .ok n
  | .bool b => .ok (if b then 1 else 0)
  | .float printed => intOfFloat lib printed
  | .str s =>
    match Str.int lib.decimal s with
    | some n =>
      if maxStrDigits < (s.map (Str.toAscii lib.decimal)).countP Char.isDigit then
        .error (.valueError "Exceeds the limit (4300 digits) for integer string conversion")
      else .ok n
    | none => .error (.valueError "invalid literal for int() with base 10")
  | value => .error (.typeError ("int() argument must be a string, a bytes-like object " ++
      "or a real number, not '" ++ value.typeName ++ "'"))

/-- `int(expires_in) if expires_in is not None else None`. -/
def parseExpiresIn : Json → Except PyExn (Option Int)
  | .null => .ok none
  | value => (jsonInt lib value).map some

/-- `_parse_token_response(response)`. -/
def parseTokenResponse (response : HttpResponse) : BrokerProg TokenResponse :=
  if response.statusCode < 200 ∨ response.statusCode ≥ 300 then
    .throw (.oauthFlowError
      ("google token endpoint returned HTTP " ++ Str.ofInt response.statusCode))
  else
    match response.json with
    | .error (.valueError _) =>
      .throw (.oauthFlowError "google token endpoint returned a non-JSON response")
    | .error exc => .throw exc
    | .ok (.obj payload) =>
      match Json.getItem payload "access_token" with
      | .str (c :: accessToken) => do
        let refresh := Json.getItem payload "refresh_token"
        let refreshToken := if refresh.truthy then refresh else .null
        registerSecret (.str (c :: accessToken))
        registerSecret refreshToken
        let expiresIn ← .ofExcept (parseExpiresIn lib (Json.getItem payload "expires_in"))
        let scope := Json.getItemD payload "scope" (.str [])
        return ⟨c :: accessToken, refreshToken, expiresIn, (scope.toStr lib.isPrintable).split⟩
      | _ => .throw (.oauthFlowError "google token endpoint response is missing access_token")
    | .ok value =>
      .throw (.attributeError ("'" ++ value.typeName ++ "' object has no attribute 'get'"))

def redirectUri : Str := settings.publicBaseUrl ++ "/oauth/google/callback"

/-- The form that redeems an authorization code. -/
def exchangeForm (code : Str) : List (Str × Str) :=
  [("client_id", settings.googleClientId), ("client_secret", settings.googleClientSecret),
    ("code", code), ("grant_type", "authorization_code"),
    ("redirect_uri", redirectUri settings)]

/-- `exchange_code(http_client, settings, code)`. -/
def exchangeCode (code : Str) : BrokerProg TokenResponse := do
  let response ← op (.tokenEndpoint (exchangeForm settings code))
  parseTokenResponse lib response

/-- The form that redeems a refresh token. -/
def refreshForm (refreshToken : Str) : List (Str × Str) :=
  [("client_id", settings.googleClientId), ("client_secret", settings.googleClientSecret),
    ("refresh_token", refreshToken), ("grant_type", "refresh_token")]

/-- `refresh_access_token(http_client, settings, refresh_token)`. -/
def refreshAccessToken (refreshToken : Str) : BrokerProg TokenResponse := do
  let response ← op (.tokenEndpoint (refreshForm settings refreshToken))
  parseTokenResponse lib response

/-- `utcnow() + timedelta(seconds=expires_in) if expires_in is not None else None`. -/
def expiryOf : Option Int → BrokerProg (Option Time)
  | none => return none
  | some expiresIn => do
    let now ← op .clock
    .ofExcept ((addSeconds now expiresIn).map some)

/-! ## The routes -/

/-- `_PROVIDER`. -/
def oauthProvider : Str := "google"

def requireGoogle (provider : Str) : BrokerProg Unit :=
  if provider ≠ oauthProvider then .throw (.httpException 404 ("unknown provider: " ++ provider))
  else return ()

/-- `authorize(provider, user_id)`: the state that the redirect carries. -/
def authorize (provider : Str) (userId : Uuid) : BrokerProg Str := do
  requireGoogle provider
  makeState lib settings userId.str

/-- `re.fullmatch(r"[a-z_]{1,64}", error)`, else a fixed word. -/
def safeError (error : Str) : Str :=
  if 1 ≤ error.length ∧ error.length ≤ 64 ∧ error.all fun c => c = '_' ∨ ('a' ≤ c ∧ c ≤ 'z') then
    error
  else "unknown_error"

/-- The query parameters of a callback. -/
structure CallbackRequest where
  provider : Str
  code : Option Str
  state : Option Str
  error : Option Str

/-- The user that a state names, and the tokens that a code is good for. -/
def redeemCallback (code state : Str) : BrokerProg (Uuid × TokenResponse) := do
  let user ← verifyState lib settings state
  let userId ← .ofExcept (Uuid.parse lib.decimal user)
  let token ← exchangeCode lib settings code
  return (userId, token)

/-- `redeemCallback` with its errors as HTTP errors. -/
def callbackTokens (code state : Str) : BrokerProg (Uuid × TokenResponse) := do
  match ← (redeemCallback lib settings code state).attempt with
  | .ok tokens => return tokens
  | .error (.oauthFlowError msg) => .throw (.httpException 400 msg)
  | .error (.valueError _) =>
    .throw (.httpException 400 "oauth state carries no valid user id")
  | .error exc => .throw exc

/-- The encrypted refresh token, where the response had one. -/
def encryptRefresh (refreshToken : Json) : BrokerProg (Option Bytes) :=
  if refreshToken.truthy then some <$> op (.encrypt refreshToken) else return none

/-- The user and the tokens become a connected account. -/
def connectAccount (userId : Uuid) (token : TokenResponse) : BrokerProg Uuid := do
  let encryptedAccess ← op (.encrypt (.str token.accessToken))
  let encryptedRefresh ← encryptRefresh token.refreshToken
  let expiresAt ← expiryOf token.expiresIn
  withSession do
    let id ← op .uuid4
    let createdAt ← op .clock
    op (.add (.account ⟨id, userId, oauthProvider, encryptedAccess, encryptedRefresh,
      token.scopes, expiresAt, createdAt⟩))
    op .flush
    op .commit
    return id

/-- `callback(provider, request, code, state, error)`. -/
def callback (request : CallbackRequest) : BrokerProg Uuid := do
  requireGoogle request.provider
  match request.error, request.code, request.state with
  | some error, _, _ => .throw (.httpException 400 ("provider reported: " ++ safeError error))
  | none, some code, some state => do
    let (userId, token) ← callbackTokens lib settings code state
    connectAccount userId token
  | _, _, _ => .throw (.httpException 422 "missing code or state parameter")

end CredBroker
