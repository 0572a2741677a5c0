import CredBroker.Broker

/-!
# A demo deployment

The default settings with one tenant, and an environment in which every
operation goes well. The runs that show a property's premises to be met, or a
property to fail, are scripts over it.
-/

namespace CredBroker

open Python Interaction

namespace Demo

/-- The defaults of `Settings`, with keys. -/
def settings : Settings where
  publicBaseUrl := "http://localhost:8000"
  googleClientId := "client-id"
  googleClientSecret := "client-secret"
  oauthStateSecret := "dev-state-secret-not-for-production"
  oauthStateTtlSeconds := 600
  grantTokenTtlSeconds := 300
  jwtPrivateKeyPem := "private.pem"
  jwtPublicKeyPem := "public.pem"
  jwtIssuer := "credbroker"
  maxActiveGrantsPerAgentScope := 1
  outboundMaxRetries := 3
  outboundBaseDelaySeconds := 200000
  circuitFailureThreshold := 5
  circuitResetSeconds := seconds 30
  grantsPerMinutePerAgent := 60
  invokesPerMinutePerAgent := 120

/-- A store with the default window of an hour. -/
def store : IdempotencyStore := ⟨3600, by decide⟩

/-- The services of `create_app` with a Redis client. -/
def services : Services := ⟨settings, true, true, some store⟩

/-- 2026-01-01T00:00:00Z. -/
def midnight : Time := seconds 1767225600

def agentId : Uuid := ⟨2⟩

def grantId : Uuid := ⟨1007⟩

/-- The grant token for `grantId`, signed at `midnight`. -/
def token : Str := "header.claims.signature"

/-- The library functions on the inputs of the demo. -/
def lib : Lib where
  sha256 text :=
    if text = token then "d75c7d5abfc3b40ffe10a6f88e944df66c57b19ddc919c1ee49911beab59690c"
    else if text = "\x7b\x7d" then
      "44136fa355b3678a1146ad16f7e8649e94fb4fc21fe77e8310c060f61caaff8a"
    else if text = "\x7b\"page_size\":10\x7d" then
      "d3912911f3db270722001774a5fb9d134ccf672699b200eade728999e3f1082f"
    else "802176faf74648c2c7bdd0bbc6c46c8637daba13549ddaa774b73b4222c8ae59"
  jwtDecode presented _ _ now :=
    if presented = token then
      if now < midnight + seconds 300 then
        .ok (grantPayload services grantId agentId "drive.read" "read" midnight
          (midnight + seconds 300))
      else .error (.expiredSignatureError "Signature has expired")
    else .error (.pyJWTError "Signature verification failed")
  jwtDecode_raises presented _ _ now x raised := by
    split at raised
    · split at raised
      · cases raised
      · cases raised
        rfl
    · cases raised
      rfl
  jwtEncode _ _ := .ok token
  hmacSha256 _ payload := payload
  floatRepr _ := .nan
  floatToInt _ := 0
  isPrintable _ := true
  decimal := Str.decimalDigit

/-- The answers of an environment in which nothing fails. -/
def healthy (w : World) (tr : Trace BrokerSig) : (e : Op) → BrokerSig.Ans e
  | .clock => .ok w.now
  | .uuid4 => .ok ⟨Fin.ofNat _ (tr.length + 1000 * w.db.agents.length)⟩
  | .tokenHex => .ok (Str.hex 32 w.nonces.length)
  | .secretRegistry => .ok w.secrets
  | .redis cmd =>
    match w.redis.run w.now cmd with
    | some (reply, _) => .ok reply
    | none => .error (.redisError false "value is not an integer or out of range")
  | .query (.grantByTokenHash tokenHash) => .ok (w.db.grants.find? (·.grantTokenHash = tokenHash))
  | .query (.grantById id) => .ok (w.db.grants.find? (·.id = id))
  | .query (.revokedAt id) => .ok ((w.db.grants.find? (·.id = id)).map (·.revokedAt))
  | .query (.accountById id) => .ok (w.db.accounts.find? (·.id = id))
  | .query (.agentForUpdate id) => .ok (w.db.agents.find? (·.id = id))
  | .query (.agentByName name) => .ok (w.db.agents.find? (·.name = name))
  | .query (.latestAccount userId provider) =>
    .ok (w.db.accounts.find? fun row => row.userId = userId ∧ row.provider = provider)
  | .query (.countActive agentId toolName scope now) =>
    .ok (w.db.grants.countP fun row =>
      row.agentId = agentId ∧ row.toolName = toolName ∧ row.scope = scope ∧
        row.revokedAt = none ∧ now < row.expiresAt)
  | .encrypt _ => .ok [0]
  | .decrypt _ => .ok demoAccessToken
  | .tokenEndpoint _ =>
    .ok ⟨200, .ok (.obj [("access_token", .str "refreshed-access-token")]), by rintro _ ⟨⟩⟩
  | .toolCall .. => .ok (.obj [("files", .arr [])])
  | .circuitAllow surface provider =>
    .ok ((w.circuits surface provider).elim true fun b => (b.allow w.now).1)
  | .registerSecret _ | .add _ | .setAccount _ | .setGrant _ | .flush | .commit | .rollback | .close
  | .circuitFor .. | .circuitSuccess .. | .circuitFailure .. | .sleep _ => .ok ()

/-- The next `n` operations of program `i` go well. -/
def run (i n : Nat) : List (Act BrokerSig Request World World.Nudge) :=
  List.replicate n (.answer i healthy)

/-- The next operation of program `i` raises. -/
def raise (i : Nat) (x : PyExn) : List (Act BrokerSig Request World World.Nudge) :=
  [.answer i fun _ _ _ => .error x]

/-- A provider that answers with `result`, where nothing fails. -/
def returning (result : Json) (w : World) (tr : Trace BrokerSig) : (e : Op) → BrokerSig.Ans e
  | .toolCall .. => .ok result
  | e => healthy w tr e

/-- The next `n` operations of program `i` go well, and the provider answers with `result`. -/
def call (i n : Nat) (result : Json) : List (Act BrokerSig Request World World.Nudge) :=
  List.replicate n (.answer i (returning result))

/-- Time passes. -/
def wait (elapsed : Nat) : List (Act BrokerSig Request World World.Nudge) :=
  [.nudge (.tick elapsed)]

/-- The demo tenant is seeded, and its agent gets a grant. -/
def issued : List (Act BrokerSig Request World World.Nudge) :=
  .spawn .seedDemo :: run 0 14 ++ .spawn (.requestGrant agentId "drive.read" "read") :: run 1 12

/-- An invocation with the grant's token. -/
def invocation (arguments : Arguments) (key : Option Str) :
    Act BrokerSig Request World World.Nudge :=
  .spawn (.invoke ⟨.grpc, token, "drive.read", arguments, key⟩)

/-- A script, played from an empty broker at midnight. -/
def played (lossy : Bool) (script : List (Act BrokerSig Request World World.Nudge)) :
    Option Broker :=
  Config.play (broker lib services lossy) (.start (World.fresh midnight)) script

/-- What can be computed of the end of a script holds of a reachable configuration. -/
theorem reached {lossy : Bool} {script : List (Act BrokerSig Request World World.Nudge)}
    {P : Broker → Bool} (holds : (played lossy script).any P = true) :
    ∃ c, (broker lib services lossy).Reaches (.start (World.fresh midnight)) c ∧ P c = true := by
  obtain ⟨c, at_, there⟩ := (Option.any_eq_true _ _).mp holds
  exact ⟨c, Config.play_reaches at_, there⟩

/-! ## A connected account -/

/-- An account whose access token has expired, and which has a refresh token. -/
def staleAccount : ConnectedAccount where
  id := ⟨3⟩
  userId := ⟨4⟩
  provider := "google"
  encryptedAccessToken := [9]
  encryptedRefreshToken := some [8]
  scopesGranted := ["read"]
  expiresAt := some midnight
  createdAt := midnight

/-- A broker at midnight, where the agent has its grant for that account. -/
def connected : World :=
  { World.fresh midnight with
    db :=
      { agents := [⟨agentId, ⟨4⟩, "agent", ["drive.read"]⟩]
        accounts := [staleAccount]
        grants := [⟨grantId, agentId, ⟨3⟩, "drive.read", "read", lib.sha256 token, midnight,
          midnight + seconds 300, none⟩]
        audit := [] } }

/-- A token endpoint that issues a refresh token, encryptions that yield `blob`, and
nothing fails. -/
def rotating (token : Str) (blob : Bytes) (w : World) (tr : Trace BrokerSig) :
    (e : Op) → BrokerSig.Ans e
  | .tokenEndpoint _ => .ok ⟨200, .ok (.obj [("access_token", .str "refreshed-access-token"),
      ("refresh_token", .str token), ("expires_in", .int 3600)]), by rintro _ ⟨⟩⟩
  | .encrypt _ => .ok blob
  | e => healthy w tr e

/-- The next `n` operations of program `i` go well, with a rotated refresh token. -/
def refresh (i n : Nat) (token : Str) (blob : Bytes) :
    List (Act BrokerSig Request World World.Nudge) :=
  List.replicate n (.answer i (rotating token blob))

/-- What can be computed of the end of a script over that broker. -/
theorem reached_connected {script : List (Act BrokerSig Request World World.Nudge)}
    {P : Broker → Bool} (holds : (Config.play (broker lib services false) (.start connected)
      script).any P = true) :
    ∃ c, (broker lib services false).Reaches (.start connected) c ∧ P c = true := by
  obtain ⟨c, at_, there⟩ := (Option.any_eq_true _ _).mp holds
  exact ⟨c, Config.play_reaches at_, there⟩

/-! ## What can be computed of a program -/

def ended (t : Thread BrokerSig Request Response) : Bool :=
  match t.prog with
  | .call .. => false
  | _ => true

theorem finished {t : Thread BrokerSig Request Response} (finished : ended t = true) :
    ∃ r, t.prog = .ofExcept r := by
  unfold ended at finished
  split at finished
  · cases finished
  · cases prog : t.prog with
    | ret a => exact ⟨.ok a, rfl⟩
    | throw x => exact ⟨.error x, rfl⟩
    | call e k => rename_i other; exact (other e k prog).elim

/-- An invocation that has ended with an outcome. -/
def outcome (t : Thread BrokerSig Request Response) : Option (InvokeRequest × InvokeOutcome) :=
  match t.req, t.prog with
  | .invoke req, .ret (.outcome o) => some (req, o)
  | _, _ => none

theorem of_outcome {t : Thread BrokerSig Request Response} {req : InvokeRequest}
    {o : InvokeOutcome} (is : outcome t = some (req, o)) :
    t.req = .invoke req ∧ t.prog = .ret (.outcome o) := by
  unfold outcome at is
  split at is
  · rename_i request finished
    obtain ⟨rfl, rfl⟩ := Prod.mk.inj (Option.some.inj is)
    exact ⟨request, finished⟩
  · cases is

/-- The arguments of a provider call. -/
def argumentsOf (e : Event BrokerSig) : Option Arguments :=
  match e.op with
  | .toolCall _ _ arguments => some arguments
  | _ => none

def succeeds (e : Event BrokerSig) : Bool :=
  match e.ans with
  | .ok _ => true
  | .error _ => false

theorem answer_of_succeeds {e : Event BrokerSig} (ok : succeeds e = true) : ∃ v, e.ans = .ok v := by
  unfold succeeds at ok
  split at ok
  · exact ⟨_, by assumption⟩
  · cases ok

end Demo

end CredBroker
