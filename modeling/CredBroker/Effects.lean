import CredBroker.Interaction.Pool
import CredBroker.Redis
import CredBroker.Reliability.Retry
import CredBroker.Tools

/-!
# Effects

The operations through which the broker's code meets its environment, and what
each of them finds and leaves in the shared `World`: the clock, PostgreSQL,
Redis, the breakers, the redaction registry. An awaited operation may raise
instead of yielding its value, and a task may be cancelled there.

An ORM session is private to one program: `Session.replay` is its state after
the events of that program.
-/

namespace CredBroker

open Python Interaction

/-! ## Operations -/

/-- The two servers of a broker process; each has its own invoke service. -/
inductive Surface
  | http
  | grpc
  deriving DecidableEq

/-- An `httpx.Response`: its status, and what `json()` returns or raises. -/
structure HttpResponse where
  statusCode : Int
  json : Except PyExn Json
  /-- It raises nothing but `Exception`s. -/
  json_raises : ∀ x, json = .error x → x.isException = true

/-- The `arguments` of a tool call. -/
abbrev Arguments : Type := List (Str × Json)

/-- The database reads. -/
inductive Query
  | grantByTokenHash (tokenHash : Str)
  | grantById (id : Uuid)
  /-- `select(Grant.id, Grant.revoked_at).where(Grant.id == id)`. -/
  | revokedAt (id : Uuid)
  | accountById (id : Uuid)
  | agentForUpdate (id : Uuid)
  | agentByName (name : Str)
  | latestAccount (userId : Uuid) (provider : Str)
  | countActive (agentId : Uuid) (toolName scope : Str) (now : Time)

abbrev Query.Val : Query → Type
  | .grantByTokenHash _ => Option Grant
  | .grantById _ => Option Grant
  | .revokedAt _ => Option (Option Time)
  | .accountById _ => Option ConnectedAccount
  | .agentForUpdate _ => Option AgentIdentity
  | .agentByName _ => Option AgentIdentity
  | .latestAccount _ _ => Option ConnectedAccount
  | .countActive .. => Nat

inductive Op
  /-- `datetime.now(UTC)`, `time.time()` and `time.monotonic()`. -/
  | clock
  | uuid4
  /-- `secrets.token_hex(16)`. -/
  | tokenHex
  | registerSecret (value : Str)
  /-- `list(_SECRET_REGISTRY)`. -/
  | secretRegistry
  | redis (cmd : Redis.Cmd)
  | query (q : Query)
  | add (row : Row)
  | setAccount (attr : Attr)
  | setGrant (attr : Attr)
  | flush
  | commit
  | rollback
  | close
  /-- `asyncio.to_thread(cipher.encrypt, plaintext)`. -/
  | encrypt (plaintext : Json)
  /-- `asyncio.to_thread(cipher.decrypt, blob)`. -/
  | decrypt (blob : Bytes)
  /-- `http_client.post(GOOGLE_TOKEN_URL, data=form)`. -/
  | tokenEndpoint (form : List (Str × Str))
  /-- `tool.call(access_token, arguments, http_client)`. -/
  | toolCall (tool : ToolAdapter) (accessToken : Str) (arguments : Arguments)
  | circuitFor (surface : Surface) (provider : Str) (failureThreshold : Int) (resetSeconds : Time)
  | circuitAllow (surface : Surface) (provider : Str)
  | circuitSuccess (surface : Surface) (provider : Str)
  | circuitFailure (surface : Surface) (provider : Str)
  | sleep (delay : Time)

abbrev Op.Val : Op → Type
  | .clock => Time
  | .uuid4 => Uuid
  | .tokenHex => Str
  | .secretRegistry => List Str
  | .redis cmd => cmd.Reply
  | .query q => q.Val
  | .encrypt _ => Bytes
  | .decrypt _ => Str
  | .tokenEndpoint _ => HttpResponse
  | .toolCall .. => Json
  | .circuitAllow .. => Bool
  | _ => Unit

abbrev BrokerSig : Sig := PySig Op Op.Val

abbrev BrokerProg (α : Type) : Type := Prog BrokerSig α

abbrev op (e : Op) : BrokerProg e.Val := @Prog.perform BrokerSig e

/-- `async with session_factory() as session`: the session is closed however the
body ends. -/
def withSession {α : Type} (body : BrokerProg α) : BrokerProg α := do
  let ended ← body.attempt
  op .close
  .ofExcept ended

/-! ## The world -/

structure World where
  now : Time
  db : Database
  /-- The agent rows that an open transaction has locked. -/
  locks : List Uuid
  redis : Redis
  circuits : Surface → Str → Option CircuitBreaker
  /-- `_SECRET_REGISTRY`. -/
  secrets : List Str
  /-- The tokens that `secrets.token_hex` has produced. -/
  nonces : List Str

namespace World

/-- A broker that has served nothing, at time `now`. -/
def fresh (now : Time) : World where
  now := now
  db := .empty
  locks := []
  redis := .empty
  circuits := fun _ _ => none
  secrets := []
  nonces := []

/-- The database reads the committed rows; `one` and `find` read at most one row. -/
def one {α : Type} (rows : List α) (p : α → Bool) : Option (Option α) :=
  match rows.filter p with
  | [] => some none
  | [row] => some (some row)
  | _ => none

end World

/-- Whether the committed rows answer a query so. -/
def Query.answeredBy (db : Database) : (q : Query) → q.Val → Bool
  | .grantByTokenHash tokenHash, a =>
    World.one db.grants (·.grantTokenHash = tokenHash) = some a
  | .grantById id, a => a = db.grants.find? (·.id = id)
  | .revokedAt id, a => a = (db.grants.find? (·.id = id)).map (·.revokedAt)
  | .accountById id, a => a = db.accounts.find? (·.id = id)
  | .agentForUpdate id, a => a = db.agents.find? (·.id = id)
  | .agentByName name, a => World.one db.agents (·.name = name) = some a
  | .latestAccount userId provider, a =>
    let rows := db.accounts.filter fun row => row.userId = userId ∧ row.provider = provider
    match a with
    | none => rows = []
    | some row => row ∈ rows ∧ ∀ other ∈ rows, other.createdAt ≤ row.createdAt
  | .countActive agentId toolName scope now, a =>
    a = db.grants.countP fun row =>
      row.agentId = agentId ∧ row.toolName = toolName ∧ row.scope = scope ∧
        row.revokedAt = none ∧ now < row.expiresAt

/-! ## Sessions -/

/-- An `AsyncSession`. A loaded row is kept as stored and as assigned since. -/
structure Session where
  added : List Row
  account : Option (ConnectedAccount × ConnectedAccount)
  grant : Option (Grant × Grant)
  locked : List Uuid
  /-- A statement of the open transaction raised. -/
  failed : Bool

namespace Session

def new : Session := ⟨[], none, none, [], false⟩

/-- The columns of the loaded account whose value changed. -/
def accountChanges (stored assigned : ConnectedAccount) : List Attr :=
  (if assigned.encryptedAccessToken = stored.encryptedAccessToken then []
    else [.encryptedAccessToken assigned.encryptedAccessToken]) ++
  (if assigned.encryptedRefreshToken = stored.encryptedRefreshToken then []
    else [.encryptedRefreshToken assigned.encryptedRefreshToken]) ++
  (if assigned.expiresAt = stored.expiresAt then [] else [.expiresAt assigned.expiresAt])

def grantChanges (stored assigned : Grant) : List Attr :=
  if assigned.revokedAt = stored.revokedAt then [] else [.revokedAt assigned.revokedAt]

/-- The `UPDATE`s of a flush. -/
def updates (s : Session) : List (Uuid × Attr) :=
  (match s.account with
    | some (stored, assigned) => (accountChanges stored assigned).map (stored.id, ·)
    | none => []) ++
  (match s.grant with
    | some (stored, assigned) => (grantChanges stored assigned).map (stored.id, ·)
    | none => [])

/-- The rows after a commit, `none` where a constraint refuses it. -/
def apply (s : Session) (db : Database) : Option Database :=
  (s.updates.foldl (fun db u => db.update u.1 u.2) db).insertAll? s.added

/-- The session after one event of its program. -/
def note (s : Session) : Event BrokerSig → Session
  | ⟨.query (.accountById _), .ok a⟩ => { s with account := a.map fun a => (a, a) }
  | ⟨.query (.grantById _), .ok g⟩ => { s with grant := g.map fun g => (g, g) }
  | ⟨.query (.agentForUpdate id), .ok (some _)⟩ => { s with locked := id :: s.locked }
  | ⟨.query _, .error _⟩ => { s with failed := true }
  | ⟨.add row, _⟩ => { s with added := s.added ++ [row] }
  | ⟨.setAccount attr, _⟩ =>
    { s with account := s.account.map fun (stored, assigned) => (stored, assigned.set attr) }
  | ⟨.setGrant attr, _⟩ =>
    { s with grant := s.grant.map fun (stored, assigned) => (stored, assigned.set attr) }
  | ⟨.flush, .error _⟩ => { s with failed := true }
  | ⟨.commit, .ok _⟩ =>
    { s with
      added := []
      account := s.account.map fun (_, assigned) => (assigned, assigned)
      grant := s.grant.map fun (_, assigned) => (assigned, assigned)
      locked := [] }
  | ⟨.commit, .error _⟩ => { s with failed := true, locked := [] }
  | ⟨.rollback, .ok _⟩ => new
  | ⟨.rollback, .error _⟩ => { s with locked := [] }
  | ⟨.close, _⟩ => new
  | _ => s

/-- The session of a program after its events. -/
def replay (tr : Trace BrokerSig) : Session := tr.foldl note new

@[simp] theorem replay_nil : replay [] = new := rfl

@[simp] theorem replay_append_singleton (tr : Trace BrokerSig) (e : Event BrokerSig) :
    replay (tr ++ [e]) = (replay tr).note e := by
  simp [replay]

end Session

/-! ## What an operation finds and leaves -/

/-- Whether an operation took effect, given its answer: the acknowledgement of a
commit may be lost. -/
def Applied {α : Type} : Except PyExn α → Bool
  | .ok _ => true
  | .error (.cancelledError applied) => applied
  | .error (.sqlAlchemyError applied _) => applied
  | .error _ => false

/-- The same for a Redis command, whose reply may be lost. -/
def AppliedRedis {α : Type} : Except PyExn α → Bool
  | .error (.redisError applied _) => applied
  | a => Applied a

namespace World

def isHexDigit (c : Char) : Bool := c.isDigit || ('a' ≤ c && c ≤ 'f')

/-- Whether the environment may answer an operation so. What is awaited may
raise anything, and only a cancellation reaches `sleep` and `close`. -/
def permits (w : World) (tr : Trace BrokerSig) : Event BrokerSig → Bool
  | ⟨.clock, .ok now⟩ => now = w.now
  | ⟨.uuid4, .ok _⟩ => true
  | ⟨.tokenHex, .ok token⟩ => token.length = 32 && token.all isHexDigit && !w.nonces.contains token
  | ⟨.registerSecret _, .ok _⟩ => true
  | ⟨.secretRegistry, .ok secrets⟩ => secrets.isPerm w.secrets
  | ⟨.redis cmd, .ok reply⟩ =>
    match w.redis.run w.now cmd with
    | some (expected, _) => reply = expected
    | none => false
  | ⟨.redis cmd, .error x⟩ =>
    !AppliedRedis (.error x : Except PyExn Unit) || (w.redis.run w.now cmd).isSome
  | ⟨.query (.agentForUpdate id), .ok a⟩ =>
    !(Session.replay tr).failed && !w.locks.contains id &&
    Query.answeredBy w.db (.agentForUpdate id) a
  | ⟨.query q, .ok a⟩ => !(Session.replay tr).failed && q.answeredBy w.db a
  | ⟨.query _, .error _⟩ => true
  | ⟨.add _, .ok _⟩ => true
  | ⟨.setAccount _, .ok _⟩ => true
  | ⟨.setGrant _, .ok _⟩ => true
  | ⟨.flush, .ok _⟩ =>
    !(Session.replay tr).failed && ((Session.replay tr).apply w.db).isSome
  | ⟨.flush, .error _⟩ => true
  | ⟨.commit, a⟩ =>
    !Applied a || (!(Session.replay tr).failed && ((Session.replay tr).apply w.db).isSome)
  | ⟨.rollback, _⟩ => true
  | ⟨.close, .ok _⟩ => true
  | ⟨.close, .error x⟩ => !x.isException
  | ⟨.encrypt (.str _), _⟩ => true
  | ⟨.encrypt _, .error _⟩ => true
  | ⟨.decrypt _, _⟩ => true
  | ⟨.tokenEndpoint _, _⟩ => true
  | ⟨.toolCall .., _⟩ => true
  | ⟨.circuitFor surface provider failureThreshold resetSeconds, a⟩ =>
    match w.circuits surface provider, CircuitBreaker.new failureThreshold resetSeconds, a with
    | some _, _, .ok _ => true
    | none, .ok _, .ok _ => true
    | none, .error x, .error y => x = y
    | _, _, _ => false
  | ⟨.circuitAllow surface provider, .ok allowed⟩ =>
    match w.circuits surface provider with
    | some b => allowed = (b.allow w.now).1
    | none => false
  | ⟨.circuitSuccess .., .ok _⟩ => true
  | ⟨.circuitFailure .., .ok _⟩ => true
  | ⟨.sleep _, .ok _⟩ => true
  | ⟨.sleep _, .error x⟩ => !x.isException
  | _ => false

/-- `_SECRET_REGISTRY.add(value)`, unless the value is too short. -/
def addSecret (w : World) (value : Str) : World :=
  if value.length < 8 ∨ value ∈ w.secrets then w else { w with secrets := w.secrets ++ [value] }

/-- Replace the breaker of one provider. -/
def putCircuit (w : World) (surface : Surface) (provider : Str) (b : CircuitBreaker) : World :=
  { w with circuits := fun s p =>
      if s = surface ∧ p = provider then some b else w.circuits s p }

/-- Change the breaker of one provider, where there is one. -/
def mapCircuit (w : World) (surface : Surface) (provider : Str)
    (f : CircuitBreaker → CircuitBreaker) : World :=
  match w.circuits surface provider with
  | some b => w.putCircuit surface provider (f b)
  | none => w

/-- End the transaction of a session: its row locks are gone. -/
def unlock (w : World) (s : Session) : World :=
  { w with locks := w.locks.filter fun id => !s.locked.contains id }

/-- The world after an answered operation. -/
def after (w : World) (tr : Trace BrokerSig) : Event BrokerSig → World
  | ⟨.tokenHex, .ok token⟩ => { w with nonces := w.nonces ++ [token] }
  | ⟨.registerSecret value, _⟩ => w.addSecret value
  | ⟨.redis cmd, a⟩ => if AppliedRedis a then { w with redis := w.redis.after w.now cmd } else w
  | ⟨.query (.agentForUpdate id), .ok (some _)⟩ => { w with locks := id :: w.locks }
  | ⟨.commit, a⟩ =>
    let s := Session.replay tr
    let w := w.unlock s
    if Applied a then { w with db := (s.apply w.db).getD w.db } else w
  | ⟨.rollback, _⟩ => w.unlock (Session.replay tr)
  | ⟨.close, _⟩ => w.unlock (Session.replay tr)
  -- the plaintext is registered in the thread, before anything there can raise
  | ⟨.encrypt (.str plaintext), _⟩ => w.addSecret plaintext
  | ⟨.decrypt _, .ok plaintext⟩ => w.addSecret plaintext
  | ⟨.circuitFor surface provider failureThreshold resetSeconds, .ok _⟩ =>
    match w.circuits surface provider, CircuitBreaker.new failureThreshold resetSeconds with
    | none, .ok b => w.putCircuit surface provider b
    | _, _ => w
  | ⟨.circuitAllow surface provider, .ok _⟩ =>
    w.mapCircuit surface provider fun b => (b.allow w.now).2
  | ⟨.circuitSuccess surface provider, .ok _⟩ => w.mapCircuit surface provider (·.recordSuccess)
  | ⟨.circuitFailure surface provider, .ok _⟩ =>
    w.mapCircuit surface provider (·.recordFailure w.now)
  | _ => w

/-- How the world moves by itself: time passes, Redis forgets keys. -/
inductive Nudge
  | tick (elapsed : Nat)
  | evict (keep : Str → Bool)

/-- A Redis that is not `lossy` forgets a key only when its time is over. -/
def nudge (lossy : Bool) : Nudge → World → Option World
  | .tick elapsed, w => some { w with now := w.now + elapsed }
  | .evict keep, w => if lossy then some { w with redis := w.redis.evict keep } else none

end World

end CredBroker
