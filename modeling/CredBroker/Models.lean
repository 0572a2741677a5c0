import CredBroker.Errors
import CredBroker.Python.Bytes

/-!
# Schema and settings

The rows of the four tables, the tables themselves with the constraints that
PostgreSQL enforces, the settings that the modelled services read, and the
library functions that they only call.
-/

namespace CredBroker

open Python

/-! ## Identifiers and time -/

/-- A `uuid.UUID`. -/
structure Uuid where
  bits : Fin (2 ^ 128)
  deriving DecidableEq

namespace Uuid

/-- `str(uuid)`: 32 hexadecimal digits in groups of 8, 4, 4, 4 and 12. -/
@[irreducible] def str (u : Uuid) : Str :=
  let hex := Str.hex 32 u.bits.val
  hex.take 8 ++ '-' :: (hex.drop 8).take 4 ++ '-' :: (hex.drop 12).take 4 ++
    '-' :: (hex.drop 16).take 4 ++ '-' :: hex.drop 20

/-- `uuid.UUID(text)`: a URN prefix, braces and hyphens are taken away, and 32
characters are left of a hexadecimal numeral. -/
def parse (decimal : Char → Option Nat) (text : Str) : Except PyExn Uuid :=
  let hex := (text.replace "urn:" "").replace "uuid:" ""
  let hex := (hex.strip (· ∈ ['{', '}'])).filter (· != '-')
  if hex.length ≠ 32 then .error (.valueError "badly formed hexadecimal UUID string")
  else
    match Str.intHex decimal hex with
    | none => .error (.valueError "invalid literal for int() with base 16")
    | some n =>
      if h : 0 ≤ n ∧ n < 2 ^ 128 then .ok ⟨⟨n.toNat, by omega⟩⟩
      else .error (.valueError "int is out of range (need a 128-bit value)")

end Uuid

/-- Points and spans of time, in microseconds. -/
abbrev Time : Type := Int

/-- `timedelta(seconds=n)`. -/
def seconds (n : Int) : Time := n * 1000000

/-- `time + timedelta(seconds=n)`, within the years a `datetime` can hold. -/
def addSeconds (time : Time) (n : Int) : Except PyExn Time :=
  if -62135596800000000 ≤ time + seconds n ∧ time + seconds n ≤ 253402300799999999 then
    .ok (time + seconds n)
  else .error (.overflowError "date value out of range")

/-- `int(time.timestamp())`. -/
def timestamp (time : Time) : Int := time.tdiv 1000000

/-! ## Rows -/

structure AgentIdentity where
  id : Uuid
  userId : Uuid
  name : Str
  allowedScopes : List Str
  deriving DecidableEq

structure ConnectedAccount where
  id : Uuid
  userId : Uuid
  provider : Str
  encryptedAccessToken : Bytes
  encryptedRefreshToken : Option Bytes
  scopesGranted : List Str
  expiresAt : Option Time
  createdAt : Time
  deriving DecidableEq

structure Grant where
  id : Uuid
  agentId : Uuid
  connectedAccountId : Uuid
  toolName : Str
  scope : Str
  grantTokenHash : Str
  issuedAt : Time
  expiresAt : Time
  revokedAt : Option Time
  deriving DecidableEq

/-- `tool_call_audit_log.status`. -/
inductive Status
  | success
  | failed
  | denied
  deriving DecidableEq

structure ToolCallAuditLog where
  grantId : Uuid
  toolName : Str
  argumentsHash : Str
  status : Status
  latencyMs : Nat
  deriving DecidableEq

/-- A row handed to `session.add`. -/
inductive Row
  | agent (row : AgentIdentity)
  | account (row : ConnectedAccount)
  | grant (row : Grant)
  | audit (row : ToolCallAuditLog)
  deriving DecidableEq

/-- An attribute assignment on a loaded `ConnectedAccount` or `Grant`. -/
inductive Attr
  | encryptedAccessToken (value : Bytes)
  | encryptedRefreshToken (value : Option Bytes)
  | expiresAt (value : Option Time)
  | revokedAt (value : Option Time)
  deriving DecidableEq

def ConnectedAccount.set (a : ConnectedAccount) : Attr → ConnectedAccount
  | .encryptedAccessToken value => { a with encryptedAccessToken := value }
  | .encryptedRefreshToken value => { a with encryptedRefreshToken := value }
  | .expiresAt value => { a with expiresAt := value }
  | .revokedAt _ => a

def Grant.set (g : Grant) : Attr → Grant
  | .revokedAt value => { g with revokedAt := value }
  | _ => g

/-! ## Tables -/

structure Database where
  agents : List AgentIdentity
  accounts : List ConnectedAccount
  grants : List Grant
  audit : List ToolCallAuditLog

namespace Database

def empty : Database := ⟨[], [], [], []⟩

/-- Primary keys, the unique token hash, and foreign keys. -/
def accepts (db : Database) : Row → Bool
  | .agent row => db.agents.all (·.id != row.id)
  | .account row => db.accounts.all (·.id != row.id)
  | .grant row =>
    db.grants.all (fun g => g.id != row.id && g.grantTokenHash != row.grantTokenHash) &&
      db.agents.any (·.id == row.agentId) && db.accounts.any (·.id == row.connectedAccountId)
  | .audit row => db.grants.any (·.id == row.grantId)

def insert (db : Database) : Row → Database
  | .agent row => { db with agents := db.agents ++ [row] }
  | .account row => { db with accounts := db.accounts ++ [row] }
  | .grant row => { db with grants := db.grants ++ [row] }
  | .audit row => { db with audit := db.audit ++ [row] }

/-- `UPDATE` of one attribute of the row with an id, in whichever table has it. -/
def update (db : Database) (id : Uuid) (attr : Attr) : Database :=
  { db with
    accounts := db.accounts.map fun a => if a.id = id then a.set attr else a
    grants := db.grants.map fun g => if g.id = id then g.set attr else g }

/-- Insert rows in order, if the constraints allow each of them. -/
def insertAll? (db : Database) : List Row → Option Database
  | [] => some db
  | row :: rows => if db.accepts row then (db.insert row).insertAll? rows else none

end Database

/-! ## Settings and libraries -/

structure Settings where
  publicBaseUrl : Str
  googleClientId : Str
  googleClientSecret : Str
  oauthStateSecret : Str
  oauthStateTtlSeconds : Int
  grantTokenTtlSeconds : Int
  jwtPrivateKeyPem : Str
  jwtPublicKeyPem : Str
  jwtIssuer : Str
  maxActiveGrantsPerAgentScope : Int
  outboundMaxRetries : Int
  outboundBaseDelaySeconds : Time
  circuitFailureThreshold : Int
  circuitResetSeconds : Time
  grantsPerMinutePerAgent : Int
  invokesPerMinutePerAgent : Int

/-- The library functions that the broker calls and this model does not define. -/
structure Lib where
  /-- `hashlib.sha256(text.encode()).hexdigest()`. -/
  sha256 : Str → Str
  /-- `jwt.decode(token, key, algorithms=["RS256"], issuer=..)` at a time. -/
  jwtDecode : (token key issuer : Str) → Time → Except PyExn (List (Str × Json))
  /-- It raises nothing but `Exception`s. -/
  jwtDecode_raises : ∀ token key issuer now x, jwtDecode token key issuer now = .error x →
    x.isException = true
  /-- `jwt.encode(payload, key, algorithm="RS256")`. -/
  jwtEncode : (payload : List (Str × Json)) → (key : Str) → Except PyExn Str
  /-- `hmac.new(secret.encode(), payload.encode(), hashlib.sha256).hexdigest()`. -/
  hmacSha256 : (secret payload : Str) → Str
  /-- The printed form of `float(text)`. -/
  floatRepr : Str → FloatText
  /-- `int(x)` for the finite float that is printed so. -/
  floatToInt : FloatText → Int
  /-- `str.isprintable` on one character. -/
  isPrintable : Char → Bool
  /-- The value of a decimal digit of any script. -/
  decimal : Char → Option Nat

end CredBroker
