import CredBroker.Effects

/-!
# The idempotency store

`get`, `reserve`, `complete` and `release`, each a sequence of Redis commands.
`None` is `Json.null`, as `json.loads` has it.
-/

namespace CredBroker

open Python Interaction

/-- A store that passed its constructor's check. -/
structure IdempotencyStore where
  windowSeconds : Int
  window_pos : 1 ≤ windowSeconds

namespace IdempotencyStore

/-- `PENDING_MARKER`. -/
def pendingMarker : Str := "__pending__"

/-- `RESERVATION_TTL_SECONDS`. -/
def reservationTtlSeconds : Int := 60

/-- `_name(key)`. -/
def name (key : Str) : Str := "idem:" ++ key

/-- `_pending_value(owner)`. -/
def pendingValue (owner : Str) : Str := pendingMarker ++ ":" ++ owner

/-- `value.startswith(PENDING_MARKER)`. -/
def isPending (value : Str) : Bool := pendingMarker.isPrefixOf value

/-- `get(key)`. -/
def get (lib : Lib) (key : Str) : BrokerProg Json := do
  match ← op (.redis (.get (name key))) with
  | none => return .null
  | some value =>
    if isPending value then
      .throw (.idempotencyConflictError
        "a concurrent call with the same idempotency key is in flight")
    else
      match Json.loads lib.floatRepr value with
      | some result => return result
      | none => .throw (.valueError "JSONDecodeError")

/-- `reserve(key)`: the owner token of the reservation, if it was free. -/
def reserve (key : Str) : BrokerProg (Option Str) := do
  let owner ← op .tokenHex
  let claimed ← op (.redis (.set (name key) (pendingValue owner) true reservationTtlSeconds))
  return if claimed then some owner else none

/-- `complete(key, result, owner)`. -/
def complete (store : IdempotencyStore) (key : Str) (result : Json) (owner : Option Str) :
    BrokerProg Unit := do
  let write : BrokerProg Unit := do
    let _ ← op (.redis (.set (name key) (Json.dumps .default result) false store.windowSeconds))
  match owner with
  | some owner =>
    let value ← op (.redis (.get (name key)))
    if value ≠ some (pendingValue owner) then return () else write
  | none => write

/-- `release(key, owner)`. -/
def release (key : Str) (owner : Option Str) : BrokerProg Unit := do
  match ← op (.redis (.get (name key))) with
  | none => return ()
  | some value =>
    if !isPending value then return ()
    else if owner.any fun owner => value ≠ pendingValue owner then return ()
    else do
      let _ ← op (.redis (.delete (name key)))

end IdempotencyStore

end CredBroker
