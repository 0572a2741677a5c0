import CredBroker.Effects

/-!
# Grant cache and rate limiter

The Redis names of `cache` and the commands sent for them.
-/

namespace CredBroker

open Python Interaction

/-! ## `GrantCache` -/

namespace GrantCache

/-- The key of an issued grant. -/
def issuedKey (tokenHash : Str) : Str := "grant:" ++ tokenHash

/-- The key of a revocation marker. -/
def revokedKey (tokenHash : Str) : Str := "revoked:" ++ tokenHash

/-- `DEFAULT_REVOKED_TTL_SECONDS`. -/
def defaultRevokedTtlSeconds : Int := 600

def recordIssued (tokenHash : Str) (ttlSeconds : Int) : BrokerProg Unit := do
  let _ ← op (.redis (.set (issuedKey tokenHash) "1" false ttlSeconds))

def recordRevoked (tokenHash : Str) : BrokerProg Unit := do
  let _ ← op (.redis (.set (revokedKey tokenHash) "1" false defaultRevokedTtlSeconds))
  let _ ← op (.redis (.delete (issuedKey tokenHash)))

def isRevoked (tokenHash : Str) : BrokerProg Bool := do
  let count ← op (.redis (.existsKey (revokedKey tokenHash)))
  return count != 0

end GrantCache

/-! ## `RateLimiter` -/

namespace RateLimiter

/-- The counter of a key in one window. -/
def counterKey (key : Str) (windowIndex : Int) : Str :=
  "ratelimit:" ++ key ++ ":" ++ Str.ofInt windowIndex

theorem counterKey_eq (key : Str) (windowIndex : Int) : counterKey key windowIndex =
    "ratelimit:" ++ (key ++ ':' :: Str.ofInt windowIndex) := by
  unfold counterKey
  rw [List.append_assoc, List.append_assoc]
  rfl

/-- The default window of `check`. -/
def windowSeconds : Int := 60

/-- `check(key, limit, window_seconds)`, for a window that is not empty. -/
def check (key : Str) (limit : Int) (window : Int := windowSeconds) : BrokerProg Bool := do
  let now ← op .clock
  let windowIndex := now / seconds window
  let count ← op (.redis (.incr (counterKey key windowIndex)))
  if count = 1 then do
    let _ ← op (.redis (.expire (counterKey key windowIndex) window))
    return count ≤ limit
  else
    return count ≤ limit

end RateLimiter

end CredBroker
