import CredBroker.Python.Json

/-!
# Exceptions

One type for what the broker raises, what its libraries raise, and the
cancellation of a task. Messages are kept where the code reads them.
-/

namespace CredBroker

open Python

inductive PyExn
  /-- `asyncio.CancelledError`, a `BaseException`. `applied` records whether the
  interrupted command had already taken effect; no code can observe it. -/
  | cancelledError (applied : Bool)
  -- credbroker.errors
  | unknownAgentError (msg : Str)
  | unknownToolError (msg : Str)
  | policyDeniedError (msg : Str)
  | grantScopeMismatchError (msg : Str)
  | noConnectedAccountError (msg : Str)
  | concurrencyLimitError (msg : Str)
  | rateLimitedError (msg : Str)
  | grantNotFoundError (msg : Str)
  | grantExpiredError (msg : Str)
  | grantTokenInvalidError (msg : Str)
  | idempotencyConflictError (msg : Str)
  | providerUnavailableError (msg : Str)
  | providerCallError (msg : Str) (statusCode : Option Int)
  | oauthFlowError (msg : Str)
  -- fastapi
  | httpException (statusCode : Nat) (detail : Str)
  -- httpx: a timeout is a transport error, a transport error is an HTTP error
  | timeoutException (msg : Str)
  | transportError (msg : Str)
  | httpError (msg : Str)
  -- botocore
  | clientError (msg : Str)
  -- jwt
  | expiredSignatureError (msg : Str)
  | pyJWTError (msg : Str)
  -- the stores; `applied` as above
  | sqlAlchemyError (applied : Bool) (msg : Str)
  | redisError (applied : Bool) (msg : Str)
  -- builtins
  | valueError (msg : Str)
  | typeError (msg : Str)
  | keyError (msg : Str)
  | attributeError (msg : Str)
  | overflowError (msg : Str)
  | assertionError (msg : Str)
  /-- Any other subclass of `Exception`. -/
  | other (name msg : Str)
  deriving DecidableEq

namespace PyExn

/-- `isinstance(exc, Exception)`: what `except Exception` stops. -/
def isException : PyExn → Bool
  | .cancelledError _ => false
  | _ => true

/-- `isinstance(exc, httpx.HTTPError)`. -/
def isHTTPError : PyExn → Bool
  | .timeoutException _ | .transportError _ | .httpError _ => true
  | _ => false

/-- `str(exc)`. -/
def str : PyExn → Str
  | .cancelledError _ => []
  | .unknownAgentError msg | .unknownToolError msg | .policyDeniedError msg
  | .grantScopeMismatchError msg | .noConnectedAccountError msg | .concurrencyLimitError msg
  | .rateLimitedError msg | .grantNotFoundError msg | .grantExpiredError msg
  | .grantTokenInvalidError msg | .idempotencyConflictError msg | .providerUnavailableError msg
  | .providerCallError msg _ | .oauthFlowError msg | .httpException _ msg
  | .timeoutException msg | .transportError msg | .httpError msg | .clientError msg
  | .expiredSignatureError msg | .pyJWTError msg | .sqlAlchemyError _ msg | .redisError _ msg
  | .valueError msg | .typeError msg | .keyError msg | .attributeError msg
  | .overflowError msg | .assertionError msg | .other _ msg => msg

end PyExn

end CredBroker
