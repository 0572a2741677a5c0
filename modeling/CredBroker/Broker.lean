import CredBroker.Console
import CredBroker.Invoke

/-!
# The broker

All requests that write or spend anything, served concurrently over one world.
`broker` is the machine whose runs the properties of the broker are about.
-/

namespace CredBroker

open Python Interaction

inductive Request
  | createAgent (body : AgentCreateRequest)
  | seedDemo
  | authorize (provider : Str) (userId : Uuid)
  | callback (request : CallbackRequest)
  | requestGrant (agentId : Uuid) (toolName requestedScope : Str)
  | revokeGrant (grantId : Uuid)
  | invoke (request : InvokeRequest)

inductive Response
  | agent (agent : AgentIdentity)
  | seeded (report : SeedReport)
  | state (state : Str)
  | connected (accountId : Uuid)
  | issued (issued : IssuedGrant)
  | revoked (grant : Grant)
  | outcome (outcome : InvokeOutcome)

/-- The program that serves a request. -/
def serve (lib : Lib) (svc : Services) : Request → BrokerProg Response
  | .createAgent body => .agent <$> createAgent body
  | .seedDemo => .seeded <$> withSession seedDemo
  | .authorize provider userId => .state <$> authorize lib svc.settings provider userId
  | .callback request => .connected <$> callback lib svc.settings request
  | .requestGrant agentId toolName requestedScope =>
    .issued <$> withSession (requestGrant lib svc agentId toolName requestedScope)
  | .revokeGrant grantId => .revoked <$> withSession (revokeGrant svc grantId)
  | .invoke request => .outcome <$> invoke lib svc request

/-- A broker over a Redis that may lose keys, or one that honours their TTLs. -/
def broker (lib : Lib) (svc : Services) (lossy : Bool) :
    Machine BrokerSig Request Response World World.Nudge where
  entry := serve lib svc
  Permits w tr e := w.permits tr e = true
  after := World.after
  nudge := World.nudge lossy

instance (lib : Lib) (svc : Services) (lossy : Bool) (w : World) (tr : Trace BrokerSig)
    (e : Event BrokerSig) : Decidable ((broker lib svc lossy).Permits w tr e) :=
  inferInstanceAs (Decidable (w.permits tr e = true))

/-- A configuration of the broker. -/
abbrev Broker : Type := Config BrokerSig Request Response World

end CredBroker
