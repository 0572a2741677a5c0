import CredBroker.Effects

/-!
# Console writes

The two console endpoints that write rows themselves: agent creation and the
demo seed.
-/

namespace CredBroker

open Python Interaction

/-! ## Agents -/

/-- An `AgentCreateRequest`. -/
structure AgentCreateRequest where
  name : Str
  allowedScopes : List Str
  userId : Option Uuid

/-- `body.user_id or uuid.uuid4()`. -/
def userOr : Option Uuid → BrokerProg Uuid
  | some userId => return userId
  | none => op .uuid4

/-- `create_agent(body, request)`. -/
def createAgent (body : AgentCreateRequest) : BrokerProg AgentIdentity := do
  let userId ← userOr body.userId
  withSession do
    let id ← op .uuid4
    let agent : AgentIdentity := ⟨id, userId, body.name, body.allowedScopes⟩
    op (.add (.agent agent))
    op .flush
    op .commit
    return agent

/-! ## The demo seed -/

/-- `DEMO_AGENT_NAME`. -/
def demoAgentName : Str := "demo agent"

/-- `DEMO_PROVIDER`. -/
def demoProvider : Str := "google"

/-- `DEMO_ACCESS_TOKEN`. -/
def demoAccessToken : Str := "demo-access-token-not-a-real-credential"

/-- What `seed_demo` reports. -/
structure SeedReport where
  userId : Uuid
  agentId : Uuid
  connectedAccountId : Uuid
  created : Bool

/-- The demo agent, and whether it had to be created. -/
def seedAgent : BrokerProg (AgentIdentity × Bool) := do
  match ← op (.query (.agentByName demoAgentName)) with
  | some agent => return (agent, false)
  | none => do
    let userId ← op .uuid4
    let id ← op .uuid4
    let agent : AgentIdentity := ⟨id, userId, demoAgentName, ["drive.read"]⟩
    op (.add (.agent agent))
    op .flush
    return (agent, true)

/-- The demo agent's account, and whether it had to be created. -/
def seedAccount (agent : AgentIdentity) : BrokerProg (ConnectedAccount × Bool) := do
  match ← op (.query (.latestAccount agent.userId demoProvider)) with
  | some account => return (account, false)
  | none => do
    let encryptedAccess ← op (.encrypt (.str demoAccessToken))
    let now ← op .clock
    let expiresAt ← .ofExcept (addSeconds now (365 * 86400))
    let id ← op .uuid4
    let createdAt ← op .clock
    let account : ConnectedAccount :=
      ⟨id, agent.userId, demoProvider, encryptedAccess, none, ["demo"], some expiresAt, createdAt⟩
    op (.add (.account account))
    op .flush
    return (account, true)

/-- `seed_demo(session, cipher)`. -/
def seedDemo : BrokerProg SeedReport := do
  let (agent, agentCreated) ← seedAgent
  let (account, accountCreated) ← seedAccount agent
  op .commit
  return ⟨agent.userId, agent.id, account.id, agentCreated || accountCreated⟩

end CredBroker
