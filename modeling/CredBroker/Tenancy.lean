import CredBroker.Mediation

/-!
# Tenant isolation

Every grant names an account of its agent's user, so the credentials that an
invocation uses are those of the user whose agent presented the grant.
-/

namespace CredBroker

open Python Interaction

variable {lib : Lib} {svc : Services} {lossy : Bool}

/-! ## The tables -/

/-- A grant with its agent and account: one user, the granted tool's provider and
scope, and a tool that the agent may use. -/
structure Tenanted (db : Database) (grant : Grant) (agent : AgentIdentity)
    (account : ConnectedAccount) : Prop where
  agent_mem : agent ∈ db.agents
  account_mem : account ∈ db.accounts
  agent_id : agent.id = grant.agentId
  account_id : account.id = grant.connectedAccountId
  user_eq : account.userId = agent.userId
  allowed : grant.toolName ∈ agent.allowedScopes
  tool : ∃ tool, getTool grant.toolName = .ok tool ∧ account.provider = tool.provider ∧
    grant.scope = tool.scope

/-- Every grant is tenanted. -/
def Database.Isolated (db : Database) : Prop :=
  ∀ grant ∈ db.grants, ∃ agent account, Tenanted db grant agent account

/-- Growth keeps a grant with its agent and account. -/
theorem Tenanted.mono {db db' : Database} {grant grant' : Grant} {agent : AgentIdentity}
    {account : ConnectedAccount} (h : Tenanted db grant agent account) (grows : db.Grows db')
    (same : grant'.issued = grant.issued) : ∃ account', Tenanted db' grant' agent account' := by
  obtain ⟨account', there, owned⟩ := grows.accounts account h.account_mem
  simp only [ConnectedAccount.owned, Prod.mk.injEq] at owned
  obtain ⟨id_eq, user_eq, provider_eq⟩ := owned
  simp only [Grant.issued, Grant.mk.injEq] at same
  obtain ⟨-, agentId, accountId, toolName, scope, -⟩ := same
  refine ⟨account', grows.agents.subset h.agent_mem, there, ?_, ?_, ?_, ?_, ?_⟩
  · rw [agentId, h.agent_id]
  · rw [accountId, id_eq, h.account_id]
  · rw [user_eq, h.user_eq]
  · rw [toolName]
    exact h.allowed
  · rw [toolName, scope, provider_eq]
    exact h.tool

/-- What an issued grant rests on was read from the tables. -/
theorem Issuable.tenanted {w : World} {c : Broker}
    (run : (broker lib svc lossy).Reaches (.start w) c) {i : Nat}
    {t : Thread BrokerSig Request Response} (thread : c.threads[i]? = some t) {grant : Grant}
    {pre : Trace BrokerSig} (issuable : Issuable grant pre) (sub : pre <+: t.trace) :
    ∃ agent account, Tenanted c.world.db grant agent account := by
  obtain ⟨agent, account, tool, locked, latest, account_id, tool_eq, allowed, scope_eq⟩ :=
    issuable.backed
  obtain ⟨v, answered, grows⟩ := read_truthful run thread (sub.subset locked)
  have agentFound : v.db.agents.find? (·.id = grant.agentId) = some agent :=
    (of_decide_eq_true answered).symm
  obtain ⟨u, answered', grows'⟩ := read_truthful run thread (sub.subset latest)
  have accountFound : account ∈ u.db.accounts.filter
      fun row => row.userId = agent.userId ∧ row.provider = tool.provider :=
    (of_decide_eq_true answered').1
  have mine := (List.mem_filter.mp accountFound).2
  simp only [decide_eq_true_eq] at mine
  obtain ⟨account', there, owned⟩ := grows'.accounts account (List.mem_filter.mp accountFound).1
  simp only [ConnectedAccount.owned, Prod.mk.injEq] at owned
  exact ⟨agent, account', {
    agent_mem := grows.agents.subset (List.mem_of_find?_eq_some agentFound)
    account_mem := there
    agent_id := by simpa using List.find?_some agentFound
    account_id := owned.1.trans account_id
    user_eq := owned.2.1.trans mine.1
    allowed := allowed
    tool := ⟨tool, tool_eq, owned.2.2.trans mine.2, scope_eq⟩ }⟩

/-- A grant that a request inserts was issued by `request_grant`. -/
theorem committed_issuable {w : World} {c : Broker}
    (run : (broker lib svc lossy).Reaches (.start w) c) {e : Entry BrokerSig World}
    (member : e ∈ c.hist) {grant : Grant} (added : .grant grant ∈ committed e.past e.event) :
    ∃ (i : Nat) (t : Thread BrokerSig Request Response) (pre : Trace BrokerSig),
      c.threads[i]? = some t ∧ pre <+: t.trace ∧ Issuable grant pre := by
  obtain ⟨t, thread, sub, -⟩ := entry_kept run member
  have held : Row.grant grant ∈ (Session.replay e.past).added := by
    unfold committed at added
    split at added
    · split at added
      · exact added
      · cases added
    · cases added
  obtain ⟨pre, a, early⟩ := Session.mem_replay_added held
  have early := (early.trans (List.prefix_append _ _)).trans sub
  have guard := kept run thread early
  refine ⟨e.tid, t, pre, thread, (List.prefix_append _ _).trans early, ?_⟩
  cases request : t.req with
  | invoke req =>
    rw [request] at guard
    obtain ⟨audit, other⟩ := guard
    cases other
  | revokeGrant grantId =>
    rw [request] at guard
    exact guard.1
  | _ =>
    rw [request] at guard
    exact guard

/-- Isolation holds along every run from an empty broker. -/
theorem run_isolated {now : Time} {c : Broker}
    (run : (broker lib svc lossy).Reaches (.start (World.fresh now)) c) : c.world.db.Isolated := by
  induction run with
  | refl => exact fun grant member => absurd member List.not_mem_nil
  | @tail b c reach step ih =>
    rcases step_wrote reach step with ⟨-, same⟩ | ⟨e, hist, -, wrote⟩
    · rwa [same]
    · intro grant member
      rcases wrote.grants grant member with ⟨grant₀, old, same⟩ | added
      · obtain ⟨agent, account, tenanted⟩ := ih grant₀ old
        obtain ⟨account', tenanted'⟩ := tenanted.mono wrote.grows same
        exact ⟨agent, account', tenanted'⟩
      · have run := reach.tail step
        obtain ⟨i, t, pre, thread, sub, issuable⟩ :=
          committed_issuable run (by simp [hist]) added
        exact issuable.tenanted run thread sub

/-! ## The credential -/

/-- The access token of an invocation is that of the account which it loaded for its grant,
and that account is of the agent's user. -/
theorem credential_tenanted {now : Time} {c : Broker}
    (run : (broker lib svc lossy).Reaches (.start (World.fresh now)) c) {i : Nat}
    {t : Thread BrokerSig Request Response} (thread : c.threads[i]? = some t)
    {req : InvokeRequest} {grant : Grant} {accessToken : Str}
    (found : looked lib req grant ∈ t.trace)
    (credential : Credential svc grant accessToken t.trace) :
    ∃ row ∈ c.world.db.grants, row.issued = grant.issued ∧ ∃ agent stored,
      Tenanted c.world.db row agent stored ∧ ∃ account,
        ⟨.query (.accountById grant.connectedAccountId), .ok (some account)⟩ ∈ t.trace ∧
          account.owned = stored.owned ∧ Obtained svc account accessToken t.trace := by
  obtain ⟨-, row, there, same⟩ := looked_row run thread found
  obtain ⟨agent, stored, tenanted⟩ := run_isolated run row there
  obtain ⟨account, loaded, obtained⟩ := credential
  obtain ⟨v, answered, grows⟩ := read_truthful run thread loaded
  have accountFound : v.db.accounts.find? (·.id = grant.connectedAccountId) = some account :=
    (of_decide_eq_true answered).symm
  obtain ⟨account', there', owned⟩ :=
    grows.accounts account (List.mem_of_find?_eq_some accountFound)
  have keyed := (run_grows .refl run).2 Database.keyed_empty
  have ids : account'.id = stored.id := by
    have named : account.id = grant.connectedAccountId := by
      simpa using List.find?_some accountFound
    simp only [ConnectedAccount.owned, Prod.mk.injEq] at owned
    simp only [Grant.issued, Grant.mk.injEq] at same
    rw [owned.1, named, ← same.2.2.1, tenanted.account_id]
  obtain rfl := Database.eq_of_key keyed.accounts there' tenanted.account_mem ids
  exact ⟨row, there, same, agent, account', tenanted, account, loaded, owned.symm, obtained⟩

/-- Tenant isolation, of the tables and of every credential that is used. -/
theorem tenant_isolation {now : Time} {c : Broker}
    (run : (broker lib svc lossy).Reaches (.start (World.fresh now)) c) :
    c.world.db.Isolated ∧
      ∀ (i : Nat) (t : Thread BrokerSig Request Response) (tool : ToolAdapter) (accessToken : Str)
        (arguments : Arguments), c.threads[i]? = some t →
        t.prog.next = some (.toolCall tool accessToken arguments) →
        ∃ req grant, t.req = .invoke req ∧ looked lib req grant ∈ t.trace ∧
          ∃ row ∈ c.world.db.grants, row.issued = grant.issued ∧ ∃ agent stored,
            Tenanted c.world.db row agent stored ∧ ∃ account,
              ⟨.query (.accountById grant.connectedAccountId), .ok (some account)⟩ ∈ t.trace ∧
                account.owned = stored.owned ∧ Obtained svc account accessToken t.trace := by
  refine ⟨run_isolated run, fun i t tool accessToken arguments thread next => ?_⟩
  obtain ⟨req, request, -, -, -, grant, mediated⟩ := mediated_of_guard (next_kept run thread next)
  exact ⟨req, grant, request, mediated.admitted.live.found,
    credential_tenanted run thread mediated.admitted.live.found mediated.credential⟩

/-- The demo tenant's run comes to the provider, with its own credential. -/
theorem tenant_isolation_demo : ∃ (c : Broker) (i : Nat) (t : Thread BrokerSig Request Response)
    (accessToken : Str),
    (broker Demo.lib Demo.services false).Reaches (.start (World.fresh Demo.midnight)) c ∧
      c.threads[i]? = some t ∧ c.world.db.grants ≠ [] ∧ c.world.db.Isolated ∧
      ∃ req grant, t.req = .invoke req ∧ looked Demo.lib req grant ∈ t.trace ∧
        ∃ row ∈ c.world.db.grants, row.issued = grant.issued ∧ ∃ agent stored,
          Tenanted c.world.db row agent stored ∧ ∃ account,
            ⟨.query (.accountById grant.connectedAccountId), .ok (some account)⟩ ∈ t.trace ∧
              account.owned = stored.owned ∧
              Obtained Demo.services account accessToken t.trace := by
  obtain ⟨c, run, i, t, tool, accessToken, arguments, thread, next⟩ := Demo.calling
  obtain ⟨isolated, credentials⟩ := tenant_isolation run
  have credential := credentials i t tool accessToken arguments thread next
  refine ⟨c, i, t, accessToken, run, thread, ?_, isolated, credential⟩
  obtain ⟨req, grant, -, -, row, there, -⟩ := credential
  exact List.ne_nil_of_mem there

end CredBroker
