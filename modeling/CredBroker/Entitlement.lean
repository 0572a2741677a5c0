import CredBroker.Bookkeeping
import CredBroker.GrantRows
import CredBroker.Invocation.Scope
import CredBroker.OAuthState
import CredBroker.Tenancy

/-!
# The broker keeps a ledger

Every commit of the broker is a series of changes that the ledger accepts, and that the
request which commits is entitled to; nothing else changes it. So the tables are sound at
every moment, and each entry of them changes only by the requests that it concerns.
-/

namespace CredBroker

open Python Interaction

variable {lib : Lib} {svc : Services} {lossy : Bool}

/-! ## What a request may change -/

/-- The changes that a request may make. An invocation acts for the grant that has its
token: it renews that grant's account and logs its call under it. -/
def Entitled (lib : Lib) (l : Ledger) : Request → Change → Prop
  | .createAgent body, .enrol agent => agent.name = body.name ∧
      agent.allowedScopes = body.allowedScopes ∧
      ∀ userId, body.userId = some userId → agent.userId = userId
  | .seedDemo, .enrol agent => agent.name = demoAgentName ∧ agent.allowedScopes = ["drive.read"]
  | .seedDemo, .connect account => account.provider = demoProvider ∧
      account.encryptedRefreshToken = none
  | .callback _, .connect account => account.provider = oauthProvider
  | .requestGrant agentId toolName scope, .issue grant => grant.agentId = agentId ∧
      grant.toolName = toolName ∧ grant.scope = scope
  | .revokeGrant grantId, .revoke id _ => id = grantId
  | .invoke req, .renew id _ => ∃ grant, l.grants grant.id = some grant ∧
      grant.grantTokenHash = hashToken lib req.grantToken ∧ grant.connectedAccountId = id
  | .invoke req, .record row => row.toolName = req.toolName ∧
      row.argumentsHash = hashArguments lib req.arguments ∧
      ∃ grant, l.grants row.grantId = some grant ∧
        grant.grantTokenHash = hashToken lib req.grantToken
  | _, _ => False

/-- What a request prepares for the tables, other than grants and calls. -/
def Prepares : Request → Op → Prop
  | .createAgent body, .add row => ∃ agent, row = .agent agent ∧ agent.name = body.name ∧
      agent.allowedScopes = body.allowedScopes ∧
      ∀ userId, body.userId = some userId → agent.userId = userId
  | .seedDemo, .add row =>
      (∃ agent, row = .agent agent ∧ agent.name = demoAgentName ∧
        agent.allowedScopes = ["drive.read"]) ∨
      ∃ account, row = .account account ∧ account.provider = demoProvider ∧
        account.encryptedRefreshToken = none
  | .callback _, .add row => ∃ account, row = .account account ∧ account.provider = oauthProvider
  | .authorize .., .add _ => False
  | _, _ => True

theorem prepares_of_other {r : Request} {e : Op} (other : e.isAdd = false) : Prepares r e := by
  cases e with
  | add row => cases other
  | _ => cases r <;> trivial

theorem op_prepares {r : Request} {e : Op} (other : e.isAdd = false) : (op e).Uses (Prepares r) :=
  (Prog.uses_perform _).mpr (prepares_of_other other)

theorem within_prepares {α : Type} {r : Request} {p : BrokerProg α} {c : Op → Bool}
    (uses : Within p c) (other : ∀ {e : Op}, c e = true → e.isAdd = false) : p.Uses (Prepares r) :=
  Prog.Uses.mono uses fun _ is => prepares_of_other (other is)

theorem withSession_prepares {α : Type} {r : Request} {p : BrokerProg α}
    (uses : p.Uses (Prepares r)) : (withSession p).Uses (Prepares r) :=
  .bind (.attempt uses) fun _ => .bind (op_prepares rfl) fun _ => Prog.uses_ofExcept _

theorem createAgent_prepares (body : AgentCreateRequest) :
    (createAgent body).Uses (Prepares (.createAgent body)) := by
  have user : (userOr body.userId).Returns fun userId =>
      ∀ userId', body.userId = some userId' → userId = userId' := by
    unfold userOr
    split
    · rename_i userId given
      intro userId' same
      exact Option.some.inj (given.symm.trans same)
    · rename_i none
      rintro (x | userId)
      · trivial
      · intro userId' same
        rw [none] at same
        cases same
  refine .bind_of ?_ user fun userId named => withSession_prepares <|
    .bind (op_prepares rfl) fun id => .bind ?_ fun _ => .bind (op_prepares rfl) fun _ =>
      .bind (op_prepares rfl) fun _ => trivial
  · unfold userOr
    split
    · trivial
    · exact op_prepares rfl
  · exact (Prog.uses_perform _).mpr ⟨_, rfl, rfl, rfl, named⟩

theorem seedDemo_prepares : seedDemo.Uses (Prepares .seedDemo) := by
  refine .bind (.bind (op_prepares rfl) fun agent => ?_) fun _ =>
    .bind (.bind (op_prepares rfl) fun account => ?_) fun _ => .bind (op_prepares rfl)
    fun _ => trivial
  · split
    · trivial
    · exact .bind (op_prepares rfl) fun _ => .bind (op_prepares rfl) fun _ =>
        .bind ((Prog.uses_perform _).mpr (.inl ⟨_, rfl, rfl, rfl⟩)) fun _ =>
        .bind (op_prepares rfl) fun _ => trivial
  · split
    · trivial
    · exact .bind (op_prepares rfl) fun _ => .bind (op_prepares rfl) fun _ =>
        .bind (Prog.uses_ofExcept _) fun _ => .bind (op_prepares rfl) fun _ =>
        .bind (op_prepares rfl) fun _ =>
        .bind ((Prog.uses_perform _).mpr (.inr ⟨_, rfl, rfl, rfl⟩)) fun _ =>
        .bind (op_prepares rfl) fun _ => trivial

theorem callback_prepares (request : CallbackRequest) :
    (callback lib svc.settings request).Uses (Prepares (.callback request)) := by
  have plain : ∀ {e : Op}, e.isPlain = true → e.isAdd = false := by
    intro e is
    cases e <;> first | rfl | cases is
  have register : ∀ {e : Op}, e.isRegister = true → e.isAdd = false := by
    intro e is
    cases e <;> first | rfl | cases is
  refine .bind (.ite (fun _ => trivial) fun _ => trivial) fun _ => ?_
  split
  · trivial
  · refine .bind (.bind (.attempt ?_) fun r => ?_) fun _ => ?_
    · exact .bind (within_prepares (verifyState_plain _) plain) fun _ =>
        .bind (Prog.uses_ofExcept _) fun _ =>
        .bind (.bind (op_prepares rfl) fun _ =>
          within_prepares (parseTokenResponse_uses _) register) fun _ => trivial
    · split <;> trivial
    · refine .bind (op_prepares rfl) fun _ => .bind ?_ fun _ =>
        .bind (within_prepares (expiryOf_uses _) plain) fun _ => withSession_prepares ?_
      · exact .ite (fun _ => .bind (op_prepares rfl) fun _ => trivial) fun _ => trivial
      · exact .bind (op_prepares rfl) fun _ => .bind (op_prepares rfl) fun _ =>
          .bind ((Prog.uses_perform _).mpr ⟨_, rfl, rfl⟩) fun _ => .bind (op_prepares rfl)
          fun _ => .bind (op_prepares rfl) fun _ => trivial
  · trivial

theorem authorize_prepares (provider : Str) (userId : Uuid) :
    (authorize lib svc.settings provider userId).Uses (Prepares (.authorize provider userId)) := by
  refine .bind (.ite (fun _ => trivial) fun _ => trivial) fun _ =>
    .ite (fun _ => trivial) fun _ => ?_
  exact .bind (op_prepares rfl) fun _ => .bind (op_prepares rfl) fun _ => trivial

variable (lib svc) in
theorem wp_serve_prepares (r : Request) :
    wp (broker lib svc lossy) (.guarding fun _ => Prepares r) (serve lib svc r)
      (fun _ _ => True) [] := by
  have guarded : ∀ {α : Type} {p : BrokerProg α}, p.Uses (Prepares r) →
      wp (broker lib svc lossy) (.guarding fun _ => Prepares r) p (fun _ _ => True) [] :=
    fun uses => wp_guarded uses fun _ _ is => is
  cases r with
  | createAgent body => exact wp_map (guarded (createAgent_prepares body))
  | seedDemo => exact wp_map (guarded (withSession_prepares seedDemo_prepares))
  | authorize provider userId => exact wp_map (guarded (authorize_prepares provider userId))
  | callback request => exact wp_map (guarded (callback_prepares request))
  | _ =>
    refine wp_free fun _ e => ?_
    cases e <;> trivial

/-! ## One commit -/

theorem Tenanted.ledger_backed {db : Database} (keyed : db.Keyed) {grant : Grant}
    {agent : AgentIdentity} {account : ConnectedAccount}
    (tenanted : Tenanted db grant agent account) :
    db.ledger.Backed grant := by
  obtain ⟨tool, found, provider, scope⟩ := tenanted.tool
  refine ⟨agent, account, tool, ?_, ?_, tenanted.user_eq, tenanted.allowed, found, provider, scope⟩
  · rw [← tenanted.agent_id]
    exact Database.find_of_mem keyed.agents tenanted.agent_mem
  · rw [← tenanted.account_id]
    exact Database.find_of_mem keyed.accounts tenanted.account_mem

/-- What no update of a grant touches. -/
theorem Grant.of_issued {grant grant' : Grant} (same : grant'.issued = grant.issued) :
    grant'.id = grant.id ∧ grant'.connectedAccountId = grant.connectedAccountId ∧
      grant'.grantTokenHash = grant.grantTokenHash := by
  simp only [Grant.issued, Grant.mk.injEq] at same
  exact ⟨same.1, same.2.2.1, same.2.2.2.2.2.1⟩

theorem updateChange_of_credential {u : Uuid × Attr} (credential : u.2.isCredential = true) :
    updateChange u = .renew u.1 u.2 := by
  obtain ⟨id, attr⟩ := u
  cases attr with
  | revokedAt value => cases credential
  | _ => rfl

section Run

variable {now : Time} {c : Broker}
  (run : (broker lib svc lossy).Reaches (.start (World.fresh now)) c)

include run

theorem run_keyed : c.world.db.Keyed := (run_grows .refl run).2 Database.keyed_empty

/-- The row that a program has looked up is in the ledger, as it was issued. -/
theorem ledger_looked {i : Nat} {t : Thread BrokerSig Request Response}
    (thread : c.threads[i]? = some t) {req : InvokeRequest} {grant : Grant}
    (found : looked lib req grant ∈ t.trace) :
    ∃ row, c.world.db.ledger.grants grant.id = some row ∧ row.issued = grant.issued ∧
      row.grantTokenHash = hashToken lib req.grantToken := by
  obtain ⟨hash, row, there, same⟩ := looked_row run thread found
  obtain ⟨ids, -, hashes⟩ := Grant.of_issued same
  exact ⟨row, ids ▸ Database.find_of_mem (run_keyed run).grants there, same, hashes.trans hash⟩

/-- So is the account that it has loaded. -/
theorem ledger_loaded {i : Nat} {t : Thread BrokerSig Request Response}
    (thread : c.threads[i]? = some t) {id : Uuid} {account : ConnectedAccount}
    (loaded : ⟨.query (.accountById id), .ok (some account)⟩ ∈ t.trace) :
    account.id = id ∧ (c.world.db.ledger.accounts id).isSome = true := by
  obtain ⟨v, answered, grows⟩ := read_truthful run thread loaded
  have found : v.db.accounts.find? (·.id = id) = some account := (of_decide_eq_true answered).symm
  have named : account.id = id := by simpa using List.find?_some found
  obtain ⟨account', there, owned⟩ := grows.accounts account (List.mem_of_find?_eq_some found)
  have ids : account'.id = id := (congrArg Prod.fst owned).trans named
  exact ⟨named, List.find?_isSome.mpr ⟨account', there, decide_eq_true ids⟩⟩

/-- A grant that is about to be committed is backed, and not revoked. -/
theorem ledger_issuable {i : Nat} {t : Thread BrokerSig Request Response}
    (thread : c.threads[i]? = some t) {grant : Grant}
    (added : .grant grant ∈ (Session.replay t.trace).added) :
    grant.revokedAt = none ∧ c.world.db.ledger.Backed grant := by
  obtain ⟨pre, a, sub⟩ := Session.mem_replay_added added
  have guard := kept run thread sub
  have issuable : Issuable grant pre := by
    cases request : t.req with
    | invoke req =>
      rw [request] at guard
      obtain ⟨audit, other⟩ := guard
      cases other
    | revokeGrant grantId =>
      rw [request] at guard
      exact guard.1
    | _ =>
      rw [request] at guard
      exact guard
  obtain ⟨agent, account, tenanted⟩ :=
    issuable.tenanted run thread ((List.prefix_append _ _).trans sub)
  exact ⟨issuable.unrevoked, tenanted.ledger_backed (run_keyed run)⟩

/-- An invocation loads the account of the grant of its token. -/
theorem invocation_loads {i : Nat} {t : Thread BrokerSig Request Response}
    (thread : c.threads[i]? = some t) {req : InvokeRequest} (request : t.req = .invoke req)
    {id : Uuid} {account : Option ConnectedAccount}
    (loaded : ⟨.query (.accountById id), .ok account⟩ ∈ t.trace) :
    ∃ grant, looked lib req grant ∈ t.trace ∧ id = grant.connectedAccountId := by
  obtain ⟨pre, v, sub, -⟩ := entry_of_event run thread loaded
  obtain ⟨grant, found, serves⟩ := kept_scoped run thread request sub rfl
  obtain ⟨tool, -, mine⟩ := serves rfl
  exact ⟨grant, sub.subset (List.mem_append_left _ found), of_decide_eq_true mine⟩

/-- What an invocation commits, it does for the grant of its token. -/
theorem invocation_entitled {i : Nat} {t : Thread BrokerSig Request Response}
    (thread : c.threads[i]? = some t) {req : InvokeRequest} (request : t.req = .invoke req) :
    ∀ change ∈ (Session.replay t.trace).ledgerChanges,
      Entitled lib c.world.db.ledger t.req change := by
  rw [request]
  intro change member
  rcases List.mem_append.mp member with member | member
  · obtain ⟨u, update, rfl⟩ := List.mem_map.mp member
    have credential := Session.credential_of_updates
      (unset_of_invocation run thread request List.prefix_rfl) update
    obtain ⟨⟨id, account, loaded, named⟩, -⟩ := Session.mem_updates_credential credential update
    rw [updateChange_of_credential credential]
    obtain ⟨grant, found, rfl⟩ := invocation_loads run thread request loaded
    obtain ⟨row, there, same, hash⟩ := ledger_looked run thread found
    obtain ⟨ids, accounts, -⟩ := Grant.of_issued same
    refine ⟨row, by rw [ids]; exact there, hash, ?_⟩
    rw [named, (ledger_loaded run thread loaded).1, accounts]
  · obtain ⟨row, added, rfl⟩ := List.mem_map.mp member
    obtain ⟨pre, a, sub⟩ := Session.mem_replay_added added
    obtain ⟨grant, found, status, latencyMs, rfl⟩ := kept_scoped run thread request sub rfl
    obtain ⟨row, there, -, hash⟩ :=
      ledger_looked run thread (sub.subset (List.mem_append_left _ found))
    exact ⟨rfl, rfl, row, there, hash⟩

/-- What the requests that only add rows commit, they have prepared. -/
theorem plain_entitled {i : Nat} {t : Thread BrokerSig Request Response}
    (thread : c.threads[i]? = some t)
    (plain : ∀ e, Prepares t.req e → ∀ row, e = .add row →
      Entitled lib c.world.db.ledger t.req row.change)
    (updateless : (Session.replay t.trace).updates = []) :
    ∀ change ∈ (Session.replay t.trace).ledgerChanges,
      Entitled lib c.world.db.ledger t.req change := by
  rw [Session.ledgerChanges, updateless]
  intro change member
  obtain ⟨row, added, rfl⟩ := List.mem_map.mp member
  obtain ⟨pre, a, sub⟩ := Session.mem_replay_added added
  exact plain _ (run.kept thread (wp_serve_prepares lib svc t.req) (Role.met_guarding _ _) sub)
    row rfl

/-- A request that assigns to nothing updates nothing. -/
theorem updateless_of_plain {i : Nat} {t : Thread BrokerSig Request Response}
    (thread : c.threads[i]? = some t) (plain : requestGuard lib svc t.req = plainGuard)
    (leaves : ∀ e, grantGuard t.req e → e.leavesGrants = true) :
    (Session.replay t.trace).updates = [] := by
  have unset : ∀ e ∈ t.trace, ∀ attr, e.op ≠ .setGrant attr := by
    intro e member attr assigns
    obtain ⟨pre, post, cut⟩ := List.append_of_mem member
    have sub : pre ++ [e] <+: t.trace := ⟨post, by simp [cut]⟩
    have left := leaves _
      (run.kept thread (wp_serve_grants lib svc t.req) (Role.met_guarding _ _) sub)
    rw [assigns] at left
    cases left
  apply List.eq_nil_iff_forall_not_mem.mpr
  intro u update
  obtain ⟨-, a, assigns⟩ :=
    Session.mem_updates_credential (Session.credential_of_updates unset update) update
  obtain ⟨pre, post, cut⟩ := List.append_of_mem assigns
  have guard := kept run thread (⟨post, by simp [cut]⟩ : pre ++ [⟨.setAccount u.2, a⟩] <+: t.trace)
  rw [plain] at guard
  exact guard

variable (lib) in
/-- What a session is about to commit is for its request to make, and the ledger takes it. -/
structure Accounted (l : Ledger) (r : Request) (s : Session) : Prop where
  entitled : ∀ change ∈ s.ledgerChanges, Entitled lib l r change
  accepts : ∀ u ∈ s.updates, l.Accepts (updateChange u)

/-- The requests that only add rows add those that they have prepared. -/
theorem plain_accounted {i : Nat} {t : Thread BrokerSig Request Response}
    (thread : c.threads[i]? = some t) (plain : requestGuard lib svc t.req = plainGuard)
    (leaves : ∀ e, grantGuard t.req e → e.leavesGrants = true)
    (entitled : ∀ e, Prepares t.req e → ∀ row, e = .add row →
      Entitled lib c.world.db.ledger t.req row.change) :
    Accounted lib c.world.db.ledger t.req (Session.replay t.trace) := by
  have updateless := updateless_of_plain run thread plain leaves
  refine ⟨plain_entitled run thread entitled updateless, ?_⟩
  rw [updateless]
  exact fun u member => absurd member List.not_mem_nil

/-- A request for a grant commits the grant that it may have, and nothing else. -/
theorem issue_accounted {i : Nat} {t : Thread BrokerSig Request Response}
    {agentId : Uuid} {toolName scope : Str} (request : t.req = .requestGrant agentId toolName scope)
    (thread : c.threads[i]? = some t) {k : BrokerSig.Ans .commit → BrokerProg Response}
    (pending : t.prog = .call .commit k) {a : BrokerSig.Ans .commit}
    (permits : c.world.permits t.trace ⟨.commit, a⟩ = true) :
    Accounted lib c.world.db.ledger t.req (Session.replay t.trace) := by
  have run' : (broker lib svc lossy).Reaches (.start (World.fresh now))
      (c.answer (broker lib svc lossy) i t ⟨.commit, a⟩ (k a)) :=
    run.tail (.answer thread pending permits)
  have there := Config.answer_self (broker lib svc lossy) thread ⟨.commit, a⟩ (k a)
  have last : (⟨i, c.world, t.trace, ⟨.commit, a⟩⟩ : Entry BrokerSig World) ∈
      (c.answer (broker lib svc lossy) i t ⟨.commit, a⟩ (k a)).hist :=
    List.mem_append_right _ (List.mem_singleton_self _)
  obtain ⟨u, there', issue⟩ := entry_issuing run' last
  obtain rfl := Option.some.inj (there.symm.trans there')
  have issue : issueGuard svc t.req t.trace .commit := issue
  rw [request] at issue
  obtain ⟨grant, time, count, issuing⟩ := issue rfl
  have session := Session.replay_issuing issuing
  have updateless : (Session.replay t.trace).updates = [] := by rw [session]; rfl
  constructor
  · rw [Session.ledgerChanges, updateless, session, request]
    intro change member
    rw [List.mem_singleton.mp (by simpa using member : change ∈ [Row.change (.grant grant)])]
    exact ⟨issuing.agent_eq, issuing.tool_eq, issuing.scope_eq⟩
  · rw [updateless]
    exact fun u member => absurd member List.not_mem_nil

/-- A request to revoke a grant commits the revocation of the row that it has found. -/
theorem revocation_accounted {i : Nat} {t : Thread BrokerSig Request Response} {grantId : Uuid}
    (request : t.req = .revokeGrant grantId) (thread : c.threads[i]? = some t)
    (guard : requestGuard lib svc t.req t.trace .commit) :
    Accounted lib c.world.db.ledger t.req (Session.replay t.trace) := by
  rw [request] at guard ⊢
  obtain ⟨grant, time, unrevoked, past⟩ := guard.2 rfl
  have updates : (Session.replay t.trace).updates = [(grant.id, .revokedAt (some time))] := by
    simp [past, Session.replay, Session.note, Session.new, Session.updates, Session.grantChanges,
      Grant.set, unrevoked]
  have none : (Session.replay t.trace).added = [] := by rw [past]; rfl
  have loaded : (⟨.query (.grantById grantId), .ok (some grant)⟩ : Event BrokerSig) ∈ t.trace := by
    rw [past]
    exact List.mem_cons_self
  obtain ⟨v, answered, grows⟩ := read_truthful run thread loaded
  have found : v.db.grants.find? (·.id = grantId) = some grant := (of_decide_eq_true answered).symm
  have named : grant.id = grantId := by simpa using List.find?_some found
  obtain ⟨row, member, same, -⟩ := grows.grants grant (List.mem_of_find?_eq_some found)
  have ids : row.id = grant.id := (Grant.of_issued same).1
  constructor
  · rw [Session.ledgerChanges, updates, none]
    intro change member
    rw [List.mem_singleton.mp (by simpa using member :
      change ∈ [updateChange (grant.id, .revokedAt (some time))])]
    exact named
  · rw [updates]
    intro u member
    rw [List.mem_singleton.mp member]
    exact List.find?_isSome.mpr ⟨row, by assumption, decide_eq_true ids⟩

/-- An invocation commits credentials of the account that it has loaded, and its audit row. -/
theorem invocation_accounted {i : Nat} {t : Thread BrokerSig Request Response}
    {req : InvokeRequest} (request : t.req = .invoke req) (thread : c.threads[i]? = some t) :
    Accounted lib c.world.db.ledger t.req (Session.replay t.trace) := by
  refine ⟨invocation_entitled run thread request, fun u update => ?_⟩
  have credential := Session.credential_of_updates
    (unset_of_invocation run thread request List.prefix_rfl) update
  obtain ⟨⟨id, account, loaded, named⟩, -⟩ := Session.mem_updates_credential credential update
  obtain ⟨same, there⟩ := ledger_loaded run thread loaded
  rw [updateChange_of_credential credential]
  exact ⟨by rw [named, same]; exact there, credential⟩

/-- Whatever a request commits is accounted for. -/
theorem commit_accounted {i : Nat} {t : Thread BrokerSig Request Response}
    (thread : c.threads[i]? = some t) {k : BrokerSig.Ans .commit → BrokerProg Response}
    (pending : t.prog = .call .commit k) {a : BrokerSig.Ans .commit}
    (permits : c.world.permits t.trace ⟨.commit, a⟩ = true) :
    Accounted lib c.world.db.ledger t.req (Session.replay t.trace) := by
  have plain := plain_accounted run thread
  cases request : t.req with
  | createAgent body =>
    rw [request] at plain
    refine plain rfl (fun e leaves => leaves) ?_
    rintro e prepared row rfl
    obtain ⟨agent, rfl, spec⟩ := prepared
    exact spec
  | seedDemo =>
    rw [request] at plain
    refine plain rfl (fun e leaves => leaves) ?_
    rintro e prepared row rfl
    rcases prepared with ⟨agent, rfl, spec⟩ | ⟨account, rfl, spec⟩
    · exact spec
    · exact spec
  | authorize provider userId =>
    rw [request] at plain
    refine plain rfl (fun e leaves => leaves) ?_
    rintro e prepared row rfl
    exact prepared.elim
  | callback callback =>
    rw [request] at plain
    refine plain rfl (fun e leaves => leaves) ?_
    rintro e prepared row rfl
    obtain ⟨account, rfl, spec⟩ := prepared
    exact spec
  | requestGrant agentId toolName scope =>
    exact request ▸ issue_accounted run request thread pending permits
  | revokeGrant grantId =>
    have guard : requestGuard lib svc t.req t.trace .commit :=
      kept (run.tail (.answer thread pending permits))
        (Config.answer_self (broker lib svc lossy) thread ⟨.commit, a⟩ (k a)) List.prefix_rfl
    exact request ▸ revocation_accounted run request thread guard
  | invoke req => exact request ▸ invocation_accounted run request thread

/-- What one commit does to the ledger. -/
theorem commit_ledger {i : Nat} {t : Thread BrokerSig Request Response}
    (thread : c.threads[i]? = some t) {k : BrokerSig.Ans .commit → BrokerProg Response}
    (pending : t.prog = .call .commit k) {a : BrokerSig.Ans .commit}
    (permits : c.world.permits t.trace ⟨.commit, a⟩ = true) (applied : Applied a = true) :
    ∃ changes, (∀ change ∈ changes, Entitled lib c.world.db.ledger t.req change) ∧
      Ledger.Commits c.world.db.ledger changes (c.world.after t.trace ⟨.commit, a⟩).db.ledger := by
  obtain ⟨entitled, accepts⟩ := commit_accounted run thread pending permits
  obtain ⟨db', commit⟩ : ∃ db', (Session.replay t.trace).apply c.world.db = some db' := by
    simp only [World.permits, applied, Bool.not_true, Bool.false_or, Bool.and_eq_true] at permits
    exact Option.isSome_iff_exists.mp permits.2
  have db_eq : (c.world.after t.trace ⟨.commit, a⟩).db = db' := by
    simp [World.after, applied, commit]
  rw [db_eq]
  exact ⟨_, entitled, commits_of_apply (session_mild run thread) commit accepts
    fun grant added => ledger_issuable run thread added⟩

end Run

/-! ## One step, and whole runs -/

/-- What a step does to the ledger: nothing, or the changes of one commit. -/
inductive LedgerStep (lib : Lib) (b b' : Broker) : Prop
  | same (ledger : b'.world.db = b.world.db)
  | commits {g : Entry BrokerSig World} {t : Thread BrokerSig Request Response}
      {changes : List Change} (hist : b'.hist = b.hist ++ [g]) (commit : g.event.op = .commit)
      (thread : b'.threads[g.tid]? = some t)
      (entitled : ∀ change ∈ changes, Entitled lib b.world.db.ledger t.req change)
      (commits : Ledger.Commits b.world.db.ledger changes b'.world.db.ledger)

theorem step_ledger {now : Time} {c c' : Broker}
    (run : (broker lib svc lossy).Reaches (.start (World.fresh now)) c)
    (step : (broker lib svc lossy).Step c c') : LedgerStep lib c c' := by
  cases step with
  | spawn r => exact .same rfl
  | nudge n moved => exact .same (World.nudge_db moved)
  | @answer i t e k a thread pending permits =>
    by_cases unapplied : ∀ a' : BrokerSig.Ans .commit, (⟨e, a⟩ : Event BrokerSig) = ⟨.commit, a'⟩ →
        Applied a' = false
    · exact .same (World.after_db_unapplied _ _ unapplied)
    · obtain ⟨a', effective⟩ := not_forall.mp unapplied
      obtain ⟨same, applied⟩ := Classical.not_imp.mp effective
      cases same
      obtain ⟨changes, entitled, commits⟩ :=
        commit_ledger run thread pending permits (Bool.not_eq_false _ ▸ applied)
      exact .commits rfl rfl (Config.answer_self _ thread _ _) entitled commits

/-- A change that was allowed stays so while the ledger grows. -/
theorem Entitled.mono {l l' : Ledger} (extends_ : l.Extends l') {r : Request} {change : Change}
    (entitled : Entitled lib l r change) : Entitled lib l' r change := by
  cases r with
  | invoke req =>
    cases change with
    | renew id attr =>
      obtain ⟨grant, there, hash, account⟩ := entitled
      obtain ⟨grant', there', same, -⟩ := extends_.grants _ _ there
      rw [← same] at there' hash account
      have ids : grant.id = grant'.id := (congrArg Grant.id same).symm
      exact ⟨grant', ids ▸ there', hash, account⟩
    | record row =>
      obtain ⟨tool, arguments, grant, there, hash⟩ := entitled
      obtain ⟨grant', there', same, -⟩ := extends_.grants _ _ there
      rw [← same] at hash
      exact ⟨tool, arguments, grant', there', hash⟩
    | _ => exact entitled
  | _ => cases change <;> exact entitled

/-- Only an invocation renews a credential. -/
theorem Entitled.of_renew {l : Ledger} {r : Request} {id : Uuid} {attr : Attr}
    (entitled : Entitled lib l r (.renew id attr)) : ∃ req grant, r = .invoke req ∧
      l.grants grant.id = some grant ∧ grant.grantTokenHash = hashToken lib req.grantToken ∧
      grant.connectedAccountId = id := by
  cases r with
  | invoke req =>
    obtain ⟨grant, there, hash, account⟩ := entitled
    exact ⟨req, grant, rfl, there, hash, account⟩
  | _ => exact entitled.elim

/-- Only a request to revoke it revokes a grant. -/
theorem Entitled.of_revoke {l : Ledger} {r : Request} {id : Uuid} {time : Time}
    (entitled : Entitled lib l r (.revoke id time)) : r = .revokeGrant id := by
  cases r with
  | revokeGrant grantId =>
    obtain rfl : id = grantId := entitled
    rfl
  | _ => exact entitled.elim

/-- The tables of every reachable state were made by changes that the requests so far were
entitled to. -/
theorem ledger_made {now : Time} {c : Broker}
    (run : (broker lib svc lossy).Reaches (.start (World.fresh now)) c) :
    ∃ changes, Ledger.Commits .empty changes c.world.db.ledger ∧
      ∀ change ∈ changes, ∃ t ∈ c.threads, Entitled lib c.world.db.ledger t.req change := by
  induction run with
  | refl => exact ⟨[], .nil _, fun change member => absurd member List.not_mem_nil⟩
  | @tail b c reach step ih =>
    obtain ⟨changes, commits, entitled⟩ := ih
    have kept : ∀ t ∈ b.threads, ∃ t' ∈ c.threads, t'.req = t.req := by
      intro t member
      obtain ⟨i, thread⟩ := List.mem_iff_getElem?.mp member
      obtain ⟨t', thread', same, -⟩ := step.thread_mono thread
      exact ⟨t', List.mem_of_getElem? thread', same⟩
    cases step_ledger reach step with
    | same ledger =>
      rw [ledger]
      refine ⟨changes, commits, fun change member => ?_⟩
      obtain ⟨t, member, mine⟩ := entitled change member
      obtain ⟨t', there, same⟩ := kept t member
      exact ⟨t', there, same ▸ mine⟩
    | @commits g t added hist commit thread entitled' commits' =>
      have extends_ := commits'.extends
      refine ⟨changes ++ added, commits.append commits', fun change member => ?_⟩
      rcases List.mem_append.mp member with old | new
      · obtain ⟨t, member, mine⟩ := entitled change old
        obtain ⟨t', there, same⟩ := kept t member
        exact ⟨t', there, same ▸ mine.mono extends_⟩
      · exact ⟨t, List.mem_of_getElem? thread, (entitled' change new).mono extends_⟩

theorem ledger_sound {now : Time} {c : Broker}
    (run : (broker lib svc lossy).Reaches (.start (World.fresh now)) c) :
    c.world.db.ledger.Sound := by
  obtain ⟨changes, commits, -⟩ := ledger_made run
  exact commits.sound Ledger.sound_empty

/-- The tables of every reachable state are a sound ledger, made by changes that the
requests so far were entitled to. -/
theorem ledger_refined {now : Time} {c : Broker}
    (run : (broker lib svc lossy).Reaches (.start (World.fresh now)) c) :
    c.world.db.ledger.Sound ∧ ∃ changes, Ledger.Commits .empty changes c.world.db.ledger ∧
      ∀ change ∈ changes, ∃ t ∈ c.threads, Entitled lib c.world.db.ledger t.req change :=
  ⟨ledger_sound run, ledger_made run⟩

/-- The demo tenant's call is in the ledger. -/
theorem ledger_refined_demo : ∃ c : Broker,
    (broker Demo.lib Demo.services false).Reaches (.start (World.fresh Demo.midnight)) c ∧
      c.world.db.audit ≠ [] ∧ c.world.db.ledger.Sound ∧
      ∃ changes, Ledger.Commits .empty changes c.world.db.ledger ∧
        ∀ change ∈ changes, ∃ t ∈ c.threads, Entitled Demo.lib c.world.db.ledger t.req change := by
  have computed : (Config.play (broker Demo.lib Demo.services false)
      (.start (World.fresh Demo.midnight))
      (Demo.issued ++ Demo.invocation [] none :: Demo.run 2 21)).any
        (fun c => !c.world.db.audit.isEmpty) = true := by
    decide +kernel
  obtain ⟨c, run, logged⟩ := Demo.reached computed
  obtain ⟨sound, made⟩ := ledger_refined run
  exact ⟨c, run, by simpa using logged, sound, made⟩

/-! ## What lies between two states -/

section Between

variable {now : Time} {b m c : Broker} {P Q : Request → Prop}

/-- Since `b` a request with the property has made a commit. -/
def CommittedBy (b c : Broker) (P : Request → Prop) : Prop :=
  ∃ e ∈ c.hist.drop b.hist.length, e.event.op = .commit ∧ ∃ t, c.threads[e.tid]? = some t ∧ P t.req

theorem CommittedBy.mono (imp : ∀ r, P r → Q r) (committed : CommittedBy b c P) :
    CommittedBy b c Q := by
  obtain ⟨e, member, commit, t, thread, holds⟩ := committed
  exact ⟨e, member, commit, t, thread, imp _ holds⟩

/-- What was done before a step is still in the history. -/
theorem CommittedBy.step (committed : CommittedBy b m P)
    (step : (broker lib svc lossy).Step m c) : CommittedBy b c P := by
  obtain ⟨e, member, commit, t, thread, holds⟩ := committed
  obtain ⟨t', thread', same, -⟩ := step.thread_mono thread
  exact ⟨e, (step.hist_mono.drop _).subset member, commit, t', thread', same ▸ holds⟩

/-- Between two states the ledger grows. -/
theorem ledger_extends (run : (broker lib svc lossy).Reaches (.start (World.fresh now)) b)
    (rest : (broker lib svc lossy).Reaches b c) :
    b.world.db.ledger.Extends c.world.db.ledger := by
  induction rest with
  | refl => exact .refl _
  | tail before step ih =>
    cases step_ledger (run.trans before) step with
    | same ledger => exact ledger ▸ ih
    | commits _ _ _ _ commits => exact ih.trans commits.extends

/-- An entry of the ledger that is another one now was changed by a request that is entitled
to it: `made` says which changes it takes. -/
theorem changed_by_entitled {α : Type} (entry : Ledger → Option α) {row : α}
    (Made : Change → Prop) (made : ∀ {l l' : Ledger} {changes : List Change}, l.Commits changes l' →
      entry l = some row → entry l' ≠ some row → ∃ change ∈ changes, Made change)
    (run : (broker lib svc lossy).Reaches (.start (World.fresh now)) b)
    (rest : (broker lib svc lossy).Reaches b c) (there : entry b.world.db.ledger = some row)
    (changed : entry c.world.db.ledger ≠ some row) :
    CommittedBy b c fun r => ∃ change, Made change ∧ Entitled lib c.world.db.ledger r change := by
  induction rest with
  | refl => exact absurd there changed
  | @tail m c before step ih =>
    cases step_ledger (run.trans before) step with
    | same ledger =>
      rw [ledger] at changed ⊢
      exact (ih changed).step step
    | @commits g t changes hist commit thread entitled commits =>
      by_cases unchanged : entry m.world.db.ledger = some row
      · obtain ⟨change, member, is⟩ := made commits unchanged changed
        obtain ⟨more, grown⟩ := Machine.Reaches.hist_mono before
        have last : g ∈ c.hist.drop b.hist.length := by
          rw [hist, ← grown, List.append_assoc, List.drop_left]
          exact List.mem_append_right _ List.mem_cons_self
        exact ⟨g, last, commit, t, thread, change, is,
          (entitled change member).mono commits.extends⟩
      · refine ((ih unchanged).step step).mono ?_
        rintro r ⟨change, is, entitled⟩
        exact ⟨change, is, entitled.mono commits.extends⟩

end Between

/-- Nothing is lost from the ledger; an account is changed only by a call under a grant on it,
which its own user's agent holds, and a grant only by a request to revoke it. -/
theorem ledger_framed {now : Time} {b c : Broker}
    (run : (broker lib svc lossy).Reaches (.start (World.fresh now)) b)
    (rest : (broker lib svc lossy).Reaches b c) :
    b.world.db.ledger.Extends c.world.db.ledger ∧
      (∀ id account, b.world.db.ledger.accounts id = some account →
        c.world.db.ledger.accounts id ≠ some account →
        ∃ e ∈ c.hist.drop b.hist.length, e.event.op = .commit ∧ ∃ t req grant agent,
          c.threads[e.tid]? = some t ∧ t.req = .invoke req ∧
          c.world.db.ledger.grants grant.id = some grant ∧
          grant.grantTokenHash = hashToken lib req.grantToken ∧ grant.connectedAccountId = id ∧
          c.world.db.ledger.agents grant.agentId = some agent ∧ agent.userId = account.userId) ∧
      ∀ id grant, b.world.db.ledger.grants id = some grant →
        c.world.db.ledger.grants id ≠ some grant →
        ∃ e ∈ c.hist.drop b.hist.length, e.event.op = .commit ∧ ∃ t,
          c.threads[e.tid]? = some t ∧ t.req = .revokeGrant id := by
  have extends_ := ledger_extends run rest
  refine ⟨extends_, fun id account there changed => ?_, fun id grant there changed => ?_⟩
  · -- a renewal of the account is what the request was entitled to
    obtain ⟨e, member, commit, t, thread, -, ⟨attr, rfl⟩, entitled⟩ :=
      changed_by_entitled (·.accounts id) (fun change => ∃ attr, change = .renew id attr)
        (fun commits there changed => by
          obtain ⟨attr, renewal⟩ := commits.renewed there changed
          exact ⟨_, renewal, attr, rfl⟩) run rest there changed
    obtain ⟨req, grant, request, held, hash, named⟩ := entitled.of_renew
    have sound := ledger_sound (run.trans rest)
    obtain ⟨agent, account', tool, agent_eq, account_eq, user, -⟩ := sound.backed _ _ held
    obtain ⟨account'', there', -, user', -⟩ := extends_.accounts id account there
    rw [named] at account_eq
    obtain rfl := Option.some.inj (account_eq.symm.trans there')
    exact ⟨e, member, commit, t, req, grant, agent, thread, request, held, hash, named, agent_eq,
      user.symm.trans user'⟩
  · obtain ⟨e, member, commit, t, thread, -, ⟨time, rfl⟩, entitled⟩ :=
      changed_by_entitled (·.grants id) (fun change => ∃ time, change = .revoke id time)
        (fun commits there changed => by
          obtain ⟨time, revocation⟩ := commits.revoked there changed
          exact ⟨_, revocation, time, rfl⟩) run rest there changed
    exact ⟨e, member, commit, t, thread, entitled.of_revoke⟩

namespace Demo

/-- The user of the seeded agent. -/
def agentUser : Uuid := ⟨⟨1, by decide⟩⟩

/-- That user connects an account with a refresh token, and the agent gets a grant for it. -/
def consented : List (Act BrokerSig Request World World.Nudge) :=
  .spawn (.authorize "google" agentUser) :: run 0 2 ++
    .spawn (.callback ⟨"google", some "code", some (stateOf signing services
      (statePayload agentUser.str (timestamp midnight + 600) (Str.hex 32 0))), none⟩) ::
    refresh 1 13 "refresh-token" [5] ++ .spawn .seedDemo :: run 2 8 ++
    .spawn (.requestGrant agentId "drive.read" "read") :: run 3 12

/-- The provider refuses the access token, which is renewed; then the grant is revoked. -/
def renewedRevoked : List (Act BrokerSig Request World World.Nudge) :=
  invocation [] none :: run 4 15 ++ raise 4 (.providerCallError "" (some 401)) ++
    refresh 4 21 "rotated-token" [7] ++ .spawn (.revokeGrant grantId) :: run 5 7

end Demo

/-- The demo user's account is changed by the call that renews its tokens, and the grant by the
request that revokes it. -/
theorem ledger_framed_demo : ∃ (b c : Broker) (account : ConnectedAccount) (grant : Grant),
    (broker Demo.signing Demo.services false).Reaches (.start (World.fresh Demo.midnight)) b ∧
      (broker Demo.signing Demo.services false).Reaches b c ∧
      b.world.db.ledger.accounts ⟨7⟩ = some account ∧
      c.world.db.ledger.accounts ⟨7⟩ ≠ some account ∧
      (∃ e ∈ c.hist.drop b.hist.length, e.event.op = .commit ∧ ∃ t req grant agent,
        c.threads[e.tid]? = some t ∧ t.req = .invoke req ∧
        c.world.db.ledger.grants grant.id = some grant ∧
        grant.grantTokenHash = hashToken Demo.signing req.grantToken ∧
        grant.connectedAccountId = ⟨7⟩ ∧
        c.world.db.ledger.agents grant.agentId = some agent ∧ agent.userId = account.userId) ∧
      b.world.db.ledger.grants Demo.grantId = some grant ∧
      c.world.db.ledger.grants Demo.grantId ≠ some grant ∧
      ∃ e ∈ c.hist.drop b.hist.length, e.event.op = .commit ∧ ∃ t,
        c.threads[e.tid]? = some t ∧ t.req = .revokeGrant Demo.grantId := by
  have computed : (Config.play (broker Demo.signing Demo.services false)
      (.start (World.fresh Demo.midnight)) Demo.consented).any (fun b =>
        (Config.play (broker Demo.signing Demo.services false) b Demo.renewedRevoked).any fun c =>
          ((b.world.db.ledger.accounts ⟨7⟩).isSome &&
            c.world.db.ledger.accounts ⟨7⟩ ≠ b.world.db.ledger.accounts ⟨7⟩) &&
          ((b.world.db.ledger.grants Demo.grantId).isSome &&
            c.world.db.ledger.grants Demo.grantId ≠ b.world.db.ledger.grants Demo.grantId)) =
            true := by
    decide +kernel
  obtain ⟨b, connects, computed⟩ := (Option.any_eq_true _ _).mp computed
  obtain ⟨c, played, changes⟩ := (Option.any_eq_true _ _).mp computed
  simp only [Bool.and_eq_true, decide_eq_true_eq] at changes
  obtain ⟨⟨isAccount, renewed⟩, isGrant, revoked⟩ := changes
  obtain ⟨account, account_there⟩ := Option.isSome_iff_exists.mp isAccount
  obtain ⟨grant, grant_there⟩ := Option.isSome_iff_exists.mp isGrant
  have run := Config.play_reaches connects
  have rest := Config.play_reaches played
  have account_changed : c.world.db.ledger.accounts ⟨7⟩ ≠ some account := account_there ▸ renewed
  have grant_changed : c.world.db.ledger.grants Demo.grantId ≠ some grant := grant_there ▸ revoked
  exact ⟨b, c, account, grant, run, rest, account_there, account_changed,
    (ledger_framed run rest).2.1 ⟨7⟩ account account_there account_changed, grant_there,
    grant_changed, (ledger_framed run rest).2.2 Demo.grantId grant grant_there grant_changed⟩

end CredBroker
