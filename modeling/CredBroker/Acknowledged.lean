import CredBroker.Revocation
import CredBroker.Transactions

/-!
# What a success acknowledges

A request that returns says what it has written: the row that it created, the account
that it connected, the grant that it issued or revoked, the outcome that it recorded.
What it says is in the tables when it returns, and stays there.
-/

namespace CredBroker

open Python Interaction

variable {lib : Lib} {svc : Services} {lossy : Bool}

/-! ## Rows that are there to stay -/

namespace Database

variable {db db' : Database} {row : Row}

/-- A row is in its table, up to the columns that may change. -/
def Has (db : Database) : Row → Prop
  | .agent row => row ∈ db.agents
  | .account row => ∃ account ∈ db.accounts, account.owned = row.owned
  | .grant row => ∃ grant ∈ db.grants, grant.issued = row.issued
  | .audit row => row ∈ db.audit

theorem Has.mono (has : db.Has row) (grows : db.Grows db') : db'.Has row := by
  cases row with
  | agent row => exact grows.agents.subset has
  | account row =>
    obtain ⟨account, member, same⟩ := has
    obtain ⟨account', member', same'⟩ := grows.accounts account member
    exact ⟨account', member', same'.trans same⟩
  | grant row =>
    obtain ⟨grant, member, same⟩ := has
    obtain ⟨grant', member', same', -⟩ := grows.grants grant member
    exact ⟨grant', member', same'.trans same⟩
  | audit row => exact grows.audit.subset has

theorem has_insert (db : Database) (row : Row) : (db.insert row).Has row := by
  cases row with
  | agent row | audit row => exact List.mem_append_right _ (List.mem_singleton_self row)
  | account row | grant row =>
    exact ⟨row, List.mem_append_right _ (List.mem_singleton_self row), rfl⟩

/-- An accepted batch leaves each of its rows behind. -/
theorem has_insertAll {rows : List Row} (inserted : db.insertAll? rows = some db')
    (member : row ∈ rows) : db'.Has row := by
  induction rows generalizing db with
  | nil => simp at member
  | cons first rows ih =>
    rw [insertAll?] at inserted
    split at inserted
    · rcases List.mem_cons.mp member with rfl | later
      · exact (db.has_insert row).mono (insertAll_spec inserted).1
      · exact ih inserted later
    · cases inserted

end Database

/-! ## Committed rows -/

namespace Session

variable {tr ext : Trace BrokerSig} {row : Row}

/-- While a transaction is open, what was added stays added. -/
theorem added_kept (added : row ∈ (replay tr).added)
    (open_ : ∀ e ∈ ext, e.op.endsTransaction = false) : row ∈ (replay (tr ++ ext)).added := by
  induction ext using List.reverseRecOn with
  | nil => rwa [List.append_nil]
  | append_singleton ext e ih =>
    obtain ⟨open_, last⟩ := List.forall_mem_append.mp open_
    rw [← List.append_assoc, replay_append_singleton]
    have kept := ih open_
    have last := last e (List.mem_singleton.mpr rfl)
    obtain ⟨e, a⟩ := e
    cases e with
    | add row' => exact List.mem_append_left _ kept
    | query q =>
      rcases a with x | a
      · cases q <;> exact kept
      · cases q with
        | agentForUpdate id => cases a <;> exact kept
        | _ => exact kept
    | flush => cases a <;> exact kept
    | commit | rollback | close => cases last
    | _ => exact kept

/-- An added row is pending. -/
theorem added_now (tr : Trace BrokerSig) (a : BrokerSig.Ans (.add row)) :
    row ∈ (replay (tr ++ [⟨.add row, a⟩])).added := by
  rw [replay_append_singleton]
  exact List.mem_append_right _ (List.mem_singleton_self row)

end Session

/-- A program has committed a row. -/
def Wrote (tr : Trace BrokerSig) (row : Row) : Prop :=
  ∃ pre, pre ++ [⟨.commit, .ok ()⟩] <+: tr ∧ row ∈ (Session.replay pre).added

theorem Wrote.mono {tr tr' : Trace BrokerSig} {row : Row} (wrote : Wrote tr row)
    (sub : tr <+: tr') : Wrote tr' row := by
  obtain ⟨pre, inside, added⟩ := wrote
  exact ⟨pre, inside.trans sub, added⟩

/-- A row is written when it is committed in the transaction that it was added in. -/
theorem Wrote.of_added {tr mid : Trace BrokerSig} {row : Row} {a : BrokerSig.Ans (.add row)}
    (open_ : ∀ e ∈ mid, e.op.endsTransaction = false) :
    Wrote (tr ++ [⟨.add row, a⟩] ++ mid ++ [⟨.commit, .ok ()⟩]) row :=
  ⟨_, List.prefix_rfl, Session.added_kept (Session.added_now tr a) open_⟩

/-- A row that is committed right after it was added is written. -/
theorem Wrote.of_commit {tr : Trace BrokerSig} {row : Row} {a : BrokerSig.Ans (.add row)} :
    Wrote (tr ++ [⟨.add row, a⟩] ++ [⟨.commit, .ok ()⟩]) row :=
  ⟨_, List.prefix_rfl, Session.added_now tr a⟩

section Run

variable {w : World} {c : Broker} (run : (broker lib svc lossy).Reaches (.start w) c) {i : Nat}
  {t : Thread BrokerSig Request Response} (thread : c.threads[i]? = some t)

include run thread

/-- A committed row is in its table ever after. -/
theorem Wrote.has {row : Row} (wrote : Wrote t.trace row) : c.world.db.Has row := by
  obtain ⟨pre, sub, added⟩ := wrote
  obtain ⟨v, entry⟩ := run.entry_at thread sub
  obtain ⟨h₁, h₂, split⟩ := List.append_of_mem entry
  obtain ⟨before⟩ := run.before (by simpa [Config.start] using split)
  have permits : v.permits pre ⟨.commit, .ok ()⟩ = true := entry_permitted run entry
  obtain ⟨-, written⟩ : _ ∧ ((Session.replay pre).apply v.db).isSome = true := by
    simpa [World.permits, Applied] using permits
  obtain ⟨db', written⟩ := Option.isSome_iff_exists.mp written
  have left : (before.mid.answer (broker lib svc lossy) i before.thread ⟨.commit, .ok ()⟩
      (before.next (.ok ()))).world.db = db' := by
    show (before.mid.world.after before.thread.trace ⟨.commit, .ok ()⟩).db = db'
    simp [World.after, Applied, before.world_eq, before.trace_eq, written]
  have there : db'.Has row := Database.has_insertAll written added
  have toEnd := (run_grows (before.reached.tail before.step) before.rest).1
  exact (left ▸ there).mono toEnd

/-- So is a row that a program has read. -/
theorem has_of_agent {name : Str} {agent : AgentIdentity}
    (read : ⟨.query (.agentByName name), .ok (some agent)⟩ ∈ t.trace) :
    c.world.db.Has (.agent agent) ∧ agent.name = name := by
  obtain ⟨v, answered, grows⟩ := read_truthful run thread read
  obtain ⟨member, named⟩ := World.one_eq_some (of_decide_eq_true answered)
  exact ⟨grows.agents.subset member, of_decide_eq_true named⟩

/-- The same of an account that a program has read. -/
theorem has_of_account {userId : Uuid} {provider : Str} {account : ConnectedAccount}
    (read : ⟨.query (.latestAccount userId provider), .ok (some account)⟩ ∈ t.trace) :
    c.world.db.Has (.account account) ∧ account.userId = userId ∧ account.provider = provider := by
  obtain ⟨v, answered, grows⟩ := read_truthful run thread read
  obtain ⟨member, -⟩ := of_decide_eq_true answered
  obtain ⟨there, user, google⟩ : account ∈ v.db.accounts ∧ account.userId = userId ∧
      account.provider = provider := by simpa using member
  have has : v.db.Has (.account account) := ⟨account, there, rfl⟩
  exact ⟨has.mono grows, user, google⟩

end Run

/-! ## What each request has written when it returns -/

/-- What a response rests on in the trace of its request. -/
def Tells (lib : Lib) : Request → Response → Trace BrokerSig → Prop
  | .createAgent body, .agent row => fun tr => Wrote tr (.agent row) ∧ row.name = body.name ∧
      row.allowedScopes = body.allowedScopes ∧
      ∀ userId, body.userId = some userId → row.userId = userId
  | .seedDemo, .seeded report => fun tr => ∃ agent account,
      (Wrote tr (.agent agent) ∧ agent.name = demoAgentName ∨
        ⟨.query (.agentByName demoAgentName), .ok (some agent)⟩ ∈ tr) ∧
      (Wrote tr (.account account) ∧ account.userId = agent.userId ∧
        account.provider = demoProvider ∨
        ⟨.query (.latestAccount agent.userId demoProvider), .ok (some account)⟩ ∈ tr) ∧
      report.userId = agent.userId ∧ report.agentId = agent.id ∧
      report.connectedAccountId = account.id
  | .authorize .., .state _ => fun _ => True
  | .callback _, .connected id => fun tr => ∃ account, Wrote tr (.account account) ∧
      account.id = id ∧ account.provider = oauthProvider
  | .requestGrant agentId toolName scope, .issued issued => fun tr =>
      Wrote tr (.grant issued.grant) ∧
      issued.grant.agentId = agentId ∧ issued.grant.toolName = toolName ∧
      issued.grant.scope = scope ∧ issued.grant.grantTokenHash = hashToken lib issued.token ∧
      issued.grant.revokedAt = none
  | .revokeGrant id, .revoked grant => fun tr => ∃ found,
      ⟨.query (.grantById id), .ok (some found)⟩ ∈ tr ∧ grant.issued = found.issued ∧
      (found.revokedAt.isSome = true ∨ ⟨.commit, .ok ()⟩ ∈ tr)
  -- `Concluded` says what an outcome rests on
  | .invoke _, .outcome _ => fun _ => True
  | _, _ => fun _ => False

section Tells

variable {α : Type} {p : BrokerProg α} {tr tr' : Trace BrokerSig}

theorem Tells.mono {r : Request} {v : Response} (tells : Tells lib r v tr) (sub : tr <+: tr') :
    Tells lib r v tr' := by
  cases r with
  | createAgent body =>
    cases v with
    | agent row => exact ⟨tells.1.mono sub, tells.2⟩
    | _ => exact tells
  | seedDemo =>
    cases v with
    | seeded report =>
      obtain ⟨agent, account, fromAgent, fromAccount, rest⟩ := tells
      refine ⟨agent, account, ?_, ?_, rest⟩
      · exact fromAgent.imp (fun wrote => ⟨wrote.1.mono sub, wrote.2⟩) fun read => sub.subset read
      · exact fromAccount.imp (fun wrote => ⟨wrote.1.mono sub, wrote.2⟩) fun read => sub.subset read
    | _ => exact tells
  | authorize provider userId => cases v <;> exact tells
  | callback request =>
    cases v with
    | connected id =>
      obtain ⟨account, wrote, rest⟩ := tells
      exact ⟨account, wrote.mono sub, rest⟩
    | _ => exact tells
  | requestGrant agentId toolName scope =>
    cases v with
    | issued issued => exact ⟨tells.1.mono sub, tells.2⟩
    | _ => exact tells
  | revokeGrant id =>
    cases v with
    | revoked grant =>
      obtain ⟨found, read, same, revoked⟩ := tells
      exact ⟨found, sub.subset read, same, revoked.imp_right fun member => sub.subset member⟩
    | _ => exact tells
  | invoke req => cases v <;> exact tells

/-- A created agent is committed as it is answered, with the user of the body if it names
one. -/
theorem createAgent_tells (body : AgentCreateRequest) :
    wp (broker lib svc lossy) freeRole (serve lib svc (.createAgent body))
      (Post.onOk (Tells lib (.createAgent body))) [] := by
  apply wp_onOk_map
  show wp _ _ (userOr body.userId >>= _) _ _
  rw [wp_bind]
  have chosen : wp (broker lib svc lossy) freeRole (userOr body.userId) (Post.onOk fun userId _ =>
      ∀ given, body.userId = some given → userId = given) [] := by
    cases given : body.userId with
    | none => exact wp_mono (wp_free fun _ _ => trivial) fun _ _ _ _ _ _ => nofun
    | some userId =>
      intro chosen same other given
      exact (Except.ok.inj same).symm.trans (Option.some.inj given)
  refine wp_mono chosen fun ended tr _ chosen => ?_
  cases ended with
  | error x => exact onOk_error x
  | ok userId =>
    refine wp_onOk_session (fun v _ _ sub tells => Tells.mono tells sub)
      ⟨trivial, fun a may _ => ?_⟩
    obtain ⟨id, rfl⟩ := may_sync rfl may
    refine ⟨trivial, fun a may _ => ?_⟩
    obtain ⟨⟨⟩, rfl⟩ := may_sync rfl may
    refine ⟨trivial, fun a _ _ => ?_⟩
    cases a with
    | error x => exact onOk_error x
    | ok _ =>
      refine ⟨trivial, fun a _ _ => ?_⟩
      cases a with
      | error x => exact onOk_error x
      | ok _ =>
        rintro v same
        obtain rfl := Except.ok.inj same
        exact ⟨Wrote.of_added (by simp [Op.endsTransaction]), rfl, rfl, chosen userId rfl⟩

/-- The seed has found its agent, or is adding it. -/
def Seeding (agent : AgentIdentity) (tr : Trace BrokerSig) : Prop :=
  .agent agent ∈ (Session.replay tr).added ∧ agent.name = demoAgentName ∨
    ⟨.query (.agentByName demoAgentName), .ok (some agent)⟩ ∈ tr

/-- And its account. -/
def Attaching (agent : AgentIdentity) (account : ConnectedAccount) (tr : Trace BrokerSig) : Prop :=
  .account account ∈ (Session.replay tr).added ∧ account.userId = agent.userId ∧
      account.provider = demoProvider ∨
    ⟨.query (.latestAccount agent.userId demoProvider), .ok (some account)⟩ ∈ tr

/-- The seed finds its agent or adds one of that name. -/
theorem seedAgent_seeds :
    wp (broker lib svc lossy) freeRole seedAgent (Post.onOk fun v => Seeding v.1) tr := by
  refine ⟨trivial, fun a _ _ => ?_⟩
  rcases a with x | _ | agent
  · exact onOk_error _
  · refine ⟨trivial, fun a may _ => ?_⟩
    obtain ⟨userId, rfl⟩ := may_sync rfl may
    refine ⟨trivial, fun a may _ => ?_⟩
    obtain ⟨id, rfl⟩ := may_sync rfl may
    refine ⟨trivial, fun a may _ => ?_⟩
    obtain ⟨⟨⟩, rfl⟩ := may_sync rfl may
    refine ⟨trivial, fun a _ _ => ?_⟩
    cases a with
    | error x => exact onOk_error x
    | ok _ =>
      rintro v same
      obtain rfl := Except.ok.inj same
      exact .inl ⟨Session.added_kept (Session.added_now _ _) (by simp [Op.endsTransaction]), rfl⟩
  · rintro v same
    obtain rfl := Except.ok.inj same
    exact .inr (List.mem_append_right _ List.mem_cons_self)

/-- It finds an account of the agent's user or adds one. -/
theorem seedAccount_attaches (agent : AgentIdentity) :
    wp (broker lib svc lossy) freeRole (seedAccount agent)
      (Post.onOk fun v => Attaching agent v.1) tr := by
  refine ⟨trivial, fun a _ _ => ?_⟩
  rcases a with x | _ | account
  · exact onOk_error _
  · refine ⟨trivial, fun a _ _ => ?_⟩
    cases a with
    | error x => exact onOk_error x
    | ok encryptedAccess =>
      refine ⟨trivial, fun a may _ => ?_⟩
      obtain ⟨now, rfl⟩ := may_sync rfl may
      show wp _ _ ((Prog.ofExcept (addSeconds now (365 * 86400)) : BrokerProg Time) >>= _) _ _
      rw [wp_bind, wp_ofExcept]
      cases addSeconds now (365 * 86400) with
      | error x => exact onOk_error x
      | ok expiresAt =>
        refine ⟨trivial, fun a may _ => ?_⟩
        obtain ⟨id, rfl⟩ := may_sync rfl may
        refine ⟨trivial, fun a may _ => ?_⟩
        obtain ⟨createdAt, rfl⟩ := may_sync rfl may
        refine ⟨trivial, fun a may _ => ?_⟩
        obtain ⟨⟨⟩, rfl⟩ := may_sync rfl may
        refine ⟨trivial, fun a _ _ => ?_⟩
        cases a with
        | error x => exact onOk_error x
        | ok _ =>
          rintro v same
          obtain rfl := Except.ok.inj same
          exact .inl ⟨Session.added_kept (Session.added_now _ _) (by simp [Op.endsTransaction]),
            rfl, rfl⟩
  · rintro v same
    obtain rfl := Except.ok.inj same
    exact .inr (List.mem_append_right _ List.mem_cons_self)

theorem seedAccount_open (agent : AgentIdentity) :
    Within (seedAccount agent) (!·.endsTransaction) := by
  refine .bind (within_op rfl) fun found => ?_
  split
  · trivial
  · exact .bind (within_op rfl) fun _ => .bind (within_op rfl) fun _ =>
      .bind (Prog.uses_ofExcept _) fun _ => .bind (within_op rfl) fun _ => .bind (within_op rfl)
      fun _ => .bind (within_op rfl) fun _ => .bind (within_op rfl) fun _ => trivial

/-- What it reports was read or is committed. -/
theorem seedDemo_tells : wp (broker lib svc lossy) freeRole (serve lib svc .seedDemo)
    (Post.onOk (Tells lib .seedDemo)) [] := by
  apply wp_onOk_map
  refine wp_onOk_session (fun v _ _ sub tells => Tells.mono tells sub) ?_
  show wp _ _ (seedAgent >>= _) _ _
  rw [wp_bind]
  refine wp_mono seedAgent_seeds fun ended tr _ seeding => ?_
  cases ended with
  | error x => exact onOk_error x
  | ok agent =>
    have seeding := seeding agent rfl
    show wp _ _ (seedAccount agent.1 >>= _) _ _
    rw [wp_bind]
    refine wp_uses (seedAccount_open agent.1) (wp_mono (seedAccount_attaches agent.1) ?_)
    intro ended tr' _ attaching ext split inside
    subst split
    cases ended with
    | error x => exact onOk_error x
    | ok account =>
      have attaching := attaching account rfl
      refine ⟨trivial, fun a _ _ => ?_⟩
      cases a with
      | error x => exact onOk_error x
      | ok _ =>
        rintro v same
        obtain rfl := Except.ok.inj same
        refine ⟨agent.1, account.1, ?_, ?_, rfl, rfl, rfl⟩
        · rcases seeding with ⟨added, named⟩ | read
          · have kept := Session.added_kept added fun e member => by simpa using inside e member
            exact .inl ⟨⟨_, List.prefix_rfl, kept⟩, named⟩
          · exact .inr (List.mem_append_left _ (List.mem_append_left _ read))
        · rcases attaching with ⟨added, owned⟩ | read
          · exact .inl ⟨⟨_, List.prefix_rfl, added⟩, owned⟩
          · exact .inr (List.mem_append_left _ read)

/-- A connected account is its user's, with the provider of the flow. -/
def Connected (userId id : Uuid) (tr : Trace BrokerSig) : Prop :=
  ∃ account, Wrote tr (.account account) ∧ account.id = id ∧ account.userId = userId ∧
    account.provider = oauthProvider

theorem Connected.mono {userId id : Uuid} (connected : Connected userId id tr) (sub : tr <+: tr') :
    Connected userId id tr' := by
  obtain ⟨account, wrote, spec⟩ := connected
  exact ⟨account, wrote.mono sub, spec⟩

/-- A callback commits the account that it answers with, for the user it was told. -/
theorem connectAccount_connects (userId : Uuid) (token : TokenResponse) :
    wp (broker lib svc lossy) freeRole (connectAccount userId token) (Post.onOk (Connected userId))
      tr := by
  refine ⟨trivial, fun a _ _ => ?_⟩
  cases a with
  | error x => exact onOk_error x
  | ok encryptedAccess =>
    show wp _ _ (encryptRefresh token.refreshToken >>= _) _ _
    rw [wp_bind]
    refine wp_mono (wp_free fun _ _ => trivial) fun ended tr _ _ => ?_
    cases ended with
    | error x => exact onOk_error x
    | ok encryptedRefresh =>
      show wp _ _ (expiryOf token.expiresIn >>= _) _ _
      rw [wp_bind]
      refine wp_mono (wp_free fun _ _ => trivial) fun ended tr _ _ => ?_
      cases ended with
      | error x => exact onOk_error x
      | ok expiresAt =>
        refine wp_onOk_session (fun v _ _ sub connected => connected.mono sub)
          ⟨trivial, fun a may _ => ?_⟩
        obtain ⟨id, rfl⟩ := may_sync rfl may
        refine ⟨trivial, fun a may _ => ?_⟩
        obtain ⟨createdAt, rfl⟩ := may_sync rfl may
        refine ⟨trivial, fun a may _ => ?_⟩
        obtain ⟨⟨⟩, rfl⟩ := may_sync rfl may
        refine ⟨trivial, fun a _ _ => ?_⟩
        cases a with
        | error x => exact onOk_error x
        | ok _ =>
          refine ⟨trivial, fun a _ _ => ?_⟩
          cases a with
          | error x => exact onOk_error x
          | ok _ =>
            rintro v same
            obtain rfl := Except.ok.inj same
            exact ⟨_, Wrote.of_added (by simp [Op.endsTransaction]), rfl, rfl, rfl⟩

/-- A callback connects an account for the user that it redeems its code and state for. -/
theorem callback_connects (P : Uuid → Prop) {request : CallbackRequest}
    (redeems : ∀ code state tr, request.state = some state →
      wp (broker lib svc lossy) freeRole (callbackTokens lib svc.settings code state)
        (Post.onOk fun tokens _ => P tokens.1) tr) :
    wp (broker lib svc lossy) freeRole (callback lib svc.settings request)
      (Post.onOk fun id tr => ∃ userId, P userId ∧ Connected userId id tr) [] := by
  unfold callback
  rw [wp_bind]
  refine wp_mono (wp_free fun _ _ => trivial) fun ended tr _ _ => ?_
  cases ended with
  | error x => exact nofun
  | ok _ =>
    rw [Post.next_ok]
    split
    · exact nofun
    · rename_i code state _ _ presented
      show wp _ _ (callbackTokens lib svc.settings code state >>= _) _ _
      rw [wp_bind]
      refine wp_mono (redeems code state tr presented) fun ended tr _ redeemed => ?_
      cases ended with
      | error x => exact nofun
      | ok tokens =>
        refine wp_mono (connectAccount_connects tokens.1 tokens.2)
          fun ended tr _ connected id same => ?_
        exact ⟨tokens.1, redeemed tokens rfl, connected id same⟩
    · exact nofun

theorem callback_tells (request : CallbackRequest) :
    wp (broker lib svc lossy) freeRole (serve lib svc (.callback request))
      (Post.onOk (Tells lib (.callback request))) [] := by
  apply wp_onOk_map
  refine wp_mono (callback_connects (fun _ => True) fun code state tr _ => ?_)
    fun ended tr _ connects id same => ?_
  · exact wp_mono (wp_free fun _ _ => trivial) fun _ _ _ _ _ _ => trivial
  obtain ⟨userId, -, account, wrote, named, -, provider⟩ := connects id same
  exact ⟨account, wrote, named, provider⟩

/-- An issued grant is committed as it is answered, with the hash of its token. -/
theorem requestGrant_tells (agentId : Uuid) (toolName scope : Str) :
    wp (broker lib svc lossy) freeRole (serve lib svc (.requestGrant agentId toolName scope))
      (Post.onOk (Tells lib (.requestGrant agentId toolName scope))) [] := by
  apply wp_onOk_map
  refine wp_onOk_session (fun v _ _ sub tells => Tells.mono tells sub) ?_
  unfold requestGrant
  rw [wp_bind]
  refine wp_mono (wp_free fun _ _ => trivial) fun ended tr _ _ => ?_
  cases ended with
  | error x => exact onOk_error x
  | ok _ =>
    refine ⟨trivial, fun a _ _ => ?_⟩
    rcases a with x | _ | agent
    · exact onOk_error _
    · exact onOk_error _
    · show wp _ _ ((Prog.ofExcept (checkPolicy lib agent toolName scope) :
        BrokerProg ToolAdapter) >>= _) _ _
      rw [wp_bind, wp_ofExcept]
      cases checkPolicy lib agent toolName scope with
      | error x => exact onOk_error x
      | ok tool =>
        refine ⟨trivial, fun a _ _ => ?_⟩
        rcases a with x | _ | account
        · exact onOk_error _
        · exact onOk_error _
        · refine ⟨trivial, fun a may _ => ?_⟩
          obtain ⟨now, rfl⟩ := may_sync rfl may
          refine ⟨trivial, fun a _ _ => ?_⟩
          rcases a with x | activeCount
          · exact onOk_error _
          · show wp _ _ (if _ then _ else _) _ _
            split
            · exact onOk_error _
            · refine ⟨trivial, fun a may _ => ?_⟩
              obtain ⟨grantId, rfl⟩ := may_sync rfl may
              show wp _ _ ((Prog.ofExcept (addSeconds now svc.settings.grantTokenTtlSeconds) :
                BrokerProg Time) >>= _) _ _
              rw [wp_bind, wp_ofExcept]
              cases addSeconds now svc.settings.grantTokenTtlSeconds with
              | error x => exact onOk_error x
              | ok expiresAt =>
                show wp _ _ ((Prog.ofExcept (signGrantToken lib svc grantId agentId toolName
                  scope now expiresAt) : BrokerProg Str) >>= _) _ _
                rw [wp_bind, wp_ofExcept]
                cases signGrantToken lib svc grantId agentId toolName scope now expiresAt with
                | error x => exact onOk_error x
                | ok token =>
                  refine ⟨trivial, fun a may _ => ?_⟩
                  obtain ⟨⟨⟩, rfl⟩ := may_sync rfl may
                  refine ⟨trivial, fun a _ _ => ?_⟩
                  cases a with
                  | error x => exact onOk_error x
                  | ok _ =>
                    show wp _ _ (if _ then _ else _) _ _
                    split
                    · refine ⟨trivial, fun a _ _ => ?_⟩
                      cases a with
                      | error x => exact onOk_error x
                      | ok _ =>
                        rintro v same
                        obtain rfl := Except.ok.inj same
                        exact ⟨Wrote.of_commit.mono (List.prefix_append _ _), rfl, rfl, rfl, rfl,
                          rfl⟩
                    · rintro v same
                      obtain rfl := Except.ok.inj same
                      exact ⟨.of_commit, rfl, rfl, rfl, rfl, rfl⟩

/-- A revoked grant was found, and was revoked or is now. -/
theorem revokeGrant_tells (id : Uuid) :
    wp (broker lib svc lossy) freeRole (serve lib svc (.revokeGrant id))
      (Post.onOk (Tells lib (.revokeGrant id))) [] := by
  apply wp_onOk_map
  refine wp_onOk_session (fun v _ _ sub tells => Tells.mono tells sub) ?_
  have marking : ∀ (grant : Grant) (tr : Trace BrokerSig),
      Tells lib (.revokeGrant id) (.revoked grant) tr →
        wp (broker lib svc lossy) freeRole
          (if svc.grantCache then do
            GrantCache.recordRevoked grant.grantTokenHash
            return grant
          else return grant : BrokerProg Grant)
          (Post.onOk fun grant => Tells lib (.revokeGrant id) (.revoked grant)) tr := by
    intro grant tr tells
    split
    · show wp _ _ (GrantCache.recordRevoked grant.grantTokenHash >>= _) _ _
      rw [wp_bind]
      refine wp_mono (wp_free fun _ _ => trivial) fun ended tr' sub _ => ?_
      cases ended with
      | error x => exact onOk_error x
      | ok _ =>
        rintro v same
        obtain rfl := Except.ok.inj same
        exact tells.mono sub
    · rintro v same
      obtain rfl := Except.ok.inj same
      exact tells
  refine ⟨trivial, fun a _ _ => ?_⟩
  rcases a with x | _ | grant
  · exact onOk_error _
  · exact onOk_error _
  · show wp _ _ (markRevoked grant >>= _) _ _
    rw [wp_bind]
    unfold markRevoked
    split
    · refine ⟨trivial, fun a may _ => ?_⟩
      obtain ⟨now, rfl⟩ := may_sync rfl may
      refine ⟨trivial, fun a may _ => ?_⟩
      obtain ⟨⟨⟩, rfl⟩ := may_sync rfl may
      refine ⟨trivial, fun a _ _ => ?_⟩
      cases a with
      | error x => exact onOk_error x
      | ok _ => exact marking _ _ ⟨grant, by simp, rfl, .inr (by simp)⟩
    · rename_i revoked
      exact marking _ _ ⟨grant, by simp, rfl, .inl (Option.isSome_iff_ne_none.mpr revoked)⟩

variable (lib svc) in
/-- Each request has written what its response tells. -/
theorem wp_serve_tells (r : Request) :
    wp (broker lib svc lossy) freeRole (serve lib svc r) (Post.onOk (Tells lib r)) [] := by
  cases r with
  | createAgent body => exact createAgent_tells body
  | seedDemo => exact seedDemo_tells
  | authorize provider userId =>
    exact wp_onOk_map (wp_mono (wp_free fun _ _ => trivial) fun _ _ _ _ _ _ => trivial)
  | callback request => exact callback_tells request
  | requestGrant agentId toolName scope => exact requestGrant_tells agentId toolName scope
  | revokeGrant id => exact revokeGrant_tells id
  | invoke req =>
    exact wp_onOk_map (wp_mono (wp_free fun _ _ => trivial) fun _ _ _ _ _ _ => trivial)

end Tells

/-! ## The tables confirm every response -/

/-- What the tables have to say of a response. For an outcome it is one row in the log, of
the grant whose token was presented, unless the program `tr` found no such grant. -/
def Confirms (lib : Lib) (db : Database) (tr : Trace BrokerSig) : Request → Response → Prop
  | .createAgent body, .agent row => row ∈ db.agents ∧ row.name = body.name ∧
      row.allowedScopes = body.allowedScopes ∧
      ∀ userId, body.userId = some userId → row.userId = userId
  | .seedDemo, .seeded report => ∃ agent ∈ db.agents, ∃ account ∈ db.accounts,
      agent.id = report.agentId ∧ agent.userId = report.userId ∧ agent.name = demoAgentName ∧
      account.id = report.connectedAccountId ∧ account.userId = report.userId ∧
      account.provider = demoProvider
  | .authorize .., .state _ => True
  | .callback _, .connected id => ∃ account ∈ db.accounts, account.id = id ∧
      account.provider = oauthProvider
  | .requestGrant agentId toolName scope, .issued issued => ∃ grant ∈ db.grants,
      grant.issued = issued.grant ∧ grant.agentId = agentId ∧ grant.toolName = toolName ∧
      grant.scope = scope ∧ grant.grantTokenHash = hashToken lib issued.token
  | .revokeGrant id, .revoked answered => ∃ grant ∈ db.grants, grant.id = id ∧
      grant.issued = answered.issued ∧ grant.revokedAt.isSome = true
  | .invoke req, .outcome outcome =>
      (∃ grant ∈ db.grants, grant.grantTokenHash = hashToken lib req.grantToken ∧
        ∃ row ∈ db.audit, row.grantId = grant.id ∧ row.toolName = req.toolName ∧
          row.argumentsHash = hashArguments lib req.arguments ∧ row.status = outcome.status ∧
          row.latencyMs = outcome.latencyMs) ∨
      (∀ grant, looked lib req grant ∉ tr) ∧ outcome.status = .denied
  | _, _ => False

section Confirmed

variable {w : World} {c : Broker} (run : (broker lib svc lossy).Reaches (.start w) c) {i : Nat}
  {t : Thread BrokerSig Request Response} (thread : c.threads[i]? = some t)

include run thread

/-- The agent and the account of a seed report are in the tables. -/
theorem confirms_seeded {report : SeedReport}
    (tells : Tells lib .seedDemo (.seeded report) t.trace) :
    Confirms lib c.world.db t.trace .seedDemo (.seeded report) := by
  obtain ⟨agent, account, fromAgent, fromAccount, user, agentId, accountId⟩ := tells
  have hasAgent : c.world.db.Has (.agent agent) ∧ agent.name = demoAgentName := by
    rcases fromAgent with ⟨wrote, named⟩ | read
    · exact ⟨wrote.has run thread, named⟩
    · exact has_of_agent run thread read
  have hasAccount : c.world.db.Has (.account account) ∧ account.userId = agent.userId ∧
      account.provider = demoProvider := by
    rcases fromAccount with ⟨wrote, owned⟩ | read
    · exact ⟨wrote.has run thread, owned⟩
    · exact has_of_account run thread read
  obtain ⟨row, member, same⟩ := hasAccount.1
  obtain ⟨id, owner, provider⟩ : row.id = account.id ∧ row.userId = account.userId ∧
      row.provider = account.provider := by simpa [ConnectedAccount.owned] using same
  refine ⟨agent, hasAgent.1, row, member, agentId.symm, user.symm, hasAgent.2,
    id.trans accountId.symm, ?_, provider.trans hasAccount.2.2⟩
  rw [owner, hasAccount.2.1, user]

/-- A grant that was answered as revoked is, for good. -/
theorem confirms_revoked (keyed : w.db.Keyed) {id : Uuid} (request : t.req = .revokeGrant id)
    {answered : Grant} (tells : Tells lib (.revokeGrant id) (.revoked answered) t.trace) :
    Confirms lib c.world.db t.trace (.revokeGrant id) (.revoked answered) := by
  obtain ⟨found, read, same, revoked⟩ := tells
  obtain ⟨v, isFound, grows⟩ := read_truthful run thread read
  have isFound : v.db.grants.find? (·.id = id) = some found := (of_decide_eq_true isFound).symm
  have named : found.id = id := by simpa using List.find?_some isFound
  obtain ⟨row, there, issued, stays⟩ := grows.grants found (List.mem_of_find?_eq_some isFound)
  have row_id : row.id = id := (Grant.issued_id issued).trans named
  refine ⟨row, there, row_id, issued.trans same.symm, ?_⟩
  rcases revoked with already | committed
  · exact stays already
  · have has : hasRevoked id t = true := by
      simp only [hasRevoked, request, decide_true, Bool.true_and, List.any_eq_true]
      exact ⟨⟨.commit, .ok ()⟩, committed, rfl⟩
    exact (RevokedBy.revoked keyed run ⟨t, thread, has⟩).2 row there row_id

/-- An outcome that was found a grant for has its row, whatever it is. -/
theorem confirms_outcome {req : InvokeRequest} (request : t.req = .invoke req)
    {outcome : InvokeOutcome} (returned : t.prog = .ret (.outcome outcome)) :
    Confirms lib c.world.db t.trace (.invoke req) (.outcome outcome) := by
  have halted : t.prog = .ofExcept (.ok (.outcome outcome)) := returned
  obtain ⟨r, ended, concluded⟩ := invocation_concluded run thread request halted
  obtain rfl : r = .ok outcome := by
    cases r with
    | ok o => simpa [Except.map] using ended.symm
    | error x => cases ended
  cases concluded with
  | unresolved unfound _ _ denied => exact .inr ⟨unfound, denied outcome rfl⟩
  | audited grant o pre closed found _ _ _ _ trace_eq outcome_eq =>
    obtain rfl : outcome = o := by
      cases closed with
      | ok _ => exact Except.ok.inj outcome_eq
      | error x => cases outcome_eq
    have committed : Wrote (pre ++ [⟨.add (auditRow lib req grant outcome), .ok ()⟩] ++
        [⟨.commit, .ok ()⟩]) (auditRow lib req grant outcome) := .of_commit
    have wrote : Wrote t.trace (auditRow lib req grant outcome) :=
      committed.mono ⟨[⟨.close, closed⟩], by rw [trace_eq]; simp⟩
    have looked_up : looked lib req grant ∈ t.trace := trace_eq ▸ List.mem_append_left _ found
    obtain ⟨hash, row, there, same⟩ := looked_row run thread looked_up
    exact .inl ⟨row, there, (Grant.issued_hash same).trans hash, _, wrote.has run thread,
      (Grant.issued_id same).symm, rfl, rfl, rfl, rfl⟩
  | unacknowledged grant o pre x closed _ _ _ outcome_eq => cases closed <;> cases outcome_eq

end Confirmed

/-- Whatever a request has answered is in the tables. -/
theorem Confirms.of_returned {now : Time} {c : Broker}
    (run : (broker lib svc lossy).Reaches (.start (World.fresh now)) c) {i : Nat}
    {t : Thread BrokerSig Request Response} (thread : c.threads[i]? = some t) {v : Response}
    (returned : t.prog = .ret v) : Confirms lib c.world.db t.trace t.req v := by
  have under := Machine.Reaches.under_start run thread (wp_serve_tells lib svc t.req)
    (Role.met_guarding _ _)
  rw [returned] at under
  have tells : Tells lib t.req v t.trace := under v rfl
  cases request : t.req with
  | createAgent body =>
    rw [request] at tells
    cases v with
    | agent row => exact ⟨tells.1.has run thread, tells.2⟩
    | _ => exact tells
  | seedDemo =>
    rw [request] at tells
    cases v with
    | seeded report => exact confirms_seeded run thread tells
    | _ => exact tells
  | authorize provider userId =>
    rw [request] at tells
    cases v <;> exact tells
  | callback body =>
    rw [request] at tells
    cases v with
    | connected id =>
      obtain ⟨account, wrote, named, provider⟩ := tells
      obtain ⟨row, member, same⟩ := wrote.has run thread
      obtain ⟨row_id, -, row_provider⟩ : row.id = account.id ∧ row.userId = account.userId ∧
          row.provider = account.provider := by simpa [ConnectedAccount.owned] using same
      exact ⟨row, member, row_id.trans named, row_provider.trans provider⟩
    | _ => exact tells
  | requestGrant agentId toolName scope =>
    rw [request] at tells
    cases v with
    | issued issued =>
      obtain ⟨wrote, agent, tool, scope_eq, hash, unrevoked⟩ := tells
      obtain ⟨row, member, same⟩ := wrote.has run thread
      have itself : issued.grant.issued = issued.grant := by
        rw [Grant.issued, ← unrevoked]
      obtain ⟨rfl, rfl, rfl⟩ : row.agentId = agentId ∧ row.toolName = toolName ∧
          row.scope = scope := by
        rw [← agent, ← tool, ← scope_eq]
        rw [Grant.issued, Grant.issued, Grant.mk.injEq] at same
        exact ⟨same.2.1, same.2.2.2.1, same.2.2.2.2.1⟩
      exact ⟨row, member, same.trans itself, rfl, rfl, rfl, (Grant.issued_hash same).trans hash⟩
    | _ => exact tells
  | revokeGrant id =>
    rw [request] at tells
    cases v with
    | revoked answered =>
      exact confirms_revoked run thread Database.keyed_empty request tells
    | _ => exact tells
  | invoke req =>
    rw [request] at tells
    cases v with
    | outcome outcome => exact confirms_outcome run thread request returned
    | _ => exact tells

/-- Whatever a request has answered is in the tables when it answers, and ever after. -/
theorem response_confirmed {now : Time} {c c' : Broker}
    (run : (broker lib svc lossy).Reaches (.start (World.fresh now)) c) {i : Nat}
    {t : Thread BrokerSig Request Response} (thread : c.threads[i]? = some t) {v : Response}
    (returned : t.prog = .ret v) (rest : (broker lib svc lossy).Reaches c c') :
    Confirms lib c'.world.db t.trace t.req v :=
  .of_returned (run.trans rest) (Machine.Reaches.over_mono rest thread (e := .ok v) returned)
    returned

/-- The demo tenant's grant is in the table that its response names. -/
theorem response_confirmed_demo : ∃ (c : Broker) (t : Thread BrokerSig Request Response)
    (v : Response),
      (broker Demo.lib Demo.services false).Reaches (.start (World.fresh Demo.midnight)) c ∧
      c.threads[1]? = some t ∧ t.prog = .ret v ∧
      t.req = .requestGrant Demo.agentId "drive.read" "read" ∧
      Confirms Demo.lib c.world.db t.trace t.req v := by
  have computed : (Demo.played false Demo.issued).any (fun c =>
      c.threads[1]?.any fun t => Demo.isIssue t && Demo.ended t && !Demo.raised t) = true := by
    decide +kernel
  obtain ⟨c, run, computed⟩ := Demo.reached computed
  obtain ⟨t, thread, computed⟩ := (Option.any_eq_true _ _).mp computed
  simp only [Bool.and_eq_true, Bool.not_eq_true'] at computed
  obtain ⟨⟨request, halted⟩, unraised⟩ := computed
  obtain ⟨ended, halted⟩ := Demo.finished halted
  cases ended with
  | error x =>
    have raised : t.prog = .throw x := halted
    rw [Demo.raised, raised] at unraised
    cases unraised
  | ok v =>
    exact ⟨c, t, v, run, thread, halted, Demo.of_isIssue request,
      response_confirmed run thread halted .refl⟩

end CredBroker
