import CredBroker.Interaction.History
import CredBroker.Invocation.Verdict

/-!
# What every request keeps to

`requestGuard` extends the guard of an invocation to the other requests: what
they may write, and on what grounds. `Machine.Reaches.kept` then places every
event of every run behind its guard.
-/

namespace CredBroker

open Python Interaction

variable (lib : Lib) (svc : Services)

/-! ## Guards -/

/-- How the other requests use Redis. -/
inductive GrantRedisUse : Redis.Cmd → Prop
  | incr (key : Str) (window : Int) : GrantRedisUse (.incr (RateLimiter.counterKey key window))
  | expire (key : Str) (window ttl : Int) :
      GrantRedisUse (.expire (RateLimiter.counterKey key window) ttl)
  | issued (tokenHash : Str) (ttl : Int) :
      GrantRedisUse (.set (GrantCache.issuedKey tokenHash) "1" false ttl)
  | revoked (tokenHash : Str) (ttl : Int) :
      GrantRedisUse (.set (GrantCache.revokedKey tokenHash) "1" false ttl)
  | forget (tokenHash : Str) : GrantRedisUse (.delete (GrantCache.issuedKey tokenHash))

/-- What stands behind a new grant: its agent's row, which allows the tool, and
an account of the agent's user with the tool's provider. -/
structure Issuable (grant : Grant) (tr : Trace BrokerSig) : Prop where
  unrevoked : grant.revokedAt = none
  backed : ∃ agent account tool,
    ⟨.query (.agentForUpdate grant.agentId), .ok (some agent)⟩ ∈ tr ∧
    ⟨.query (.latestAccount agent.userId tool.provider), .ok (some account)⟩ ∈ tr ∧
    account.id = grant.connectedAccountId ∧ getTool grant.toolName = .ok tool ∧
    grant.toolName ∈ agent.allowedScopes ∧ grant.scope = tool.scope

/-- What the other requests have established before an operation. -/
def plainGuard (tr : Trace BrokerSig) : Op → Prop
  | .toolCall .. => False
  | .redis cmd => GrantRedisUse cmd
  | .add (.grant grant) => Issuable grant tr
  | .add (.audit _) => False
  | .setGrant attr => ∃ now, attr = .revokedAt (some now)
  | .setAccount _ => False
  | _ => True

/-- What stands behind the commit of a revocation: the row was not revoked, and
is marked now. -/
def Marking (grantId : Uuid) (tr : Trace BrokerSig) : Prop :=
  ∃ grant now, grant.revokedAt = none ∧
    tr = [⟨.query (.grantById grantId), .ok (some grant)⟩, ⟨.clock, .ok now⟩,
      ⟨.setGrant (.revokedAt (some now)), .ok ()⟩]

/-- What a request has established before an operation. -/
def requestGuard : Request → Trace BrokerSig → Op → Prop
  | .invoke req => invokeGuard lib svc req
  | .revokeGrant grantId => fun tr e => plainGuard tr e ∧ (e = .commit → Marking grantId tr)
  | _ => plainGuard

abbrev requestRole (r : Request) : Role BrokerSig := .guarding (requestGuard lib svc r)

/-- How a request may end; only invocations are followed to their end. -/
def requestPost : Request → Post BrokerSig Response
  | .invoke req => fun r tr => ∃ r', r = r'.map .outcome ∧ Concluded lib svc req tr r'
  | _ => fun _ _ => True

variable {lib svc} {lossy : Bool}

/-! ## Programs under their guards -/

namespace Op

/-- What the other requests may always do. -/
def isHarmless : Op → Bool
  | .toolCall .. | .redis _ | .add (.grant _) | .add (.audit _) | .setGrant _
  | .setAccount _ => false
  | _ => true

end Op

theorem plainGuard_of_isHarmless (tr : Trace BrokerSig) (e : Op) (h : e.isHarmless = true) :
    plainGuard tr e := by
  cases e with
  | add row => cases row <;> trivial
  | _ => trivial

/-- The role of the other requests. -/
abbrev plainRole : Role BrokerSig := .guarding plainGuard

/-- A program of harmless operations meets the guard of every request. -/
theorem wp_harmless {α : Type} {p : BrokerProg α} (uses : Within p Op.isHarmless)
    {tr : Trace BrokerSig} :
    wp (broker lib svc lossy) plainRole p (fun _ _ => True) tr :=
  wp_guarded uses plainGuard_of_isHarmless

theorem withSession_uses {α : Type} {p : BrokerProg α} {c : Op → Bool} (close : c .close = true)
    (uses : Within p c) : Within (withSession p) c :=
  .bind (.attempt uses) fun _ => .bind (within_op close) fun _ => Prog.uses_ofExcept _

theorem createAgent_uses (body : AgentCreateRequest) : Within (createAgent body) Op.isHarmless := by
  refine .bind ?_ fun _ => withSession_uses rfl ?_
  · unfold userOr
    split
    · trivial
    · exact within_op rfl
  · exact .bind (within_op rfl) fun _ => .bind (within_op rfl) fun _ => .bind (within_op rfl)
      fun _ => .bind (within_op rfl) fun _ => trivial

theorem seedDemo_uses : Within seedDemo Op.isHarmless := by
  refine .bind (.bind (within_op rfl) fun agent => ?_) fun _ =>
    .bind (.bind (within_op rfl) fun account => ?_) fun _ => .bind (within_op rfl) fun _ => trivial
  · split
    · trivial
    · exact .bind (within_op rfl) fun _ => .bind (within_op rfl) fun _ => .bind (within_op rfl)
        fun _ => .bind (within_op rfl) fun _ => trivial
  · split
    · trivial
    · exact .bind (within_op rfl) fun _ => .bind (within_op rfl) fun _ =>
        .bind (Prog.uses_ofExcept _) fun _ => .bind (within_op rfl) fun _ => .bind (within_op rfl)
        fun _ => .bind (within_op rfl) fun _ => .bind (within_op rfl) fun _ => trivial

theorem requireGoogle_uses (provider : Str) : Within (requireGoogle provider) Op.isHarmless :=
  .ite (fun _ => trivial) fun _ => trivial

theorem makeState_uses (userId : Str) :
    Within (makeState lib svc.settings userId) Op.isHarmless := by
  unfold makeState
  split
  · trivial
  · exact .bind (within_op rfl) fun _ => .bind (within_op rfl) fun _ => trivial

theorem authorize_uses (provider : Str) (userId : Uuid) :
    Within (authorize lib svc.settings provider userId) Op.isHarmless :=
  .bind (requireGoogle_uses provider) fun _ => makeState_uses _

theorem Op.isHarmless_of_isRegister {e : Op} (h : e.isRegister = true) : e.isHarmless = true := by
  cases e <;> first | rfl | cases h

theorem Op.isHarmless_of_isPlain {e : Op} (h : e.isPlain = true) : e.isHarmless = true := by
  cases e <;> first | rfl | cases h

/-- Verifying a state reads the clock only. -/
theorem verifyState_plain (state : Str) :
    Within (verifyState lib svc.settings state) Op.isPlain := by
  unfold verifyState
  split
  · trivial
  · split
    · refine .ite (fun _ => trivial) fun _ => ?_
      split
      · trivial
      · exact .bind (within_op rfl) fun _ => .ite (fun _ => trivial) fun _ => trivial
    · trivial

/-- A callback is harmless: it adds an account, and no grant and no audit row. -/
theorem callback_uses (request : CallbackRequest) :
    Within (callback lib svc.settings request) Op.isHarmless := by
  refine .bind (requireGoogle_uses _) fun _ => ?_
  split
  · trivial
  · refine .bind (.bind (.attempt ?_) fun r => ?_) fun _ => ?_
    · exact .bind ((verifyState_plain _).mono Op.isHarmless_of_isPlain) fun _ =>
        .bind (Prog.uses_ofExcept _) fun _ => .bind (.bind (within_op rfl) fun _ =>
          (parseTokenResponse_uses _).mono Op.isHarmless_of_isRegister) fun _ => trivial
    · split <;> trivial
    · refine .bind (within_op rfl) fun _ => .bind ?_ fun _ =>
        .bind ((expiryOf_uses _).mono Op.isHarmless_of_isPlain) fun _ => withSession_uses rfl ?_
      · exact .ite (fun _ => .bind (within_op rfl) fun _ => trivial) fun _ => trivial
      · exact .bind (within_op rfl) fun _ => .bind (within_op rfl) fun _ => .bind (within_op rfl)
          fun _ => .bind (within_op rfl) fun _ => .bind (within_op rfl) fun _ => trivial
  · trivial

/-! ## Issuance and revocation -/

theorem wp_limit {key : Str} {limit : Int} {Q : Post BrokerSig Bool} {tr : Trace BrokerSig}
    (post : ∀ r tr', tr <+: tr' → Q r tr') :
    wp (broker lib svc lossy) plainRole (RateLimiter.check key limit) Q tr := by
  refine ⟨trivial, fun a may _ => ?_⟩
  obtain ⟨now, rfl⟩ := may_sync rfl may
  refine ⟨.incr _ _, fun a _ _ => ?_⟩
  have grown := (List.prefix_append tr [⟨.clock, .ok now⟩]).trans (List.prefix_append _
    [⟨.redis (.incr (RateLimiter.counterKey key (now / seconds RateLimiter.windowSeconds))), a⟩])
  cases a with
  | error x => exact post _ _ grown
  | ok count =>
    show wp _ _ (if _ then _ else _) _ _
    split
    · refine ⟨.expire _ _ _, fun a _ _ => ?_⟩
      cases a with
      | error x => exact post _ _ (grown.trans (List.prefix_append _ _))
      | ok done => exact post _ _ (grown.trans (List.prefix_append _ _))
    · exact post _ _ grown

/-- The rate limit of a request for a grant meets its guard. -/
theorem wp_checkGrantRate {agentId : Uuid} {Q : Post BrokerSig Unit} {tr : Trace BrokerSig}
    (post : ∀ r tr', tr <+: tr' → Q r tr') :
    wp (broker lib svc lossy) plainRole (checkGrantRate svc agentId) Q tr := by
  unfold checkGrantRate
  split
  · rw [wp_bind]
    refine wp_limit fun r tr' grown => ?_
    cases r with
    | error x => exact post _ _ grown
    | ok allowed =>
      show wp _ _ (if _ then _ else _) _ _
      split
      · exact post _ _ grown
      · exact post _ _ grown
  · exact post _ _ List.prefix_rfl

/-- The checks that a policy passed. -/
theorem checkPolicy_ok {agent : AgentIdentity} {toolName requestedScope : Str}
    {tool : ToolAdapter} (passed : checkPolicy lib agent toolName requestedScope = .ok tool) :
    getTool toolName = .ok tool ∧ toolName ∈ agent.allowedScopes ∧ requestedScope = tool.scope := by
  unfold checkPolicy at passed
  cases found : getTool toolName with
  | error x => rw [found] at passed; cases passed
  | ok tool' =>
    rw [found] at passed
    change (if _ then _ else _) = _ at passed
    split at passed
    · cases passed
    · split at passed
      · cases passed
      · rename_i allowed scope
        obtain rfl := Except.ok.inj passed
        exact ⟨rfl, Decidable.not_not.mp allowed, Decidable.not_not.mp scope⟩

/-- A grant is only added once all its grounds were looked up. -/
theorem wp_requestGrant (agentId : Uuid) (toolName requestedScope : Str) {tr : Trace BrokerSig} :
    wp (broker lib svc lossy) plainRole (requestGrant lib svc agentId toolName requestedScope)
      (fun _ _ => True) tr := by
  unfold requestGrant
  rw [wp_bind]
  refine wp_checkGrantRate fun r tr' _ => ?_
  cases r with
  | error x => trivial
  | ok _ =>
    refine ⟨trivial, fun a _ _ => ?_⟩
    rcases a with x | _ | agent
    · trivial
    · trivial
    · show wp _ _ ((Prog.ofExcept (checkPolicy lib agent toolName requestedScope) :
        BrokerProg ToolAdapter) >>= _) _ _
      rw [wp_bind, wp_ofExcept]
      cases passed : checkPolicy lib agent toolName requestedScope with
      | error x => trivial
      | ok tool =>
        obtain ⟨tool_eq, allowed, scope_eq⟩ := checkPolicy_ok passed
        refine ⟨trivial, fun a _ _ => ?_⟩
        rcases a with x | _ | account
        · trivial
        · trivial
        · refine ⟨trivial, fun a may _ => ?_⟩
          obtain ⟨now, rfl⟩ := may_sync rfl may
          refine ⟨trivial, fun a _ _ => ?_⟩
          rcases a with x | activeCount
          · trivial
          · show wp _ _ (if _ then _ else _) _ _
            split
            · trivial
            · refine ⟨trivial, fun a may _ => ?_⟩
              obtain ⟨grantId, rfl⟩ := may_sync rfl may
              show wp _ _ ((Prog.ofExcept (addSeconds now svc.settings.grantTokenTtlSeconds) :
                BrokerProg Time) >>= _) _ _
              rw [wp_bind, wp_ofExcept]
              cases addSeconds now svc.settings.grantTokenTtlSeconds with
              | error x => trivial
              | ok expiresAt =>
                show wp _ _ ((Prog.ofExcept (signGrantToken lib svc grantId agentId toolName
                  requestedScope now expiresAt) : BrokerProg Str) >>= _) _ _
                rw [wp_bind, wp_ofExcept]
                cases signGrantToken lib svc grantId agentId toolName requestedScope now
                    expiresAt with
                | error x => trivial
                | ok token =>
                  refine ⟨⟨rfl, agent, account, tool, by simp, by simp, rfl, tool_eq, allowed,
                    scope_eq⟩, fun a _ _ => ?_⟩
                  rcases a with x | _
                  · trivial
                  · refine ⟨trivial, fun a _ _ => ?_⟩
                    rcases a with x | _
                    · trivial
                    · show wp _ _ (if _ then _ else _) _ _
                      split
                      · refine ⟨.issued _ _, fun a _ _ => ?_⟩
                        cases a <;> trivial
                      · trivial

/-- A revocation is committed right after it was assigned. -/
theorem wp_revokeGrant (grantId : Uuid) :
    wp (broker lib svc lossy) (requestRole lib svc (.revokeGrant grantId))
      (revokeGrant svc grantId) (fun _ _ => True) [] := by
  have marking : ∀ (grant : Grant) (tr : Trace BrokerSig),
      wp (broker lib svc lossy) (requestRole lib svc (.revokeGrant grantId))
        (if svc.grantCache then do
          GrantCache.recordRevoked grant.grantTokenHash
          return grant
        else return grant : BrokerProg Grant) (fun _ _ => True) tr := by
    intro grant tr
    split
    · refine ⟨⟨.revoked _ _, by simp⟩, fun a _ _ => ?_⟩
      rcases a with x | _
      · trivial
      · refine ⟨⟨.forget _, by simp⟩, fun a _ _ => ?_⟩
        cases a <;> trivial
    · trivial
  refine ⟨⟨trivial, by simp⟩, fun a _ _ => ?_⟩
  rcases a with x | _ | grant
  · trivial
  · trivial
  · show wp _ _ (markRevoked grant >>= _) _ _
    rw [wp_bind]
    unfold markRevoked
    split
    · rename_i unrevoked
      refine ⟨⟨trivial, by simp⟩, fun a may _ => ?_⟩
      obtain ⟨now, rfl⟩ := may_sync rfl may
      refine ⟨⟨⟨now, rfl⟩, by simp⟩, fun a may _ => ?_⟩
      obtain ⟨⟨⟩, rfl⟩ := may_sync rfl may
      refine ⟨⟨trivial, fun _ => ⟨grant, now, unrevoked, rfl⟩⟩, fun a _ _ => ?_⟩
      rcases a with x | _
      · trivial
      · exact marking _ _
    · exact marking _ _

/-! ## All requests -/

variable (lib svc) in
/-- Each request keeps its guard. -/
theorem wp_serve (r : Request) :
    wp (broker lib svc lossy) (requestRole lib svc r) (serve lib svc r) (requestPost lib svc r)
      [] := by
  cases r with
  | createAgent body => exact wp_map (wp_harmless (createAgent_uses body))
  | seedDemo => exact wp_map (wp_harmless (withSession_uses rfl seedDemo_uses))
  | authorize provider userId => exact wp_map (wp_harmless (authorize_uses provider userId))
  | callback request => exact wp_map (wp_harmless (callback_uses request))
  | requestGrant agentId toolName requestedScope =>
    refine wp_map (wp_withSession (fun _ => trivial) ?_)
    exact wp_mono (wp_requestGrant agentId toolName requestedScope) fun _ _ _ _ _ _ => trivial
  | revokeGrant grantId =>
    refine wp_map (wp_withSession (fun _ => ⟨trivial, by simp⟩) ?_)
    exact wp_mono (wp_revokeGrant grantId) fun _ _ _ _ _ _ => trivial
  | invoke req =>
    exact wp_map (wp_mono (wp_invoke lib svc req) fun r tr _ concluded => ⟨r, rfl, concluded⟩)

end CredBroker
