import CredBroker.Stored

/-!
# Names in Redis

Stored results, issued grants, revocation markers and rate counters share one key
space. `RedisKey.name_inj` says that a name tells what it stands for, whatever a
caller chose for its idempotency key; `redis_names_apart` draws from it whose entries
the programs of a run can touch.
-/

namespace CredBroker

open Python Interaction

variable {lib : Lib} {svc : Services} {lossy : Bool}

/-! ## What a name stands for -/

/-- The operations that the limiter counts. -/
inductive Metered
  | grants
  | invoke
  deriving DecidableEq

def Metered.word : Metered → Str
  | .grants => "grants:"
  | .invoke => "invoke:"

/-- The key that a caller of `check` passes. -/
def Metered.key (metered : Metered) (agentId : Uuid) : Str := metered.word ++ agentId.str

inductive RedisKey
  | result (agentId accountId : Uuid) (toolName key : Str)
  | issued (tokenHash : Str)
  | revoked (tokenHash : Str)
  | counter (metered : Metered) (agentId : Uuid) (window : Int)
  deriving DecidableEq

namespace RedisKey

def name : RedisKey → Str
  | .result agentId accountId toolName key =>
    IdempotencyStore.name (agentId.str ++ ":" ++ accountId.str ++ ":" ++ toolName ++ ":" ++ key)
  | .issued tokenHash => GrantCache.issuedKey tokenHash
  | .revoked tokenHash => GrantCache.revokedKey tokenHash
  | .counter metered agentId window => RateLimiter.counterKey (metered.key agentId) window

/-- A tool is named without a colon. -/
def Plain : RedisKey → Prop
  | .result _ _ toolName _ => ':' ∉ toolName
  | _ => True

/-- The first two characters tell the families apart. -/
def family : RedisKey → Str
  | .result .. => "id"
  | .issued _ => "gr"
  | .revoked _ => "re"
  | .counter .. => "ra"

/-- The first characters of a name say which family it is of. -/
theorem take_name (k : RedisKey) : k.name.take 2 = k.family := by
  cases k <;> rfl

end RedisKey

/-- The words are of one length, and so are the identifiers after them. -/
theorem Metered.key_inj {metered metered' : Metered} {agentId agentId' : Uuid} {tail tail' : Str}
    (same : metered.key agentId ++ tail = metered'.key agentId' ++ tail') :
    metered = metered' ∧ agentId = agentId' ∧ tail = tail' := by
  have length : ∀ metered : Metered, metered.word.length = 7 := by
    intro metered
    cases metered <;> rfl
  unfold Metered.key at same
  rw [List.append_assoc, List.append_assoc] at same
  obtain ⟨words, same⟩ := List.append_inj same ((length _).trans (length _).symm)
  obtain ⟨agent, tails⟩ := List.append_inj same (by rw [Uuid.length_str, Uuid.length_str])
  refine ⟨?_, Uuid.str_inj agent, tails⟩
  cases metered <;> cases metered' <;> first | rfl | cases words

/-- A name of the broker tells what it stands for. -/
theorem RedisKey.name_inj {k k' : RedisKey} (plain : k.Plain) (plain' : k'.Plain)
    (same : k.name = k'.name) : k = k' := by
  have families : k.family = k'.family := by rw [← k.take_name, ← k'.take_name, same]
  cases k with
  | result agentId accountId toolName key =>
    cases k' with
    | result agentId' accountId' toolName' key' =>
      obtain ⟨rfl, rfl, rfl, rfl⟩ := keyText_inj plain plain' (IdempotencyStore.name_inj same)
      rfl
    | _ => cases families
  | issued tokenHash =>
    cases k' with
    | issued tokenHash' =>
      obtain rfl : tokenHash = tokenHash' := List.append_cancel_left same
      rfl
    | _ => cases families
  | revoked tokenHash =>
    cases k' with
    | revoked tokenHash' =>
      obtain rfl := revokedKey_inj same
      rfl
    | _ => cases families
  | counter metered agentId window =>
    cases k' with
    | counter metered' agentId' window' =>
      change RateLimiter.counterKey _ _ = RateLimiter.counterKey _ _ at same
      rw [RateLimiter.counterKey_eq, RateLimiter.counterKey_eq] at same
      obtain ⟨rfl, rfl, windows⟩ := Metered.key_inj (List.append_cancel_left same)
      obtain rfl := Json.ofInt_inj (List.cons.inj windows).2
      rfl
    | _ => cases families

/-! ## What an invocation touches -/

/-- The commands of an invocation that holds this row: a look at the marker of its
token, and whatever it does under its agent's counters and its own key. -/
inductive Own (lib : Lib) (req : InvokeRequest) (grant : Grant) : Redis.Cmd → Prop
  | marker : Own lib req grant (.existsKey (GrantCache.revokedKey (hashToken lib req.grantToken)))
  | counter {cmd : Redis.Cmd} {window : Int}
      (named : cmd.name = (RedisKey.counter .invoke grant.agentId window).name) :
      Own lib req grant cmd
  | result {cmd : Redis.Cmd} {key : Str} {tool : ToolAdapter}
      (keyed : req.idempotencyKey = some key)
      (registered : getTool req.toolName = .ok tool) (named : cmd.name =
        (RedisKey.result grant.agentId grant.connectedAccountId req.toolName key).name) :
      Own lib req grant cmd

/-- An operation is none on Redis, or one of these. -/
def Touches (lib : Lib) (req : InvokeRequest) (grant : Grant) (e : Op) : Prop :=
  ∀ cmd, e = .redis cmd → Own lib req grant cmd

section Touches

variable {req : InvokeRequest} {grant : Grant} {start : Time}

theorem touches_nothing {e : Op} (other : e.isRedis = false) : Touches lib req grant e := by
  rintro cmd rfl
  cases other

theorem touches_of_plain {e : Op} (plain : e.isPlain = true) : Touches lib req grant e :=
  touches_nothing (by cases e <;> first | rfl | cases plain)

theorem touches_of_execute {e : Op}
    (executes : e.isExecuteOf (hashToken lib req.grantToken) = true) :
    Touches lib req grant e := by
  rintro cmd rfl
  cases cmd with
  | existsKey name =>
    obtain rfl := of_decide_eq_true executes
    exact .marker
  | _ => cases executes

theorem op_touches {e : Op} (other : e.isRedis = false) : (op e).Uses (Touches lib req grant) :=
  (Prog.uses_perform _).mpr (touches_nothing other)

theorem redis_touches {cmd : Redis.Cmd} (own : Own lib req grant cmd) :
    (op (.redis cmd)).Uses (Touches lib req grant) :=
  (Prog.uses_perform _).mpr (by rintro cmd ⟨⟩; exact own)

theorem refused_touches {status : Status} {msg : Str} {reason : Option DeniedReason} :
    (refused start status msg reason).Uses (Touches lib req grant) :=
  Prog.Uses.mono (refused_uses ..) fun _ => touches_of_plain

theorem checkInvokeRate_touches : (checkInvokeRate svc grant).Uses (Touches lib req grant) :=
  .ite (fun _ => .bind (op_touches rfl) fun _ => .bind (redis_touches (.counter rfl)) fun _ =>
    .ite (fun _ => .bind (redis_touches (.counter rfl)) fun _ => trivial) fun _ => trivial)
      fun _ => trivial

section Keyed

variable {key : Str} {tool : ToolAdapter} (keyed : req.idempotencyKey = some key)
  (registered : getTool req.toolName = .ok tool)

include keyed registered

/-- Every command under the own key is allowed. -/
theorem result_touches {cmd : Redis.Cmd}
    (named : cmd.name = IdempotencyStore.name (fullKey req grant key)) :
    (op (.redis cmd)).Uses (Touches lib req grant) :=
  redis_touches (.result keyed registered named)

/-- An invocation claims its own key only. -/
theorem claimKey_touches :
    (claimKey lib start (fullKey req grant key)).Uses (Touches lib req grant) := by
  have early {status : Status} {msg : Str} {reason : Option DeniedReason} :
      (.error <$> refused start status msg reason : BrokerProg (Except InvokeOutcome Str)).Uses
        (Touches lib req grant) := .bind refused_touches fun _ => trivial
  refine .bind (.attempt (.bind (result_touches keyed registered rfl) fun value => ?_)) fun r => ?_
  · split
    · trivial
    · refine .ite (fun _ => trivial) fun _ => ?_
      split <;> trivial
  · split
    · exact early
    · trivial
    · refine .bind (.bind (op_touches rfl) fun _ =>
        .bind (result_touches keyed registered rfl) fun _ => trivial) fun reservation => ?_
      split
      · exact early
      · trivial
    · exact .bind (Prog.Uses.mono (succeeded_uses ..) fun _ => touches_of_plain) fun _ => trivial

theorem release_touches {owner : Option Str} :
    (IdempotencyStore.release (fullKey req grant key) owner).Uses (Touches lib req grant) := by
  refine .bind (result_touches keyed registered rfl) fun value => ?_
  split
  · trivial
  · exact .ite (fun _ => trivial) fun _ => .ite (fun _ => trivial) fun _ =>
      .bind (result_touches keyed registered rfl) fun _ => trivial

theorem settle_touches {store : IdempotencyStore} {reservation : Str} {outcome : InvokeOutcome} :
    (settle store (fullKey req grant key) reservation outcome).Uses (Touches lib req grant) :=
  .ite (fun _ => .bind (result_touches keyed registered rfl) fun _ =>
    .ite (fun _ => trivial) fun _ => .bind (result_touches keyed registered rfl) fun _ => trivial)
      fun _ => release_touches keyed registered

/-- And settles or releases the one that it has claimed. -/
theorem executeReserved_touches {store : IdempotencyStore} {reservation : Str} :
    (executeReserved lib svc req grant (hashToken lib req.grantToken) tool start store
      (fullKey req grant key) reservation).Uses (Touches lib req grant) := by
  refine .bind (.attempt (Prog.Uses.mono executeCall_looks fun e => touches_of_execute))
    fun ended => ?_
  split
  · exact .ite (fun _ => .bind (release_touches keyed registered) fun _ => trivial)
      fun _ => trivial
  · exact .bind (settle_touches keyed registered) fun _ => trivial

end Keyed

/-- Under its grant it comes to three names: a counter, its key and the marker. -/
theorem invokeResolved_touches {fastRevoked : Bool} :
    (invokeResolved lib svc req grant (hashToken lib req.grantToken) start fastRevoked).Uses
      (Touches lib req grant) := by
  refine .ite (fun _ => refused_touches) fun _ => .bind (op_touches rfl) fun now =>
    .ite (fun _ => refused_touches) fun _ => .bind checkInvokeRate_touches fun allowed =>
    .ite (fun _ => refused_touches) fun _ => ?_
  split
  · exact refused_touches
  · trivial
  · rename_i tool registered
    refine .ite (fun _ => refused_touches) fun _ => ?_
    split
    · rename_i key store keyed _
      refine .bind (claimKey_touches keyed registered) fun claimed => ?_
      split
      · trivial
      · exact executeReserved_touches keyed registered
    · exact Prog.Uses.mono executeCall_looks fun e => touches_of_execute

/-- What follows the lookup of a row touches only what is its own. -/
theorem invokeAudited_touches {fastRevoked : Bool} :
    (invokeAudited lib svc req grant (hashToken lib req.grantToken) start fastRevoked).Uses
      (Touches lib req grant) := by
  refine .bind (.attempt invokeResolved_touches) fun ended => ?_
  split
  · trivial
  · exact .ite (fun _ => .bind (op_touches rfl) fun _ => refused_touches) fun _ => trivial

/-! ## Whose entries a program touches -/

/-- The rows that an invocation holds are those it has looked up. -/
def ownGuard (lib : Lib) : Request → Trace BrokerSig → Op → Prop
  | .invoke req => fun tr e => ∀ cmd, e = .redis cmd →
      cmd = .existsKey (GrantCache.revokedKey (hashToken lib req.grantToken)) ∨
        ∃ grant, looked lib req grant ∈ tr ∧ Own lib req grant cmd
  | _ => fun _ _ => True

abbrev ownRole (lib : Lib) (r : Request) : Role BrokerSig := .guarding (ownGuard lib r)

theorem ownGuard_of_other {tr : Trace BrokerSig} {e : Op} (other : e.isRedis = false) :
    ownGuard lib (.invoke req) tr e := by
  rintro cmd rfl
  cases other

theorem wp_refused_owning {status : Status} {msg : Str} {reason : Option DeniedReason}
    {tr : Trace BrokerSig} : wp (broker lib svc lossy) (ownRole lib (.invoke req))
      (refused start status msg reason) (fun _ _ => True) tr :=
  wp_guarded (refused_uses ..) fun _ e plain =>
    ownGuard_of_other (by cases e <;> first | rfl | cases plain)

theorem wp_invokeGranted_owning {tr : Trace BrokerSig} :
    wp (broker lib svc lossy) (ownRole lib (.invoke req)) (invokeGranted lib svc req start)
      (fun _ _ => True) tr := by
  -- the marker is looked at before there is a row
  have marker : wp (broker lib svc lossy) (ownRole lib (.invoke req))
      (markedRevoked svc (hashToken lib req.grantToken)) (fun _ _ => True) tr := by
    unfold markedRevoked
    split
    · refine ⟨by rintro cmd ⟨⟩; exact .inl rfl, fun a _ _ => ?_⟩
      cases a <;> trivial
    · trivial
  show wp _ _ (markedRevoked svc (hashToken lib req.grantToken) >>= _) _ _
  rw [wp_bind]
  refine wp_mono marker fun r tr' _ _ => ?_
  cases r with
  | error x => trivial
  | ok fastRevoked =>
    refine ⟨ownGuard_of_other rfl, fun a _ _ => ?_⟩
    rcases a with x | _ | grant
    · trivial
    · exact wp_refused_owning
    · have uses : (invokeAudited lib svc req grant (hashToken lib req.grantToken) start
          fastRevoked >>= fun outcome => recordCall lib grant.id req.toolName req.arguments
            outcome.status outcome.latencyMs >>= fun _ => Prog.ret outcome).Uses
              (Touches lib req grant) :=
        .bind invokeAudited_touches fun _ =>
          .bind (.bind (op_touches rfl) fun _ => op_touches rfl) fun _ => trivial
      exact wp_invariant (J := fun tr => looked lib req grant ∈ tr) uses
        (fun _ _ found _ => List.mem_append_left _ found)
        (fun _ _ found touches cmd is => .inr ⟨grant, found, touches cmd is⟩)
        (List.mem_append_right _ List.mem_cons_self) fun _ _ _ _ => trivial

/-- All that an invocation does on Redis is under the grant that it has found. -/
theorem wp_invoke_owning : wp (broker lib svc lossy) (ownRole lib (.invoke req))
    (invoke lib svc req) (fun _ _ => True) [] := by
  refine ⟨ownGuard_of_other rfl, fun a may _ => ?_⟩
  obtain ⟨start, rfl⟩ := may_sync rfl may
  show wp _ _ ((verifyGrantToken lib svc req.grantToken).attempt >>= _) _ _
  rw [wp_bind, wp_attempt]
  refine ⟨ownGuard_of_other rfl, fun a may _ => ?_⟩
  obtain ⟨now, rfl⟩ := may_sync rfl may
  show wp _ _
    (Prog.ofExcept (verifiedClaims lib svc req.grantToken now) : BrokerProg GrantClaims) _ _
  rw [wp_ofExcept, Post.next_ok]
  split
  · exact wp_refused_owning
  · exact wp_refused_owning
  · trivial
  · split
    · exact wp_refused_owning
    · exact wp_withSession (fun _ => ownGuard_of_other rfl)
        (wp_mono wp_invokeGranted_owning fun _ _ _ _ _ _ => trivial)

end Touches

variable (lib svc) in
/-- Each request keeps to its own names. -/
theorem wp_serve_owning (r : Request) :
    wp (broker lib svc lossy) (ownRole lib r) (serve lib svc r) (fun _ _ => True) [] := by
  cases r with
  | invoke req => exact wp_map wp_invoke_owning
  | _ => exact wp_free fun _ _ => trivial

/-- The other requests keep away from stored results. -/
theorem GrantRedisUse.not_result {cmd : Redis.Cmd} (use : GrantRedisUse cmd) (key : Str) :
    cmd.name ≠ IdempotencyStore.name key := by
  cases use with
  | incr | expire => exact counterKey_ne_name _ _ _
  | issued | forget => exact issuedKey_ne_name _ _
  | revoked => exact (idempotencyName_ne _ _).symm

theorem GrantRedisUse.not_read {cmd : Redis.Cmd} (use : GrantRedisUse cmd) :
    cmd.isRead = false := by
  cases use <;> rfl

section Runs

variable {w : World} {c : Broker} (run : (broker lib svc lossy).Reaches (.start w) c)
  {e : Entry BrokerSig World} (member : e ∈ c.hist) {cmd : Redis.Cmd}
  (performs : e.event.op = .redis cmd)

include run member performs

/-- Whoever performs a command on the name of a stored result has presented the token of a
grant of that agent and account, for that tool and with that key. -/
theorem result_touched {agentId accountId : Uuid} {toolName key : Str} (plain : ':' ∉ toolName)
    (named : cmd.name = (RedisKey.result agentId accountId toolName key).name) :
    ∃ t req grant, c.threads[e.tid]? = some t ∧ t.req = .invoke req ∧
      looked lib req grant ∈ e.past ∧ grant.agentId = agentId ∧
      grant.connectedAccountId = accountId ∧ req.toolName = toolName ∧
      req.idempotencyKey = some key := by
  obtain ⟨t, thread, sub, guard⟩ := entry_kept run member
  have owns := run.guarded member thread (wp_serve_owning lib svc t.req) (Role.met_guarding _ _)
  rw [performs] at guard owns
  cases request : t.req with
  | invoke req =>
    rw [request] at owns
    rcases owns cmd rfl with rfl | ⟨grant, found, own⟩
    · exact (idempotencyName_ne _ _ named.symm).elim
    · cases own with
      | marker => exact (idempotencyName_ne _ _ named.symm).elim
      | counter is => exact (counterKey_ne_name _ _ _ (is.symm.trans named)).elim
      | result keyed registered is =>
        obtain ⟨agent, account, name, same⟩ := keyText_inj (getTool_plain registered) plain
          (IdempotencyStore.name_inj (is.symm.trans named))
        exact ⟨t, req, grant, thread, request, found, agent, account, name, same ▸ keyed⟩
  | revokeGrant grantId =>
    rw [request] at guard
    exact (guard.1.not_result _ named).elim
  | _ =>
    rw [request] at guard
    exact (GrantRedisUse.not_result guard _ named).elim

/-- A marker is only looked at, by an invocation that presents its token, or recorded by
the revocation of its grant. -/
theorem marker_touched {tokenHash : Str} (named : cmd.name = (RedisKey.revoked tokenHash).name) :
    ∃ t, c.threads[e.tid]? = some t ∧
      ((∃ req, t.req = .invoke req ∧ hashToken lib req.grantToken = tokenHash ∧
        cmd = .existsKey (GrantCache.revokedKey tokenHash)) ∨
      ∃ grantId, t.req = .revokeGrant grantId ∧ Recorded grantId tokenHash e.past) := by
  obtain ⟨t, thread, sub, guard⟩ := entry_kept run member
  have owns := run.guarded member thread (wp_serve_owning lib svc t.req) (Role.met_guarding _ _)
  have records := run.guarded member thread (wp_serve_recording lib svc t.req)
    (Role.met_guarding _ _)
  rw [performs] at guard owns records
  refine ⟨t, thread, ?_⟩
  have touched := read_or_records guard named
  cases request : t.req with
  | invoke req =>
    rw [request] at owns
    have looks : cmd = .existsKey (GrantCache.revokedKey (hashToken lib req.grantToken)) := by
      rcases owns cmd rfl with marker | ⟨grant, found, own⟩
      · exact marker
      · cases own with
        | marker => rfl
        | counter is => exact (counterKey_ne _ _ _ (is.symm.trans named)).elim
        | result keyed registered is =>
          exact (idempotencyName_ne _ _ (is.symm.trans named)).elim
    subst looks
    obtain rfl := revokedKey_inj named
    exact .inl ⟨req, rfl, rfl, rfl⟩
  | revokeGrant grantId =>
    rw [request] at guard records
    rcases touched with read | ⟨-, records'⟩
    · rw [GrantRedisUse.not_read guard.1] at read
      cases read
    · exact .inr ⟨grantId, rfl, records tokenHash records'⟩
  | _ =>
    rw [request] at guard records
    rcases touched with read | ⟨-, records'⟩
    · rw [GrantRedisUse.not_read guard] at read
      cases read
    · exact (records tokenHash records').elim

end Runs

/-- Names in Redis never collide: each tells its family and its member, for any caller's
key, and no run has a program that reaches the result of another agent, account, tool or
key, or that writes a marker but to record a revocation. -/
theorem redis_names_apart {w : World} {c : Broker}
    (run : (broker lib svc lossy).Reaches (.start w) c) :
    (∀ k k' : RedisKey, k.Plain → k'.Plain → k.name = k'.name → k = k') ∧
      (∀ tool ∈ toolRegistry, ':' ∉ tool.name) ∧
      ∀ e ∈ c.hist, ∀ cmd, e.event.op = .redis cmd →
        (∀ agentId accountId toolName key, ':' ∉ toolName →
          cmd.name = (RedisKey.result agentId accountId toolName key).name →
          ∃ t req grant, c.threads[e.tid]? = some t ∧ t.req = .invoke req ∧
            looked lib req grant ∈ e.past ∧ grant.agentId = agentId ∧
            grant.connectedAccountId = accountId ∧ req.toolName = toolName ∧
            req.idempotencyKey = some key) ∧
        ∀ tokenHash, cmd.name = (RedisKey.revoked tokenHash).name →
          ∃ t, c.threads[e.tid]? = some t ∧
            ((∃ req, t.req = .invoke req ∧ hashToken lib req.grantToken = tokenHash ∧
              cmd = .existsKey (GrantCache.revokedKey tokenHash)) ∨
            ∃ grantId, t.req = .revokeGrant grantId ∧ Recorded grantId tokenHash e.past) :=
  ⟨fun _ _ => RedisKey.name_inj, toolRegistry_colon, fun _ member _ performs =>
    ⟨fun _ _ _ _ => result_touched run member performs, fun _ =>
      marker_touched run member performs⟩⟩

/-- The name of the key that an operation is about. -/
def Op.redisName : Op → Option Str
  | .redis cmd => some cmd.name
  | _ => none

theorem Op.redisName_eq_some {e : Op} {name : Str} (is : e.redisName = some name) :
    ∃ cmd, e = .redis cmd ∧ cmd.name = name := by
  cases e with
  | redis cmd => exact ⟨cmd, rfl, Option.some.inj is⟩
  | _ => cases is

/-- The demo agent calls its tool with the key `agent:k`. -/
theorem redis_names_apart_demo : ∃ (c : Broker) (e : Entry BrokerSig World) (row : Grant),
    (broker Demo.lib Demo.services true).Reaches (.start (World.fresh Demo.midnight)) c ∧
      e ∈ c.hist ∧ row ∈ c.world.db.grants ∧
      e.event.op.redisName =
        some (RedisKey.result row.agentId row.connectedAccountId "drive.read" "agent:k").name ∧
      ∃ t req grant, c.threads[e.tid]? = some t ∧ t.req = .invoke req ∧
        looked Demo.lib req grant ∈ e.past ∧ grant.agentId = row.agentId ∧
        grant.connectedAccountId = row.connectedAccountId ∧ req.toolName = "drive.read" ∧
        req.idempotencyKey = some "agent:k" := by
  have computed : (Demo.played true
      (Demo.issued ++ Demo.invocation [] (some "agent:k") :: Demo.run 2 12)).any (fun c =>
        c.hist.any fun e => c.world.db.grants.any fun row => e.event.op.redisName =
          some (RedisKey.result row.agentId row.connectedAccountId "drive.read" "agent:k").name) =
            true := by decide +kernel
  obtain ⟨c, run, computed⟩ := Demo.reached computed
  obtain ⟨e, member, computed⟩ := List.any_eq_true.mp computed
  obtain ⟨row, there, named⟩ := List.any_eq_true.mp computed
  have named := of_decide_eq_true named
  obtain ⟨cmd, performs, is⟩ := Op.redisName_eq_some named
  obtain ⟨-, -, touched⟩ := redis_names_apart run
  exact ⟨c, e, row, run, member, there, named,
    (touched e member cmd performs).1 _ _ _ _ (by decide) is⟩

end CredBroker
