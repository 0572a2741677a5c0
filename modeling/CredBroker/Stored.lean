import CredBroker.Audit
import CredBroker.Markers
import CredBroker.Reliability.Ownership

/-!
# Stored results

The invocations of a broker keep to the discipline of the idempotency store, so
a result that a program finds there was put there by an invocation with the
same agent, account, tool and key, after the provider had returned it.
-/

namespace CredBroker

open Python Interaction

variable {lib : Lib} {svc : Services} {lossy : Bool}

/-! ## Keys -/

theorem Uuid.length_str (u : Uuid) : u.str.length = 36 := by
  unfold Uuid.str
  simp

/-- The groups of `str(uuid)` are those of its numeral. -/
theorem Uuid.regroup (a : Str) : a.take 8 ++ ((a.drop 8).take 4 ++ ((a.drop 12).take 4 ++
    ((a.drop 16).take 4 ++ a.drop 20))) = a := by
  have cut : ∀ n m : Nat, a.drop n = (a.drop n).take m ++ a.drop (n + m) := by
    intro n m
    rw [← List.drop_drop, List.take_append_drop]
  rw [← cut 16 4, ← cut 12 4, ← cut 8 4, List.take_append_drop]

theorem Uuid.str_inj {u v : Uuid} (same : u.str = v.str) : u = v := by
  unfold Uuid.str at same
  generalize shown : Str.hex 32 u.bits.val = a at same
  generalize shown' : Str.hex 32 v.bits.val = b at same
  have la : a.length = 32 := shown ▸ Str.length_hex _ _
  have lb : b.length = 32 := shown' ▸ Str.length_hex _ _
  obtain ⟨same, e⟩ := List.append_inj' same (by simp [la, lb])
  obtain ⟨same, d⟩ := List.append_inj' same (by simp [la, lb])
  obtain ⟨same, c⟩ := List.append_inj' same (by simp [la, lb])
  obtain ⟨first, second⟩ := List.append_inj' same (by simp [la, lb])
  have hex : a = b := by
    rw [← Uuid.regroup a, ← Uuid.regroup b, first, (List.cons.inj second).2, (List.cons.inj c).2,
      (List.cons.inj d).2, (List.cons.inj e).2]
  have bits : u.bits.val = v.bits.val :=
    Str.hex_inj u.bits.isLt v.bits.isLt (shown.trans (hex.trans shown'.symm))
  cases u
  cases v
  exact congrArg Uuid.mk (Fin.ext bits)

/-- The name of a tool ends at the first colon after it. -/
theorem colon_inj {name name' key key' : Str} (plain : ':' ∉ name) (plain' : ':' ∉ name')
    (same : name ++ ':' :: key = name' ++ ':' :: key') : name = name' ∧ key = key' := by
  induction name generalizing name' with
  | nil =>
    cases name' with
    | nil => exact ⟨rfl, (List.cons.inj same).2⟩
    | cons c name' => exact (plain' ((List.cons.inj same).1 ▸ List.mem_cons_self)).elim
  | cons c name ih =>
    cases name' with
    | nil => exact (plain ((List.cons.inj same).1 ▸ List.mem_cons_self)).elim
    | cons c' name' =>
      obtain ⟨head, tail⟩ := List.cons.inj same
      obtain ⟨rfl, rfl⟩ := ih (fun member => plain (List.mem_cons_of_mem _ member))
        (fun member => plain' (List.mem_cons_of_mem _ member)) tail
      exact ⟨by rw [head], rfl⟩

/-- A key of the store names the agent, the account, the tool and the caller's key. -/
theorem keyText_inj {agentId agentId' accountId accountId' : Uuid} {name name' key key' : Str}
    (plain : ':' ∉ name) (plain' : ':' ∉ name')
    (same : agentId.str ++ ":" ++ accountId.str ++ ":" ++ name ++ ":" ++ key =
      agentId'.str ++ ":" ++ accountId'.str ++ ":" ++ name' ++ ":" ++ key') :
    agentId = agentId' ∧ accountId = accountId' ∧ name = name' ∧ key = key' := by
  simp only [List.append_assoc] at same
  obtain ⟨agent, same⟩ := List.append_inj same (by rw [Uuid.length_str, Uuid.length_str])
  obtain ⟨-, same⟩ := List.append_inj same rfl
  obtain ⟨account, same⟩ := List.append_inj same (by rw [Uuid.length_str, Uuid.length_str])
  obtain ⟨-, same⟩ := List.append_inj same rfl
  obtain ⟨name, key⟩ := colon_inj plain plain' same
  exact ⟨Uuid.str_inj agent, Uuid.str_inj account, name, key⟩

/-- The name of a registered tool has no colon. -/
theorem getTool_plain {name : Str} {tool : ToolAdapter} (found : getTool name = .ok tool) :
    ':' ∉ name := by
  obtain ⟨registered, rfl⟩ := getTool_name found
  exact toolRegistry_colon tool registered

theorem fullKey_inj {req req' : InvokeRequest} {grant grant' : Grant} {tool tool' : ToolAdapter}
    {key key' : Str} (found : getTool req.toolName = .ok tool)
    (found' : getTool req'.toolName = .ok tool')
    (same : fullKey req grant key = fullKey req' grant' key') :
    grant.agentId = grant'.agentId ∧ grant.connectedAccountId = grant'.connectedAccountId ∧
      req.toolName = req'.toolName ∧ key = key' :=
  keyText_inj (getTool_plain found) (getTool_plain found') same

/-! ## The discipline of the broker -/

theorem counterKey_ne_name (counted key : Str) (window : Int) :
    RateLimiter.counterKey counted window ≠ IdempotencyStore.name key := by
  intro same
  cases congrArg List.head? same

theorem issuedKey_ne_name (tokenHash key : Str) :
    GrantCache.issuedKey tokenHash ≠ IdempotencyStore.name key := by
  intro same
  cases congrArg List.head? same

theorem Reserved.drawn {key owner : Str} {tr : Trace BrokerSig} (held : Reserved key owner tr) :
    ⟨.tokenHex, .ok owner⟩ ∈ tr := held.subset List.mem_cons_self

theorem GrantRedisUse.idemUse {tr : Trace BrokerSig} {cmd : Redis.Cmd} (use : GrantRedisUse cmd) :
    IdemUse tr cmd := by
  cases use with
  | incr | expire => exact .foreign fun key => counterKey_ne_name _ key _
  | issued | forget => exact .foreign fun key => issuedKey_ne_name _ key
  | revoked => exact .foreign fun key => (idempotencyName_ne key _).symm

/-- Every request keeps to the discipline of the store. -/
theorem requestGuard_idemUse {r : Request} {tr : Trace BrokerSig} {cmd : Redis.Cmd}
    (guard : requestGuard lib svc r tr (.redis cmd)) : IdemUse tr cmd := by
  cases r with
  | invoke req =>
    cases (show RedisUse lib svc req tr cmd from guard) with
    | get | existsKey => exact .read rfl
    | incr | expire => exact .foreign fun key => counterKey_ne_name _ key _
    | reserve found keyed stored unheld drawn => exact .reserve drawn
    | complete found keyed stored held unsettled sent own =>
      exact .complete held.drawn (IdempotencyStore.isPending_dumps _) own
    | release found keyed held unsettled noResult own => exact .release held.drawn own
  | revokeGrant grantId => exact GrantRedisUse.idemUse guard.1
  | _ => exact GrantRedisUse.idemUse guard

/-- The store of a broker. -/
def storing (lib : Lib) (svc : Services) (lossy : Bool) : Storing (broker lib svc lossy) where
  world := id
  permits := id
  after _ _ _ := rfl
  nudge_now := World.nudge_now
  nudge_nonces {n _ _} moved := by
    cases n with
    | tick elapsed =>
      rw [← Option.some.inj moved]
      rfl
    | evict keep =>
      change (if lossy then _ else none) = _ at moved
      split at moved
      · rw [← Option.some.inj moved]
        rfl
      · cases moved
  nudge_table {n _ _} moved name := by
    cases n with
    | tick elapsed =>
      rw [← Option.some.inj moved]
      exact .inl rfl
    | evict keep =>
      change (if lossy then _ else none) = _ at moved
      split at moved
      · rw [← Option.some.inj moved]
        show (if keep name then _ else _) = _ ∨ (if keep name then _ else _) = _
        cases keep name with
        | true => exact .inl rfl
        | false => exact .inr rfl
      · cases moved
  uses run e member cmd op_eq := by
    obtain ⟨t, thread, sub, guard⟩ := entry_kept run member
    rw [op_eq] at guard
    exact requestGuard_idemUse guard

/-! ## Where a stored result comes from -/

/-- The write `s` stored `value` under `key`: it is an invocation's, which has a
result of the provider. -/
structure StoredBy (lib : Lib) (svc : Services) (c : Broker) (key value : Str)
    (s : Entry BrokerSig World) (req : InvokeRequest) (grant : Grant) (result : Json) : Prop where
  member : s ∈ c.hist
  thread : ∃ t, c.threads[s.tid]? = some t ∧ t.req = .invoke req
  found : looked lib req grant ∈ s.past
  keyed : ∃ k, req.idempotencyKey = some k ∧ fullKey req grant k = key
  sent : ∃ rest, Sent req result rest s.past
  value_eq : value = Json.dumps .default (storedResult result)
  write : ∃ store, svc.idempotencyStore = some store ∧
    s.event.op = .redis (.set (IdempotencyStore.name key) value false store.windowSeconds)

/-- An operation that changes what stands under a key. -/
def Changes (key : Str) (e : Entry BrokerSig World) : Prop :=
  (e.pre.after e.past e.event).redis.table (IdempotencyStore.name key) ≠
    e.pre.redis.table (IdempotencyStore.name key)

/-- The look `g` finds the result that the write `s` stored. -/
structure Finds (lib : Lib) (svc : Services) (c : Broker) (key value : Str)
    (g s : Entry BrokerSig World) (req : InvokeRequest) (grant : Grant) (result : Json) : Prop
    extends StoredBy lib svc c key value s req grant result where
  look : g.event = ⟨.redis (.get (IdempotencyStore.name key)), .ok (some value)⟩
  last : ∃ h mid rest, c.hist = h ++ s :: (mid ++ g :: rest) ∧ ∀ e ∈ mid, ¬ Changes key e

theorem Finds.precedes {c : Broker} {key value : Str} {g s : Entry BrokerSig World}
    {req : InvokeRequest} {grant : Grant} {result : Json}
    (finds : Finds lib svc c key value g s req grant result) : Precedes c.hist s g := by
  obtain ⟨h, mid, rest, cut, -⟩ := finds.last
  exact ⟨h ++ s :: mid, rest, by simp [cut], by simp⟩

section Provenance

variable {w : World} {c : Broker} (run : (broker lib svc lossy).Reaches (.start w) c)

include run

/-- A write that completes a key stores the result of an invocation. -/
theorem completes_storedBy {s : Entry BrokerSig World} (member : s ∈ c.hist) {key value : Str}
    {ex : Int} (op_eq : s.event.op = .redis (.set (IdempotencyStore.name key) value false ex)) :
    ∃ req grant result, StoredBy lib svc c key value s req grant result := by
  obtain ⟨t, thread, sub, guard⟩ := entry_kept run member
  rw [op_eq] at guard
  cases request : t.req with
  | invoke req =>
    rw [request] at guard
    generalize named : IdempotencyStore.name key = name at guard op_eq
    cases (show RedisUse lib svc req s.past _ from guard) with
    | @complete grant k owner store result rest pre found keyed stored held unsettled sent own =>
      obtain rfl := IdempotencyStore.name_inj named
      refine ⟨req, grant, result, member, ⟨t, thread, request⟩, ?_, ⟨k, keyed, rfl⟩, ?_, rfl,
        store, stored, op_eq⟩
      · rw [own]
        exact List.mem_append_left _ found
      · refine ⟨rest ++ [sawOwn (fullKey req grant k) owner], ?_⟩
        rw [own]
        exact sent.append (by simp [Op.isToolCall])
  | revokeGrant grantId =>
    rw [request] at guard
    generalize named : IdempotencyStore.name key = name at guard
    cases guard.1 with
    | issued => exact (issuedKey_ne_name _ _ named.symm).elim
    | revoked => exact (idempotencyName_ne _ _ named).elim
  | _ =>
    rw [request] at guard
    generalize named : IdempotencyStore.name key = name at guard
    cases (show GrantRedisUse _ from guard) with
    | issued => exact (issuedKey_ne_name _ _ named.symm).elim
    | revoked => exact (idempotencyName_ne _ _ named).elim

/-- A result that a program finds was stored within the window before. -/
theorem found_storedBy (vacant : ∀ key, w.redis.table (IdempotencyStore.name key) = none)
    {g : Entry BrokerSig World} (member : g ∈ c.hist) {key value : Str}
    (saw : g.event = ⟨.redis (.get (IdempotencyStore.name key)), .ok (some value)⟩)
    (completed : IdempotencyStore.isPending value = false) :
    ∃ s req grant result, Finds lib svc c key value g s req grant result ∧
      s.pre.now ≤ g.pre.now ∧ ∀ store, svc.idempotencyStore = some store →
        g.pre.now ≤ s.pre.now + seconds store.windowSeconds := by
  obtain ⟨h, rest, cut⟩ := List.append_of_mem member
  obtain ⟨before⟩ := run.before (by simpa [Config.start] using cut)
  have hist : before.mid.hist = h := by simpa [Config.start] using before.hist_eq
  -- the entry that was found
  have permits := before.permits
  rw [saw] at permits
  have answered : some value =
      (g.pre.redis.find g.pre.now (IdempotencyStore.name key)).map (·.value) :=
    of_decide_eq_true permits
  obtain ⟨x, found, rfl⟩ := Option.map_eq_some_iff.mp answered.symm
  rw [Redis.find, Option.filter_eq_some_iff, ← before.world_eq] at found
  -- and the write that put it there
  rcases (storing lib svc lossy).standing before.reached found.1 with ⟨first, -⟩ |
    ⟨h₁, s, h₂, cut', alters, put, still⟩
  · cases (vacant key).symm.trans first
  · have whole : c.hist = h₁ ++ s :: (h₂ ++ g :: rest) := by rw [cut, ← hist, cut']; simp
    have there : s ∈ c.hist := by simp [whole]
    have altered := (storing lib svc lossy).entry_keyStep run there key
    rw [put] at altered
    generalize stands : some x = y at altered
    cases altered with
    | same => exact (alters (put.trans stands)).elim
    | reserved drawn op_eq applied free =>
      obtain rfl := Option.some.inj stands
      cases (IdempotencyStore.isPending_pendingValue _).symm.trans completed
    | @completed owner value ex pre drawn done own op_eq applied =>
      obtain rfl := Option.some.inj stands
      obtain ⟨req, grant, result, stored⟩ := completes_storedBy run there op_eq
      have finds : Finds lib svc c key value g s req grant result :=
        { stored with look := saw, last := ⟨h₁, h₂, rest, whole, still⟩ }
      refine ⟨s, req, grant, result, finds,
        (storing lib svc lossy).now_of_precedes run finds.precedes, fun store is => ?_⟩
      obtain ⟨store', is', write⟩ := stored.write
      obtain rfl := Option.some.inj (is.symm.trans is')
      cases op_eq.symm.trans write
      have alive := of_decide_eq_true found.2
      rwa [before.world_eq] at alive
    | released drawn own op_eq applied => cases stands

end Provenance

end CredBroker
