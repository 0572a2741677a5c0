import CredBroker.Demo
import CredBroker.Reliability.Ownership

/-!
# Holders of the idempotency store

Any number of programs that use one idempotency store, each through the calls
`get`, `reserve`, `complete` and `release`, on a Redis that expires keys and may
forget any of them at any time. A holder completes and releases with tokens that
its own reservations have returned.
-/

namespace CredBroker

open Python Interaction

/-! ## Calls -/

/-- The calls of the store, with an owner for `complete` and `release`. -/
inductive StoreCall
  | get (key : Str)
  | reserve (key : Str)
  | complete (key : Str) (result : Json) (owner : Str)
  | release (key owner : Str)

namespace StoreCall

abbrev Val : StoreCall → Type
  | .get _ => Json
  | .reserve _ => Option Str
  | _ => Unit

abbrev CallSig : Sig := PySig StoreCall Val

/-- What a call does. -/
def run (lib : Lib) (store : IdempotencyStore) : (e : StoreCall) → BrokerProg e.Val
  | .get key => IdempotencyStore.get lib key
  | .reserve key => IdempotencyStore.reserve key
  | .complete key result owner => store.complete key result (some owner)
  | .release key owner => IdempotencyStore.release key (some owner)

/-- The token that a call has returned. -/
def gained : (e : StoreCall) → CallSig.Ans e → List Str
  | .reserve _, .ok (some owner) => [owner]
  | _, _ => []

/-- Whether a call completes or releases with a token out of `tokens` only. -/
def Owned (tokens : List Str) : StoreCall → Prop
  | .complete _ _ owner | .release _ owner => owner ∈ tokens
  | _ => True

end StoreCall

/-! ## Holders -/

/-- What a holder does with the store, from the answers it gets. -/
abbrev Plan : Type := Prog StoreCall.CallSig Unit

/-- Whether a plan only completes and releases what it has itself reserved. -/
def Plan.Owns : List Str → Plan → Prop
  | tokens, .call e k => e.Owned tokens ∧ ∀ a, Plan.Owns (tokens ++ e.gained a) (k a)
  | _, _ => True

/-- A holder issues its calls one after another. -/
structure Holder where
  plan : Plan
  owns : plan.Owns []

/-- The Redis commands of a plan. -/
def Plan.serve (lib : Lib) (store : IdempotencyStore) : Plan → BrokerProg Unit
  | .ret a => .ret a
  | .throw x => .throw x
  | .call e k => (e.run lib store).attempt >>= fun a => Plan.serve lib store (k a)

/-- A world with the number of times that its Redis has forgotten each name. -/
structure Server where
  world : World
  losses : Str → Nat

/-- How often each name has been forgotten, once the world has moved. -/
def World.Nudge.count : World.Nudge → (Str → Nat) → Str → Nat
  | .tick _, losses => losses
  | .evict keep, losses => fun name => if keep name then losses name else losses name + 1

/-- The holders of one store. -/
def holders (lib : Lib) (store : IdempotencyStore) :
    Machine BrokerSig Holder Unit Server World.Nudge where
  entry holder := holder.plan.serve lib store
  Permits server tr e := server.world.permits tr e = true
  after server tr e := { server with world := server.world.after tr e }
  nudge n server := (World.nudge true n server.world).map fun world =>
    ⟨world, n.count server.losses⟩

/-! ## The discipline of the holders -/

/-- Every Redis command keeps to the discipline of the store. -/
abbrev storeRole : Role BrokerSig :=
  Role.guarding fun tr e => ∀ cmd, e = .redis cmd → IdemUse tr cmd

section Discipline

variable {lib : Lib} {store : IdempotencyStore} {tokens : List Str} {tr : Trace BrokerSig}

/-- The tokens that a program holds are tokens it has drawn. -/
def Drew (tokens : List Str) (tr : Trace BrokerSig) : Prop :=
  ∀ owner ∈ tokens, ⟨.tokenHex, .ok owner⟩ ∈ tr

theorem Drew.append (drew : Drew tokens tr) (ext : Trace BrokerSig) : Drew tokens (tr ++ ext) :=
  fun owner member => List.mem_append_left _ (drew owner member)

theorem storeRole_read {cmd : Redis.Cmd} (reads : cmd.isRead = true) :
    storeRole.Guard tr (.redis cmd) := by
  rintro cmd ⟨⟩
  exact .read reads

theorem StoreCall.wp_get (key : Str) (drew : Drew tokens tr) :
    wp (holders lib store) storeRole (IdempotencyStore.get lib key)
      (fun _ tr' => Drew tokens tr') tr := by
  refine ⟨storeRole_read rfl, fun a _ _ => ?_⟩
  have after := drew.append [⟨.redis (.get (IdempotencyStore.name key)), a⟩]
  rcases a with x | value
  · exact after
  · cases value with
    | none => exact after
    | some value =>
      show wp _ _ (if _ then _ else _) _ _
      split
      · exact after
      · cases Json.loads lib.floatRepr value <;> exact after

theorem StoreCall.wp_reserve (key : Str) (drew : Drew tokens tr) :
    wp (holders lib store) storeRole (IdempotencyStore.reserve key)
      (fun r tr' => Drew (tokens ++ StoreCall.gained (.reserve key) r) tr') tr := by
  refine ⟨?_, fun a _ _ => ?_⟩
  · intro cmd is
    cases is
  rcases a with x | owner
  · show Drew (tokens ++ []) _
    rw [List.append_nil]
    exact drew.append _
  · refine ⟨?_, fun a _ _ => ?_⟩
    · rintro cmd ⟨⟩
      exact .reserve rfl
    · have after : Drew (tokens ++ [owner]) (tr ++ [⟨.tokenHex, .ok owner⟩]) := by
        intro token member
        rcases List.mem_append.mp member with old | new
        · exact List.mem_append_left _ (drew token old)
        · rw [List.mem_singleton.mp new]
          exact List.mem_append_right _ (List.mem_singleton_self _)
      have kept : Drew (tokens ++ []) (tr ++ [⟨.tokenHex, .ok owner⟩]) := by
        rw [List.append_nil]
        exact drew.append _
      rcases a with x | claimed
      · exact kept.append _
      · cases claimed with
        | true => exact after.append _
        | false => exact kept.append _

theorem StoreCall.wp_complete (key : Str) (result : Json) {owner : Str} (drew : Drew tokens tr)
    (owned : owner ∈ tokens) :
    wp (holders lib store) storeRole (store.complete key result (some owner))
      (fun _ tr' => Drew tokens tr') tr := by
  refine ⟨storeRole_read rfl, fun a _ _ => ?_⟩
  have after := drew.append [⟨.redis (.get (IdempotencyStore.name key)), a⟩]
  rcases a with x | value
  · exact after
  · show wp _ _ (if value ≠ some (IdempotencyStore.pendingValue owner) then _ else _) _ _
    split
    · exact after
    · rename_i same
      obtain rfl := Decidable.not_not.mp same
      refine ⟨?_, fun a _ _ => ?_⟩
      · rintro cmd ⟨⟩
        exact .complete (drew owner owned) (IdempotencyStore.isPending_dumps result) rfl
      · cases a <;> exact after.append _

theorem StoreCall.wp_release (key : Str) {owner : Str} (drew : Drew tokens tr)
    (owned : owner ∈ tokens) :
    wp (holders lib store) storeRole (IdempotencyStore.release key (some owner))
      (fun _ tr' => Drew tokens tr') tr := by
  refine ⟨storeRole_read rfl, fun a _ _ => ?_⟩
  have after := drew.append [⟨.redis (.get (IdempotencyStore.name key)), a⟩]
  rcases a with x | value
  · exact after
  · cases value with
    | none => exact after
    | some value =>
      show wp _ _ (if _ then _ else if _ then _ else _) _ _
      split
      · exact after
      split
      · exact after
      · rename_i same
        have own : value = IdempotencyStore.pendingValue owner := by simpa using same
        subst own
        refine ⟨?_, fun a _ _ => ?_⟩
        · rintro cmd ⟨⟩
          exact .release (drew owner owned) rfl
        · cases a <;> exact after.append _

/-- A call of a holder keeps to the discipline. -/
theorem StoreCall.wp_run (e : StoreCall) (drew : Drew tokens tr) (owned : e.Owned tokens) :
    wp (holders lib store) storeRole (e.run lib store)
      (fun r tr' => Drew (tokens ++ e.gained r) tr') tr := by
  have nothing : ∀ {e : StoreCall} {r : StoreCall.CallSig.Ans e}, e.gained r = [] →
      ∀ {tr'}, Drew tokens tr' → Drew (tokens ++ e.gained r) tr' := by
    intro e r none tr' drew
    rwa [none, List.append_nil]
  cases e with
  | get key => exact wp_mono (StoreCall.wp_get key drew) fun r tr' _ drew => nothing rfl drew
  | reserve key => exact StoreCall.wp_reserve key drew
  | complete key result owner =>
    exact wp_mono (StoreCall.wp_complete key result drew owned) fun r tr' _ drew => nothing rfl drew
  | release key owner =>
    exact wp_mono (StoreCall.wp_release key drew owned) fun r tr' _ drew => nothing rfl drew

/-- So does all that a holder does. -/
theorem Plan.wp_serve (plan : Plan) (drew : Drew tokens tr) (owns : plan.Owns tokens) :
    wp (holders lib store) storeRole (plan.serve lib store) (fun _ _ => True) tr := by
  induction plan generalizing tokens tr with
  | ret a => trivial
  | throw x => trivial
  | call e k ih =>
    show wp _ _ ((e.run lib store).attempt >>= _) _ _
    rw [wp_bind, wp_attempt]
    exact wp_mono (StoreCall.wp_run e drew owns.1) fun a tr' _ drew => ih a drew (owns.2 a)

end Discipline

section Uses

variable {lib : Lib} {store : IdempotencyStore} {w : Server}
  {c : Config BrokerSig Holder Unit Server}

/-- Every command of a run keeps to the discipline. -/
theorem holders_use (run : (holders lib store).Reaches (.start w) c) {e : Entry BrokerSig Server}
    (member : e ∈ c.hist) {cmd : Redis.Cmd} (op_eq : e.event.op = .redis cmd) :
    IdemUse e.past cmd := by
  obtain ⟨t, thread, -⟩ := run.owned member
  have drew : Drew [] ([] : Trace BrokerSig) := by
    intro owner none
    cases none
  exact run.guarded member thread (t.req.plan.wp_serve drew t.req.owns) (Role.met_guarding _ _)
    cmd op_eq

theorem holders_nudge {n : World.Nudge} {server server' : Server}
    (moved : (holders lib store).nudge n server = some server') :
    World.nudge true n server.world = some server'.world ∧
      server'.losses = n.count server.losses := by
  obtain ⟨world, moved', rfl⟩ := Option.map_eq_some_iff.mp moved
  exact ⟨moved', rfl⟩

end Uses

/-- The holders keep to the discipline, and Redis counts what it forgets. -/
def Holder.counting (lib : Lib) (store : IdempotencyStore) : Counting (holders lib store) where
  world := Server.world
  permits := id
  after _ _ _ := rfl
  nudge_now moved := World.nudge_now (holders_nudge moved).1
  nudge_nonces {n _ _} moved := by
    obtain ⟨moved, -⟩ := holders_nudge moved
    cases n with
    | tick elapsed =>
      rw [← Option.some.inj moved]
    | evict keep =>
      rw [← Option.some.inj moved]
  nudge_table {n _ _} moved name := by
    obtain ⟨moved, -⟩ := holders_nudge moved
    cases n with
    | tick elapsed =>
      rw [← Option.some.inj moved]
      exact .inl rfl
    | evict keep =>
      rw [← Option.some.inj moved]
      show (if keep name then _ else _) = _ ∨ (if keep name then _ else _) = _
      cases keep name with
      | true => exact .inl rfl
      | false => exact .inr rfl
  uses run _ member _ op_eq := holders_use run member op_eq
  losses := Server.losses
  after_losses _ _ _ := rfl
  nudge_losses {n _ _} moved name := by
    obtain ⟨-, counted⟩ := holders_nudge moved
    rw [counted]
    cases n with
    | tick elapsed => exact Nat.le_refl _
    | evict keep =>
      show _ ≤ if keep name then _ else _
      cases keep name with
      | true => exact Nat.le_refl _
      | false => exact Nat.le_succ _
  nudge_lost {n _ _} moved name changed := by
    obtain ⟨moved, counted⟩ := holders_nudge moved
    cases n with
    | tick elapsed =>
      rw [← Option.some.inj moved] at changed
      exact (changed rfl).elim
    | evict keep =>
      rw [counted]
      rw [← Option.some.inj moved] at changed
      change (if keep name then _ else _) ≠ _ at changed
      show _ < if keep name then _ else _
      cases kept : keep name with
      | true =>
        rw [kept] at changed
        exact (changed rfl).elim
      | false => exact Nat.lt_succ_self _

/-! ## Ownership is safe -/

/-- What a read of a key sees. -/
def Server.live (server : Server) (key : Str) : Option Redis.Entry :=
  server.world.redis.find server.world.now (IdempotencyStore.name key)

namespace Holder

/-- Program `i` has drawn a token. -/
def Draws (hist : List (Entry BrokerSig Server)) (i : Nat) (owner : Str) : Prop :=
  ∃ e ∈ hist, e.tid = i ∧ e.event = ⟨.tokenHex, .ok owner⟩

/-- A reservation that took effect. -/
def Reserved (key owner : Str) (e : Entry BrokerSig Server) : Prop :=
  e.event.op = .redis (.set (IdempotencyStore.name key) (IdempotencyStore.pendingValue owner) true
      IdempotencyStore.reservationTtlSeconds) ∧
    AppliedRedis e.event.ans = true ∧ e.pre.live key = none

/-- Program `i` has made the last reservation of a key, with the token `owner`. -/
def LastReserver (hist : List (Entry BrokerSig Server)) (key owner : Str) (i : Nat) : Prop :=
  ∃ h r rest, hist = h ++ r :: rest ∧ r.tid = i ∧ Reserved key owner r ∧
    ∀ e ∈ rest, ∀ owner', ¬ Reserved key owner' e

/-- What the store guarantees its holders. -/
structure OwnershipSafe (lib : Lib) (store : IdempotencyStore)
    (c : Config BrokerSig Holder Unit Server) : Prop where
  /-- A token is one holder's. -/
  distinct : ∀ i j owner, Draws c.hist i owner → Draws c.hist j owner → i = j
  /-- Nobody overwrites or deletes a completed result that is still there. -/
  completed : ∀ e ∈ c.hist, ∀ key x, e.pre.live key = some x →
    IdempotencyStore.isPending x.value = false → ((holders lib store).left e).live key = some x
  /-- A marker is removed or replaced by the holder of its token. -/
  pending : ∀ e ∈ c.hist, ∀ key x, e.pre.live key = some x →
    ((holders lib store).left e).live key ≠ some x →
    ∃ owner, x.value = IdempotencyStore.pendingValue owner ∧ Draws c.hist e.tid owner ∧
      Settles key e.event.op
  /-- Whoever completes or releases has compared its token, has the marker of
  that token there still, and is the last who reserved the key. -/
  settled : ∀ h e rest, c.hist = h ++ e :: rest → ∀ key, Settles key e.event.op →
    ∃ owner, (∃ pre, e.past = pre ++ [sawOwn key owner]) ∧
      (∃ x, e.pre.live key = some x ∧ x.value = IdempotencyStore.pendingValue owner) ∧
      LastReserver h key owner e.tid
  /-- A marker is that of the last holder who reserved the key. -/
  reserver : ∀ key x, c.world.live key = some x → IdempotencyStore.isPending x.value = true →
    ∃ owner i, x.value = IdempotencyStore.pendingValue owner ∧ LastReserver c.hist key owner i ∧
      Draws c.hist i owner

theorem live_eq_some {server : Server} {key : Str} {x : Redis.Entry} :
    server.live key = some x ↔
      server.world.redis.table (IdempotencyStore.name key) = some x ∧
        x.alive server.world.now = true :=
  Option.filter_eq_some_iff

section Runs

variable {lib : Lib} {store : IdempotencyStore} {w : Server}
  {c : Config BrokerSig Holder Unit Server} {key owner : Str} {x : Redis.Entry}

/-- A step that alters no entry of a key leaves what lives there. -/
theorem live_left {e : Entry BrokerSig Server} (same : ¬ (Holder.counting lib store).Alters key e) :
    ((holders lib store).left e).live key = e.pre.live key := by
  have table : (Holder.counting lib store).at ((holders lib store).left e) key =
      (Holder.counting lib store).at e.pre key := Decidable.not_not.mp same
  have now : ((holders lib store).left e).world.now = e.pre.world.now :=
    (e.pre.world.after_framed e.past e.event).now
  show ((Holder.counting lib store).at ((holders lib store).left e) key).filter _ = _
  rw [table, now]
  rfl

/-- A reservation replaces what it finds. -/
theorem Reserved.alters {e : Entry BrokerSig Server} (reserved : Reserved key owner e) :
    (Holder.counting lib store).Alters key e :=
  Storing.Reserves.alters (Holder.counting lib store).toStoring reserved

variable (run : (holders lib store).Reaches (.start w) c)
  (fresh : ∀ key x, w.world.redis.table (IdempotencyStore.name key) = some x →
    IdempotencyStore.isPending x.value = false)

include run

theorem draws_of_past {e : Entry BrokerSig Server} (member : e ∈ c.hist)
    (drawn : ⟨.tokenHex, .ok owner⟩ ∈ e.past) : Draws c.hist e.tid owner := by
  obtain ⟨pre, v, -, there⟩ := entry_of_past run member drawn
  exact ⟨_, there, rfl, rfl⟩

include fresh

/-- A marker that stands is that of the last reserver. -/
theorem last_reserver
    (there : c.world.world.redis.table (IdempotencyStore.name key) = some x)
    (pending : IdempotencyStore.isPending x.value = true) :
    ∃ owner i, x.value = IdempotencyStore.pendingValue owner ∧ LastReserver c.hist key owner i ∧
      Draws c.hist i owner := by
  obtain ⟨owner, h, r, rest, cut, reserves, ⟨pre, drawn⟩, put, still⟩ :=
    (Holder.counting lib store).last_reserver run (fresh key) there pending
  have member : r ∈ c.hist := by simp [cut]
  refine ⟨owner, r.tid, ?_, ⟨h, r, rest, cut, rfl, reserves, fun e later owner' reserved => ?_⟩,
    draws_of_past run member (by simp [drawn])⟩
  · rw [← Option.some.inj ((Storing.Reserves.put _ reserves).symm.trans put)]
  · exact still e later reserved.alters

end Runs

end Holder

/-- On every run of any holders, on which no marker expires and none is
forgotten between a holder's comparison and its write, ownership is safe. -/
theorem ownership_safe {lib : Lib} {store : IdempotencyStore} {w : Server}
    {c : Config BrokerSig Holder Unit Server} (run : (holders lib store).Reaches (.start w) c)
    (fresh : ∀ key x, w.world.redis.table (IdempotencyStore.name key) = some x →
      IdempotencyStore.isPending x.value = false)
    (timely : (Holder.counting lib store).Timely c) : Holder.OwnershipSafe lib store c := by
  have distinct : ∀ i j owner, Holder.Draws c.hist i owner → Holder.Draws c.hist j owner →
      i = j := by
    rintro i j owner ⟨e, member, rfl, draws⟩ ⟨e', member', rfl, draws'⟩
    rw [(Holder.counting lib store).drawn_once run member member' draws draws']
  refine ⟨distinct, ?_, ?_, ?_, ?_⟩
  · intro e member key x live done
    have found := Holder.live_eq_some.mp live
    refine (Holder.live_left fun alters => ?_).trans live
    obtain ⟨-, owner, -, value⟩ :=
      (Holder.counting lib store).altered_by_owner run timely member found.1 found.2 alters
    rw [value, IdempotencyStore.isPending_pendingValue] at done
    cases done
  · intro e member key x live changed
    have found := Holder.live_eq_some.mp live
    have alters : (Holder.counting lib store).Alters key e := fun same =>
      changed ((Holder.live_left (not_not_intro same)).trans live)
    obtain ⟨settles, owner, drawn, value⟩ :=
      (Holder.counting lib store).altered_by_owner run timely member found.1 found.2 alters
    exact ⟨owner, value, Holder.draws_of_past run member drawn, settles⟩
  · intro h e rest cut key settles
    have member : e ∈ c.hist := by simp [cut]
    obtain ⟨owner, pre, x, drawn, own, at_, value, alive⟩ :=
      (Holder.counting lib store).settled_own run timely member settles
    obtain ⟨before⟩ := run.before (by simpa [Config.start] using cut)
    have hist : before.mid.hist = h := by simpa [Config.start] using before.hist_eq
    -- what the writer finds there was put by the last reservation
    obtain ⟨owner', i, value', last, draws⟩ := Holder.last_reserver before.reached fresh
      (by rw [before.world_eq]; exact at_)
      (by rw [value]; exact IdempotencyStore.isPending_pendingValue owner)
    obtain rfl := IdempotencyStore.pendingValue_inj (value'.symm.trans value)
    have same : i = e.tid := by
      obtain ⟨d, there, tid, draw⟩ := draws
      refine distinct i e.tid owner' ⟨d, ?_, tid, draw⟩
        (Holder.draws_of_past run member (own ▸ List.mem_append_left _ drawn))
      exact (Machine.Reaches.hist_mono before.toEnd).subset there
    rw [hist, same] at last
    exact ⟨owner', ⟨pre, own⟩, ⟨x, Holder.live_eq_some.mpr ⟨at_, alive⟩, value⟩, last⟩
  · intro key x live pending
    exact Holder.last_reserver run fresh (Holder.live_eq_some.mp live).1 pending

/-! ## Two holders of one key -/

/-- Nothing is forgotten, and no time passes, between a look at a key and the next
step of the same program. -/
def Holder.prompt (hist : List (Entry BrokerSig Server)) : Bool :=
  hist.all fun g => hist.all fun e =>
    !(decide (e.tid = g.tid) && decide (e.past.length = g.past.length + 1)) ||
      match g.event.op with
      | .redis (.get name) => decide (g.pre.world.now = e.pre.world.now) &&
          decide (g.pre.losses name = e.pre.losses name)
      | _ => true

theorem Holder.timely_of_prompt {lib : Lib} {store : IdempotencyStore} {w : Server}
    {c : Config BrokerSig Holder Unit Server} (run : (holders lib store).Reaches (.start w) c)
    (prompt : Holder.prompt c.hist = true) : (Holder.counting lib store).Timely c := by
  intro g there e member key owner saw settles tid past x at_ faded
  have calm := List.all_eq_true.mp (List.all_eq_true.mp prompt g there) e member
  have next : e.past.length = g.past.length + 1 := by simp [past]
  have op_eq : g.event.op = .redis (.get (IdempotencyStore.name key)) := congrArg Event.op saw
  rw [op_eq, tid, next] at calm
  simp only [decide_true, Bool.and_self, Bool.not_true, Bool.false_or, Bool.and_eq_true,
    decide_eq_true_eq] at calm
  obtain ⟨y, at', -, alive⟩ := (Holder.counting lib store).sawOwn_found run there saw
  obtain rfl := Option.some.inj (at_.symm.trans at')
  rcases faded with gone | lost
  · change x.alive e.pre.world.now = false at gone
    change x.alive g.pre.world.now = true at alive
    rw [← calm.1, alive] at gone
    cases gone
  · exact absurd calm.2 (Nat.ne_of_lt lost)

instance (lib : Lib) (store : IdempotencyStore) (server : Server) (tr : Trace BrokerSig)
    (e : Event BrokerSig) : Decidable ((holders lib store).Permits server tr e) :=
  inferInstanceAs (Decidable (server.world.permits tr e = true))

namespace Demo

/-- A holder that reserves a key and completes it with an empty result. -/
def holder (key : Str) : Holder where
  plan := .call (.reserve key) fun
    | .ok (some owner) => .call (.complete key (.obj []) owner) fun _ => .ret ()
    | _ => .ret ()
  owns := by
    refine ⟨trivial, fun a => ?_⟩
    rcases a with x | _ | owner
    · trivial
    · trivial
    · exact ⟨List.mem_singleton_self _, fun _ => trivial⟩

/-- The next operation of program `i` goes well. -/
def steps (i n : Nat) : List (Act BrokerSig Holder Server World.Nudge) :=
  List.replicate n (.answer i fun server tr e => healthy server.world tr e)

end Demo

/-- The first holder's marker is flushed, a second holder reserves the key, and
then both complete it: only the second one's result is stored. -/
theorem ownership_safe_demo : ∃ c : Config BrokerSig Holder Unit Server,
    (holders Demo.lib Demo.store).Reaches (.start ⟨World.fresh Demo.midnight, fun _ => 0⟩) c ∧
      c.hist.map (·.tid) = [0, 0, 1, 1, 0, 1, 1] ∧
      (c.world.live "key").map (·.value) = some ("\x7b\x7d" : Str) ∧
      Holder.OwnershipSafe Demo.lib Demo.store c := by
  have computed : (Config.play (holders Demo.lib Demo.store)
      (.start ⟨World.fresh Demo.midnight, fun _ => 0⟩)
      (.spawn (Demo.holder "key") :: Demo.steps 0 2 ++ .nudge (.evict fun _ => false) ::
        .spawn (Demo.holder "key") :: Demo.steps 1 2 ++ Demo.steps 0 1 ++ Demo.steps 1 2)).any
      (fun c => Holder.prompt c.hist && decide (c.hist.map (·.tid) = [0, 0, 1, 1, 0, 1, 1]) &&
        decide ((c.world.live "key").map (·.value) = some ("\x7b\x7d" : Str))) = true := by
    decide +kernel
  obtain ⟨c, played, holds⟩ := (Option.any_eq_true _ _).mp computed
  rw [Bool.and_eq_true, Bool.and_eq_true, decide_eq_true_eq, decide_eq_true_eq] at holds
  obtain ⟨⟨prompt, tids⟩, stored⟩ := holds
  have run := Config.play_reaches played
  refine ⟨c, run, tids, stored, ownership_safe run ?_ (Holder.timely_of_prompt run prompt)⟩
  intro key x there
  cases there

end CredBroker
