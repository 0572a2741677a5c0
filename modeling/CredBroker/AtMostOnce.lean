import CredBroker.Invocation.Turned
import CredBroker.Reservation

/-!
# At most one success for a key

As long as every holder of a key is through with it before its marker expires, the
key is never free between the reservation of an invocation that gets a result and the
end of the window behind that result. So no other invocation gets a result in that
time, and whoever comes to the key is answered by a replay or a conflict.
-/

namespace CredBroker

open Python Interaction

variable {lib : Lib} {svc : Services} {key owner : Str}

/-! ## Holders -/

/-- The store of a broker whose Redis keeps what it holds until it expires. -/
def lossless (lib : Lib) (svc : Services) : Counting (broker lib svc false) where
  toStoring := storing lib svc false
  losses _ _ := 0
  after_losses _ _ _ := rfl
  nudge_losses _ _ := Nat.le_refl 0
  nudge_lost {n _ _} moved name changed := by
    cases n with
    | tick elapsed =>
      rw [← Option.some.inj moved] at changed
      exact (changed rfl).elim
    | evict keep => cases moved

/-- A provider call that returned a result. -/
def HasResult (e : Event BrokerSig) : Prop :=
  ∃ tool accessToken arguments result, e = ⟨.toolCall tool accessToken arguments, .ok result⟩

/-- A completion of the key that took effect. -/
def Completes (key : Str) (e : Event BrokerSig) : Prop :=
  (∃ value ex, e.op = .redis (.set (IdempotencyStore.name key) value false ex)) ∧
    AppliedRedis e.ans = true

/-- The invocation that made the reservation `r` settles its key before its marker
expires, and has completed it by then if the provider returned a result. -/
structure InTime (c : Broker) (key : Str) (r : Entry BrokerSig World) : Prop where
  settles : ∀ s ∈ c.hist, s.tid = r.tid → Settles key s.event.op →
    s.pre.now ≤ r.pre.now + seconds IdempotencyStore.reservationTtlSeconds
  completes : ∀ e ∈ c.hist, e.tid = r.tid → HasResult e.event →
    c.world.now ≤ r.pre.now + seconds IdempotencyStore.reservationTtlSeconds ∨
      ∃ s ∈ c.hist, s.tid = r.tid ∧ Completes key s.event

/-- Every holder of a key is in time. -/
def Punctual (lib : Lib) (svc : Services) (c : Broker) : Prop :=
  ∀ r ∈ c.hist, ∀ key owner, (lossless lib svc).Reserves key owner r → InTime c key r

section Runs

variable {w : World} {c : Broker} (run : (broker lib svc false).Reaches (.start w) c)
  (vacant : ∀ key, w.redis.table (IdempotencyStore.name key) = none)
  (punctual : Punctual lib svc c)

include run

include vacant punctual in
/-- Then no marker expires between a program's look at it and the write that follows. -/
theorem Punctual.timely : (lossless lib svc).Timely c := by
  intro g there e there' key owner saw settles tid past x at_ faded
  obtain ⟨owner', pre, drawn, own⟩ := (storing lib svc false).settles_own run there' settles
  obtain ⟨rfl, event⟩ := List.append_inj' (past.symm.trans own) rfl
  have same : IdempotencyStore.pendingValue owner = IdempotencyStore.pendingValue owner' := by
    have event := saw.symm.trans (List.cons.inj event).1
    simpa using event
  obtain rfl := IdempotencyStore.pendingValue_inj same
  obtain ⟨x', at', value, -⟩ := (storing lib svc false).sawOwn_found run there saw
  obtain rfl := Option.some.inj (at_.symm.trans at')
  -- the reservation that put the marker there
  obtain ⟨hist, ⟨before⟩⟩ := run.before_entry there
  rw [← before.world_eq] at at_
  have pending : IdempotencyStore.isPending x.value = true :=
    value ▸ IdempotencyStore.isPending_pendingValue owner
  obtain ⟨owner', h, r, rest, cut, reserves, ⟨pre, drawn'⟩, put, -⟩ :=
    (storing lib svc false).last_reserver before.reached
      (fun x first => by cases (vacant key).symm.trans first) at_ pending
  obtain rfl := Option.some.inj ((reserves.put _).symm.trans put)
  obtain rfl := IdempotencyStore.pendingValue_inj value
  have member : r ∈ c.hist := (Machine.Reaches.hist_mono before.toEnd).subset (by simp [cut])
  have mine : e.tid = r.tid := (storing lib svc false).one_owner run there' member
    (past ▸ List.mem_append_left _ drawn) (drawn' ▸ List.mem_append_right _ List.mem_cons_self)
  have inTime := (punctual r member key _ reserves).settles e there' mine settles
  rcases faded with gone | lost
  · exact Bool.eq_false_iff.mp gone (decide_eq_true inTime)
  · exact Nat.lt_irrefl 0 lost

/-! ## What an invocation does to its key behind its result -/

section Behind

variable {req : InvokeRequest} {grant : Grant} {tool : ToolAdapter} {result : Json}
  {e s : Entry BrokerSig World} (returned : Returned lib c e req grant tool result)
  (member : s ∈ c.hist) (mine : s.tid = e.tid) (settles : Settles key s.event.op)

include returned member mine settles

/-- An invocation settles its key after the provider has answered it. -/
theorem settled_after : Precedes c.hist e s := by
  obtain ⟨accessToken, call⟩ := returned.call
  rcases Precedes.total returned.member member with rfl | behind | before
  · rw [call] at settles
    rcases settles with ⟨value, ex, same⟩ | same
    · cases same
    · cases same
  · exact behind
  · obtain ⟨t, req', grant', tool', accessToken', -, -, -, -, unsettled, -⟩ :=
      entry_mediated run returned.member (by rw [call]; rfl)
    have earlier := (run.past_of_precedes before mine).subset
      (List.mem_append_right _ List.mem_cons_self)
    have settling := unsettled _ earlier
    rcases settles with ⟨value, ex, same⟩ | same
    · rw [same] at settling
      cases settling
    · rw [same] at settling
      cases settling

/-- Behind a result it completes its key, and does not release it. -/
theorem settled_completes :
    ∃ value ex, s.event.op = .redis (.set (IdempotencyStore.name key) value false ex) := by
  rcases settles with set | delete
  · exact set
  · obtain ⟨accessToken, call⟩ := returned.call
    have earlier := (run.past_of_precedes (settled_after run returned member mine (.inr delete))
      mine.symm).subset (List.mem_append_right _ List.mem_cons_self)
    obtain ⟨t, thread, request⟩ := returned.thread
    obtain ⟨u, thread', sub, guard⟩ := entry_kept run member
    rw [mine] at thread'
    obtain rfl := Option.some.inj (thread.symm.trans thread')
    rw [request, delete] at guard
    generalize named : IdempotencyStore.name key = name at guard
    cases (show RedisUse lib svc req _ _ from guard) with
    | release found keyed held unsettled noResult own =>
      rw [own, call] at earlier
      rcases List.mem_append.mp earlier with before | here
      · exact (noResult _ _ _ _ before).elim
      · cases List.mem_singleton.mp here

end Behind

/-- A completion puts a result there for the window. -/
theorem Completes.put {s : Entry BrokerSig World} (completes : Completes key s.event)
    (member : s ∈ c.hist) : ∃ value store, svc.idempotencyStore = some store ∧
      IdempotencyStore.isPending value = false ∧
      (lossless lib svc).at ((broker lib svc false).left s) key =
        some ⟨value, some (s.pre.now + seconds store.windowSeconds)⟩ := by
  obtain ⟨⟨value, ex, op_eq⟩, applied⟩ := completes
  obtain ⟨req, grant, result, stored⟩ := completes_storedBy run member op_eq
  obtain ⟨store, is, write⟩ := stored.write
  have put := (lossless lib svc).at_left key write applied
  have pos := store.window_pos
  rw [Redis.after_set_table, if_neg (by simp; omega)] at put
  exact ⟨value, store, is, stored.value_eq ▸ IdempotencyStore.isPending_dumps _, put⟩

/-! ## The key is never free -/

/-- What stands under the key of an invocation that gets a result: its marker, then
its result until after the deadline. -/
inductive Occupied (lib : Lib) (svc : Services) (b : Broker) (key owner : Str)
    (r : Entry BrokerSig World) (deadline : Time) : Prop
  | pending (there : (lossless lib svc).at b.world key =
        some ⟨IdempotencyStore.pendingValue owner,
          some (r.pre.now + seconds IdempotencyStore.reservationTtlSeconds)⟩)
      (open_ : ∀ s ∈ b.hist, s.tid = r.tid → ¬ Completes key s.event)
  | completed {value : Str} {expires : Time}
      (there : (lossless lib svc).at b.world key = some ⟨value, some expires⟩)
      (complete : IdempotencyStore.isPending value = false) (lasts : deadline ≤ expires)
  | late (late : deadline < b.world.now)

section Holder

variable {req : InvokeRequest} {grant : Grant} {tool : ToolAdapter} {result : Json}
  {e r : Entry BrokerSig World} (returned : Returned lib c e req grant tool result)
  (member : r ∈ c.hist) (mine : r.tid = e.tid) (event : r.event = granted key owner)

include returned member mine event

/-- An invocation settles what it has reserved, not the other way round. -/
theorem reserved_first {s : Entry BrokerSig World} (there : s ∈ c.hist) (tid : s.tid = r.tid)
    (settles : Settles key s.event.op) : Precedes c.hist r s := by
  rcases Precedes.total member there with rfl | behind | before
  · rw [event] at settles
    rcases settles with ⟨value, ex, same⟩ | same
    · cases same
    · cases same
  · exact behind
  · obtain ⟨value, ex, set⟩ := settled_completes run returned there (tid.trans mine) settles
    obtain ⟨t, thread, request⟩ := returned.thread
    -- what was reserved before the completion
    obtain ⟨u, thread', -, guard⟩ := entry_kept run there
    rw [tid, mine] at thread'
    obtain rfl := Option.some.inj (thread.symm.trans thread')
    rw [request, set] at guard
    have held : ∃ ev ∈ s.past, ev.op.isReserve = true := by
      generalize named : IdempotencyStore.name key = name at guard
      cases (show RedisUse lib svc req _ _ from guard) with
      | complete found keyed stored held unsettled sent own =>
        have drawn := held.subset (List.mem_cons_of_mem _ List.mem_cons_self)
        exact ⟨_, own ▸ List.mem_append_left _ drawn, rfl⟩
    obtain ⟨ev, earlier, reserve⟩ := held
    have inside : ev ∈ r.past := (run.past_of_precedes before tid).subset
      (List.mem_append_left _ earlier)
    -- and nothing before the reservation
    obtain ⟨u, thread', -, guard⟩ := entry_kept run member
    rw [mine] at thread'
    obtain rfl := Option.some.inj (thread.symm.trans thread')
    rw [request, event] at guard
    change RedisUse lib svc req _ (.set (IdempotencyStore.name key)
      (IdempotencyStore.pendingValue owner) true IdempotencyStore.reservationTtlSeconds) at guard
    generalize IdempotencyStore.name key = name at guard
    generalize IdempotencyStore.pendingValue owner = value at guard
    cases guard with
    | reserve found keyed stored unheld drawn =>
      rw [drawn] at inside
      rcases List.mem_append.mp inside with old | new
      · rw [unheld ev old] at reserve
        cases reserve
      · rw [List.mem_singleton.mp new] at reserve
        cases reserve

include punctual

/-- Its marker is alive as long as the key is not completed. -/
theorem marker_alive {a : Entry BrokerSig World} {h rest : List (Entry BrokerSig World)}
    (cut : c.hist = h ++ a :: rest) (open_ : ∀ s ∈ h, s.tid = r.tid → ¬ Completes key s.event) :
    a.pre.now ≤ r.pre.now + seconds IdempotencyStore.reservationTtlSeconds := by
  have there : a ∈ c.hist := by simp [cut]
  have reserves := reserves_of_granted run member event
  have inTime := punctual r member key owner reserves
  obtain ⟨accessToken, call⟩ := returned.call
  rcases inTime.completes e returned.member mine.symm ⟨_, _, _, _, call⟩ with
    early | ⟨s, stored, tid, completes⟩
  · exact Int.le_trans (entry_now run there) early
  · have before : s = a ∨ Precedes c.hist a s := by
      rcases Precedes.total stored there with same | earlier | later
      · exact .inl same
      · exact (open_ s ((precedes_iff run.hist_nodup cut).mp earlier) tid completes).elim
      · exact .inr later
    obtain ⟨⟨value, ex, set⟩, -⟩ := completes
    have bound := inTime.settles s stored tid (.inl ⟨value, ex, set⟩)
    rcases before with rfl | before
    · exact bound
    · exact Int.le_trans ((lossless lib svc).now_of_precedes run before) bound

variable {store : IdempotencyStore} (stored : svc.idempotencyStore = some store)

omit punctual member event in
include stored in
/-- A completion that the invocation makes lasts for the window behind its result. -/
theorem occupied_of_completes {b : Broker} {s : Entry BrokerSig World} (there : s ∈ c.hist)
    (tid : s.tid = r.tid) (completes : Completes key s.event)
    (left : b.world = (broker lib svc false).left s) :
    Occupied lib svc b key owner r (e.pre.now + seconds store.windowSeconds) := by
  obtain ⟨value, store', is, complete, put⟩ := completes.put run there
  obtain rfl := Option.some.inj (stored.symm.trans is)
  rw [← left] at put
  obtain ⟨⟨value', ex, set⟩, -⟩ := completes
  have behind := settled_after run returned there (tid.trans mine) (.inl ⟨value', ex, set⟩)
  exact .completed put complete
    (Int.add_le_add_right ((lossless lib svc).now_of_precedes run behind) _)

include stored vacant in
/-- One step keeps the key occupied. -/
theorem occupied_step {b b' : Broker}
    (step : (broker lib svc false).Step b b') (rest : (broker lib svc false).Reaches b' c)
    (occupied : Occupied lib svc b key owner r (e.pre.now + seconds store.windowSeconds)) :
    Occupied lib svc b' key owner r (e.pre.now + seconds store.windowSeconds) := by
  cases step with
  | spawn q =>
    cases occupied with
    | pending there open_ => exact .pending there open_
    | completed there complete lasts => exact .completed there complete lasts
    | late late => exact .late late
  | @nudge n w' moved =>
    cases n with
    | evict keep => cases moved
    | tick elapsed =>
      have later := (lossless lib svc).nudge_now moved
      obtain rfl := Option.some.inj moved
      cases occupied with
      | pending there open_ => exact .pending there open_
      | completed there complete lasts => exact .completed there complete lasts
      | late late => exact .late (Int.lt_of_lt_of_le late later)
  | @answer i t o k a thread pending permits =>
    obtain ⟨more, cut⟩ := Machine.Reaches.hist_mono rest
    have cut : c.hist = b.hist ++ ⟨i, b.world, t.trace, ⟨o, a⟩⟩ :: more := by
      rw [← cut]
      exact List.append_assoc ..
    have there' : (⟨i, b.world, t.trace, ⟨o, a⟩⟩ : Entry BrokerSig World) ∈ c.hist := by simp [cut]
    have now_eq : ((broker lib svc false).after b.world t.trace ⟨o, a⟩).now = b.world.now :=
      (b.world.after_framed t.trace ⟨o, a⟩).now
    have timely := Punctual.timely run vacant punctual
    cases occupied with
    | late late => exact .late (show _ < World.now _ from now_eq ▸ late)
    | pending there open_ =>
      by_cases completes : i = r.tid ∧ Completes key ⟨o, a⟩
      · exact occupied_of_completes run returned mine stored there' completes.1
          completes.2 rfl
      · refine .pending ?_ (List.forall_mem_append.mpr ⟨open_, ?_⟩)
        · -- who changes a live marker is its owner
          by_contra changed
          have alive := marker_alive run punctual returned member mine event cut open_
          obtain ⟨settles, owner', drawn, value⟩ :=
            (lossless lib svc).altered_by_owner run timely there'
            there (decide_eq_true alive) fun same => changed (same.trans there)
          obtain rfl := IdempotencyStore.pendingValue_inj value
          obtain ⟨pre, drawn'⟩ := granted_drawn run member event
          have own : i = r.tid := (storing lib svc false).one_owner run there' member drawn
            (drawn' ▸ List.mem_append_right _ List.mem_cons_self)
          obtain ⟨value, ex, set⟩ := settled_completes run returned there' (own.trans mine) settles
          refine completes ⟨own, ⟨value, ex, set⟩, ?_⟩
          have altered := (storing lib svc false).entry_keyStep run there' key
          generalize stands :
            (storing lib svc false).at ((broker lib svc false).left _) key = y at altered
          cases altered with
          | same => exact (changed (stands.trans there)).elim
          | reserved _ op_eq => cases set.symm.trans op_eq
          | completed _ _ _ _ applied => exact applied
          | released _ _ op_eq => cases set.symm.trans op_eq
        · intro s here tid completes'
          obtain rfl := List.mem_singleton.mp here
          exact completes ⟨tid, completes'⟩
    | @completed value expires there complete lasts =>
      by_cases alive : b.world.now ≤ expires
      · refine .completed ?_ complete lasts
        by_contra changed
        obtain ⟨-, owner', -, own⟩ := (lossless lib svc).altered_by_owner run timely there' there
          (decide_eq_true alive) fun same => changed (same.trans there)
        have own : value = IdempotencyStore.pendingValue owner' := own
        rw [own, IdempotencyStore.isPending_pendingValue] at complete
        cases complete
      · refine .late ?_
        have late := Int.lt_of_le_of_lt lasts (Int.not_le.mp alive)
        exact show _ < World.now _ from now_eq ▸ late

include stored vacant in
/-- From the reservation on the key is occupied. -/
theorem run_occupied {b : Broker} (reach : (broker lib svc false).Reaches (.start w) b)
    (rest : (broker lib svc false).Reaches b c) (there : r ∈ b.hist) :
    Occupied lib svc b key owner r (e.pre.now + seconds store.windowSeconds) := by
  induction reach with
  | refl => cases there
  | @tail b b' reach step ih =>
    by_cases before : r ∈ b.hist
    · exact occupied_step run vacant punctual returned member mine event stored step rest
        (ih (.head step rest) before)
    · cases step with
      | spawn q => exact (before there).elim
      | nudge n moved => exact (before there).elim
      | @answer i t o k a thread pending permits =>
        rcases List.mem_append.mp there with old | new
        · exact (before old).elim
        · obtain rfl := List.mem_singleton.mp new
          refine .pending ((reserves_of_granted run member event).put _)
            (List.forall_mem_append.mpr ⟨fun s here tid completes => ?_,
              fun s here tid completes => ?_⟩)
          · obtain ⟨more, cut⟩ := Machine.Reaches.hist_mono rest
            have cut : c.hist = b.hist ++ ⟨i, b.world, t.trace, ⟨o, a⟩⟩ :: more := by
              rw [← cut]
              exact List.append_assoc ..
            have earlier : Precedes c.hist s ⟨i, b.world, t.trace, ⟨o, a⟩⟩ := ⟨_, _, cut, here⟩
            have later := reserved_first run returned member mine event earlier.mem_left tid
              (.inl completes.1)
            exact Precedes.irrefl run.hist_nodup (earlier.trans run.hist_nodup later)
          · obtain rfl := List.mem_singleton.mp here
            obtain ⟨⟨value, ex, set⟩, -⟩ := completes
            rw [event] at set
            cases set

include stored vacant in
/-- So nobody finds the key free before the deadline. -/
theorem found_occupied {g : Entry BrokerSig World} (later : Precedes c.hist r g)
    (early : g.pre.now ≤ e.pre.now + seconds store.windowSeconds) :
    ∃ value, g.pre.stored key = some value := by
  obtain ⟨h, rest, cut, there⟩ := later
  obtain ⟨before⟩ := run.before (by simpa [Config.start] using cut)
  have hist : before.mid.hist = h := by simpa [Config.start] using before.hist_eq
  have occupied := run_occupied run vacant punctual returned member mine event stored before.reached
    before.toEnd (by rwa [hist])
  cases occupied with
  | pending there open_ =>
    rw [before.world_eq] at there
    rw [hist] at open_
    have alive := marker_alive run punctual returned member mine event cut open_
    exact ⟨_, World.stored_eq_some.mpr ⟨_, there, decide_eq_true alive, rfl⟩⟩
  | completed there complete lasts =>
    rw [before.world_eq] at there
    exact ⟨_, World.stored_eq_some.mpr ⟨_, there, decide_eq_true (Int.le_trans early lasts), rfl⟩⟩
  | late late =>
    rw [before.world_eq] at late
    exact (Int.not_le.mpr late early).elim

end Holder

/-! ## The guarantee -/

/-- No Redis command fails: what is awaited is answered, or cancelled. -/
def RedisAvailable (c : Broker) : Prop :=
  ∀ e ∈ c.hist, ∀ cmd, e.event.op = .redis cmd → ∀ x, e.event.ans = .error x →
    ∃ applied, x = .cancelledError applied

/-- An invocation comes to its key at step 6: it looks there for the first time, or
tries to reserve it. -/
structure Comes (lib : Lib) (c : Broker) (g : Entry BrokerSig World) (req : InvokeRequest)
    (grant : Grant) : Prop where
  member : g ∈ c.hist
  thread : ∃ t, c.threads[g.tid]? = some t ∧ t.req = .invoke req
  found : looked lib req grant ∈ g.past
  asks : ∃ key, req.idempotencyKey = some key ∧
    (g.event.op = .redis (.get (IdempotencyStore.name (fullKey req grant key))) ∧ Idle g.past ∨
      ∃ value ex, g.event.op =
        .redis (.set (IdempotencyStore.name (fullKey req grant key)) value true ex))

/-- Behind a result there is no other one for its key within the window, and the others
that come to the key once it is reserved are answered by a replay or a conflict. -/
structure AtMostOnce (lib : Lib) (store : IdempotencyStore) (c : Broker) : Prop where
  once : ∀ e e' req req' grant grant' tool tool' result result',
    Returned lib c e req grant tool result → Returned lib c e' req' grant' tool' result' →
      SameKey req req' grant grant' → req.idempotencyKey.isSome = true → Precedes c.hist e e' →
        e.pre.now + seconds store.windowSeconds < e'.pre.now
  away : ∀ e r g req req' grant grant' tool result key owner,
    Returned lib c e req grant tool result → req.idempotencyKey = some key → r ∈ c.hist →
      r.tid = e.tid → r.event = granted (fullKey req grant key) owner →
        Comes lib c g req' grant' → SameKey req req' grant grant' → Precedes c.hist r g →
          g.tid ≠ e.tid → g.pre.now ≤ e.pre.now + seconds store.windowSeconds →
            ∀ t o, c.threads[g.tid]? = some t → t.prog = .ret (.outcome o) → Away o

omit run in
theorem SameKey.fullKey_eq {req req' : InvokeRequest} {grant grant' : Grant}
    (same : SameKey req req' grant grant') (key : Str) :
    fullKey req' grant' key = fullKey req grant key := by
  unfold fullKey
  rw [same.agent, same.account, same.toolName]

section Guarantee

variable {store : IdempotencyStore} (stored : svc.idempotencyStore = some store)

include stored in
/-- A result comes under the reservation of its invocation. -/
theorem Returned.reserved {e : Entry BrokerSig World} {req : InvokeRequest} {grant : Grant}
    {tool : ToolAdapter} {result : Json} (returned : Returned lib c e req grant tool result)
    {key : Str} (keyed : req.idempotencyKey = some key) :
    ∃ r owner, r ∈ c.hist ∧ r.tid = e.tid ∧ r.event = granted (fullKey req grant key) owner ∧
      Precedes c.hist r e := by
  obtain ⟨accessToken, call⟩ := returned.call
  obtain ⟨t, req', grant', tool', accessToken', thread, sub, request, -, -, mediated⟩ :=
    entry_mediated run returned.member (by rw [call]; rfl)
  obtain ⟨u, thread', request'⟩ := returned.thread
  obtain rfl := Option.some.inj (thread.symm.trans thread')
  obtain rfl : req = req' := by
    rw [request] at request'
    exact (Request.invoke.inj request').symm
  have past : e.past <+: t.trace := (List.prefix_append _ _).trans sub
  obtain ⟨now, inside, -, -⟩ := mediated.admitted.live
  obtain rfl : grant' = grant := looked_unique run thread request
    (past.subset (inside.subset List.mem_cons_self)) (past.subset returned.found)
  obtain ⟨owner, held⟩ := mediated.admitted.reserved key store keyed stored
  have earlier : granted (fullKey req grant' key) owner ∈ e.past :=
    held.subset (List.mem_cons_of_mem _ List.mem_cons_self)
  obtain ⟨pre, v, before, there⟩ := entry_of_past run returned.member earlier
  exact ⟨_, owner, there, rfl, rfl, run.precedes_of_past there returned.member rfl before⟩

/-- An invocation gets one result. -/
theorem Returned.single {e e' : Entry BrokerSig World} {req req' : InvokeRequest}
    {grant grant' : Grant} {tool tool' : ToolAdapter} {result result' : Json}
    (returned : Returned lib c e req grant tool result)
    (returned' : Returned lib c e' req' grant' tool' result') (order : Precedes c.hist e e') :
    e.tid ≠ e'.tid := by
  intro tid
  obtain ⟨accessToken, call⟩ := returned.call
  obtain ⟨accessToken', call'⟩ := returned'.call
  obtain ⟨t, thread, sub, guard⟩ := entry_kept run returned'.member
  rw [call'] at guard
  obtain ⟨u, thread', request⟩ := returned'.thread
  obtain rfl := Option.some.inj (thread.symm.trans thread')
  rw [request] at guard
  have earlier := (run.past_of_precedes order tid).subset
    (List.mem_append_right _ List.mem_cons_self)
  rw [call] at earlier
  exact guard.2.2.1 _ _ _ _ earlier

include stored vacant punctual

/-- Two results for one key are further apart than the window. -/
theorem returned_once {e e' : Entry BrokerSig World} {req req' : InvokeRequest}
    {grant grant' : Grant} {tool tool' : ToolAdapter} {result result' : Json}
    (returned : Returned lib c e req grant tool result)
    (returned' : Returned lib c e' req' grant' tool' result') (same : SameKey req req' grant grant')
    {key : Str} (keyed : req.idempotencyKey = some key) (order : Precedes c.hist e e') :
    e.pre.now + seconds store.windowSeconds < e'.pre.now := by
  by_contra within
  have within := Int.not_lt.mp within
  have ordered := (lossless lib svc).now_of_precedes run order
  have keyed' : req'.idempotencyKey = some key := same.key ▸ keyed
  obtain ⟨r, owner, member, mine, event, before⟩ := returned.reserved run stored keyed
  obtain ⟨r', owner', member', mine', event', before'⟩ := returned'.reserved run stored keyed'
  rw [same.fullKey_eq] at event'
  have free := (reserves_of_granted run member event).2.2
  have free' := (reserves_of_granted run member' event').2.2
  rcases Precedes.total member member' with rfl | behind | ahead
  · exact returned.single run returned' order (mine.symm.trans mine')
  · have early := (lossless lib svc).now_of_precedes run before'
    obtain ⟨value, there⟩ := found_occupied run vacant punctual returned member mine event stored
      behind (Int.le_trans early within)
    rw [World.stored, show r'.pre.redis.find r'.pre.now _ = none from free'] at there
    cases there
  · have early := Int.le_trans ((lossless lib svc).now_of_precedes run before) ordered
    have pos := store.window_pos
    have later : e'.pre.now ≤ e'.pre.now + seconds store.windowSeconds :=
      Int.le_add_of_nonneg_right (by unfold seconds; omega)
    obtain ⟨value, there⟩ :=
      found_occupied run vacant punctual returned' member' mine' event' stored
      ahead (Int.le_trans early later)
    rw [World.stored, show r.pre.redis.find r.pre.now _ = none from free] at there
    cases there

omit stored vacant punctual

/-- An invocation that is over with an outcome was answered by every Redis command. -/
theorem redis_answered (available : RedisAvailable c) {g : Entry BrokerSig World}
    (member : g ∈ c.hist) {t : Thread BrokerSig Request Response}
    (thread : c.threads[g.tid]? = some t) {req : InvokeRequest} (request : t.req = .invoke req)
    {o : InvokeOutcome} (finished : t.prog = .ret (.outcome o)) {cmd : Redis.Cmd}
    (op_eq : g.event.op = .redis cmd) : ∃ v, g.event.ans = .ok v := by
  have entry : wp (broker lib svc false) cancellation.role (serve lib svc (.invoke req))
      (cancellation.post Response) [] := wp_cancellation
  have aborts := Machine.Reaches.under_start run thread (request ▸ entry) (Role.met_guarding _ _)
  rw [finished] at aborts
  cases raised : g.event.ans with
  | ok v => exact ⟨v, rfl⟩
  | error x =>
    obtain ⟨applied, rfl⟩ := available g member cmd op_eq x raised
    obtain ⟨u, thread', sub⟩ := run.owned member
    obtain rfl := Option.some.inj (thread.symm.trans thread')
    obtain ⟨x, same, -⟩ := aborts.mp ⟨g.event,
      sub.subset (List.mem_append_right _ List.mem_cons_self), _, raised, rfl⟩
    cases same

/-- What an invocation finds under an occupied key counts. -/
theorem taken_of_found (vacant : ∀ key, w.redis.table (IdempotencyStore.name key) = none)
    (printed : ∀ text, lib.floatRepr (lib.floatRepr text).val = lib.floatRepr text)
    (parsed : Parsed lib c.hist) {g : Entry BrokerSig World} (member : g ∈ c.hist) {value : Str}
    (saw : g.event = ⟨.redis (.get (IdempotencyStore.name key)), .ok (some value)⟩) :
    Taken lib value := by
  cases complete : IdempotencyStore.isPending value with
  | true => exact .inl complete
  | false =>
    obtain ⟨s, req, grant, result, finds, -⟩ := found_storedBy run vacant member saw complete
    obtain ⟨t, thread, request⟩ := finds.thread
    obtain ⟨rest, sent⟩ := finds.sent
    obtain ⟨e, tool, returned, -⟩ :=
      Sent.returned run finds.member thread request sent List.prefix_rfl finds.found
    obtain ⟨accessToken, call⟩ := returned.call
    obtain ⟨text, text_eq⟩ := parsed e returned.member _ _ _ _ call
    have formed : Json.WellFormed lib.floatRepr (storedResult result) := by
      unfold storedResult
      split
      · exact Json.loads_wellFormed printed text_eq
      · exact ⟨List.nodup_nil, trivial⟩
    refine .inr ⟨storedResult result, finds.value_eq ▸ Json.loads_dumps formed, fun null => ?_⟩
    unfold storedResult at null
    split at null
    · rename_i truthy
      rw [null] at truthy
      cases truthy
    · cases null

omit run in
/-- What a look at a key answers. -/
theorem event_of_look {g : Entry BrokerSig World} (permits : g.pre.permits g.past g.event = true)
    (look : g.event.op = .redis (.get (IdempotencyStore.name key)))
    (answered : ∃ v, g.event.ans = .ok v) : g.event = looking key (.ok (g.pre.stored key)) := by
  obtain ⟨i, v, past, ⟨op, a⟩⟩ := g
  obtain rfl : op = _ := look
  obtain ⟨found, rfl⟩ : ∃ v, a = .ok v := answered
  rw [show found = v.stored key from of_decide_eq_true permits]

omit run in
/-- A key that is not free is not reserved. -/
theorem event_of_reserve {g : Entry BrokerSig World} (permits : g.pre.permits g.past g.event = true)
    {marker value : Str} {ex : Int}
    (reserve : g.event.op = .redis (.set (IdempotencyStore.name key) marker true ex))
    (answered : ∃ v, g.event.ans = .ok v) (there : g.pre.stored key = some value) :
    g.event = ⟨.redis (.set (IdempotencyStore.name key) marker true ex), .ok false⟩ := by
  obtain ⟨i, v, past, ⟨op, a⟩⟩ := g
  obtain rfl : op = _ := reserve
  obtain ⟨claimed, rfl⟩ : ∃ v, a = .ok v := answered
  obtain ⟨x, found, -⟩ := Option.map_eq_some_iff.mp there
  have found : v.redis.find v.now (IdempotencyStore.name key) = some x := found
  by_cases expired : ex ≤ 0
  · simp [World.permits, Redis.run, expired] at permits
  · obtain rfl : claimed = false := by
      simpa [World.permits, Redis.run, expired, found] using permits
    rfl

/-- Who comes to a key that is not free finds it taken. -/
theorem turned_of_comes (vacant : ∀ key, w.redis.table (IdempotencyStore.name key) = none)
    (printed : ∀ text, lib.floatRepr (lib.floatRepr text).val = lib.floatRepr text)
    (parsed : Parsed lib c.hist) (available : RedisAvailable c) {g : Entry BrokerSig World}
    {req : InvokeRequest} {grant : Grant} (comes : Comes lib c g req grant)
    {key : Str} (keyed : req.idempotencyKey = some key) {value : Str}
    (there : g.pre.stored (fullKey req grant key) = some value)
    {t : Thread BrokerSig Request Response} (thread : c.threads[g.tid]? = some t)
    {o : InvokeOutcome} (finished : t.prog = .ret (.outcome o)) : Turned lib t.trace := by
  obtain ⟨u, thread', request⟩ := comes.thread
  obtain rfl := Option.some.inj (thread.symm.trans thread')
  obtain ⟨u, thread', sub⟩ := run.owned comes.member
  obtain rfl := Option.some.inj (thread.symm.trans thread')
  have permits := entry_permitted run comes.member
  obtain ⟨key', keyed', asks⟩ := comes.asks
  obtain rfl := Option.some.inj (keyed.symm.trans keyed')
  rcases asks with ⟨look, idle⟩ | ⟨marker, ex, reserve⟩
  · have event := event_of_look permits look
      (redis_answered run available comes.member thread request finished look)
    rw [there] at event
    have first := find_looking (fun e member => Op.isAsk_of_claims (idle e member))
      (fullKey req grant key) (.ok (some value))
    rw [← event] at first
    obtain ⟨rest, whole⟩ := sub
    refine .inl ⟨IdempotencyStore.name (fullKey req grant key), value, ?_,
      taken_of_found run vacant printed parsed comes.member event⟩
    rw [← whole, find_asked first, event]
  · have event := event_of_reserve permits reserve
      (redis_answered run available comes.member thread request finished reserve) there
    exact .inr ⟨_, marker, ex, event ▸ sub.subset (List.mem_append_right _ List.mem_cons_self)⟩

include stored vacant punctual

/-- Who comes to an occupied key is answered by a replay or a conflict. -/
theorem comer_away (printed : ∀ text, lib.floatRepr (lib.floatRepr text).val = lib.floatRepr text)
    (parsed : Parsed lib c.hist) (available : RedisAvailable c)
    {e r g : Entry BrokerSig World} {req req' : InvokeRequest} {grant grant' : Grant}
    {tool : ToolAdapter} {result : Json} (returned : Returned lib c e req grant tool result)
    {key : Str} (keyed : req.idempotencyKey = some key) (member : r ∈ c.hist)
    (mine : r.tid = e.tid) (event : r.event = granted (fullKey req grant key) owner)
    (comes : Comes lib c g req' grant') (same : SameKey req req' grant grant')
    (later : Precedes c.hist r g) (early : g.pre.now ≤ e.pre.now + seconds store.windowSeconds)
    {t : Thread BrokerSig Request Response} (thread : c.threads[g.tid]? = some t)
    {o : InvokeOutcome} (finished : t.prog = .ret (.outcome o)) : Away o := by
  obtain ⟨value, there⟩ := found_occupied run vacant punctual returned member mine event stored
    later early
  rw [← same.fullKey_eq] at there
  have turned := turned_of_comes run vacant printed parsed available comes (same.key ▸ keyed) there
    thread finished
  obtain ⟨u, thread', request⟩ := comes.thread
  obtain rfl := Option.some.inj (thread.symm.trans thread')
  have entry : wp (broker lib svc false) freeRole (serve lib svc (.invoke req'))
      (fun r tr => ∃ r', r = r'.map .outcome ∧ awayPost lib r' tr) [] :=
    wp_map (wp_mono (wp_invoke_turned lib svc false req') fun r tr _ post => ⟨r, rfl, post⟩)
  have under := Machine.Reaches.under_start run thread (request ▸ entry) (Role.met_guarding _ _)
  rw [finished] at under
  obtain ⟨r', ended, post⟩ := under
  cases r' with
  | error x => cases ended
  | ok o' =>
    cases ended
    exact post o rfl turned

end Guarantee

/-- A call that returned a result is an invocation's. -/
theorem returned_of_call {e : Entry BrokerSig World} (member : e ∈ c.hist)
    {tool : ToolAdapter} {accessToken : Str} {arguments : Arguments} {result : Json}
    (call : e.event = ⟨.toolCall tool accessToken arguments, .ok result⟩) :
    ∃ req grant, Returned lib c e req grant tool result := by
  obtain ⟨t, req, grant, tool', accessToken', thread, sub, request, op_eq, -, mediated⟩ :=
    entry_mediated run member (by rw [call]; rfl)
  obtain ⟨now, inside, -, -⟩ := mediated.admitted.live
  rw [call] at op_eq
  obtain ⟨rfl, rfl, rfl⟩ := Op.toolCall.inj op_eq
  exact ⟨req, grant, member, ⟨t, thread, request⟩, inside.subset List.mem_cons_self,
    mediated.admitted.tool_eq, accessToken, call⟩

/-- A run that is shorter than the life of a marker is in time. -/
theorem punctual_of_short
    (short : c.world.now ≤ w.now + seconds IdempotencyStore.reservationTtlSeconds) :
    Punctual lib svc c := by
  intro r member key owner reserves
  have begun : w.now ≤ r.pre.now := by
    obtain ⟨hist, ⟨before⟩⟩ := run.before_entry member
    rw [← before.world_eq]
    exact run_now before.reached
  have last : c.world.now ≤ r.pre.now + seconds IdempotencyStore.reservationTtlSeconds :=
    Int.le_trans short (Int.add_le_add_right begun _)
  exact ⟨fun s there _ _ => Int.le_trans (entry_now run there) last, fun _ _ _ _ => .inl last⟩

end Runs

/-- At most one success for a key. Where Redis is available, keeps what it holds until
it expires, and every holder of a key is in time, no two results for one key lie within
the window, and the others who come to the key in that time are answered by a replay or
a conflict. -/
theorem at_most_once (printed : ∀ text, lib.floatRepr (lib.floatRepr text).val = lib.floatRepr text)
    {store : IdempotencyStore} (stored : svc.idempotencyStore = some store) {w : World} {c : Broker}
    (run : (broker lib svc false).Reaches (.start w) c)
    (vacant : ∀ key, w.redis.table (IdempotencyStore.name key) = none)
    (parsed : Parsed lib c.hist) (available : RedisAvailable c) (punctual : Punctual lib svc c) :
    AtMostOnce lib store c where
  once e e' req req' grant grant' tool tool' result result' returned returned' same keyed
      order := by
    obtain ⟨key, keyed⟩ := Option.isSome_iff_exists.mp keyed
    exact returned_once run vacant punctual stored returned returned' same keyed order
  away e r g req req' grant grant' tool result key owner returned keyed member mine event comes same
      later _ early t o thread finished :=
    comer_away run vacant punctual stored printed parsed available returned keyed member mine event
      comes same later early thread finished

namespace Demo

/-- Every Redis command was answered. -/
def replied (e : Entry BrokerSig World) : Bool :=
  match e.event with
  | ⟨.redis _, .error _⟩ => false
  | _ => true

theorem available_of_replied {c : Broker} (all : c.hist.all replied = true) : RedisAvailable c := by
  intro e member cmd op_eq x raised
  have replied := List.all_eq_true.mp all e member
  obtain ⟨i, v, past, ⟨op, a⟩⟩ := e
  obtain rfl : op = .redis cmd := op_eq
  obtain rfl : a = .error x := raised
  cases replied

theorem parsed_of_listings {hist : List (Entry BrokerSig World)}
    (listings : (results hist).all isListing = true) : Parsed lib hist := by
  intro e member tool accessToken arguments result call
  rw [of_isListing (List.all_eq_true.mp listings result (mem_results member call))]
  exact ⟨_, Json.loads_dumps ⟨List.nodup_singleton _, trivial, trivial⟩⟩

end Demo

/-- Of two invocations of the demo agent with one key the second is answered by a replay. -/
theorem at_most_once_demo : ∃ (c : Broker) (t : Thread BrokerSig Request Response)
    (req : InvokeRequest) (o : InvokeOutcome),
    (broker Demo.lib Demo.services false).Reaches (.start (World.fresh Demo.midnight)) c ∧
      c.threads[3]? = some t ∧ t.req = .invoke req ∧ t.prog = .ret (.outcome o) ∧
      o.fromCache = true ∧ AtMostOnce Demo.lib Demo.store c := by
  have computed : (Demo.played false
      (Demo.issued ++ Demo.invocation [] (some "k") :: Demo.run 2 26 ++ Demo.wait 2000000 ++
        Demo.invocation [] (some "k") :: Demo.run 3 12)).any (fun c =>
          c.hist.all Demo.replied && (results c.hist).all Demo.isListing &&
            decide (c.world.now ≤ Demo.midnight + 2000000) &&
            c.threads[3]?.any fun t => (Demo.cached t).isSome) = true := by decide +kernel
  obtain ⟨c, run, computed⟩ := Demo.reached computed
  simp only [Bool.and_eq_true, decide_eq_true_eq] at computed
  obtain ⟨⟨⟨replied, listings⟩, short⟩, computed⟩ := computed
  obtain ⟨t, thread, computed⟩ := (Option.any_eq_true _ _).mp computed
  obtain ⟨o, computed⟩ := Option.isSome_iff_exists.mp computed
  obtain ⟨req, request, finished, cached⟩ := Demo.of_cached computed
  refine ⟨c, t, req, o, run, thread, request, finished, cached, at_most_once (fun _ => rfl) rfl run
    (fun _ => rfl) (Demo.parsed_of_listings listings) (Demo.available_of_replied replied)
    (punctual_of_short run (Int.le_trans short ?_))⟩
  exact Int.add_le_add_left (by decide) _

/-! ## A call that outlives its marker -/

/-- How long the retry policy and the timeout of the HTTP client let an operation take. -/
def Op.allowance : Op → Time
  | .toolCall .. | .tokenEndpoint _ => seconds 15
  | .sleep delay => delay
  | _ => 0

/-- No operation of a program takes longer than that. -/
def WithinTimeouts (hist : List (Entry BrokerSig World)) : Prop :=
  ∀ e ∈ hist, e.past.length = 0 ∨ ∃ g ∈ hist, g.tid = e.tid ∧ g.past.length + 1 = e.past.length ∧
    e.pre.now ≤ g.pre.now + e.event.op.allowance

instance (hist : List (Entry BrokerSig World)) : Decidable (WithinTimeouts hist) :=
  inferInstanceAs (Decidable (∀ e ∈ hist, _ ∨ ∃ g ∈ hist, _ ∧ _ ∧ _))

namespace Demo

/-- An attempt times out, and is tried again after a delay. -/
def retry (i delay : Nat) : List (Act BrokerSig Request World World.Nudge) :=
  wait 15000000 ++ raise i (.timeoutException "timed out") ++ run i 1 ++ wait delay ++ run i 2

/-- The program of a call that returned a result. -/
def answered (e : Entry BrokerSig World) : Option Nat :=
  match e.event with
  | ⟨.toolCall .., .ok _⟩ => some e.tid
  | _ => none

theorem call_of_answered {e : Entry BrokerSig World} {i : Nat} (is : answered e = some i) :
    e.tid = i ∧ ∃ tool accessToken arguments result,
      e.event = ⟨.toolCall tool accessToken arguments, .ok result⟩ := by
  unfold answered at is
  split at is
  · rename_i call
    exact ⟨Option.some.inj is, _, _, _, _, call⟩
  · cases is

/-- The row that a lookup found. -/
def lookup (ev : Event BrokerSig) : Option Grant :=
  match ev with
  | ⟨.query (.grantByTokenHash _), .ok found⟩ => found
  | _ => none

/-- The rows that were looked up name one agent and one account. -/
def sharing (hist : List (Entry BrokerSig World)) : Bool :=
  (hist.filterMap fun e => lookup e.event).all fun grant =>
    (hist.filterMap fun e => lookup e.event).all fun grant' =>
      decide (grant.agentId = grant'.agentId ∧ grant.connectedAccountId = grant'.connectedAccountId)

/-- An invocation with the key of the demo. -/
def keyed (t : Thread BrokerSig Request Response) : Bool :=
  match t.req with
  | .invoke req => decide (req.toolName = "drive.read" ∧ req.idempotencyKey = some "k")
  | _ => false

theorem request_of_keyed {t : Thread BrokerSig Request Response} (is : keyed t = true)
    {req : InvokeRequest} (request : t.req = .invoke req) :
    req.toolName = "drive.read" ∧ req.idempotencyKey = some "k" := by
  unfold keyed at is
  rw [request] at is
  exact of_decide_eq_true is

theorem looked_mem {w : World} {c : Broker} (run : (broker lib services false).Reaches (.start w) c)
    {e : Entry BrokerSig World} {req : InvokeRequest} {grant : Grant} {tool : ToolAdapter}
    {result : Json} (returned : Returned lib c e req grant tool result) :
    grant ∈ c.hist.filterMap fun e => lookup e.event := by
  obtain ⟨pre, v, -, there⟩ := entry_of_past run returned.member returned.found
  exact List.mem_filterMap.mpr ⟨_, there, rfl⟩

/-- The calls of two such invocations are for one key. -/
theorem sameKey_of_sharing {w : World} {c : Broker}
    (run : (broker lib services false).Reaches (.start w) c) (shares : sharing c.hist = true)
    (keys : ∀ i t, c.threads[i]? = some t → 2 ≤ i → keyed t = true)
    {e e' : Entry BrokerSig World} {req req' : InvokeRequest} {grant grant' : Grant}
    {tool tool' : ToolAdapter} {result result' : Json}
    (returned : Returned lib c e req grant tool result)
    (returned' : Returned lib c e' req' grant' tool' result') (late : 2 ≤ e.tid)
    (late' : 2 ≤ e'.tid) :
    SameKey req req' grant grant' ∧ req.idempotencyKey.isSome = true := by
  obtain ⟨t, thread, request⟩ := returned.thread
  obtain ⟨t', thread', request'⟩ := returned'.thread
  obtain ⟨name, key⟩ := request_of_keyed (keys _ t thread late) request
  obtain ⟨name', key'⟩ := request_of_keyed (keys _ t' thread' late') request'
  have alike := List.all_eq_true.mp
    (List.all_eq_true.mp shares grant (looked_mem run returned)) grant' (looked_mem run returned')
  obtain ⟨agent, account⟩ := of_decide_eq_true alike
  exact ⟨⟨agent, account, name.trans name'.symm, key.trans key'.symm⟩, by rw [key]; rfl⟩

end Demo

/-- Three attempts of an invocation time out, and while the fourth is under way its
marker expires. Another invocation with the key gets a result, and then the first one
gets its own. -/
theorem twice_succeeded_demo : ∃ c : Broker,
    (broker Demo.lib Demo.services false).Reaches (.start (World.fresh Demo.midnight)) c ∧
      Parsed Demo.lib c.hist ∧ RedisAvailable c ∧ WithinTimeouts c.hist ∧
      ¬ AtMostOnce Demo.lib Demo.store c := by
  have computed : (Demo.played false
      (Demo.issued ++ Demo.invocation [] (some "k") :: Demo.run 2 18 ++ Demo.retry 2 200000 ++
        Demo.retry 2 400000 ++ Demo.retry 2 800000 ++ Demo.wait 14000000 ++
        Demo.invocation [] (some "k") :: Demo.run 3 26 ++ Demo.run 2 1)).any (fun c =>
          c.hist.all Demo.replied && (results c.hist).all Demo.isListing &&
            decide (WithinTimeouts c.hist) && decide (c.world.now ≤ Demo.midnight + seconds 61) &&
            Demo.sharing c.hist && (c.threads.drop 2).all Demo.keyed &&
            c.hist.any (fun e => Demo.answered e = some 2) &&
            c.hist.any fun e => Demo.answered e = some 3) = true := by decide +kernel
  obtain ⟨c, run, computed⟩ := Demo.reached computed
  simp only [Bool.and_eq_true, decide_eq_true_eq] at computed
  obtain ⟨⟨⟨⟨⟨⟨⟨replied, listings⟩, timely⟩, short⟩, shares⟩, keys⟩, first⟩, second⟩ := computed
  refine ⟨c, run, Demo.parsed_of_listings listings, Demo.available_of_replied replied, timely,
    fun atMostOnce => ?_⟩
  have keys : ∀ i t, c.threads[i]? = some t → 2 ≤ i → Demo.keyed t = true := by
    intro i t thread late
    refine List.all_eq_true.mp keys t (List.mem_of_getElem? (i := i - 2) ?_)
    rw [List.getElem?_drop, Nat.add_sub_cancel' late]
    exact thread
  obtain ⟨e, member, call⟩ := List.any_eq_true.mp first
  obtain ⟨e', member', call'⟩ := List.any_eq_true.mp second
  obtain ⟨tid, tool, accessToken, arguments, result, event⟩ :=
    Demo.call_of_answered (of_decide_eq_true call)
  obtain ⟨tid', tool', accessToken', arguments', result', event'⟩ :=
    Demo.call_of_answered (of_decide_eq_true call')
  obtain ⟨req, grant, returned⟩ := returned_of_call run member event
  obtain ⟨req', grant', returned'⟩ := returned_of_call run member' event'
  -- whichever came first, they are less than the window apart
  have apart : ∀ {e e' : Entry BrokerSig World}, e ∈ c.hist → e' ∈ c.hist →
      ¬ e.pre.now + seconds Demo.store.windowSeconds < e'.pre.now := by
    intro e e' there there' late
    have begun : Demo.midnight ≤ e.pre.now := by
      obtain ⟨hist, ⟨before⟩⟩ := run.before_entry there
      rw [← before.world_eq]
      exact run_now before.reached
    have last := Int.le_trans (entry_now run there') short
    have wide : e.pre.now + seconds 61 ≤ e.pre.now + seconds Demo.store.windowSeconds :=
      Int.add_le_add_left (by decide) _
    exact Int.not_le.mpr late
      (Int.le_trans last (Int.le_trans (Int.add_le_add_right begun _) wide))
  rcases Precedes.total member member' with rfl | before | before
  · cases tid.symm.trans tid'
  · obtain ⟨same, key⟩ :=
      Demo.sameKey_of_sharing run shares keys returned returned' (by omega) (by omega)
    exact apart member member'
      (atMostOnce.once _ _ _ _ _ _ _ _ _ _ returned returned' same key before)
  · obtain ⟨same, key⟩ :=
      Demo.sameKey_of_sharing run shares keys returned' returned (by omega) (by omega)
    exact apart member' member
      (atMostOnce.once _ _ _ _ _ _ _ _ _ _ returned' returned same key before)

end CredBroker
