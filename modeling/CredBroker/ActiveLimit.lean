import CredBroker.Issuance

/-!
# The active-grant limit

At no instant does an agent hold more active grants for one tool and scope than
the settings allow: time and revocations only take grants away, and each new one
is counted against the others under the lock of its agent.
-/

namespace CredBroker

open Python Interaction

variable {lib : Lib} {svc : Services} {lossy : Bool}

/-! ## Counting rows -/

namespace Database

variable {db db' : Database} {agentId : Uuid} {toolName scope : Str} {time : Time}

/-- What is active later is active now. -/
theorem active_mono (db : Database) {now later : Time} (le : now ≤ later) :
    db.active agentId toolName scope later ≤ db.active agentId toolName scope now := by
  refine List.countP_mono_left fun row _ active => ?_
  simp only [decide_eq_true_eq] at active ⊢
  obtain ⟨agent, tool, scope_eq, unrevoked, unexpired⟩ := active
  exact ⟨agent, tool, scope_eq, unrevoked, Int.lt_of_le_of_lt le unexpired⟩

/-- No assignment that keeps revocations makes a grant active. -/
theorem active_update (db : Database) (id : Uuid) {attr : Attr} (mild : attr.Mild) :
    (db.update id attr).active agentId toolName scope time ≤
      db.active agentId toolName scope time := by
  rw [active, active, update, List.countP_map]
  refine List.countP_mono_left fun row _ active => ?_
  simp only [Function.comp, decide_eq_true_eq] at active ⊢
  split at active
  · cases attr with
    | revokedAt value =>
      obtain ⟨-, -, -, unrevoked, -⟩ := active
      exact (mild (congrArg Attr.revokedAt unrevoked)).elim
    | _ => exact active
  · exact active

theorem active_insert_grant (db : Database) (grant : Grant) :
    (db.insert (.grant grant)).active agentId toolName scope time ≤
      db.active agentId toolName scope time + 1 := by
  rw [active, active, insert, List.countP_append]
  exact Nat.add_le_add_left List.countP_le_length _

/-- A grant counts for its own agent, tool and scope only. -/
theorem active_insert_other (db : Database) {grant : Grant}
    (other : ¬ (grant.agentId = agentId ∧ grant.toolName = toolName ∧ grant.scope = scope)) :
    (db.insert (.grant grant)).active agentId toolName scope time =
      db.active agentId toolName scope time := by
  rw [active, active, insert, List.countP_append, Nat.add_eq_left, List.countP_eq_zero]
  intro row member
  rw [List.mem_singleton.mp member]
  simp only [decide_eq_true_eq]
  exact fun active => other ⟨active.1, active.2.1, active.2.2.1⟩

/-- Rows of the other tables do not count. -/
theorem active_insertAll {rows : List Row} (none : ∀ grant, .grant grant ∉ rows)
    (inserted : db.insertAll? rows = some db') :
    db'.active agentId toolName scope time = db.active agentId toolName scope time := by
  induction rows generalizing db with
  | nil =>
    obtain rfl := Option.some.inj inserted
    rfl
  | cons row rows ih =>
    rw [insertAll?] at inserted
    split at inserted
    · rw [ih (fun grant member => none grant (List.mem_cons_of_mem _ member)) inserted]
      cases row with
      | grant grant => exact (none grant List.mem_cons_self).elim
      | _ => rfl
    · cases inserted

end Database

/-- A commit without new grants makes none active. -/
theorem Session.apply_active {s : Session} {db db' : Database} (mild : s.Mild)
    (none : ∀ grant, .grant grant ∉ s.added) (applied : s.apply db = some db') (agentId : Uuid)
    (toolName scope : Str) (time : Time) :
    db'.active agentId toolName scope time ≤ db.active agentId toolName scope time := by
  rw [Database.active_insertAll none applied]
  have updated : ∀ (updates : List (Uuid × Attr)) (db : Database), (∀ u ∈ updates, u.2.Mild) →
      (updates.foldl (fun db u => db.update u.1 u.2) db).active agentId toolName scope time ≤
        db.active agentId toolName scope time := by
    intro updates
    induction updates with
    | nil => exact fun db _ => Nat.le_refl _
    | cons u updates ih =>
      intro db mild
      exact Nat.le_trans (ih _ fun v member => mild v (List.mem_cons_of_mem _ member))
        (db.active_update u.1 (mild u List.mem_cons_self))
  exact updated s.updates db (Session.updates_mild mild)

/-! ## Row locks -/

namespace Session

/-- What a session holds is let go at the end of its transaction, and kept until then. -/
theorem note_locked (s : Session) (e : Event BrokerSig) :
    (s.note e).locked = if e.op.endsTransaction then [] else (locks e).toList ++ s.locked := by
  obtain ⟨e, a⟩ := e
  cases e with
  | query q =>
    rcases a with x | a
    · cases q <;> rfl
    · cases q with
      | agentForUpdate id => cases a <;> rfl
      | _ => rfl
  | commit | rollback | flush => cases a <;> rfl
  | _ => rfl

/-- A lock is kept while the transaction lasts. -/
theorem mem_locked_append {tr rest : Trace BrokerSig} {id : Uuid} (held : id ∈ (replay tr).locked)
    (open_ : ∀ e ∈ rest, e.op.endsTransaction = false) : id ∈ (replay (tr ++ rest)).locked := by
  induction rest using List.reverseRecOn with
  | nil => rwa [List.append_nil]
  | append_singleton rest e ih =>
    obtain ⟨open_, last⟩ := List.forall_mem_append.mp open_
    rw [← List.append_assoc, replay_append_singleton, note_locked,
      last e (List.mem_singleton.mpr rfl)]
    exact List.mem_append_right _ (ih open_)

end Session

/-- What the sessions hold is locked, and held by one of them only. -/
structure Locking (c : Broker) : Prop where
  locked : ∀ (i : Nat) (t : Thread BrokerSig Request Response), c.threads[i]? = some t →
    ∀ id ∈ (Session.replay t.trace).locked, id ∈ c.world.locks
  apart : ∀ (i j : Nat) (t u : Thread BrokerSig Request Response), c.threads[i]? = some t →
    c.threads[j]? = some u → i ≠ j →
    ∀ id ∈ (Session.replay t.trace).locked, id ∉ (Session.replay u.trace).locked

/-- The threads after one answer: the one that got it, and the others. -/
theorem thread_of_answer {c : Broker} {i j : Nat} {t u : Thread BrokerSig Request Response}
    {e : Event BrokerSig} {prog : BrokerProg Response} (thread : c.threads[i]? = some t)
    (there : (c.answer (broker lib svc lossy) i t e prog).threads[j]? = some u) :
    (j = i ∧ u = ⟨t.req, prog, t.trace ++ [e]⟩) ∨ (j ≠ i ∧ c.threads[j]? = some u) := by
  by_cases same : i = j
  · subst same
    have inBounds := (List.getElem?_eq_some_iff.mp thread).1
    exact .inl ⟨rfl, by simpa [Config.answer, inBounds] using there.symm⟩
  · exact .inr ⟨Ne.symm same, by simpa [Config.answer, List.getElem?_set_ne same] using there⟩

/-- A thread that has just been started has no event yet. -/
theorem thread_of_spawn {c : Broker} {r : Request} {j : Nat} {u : Thread BrokerSig Request Response}
    (there : (c.spawn (broker lib svc lossy) r).threads[j]? = some u) :
    c.threads[j]? = some u ∨ u.trace = [] := by
  by_cases started : j < c.threads.length
  · rw [Config.spawn, List.getElem?_append_left started] at there
    exact .inl there
  · rw [Config.spawn, List.getElem?_append_right (Nat.not_lt.mp started)] at there
    rw [List.mem_singleton.mp (List.mem_of_getElem? there)]
    exact .inr rfl

/-- A row is locked only if nobody holds it. -/
theorem World.permits_locks {w : World} {tr : Trace BrokerSig} {e : Event BrokerSig} {id : Uuid}
    (permits : w.permits tr e = true) (locks : Session.locks e = some id) : id ∉ w.locks := by
  unfold Session.locks at locks
  split at locks
  · obtain rfl := Option.some.inj locks
    simp only [World.permits, Bool.and_eq_true, Bool.not_eq_true', List.contains_eq_mem,
      decide_eq_false_iff_not] at permits
    exact permits.1.2
  · cases locks

theorem Locking.step {c c' : Broker} (locking : Locking c)
    (step : (broker lib svc lossy).Step c c') : Locking c' := by
  cases step with
  | nudge n moved =>
    have same : ∀ w', World.nudge lossy n c.world = some w' → w'.locks = c.world.locks := by
      intro w' moved
      cases n with
      | tick elapsed =>
        obtain rfl := Option.some.inj moved
        rfl
      | evict keep =>
        rw [World.nudge] at moved
        split at moved
        · obtain rfl := Option.some.inj moved
          rfl
        · cases moved
    exact ⟨fun i t thread id held => by
      rw [same _ moved]
      exact locking.locked i t thread id held, locking.apart⟩
  | spawn r =>
    have none : ∀ {t : Thread BrokerSig Request Response} {id : Uuid}, t.trace = [] →
        id ∉ (Session.replay t.trace).locked := by
      intro t id empty
      simp [empty, Session.new]
    refine ⟨fun i t thread id held => ?_, fun i j t u thread thread' ne id held held' => ?_⟩
    · rcases thread_of_spawn thread with old | empty
      · exact locking.locked i t old id held
      · exact (none empty held).elim
    · rcases thread_of_spawn thread with old | empty
      · rcases thread_of_spawn thread' with old' | empty
        · exact locking.apart i j t u old old' ne id held held'
        · exact none empty held'
      · exact none empty held
  | @answer i t e k a thread pending permits =>
    have locks := (c.world.after_framed t.trace ⟨e, a⟩).locks
    -- another session goes on holding what it holds
    have others : ∀ (j : Nat) (u : Thread BrokerSig Request Response), c.threads[j]? = some u →
        j ≠ i → ∀ id ∈ (Session.replay u.trace).locked,
          id ∈ (c.world.after t.trace ⟨e, a⟩).locks := by
      intro j u there ne id held
      have listed := locking.locked j u there id held
      rw [locks]
      split
      · have free := locking.apart j i u t there thread ne id held
        simpa [listed] using free
      · exact List.mem_append_right _ listed
    -- what the answered session holds, it held before or has just locked
    have own : ∀ id ∈ ((Session.replay t.trace).note ⟨e, a⟩).locked,
        id ∈ (c.world.after t.trace ⟨e, a⟩).locks ∧
          (id ∈ (Session.replay t.trace).locked ∨ Session.locks ⟨e, a⟩ = some id) := by
      intro id held
      rw [Session.note_locked] at held
      rw [locks]
      split at held
      · cases held
      · rename_i open_
        rw [if_neg open_]
        rcases List.mem_append.mp held with new | old
        · exact ⟨List.mem_append_left _ new, .inr (by simpa using new)⟩
        · exact ⟨List.mem_append_right _ (locking.locked i t thread id old), .inl old⟩
    refine ⟨fun j u there id held => ?_, fun j j' u u' there there' ne id held held' => ?_⟩
    · rcases thread_of_answer thread there with ⟨rfl, rfl⟩ | ⟨other, there⟩
      · rw [Session.replay_append_singleton] at held
        exact (own id held).1
      · exact others j u there other id held
    · have disjoint : ∀ (j : Nat) (u : Thread BrokerSig Request Response),
          c.threads[j]? = some u → j ≠ i → id ∈ (Session.replay u.trace).locked →
            id ∉ ((Session.replay t.trace).note ⟨e, a⟩).locked := by
        intro j u there other held held'
        rcases (own id held').2 with old | new
        · exact locking.apart j i u t there thread other id held old
        · exact World.permits_locks permits new (locking.locked j u there id held)
      rcases thread_of_answer thread there with ⟨rfl, rfl⟩ | ⟨other, kept⟩
      · rcases thread_of_answer thread there' with ⟨rfl, rfl⟩ | ⟨other', there'⟩
        · exact ne rfl
        · rw [Session.replay_append_singleton] at held
          exact disjoint j' u' there' other' held' held
      · rcases thread_of_answer thread there' with ⟨rfl, rfl⟩ | ⟨other', there'⟩
        · rw [Session.replay_append_singleton] at held'
          exact disjoint j u kept other held held'
        · exact locking.apart j j' u u' kept there' ne id held held'

/-- Locks are exclusive along every run from a world without any. -/
theorem run_locking {w : World} {c : Broker} (run : (broker lib svc lossy).Reaches (.start w) c) :
    Locking c := by
  induction run with
  | refl => exact ⟨fun i t thread => by simp [Config.start] at thread,
      fun i j t u thread => by simp [Config.start] at thread⟩
  | tail _ step ih => exact ih.step step

/-! ## What a step does to the counts -/

/-- One answer inserts a grant on the grounds of `request_grant`, or makes none active. -/
theorem answer_active {w : World} {c : Broker} (run : (broker lib svc lossy).Reaches (.start w) c)
    {i : Nat} {t : Thread BrokerSig Request Response} (thread : c.threads[i]? = some t) {e : Op}
    {k : BrokerSig.Ans e → BrokerProg Response} (pending : t.prog = .call e k) {a : BrokerSig.Ans e}
    (permits : c.world.permits t.trace ⟨e, a⟩ = true) :
    (∃ agentId toolName scope grant now count,
      Issuing svc agentId toolName scope grant now count t.trace ∧
        (c.world.after t.trace ⟨e, a⟩).db = c.world.db.insert (.grant grant)) ∨
      ∀ agentId toolName scope time,
        (c.world.after t.trace ⟨e, a⟩).db.active agentId toolName scope time ≤
          c.world.db.active agentId toolName scope time := by
  have unchanged : (∀ a' : BrokerSig.Ans .commit, (⟨e, a⟩ : Event BrokerSig) = ⟨.commit, a'⟩ →
      Applied a' = false) → ∀ agentId toolName scope time,
        (c.world.after t.trace ⟨e, a⟩).db.active agentId toolName scope time ≤
          c.world.db.active agentId toolName scope time := by
    intro none agentId toolName scope time
    rw [World.after_db_unapplied _ _ none]
  by_cases effective : ∃ a' : BrokerSig.Ans .commit, (⟨e, a⟩ : Event BrokerSig) = ⟨.commit, a'⟩ ∧
      Applied a' = true
  swap
  · refine .inr (unchanged fun a' same => ?_)
    rw [← Bool.not_eq_true]
    exact fun applied => effective ⟨a', same, applied⟩
  obtain ⟨a', same, applied⟩ := effective
  cases same
  have under := Machine.Reaches.under_start run thread (wp_serve_issuing lib svc t.req)
    (Role.met_guarding _ _)
  rw [pending] at under
  have guard := under.1
  -- a request other than `request_grant` has no grant to insert
  have addless : (∀ pre ev, pre ++ [ev] <+: t.trace → ∀ grant, ev.op ≠ .add (.grant grant)) →
      ∀ agentId toolName scope time,
        (c.world.after t.trace ⟨.commit, a'⟩).db.active agentId toolName scope time ≤
          c.world.db.active agentId toolName scope time := by
    intro none agentId toolName scope time
    have written : ((Session.replay t.trace).apply c.world.db).isSome = true := by
      simp only [World.permits, applied, Bool.not_true, Bool.false_or, Bool.and_eq_true] at permits
      exact permits.2
    obtain ⟨db', written⟩ := Option.isSome_iff_exists.mp written
    have committed : (c.world.after t.trace ⟨.commit, a'⟩).db = db' := by
      simp [World.after, applied, written]
    rw [committed]
    refine Session.apply_active (session_mild run thread) (fun grant member => ?_) written _ _ _ _
    obtain ⟨pre, added, sub⟩ := Session.mem_replay_added member
    exact none pre _ sub grant rfl
  cases request : t.req with
  | requestGrant agentId toolName scope =>
    rw [request] at guard
    obtain ⟨grant, now, count, issuing⟩ := guard rfl
    exact .inl ⟨agentId, toolName, scope, grant, now, count, issuing,
      issuing.after_db applied permits⟩
  | _ =>
    refine .inr (addless fun pre ev sub => ?_)
    have guard := Machine.Reaches.kept run thread (wp_serve_issuing lib svc t.req)
      (Role.met_guarding _ _) sub
    rw [request] at guard
    exact guard

/-! ## The count under the lock -/

/-- While a session holds an agent's row, what it counted still bounds the active grants. -/
def Frozen (c : Broker) : Prop :=
  ∀ (i : Nat) (t : Thread BrokerSig Request Response) (pre post : Trace BrokerSig) (agentId : Uuid)
    (toolName scope : Str) (now : Time) (count : Nat), c.threads[i]? = some t →
    t.trace = pre ++ ⟨.query (.countActive agentId toolName scope now), .ok count⟩ :: post →
    agentId ∈ (Session.replay pre).locked → (∀ e ∈ post, e.op.endsTransaction = false) →
    c.world.db.active agentId toolName scope now ≤ count

theorem Frozen.step {w : World} {c c' : Broker}
    (run : (broker lib svc lossy).Reaches (.start w) c) (frozen : Frozen c)
    (step : (broker lib svc lossy).Step c c') : Frozen c' := by
  intro j u pre post agentId toolName scope now count there cut held open_
  cases step with
  | nudge n moved =>
    have same : _ = c.world.db := World.nudge_db moved
    rw [same]
    exact frozen j u pre post agentId toolName scope now count there cut held open_
  | spawn r =>
    rcases thread_of_spawn there with old | empty
    · exact frozen j u pre post agentId toolName scope now count old cut held open_
    · simp [empty] at cut
  | @answer i t e k a thread pending permits =>
    rcases thread_of_answer thread there with ⟨rfl, rfl⟩ | ⟨other, there⟩
    · rcases List.eq_nil_or_concat post with rfl | ⟨post, last, rfl⟩
      · -- the count is made in this step
        obtain ⟨-, events⟩ := List.append_inj' (show t.trace ++ [⟨e, a⟩] =
          pre ++ [⟨.query (.countActive agentId toolName scope now), .ok count⟩] from cut) rfl
        cases List.singleton_inj.mp events
        have answered := of_decide_eq_true (World.permits_query permits)
        exact Nat.le_of_eq answered.symm
      · have split : t.trace ++ [⟨e, a⟩] = (pre ++
            ⟨.query (.countActive agentId toolName scope now), .ok count⟩ :: post) ++ [last] := by
          simpa using cut
        obtain ⟨traces, events⟩ := List.append_inj' split rfl
        obtain rfl := List.singleton_inj.mp events
        obtain ⟨before, last⟩ := List.forall_mem_append.mp
          (show ∀ e ∈ post ++ [_], e.op.endsTransaction = false by simpa using open_)
        have same : (c.world.after t.trace ⟨e, a⟩).db = c.world.db := by
          refine (c.world.after_framed t.trace ⟨e, a⟩).db ?_
          rintro rfl
          cases last _ (List.mem_singleton.mpr rfl)
        show (c.world.after t.trace ⟨e, a⟩).db.active _ _ _ _ ≤ _
        rw [same]
        exact frozen _ t pre post agentId toolName scope now count thread traces held before
    · have old := frozen j u pre post agentId toolName scope now count there cut held open_
      show (c.world.after t.trace ⟨e, a⟩).db.active _ _ _ _ ≤ _
      rcases answer_active run thread pending permits with
        ⟨agentId', toolName', scope', grant, now', count', issuing, inserted⟩ | fewer
      · rw [inserted, Database.active_insert_other _ fun own => ?_]
        · exact old
        · -- the issuing session holds the agent's row too
          have mine : agentId ∈ (Session.replay t.trace).locked := by
            rw [Session.replay_issuing issuing, ← own.1, issuing.agent_eq]
            exact List.mem_singleton.mpr rfl
          have theirs : agentId ∈ (Session.replay u.trace).locked := by
            rw [cut]
            exact Session.mem_locked_append held (List.forall_mem_cons.mpr ⟨rfl, open_⟩)
          exact (run_locking run).apart i j t u thread there (Ne.symm other) agentId mine theirs
      · exact Nat.le_trans (fewer agentId toolName scope now) old

theorem run_frozen {w : World} {c : Broker} (run : (broker lib svc lossy).Reaches (.start w) c) :
    Frozen c := by
  induction run with
  | refl =>
    intro i t pre post agentId toolName scope now count thread
    simp [Config.start] at thread
  | tail reach step ih => exact ih.step reach step

/-- So it does when the grant is inserted. -/
theorem Issuing.frozen {w : World} {c : Broker}
    (run : (broker lib svc lossy).Reaches (.start w) c) {i : Nat}
    {t : Thread BrokerSig Request Response} (thread : c.threads[i]? = some t) {agentId : Uuid}
    {toolName scope : Str} {grant : Grant} {now : Time} {count : Nat}
    (issuing : Issuing svc agentId toolName scope grant now count t.trace) :
    c.world.db.active agentId toolName scope now ≤ count ∧ now ≤ c.world.now := by
  obtain ⟨pacing, agent, provider, account, id, -, cut⟩ := issuing.counted
  constructor
  · refine run_frozen run i t (pacing ++ [⟨.query (.agentForUpdate agentId), .ok (some agent)⟩] ++
      [⟨.query (.latestAccount agent.userId provider), .ok (some account)⟩, ⟨.clock, .ok now⟩])
      [⟨.uuid4, .ok id⟩, ⟨.add (.grant grant), .ok ()⟩] agentId toolName scope now count thread
      (by simp [cut, counting]) (Session.mem_locked_append ?_ ?_) ?_
    · simp [Session.note]
    · simp [Op.endsTransaction]
    · simp [Op.endsTransaction]
  · exact clock_now run thread (by simp [cut, counting])

/-! ## The limit -/

/-- From now on the active grants stay within a limit, if none is issued. -/
def Limited (limit : Int) (w : World) : Prop :=
  ∀ agentId toolName scope time, w.now ≤ time →
    (w.db.active agentId toolName scope time : Int) ≤ limit

theorem Limited.step {w : World} {c c' : Broker}
    (run : (broker lib svc lossy).Reaches (.start w) c)
    (limited : Limited svc.settings.maxActiveGrantsPerAgentScope c.world)
    (step : (broker lib svc lossy).Step c c') :
    Limited svc.settings.maxActiveGrantsPerAgentScope c'.world := by
  intro agentId toolName scope time later
  cases step with
  | spawn r => exact limited agentId toolName scope time later
  | nudge n moved =>
    have same : _ = c.world.db := World.nudge_db moved
    rw [same]
    exact limited agentId toolName scope time (Int.le_trans (World.nudge_now moved) later)
  | @answer i t e k a thread pending permits =>
    have later : c.world.now ≤ time := by
      rw [← (c.world.after_framed t.trace ⟨e, a⟩).now]
      exact later
    have old := limited agentId toolName scope time later
    show ((c.world.after t.trace ⟨e, a⟩).db.active _ _ _ _ : Int) ≤ _
    rcases answer_active run thread pending permits with
      ⟨agentId', toolName', scope', grant, now, count, issuing, inserted⟩ | fewer
    · rw [inserted]
      by_cases own : grant.agentId = agentId ∧ grant.toolName = toolName ∧ grant.scope = scope
      · obtain ⟨frozen, past⟩ := issuing.frozen run thread
        rw [← issuing.agent_eq, ← issuing.tool_eq, ← issuing.scope_eq, own.1, own.2.1,
          own.2.2] at frozen
        -- the count was made at `now`, and time only takes grants away
        have fewer : c.world.db.active agentId toolName scope time ≤
            c.world.db.active agentId toolName scope now :=
          c.world.db.active_mono (Int.le_trans past later)
        have one : (c.world.db.insert (.grant grant)).active agentId toolName scope time ≤
            c.world.db.active agentId toolName scope time + 1 :=
            c.world.db.active_insert_grant grant
        have below := issuing.below
        omega
      · rw [Database.active_insert_other _ own]
        exact old
    · exact Int.le_trans (Int.ofNat_le.mpr (fewer agentId toolName scope time)) old

theorem run_limited {w : World} {c : Broker}
    (limited : Limited svc.settings.maxActiveGrantsPerAgentScope w)
    (run : (broker lib svc lossy).Reaches (.start w) c) :
    Limited svc.settings.maxActiveGrantsPerAgentScope c.world := by
  induction run with
  | refl => exact limited
  | tail reach step ih => exact ih.step reach step

/-- The active-grant limit: at every instant of every run, now and from now on. -/
theorem active_grants_limited {now : Time} (nonneg : 0 ≤ svc.settings.maxActiveGrantsPerAgentScope)
    {c : Broker} (run : (broker lib svc lossy).Reaches (.start (World.fresh now)) c)
    (agentId : Uuid)
    (toolName scope : Str) (time : Time) (later : c.world.now ≤ time) :
    (c.world.db.active agentId toolName scope time : Int) ≤
      svc.settings.maxActiveGrantsPerAgentScope := by
  refine run_limited (fun agentId toolName scope time _ => ?_) run agentId toolName scope time later
  simpa [World.fresh, Database.empty, Database.active] using nonneg

/-- The demo agent holds all the grants that it may. -/
theorem active_grants_limited_demo : ∃ c : Broker,
    (broker Demo.lib Demo.services false).Reaches (.start (World.fresh Demo.midnight)) c ∧
      c.world.db.active Demo.agentId "drive.read" "read" c.world.now = 1 ∧
      (c.world.db.active Demo.agentId "drive.read" "read" c.world.now : Int) ≤
        Demo.services.settings.maxActiveGrantsPerAgentScope := by
  have computed : (Demo.played false Demo.issued).any (fun c =>
      c.world.db.active Demo.agentId "drive.read" "read" c.world.now == 1) = true := by
    decide +kernel
  obtain ⟨c, run, computed⟩ := Demo.reached computed
  exact ⟨c, run, by simpa using computed, active_grants_limited (by decide) run Demo.agentId
    "drive.read" "read" c.world.now (Int.le_refl _)⟩

end CredBroker
