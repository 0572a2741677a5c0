import CredBroker.Requests
import CredBroker.Tables

/-!
# Runs of the broker

What holds along every run, whatever the requests: every event is behind its
guard, reads are truthful when they are made, the tables only grow, and what
they gain was committed by some request.
-/

namespace CredBroker

open Python Interaction

variable {lib : Lib} {svc : Services} {lossy : Bool}

/-! ## Guards and ends -/

section Guards

variable {w : World} {c : Broker} (run : (broker lib svc lossy).Reaches (.start w) c)

include run

/-- Every event of every program met its guard. -/
theorem kept {i : Nat} {t : Thread BrokerSig Request Response} (thread : c.threads[i]? = some t)
    {pre : Trace BrokerSig} {ev : Event BrokerSig} (sub : pre ++ [ev] <+: t.trace) :
    requestGuard lib svc t.req pre ev.op :=
  Machine.Reaches.kept run thread (wp_serve lib svc t.req) (Role.met_guarding _ _) sub

/-- Every entry belongs to a program, and met its guard. -/
theorem entry_kept {e : Entry BrokerSig World} (member : e ∈ c.hist) :
    ∃ t, c.threads[e.tid]? = some t ∧ e.past ++ [e.event] <+: t.trace ∧
      requestGuard lib svc t.req e.past e.event.op := by
  obtain ⟨t, thread, sub⟩ := run.owned member
  exact ⟨t, thread, sub, kept run thread sub⟩

/-- So does an operation that is about to be performed. -/
theorem next_kept {i : Nat} {t : Thread BrokerSig Request Response}
    (thread : c.threads[i]? = some t) {e : Op} (next : t.prog.next = some e) :
    requestGuard lib svc t.req t.trace e := by
  obtain ⟨k, pending⟩ := Prog.next_eq_some.mp next
  have under := Machine.Reaches.under_start run thread (wp_serve lib svc t.req)
    (Role.met_guarding _ _)
  rw [pending] at under
  exact under.1

/-- An invocation that is over is concluded. -/
theorem invocation_concluded {i : Nat} {t : Thread BrokerSig Request Response}
    {req : InvokeRequest} {r : Except PyExn Response} (thread : c.threads[i]? = some t)
    (request : t.req = .invoke req) (finished : t.prog = .ofExcept r) :
    ∃ r', r = r'.map .outcome ∧ Concluded lib svc req t.trace r' := by
  have under := Machine.Reaches.under_start run thread (wp_serve lib svc t.req)
    (Role.met_guarding _ _)
  rw [finished, wp_ofExcept, request] at under
  exact under

/-- An entry was permitted by the world it found. -/
theorem entry_permitted {e : Entry BrokerSig World} (member : e ∈ c.hist) :
    e.pre.permits e.past e.event = true := run.permits member

/-- An event of a program has its entry. -/
theorem entry_at {i : Nat} {t : Thread BrokerSig Request Response} (thread : c.threads[i]? = some t)
    {pre : Trace BrokerSig} {ev : Event BrokerSig} (sub : pre ++ [ev] <+: t.trace) :
    ∃ v, (⟨i, v, pre, ev⟩ : Entry BrokerSig World) ∈ c.hist :=
    Machine.Reaches.entry_at run thread sub

theorem entry_of_event {i : Nat} {t : Thread BrokerSig Request Response}
    (thread : c.threads[i]? = some t) {ev : Event BrokerSig} (member : ev ∈ t.trace) :
    ∃ pre v, pre ++ [ev] <+: t.trace ∧ (⟨i, v, pre, ev⟩ : Entry BrokerSig World) ∈ c.hist := by
  obtain ⟨pre, post, cut⟩ := List.append_of_mem member
  have sub : pre ++ [ev] <+: t.trace := ⟨post, by simp [cut]⟩
  obtain ⟨v, entry⟩ := entry_at run thread sub
  exact ⟨pre, v, sub, entry⟩

end Guards

/-- Only an invocation calls the provider, and every call is mediated. -/
theorem mediated_of_guard {r : Request} {tr : Trace BrokerSig} {tool : ToolAdapter}
    {accessToken : Str} {arguments : Arguments}
    (guard : requestGuard lib svc r tr (.toolCall tool accessToken arguments)) :
    ∃ req, r = .invoke req ∧ arguments = req.arguments ∧ Unsettled tr ∧ NoResult tr ∧
      ∃ grant, Mediated lib svc req grant tool accessToken tr := by
  cases r with
  | invoke req => exact ⟨req, rfl, guard⟩
  | revokeGrant grantId => exact guard.1.elim
  | _ => exact guard.elim

/-- Every attempt in the history of a run is an invocation's, and mediated. -/
theorem entry_mediated {w : World} {c : Broker} (run : (broker lib svc lossy).Reaches (.start w) c)
    {e : Entry BrokerSig World} (member : e ∈ c.hist) (call : e.event.op.isToolCall = true) :
    ∃ t req grant tool accessToken, c.threads[e.tid]? = some t ∧
      e.past ++ [e.event] <+: t.trace ∧ t.req = .invoke req ∧
      e.event.op = .toolCall tool accessToken req.arguments ∧ Unsettled e.past ∧
      Mediated lib svc req grant tool accessToken e.past := by
  obtain ⟨t, thread, sub, guard⟩ := entry_kept run member
  cases calls : e.event.op with
  | toolCall tool accessToken arguments =>
    rw [calls] at guard
    obtain ⟨req, request, rfl, unsettled, -, grant, mediated⟩ := mediated_of_guard guard
    exact ⟨t, req, grant, tool, accessToken, thread, sub, request, rfl, unsettled, mediated⟩
  | _ =>
    rw [calls] at call
    cases call

/-- An invocation looks its token up once. -/
theorem looked_unique {w : World} {c : Broker} (run : (broker lib svc lossy).Reaches (.start w) c)
    {i : Nat} {t : Thread BrokerSig Request Response} (thread : c.threads[i]? = some t)
    {req : InvokeRequest} (request : t.req = .invoke req) {grant grant' : Grant}
    (found : looked lib req grant ∈ t.trace) (found' : looked lib req grant' ∈ t.trace) :
    grant = grant' := by
  have first : ∀ {g g' : Grant} {pre pre' : Trace BrokerSig},
      pre ++ [looked lib req g] <+: t.trace → pre' ++ [looked lib req g'] <+: t.trace →
      pre'.length ≤ pre.length := by
    intro g g' pre pre' sub sub'
    by_contra longer
    have guard := kept run thread sub'
    rw [request] at guard
    have shorter : (pre ++ [looked lib req g]).length ≤ pre'.length := by simp; omega
    have earlier := List.prefix_of_prefix_length_le sub
      ((List.prefix_append _ _).trans sub') shorter
    cases guard (looked lib req g) (earlier.subset (by simp))
  obtain ⟨pre, v, sub, -⟩ := entry_of_event run thread found
  obtain ⟨pre', v', sub', -⟩ := entry_of_event run thread found'
  have lengths := Nat.le_antisymm (first sub' sub) (first sub sub')
  have same := List.prefix_of_prefix_length_le sub sub' (by simp [lengths])
  have equal := (List.append_inj' (same.eq_of_length (by simp [lengths])) rfl).2
  simpa using equal

/-! ## One step -/

/-- The rows that an event inserts. -/
def committed (past : Trace BrokerSig) : Event BrokerSig → List Row
  | ⟨.commit, a⟩ => if Applied a then (Session.replay past).added else []
  | _ => []

/-- What one answered operation does to the tables. -/
structure World.Wrote (past : Trace BrokerSig) (e : Event BrokerSig)
    (db db' : Database) : Prop where
  grows : db.Grows db'
  keyed : db.Keyed → db'.Keyed
  audit : db'.audit = db.audit ++ Database.auditRows (committed past e)
  grants : ∀ g' ∈ db'.grants, (∃ g ∈ db.grants, g'.issued = g.issued) ∨
    Row.grant g' ∈ committed past e

theorem World.wrote_nothing {past : Trace BrokerSig} {e : Event BrokerSig} (db : Database)
    (none : committed past e = []) : World.Wrote past e db db where
  grows := .refl db
  keyed := id
  audit := by simp [none, Database.auditRows]
  grants g' member := .inl ⟨g', member, rfl⟩

/-- Row locks do not outlive these. -/
def Op.endsTransaction : Op → Bool
  | .commit | .rollback | .close => true
  | _ => false

/-- The row that an event locks. -/
def Session.locks : Event BrokerSig → Option Uuid
  | ⟨.query (.agentForUpdate id), .ok (some _)⟩ => some id
  | _ => none

/-- What one operation can do to the world besides breakers and secrets. -/
structure World.Framed (w : World) (tr : Trace BrokerSig) (e : Event BrokerSig) (w' : World) :
    Prop where
  now : w'.now = w.now
  db : e.op ≠ .commit → w'.db = w.db
  locks : w'.locks = if e.op.endsTransaction
    then w.locks.filter fun id => !(Session.replay tr).locked.contains id
    else (Session.locks e).toList ++ w.locks
  redis : e.op.isRedis = false → w'.redis = w.redis
  nonces : e.op ≠ .tokenHex → w'.nonces = w.nonces

section Framed

variable {w : World} {tr : Trace BrokerSig} {e : Event BrokerSig}

/-- An operation that only touches breakers and secrets. -/
theorem World.Framed.of_idle {w' : World} (open_ : e.op.endsTransaction = false)
    (unlocked : Session.locks e = none)
    (same : w' = { w with circuits := w'.circuits, secrets := w'.secrets }) : w.Framed tr e w' := by
  rw [same]
  exact ⟨rfl, fun _ => rfl, by simp [open_, unlocked], fun _ => rfl, fun _ => rfl⟩

theorem World.addSecret_idle (w : World) (value : Str) : w.addSecret value =
    { w with
      circuits := (w.addSecret value).circuits
      secrets := (w.addSecret value).secrets } := by
  unfold World.addSecret
  split <;> rfl

theorem World.mapCircuit_idle (w : World) (surface : Surface) (provider : Str)
    (f : CircuitBreaker → CircuitBreaker) : w.mapCircuit surface provider f =
      { w with
        circuits := (w.mapCircuit surface provider f).circuits
        secrets := (w.mapCircuit surface provider f).secrets } := by
  unfold World.mapCircuit
  split <;> rfl

theorem World.after_framed (w : World) (tr : Trace BrokerSig) (e : Event BrokerSig) :
    w.Framed tr e (w.after tr e) := by
  obtain ⟨e, a⟩ := e
  cases e with
  | commit =>
    have unlocked : (w.after tr ⟨.commit, a⟩).locks = (w.unlock (Session.replay tr)).locks := by
      simp only [World.after]
      split <;> rfl
    refine ⟨?_, fun other => (other rfl).elim, unlocked, fun _ => ?_, fun _ => ?_⟩ <;>
    · simp only [World.after]
      split <;> rfl
  | rollback | close => exact ⟨rfl, fun _ => rfl, rfl, fun _ => rfl, fun _ => rfl⟩
  | redis cmd =>
    refine ⟨?_, fun _ => ?_, ?_, fun other => Bool.noConfusion other, fun _ => ?_⟩ <;>
    · simp only [World.after]
      split <;> rfl
  | tokenHex =>
    cases a with
    | ok token => exact ⟨rfl, fun _ => rfl, rfl, fun _ => rfl, fun other => (other rfl).elim⟩
    | error x => exact .of_idle rfl rfl rfl
  | query q =>
    rcases a with x | a
    · cases q <;> exact .of_idle rfl rfl rfl
    · cases q with
      | agentForUpdate id =>
        cases a with
        | none => exact .of_idle rfl rfl rfl
        | some agent => exact ⟨rfl, fun _ => rfl, rfl, fun _ => rfl, fun _ => rfl⟩
      | _ => exact .of_idle rfl rfl rfl
  | registerSecret value => exact .of_idle rfl rfl (w.addSecret_idle value)
  | encrypt plaintext =>
    cases plaintext with
    | str s => exact .of_idle rfl rfl (w.addSecret_idle s)
    | _ => exact .of_idle rfl rfl rfl
  | decrypt blob =>
    cases a with
    | ok plaintext => exact .of_idle rfl rfl (w.addSecret_idle plaintext)
    | error x => exact .of_idle rfl rfl rfl
  | circuitFor surface provider failureThreshold resetSeconds =>
    refine .of_idle rfl rfl ?_
    cases a with
    | ok _ =>
      simp only [World.after]
      split <;> rfl
    | error x => rfl
  | circuitAllow surface provider | circuitSuccess surface provider
  | circuitFailure surface provider =>
    cases a with
    | ok _ => exact .of_idle rfl rfl (w.mapCircuit_idle surface provider _)
    | error x => exact .of_idle rfl rfl rfl
  | _ => exact .of_idle rfl rfl rfl

end Framed

@[simp] theorem World.unlock_db (w : World) (s : Session) : (w.unlock s).db = w.db := rfl

theorem World.after_wrote {w : World} {past : Trace BrokerSig} {e : Event BrokerSig}
    (mild : (Session.replay past).Mild) (permits : w.permits past e = true) :
    World.Wrote past e w.db (w.after past e).db := by
  by_cases commit : e.op = .commit
  · obtain ⟨e, a⟩ := e
    obtain rfl : e = .commit := commit
    cases effective : Applied a with
    | false =>
      have unchanged : (w.after past ⟨.commit, a⟩).db = w.db := by
        simp [World.after, effective]
      rw [unchanged]
      exact World.wrote_nothing _ (by simp [committed, effective])
    | true =>
      have applied : ((Session.replay past).apply w.db).isSome = true := by
        simp only [World.permits, effective, Bool.not_true, Bool.false_or,
          Bool.and_eq_true] at permits
        exact permits.2
      obtain ⟨db', applied⟩ := Option.isSome_iff_exists.mp applied
      have changed : (w.after past ⟨.commit, a⟩).db = db' := by
        simp [World.after, effective, applied]
      have rows : committed past ⟨.commit, a⟩ = (Session.replay past).added := by
        simp [committed, effective]
      obtain ⟨grows, keyed, audit, grants⟩ := Session.apply_spec mild applied
      rw [changed]
      exact ⟨grows, keyed, by rw [rows, audit], by rwa [rows]⟩
  · rw [(w.after_framed past e).db commit]
    refine World.wrote_nothing _ ?_
    obtain ⟨e, a⟩ := e
    cases e <;> first | rfl | exact (commit rfl).elim

theorem World.nudge_db {n : World.Nudge} {w w' : World} (moved : World.nudge lossy n w = some w') :
    w'.db = w.db := by
  cases n with
  | tick elapsed =>
    obtain rfl := Option.some.inj moved
    rfl
  | evict keep =>
    rw [World.nudge] at moved
    split at moved
    · obtain rfl := Option.some.inj moved
      rfl
    · cases moved

/-- A trace behind its guards never takes a revocation back. -/
theorem revoking_of_kept {r : Request} {tr : Trace BrokerSig}
    (kept : ∀ pre ev, pre ++ [ev] <+: tr → requestGuard lib svc r pre ev.op) :
    Session.Revoking tr := by
  intro e member attr assigns
  obtain ⟨pre, post, rfl⟩ := List.append_of_mem member
  have guard := kept pre e (by simp)
  rw [assigns] at guard
  cases r with
  | invoke req => exact guard.elim
  | revokeGrant grantId => exact guard.1
  | _ => exact guard

/-! ## Whole runs -/

/-- Every session of a run is mild. -/
theorem session_mild {w : World} {c : Broker} (run : (broker lib svc lossy).Reaches (.start w) c)
    {i : Nat} {t : Thread BrokerSig Request Response} (thread : c.threads[i]? = some t) :
    (Session.replay t.trace).Mild :=
  Session.replay_mild (revoking_of_kept fun _ _ sub => kept run thread sub)

/-- What a step writes is what its event committed. -/
theorem step_wrote {w : World} {c c' : Broker}
    (run : (broker lib svc lossy).Reaches (.start w) c) (step : (broker lib svc lossy).Step c c') :
    (c'.hist = c.hist ∧ c'.world.db = c.world.db) ∨ ∃ e : Entry BrokerSig World,
      c'.hist = c.hist ++ [e] ∧ e.pre = c.world ∧
        World.Wrote e.past e.event c.world.db c'.world.db := by
  cases step with
  | spawn r => exact .inl ⟨rfl, rfl⟩
  | nudge n moved => exact .inl ⟨rfl, World.nudge_db moved⟩
  | @answer i t e k a thread pending permits =>
    exact .inr ⟨⟨i, c.world, t.trace, ⟨e, a⟩⟩, rfl, rfl,
      World.after_wrote (session_mild run thread) permits⟩

/-- Tables only grow, and their keys stay unique. -/
theorem run_grows {w : World} {c c' : Broker} (run : (broker lib svc lossy).Reaches (.start w) c)
    (rest : (broker lib svc lossy).Reaches c c') :
    c.world.db.Grows c'.world.db ∧ (c.world.db.Keyed → c'.world.db.Keyed) := by
  induction rest with
  | refl => exact ⟨.refl _, id⟩
  | tail reach step ih =>
    rcases step_wrote (run.trans reach) step with ⟨-, same⟩ | ⟨e, -, -, wrote⟩
    · rwa [same]
    · exact ⟨ih.1.trans wrote.grows, wrote.keyed ∘ ih.2⟩

/-- What an entry found is still there. -/
theorem entry_grows {w : World} {c : Broker} (run : (broker lib svc lossy).Reaches (.start w) c)
    {e : Entry BrokerSig World} (member : e ∈ c.hist) : e.pre.db.Grows c.world.db := by
  obtain ⟨h₁, h₂, split⟩ := List.append_of_mem member
  obtain ⟨before⟩ := run.before (by simpa [Config.start] using split)
  rw [← before.world_eq]
  exact (run_grows before.reached before.toEnd).1

/-! ## Time -/

theorem World.nudge_now {n : World.Nudge} {w w' : World} (moved : World.nudge lossy n w = some w') :
    w.now ≤ w'.now := by
  cases n with
  | tick elapsed =>
    obtain rfl := Option.some.inj moved
    exact Int.le_add_of_nonneg_right (Int.natCast_nonneg elapsed)
  | evict keep =>
    rw [World.nudge] at moved
    split at moved
    · obtain rfl := Option.some.inj moved
      exact Int.le_refl _
    · cases moved

/-- The clock does not run back. -/
theorem run_now {c c' : Broker} (run : (broker lib svc lossy).Reaches c c') :
    c.world.now ≤ c'.world.now := by
  induction run with
  | refl => exact Int.le_refl _
  | @tail b c' _ step ih =>
    refine Int.le_trans ih ?_
    cases step with
    | spawn r => exact Int.le_refl _
    | nudge n moved => exact World.nudge_now moved
    | answer thread pending permits => exact Int.le_of_eq (b.world.after_framed _ _).now.symm

/-- What an entry found is past. -/
theorem entry_now {w : World} {c : Broker} (run : (broker lib svc lossy).Reaches (.start w) c)
    {e : Entry BrokerSig World} (member : e ∈ c.hist) : e.pre.now ≤ c.world.now := by
  obtain ⟨h₁, h₂, split⟩ := List.append_of_mem member
  obtain ⟨before⟩ := run.before (by simpa [Config.start] using split)
  rw [← before.world_eq]
  exact run_now before.toEnd

/-- An earlier event of an entry's program has an earlier entry. -/
theorem earlier_entry {w : World} {c : Broker} (run : (broker lib svc lossy).Reaches (.start w) c)
    {e : Entry BrokerSig World} (member : e ∈ c.hist) {pre : Trace BrokerSig}
    {ev : Event BrokerSig} (sub : pre ++ [ev] <+: e.past) :
    ∃ v : World, (⟨e.tid, v, pre, ev⟩ : Entry BrokerSig World) ∈ c.hist ∧ v.now ≤ e.pre.now := by
  obtain ⟨h₁, h₂, split⟩ := List.append_of_mem member
  obtain ⟨before⟩ := run.before (by simpa [Config.start] using split)
  obtain ⟨post, cut⟩ := sub
  have cut : before.thread.trace = pre ++ ev :: post := by rw [before.trace_eq, ← cut]; simp
  obtain ⟨h₁', h₂', v, split'⟩ :=
    before.reached.recorded before.running cut (by simp [Config.start])
  have entry : (⟨e.tid, v, pre, ev⟩ : Entry BrokerSig World) ∈ before.mid.hist := by simp [split']
  refine ⟨v, (Machine.Reaches.hist_mono before.toEnd).subset entry, ?_⟩
  rw [← before.world_eq]
  exact entry_now before.reached entry

/-- So is what a program read off the clock. -/
theorem clock_now {w : World} {c : Broker} (run : (broker lib svc lossy).Reaches (.start w) c)
    {i : Nat} {t : Thread BrokerSig Request Response} (thread : c.threads[i]? = some t) {now : Time}
    (member : ⟨.clock, .ok now⟩ ∈ t.trace) : now ≤ c.world.now := by
  obtain ⟨pre, v, -, entry⟩ := entry_of_event run thread member
  obtain rfl : now = v.now := of_decide_eq_true (entry_permitted run entry)
  exact entry_now run entry

/-! ## Reads -/

theorem World.one_eq_some {α : Type} {rows : List α} {p : α → Bool} {row : α}
    (one : World.one rows p = some (some row)) : row ∈ rows ∧ p row = true := by
  have member : row ∈ rows.filter p := by
    unfold World.one at one
    split at one
    · simp at one
    · rename_i other single
      simp only [Option.some.injEq] at one
      simp [single, one]
    · cases one
  exact List.mem_filter.mp member

/-- A read is answered by the tables it finds. -/
theorem World.permits_query {w : World} {tr : Trace BrokerSig} {q : Query} {a : q.Val}
    (permits : w.permits tr ⟨.query q, .ok a⟩ = true) : q.answeredBy w.db a = true := by
  cases q <;> simp only [World.permits, Bool.and_eq_true] at permits <;> exact permits.2

/-- What a program has read was there, and is still there up to its mutable columns. -/
theorem read_truthful {w : World} {c : Broker} (run : (broker lib svc lossy).Reaches (.start w) c)
    {i : Nat} {t : Thread BrokerSig Request Response} (thread : c.threads[i]? = some t) {q : Query}
    {a : q.Val} (member : ⟨.query q, .ok a⟩ ∈ t.trace) :
    ∃ v : World, q.answeredBy v.db a = true ∧ v.db.Grows c.world.db := by
  obtain ⟨pre, v, -, entry⟩ := entry_of_event run thread member
  exact ⟨v, World.permits_query (entry_permitted run entry), entry_grows run entry⟩

/-- The audit log is what the entries committed, in their order. -/
theorem audit_eq {w : World} {c : Broker} (run : (broker lib svc lossy).Reaches (.start w) c) :
    c.world.db.audit = w.db.audit ++
      c.hist.flatMap fun e => Database.auditRows (committed e.past e.event) := by
  induction run with
  | refl => simp [Config.start]
  | tail reach step ih =>
    rcases step_wrote reach step with ⟨hist, same⟩ | ⟨e, hist, -, wrote⟩
    · rw [same, hist, ih]
    · rw [wrote.audit, hist, ih]
      simp

end CredBroker
