import CredBroker.Demo
import CredBroker.Invocation.Cancel
import CredBroker.Runs

/-!
# The audit log

Which rows an invocation commits, and what they are evidence of. An invocation
that found a grant comes to one row, unless it is cancelled before that row is
committed; what the row says is what the caller is told.
-/

namespace CredBroker

open Python Interaction

variable {lib : Lib} {svc : Services} {lossy : Bool}

/-! ## Rows -/

/-- The audit rows that an entry commits. -/
def rowsOf (e : Entry BrokerSig World) : List ToolCallAuditLog :=
  Database.auditRows (committed e.past e.event)

/-- The audit rows that program `i` commits. -/
def rowsBy (i : Nat) (hist : List (Entry BrokerSig World)) : List ToolCallAuditLog :=
  (hist.filter (·.tid = i)).flatMap rowsOf

/-- The audit rows that a program commits along its trace. -/
def tracedRows (tr : Trace BrokerSig) : List ToolCallAuditLog :=
  (Trace.steps [] tr).flatMap fun step => Database.auditRows (committed step.1 step.2)

theorem rowsBy_eq {w : World} {c : Broker} (run : (broker lib svc lossy).Reaches (.start w) c)
    {i : Nat} {t : Thread BrokerSig Request Response} (thread : c.threads[i]? = some t) :
    rowsBy i c.hist = tracedRows t.trace := by
  rw [tracedRows, ← Machine.Reaches.performed run thread, performedBy, List.flatMap_map]
  rfl

theorem tracedRows_append_singleton (tr : Trace BrokerSig) (e : Event BrokerSig) :
    tracedRows (tr ++ [e]) = tracedRows tr ++ Database.auditRows (committed tr e) := by
  simp [tracedRows, Trace.steps_append, Trace.steps]

/-- Nothing is inserted that was not added. -/
theorem added_of_noAdd {tr : Trace BrokerSig} (noAdd : NoAdd tr) :
    (Session.replay tr).added = [] := by
  refine List.eq_nil_iff_forall_not_mem.mpr fun row member => ?_
  obtain ⟨pre, a, sub⟩ := Session.mem_replay_added member
  cases noAdd ⟨.add row, a⟩ (sub.subset (by simp))

theorem committed_of_noAdd {tr : Trace BrokerSig} (noAdd : NoAdd tr) (e : Event BrokerSig) :
    committed tr e = [] := by
  obtain ⟨e, a⟩ := e
  cases e with
  | commit => simp [committed, added_of_noAdd noAdd]
  | _ => rfl

theorem tracedRows_of_noAdd {tr : Trace BrokerSig} (noAdd : NoAdd tr) : tracedRows tr = [] := by
  induction tr using List.reverseRecOn with
  | nil => rfl
  | append_singleton tr e ih =>
    have before : NoAdd tr := (List.forall_mem_append.mp noAdd).1
    rw [tracedRows_append_singleton, ih before, committed_of_noAdd before]
    rfl

/-- The one row of an invocation is inserted by the commit after it, if that takes effect. -/
theorem tracedRows_recorded {pre : Trace BrokerSig} (noAdd : NoAdd pre) (row : ToolCallAuditLog)
    (a : BrokerSig.Ans .commit) (closed : BrokerSig.Ans .close) :
    tracedRows (pre ++ [⟨.add (.audit row), .ok ()⟩, ⟨.commit, a⟩, ⟨.close, closed⟩]) =
      if Applied a then [row] else [] := by
  have steps : pre ++ [⟨.add (.audit row), .ok ()⟩, ⟨.commit, a⟩, ⟨.close, closed⟩] =
      pre ++ [⟨.add (.audit row), .ok ()⟩] ++ [⟨.commit, a⟩] ++ [⟨.close, closed⟩] := by simp
  have session : (Session.replay (pre ++ [⟨.add (.audit row), .ok ()⟩])).added = [.audit row] := by
    simp [Session.note, added_of_noAdd noAdd]
  rw [steps]
  simp only [tracedRows_append_singleton, tracedRows_of_noAdd noAdd, committed, session]
  split <;> rfl

/-- The row that a lookup of a token hash found. -/
def lookedUp (tokenHash : Str) (tr : Trace BrokerSig) : Option Grant :=
  tr.findSome? fun
    | ⟨.query (.grantByTokenHash tokenHash'), .ok row⟩ =>
      if tokenHash' = tokenHash then row else none
    | _ => none

theorem looked_of_lookedUp {req : InvokeRequest} {tr : Trace BrokerSig} {grant : Grant}
    (found : lookedUp (hashToken lib req.grantToken) tr = some grant) :
    looked lib req grant ∈ tr := by
  obtain ⟨⟨e, a⟩, member, here⟩ := List.exists_of_findSome?_eq_some found
  dsimp only at here
  split at here
  · rename_i tokenHash row same
    split at here
    · rename_i hash
      rw [same, hash, here] at member
      exact member
    · cases here
  · cases here

/-! ## Ends -/

section Ends

variable {w : World} {c : Broker} (run : (broker lib svc lossy).Reaches (.start w) c) {i : Nat}
  {t : Thread BrokerSig Request Response} (thread : c.threads[i]? = some t) {req : InvokeRequest}
  (request : t.req = .invoke req)

include run thread request

/-- An invocation that is over is concluded, and severed where it has no row. -/
theorem invocation_over {r : Except PyExn Response} (finished : t.prog = .ofExcept r) :
    ∃ r', r = r'.map .outcome ∧ Concluded lib svc req t.trace r' ∧ Severed lib req t.trace := by
  have entry : wp (broker lib svc lossy) (invokeRole lib svc req) (serve lib svc (.invoke req))
      (fun r tr => ∃ r', r = r'.map .outcome ∧ Concluded lib svc req tr r' ∧ Severed lib req tr)
      [] := wp_map (wp_mono (wp_invoke_severed lib svc req) fun r tr _ ended => ⟨r, rfl, ended⟩)
  have under := Machine.Reaches.under_start run thread (request ▸ entry) (Role.met_guarding _ _)
  rwa [finished, wp_ofExcept] at under

/-- What is not awaited for the last time is not cancelled, if an operation follows
that does not close the session. -/
theorem not_hit_before {pre : Trace BrokerSig} {ev : Event BrokerSig}
    (sub : pre ++ [ev] <+: t.trace) (open_ : ev.op ≠ .close) :
    ∀ e ∈ pre, ¬ cancellation.Hit e.ans := by
  intro e member hit
  have entry : wp (broker lib svc lossy) cancellation.role (serve lib svc (.invoke req))
      (cancellation.post Response) [] := wp_cancellation
  have guard := Machine.Reaches.kept run thread (request ▸ entry) (Role.met_guarding _ _) sub
  exact open_ (guard ⟨e, member, hit⟩)

omit request in
/-- Only a cancellation reaches the closing of a session. -/
theorem close_fatal {x : PyExn} (member : ⟨.close, .error x⟩ ∈ t.trace) :
    x.isException = false := by
  obtain ⟨pre, v, -, entry⟩ := entry_of_event run thread member
  have permits := entry_permitted run entry
  simpa [World.permits] using permits

/-- The provider returns one result at most, and no attempt follows it. -/
theorem sent_of_result {pre rest : Trace BrokerSig} {tool : ToolAdapter} {accessToken : Str}
    {arguments : Arguments} {result : Json}
    (cut : t.trace = pre ++ ⟨.toolCall tool accessToken arguments, .ok result⟩ :: rest) :
    Sent req result rest t.trace := by
  have attempt : ∀ {pre' post : Trace BrokerSig} {tool' : ToolAdapter} {accessToken' : Str}
      {arguments' : Arguments} {a : BrokerSig.Ans (.toolCall tool' accessToken' arguments')},
      t.trace = pre' ++ ⟨.toolCall tool' accessToken' arguments', a⟩ :: post →
      arguments' = req.arguments ∧ NoResult pre' := by
    intro pre' post tool' accessToken' arguments' a cut'
    have sub : pre' ++ [⟨.toolCall tool' accessToken' arguments', a⟩] <+: t.trace :=
      ⟨post, by simp [cut']⟩
    have guard := kept run thread sub
    rw [request] at guard
    exact ⟨guard.1, guard.2.2.1⟩
  obtain ⟨rfl, before⟩ := attempt cut
  refine ⟨pre, tool, accessToken, cut, before,
    fun tool' accessToken' arguments' result' member => ?_⟩
  obtain ⟨mid, post, rfl⟩ := List.append_of_mem member
  have cut' : t.trace = (pre ++ ⟨.toolCall tool accessToken req.arguments, .ok result⟩ :: mid) ++
      ⟨.toolCall tool' accessToken' arguments', .ok result'⟩ :: post := by simp [cut]
  exact (attempt cut').2 tool accessToken req.arguments result (by simp)

end Ends

/-! ## One row for each invocation -/

/-- Where no task is cancelled and the last rollback and commit succeed, a
resolved invocation returns an outcome and adds one row, which says the same;
any other invocation adds none. -/
theorem one_audit_row {w : World} {c : Broker} (run : (broker lib svc lossy).Reaches (.start w) c)
    {i : Nat} {t : Thread BrokerSig Request Response} (thread : c.threads[i]? = some t)
    {req : InvokeRequest} (request : t.req = .invoke req) {r : Except PyExn Response}
    (finished : t.prog = .ofExcept r)
    (uncancelled : ∀ e ∈ t.trace, ∀ applied, e.ans ≠ .error (.cancelledError applied))
    (rolledBack : ∀ y, ⟨.rollback, .error y⟩ ∉ t.trace)
    (committed : ∀ row x, ¬ [⟨.add row, .ok ()⟩, ⟨.commit, .error x⟩] <:+: t.trace) :
    (∀ grant, looked lib req grant ∈ t.trace → ∃ o, r = .ok (.outcome o) ∧
        rowsBy i c.hist = [⟨grant.id, req.toolName, hashArguments lib req.arguments, o.status,
          o.latencyMs⟩]) ∧
      ((∀ grant, looked lib req grant ∉ t.trace) → rowsBy i c.hist = []) ∧
      c.world.db.audit = w.db.audit ++ c.hist.flatMap rowsOf := by
  have running : ¬ cancellation.Aborted t.trace := by
    rintro ⟨e, member, x, raised, fatal⟩
    obtain ⟨applied, rfl⟩ := fatal_cases fatal
    exact uncancelled e member applied raised
  obtain ⟨r', rfl, concluded, severed⟩ := invocation_over run thread request finished
  rw [rowsBy_eq run thread]
  refine ⟨fun grant found => ?_, fun unfound => ?_, audit_eq run⟩
  · have bare : ¬ NoAdd t.trace := fun noAdd => by
      rcases severed grant found noAdd with ⟨e, member, hit⟩ | ⟨y, member⟩
      · exact running ⟨e, List.mem_of_mem_dropLast member, hit⟩
      · exact rolledBack y (List.mem_of_mem_dropLast member)
    cases concluded with
    | unresolved unfound => exact (unfound grant found).elim
    | aborted _ _ noAdd => exact (bare noAdd).elim
    | unacknowledged grant' o pre x closed _ _ trace_eq =>
      exact (committed (auditRow lib req grant' o) x
        ⟨pre, [⟨.close, closed⟩], by simp [trace_eq]⟩).elim
    | audited grant' o pre closed found' noAdd _ _ _ trace_eq ended =>
      have found' : looked lib req grant' ∈ t.trace := by
        rw [trace_eq]
        exact List.mem_append_left _ found'
      obtain rfl := looked_unique run thread request found found'
      cases closed with
      | error x =>
        have member : ⟨.close, .error x⟩ ∈ t.trace := by simp [trace_eq]
        exact (running ⟨_, member, x, rfl, close_fatal run thread member⟩).elim
      | ok _ =>
        refine ⟨o, by rw [ended]; rfl, ?_⟩
        rw [trace_eq, auditRow, tracedRows_recorded noAdd]
        rfl
  · cases concluded with
    | unresolved _ noAdd => exact tracedRows_of_noAdd noAdd
    | audited grant o pre closed found _ _ _ _ trace_eq =>
      exact (unfound grant (by rw [trace_eq]; exact List.mem_append_left _ found)).elim
    | unacknowledged grant o pre x closed found _ trace_eq =>
      exact (unfound grant (by rw [trace_eq]; exact List.mem_append_left _ found)).elim
    | aborted grant found => exact (unfound grant found).elim

/-- A program of the demo that serves an invocation and is over, with its grant. -/
def Demo.settled (t : Thread BrokerSig Request Response) : Option (InvokeRequest × Grant) :=
  match t.req with
  | .invoke req =>
    if Demo.ended t then
      (lookedUp (hashToken Demo.lib req.grantToken) t.trace).map (req, ·)
    else none
  | _ => none

theorem Demo.of_settled {t : Thread BrokerSig Request Response} {req : InvokeRequest}
    {grant : Grant} (settled : Demo.settled t = some (req, grant)) :
    t.req = .invoke req ∧ (∃ r, t.prog = .ofExcept r) ∧ looked Demo.lib req grant ∈ t.trace := by
  unfold Demo.settled at settled
  split at settled
  · rename_i req' request
    split at settled
    · rename_i finished
      obtain ⟨grant', found, same⟩ := Option.map_eq_some_iff.mp settled
      cases same
      exact ⟨request, Demo.finished finished, looked_of_lookedUp found⟩
    · cases settled
  · cases settled

/-- The demo agent's call leaves one row. -/
theorem one_audit_row_demo : ∃ (c : Broker) (t : Thread BrokerSig Request Response)
    (req : InvokeRequest) (grant : Grant) (o : InvokeOutcome),
    (broker Demo.lib Demo.services false).Reaches (.start (World.fresh Demo.midnight)) c ∧
      c.threads[2]? = some t ∧ t.req = .invoke req ∧ looked Demo.lib req grant ∈ t.trace ∧
      t.prog = .ret (.outcome o) ∧
      rowsBy 2 c.hist = [⟨grant.id, req.toolName, hashArguments Demo.lib req.arguments, o.status,
        o.latencyMs⟩] := by
  have computed : (Demo.played false
      (Demo.issued ++ Demo.invocation [] none :: Demo.run 2 21)).any (fun c =>
        c.threads[2]?.any fun t => (Demo.settled t).isSome && t.trace.all Demo.succeeds) =
      true := by
    decide +kernel
  obtain ⟨c, run, computed⟩ := Demo.reached computed
  obtain ⟨t, thread, computed⟩ := (Option.any_eq_true _ _).mp computed
  simp only [Bool.and_eq_true, List.all_eq_true] at computed
  obtain ⟨settled, ok⟩ := computed
  obtain ⟨⟨req, grant⟩, settled⟩ := Option.isSome_iff_exists.mp settled
  obtain ⟨request, ⟨r, finished⟩, found⟩ := Demo.of_settled settled
  have unraised : ∀ e ∈ t.trace, ∀ x, e.ans ≠ .error x := fun e member x raised => by
    obtain ⟨v, answered⟩ := Demo.answer_of_succeeds (ok e member)
    rw [raised] at answered
    cases answered
  obtain ⟨one, -, -⟩ := one_audit_row run thread request finished
    (fun e member applied => unraised e member _) (fun y member => unraised _ member y rfl)
    (fun row x inside => unraised ⟨.commit, .error x⟩ (inside.subset (by simp)) x rfl)
  obtain ⟨o, rfl, rows⟩ := one grant found
  exact ⟨c, t, req, grant, o, run, thread, request, found, finished, rows⟩

/-! ## Contacts without a row -/

/-- No rollback or commit raises an `Exception`. -/
def DatabaseUp (tr : Trace BrokerSig) : Prop :=
  ∀ e ∈ tr, e.op = .rollback ∨ e.op = .commit → ∀ x, e.ans = .error x → x.isException = false

/-- Before the last event, nothing is cancelled but the commit of an audit row
that had already taken effect. -/
def Unbroken (tr : Trace BrokerSig) : Prop :=
  ∀ pre e post, tr = pre ++ e :: post → post ≠ [] → cancellation.Hit e.ans →
    ∃ a : BrokerSig.Ans .commit, e = ⟨.commit, a⟩ ∧ Applied a = true ∧ ¬ NoAdd pre

/-- A split of a trace that ends in three known events. -/
theorem split_last {pre pre' post : Trace BrokerSig} {a b d e : Event BrokerSig}
    (split : pre ++ [a, b, d] = pre' ++ e :: post) (more : post ≠ []) :
    (e ∈ pre ∨ e = a) ∨ e = b ∧ pre' = pre ++ [a] := by
  rcases List.append_eq_append_iff.mp split with ⟨mid, rfl, tail⟩ | ⟨mid, rfl, tail⟩
  · rcases mid with _ | ⟨x, _ | ⟨y, _ | ⟨z, mid⟩⟩⟩
    · simp at tail
      exact .inl (.inr tail.1.symm)
    · simp at tail
      exact .inr ⟨tail.2.1.symm, by simp [tail.1]⟩
    · simp at tail
      exact (more tail.2.2.2).elim
    · simp at tail
  · cases mid with
    | nil =>
      simp at tail
      exact .inl (.inr tail.1)
    | cons x mid =>
      simp at tail
      exact .inl (.inl (by simp [tail.1]))

/-- Where the database stays up, an invocation that found a grant leaves a row for
it, however far it came, exactly if it was not cancelled before that row was
committed; and its row is in the log. -/
theorem contact_audited_iff {w : World} {c : Broker}
    (run : (broker lib svc lossy).Reaches (.start w) c) {i : Nat}
    {t : Thread BrokerSig Request Response} (thread : c.threads[i]? = some t)
    {req : InvokeRequest} (request : t.req = .invoke req) {r : Except PyExn Response}
    (finished : t.prog = .ofExcept r) {grant : Grant} (found : looked lib req grant ∈ t.trace)
    (up : DatabaseUp t.trace) :
    ((∃ row ∈ rowsBy i c.hist, row.grantId = grant.id) ↔ Unbroken t.trace) ∧
      ∀ row ∈ rowsBy i c.hist, row ∈ c.world.db.audit := by
  refine ⟨?_, fun row member => ?_⟩
  swap
  · rw [audit_eq run]
    obtain ⟨e, mine, own⟩ := List.mem_flatMap.mp member
    exact List.mem_append_right _ (List.mem_flatMap.mpr ⟨e, (List.mem_filter.mp mine).1, own⟩)
  obtain ⟨r', rfl, concluded, severed⟩ := invocation_over run thread request finished
  rw [rowsBy_eq run thread]
  -- an invocation without a row was cut off
  have bare : NoAdd t.trace → ¬ Unbroken t.trace := by
    intro noAdd unbroken
    have cut : ∃ e ∈ t.trace.dropLast, cancellation.Hit e.ans := by
      rcases severed grant found noAdd with cut | ⟨y, member⟩
      · exact cut
      · exact ⟨_, member, y, rfl, up _ (List.mem_of_mem_dropLast member) (.inl rfl) y rfl⟩
    obtain ⟨e, member, hit⟩ := cut
    obtain ⟨pre, post, split⟩ := List.append_of_mem member
    obtain ⟨last, ends⟩ : ∃ last, t.trace = t.trace.dropLast ++ [last] :=
      ⟨_, (List.dropLast_append_getLast (List.ne_nil_of_mem found)).symm⟩
    have cut' : t.trace = pre ++ e :: (post ++ [last]) := by
      rw [ends, split]
      simp
    obtain ⟨-, -, -, added⟩ := unbroken pre e (post ++ [last]) cut' (by simp) hit
    exact added fun e' member' => noAdd e' (by rw [cut']; exact List.mem_append_left _ member')
  -- one that added its row was not cancelled before
  have recorded : ∀ (o : InvokeOutcome) (pre : Trace BrokerSig) (a : BrokerSig.Ans .commit)
      (closed : BrokerSig.Ans .close), NoAdd pre → (∀ x, a = .error x → x.isException = false) →
      t.trace = pre ++ [⟨.add (auditRow lib req grant o), .ok ()⟩, ⟨.commit, a⟩, ⟨.close, closed⟩] →
      ((∃ row ∈ tracedRows t.trace, row.grantId = grant.id) ↔ Unbroken t.trace) := by
    intro o pre a closed noAdd fatal trace_eq
    have sub : pre ++ [⟨.add (auditRow lib req grant o), .ok ()⟩] <+: t.trace :=
      ⟨[⟨.commit, a⟩, ⟨.close, closed⟩], by simp [trace_eq]⟩
    have unhit : ∀ e ∈ pre, ¬ cancellation.Hit e.ans :=
      not_hit_before run thread request sub (by simp)
    have rows : tracedRows t.trace = if Applied a then [⟨grant.id, req.toolName,
        hashArguments lib req.arguments, o.status, o.latencyMs⟩] else [] := by
      rw [trace_eq]
      exact tracedRows_recorded noAdd _ a closed
    rw [rows]
    constructor
    · rintro ⟨row, member, -⟩ pre' e post split more hit
      have applied : Applied a = true := by
        by_contra not
        simp [not] at member
      rcases split_last (trace_eq ▸ split) more with (old | rfl) | ⟨rfl, rfl⟩
      · exact (unhit e old hit).elim
      · obtain ⟨x, raised, -⟩ := hit
        cases raised
      · refine ⟨a, rfl, applied, fun none => ?_⟩
        cases none ⟨.add (auditRow lib req grant o), .ok ()⟩ (by simp)
    · intro unbroken
      cases a with
      | ok _ => exact ⟨_, List.mem_singleton.mpr rfl, rfl⟩
      | error x =>
        obtain ⟨b, same, applied, -⟩ := unbroken
          (pre ++ [⟨.add (auditRow lib req grant o), .ok ()⟩]) ⟨.commit, .error x⟩
          [⟨.close, closed⟩] (by simp [trace_eq]) (by simp) ⟨x, rfl, fatal x rfl⟩
        cases same
        rw [applied]
        exact ⟨_, List.mem_singleton.mpr rfl, rfl⟩
  have unique : ∀ {grant' : Grant} {pre ext : Trace BrokerSig}, looked lib req grant' ∈ pre →
      t.trace = pre ++ ext → grant' = grant := fun found' trace_eq =>
    looked_unique run thread request (by rw [trace_eq]; exact List.mem_append_left _ found') found
  cases concluded with
  | unresolved unfound => exact (unfound grant found).elim
  | aborted _ _ noAdd =>
    rw [tracedRows_of_noAdd noAdd]
    exact iff_of_false (by simp) (bare noAdd)
  | audited grant' o pre closed found' noAdd _ _ _ trace_eq =>
    obtain rfl := unique found' trace_eq
    exact recorded o pre (.ok ()) closed noAdd (by simp) trace_eq
  | unacknowledged grant' o pre x closed found' noAdd trace_eq =>
    obtain rfl := unique found' trace_eq
    exact recorded o pre (.error x) closed noAdd (by
      rintro y ⟨⟩
      exact up ⟨.commit, .error x⟩ (by simp [trace_eq]) (.inr rfl) x rfl) trace_eq

/-- The demo agent's call is in the log. -/
theorem contact_audited_iff_demo : ∃ (c : Broker) (t : Thread BrokerSig Request Response)
    (req : InvokeRequest) (grant : Grant),
    (broker Demo.lib Demo.services false).Reaches (.start (World.fresh Demo.midnight)) c ∧
      c.threads[2]? = some t ∧ t.req = .invoke req ∧ looked Demo.lib req grant ∈ t.trace ∧
      (∃ e ∈ t.trace, e.op.isToolCall = true) ∧
      ∃ row ∈ rowsBy 2 c.hist, row.grantId = grant.id ∧ row ∈ c.world.db.audit := by
  have computed : (Demo.played false
      (Demo.issued ++ Demo.invocation [] none :: Demo.run 2 21)).any (fun c =>
        c.threads[2]?.any fun t => (Demo.settled t).isSome && t.trace.all Demo.succeeds &&
          t.trace.any fun e => e.op.isToolCall) = true := by decide +kernel
  obtain ⟨c, run, computed⟩ := Demo.reached computed
  obtain ⟨t, thread, computed⟩ := (Option.any_eq_true _ _).mp computed
  simp only [Bool.and_eq_true, List.all_eq_true, List.any_eq_true] at computed
  obtain ⟨⟨settled, ok⟩, call⟩ := computed
  obtain ⟨⟨req, grant⟩, settled⟩ := Option.isSome_iff_exists.mp settled
  obtain ⟨request, ⟨r, finished⟩, found⟩ := Demo.of_settled settled
  have unraised : ∀ e ∈ t.trace, ∀ x, e.ans ≠ .error x := fun e member x raised => by
    obtain ⟨v, answered⟩ := Demo.answer_of_succeeds (ok e member)
    rw [raised] at answered
    cases answered
  obtain ⟨audited, logged⟩ := contact_audited_iff run thread request finished found
    fun e member _ x raised => (unraised e member x raised).elim
  obtain ⟨row, member, own⟩ := audited.mpr fun pre e post split _ hit => by
    obtain ⟨x, raised, -⟩ := hit
    exact (unraised e (by simp [split]) x raised).elim
  exact ⟨c, t, req, grant, run, thread, request, found, call, row, member, own, logged row member⟩

/-- The caller goes away while the provider is answering: the call was made, and
the log stays empty. -/
theorem contact_unaudited_demo : ∃ (c : Broker) (t : Thread BrokerSig Request Response)
    (req : InvokeRequest) (grant : Grant),
    (broker Demo.lib Demo.services false).Reaches (.start (World.fresh Demo.midnight)) c ∧
      c.threads[2]? = some t ∧ t.req = .invoke req ∧ (∃ r, t.prog = .ofExcept r) ∧
      looked Demo.lib req grant ∈ t.trace ∧ (∃ e ∈ t.trace, e.op.isToolCall = true) ∧
      DatabaseUp t.trace ∧ rowsBy 2 c.hist = [] ∧ c.world.db.audit = [] := by
  have computed : (Demo.played false
      (Demo.issued ++ Demo.invocation [] none :: Demo.run 2 15 ++
        Demo.raise 2 (.cancelledError false) ++ Demo.run 2 1)).any (fun c =>
          (rowsBy 2 c.hist).isEmpty && c.world.db.audit.isEmpty && c.threads[2]?.any fun t =>
            (Demo.settled t).isSome && t.trace.all (fun e => Demo.succeeds e || e.op.isToolCall) &&
            t.trace.any fun e => e.op.isToolCall) = true := by decide +kernel
  obtain ⟨c, run, computed⟩ := Demo.reached computed
  simp only [Bool.and_eq_true, List.isEmpty_iff] at computed
  obtain ⟨⟨rows, log⟩, computed⟩ := computed
  obtain ⟨t, thread, computed⟩ := (Option.any_eq_true _ _).mp computed
  simp only [Bool.and_eq_true, List.all_eq_true, List.any_eq_true, Bool.or_eq_true] at computed
  obtain ⟨⟨settled, ok⟩, call⟩ := computed
  obtain ⟨⟨req, grant⟩, settled⟩ := Option.isSome_iff_exists.mp settled
  obtain ⟨request, finished, found⟩ := Demo.of_settled settled
  refine ⟨c, t, req, grant, run, thread, request, finished, found, call, ?_, rows, log⟩
  intro e member database x raised
  rcases ok e member with ok | call
  · obtain ⟨v, answered⟩ := Demo.answer_of_succeeds ok
    rw [raised] at answered
    cases answered
  · rcases database with rolled | committed
    · rw [rolled] at call; cases call
    · rw [committed] at call; cases call

/-! ## Calls that are reported -/

/-- After the provider returned a result, the caller is given it as a success and
the log has the row that says so exactly if every operation that follows
succeeds: those of the idempotency store among them. -/
theorem performed_reported_iff {w : World} {c : Broker}
    (run : (broker lib svc lossy).Reaches (.start w) c) {i : Nat}
    {t : Thread BrokerSig Request Response} (thread : c.threads[i]? = some t)
    {req : InvokeRequest} (request : t.req = .invoke req) {r : Except PyExn Response}
    (finished : t.prog = .ofExcept r) {pre rest : Trace BrokerSig} {tool : ToolAdapter}
    {accessToken : Str} {arguments : Arguments} {result : Json}
    (returned : t.trace = pre ++ ⟨.toolCall tool accessToken arguments, .ok result⟩ :: rest) :
    (∃ o row, r = .ok (.outcome o) ∧ o.status = .success ∧ o.result = result ∧
        rowsBy i c.hist = [row] ∧ row.status = .success) ↔ AllOk rest := by
  have sent := sent_of_result run thread request returned
  obtain ⟨r', rfl, concluded, -⟩ := invocation_over run thread request finished
  rw [rowsBy_eq run thread]
  cases concluded with
  | unresolved _ _ noCall => exact (sent.not_noResult (noResult_of_noCall noCall)).elim
  | @aborted x grant _ _ _ spoiled =>
    refine iff_of_false ?_ (spoiled result rest sent)
    rintro ⟨o, row, same, -⟩
    cases same
  | unacknowledged grant o pre' x closed _ _ trace_eq ended =>
    refine iff_of_false ?_ fun ok => ?_
    · rintro ⟨o', row, same, -⟩
      cases closed <;> · rw [ended] at same; cases same
    · rw [trace_eq] at sent
      obtain ⟨rest', rfl, -⟩ := sent.of_append (by simp [Op.isToolCall])
      obtain ⟨v, raised⟩ := ok ⟨.commit, .error x⟩ (by simp)
      cases raised
  | audited grant o pre' closed _ noAdd _ reported _ trace_eq ended =>
    have rows : tracedRows t.trace = [⟨grant.id, req.toolName, hashArguments lib req.arguments,
        o.status, o.latencyMs⟩] := by
      rw [trace_eq]
      exact tracedRows_recorded noAdd _ (.ok ()) closed
    rw [trace_eq] at sent
    obtain ⟨rest', rfl, sent'⟩ := sent.of_append (by simp [Op.isToolCall])
    constructor
    · rintro ⟨o', row, same, status, result_eq, -, -⟩
      cases closed with
      | error x => rw [ended] at same; cases same
      | ok _ =>
        obtain rfl : o = o' := by
          rw [ended] at same
          cases same
          rfl
        cases reported with
        | performed rest'' _ sent'' clean =>
          obtain ⟨-, rfl⟩ := sent'.unique sent''
          exact clean.append (by simp [AllOk])
        | replayed _ noResult => exact (sent'.not_noResult noResult).elim
        | refused bad _ => exact (bad status).elim
        | lost _ _ bad _ _ => exact (bad status).elim
    · intro ok
      have clean : AllOk rest' := fun e member => ok e (List.mem_append_left _ member)
      cases closed with
      | error x =>
        obtain ⟨v, raised⟩ := ok ⟨.close, .error x⟩ (by simp)
        cases raised
      | ok _ =>
        cases reported with
        | performed rest'' status sent'' _ =>
          obtain ⟨same, -⟩ := sent'.unique sent''
          exact ⟨o, _, by rw [ended]; rfl, status, same.symm, rows, status⟩
        | replayed _ noResult => exact (sent'.not_noResult noResult).elim
        | refused _ noResult => exact (sent'.not_noResult noResult).elim
        | lost _ rest'' _ sent'' dirty =>
          obtain ⟨-, rfl⟩ := sent'.unique sent''
          exact (dirty clean).elim

/-- The provider's result in a trace, with what is before and after it. -/
def splitResult : Trace BrokerSig → Option (Trace BrokerSig × Event BrokerSig × Trace BrokerSig)
  | [] => none
  | e :: tr =>
    match e with
    | ⟨.toolCall .., .ok _⟩ => some ([], e, tr)
    | _ => (splitResult tr).map fun (pre, ev, rest) => (e :: pre, ev, rest)

theorem of_splitResult {tr pre rest : Trace BrokerSig} {e : Event BrokerSig}
    (split : splitResult tr = some (pre, e, rest)) : tr = pre ++ e :: rest ∧
      ∃ tool accessToken arguments result,
        e = ⟨.toolCall tool accessToken arguments, .ok result⟩ := by
  induction tr generalizing pre with
  | nil => cases split
  | cons e' tr ih =>
    unfold splitResult at split
    split at split
    · rename_i tool accessToken arguments result
      cases split
      exact ⟨rfl, tool, accessToken, arguments, result, rfl⟩
    · obtain ⟨⟨pre', ev, rest'⟩, inner, same⟩ := Option.map_eq_some_iff.mp split
      cases same
      obtain ⟨cut, call⟩ := ih inner
      exact ⟨by rw [cut]; rfl, call⟩

/-- A keyed call of the demo is reported as the success that it was. -/
theorem performed_reported_iff_demo : ∃ (c : Broker) (t : Thread BrokerSig Request Response)
    (req : InvokeRequest) (result : Json) (o : InvokeOutcome) (row : ToolCallAuditLog),
    (broker Demo.lib Demo.services false).Reaches (.start (World.fresh Demo.midnight)) c ∧
      c.threads[2]? = some t ∧ t.req = .invoke req ∧ req.idempotencyKey.isSome = true ∧
      t.prog = .ret (.outcome o) ∧ o.status = .success ∧ o.result = result ∧
      rowsBy 2 c.hist = [row] ∧ row.status = .success := by
  have computed : (Demo.played false
      (Demo.issued ++ Demo.invocation [] (some "k") :: Demo.run 2 26)).any (fun c =>
        c.threads[2]?.any fun t => (Demo.settled t).any (·.1.idempotencyKey.isSome) &&
          (splitResult t.trace).any fun split => split.2.2.all Demo.succeeds) = true := by
    decide +kernel
  obtain ⟨c, run, computed⟩ := Demo.reached computed
  obtain ⟨t, thread, computed⟩ := (Option.any_eq_true _ _).mp computed
  simp only [Bool.and_eq_true] at computed
  obtain ⟨settled, split⟩ := computed
  obtain ⟨⟨req, grant⟩, settled, keyed⟩ := (Option.any_eq_true _ _).mp settled
  obtain ⟨⟨pre, e, rest⟩, split, ok⟩ := (Option.any_eq_true _ _).mp split
  obtain ⟨cut, tool, accessToken, arguments, result, rfl⟩ := of_splitResult split
  obtain ⟨request, ⟨r, finished⟩, -⟩ := Demo.of_settled settled
  obtain ⟨o, row, rfl, status, same, rows, reported⟩ :=
    (performed_reported_iff run thread request finished cut).mpr fun e member =>
      Demo.answer_of_succeeds (List.all_eq_true.mp ok e member)
  exact ⟨c, t, req, result, o, row, run, thread, request, keyed, finished, status, same, rows,
    reported⟩

/-- Not a cancellation. -/
def Demo.uncancelled (e : Event BrokerSig) : Bool :=
  match e.ans with
  | .error (.cancelledError _) => false
  | _ => true

/-- Redis fails on the first command after the provider returned a result: the
caller is told that the call failed, and so says the log. -/
theorem performed_unreported_demo : ∃ (c : Broker) (t : Thread BrokerSig Request Response)
    (req : InvokeRequest) (pre rest : Trace BrokerSig) (tool : ToolAdapter) (accessToken : Str)
    (arguments : Arguments) (result : Json) (o : InvokeOutcome),
    (broker Demo.lib Demo.services false).Reaches (.start (World.fresh Demo.midnight)) c ∧
      c.threads[2]? = some t ∧ t.req = .invoke req ∧
      t.trace = pre ++ ⟨.toolCall tool accessToken arguments, .ok result⟩ :: rest ∧
      (∀ e ∈ t.trace, ∀ applied, e.ans ≠ .error (.cancelledError applied)) ∧
      (∀ e ∈ t.trace, e.op.isRedis = false → ∃ v, e.ans = .ok v) ∧
      t.prog = .ret (.outcome o) ∧ o.status = .failed ∧
      (rowsBy 2 c.hist).map (·.status) = [.failed] := by
  have computed : (Demo.played false
      (Demo.issued ++ Demo.invocation [] (some "k") :: Demo.run 2 21 ++
        Demo.raise 2 (.redisError false "timeout") ++ Demo.run 2 6)).any (fun c =>
          (rowsBy 2 c.hist).map (·.status) == [Status.failed] && c.threads[2]?.any fun t =>
            (Demo.outcome t).any (fun ended => decide (ended.2.status = .failed)) &&
            (splitResult t.trace).isSome && t.trace.all fun e => Demo.succeeds e ||
              (e.op.isRedis && Demo.uncancelled e)) = true := by decide +kernel
  obtain ⟨c, run, computed⟩ := Demo.reached computed
  simp only [Bool.and_eq_true, beq_iff_eq] at computed
  obtain ⟨rows, computed⟩ := computed
  obtain ⟨t, thread, computed⟩ := (Option.any_eq_true _ _).mp computed
  simp only [Bool.and_eq_true, List.all_eq_true, Bool.or_eq_true] at computed
  obtain ⟨⟨finished, split⟩, ok⟩ := computed
  obtain ⟨⟨pre, e, rest⟩, split⟩ := Option.isSome_iff_exists.mp split
  obtain ⟨cut, tool, accessToken, arguments, result, rfl⟩ := of_splitResult split
  obtain ⟨⟨req, o⟩, finished, failed⟩ := (Option.any_eq_true _ _).mp finished
  obtain ⟨request, finished⟩ := Demo.of_outcome finished
  refine ⟨c, t, req, pre, rest, tool, accessToken, arguments, result, o, run, thread, request, cut,
    fun e member applied raised => ?_, fun e member other => ?_, finished,
      of_decide_eq_true failed, rows⟩
  · rcases ok e member with ok | ⟨-, other⟩
    · obtain ⟨v, answered⟩ := Demo.answer_of_succeeds ok
      rw [raised] at answered
      cases answered
    · rw [Demo.uncancelled, raised] at other
      cases other
  · rcases ok e member with ok | ⟨redis, -⟩
    · exact Demo.answer_of_succeeds ok
    · rw [other] at redis
      cases redis

end CredBroker
