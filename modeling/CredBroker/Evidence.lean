import CredBroker.Python.Canonical
import CredBroker.Replay

/-!
# Audit evidence

What a success in the audit log is evidence of: a provider call of the same
agent, account and tool that returned a result. It was made with the arguments
whose hash the row carries, unless the row is that of a replay whose key was used
for other arguments before. The hash tells arguments apart up to the order of
their keys.
-/

namespace CredBroker

open Python Interaction

variable {lib : Lib} {svc : Services} {lossy : Bool}

/-! ## The argument hash -/

/-- Two dicts have one canonical serialisation exactly where they are equal up to the
order of keys, at every level, and then only one hash unless SHA-256 collides. -/
theorem hashArguments_canonical {a b : Arguments} (isDict : Json.IsValue (.obj a))
    (isDict' : Json.IsValue (.obj b)) :
    (canonicalArguments a = canonicalArguments b ↔ Json.Same (.obj a) (.obj b)) ∧
      (Set.InjOn lib.sha256 {canonicalArguments a, canonicalArguments b} →
        (hashArguments lib a = hashArguments lib b ↔ Json.Same (.obj a) (.obj b))) := by
  have texts := Json.dumps_canonical_eq_iff isDict isDict'
  refine ⟨texts, fun free => ?_⟩
  rw [← texts]
  exact free.eq_iff (Set.mem_insert _ _) (Set.mem_insert_of_mem _ rfl)

/-- Arguments in another order have one hash, and other arguments another. -/
theorem hashArguments_canonical_demo :
    hashArguments Demo.lib [("q", .str "\""), ("page_size", .int 10)] =
        hashArguments Demo.lib [("page_size", .int 10), ("q", .str "\"")] ∧
      hashArguments Demo.lib [("page_size", .int 10)] ≠ hashArguments Demo.lib [] ∧
      ¬ Json.Same (.obj [("page_size", .int 10)]) (.obj []) := by
  have isDict : ∀ members : Arguments, (members.map (·.1)).Nodup →
      Json.WellFormedMembers Json.asPrinted members → Json.IsValue (.obj members) :=
    fun _ distinct values => ⟨distinct, values⟩
  have differ : hashArguments Demo.lib [("page_size", .int 10)] ≠ hashArguments Demo.lib [] := by
    decide +kernel
  refine ⟨?_, differ, fun same => ?_⟩
  · have texts := (@hashArguments_canonical Demo.lib _ _
      (isDict [("q", .str "\""), ("page_size", .int 10)] (by decide) ⟨trivial, trivial, trivial⟩)
      (isDict [("page_size", .int 10), ("q", .str "\"")] (by decide) ⟨trivial, trivial, trivial⟩)).1
    refine congrArg Demo.lib.sha256 (texts.mpr (.obj (.swap _ _ []) ?_))
    exact .cons _ (.int 10) (.cons _ (.str _) .nil)
  · have hashes := (@hashArguments_canonical Demo.lib _ _
      (isDict [("page_size", .int 10)] (by decide) ⟨trivial, trivial⟩)
      (isDict [] (by decide) trivial)).2
    refine differ ((hashes ?_).mpr same)
    rintro x (rfl | rfl) y (rfl | rfl) hashed
    · rfl
    · exact absurd hashed differ
    · exact absurd hashed.symm differ
    · rfl

/-! ## Committed rows -/

/-- The rows of the log that a run adds are those of its commits. -/
theorem mem_audit {w : World} {c : Broker} (run : (broker lib svc lossy).Reaches (.start w) c)
    {row : ToolCallAuditLog} (member : row ∈ c.world.db.audit) :
    row ∈ w.db.audit ∨ ∃ k ∈ c.hist, row ∈ rowsOf k := by
  rw [audit_eq run] at member
  rcases List.mem_append.mp member with old | new
  · exact .inl old
  · exact .inr (List.mem_flatMap.mp new)

theorem mem_auditRows {rows : List Row} {row : ToolCallAuditLog} :
    row ∈ Database.auditRows rows ↔ .audit row ∈ rows := by
  unfold Database.auditRows
  rw [List.mem_filterMap]
  constructor
  · rintro ⟨r, member, same⟩
    cases r with
    | audit row' =>
      cases same
      exact member
    | _ => cases same
  · exact fun member => ⟨_, member, rfl⟩

/-- Only an invocation adds audit rows, right before it commits them, and a success
among them rests on evidence. -/
theorem rowsOf_evidence {w : World} {c : Broker}
    (run : (broker lib svc lossy).Reaches (.start w) c) {k : Entry BrokerSig World}
    (member : k ∈ c.hist) {row : ToolCallAuditLog} (wrote : row ∈ rowsOf k) :
    ∃ t req grant result pre, c.threads[k.tid]? = some t ∧ k.past <+: t.trace ∧
      t.req = .invoke req ∧ pre <+: k.past ∧ looked lib req grant ∈ pre ∧ row.grantId = grant.id ∧
      row.toolName = req.toolName ∧ row.argumentsHash = hashArguments lib req.arguments ∧
      (row.status = .success → Evidence lib req grant result pre) := by
  obtain ⟨t, thread, sub, guard⟩ := entry_kept run member
  have before : k.past <+: t.trace := (List.prefix_append _ _).trans sub
  have added : k.event.op = .commit ∧ .audit row ∈ (Session.replay k.past).added := by
    obtain ⟨tid, v, past, op, a⟩ := k
    have inserted := mem_auditRows.mp wrote
    cases op with
    | commit =>
      refine ⟨rfl, ?_⟩
      change Row.audit row ∈ if Applied a then _ else [] at inserted
      split at inserted
      · exact inserted
      · cases inserted
    | _ => cases inserted
  obtain ⟨op_eq, added⟩ := added
  rw [op_eq] at guard
  cases request : t.req with
  | invoke req =>
    rw [request] at guard
    cases (show CommitUse lib req k.past from guard) with
    | refresh noAdd =>
      rw [added_of_noAdd noAdd] at added
      cases added
    | audit grant o pre found noAdd evidence past =>
      rw [past, Session.replay_append_singleton] at added
      have only : .audit row ∈ (Session.replay pre).added ++ [Row.audit ⟨grant.id, req.toolName,
          hashArguments lib req.arguments, o.status, o.latencyMs⟩] := added
      rw [added_of_noAdd noAdd, List.nil_append, List.mem_singleton, Row.audit.injEq] at only
      obtain rfl := only
      exact ⟨t, req, grant, o.result, pre, thread, before, request,
        past ▸ List.prefix_append _ _, found, rfl, rfl, rfl, evidence⟩
  | _ =>
    -- no other request adds an audit row
    obtain ⟨pre, a, adds⟩ := Session.mem_replay_added added
    have plain := kept run thread (adds.trans before)
    rw [request] at plain
    first | exact plain.elim | exact plain.1.elim

/-! ## Justified rows -/

/-- The commit `k` of an audit row is justified: the provider call `e` returned a
result before, to the invocation that commits the row or to the one it replays. -/
structure Justifies (lib : Lib) (svc : Services) (c : Broker) (row : ToolCallAuditLog)
    (k : Entry BrokerSig World) (req : InvokeRequest) (grant : Grant) (e : Entry BrokerSig World)
    (req' : InvokeRequest) (grant' : Grant) (tool : ToolAdapter) (result : Json) : Prop where
  wrote : k ∈ c.hist ∧ row ∈ rowsOf k
  thread : ∃ t, c.threads[k.tid]? = some t ∧ t.req = .invoke req
  found : looked lib req grant ∈ k.past ∧ row.grantId = grant.id
  returned : Returned lib c e req' grant' tool result
  order : Precedes c.hist e k
  agent : grant'.agentId = grant.agentId
  account : grant'.connectedAccountId = grant.connectedAccountId
  toolName : req'.toolName = row.toolName
  hash : hashArguments lib req'.arguments = row.argumentsHash
  source : e.tid = k.tid ∨ ∃ value g s, g.tid = k.tid ∧ Precedes c.hist g k ∧
    Replays lib svc c req grant value g s e req' grant' tool result

/-- Audit evidence is sound, as long as no key is used again for other arguments
while its result is stored. -/
theorem audit_sound {w : World} {c : Broker} (run : (broker lib svc lossy).Reaches (.start w) c)
    (vacant : ∀ key, w.redis.table (IdempotencyStore.name key) = none)
    (matched : ∀ req grant value g s e req' grant' tool result,
      Replays lib svc c req grant value g s e req' grant' tool result →
        hashArguments lib req'.arguments = hashArguments lib req.arguments)
    {row : ToolCallAuditLog} (member : row ∈ c.world.db.audit) (success : row.status = .success) :
    row ∈ w.db.audit ∨ ∃ k req grant e req' grant' tool result,
      Justifies lib svc c row k req grant e req' grant' tool result := by
  refine (mem_audit run member).imp_right ?_
  rintro ⟨k, there, wrote⟩
  obtain ⟨t, req, grant, result, pre, thread, before, request, sub, found, names, toolName, hash,
    evidence⟩ := rowsOf_evidence run there wrote
  have found : looked lib req grant ∈ k.past := sub.subset found
  have looking : looked lib req grant ∈ t.trace := before.subset found
  cases evidence success with
  | performed rest sent =>
    obtain ⟨e, tool, returned, owner, order⟩ :=
      Sent.returned run there thread request sent sub found
    exact ⟨k, req, grant, e, req, grant, tool, result, ⟨there, wrote⟩, ⟨t, thread, request⟩,
      ⟨found, names⟩, returned, order, rfl, rfl, toolName.symm, hash.symm, .inl owner⟩
  | replayed key value keyed seen completed parsed tool tool_eq =>
    obtain ⟨g, s, e, req', grant', tool', result', own, looks, replays, -, -⟩ :=
      found_replays run vacant thread request looking keyed (sub.trans before) seen
      completed tool_eq
    obtain ⟨key', -, finds⟩ := replays.finds
    have last : Precedes c.hist g k :=
      run.precedes_of_past finds.precedes.mem_right there own (looks.trans sub)
    have order : Precedes c.hist e k :=
      (replays.order.trans run.hist_nodup finds.precedes).trans run.hist_nodup last
    exact ⟨k, req, grant, e, req', grant', tool', result', ⟨there, wrote⟩, ⟨t, thread, request⟩,
      ⟨found, names⟩, replays.returned, order, replays.same.agent.symm, replays.same.account.symm,
      by rw [← replays.same.toolName, toolName],
      by rw [matched _ _ _ _ _ _ _ _ _ _ replays, hash], .inr ⟨value, g, s, own, last, replays⟩⟩

/-- The arguments of the invocations in a run of the demo. -/
def Demo.asked (c : Broker) : List Arguments :=
  c.threads.filterMap fun t =>
    match t.req with
    | .invoke req => some req.arguments
    | _ => none

theorem Demo.mem_asked {c : Broker} {i : Nat} {t : Thread BrokerSig Request Response}
    (thread : c.threads[i]? = some t) {req : InvokeRequest} (request : t.req = .invoke req) :
    req.arguments ∈ Demo.asked c :=
  List.mem_filterMap.mpr ⟨t, List.mem_of_getElem? thread, by rw [request]⟩

/-- The demo agent repeats a call under its key: both rows are justified. -/
theorem audit_sound_demo : ∃ c : Broker,
    (broker Demo.lib Demo.services false).Reaches (.start (World.fresh Demo.midnight)) c ∧
      c.world.db.audit.map (·.status) = [.success, .success] ∧ (results c.hist).length = 1 ∧
      ∀ row ∈ c.world.db.audit, ∃ k req grant e req' grant' tool result,
        Justifies Demo.lib Demo.services c row k req grant e req' grant' tool result := by
  have computed : (Demo.played false
      (Demo.issued ++ Demo.invocation [] (some "k") :: Demo.run 2 26 ++
        Demo.invocation [] (some "k") :: Demo.run 3 12)).any (fun c =>
          decide (c.world.db.audit.map (·.status) = [.success, .success]) &&
            decide ((results c.hist).length = 1) &&
            (Demo.asked c).all List.isEmpty) = true := by decide +kernel
  obtain ⟨c, run, computed⟩ := Demo.reached computed
  simp only [Bool.and_eq_true, List.all_eq_true, decide_eq_true_eq, List.isEmpty_iff] at computed
  obtain ⟨⟨statuses, once⟩, bare⟩ := computed
  refine ⟨c, run, statuses, once, fun row member => ?_⟩
  have success : row.status = .success := by
    have listed : row.status ∈ c.world.db.audit.map (·.status) := List.mem_map_of_mem member
    rw [statuses] at listed
    simpa using listed
  refine (audit_sound run (fun _ => rfl) ?_ member success).resolve_left List.not_mem_nil
  intro req grant value g s e req' grant' tool result replays
  obtain ⟨t, thread, request, -⟩ := replays.reader
  obtain ⟨t', thread', request'⟩ := replays.returned.thread
  rw [bare _ (Demo.mem_asked thread request), bare _ (Demo.mem_asked thread' request')]

/-- The demo agent uses its key again for other arguments: the log has a success
whose hash is that of arguments which were never sent. -/
theorem audit_unsound_demo : ∃ (c : Broker) (row : ToolCallAuditLog),
    (broker Demo.lib Demo.services false).Reaches (.start (World.fresh Demo.midnight)) c ∧
      row ∈ c.world.db.audit ∧ row.status = .success ∧
      ∀ e req' grant' tool result, Returned Demo.lib c e req' grant' tool result →
        hashArguments Demo.lib req'.arguments ≠ row.argumentsHash := by
  have computed : (Demo.played false
      (Demo.issued ++ Demo.invocation [] (some "k") :: Demo.run 2 26 ++
        Demo.invocation [("page_size", .int 10)] (some "k") :: Demo.run 3 12)).any (fun c =>
          c.world.db.audit.any (fun row => decide (row.status = .success) &&
            c.hist.all fun e => (Demo.argumentsOf e.event).all fun arguments =>
              decide (hashArguments Demo.lib arguments ≠ row.argumentsHash))) = true := by
    decide +kernel
  obtain ⟨c, run, computed⟩ := Demo.reached computed
  obtain ⟨row, member, computed⟩ := List.any_eq_true.mp computed
  simp only [Bool.and_eq_true, List.all_eq_true, decide_eq_true_eq] at computed
  obtain ⟨success, unsent⟩ := computed
  refine ⟨c, row, run, member, success, fun e req' grant' tool result returned => ?_⟩
  obtain ⟨accessToken, call⟩ := returned.call
  have differs := unsent e returned.member
  rw [call] at differs
  exact of_decide_eq_true differs

end CredBroker
