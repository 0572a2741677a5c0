import CredBroker.Invocation.Replayed
import CredBroker.Stored

/-!
# Replays

What stands behind an outcome from the cache: the provider call of another
invocation by the same agent, account, tool and key, whose result was stored
within the window before. The caller is given that result as long as it is one
that `outcome.result or {}` leaves as it is.
-/

namespace CredBroker

open Python Interaction

variable {lib : Lib} {svc : Services} {lossy : Bool}

/-! ## Origins -/

/-- The provider call `e` of an invocation returned `result`. -/
structure Returned (lib : Lib) (c : Broker) (e : Entry BrokerSig World) (req : InvokeRequest)
    (grant : Grant) (tool : ToolAdapter) (result : Json) : Prop where
  member : e ∈ c.hist
  thread : ∃ t, c.threads[e.tid]? = some t ∧ t.req = .invoke req
  found : looked lib req grant ∈ e.past
  tool_eq : getTool req.toolName = .ok tool
  call : ∃ accessToken, e.event = ⟨.toolCall tool accessToken req.arguments, .ok result⟩

/-- Two invocations of one agent, for one account, one tool and one key. -/
structure SameKey (req req' : InvokeRequest) (grant grant' : Grant) : Prop where
  agent : grant.agentId = grant'.agentId
  account : grant.connectedAccountId = grant'.connectedAccountId
  toolName : req.toolName = req'.toolName
  key : req.idempotencyKey = req'.idempotencyKey

/-- The look `g` of an invocation finds what `s` stored, after the provider had
returned it as `e`. -/
structure Replays (lib : Lib) (svc : Services) (c : Broker) (req : InvokeRequest) (grant : Grant)
    (value : Str) (g s e : Entry BrokerSig World) (req' : InvokeRequest) (grant' : Grant)
    (tool : ToolAdapter) (result : Json) : Prop where
  reader : ∃ t, c.threads[g.tid]? = some t ∧ t.req = .invoke req ∧ looked lib req grant ∈ t.trace
  finds : ∃ key, req.idempotencyKey = some key ∧
    Finds lib svc c (fullKey req grant key) value g s req' grant' result
  returned : Returned lib c e req' grant' tool result
  owner : e.tid = s.tid
  order : Precedes c.hist e s
  same : SameKey req req' grant grant'

section Origins

variable {w : World} {c : Broker} (run : (broker lib svc lossy).Reaches (.start w) c)

include run

/-- A result that an invocation has before an entry was returned to it before. -/
theorem Sent.returned {k : Entry BrokerSig World} (member : k ∈ c.hist)
    {t : Thread BrokerSig Request Response} (thread : c.threads[k.tid]? = some t)
    {req : InvokeRequest} (request : t.req = .invoke req) {grant : Grant} {result : Json}
    {rest tr : Trace BrokerSig} (sent : Sent req result rest tr) (before : tr <+: k.past)
    (found : looked lib req grant ∈ k.past) :
    ∃ e tool, Returned lib c e req grant tool result ∧ e.tid = k.tid ∧ Precedes c.hist e k := by
  obtain ⟨pre, tool, accessToken, split, -, -⟩ := sent
  obtain ⟨h, after, cut⟩ := List.append_of_mem member
  have sub : pre ++ [⟨.toolCall tool accessToken req.arguments, .ok result⟩] <+: k.past :=
    (show _ <+: tr from ⟨rest, by simp [split]⟩).trans before
  obtain ⟨v, earlier⟩ := run.precedes cut sub
  have there : (⟨k.tid, v, pre, ⟨.toolCall tool accessToken req.arguments, .ok result⟩⟩ :
      Entry BrokerSig World) ∈ c.hist := by
    rw [cut]
    exact List.mem_append_left _ earlier
  obtain ⟨t', req', grant', tool', accessToken', thread', -, request', op_eq, -, mediated⟩ :=
    entry_mediated run there rfl
  obtain rfl := Option.some.inj (thread.symm.trans thread')
  obtain rfl : req = req' := by
    rw [request] at request'
    exact Request.invoke.inj request'
  obtain ⟨rfl, rfl, -⟩ := Op.toolCall.inj op_eq
  -- the row that it looked up is the one it has now
  have whole : k.past <+: t.trace := by
    obtain ⟨u, running, grown⟩ := run.owned member
    obtain rfl := Option.some.inj (thread.symm.trans running)
    exact (List.prefix_append _ _).trans grown
  obtain ⟨now, inside, -, -⟩ := mediated.admitted.live
  have looking : looked lib req grant' ∈ pre := inside.subset (by simp)
  obtain rfl : grant' = grant := looked_unique run thread request
    (whole.subset (sub.subset (List.mem_append_left _ looking))) (whole.subset found)
  exact ⟨_, tool, ⟨there, ⟨t, thread, request⟩, looking, mediated.admitted.tool_eq, accessToken,
    rfl⟩, rfl, h, after, cut, earlier⟩

/-- A completed result that an invocation finds under its key has an origin. -/
theorem found_replays (vacant : ∀ key, w.redis.table (IdempotencyStore.name key) = none) {i : Nat}
    {t : Thread BrokerSig Request Response} (thread : c.threads[i]? = some t)
    {req : InvokeRequest} (request : t.req = .invoke req) {grant : Grant}
    (found : looked lib req grant ∈ t.trace) {key value : Str} {tool : ToolAdapter}
    (keyed : req.idempotencyKey = some key) {tr : Trace BrokerSig} (sub : tr <+: t.trace)
    (seen : ⟨.redis (.get (IdempotencyStore.name (fullKey req grant key))), .ok (some value)⟩ ∈ tr)
    (completed : IdempotencyStore.isPending value = false)
    (tool_eq : getTool req.toolName = .ok tool) :
    ∃ g s e req' grant' tool' result, g.tid = i ∧ g.past ++ [g.event] <+: tr ∧
      Replays lib svc c req grant value g s e req' grant' tool' result ∧
      s.pre.now ≤ g.pre.now ∧ ∀ store, svc.idempotencyStore = some store →
        g.pre.now ≤ s.pre.now + seconds store.windowSeconds := by
  obtain ⟨pre, post, cut⟩ := List.append_of_mem seen
  have looks : pre ++ [⟨.redis (.get (IdempotencyStore.name (fullKey req grant key))),
      .ok (some value)⟩] <+: tr := ⟨post, by simp [cut]⟩
  obtain ⟨v, member⟩ := entry_at run thread (looks.trans sub)
  obtain ⟨s, req', grant', result, finds, after, within⟩ :=
    found_storedBy run vacant member rfl completed
  obtain ⟨u, running, request'⟩ := finds.thread
  obtain ⟨rest, sent⟩ := finds.sent
  obtain ⟨e, tool', returned, owner, order⟩ :=
    Sent.returned run finds.member running request' sent List.prefix_rfl finds.found
  obtain ⟨key', keyed', same⟩ := finds.keyed
  obtain ⟨agent, account, toolName, keys⟩ := fullKey_inj returned.tool_eq tool_eq same
  exact ⟨_, s, e, req', grant', tool', result, rfl, looks,
    ⟨⟨t, thread, request, found⟩, ⟨key, keyed, finds⟩, returned, owner, order, agent.symm,
      account.symm, toolName.symm, by rw [keyed, keyed', keys]⟩, after, within⟩

/-- An invocation that is over with an outcome from the cache replays it. -/
theorem replayed_of_over {i : Nat} {t : Thread BrokerSig Request Response}
    (thread : c.threads[i]? = some t) {req : InvokeRequest} (request : t.req = .invoke req)
    {o : InvokeOutcome} (finished : t.prog = .ret (.outcome o)) (cached : o.fromCache = true) :
    Replayed lib req t.trace o := by
  have entry : wp (broker lib svc lossy) freeRole (serve lib svc (.invoke req))
      (fun r tr => ∃ r', r = r'.map .outcome ∧ cachePost lib req r' tr) [] :=
    wp_map (wp_mono (wp_invoke_replayed lib svc req) fun r tr _ ended => ⟨r, rfl, ended⟩)
  have under := Machine.Reaches.under_start run thread (request ▸ entry) (Role.met_guarding _ _)
  rw [finished] at under
  obtain ⟨r, same, ended⟩ := under
  cases r with
  | error x => cases same
  | ok o' =>
    cases same
    exact ended o rfl cached

/-- The invocation whose result is stored had a result of its own. -/
theorem StoredBy.ne {key value : Str} {s : Entry BrokerSig World} {req : InvokeRequest}
    {grant : Grant} {result : Json} (stored : StoredBy lib svc c key value s req grant result)
    {i : Nat} {t : Thread BrokerSig Request Response} (thread : c.threads[i]? = some t)
    (noResult : NoResult t.trace) : s.tid ≠ i := by
  rintro rfl
  obtain ⟨u, there, grown⟩ := run.owned stored.member
  obtain rfl := Option.some.inj (thread.symm.trans there)
  obtain ⟨rest, pre, tool, accessToken, split, -, -⟩ := stored.sent
  refine noResult tool accessToken req.arguments result (grown.subset ?_)
  simp [split]

end Origins

/-! ## Faithful replays -/

/-- A result that `outcome.result or {}` leaves as it is. -/
def Storable (result : Json) : Prop := result.truthy = true ∨ result = .obj []

theorem storedResult_eq_iff {result : Json} : storedResult result = result ↔ Storable result := by
  unfold storedResult Storable
  split
  · simp [*]
  · rename_i falsy
    exact ⟨fun same => .inr same.symm, fun is => (is.resolve_left falsy).symm⟩

/-- What `response.json()` yields is parsed from a text. -/
def Parsed (lib : Lib) (hist : List (Entry BrokerSig World)) : Prop :=
  ∀ e ∈ hist, ∀ tool accessToken arguments result,
    e.event = ⟨.toolCall tool accessToken arguments, .ok result⟩ →
      ∃ text, Json.loads lib.floatRepr text = some result

/-- A replay equals the original answer. Where the provider returns no falsy value
but the empty object to an invocation with a key, and a result is stored at most
`delay` after it was returned, an invocation that answers from the cache gives
what the provider call of an earlier invocation by the same agent, account, tool
and key returned, at most the window and that delay before it looked. -/
theorem replay_faithful
    (printed : ∀ text, lib.floatRepr (lib.floatRepr text).val = lib.floatRepr text) {w : World}
    {c : Broker} (run : (broker lib svc lossy).Reaches (.start w) c)
    (vacant : ∀ key, w.redis.table (IdempotencyStore.name key) = none)
    (parsed : Parsed lib c.hist)
    (storable : ∀ e req grant tool result, Returned lib c e req grant tool result →
      req.idempotencyKey.isSome = true → Storable result)
    {delay : Time} (prompt : ∀ req grant value g s e req' grant' tool result,
      Replays lib svc c req grant value g s e req' grant' tool result →
        s.pre.now ≤ e.pre.now + delay)
    {i : Nat} {t : Thread BrokerSig Request Response} (thread : c.threads[i]? = some t)
    {req : InvokeRequest} (request : t.req = .invoke req) {o : InvokeOutcome}
    (finished : t.prog = .ret (.outcome o)) (cached : o.fromCache = true) :
    ∃ store grant g e req' grant' tool, svc.idempotencyStore = some store ∧
      looked lib req grant ∈ t.trace ∧ g.tid = i ∧ Precedes c.hist e g ∧ e.tid ≠ i ∧
      Returned lib c e req' grant' tool o.result ∧ SameKey req req' grant grant' ∧
      g.pre.now ≤ e.pre.now + delay + seconds store.windowSeconds := by
  obtain ⟨noResult, grant, key, value, tool, found, keyed, seen, completed, loaded, tool_eq⟩ :=
    replayed_of_over run thread request finished cached
  obtain ⟨g, s, e, req', grant', tool', result, own, -, replays, -, within⟩ :=
    found_replays run vacant thread request found keyed List.prefix_rfl seen completed tool_eq
  obtain ⟨key', -, finds⟩ := replays.finds
  obtain ⟨store, stored, -⟩ := finds.write
  -- the text that was stored is parsed back
  have kept : Storable result := by
    refine storable e req' grant' tool' result replays.returned ?_
    rw [← replays.same.key, keyed]
    rfl
  have formed : Json.WellFormed lib.floatRepr result := by
    obtain ⟨accessToken, call⟩ := replays.returned.call
    obtain ⟨text, text_eq⟩ := parsed e replays.returned.member _ _ _ _ call
    exact Json.loads_wellFormed printed text_eq
  have same : o.result = result := by
    rw [finds.value_eq, storedResult_eq_iff.mpr kept, Json.loads_dumps formed] at loaded
    exact (Option.some.inj loaded).symm
  refine ⟨store, grant, g, e, req', grant', tool', stored, found, own,
    replays.order.trans run.hist_nodup finds.precedes, ?_, same ▸ replays.returned,
    replays.same, ?_⟩
  · rw [replays.owner]
    exact finds.toStoredBy.ne run thread noResult
  · exact Int.le_trans (within store stored) (Int.add_le_add_right
      (prompt req grant value g s e req' grant' tool' result replays) _)

/-- What a program of the demo returned, if it served an invocation from the cache. -/
def Demo.cached (t : Thread BrokerSig Request Response) : Option InvokeOutcome :=
  (Demo.outcome t).bind fun ended => if ended.2.fromCache then some ended.2 else none

theorem Demo.of_cached {t : Thread BrokerSig Request Response} {o : InvokeOutcome}
    (cached : Demo.cached t = some o) :
    ∃ req, t.req = .invoke req ∧ t.prog = .ret (.outcome o) ∧ o.fromCache = true := by
  obtain ⟨⟨req, o'⟩, is, cached⟩ := Option.bind_eq_some_iff.mp cached
  obtain ⟨request, finished⟩ := Demo.of_outcome is
  split at cached
  · rename_i replayed
    obtain rfl := Option.some.inj cached
    exact ⟨req, request, finished, replayed⟩
  · cases cached

/-- The results that the provider returned. -/
def results (hist : List (Entry BrokerSig World)) : List Json :=
  hist.filterMap fun e =>
    match e.event with
    | ⟨.toolCall .., .ok result⟩ => some result
    | _ => none

theorem mem_results {hist : List (Entry BrokerSig World)} {e : Entry BrokerSig World}
    (member : e ∈ hist) {tool : ToolAdapter} {accessToken : Str} {arguments : Arguments}
    {result : Json} (call : e.event = ⟨.toolCall tool accessToken arguments, .ok result⟩) :
    result ∈ results hist :=
  List.mem_filterMap.mpr ⟨e, member, by rw [call]⟩

/-- What the provider of the demo answers with. -/
def Demo.isListing : Json → Bool
  | .obj [(key, .arr [])] => decide (key = "files")
  | _ => false

theorem Demo.of_isListing {result : Json} (is : Demo.isListing result = true) :
    result = .obj [("files", .arr [])] := by
  unfold isListing at is
  split at is
  · rw [of_decide_eq_true is]
  · cases is

/-- A listing is replayed to the demo agent as it was returned. -/
theorem replay_faithful_demo : ∃ (c : Broker) (t : Thread BrokerSig Request Response)
    (req : InvokeRequest) (o : InvokeOutcome) (grant : Grant) (g e : Entry BrokerSig World)
    (req' : InvokeRequest) (grant' : Grant) (tool : ToolAdapter),
    (broker Demo.lib Demo.services false).Reaches (.start (World.fresh Demo.midnight)) c ∧
      c.threads[3]? = some t ∧ t.req = .invoke req ∧ t.prog = .ret (.outcome o) ∧
      o.fromCache = true ∧ e.tid ≠ 3 ∧ Returned Demo.lib c e req' grant' tool o.result ∧
      SameKey req req' grant grant' ∧ g.pre.now ≤ e.pre.now + seconds 3600 := by
  have computed : (Demo.played false
      (Demo.issued ++ Demo.invocation [] (some "k") :: Demo.run 2 26 ++
        Demo.invocation [] (some "k") :: Demo.run 3 12)).any (fun c =>
          c.hist.all (fun e => decide (e.pre.now = Demo.midnight)) &&
            (results c.hist).all Demo.isListing &&
            c.threads[3]?.any fun t => (Demo.cached t).isSome) = true := by decide +kernel
  obtain ⟨c, run, computed⟩ := Demo.reached computed
  simp only [Bool.and_eq_true, List.all_eq_true, decide_eq_true_eq] at computed
  obtain ⟨⟨still, listings⟩, computed⟩ := computed
  obtain ⟨t, thread, computed⟩ := (Option.any_eq_true _ _).mp computed
  obtain ⟨o, computed⟩ := Option.isSome_iff_exists.mp computed
  obtain ⟨req, request, finished, cached⟩ := Demo.of_cached computed
  have listing : ∀ e ∈ c.hist, ∀ tool accessToken arguments result,
      e.event = ⟨.toolCall tool accessToken arguments, .ok result⟩ →
        result = .obj [("files", .arr [])] := by
    intro e member tool accessToken arguments result call
    exact Demo.of_isListing (listings result (mem_results member call))
  have prompt : ∀ req grant value g s e req' grant' tool result,
      Replays Demo.lib Demo.services c req grant value g s e req' grant' tool result →
        s.pre.now ≤ e.pre.now + (0 : Int) := by
    intro req grant value g s e req' grant' tool result replays
    obtain ⟨key, -, finds⟩ := replays.finds
    rw [still s finds.member, still e replays.returned.member]
    exact Int.le_refl _
  obtain ⟨store, grant, g, e, req', grant', tool, stored, -, -, -, other, returned, same, within⟩ :=
    replay_faithful (fun _ => rfl) run (fun _ => rfl)
      (fun e member tool accessToken arguments result call => by
        rw [listing e member _ _ _ _ call]
        exact ⟨_, Json.loads_dumps ⟨List.nodup_singleton _, trivial, trivial⟩⟩)
      (fun e req grant tool result returned _ => by
        obtain ⟨accessToken, call⟩ := returned.call
        rw [listing e returned.member _ _ _ _ call]
        exact .inl rfl)
      prompt thread request finished cached
  cases stored
  rw [Int.add_zero] at within
  exact ⟨c, t, req, o, grant, g, e, req', grant', tool, run, thread, request, finished,
    cached, other, returned, same, within⟩

/-- An empty list. -/
def Demo.isEmpty : Json → Bool
  | .arr [] => true
  | _ => false

theorem Demo.of_isEmpty {result : Json} (is : Demo.isEmpty result = true) : result = .arr [] := by
  unfold isEmpty at is
  split at is
  · rfl
  · cases is

/-- The provider answers with an empty list, and the replay gives an empty object,
which no provider call returned. -/
theorem replay_altered_demo : ∃ (c : Broker) (t : Thread BrokerSig Request Response)
    (req : InvokeRequest) (o : InvokeOutcome),
    (broker Demo.lib Demo.services false).Reaches (.start (World.fresh Demo.midnight)) c ∧
      c.threads[3]? = some t ∧ t.req = .invoke req ∧ t.prog = .ret (.outcome o) ∧
      o.fromCache = true ∧ Parsed Demo.lib c.hist ∧
      ∀ e req' grant' tool, ¬ Returned Demo.lib c e req' grant' tool o.result := by
  have computed : (Demo.played false
      (Demo.issued ++ Demo.invocation [] (some "k") :: Demo.call 2 26 (.arr []) ++
        Demo.invocation [] (some "k") :: Demo.run 3 12)).any (fun c =>
          (results c.hist).all Demo.isEmpty &&
          c.threads[3]?.any fun t => (Demo.cached t).any fun o => !Demo.isEmpty o.result) =
        true := by
    decide +kernel
  obtain ⟨c, run, computed⟩ := Demo.reached computed
  simp only [Bool.and_eq_true, List.all_eq_true] at computed
  obtain ⟨empty, computed⟩ := computed
  obtain ⟨t, thread, computed⟩ := (Option.any_eq_true _ _).mp computed
  obtain ⟨o, computed, altered⟩ := (Option.any_eq_true _ _).mp computed
  obtain ⟨req, request, finished, cached⟩ := Demo.of_cached computed
  have listing : ∀ e ∈ c.hist, ∀ tool accessToken arguments result,
      e.event = ⟨.toolCall tool accessToken arguments, .ok result⟩ → result = .arr [] := by
    intro e member tool accessToken arguments result call
    exact Demo.of_isEmpty (empty result (mem_results member call))
  refine ⟨c, t, req, o, run, thread, request, finished, cached, ?_, ?_⟩
  · intro e member tool accessToken arguments result call
    rw [listing e member _ _ _ _ call]
    exact ⟨_, Json.loads_dumps trivial⟩
  · intro e req' grant' tool returned
    obtain ⟨accessToken, call⟩ := returned.call
    rw [listing e returned.member _ _ _ _ call] at altered
    exact absurd altered (by decide)

end CredBroker
