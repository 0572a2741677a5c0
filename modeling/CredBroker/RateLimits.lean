import CredBroker.Breakers
import CredBroker.Names
import CredBroker.RateWindow

/-!
# The rate limits of a broker

Invocations and grant requests of all servers are counted in one Redis, between markers
and stored results. In every window the counter of an agent lets through as many as its
limit allows: no provider is called, and no grant issued, besides those.
-/

namespace CredBroker

open Python Interaction

variable {lib : Lib} {svc : Services} {lossy : Bool}

/-! ## Counters are hit on the clock -/

/-- A counter is hit right after its window was read off the clock, and given its end right
after its first hit. -/
def Dated (last : Option (Event BrokerSig)) (e : Op) : Prop :=
  e.isUncounted = true ∨
    (∃ key now, last = some ⟨.clock, .ok now⟩ ∧
      e = .redis (.incr (RateLimiter.counterKey key (now / seconds RateLimiter.windowSeconds)))) ∨
    ∃ name, last = some ⟨.redis (.incr name), .ok (1 : Int)⟩ ∧
      e = .redis (.expire name RateLimiter.windowSeconds)

section Programs

variable {α : Type} {p : BrokerProg α} {last : Option (Event BrokerSig)} {req : InvokeRequest}
  {grant : Grant} {tokenHash : Str} {start : Time}

theorem dated_uncounted (uses : Within p Op.isUncounted) : p.Follows Dated last :=
  .of_uses uses fun _ _ => .inl

theorem dated_refused {status : Status} {msg : Str} {reason : Option DeniedReason} :
    (refused start status msg reason).Follows Dated last :=
  dated_uncounted ((refused_uses ..).mono fun {e} plain => by
    cases e <;> first | rfl | cases plain)

/-- A check reads the clock, hits the counter of that window and may make it expire. -/
theorem dated_check (key : Str) (limit : Int) :
    (RateLimiter.check key limit).Follows Dated last := by
  refine ⟨.inl rfl, fun a => ?_⟩
  cases a with
  | error x => trivial
  | ok now =>
    refine ⟨.inr (.inl ⟨key, now, rfl, rfl⟩), fun a => ?_⟩
    cases a with
    | error x => trivial
    | ok count =>
      refine .ite (fun first => ?_) fun _ => trivial
      obtain rfl : count = 1 := first
      exact ⟨.inr (.inr ⟨_, rfl, rfl⟩), fun a => by cases a <;> trivial⟩

theorem markedRevoked_uncounted : Within (markedRevoked svc tokenHash) Op.isUncounted :=
  .ite (fun _ => .bind (within_op rfl) fun _ => trivial) fun _ => trivial

theorem dated_keyed (uses : Within p Op.isKeyed) : p.Follows Dated last :=
  dated_uncounted (uses.mono fun {e} keyed => by
    cases e with
    | redis cmd =>
      have family : cmd.name.take 2 = "id" := of_decide_eq_true keyed
      apply decide_eq_true
      rw [family]
      decide
    | _ => rfl)

theorem executeCall_uncounted {tool : ToolAdapter} :
    Within (executeCall lib svc req grant (hashToken lib req.grantToken) tool start)
      Op.isUncounted :=
  executeCall_looks.mono fun {e} executes => by
    cases e with
    | redis cmd =>
      cases cmd with
      | existsKey name =>
        obtain rfl := of_decide_eq_true executes
        rfl
      | _ => cases executes
    | _ => rfl

theorem invokeResolved_dated {fastRevoked : Bool} :
    (invokeResolved lib svc req grant (hashToken lib req.grantToken) start fastRevoked).Follows
      Dated last := by
  refine .ite (fun _ => dated_refused) fun _ =>
    .bind (dated_uncounted (within_op rfl)) fun now last => .ite (fun _ => dated_refused) fun _ =>
    .bind (.ite (fun _ => dated_check ..) fun _ => trivial) fun allowed last =>
    .ite (fun _ => dated_refused) fun _ => ?_
  split
  · exact dated_refused
  · trivial
  · refine .ite (fun _ => dated_refused) fun _ => ?_
    split
    · refine .bind (dated_keyed claimKey_keyed) fun claimed last => ?_
      split
      · trivial
      · refine .bind (dated_uncounted executeCall_uncounted).attempt fun ended last => ?_
        split
        · exact .ite (fun _ => .bind (dated_keyed release_keyed) fun _ _ => trivial)
            fun _ => trivial
        · exact .bind (dated_keyed settle_keyed) fun _ _ => trivial
    · exact dated_uncounted executeCall_uncounted

theorem invokeGranted_dated : (invokeGranted lib svc req start).Follows Dated last := by
  refine .bind (dated_uncounted markedRevoked_uncounted) fun fastRevoked last =>
    .bind (dated_uncounted (within_op rfl)) fun found last => ?_
  split
  · exact dated_refused
  · refine .bind (.bind invokeResolved_dated.attempt fun ended last => ?_) fun outcome last =>
      .bind (.bind (dated_uncounted (within_op rfl)) fun _ _ =>
        dated_uncounted (within_op rfl)) fun _ _ => trivial
    split
    · trivial
    · exact .ite (fun _ => .bind (dated_uncounted (within_op rfl)) fun _ _ => dated_refused)
        fun _ => trivial

theorem invoke_dated : (invoke lib svc req).Follows Dated last := by
  refine .bind (dated_uncounted (within_op rfl)) fun start last =>
    .bind (.attempt (.bind (dated_uncounted (within_op rfl)) fun now _ =>
      dated_uncounted (Prog.uses_ofExcept _))) fun verified last => ?_
  split
  · exact dated_refused
  · exact dated_refused
  · trivial
  · exact .ite (fun _ => dated_refused) fun _ => .bind invokeGranted_dated.attempt
      fun ended _ => .bind (dated_uncounted (within_op rfl)) fun _ _ =>
        dated_uncounted (Prog.uses_ofExcept _)

theorem requestGrant_dated (agentId : Uuid) (toolName scope : Str) :
    (requestGrant lib svc agentId toolName scope).Follows Dated last := by
  refine .bind (.ite (fun _ => .bind (dated_check ..) fun allowed _ =>
    .ite (fun _ => trivial) fun _ => trivial) fun _ => trivial) fun _ _ => dated_uncounted ?_
  refine .bind (within_op rfl) fun found => ?_
  split
  · trivial
  · refine .bind (Prog.uses_ofExcept _) fun tool => .bind (within_op rfl) fun account => ?_
    split
    · trivial
    · exact .bind (within_op rfl) fun now => .bind (within_op rfl) fun count =>
        .ite (fun _ => trivial) fun _ => .bind (within_op rfl) fun id =>
        .bind (Prog.uses_ofExcept _) fun expiresAt => .bind (Prog.uses_ofExcept _) fun token =>
        .bind (within_op rfl) fun _ => .bind (within_op rfl) fun _ =>
        .ite (fun _ => .bind (.bind (within_op rfl) fun _ => trivial) fun _ => trivial)
        fun _ => trivial

end Programs

/-- So does every request that comes to a counter at all. -/
theorem serve_dated (r : Request) : (serve lib svc r).Follows Dated none := by
  cases r with
  | invoke req => exact .bind invoke_dated fun _ _ => trivial
  | requestGrant agentId toolName scope =>
    exact .bind (.bind (requestGrant_dated agentId toolName scope).attempt fun ended _ =>
      dated_uncounted (.bind (within_op rfl) fun _ => Prog.uses_ofExcept _)) fun _ _ => trivial
  | _ =>
    apply dated_uncounted
    apply (serve_clerical _ _).mono Op.isUncounted_of_isClerical <;> exact nofun

/-! ## Grants are added within a budget -/

/-- The limiter, where there is one, allowed a request for a grant. -/
def Budgeted (svc : Services) (agentId : Uuid) (tr : Trace BrokerSig) : Prop :=
  svc.rateLimiter = true → ∃ window count,
    ⟨.redis (.incr (RateLimiter.counterKey (Metered.grants.key agentId) window)), .ok count⟩ ∈ tr ∧
      count ≤ svc.settings.grantsPerMinutePerAgent

/-- A grant is added for the agent that asked, within its budget. -/
def budgetGuard (svc : Services) : Request → Trace BrokerSig → Op → Prop
  | .requestGrant agentId _ _ => fun tr e => ∀ grant, e = .add (.grant grant) →
      grant.agentId = agentId ∧ Budgeted svc agentId tr
  | _ => fun _ _ => True

/-- A grant is added for one agent only. -/
def AddsFor (agentId : Uuid) (e : Op) : Prop :=
  ∀ grant, e = .add (.grant grant) → grant.agentId = agentId

abbrev budgetRole (svc : Services) (r : Request) : Role BrokerSig := .guarding (budgetGuard svc r)

section Budget

variable {agentId : Uuid} {toolName scope : Str}

theorem budgetGuard_of_not {r : Request} {tr : Trace BrokerSig} {e : Op}
    (other : e.isAddGrant = false) : (budgetRole svc r).Guard tr e := by
  cases r with
  | requestGrant agentId toolName scope =>
    rintro grant rfl
    cases other
  | _ => trivial

theorem op_addsFor {e : Op} (other : e.isAddGrant = false) : (op e).Uses (AddsFor agentId) :=
  (Prog.uses_perform _).mpr (by rintro grant rfl; cases other)

/-- A request adds a grant after it was let through. -/
theorem wp_grantBudget :
    wp (broker lib svc lossy) (budgetRole svc (.requestGrant agentId toolName scope))
      (checkGrantRate svc agentId) (fun r tr => r = .ok () → Budgeted svc agentId tr) [] := by
  unfold checkGrantRate
  split
  · refine ⟨budgetGuard_of_not rfl, fun a _ _ => ?_⟩
    cases a with
    | error x => exact nofun
    | ok now =>
      refine ⟨budgetGuard_of_not rfl, fun a _ _ => ?_⟩
      cases a with
      | error x => exact nofun
      | ok count =>
        -- both ways of answering come down to the count
        have answers (tr : Trace BrokerSig) (hit : ⟨.redis (.incr (RateLimiter.counterKey
            (Metered.grants.key agentId) (now / seconds RateLimiter.windowSeconds))),
            .ok count⟩ ∈ tr) :
            wp (broker lib svc lossy) (budgetRole svc (.requestGrant agentId toolName scope))
              (if !decide (count ≤ svc.settings.grantsPerMinutePerAgent) then
                .throw (.rateLimitedError "grant request rate limit exceeded") else return ())
              (fun r tr => r = .ok () → Budgeted svc agentId tr) tr := by
          split
          · exact nofun
          · rename_i allowed
            exact fun _ _ => ⟨_, count, hit, by simpa using allowed⟩
        show wp _ _ ((if _ then _ else _) >>= _) _ _
        rw [wp_bind]
        split
        · refine ⟨budgetGuard_of_not rfl, fun a _ _ => ?_⟩
          cases a with
          | error x => exact nofun
          | ok done =>
            exact answers _ (List.mem_append_left _ (List.mem_append_right _ List.mem_cons_self))
        · exact answers _ (List.mem_append_right _ List.mem_cons_self)
  · rename_i unlimited
    exact fun _ limited => absurd limited unlimited

variable (lib svc) in
/-- Every program that adds a grant was let through for the agent of that grant. -/
theorem wp_serve_budget (r : Request) :
    wp (broker lib svc lossy) (budgetRole svc r) (serve lib svc r) (fun _ _ => True) [] := by
  cases r with
  | requestGrant agentId toolName scope =>
    apply wp_map
    refine wp_mono (wp_withSession (Q := fun _ _ => True) (fun _ => budgetGuard_of_not rfl) ?_)
      fun _ _ _ _ => trivial
    show wp _ _ (checkGrantRate svc agentId >>= _) _ _
    rw [wp_bind]
    refine wp_mono wp_grantBudget fun r tr _ budgeted => ?_
    cases r with
    | error x => exact fun _ _ => trivial
    | ok _ =>
      have budgeted := budgeted rfl
      refine wp_invariant (P := AddsFor agentId) (J := Budgeted svc agentId) ?_
        (fun tr e budgeted _ limited => ?_)
        (fun tr e budgeted same grant added => ⟨same grant added, budgeted⟩) budgeted
        fun _ _ _ _ _ _ => trivial
      · refine .bind (op_addsFor rfl) fun found => ?_
        split
        · trivial
        · refine .bind (Prog.uses_ofExcept _) fun tool => .bind (op_addsFor rfl) fun account => ?_
          split
          · trivial
          · refine .bind (op_addsFor rfl) fun now => .bind (op_addsFor rfl) fun count =>
              .ite (fun _ => trivial) fun _ => .bind (op_addsFor rfl) fun id =>
              .bind (Prog.uses_ofExcept _) fun expiresAt =>
              .bind (Prog.uses_ofExcept _) fun token => .bind ?_ fun _ =>
              .bind (op_addsFor rfl) fun _ =>
              .ite (fun _ => .bind (.bind (op_addsFor rfl) fun _ => trivial) fun _ => trivial)
                fun _ => trivial
            apply (Prog.uses_perform _).mpr
            rintro grant ⟨⟩
            rfl
      · obtain ⟨window, count, hit, below⟩ := budgeted limited
        exact ⟨window, count, List.mem_append_left _ hit, below⟩
  | _ => exact wp_free fun _ _ => trivial

end Budget

/-! ## Windows -/

/-- The windows of a key. -/
def paceOf (key : Str) : RateCheck := ⟨key, 0, RateLimiter.windowSeconds, by decide⟩

/-- A counter is hit in the window that it is named after. -/
def Timely (c : Broker) : Prop := ∀ e ∈ c.hist, ∀ key index,
  e.event.op = .redis (.incr (RateLimiter.counterKey key index)) →
    (paceOf key).index e.pre.now = index

/-- The entries that add to a counter, oldest first. -/
def hitsIn (hist : List (Entry BrokerSig World)) (name : Str) : List (Entry BrokerSig World) :=
  hist.filter fun e => hits name e.event

/-- A counter holds the number of its hits until its window is over, and each was answered by
its place among them. -/
structure Metering (name : Str) (closing : Time) (w : World) (hist : List (Entry BrokerSig World)) :
    Prop where
  tallied : Tallied closing (hitsIn hist name).length (w.redis.table name)
  answered : ∀ (i : Nat) e count, (hitsIn hist name)[i]? = some e → countOf e.event = some count →
    count = i + 1

section Metering

variable {name : Str} {closing : Time} {w : World} {hist : List (Entry BrokerSig World)}

/-- A hit is counted. -/
theorem Metering.hit (metering : Metering name closing w hist) (early : w.now < closing) {i : Nat}
    {tr : Trace BrokerSig} {a : BrokerSig.Ans (.redis (.incr name))}
    (applied : AppliedRedis a = true)
    (permits : w.permits tr ⟨.redis (.incr name), a⟩ = true) :
    Metering name closing (w.after tr ⟨.redis (.incr name), a⟩)
      (hist ++ [⟨i, w, tr, ⟨.redis (.incr name), a⟩⟩]) := by
  obtain ⟨r, runs, tallied⟩ := metering.tallied.incr early
  have grown : hitsIn (hist ++ [⟨i, w, tr, ⟨.redis (.incr name), a⟩⟩]) name =
      hitsIn hist name ++ [⟨i, w, tr, ⟨.redis (.incr name), a⟩⟩] := by
    rw [hitsIn, List.filter_append, List.filter_singleton]
    simp [hits, applied, hitsIn]
  have redis : (w.after tr ⟨.redis (.incr name), a⟩).redis = r := by
    simp only [World.after, applied, if_true]
    rw [Redis.after, runs]
  constructor
  · rw [grown, redis, List.length_append]
    exact tallied
  · intro j e count at_ answered
    rw [grown] at at_
    rcases Nat.lt_or_ge j (hitsIn hist name).length with earlier | last
    · rw [List.getElem?_append_left earlier] at at_
      exact metering.answered j e count at_ answered
    · rw [List.getElem?_append_right last] at at_
      have inBounds := (List.getElem?_eq_some_iff.mp at_).1
      rw [List.length_singleton] at inBounds
      obtain rfl : j = (hitsIn hist name).length := by omega
      rw [Nat.sub_self, List.getElem?_cons_zero] at at_
      obtain rfl := Option.some.inj at_
      cases a with
      | error x => cases answered
      | ok reply =>
        obtain rfl := Option.some.inj answered
        simp only [World.permits, runs] at permits
        exact of_decide_eq_true permits

/-- What is no hit leaves the count alone, if it leaves the counter. -/
theorem Metering.other (metering : Metering name closing w hist) {w' : World}
    {e : Entry BrokerSig World} (other : hits name e.event = false)
    (kept : Tallied closing (hitsIn hist name).length (w'.redis.table name)) :
    Metering name closing w' (hist ++ [e]) := by
  have same : hitsIn (hist ++ [e]) name = hitsIn hist name := by
    rw [hitsIn, List.filter_append, List.filter_singleton]
    simp [other, hitsIn]
  exact ⟨same ▸ kept, same ▸ metering.answered⟩

end Metering

section Run

variable {start : Time} {c : Broker}
  (run : (broker lib svc false).Reaches (.start (.fresh start)) c)

include run

/-- A command on a counter is one of a check. -/
theorem command_of_check {i : Nat} {t : Thread BrokerSig Request Response}
    (thread : c.threads[i]? = some t) {cmd : Redis.Cmd}
    {k : BrokerSig.Ans (.redis cmd) → BrokerProg Response}
    (pending : t.prog = .call (.redis cmd) k) :
    cmd.name.take 2 ≠ "ra" ∨ ∃ key past, (paceOf key).Guard past (.redis cmd) ∧
      ∀ now, ⟨.clock, .ok now⟩ ∈ past → now ≤ c.world.now := by
  rcases Machine.Reaches.follows_next run thread (serve_dated t.req) pending with
    uncounted | ⟨key, now, last, hit⟩ | ⟨name, last, ends⟩
  · exact .inl (of_decide_eq_true uncounted)
  · refine .inr ⟨key, [⟨.clock, .ok now⟩], ⟨now, .inl ⟨rfl, Op.redis.inj hit⟩⟩, fun now' read => ?_⟩
    obtain rfl : now' = now := by simpa using read
    exact clock_now run thread (List.mem_of_getLast? last)
  · -- the hit right before it
    obtain ⟨pre, cut⟩ := List.getLast?_eq_some_iff.mp last
    rcases Machine.Reaches.follows run thread
      (serve_dated t.req) (by rw [cut] : pre ++ [_] <+: t.trace)
      with uncounted | ⟨key, now, read, hit⟩ | ⟨name', -, other⟩
    · refine .inl ?_
      rw [Op.redis.inj ends]
      exact of_decide_eq_true uncounted
    · obtain rfl := Redis.Cmd.incr.inj (Op.redis.inj hit)
      refine .inr ⟨key, _, ⟨now, .inr ⟨.ok (1 : Int), rfl, Op.redis.inj ends⟩⟩,
        fun now' read' => ?_⟩
      obtain rfl : now' = now := by simpa using read'
      exact clock_now run thread
        (by rw [cut]; exact List.mem_append_left _ (List.mem_of_getLast? read))
    · cases Op.redis.inj other

/-- Counters that are hit at the instant of the reading are hit in its window. -/
theorem timely_of_prompt (prompt : ∀ e ∈ c.hist, ∀ name, e.event.op = .redis (.incr name) →
    e.past.getLast? = some ⟨.clock, .ok e.pre.now⟩) : Timely c := by
  intro e member key index hit
  obtain ⟨t, thread, sub⟩ := run.owned member
  have dated := Machine.Reaches.follows run thread (serve_dated t.req) sub
  rw [hit] at dated
  rcases dated with uncounted | ⟨key', now, read, same⟩ | ⟨name, -, other⟩
  · cases uncounted
  · rw [prompt e member _ hit] at read
    obtain rfl : e.pre.now = now := by simpa using read
    exact (counterKey_inj (Redis.Cmd.incr.inj (Op.redis.inj same))).2.symm
  · cases Op.redis.inj other

/-- Every counter counts its hits for as long as its window is open. -/
theorem run_metering (timely : Timely c) (key : Str) (index : Int) :
    Metering (RateLimiter.counterKey key index) ((paceOf key).closing index) c.world c.hist := by
  induction run with
  | refl =>
    refine ⟨rfl, fun i e count at_ => ?_⟩
    rw [show hitsIn (Config.start (World.fresh start) : Broker).hist _ = [] from rfl] at at_
    cases at_
  | @tail b c run step ih =>
    have metering := ih fun e member => timely e (step.hist_mono.subset member)
    cases step with
    | spawn r => exact ⟨metering.tallied, metering.answered⟩
    | nudge n moved =>
      cases n with
      | tick elapsed =>
        obtain rfl := Option.some.inj moved
        exact ⟨metering.tallied, metering.answered⟩
      | evict keep => cases moved
    | @answer i t e k a thread pending permits =>
      show Metering _ _ (b.world.after t.trace ⟨e, a⟩) (b.hist ++ [_])
      cases hit : hits (RateLimiter.counterKey key index) ⟨e, a⟩ with
      | true =>
        obtain ⟨a, same, applied⟩ := hits_incr hit
        cases same
        have early := timely _ (List.mem_append_right _ (List.mem_singleton_self _)) key index rfl
        refine metering.hit ?_ applied permits
        rw [← early]
        exact (paceOf key).lt_closing _
      | false =>
        refine metering.other hit ?_
        cases e with
        | redis cmd =>
          rcases command_of_check run thread pending with elsewhere | ⟨key', past, guard, readings⟩
          · -- no name of another family is that of a counter
            have differs : RateLimiter.counterKey key index ≠ cmd.name := by
              intro same
              rw [← same] at elsewhere
              exact elsewhere rfl
            have same : (b.world.after t.trace ⟨.redis cmd, a⟩).redis.table
                (RateLimiter.counterKey key index) =
                  b.world.redis.table (RateLimiter.counterKey key index) := by
              simp only [World.after]
              split
              · exact Redis.after_table_ne _ _ differs
              · rfl
            rw [same]
            exact metering.tallied
          · have kept := Tallied.kept (r := paceOf key) (e := ⟨.redis cmd, a⟩)
              metering.tallied guard (fun same => congrArg paceOf same) readings hit
            exact kept
        | _ =>
          rw [(b.world.after_framed _ _).redis rfl]
          exact metering.tallied

end Run

/-! ## The limits -/

def Settings.rateLimit (settings : Settings) : Metered → Int
  | .grants => settings.grantsPerMinutePerAgent
  | .invoke => settings.invokesPerMinutePerAgent

/-- An entry by which the counter of an agent lets a request through. -/
def letsThrough (settings : Settings) (metered : Metered) (agentId : Uuid)
    (e : Entry BrokerSig World) : Bool :=
  hits (RateLimiter.counterKey (metered.key agentId)
    (e.pre.now / seconds RateLimiter.windowSeconds))
    e.event && (countOf e.event).any (· ≤ settings.rateLimit metered)

section Limits

variable {start : Time} {c : Broker}
  (run : (broker lib svc false).Reaches (.start (.fresh start)) c)
  (timely : Timely c)

include run timely

/-- A window lets through as many as the limit allows. -/
theorem letsThrough_le (metered : Metered) (agentId : Uuid) (index : Int) :
    (c.hist.filter fun e => letsThrough svc.settings metered agentId e &&
      e.pre.now / seconds RateLimiter.windowSeconds = index).length ≤
        (svc.settings.rateLimit metered).toNat := by
  have metering := run_metering run timely (metered.key agentId) index
  have few : ((hitsIn c.hist (RateLimiter.counterKey (metered.key agentId) index)).filter fun e =>
      (countOf e.event).any (· ≤ svc.settings.rateLimit metered)).length ≤
        (svc.settings.rateLimit metered).toNat := by
    apply length_filter_le_of_positions
    intro i e at_ below
    obtain ⟨count, answered, below⟩ := (Option.any_eq_true _ _).mp below
    have place := metering.answered i e count at_ answered
    have below := of_decide_eq_true below
    omega
  refine Nat.le_trans (Nat.le_of_eq ?_) few
  rw [hitsIn, List.filter_filter]
  congr 1
  apply List.filter_congr
  intro e member
  by_cases here : e.pre.now / seconds RateLimiter.windowSeconds = index
  · rw [letsThrough, here, decide_eq_true rfl, Bool.and_true, Bool.and_comm]
  · -- a hit of this window's counter is timely
    have missed : hits (RateLimiter.counterKey (metered.key agentId) index) e.event = false := by
      apply eq_false_of_ne_true
      intro hit
      obtain ⟨a, is, -⟩ := hits_incr hit
      exact here (timely e member _ index (by rw [is]))
    rw [decide_eq_false here, missed, Bool.and_false, Bool.and_false]

omit timely in
/-- What a program was answered by a counter within its limit. -/
theorem letsThrough_of_count (timely : Timely c) {i : Nat} {t : Thread BrokerSig Request Response}
    (thread : c.threads[i]? = some t) {tr : Trace BrokerSig} (sub : tr <+: t.trace)
    {metered : Metered} {agentId : Uuid} {index count : Int}
    (hit : ⟨.redis (.incr (RateLimiter.counterKey (metered.key agentId) index)), .ok count⟩ ∈ tr)
    (below : count ≤ svc.settings.rateLimit metered) :
    ∃ a ∈ c.hist, a.tid = i ∧ a.past ++ [a.event] <+: tr ∧
      letsThrough svc.settings metered agentId a = true := by
  obtain ⟨pre, post, cut⟩ := List.append_of_mem hit
  have inside : pre ++ [⟨.redis (.incr (RateLimiter.counterKey (metered.key agentId) index)),
      .ok count⟩] <+: tr := ⟨post, by simp [cut]⟩
  obtain ⟨v, entry⟩ := entry_at run thread (inside.trans sub)
  refine ⟨_, entry, rfl, inside, ?_⟩
  have here : v.now / seconds RateLimiter.windowSeconds = index := timely _ entry _ index rfl
  simp [letsThrough, here, hits, countOf, AppliedRedis, Applied, below]

/-- In every window the counter of an agent lets through as many requests as its limit
allows, and in any interval of a window's length at most twice as many. Every provider call
is an invocation's that was let through for the agent of its grant, and every new grant's
request was let through for its agent. -/
theorem rates_limited (limited : svc.rateLimiter = true) :
    (∀ metered agentId index, (c.hist.filter fun e => letsThrough svc.settings metered agentId e &&
      e.pre.now / seconds RateLimiter.windowSeconds = index).length ≤
        (svc.settings.rateLimit metered).toNat) ∧
    (∀ metered agentId from_, (c.hist.filter fun e => letsThrough svc.settings metered agentId e &&
      from_ ≤ e.pre.now && e.pre.now < from_ + seconds RateLimiter.windowSeconds).length ≤
        2 * (svc.settings.rateLimit metered).toNat) ∧
    (∀ e ∈ c.hist, e.event.op.isToolCall = true →
      ∃ (t : Thread BrokerSig Request Response) (req : InvokeRequest) (grant : Grant),
        c.threads[e.tid]? = some t ∧ t.req = .invoke req ∧ looked lib req grant ∈ e.past ∧
        ∃ a ∈ c.hist, a.tid = e.tid ∧ a.past ++ [a.event] <+: e.past ∧
          letsThrough svc.settings .invoke grant.agentId a = true) ∧
    ∀ e ∈ c.hist, ∀ grant, e.event.op = .add (.grant grant) →
      ∃ a ∈ c.hist, a.tid = e.tid ∧ a.past ++ [a.event] <+: e.past ∧
        letsThrough svc.settings .grants grant.agentId a = true := by
  refine ⟨letsThrough_le run timely, fun metered agentId from_ => ?_, fun e member call => ?_,
    fun e member grant added => ?_⟩
  · have here := letsThrough_le run timely metered agentId
      (from_ / seconds RateLimiter.windowSeconds)
    have next := letsThrough_le run timely metered agentId
      (from_ / seconds RateLimiter.windowSeconds + 1)
    refine Nat.le_trans (length_filter_le_add (fun e _ within => ?_))
      (Nat.le_trans (Nat.add_le_add here next) (by omega))
    simp only [Bool.and_eq_true, decide_eq_true_eq] at within ⊢
    obtain ⟨⟨lets, after⟩, before⟩ := within
    rcases (paceOf (metered.key agentId)).index_or after before with same | next
    · exact .inl ⟨lets, same⟩
    · exact .inr ⟨lets, next⟩
  · obtain ⟨t, req, grant, tool, accessToken, thread, sub, request, -, -, mediated⟩ :=
      entry_mediated run member call
    obtain ⟨now, found, -⟩ := mediated.admitted.live
    obtain ⟨window, count, hit, below⟩ := mediated.admitted.paced limited
    have hit : ⟨.redis (.incr (RateLimiter.counterKey (Metered.invoke.key grant.agentId) window)),
      .ok count⟩ ∈ e.past := hit
    obtain ⟨a, there, same, inside, lets⟩ := letsThrough_of_count run timely thread
      ((List.prefix_append _ _).trans sub) hit below
    exact ⟨t, req, grant, thread, request, found.subset List.mem_cons_self, a, there, same, inside,
      lets⟩
  · obtain ⟨t, thread, sub⟩ := run.owned member
    have issue := run.guarded member thread (wp_serve_issuing lib svc t.req) (Role.met_guarding _ _)
    have budget := run.guarded member thread (wp_serve_budget lib svc t.req) (Role.met_guarding _ _)
    have issue : issueGuard svc t.req e.past e.event.op := issue
    have budget : budgetGuard svc t.req e.past e.event.op := budget
    cases request : t.req with
    | requestGrant agentId toolName scope =>
      rw [request] at budget
      obtain ⟨rfl, budgeted⟩ := budget grant added
      obtain ⟨window, count, hit, below⟩ := budgeted limited
      exact letsThrough_of_count run timely thread ((List.prefix_append _ _).trans sub) hit below
    | _ =>
      rw [request] at issue
      exact (issue grant added).elim

end Limits

namespace Demo

def isIncr : Op → Bool
  | .redis (.incr _) => true
  | _ => false

theorem of_isReading {now : Time} {e : Event BrokerSig} (is : isReading now e = true) :
    e = ⟨.clock, .ok now⟩ := by
  unfold isReading at is
  split at is
  · rw [of_decide_eq_true is]
  · cases is

end Demo

/-- The demo agent's grant and invocation in one window. -/
theorem rates_limited_demo : ∃ c : Broker,
    (broker Demo.lib Demo.services false).Reaches (.start (.fresh Demo.midnight)) c ∧
      (∃ e ∈ c.hist, e.event.op.isToolCall = true ∧ ∃ a ∈ c.hist, a.tid = e.tid ∧
        ∃ agentId, letsThrough Demo.services.settings .invoke agentId a = true) ∧
      ∀ metered agentId from_, (c.hist.filter fun e =>
        letsThrough Demo.services.settings metered agentId e && from_ ≤ e.pre.now &&
          e.pre.now < from_ + seconds RateLimiter.windowSeconds).length ≤
            2 * (Demo.services.settings.rateLimit metered).toNat := by
  have computed : (Demo.played false
      (Demo.issued ++ Demo.invocation [] none :: Demo.run 2 21)).any (fun c =>
        c.hist.any (·.event.op.isToolCall) && c.hist.all fun e =>
          !Demo.isIncr e.event.op || e.past.getLast?.any (Demo.isReading e.pre.now)) = true := by
    decide +kernel
  obtain ⟨c, run, computed⟩ := Demo.reached computed
  obtain ⟨called, prompt⟩ := Bool.and_eq_true_iff.mp computed
  have timely : Timely c := by
    refine timely_of_prompt run fun e member name hit => ?_
    have here := List.all_eq_true.mp prompt e member
    rw [hit] at here
    obtain ⟨event, last, reads⟩ := (Option.any_eq_true _ _).mp here
    rw [last, Demo.of_isReading reads]
  obtain ⟨-, few, calls, -⟩ := rates_limited run timely rfl
  obtain ⟨e, member, call⟩ := List.any_eq_true.mp called
  obtain ⟨-, -, grant, -, -, -, a, there, same, -, lets⟩ := calls e member call
  exact ⟨c, run, ⟨e, member, call, a, there, same, grant.agentId, lets⟩, few⟩

end CredBroker
