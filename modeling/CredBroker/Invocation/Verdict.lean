import CredBroker.Invocation.Protocol

/-!
# The verdict of an invocation

From the admission up to the audit row: what the outcome of an invocation, or
the exception it ends with, says about its trace.
-/

namespace CredBroker

open Python Interaction

variable (lib : Lib) (svc : Services) (req : InvokeRequest) (grant : Grant)

/-! ## Facts at the end -/

/-- How the idempotency store was asked, and what it said. -/
inductive Claim (tr : Trace BrokerSig) : Except PyExn InvokeOutcome → Prop
  | unkeyed {r} (unkeyed : req.idempotencyKey = none ∨ svc.idempotencyStore = none) : Claim tr r
  | unasked {r} (unasked : ∀ e ∈ tr, e.op.isAsk = false) : Claim tr r
  | held {r} (key owner : Str) (keyed : req.idempotencyKey = some key)
      (held : Reserved (fullKey req grant key) owner tr) : Claim tr r
  | answered {o} (answered : o.fromCache = true ∨ o.deniedReason = some .idempotencyConflict) :
      Claim tr (.ok o)
  | faulty {r} (cmd : Redis.Cmd) (x : PyExn) (raised : ⟨.redis cmd, .error x⟩ ∈ tr) : Claim tr r
  | corrupt {r} (key value : Str) (keyed : req.idempotencyKey = some key)
      (seen : ⟨.redis (.get (IdempotencyStore.name (fullKey req grant key))),
        .ok (some value)⟩ ∈ tr)
      (complete : IdempotencyStore.isPending value = false)
      (malformed : Json.loads lib.floatRepr value = none) : Claim tr r

/-- What a resolved invocation ends with. -/
inductive Verdict (tr : Trace BrokerSig) : Except PyExn InvokeOutcome → Prop
  | performed {o} (rest : Trace BrokerSig) (status : o.status = .success)
      (sent : Sent req o.result rest tr) (clean : AllOk rest) : Verdict tr (.ok o)
  | replayed {o} (status : o.status = .success) (noResult : NoResult tr)
      (evidence : Evidence lib req grant o.result tr) : Verdict tr (.ok o)
  | refused {o} (status : o.status ≠ .success) (noResult : NoResult tr) : Verdict tr (.ok o)
  | raised {x} (noResult : NoResult tr) : Verdict tr (.error x)
  | lost {x} (result : Json) (rest : Trace BrokerSig) (sent : Sent req result rest tr)
      (dirty : ¬ AllOk rest) : Verdict tr (.error x)

/-- The row was live when it was looked up, or else the outcome is a denial. -/
def LiveOrDenied (tr : Trace BrokerSig) (r : Except PyExn InvokeOutcome) : Prop :=
  Live lib req grant tr ∨ ∃ o, r = .ok o ∧ o.status = .denied

/-- What `_invoke_resolved` has established when it ends. -/
structure Resolved (base : Trace BrokerSig) (r : Except PyExn InvokeOutcome)
    (tr : Trace BrokerSig) : Prop where
  grown : base <+: tr
  noAdd : NoAdd tr
  live : LiveOrDenied lib req grant tr r
  verdict : Verdict lib req grant tr r
  claim : Claim lib svc req grant tr r

/-- What `_invoke_resolved` has established when it comes to the idempotency store. -/
structure Entering (tool : ToolAdapter) (tr : Trace BrokerSig) : Prop where
  accepted : Accepted lib svc req tr
  live : Live lib req grant tr
  paced : Paced svc grant tr
  tool_eq : getTool req.toolName = .ok tool
  scope_eq : grant.scope = tool.scope
  unmarked : Unmarked lib req tr
  inside : ∀ e ∈ tr, e.op.isEntry = true

variable {lib svc req grant} {lossy : Bool} {tool : ToolAdapter} {start : Time}
  {tr ext : Trace BrokerSig} {key owner : Str} {store : IdempotencyStore}

theorem Live.found (live : Live lib req grant tr) : looked lib req grant ∈ tr := by
  obtain ⟨now, inside, -⟩ := live
  exact inside.subset (by simp)

theorem AllOk.append {tr' : Trace BrokerSig} (h : AllOk tr) (h' : AllOk tr') :
    AllOk (tr ++ tr') := List.forall_mem_append.mpr ⟨h, h'⟩

theorem not_allOk_append {e : Event BrokerSig} {x : PyExn} (member : e ∈ ext)
    (raised : e.ans = .error x) : ¬ AllOk (tr ++ ext) := fun ok => by
  obtain ⟨v, answered⟩ := ok e (List.mem_append_right _ member)
  rw [raised] at answered
  cases answered

/-- Nothing but the provider can add a result. -/
theorem Sent.append {result : Json} {rest : Trace BrokerSig} (sent : Sent req result rest tr)
    (none : ∀ e ∈ ext, e.op.isToolCall = false) : Sent req result (rest ++ ext) (tr ++ ext) := by
  obtain ⟨pre, tool, accessToken, rfl, before, after⟩ := sent
  exact ⟨pre, tool, accessToken, by simp, before, after.append (noResult_of_noCall none)⟩

/-- The result of a trace is at one place only. -/
theorem Sent.unique {result result' : Json} {rest rest' : Trace BrokerSig}
    (sent : Sent req result rest tr) (sent' : Sent req result' rest' tr) :
    result = result' ∧ rest = rest' := by
  obtain ⟨pre, tool, accessToken, rfl, before, after⟩ := sent
  obtain ⟨pre', tool', accessToken', split, before', after'⟩ := sent'
  rcases List.append_eq_append_iff.mp split with ⟨mid, rfl, tail⟩ | ⟨mid, rfl, tail⟩
  · cases mid with
    | nil => simp at tail; exact ⟨tail.1.2, tail.2⟩
    | cons e mid =>
      obtain ⟨rfl, rfl⟩ : _ = e ∧ rest = mid ++ _ :: rest' := by simpa using tail
      exact (before' tool accessToken req.arguments result (by simp)).elim
  · cases mid with
    | nil => simp at tail; exact ⟨tail.1.2.symm, tail.2.symm⟩
    | cons e mid =>
      obtain ⟨rfl, rfl⟩ : _ = e ∧ rest' = mid ++ _ :: rest := by simpa using tail
      exact (before tool' accessToken' req.arguments result' (by simp)).elim

/-- A result that is not in the last events is in the first ones. -/
theorem Sent.of_append {result : Json} {rest' : Trace BrokerSig}
    (sent : Sent req result rest' (tr ++ ext)) (none : ∀ e ∈ ext, e.op.isToolCall = false) :
    ∃ rest, rest' = rest ++ ext ∧ Sent req result rest tr := by
  obtain ⟨pre, tool, accessToken, split, before, after⟩ := sent
  rcases List.append_eq_append_iff.mp split with ⟨mid, rfl, tail⟩ | ⟨mid, rfl, tail⟩
  · cases none ⟨.toolCall tool accessToken req.arguments, .ok result⟩ (by simp [tail])
  · cases mid with
    | nil =>
      cases none ⟨.toolCall tool accessToken req.arguments, .ok result⟩
        (by simp at tail; simp [← tail])
    | cons e mid =>
      obtain ⟨rfl, rfl⟩ : _ = e ∧ rest' = mid ++ ext := by simpa using tail
      exact ⟨mid, rfl, pre, tool, accessToken, rfl, before,
        fun tool accessToken arguments result member =>
        after tool accessToken arguments result (List.mem_append_left _ member)⟩

theorem Sent.not_noResult {result : Json} {rest : Trace BrokerSig}
    (sent : Sent req result rest tr) : ¬ NoResult tr := by
  obtain ⟨pre, tool, accessToken, rfl, -, -⟩ := sent
  exact fun none => none tool accessToken req.arguments result (by simp)

/-! ## Under a reservation -/

theorem Entering.noResult (entering : Entering lib svc req grant tool tr) : NoResult tr :=
  noResult_of_noCall fun e member => Op.isToolCall_of_isEntry (entering.inside e member)

/-- A granted reservation, or no need of one, completes the admission. -/
theorem Entering.running (entering : Entering lib svc req grant tool tr)
    (quiet : ∀ e ∈ ext, e.op.isQuiet = true)
    (reserved : ∀ key store, req.idempotencyKey = some key → svc.idempotencyStore = some store →
      ∃ owner, Reserved (fullKey req grant key) owner (tr ++ ext)) :
    Running lib svc req grant tool (tr ++ ext) where
  admitted :=
    ⟨entering.accepted.append ext, entering.live.append ext, entering.paced.append ext,
      entering.tool_eq, entering.scope_eq, reserved⟩
  unmarked count member := by
    rcases List.mem_append.mp member with old | new
    · exact entering.unmarked count old
    · cases quiet _ new
  unsettled := List.forall_mem_append.mpr
    ⟨fun e member => Op.settles_of_isEntry (entering.inside e member),
      fun e member => Op.settles_of_isQuiet (quiet e member)⟩
  noResult := entering.noResult.append
    (noResult_of_noCall fun e member => Op.isToolCall_of_isQuiet (quiet e member))

/-- `release` only raises what Redis raises, and drops our own marker only. -/
theorem wp_release {Q : Post BrokerSig Unit} (found : looked lib req grant ∈ tr)
    (keyed : req.idempotencyKey = some key) (held : Reserved (fullKey req grant key) owner tr)
    (unsettled : Unsettled tr) (noResult : NoResult tr)
    (post : ∀ r ext, (∀ e ∈ ext, e.op.isRedis = true) → Q r (tr ++ ext)) :
    wp (broker lib svc lossy) (invokeRole lib svc req)
      (IdempotencyStore.release (fullKey req grant key) (some owner)) Q tr := by
  refine ⟨.get _, fun a may _ => ?_⟩
  rcases a with x | _ | value
  · exact post _ _ (by simp [Op.isRedis])
  · exact post _ _ (by simp [Op.isRedis])
  · show wp _ _ (if _ then _ else _) _ _
    split
    · exact post _ _ (by simp [Op.isRedis])
    · split
      · exact post _ _ (by simp [Op.isRedis])
      · rename_i own
        obtain rfl : value = IdempotencyStore.pendingValue owner := by simpa using own
        refine ⟨.release found keyed held unsettled noResult rfl, fun a may _ => ?_⟩
        rw [List.append_assoc]
        cases a with
        | ok n => exact post _ _ (by simp [Op.isRedis])
        | error x => exact post _ _ (by simp [Op.isRedis])

/-- `complete` stores the result over our own marker only. -/
theorem wp_complete {result : Json} {rest : Trace BrokerSig} {Q : Post BrokerSig Unit}
    (found : looked lib req grant ∈ tr)
    (keyed : req.idempotencyKey = some key) (stored : svc.idempotencyStore = some store)
    (held : Reserved (fullKey req grant key) owner tr) (unsettled : Unsettled tr)
    (sent : Sent req result rest tr)
    (completed : ∀ ext, (∀ e ∈ ext, e.op.isRedis = true) → AllOk ext → Q (.ok ()) (tr ++ ext))
    (raised : ∀ x ext e, (∀ e ∈ ext, e.op.isRedis = true) → e ∈ ext → e.ans = .error x →
      Q (.error x) (tr ++ ext)) :
    wp (broker lib svc lossy) (invokeRole lib svc req)
      (store.complete (fullKey req grant key) (storedResult result) (some owner)) Q tr := by
  refine ⟨.get _, fun a may _ => ?_⟩
  cases a with
  | error x => exact raised x _ _ (by simp [Op.isRedis]) (List.mem_singleton.mpr rfl) rfl
  | ok value =>
    show wp _ _ (if _ then _ else _) _ _
    split
    · exact completed _ (by simp [Op.isRedis]) (by simp [AllOk])
    · rename_i own
      obtain rfl : value = some (IdempotencyStore.pendingValue owner) := by simpa using own
      refine ⟨.complete found keyed stored held unsettled sent rfl, fun a may _ => ?_⟩
      rw [List.append_assoc]
      cases a with
      | ok done => exact completed _ (by simp [Op.isRedis]) (by simp [AllOk])
      | error x =>
        exact raised x _ ⟨_, .error x⟩ (by simp [Op.isRedis])
          (List.mem_append_right _ (List.mem_singleton.mpr rfl)) rfl

/-- The call under a reservation. -/
theorem wp_executeReserved {base : Trace BrokerSig} (grown : base <+: tr)
    (keyed : req.idempotencyKey = some key) (stored : svc.idempotencyStore = some store)
    (held : Reserved (fullKey req grant key) owner tr)
    (running : Running lib svc req grant tool tr) :
    wp (broker lib svc lossy) (invokeRole lib svc req)
      (executeReserved lib svc req grant (hashToken lib req.grantToken) tool start store
        (fullKey req grant key) owner)
      (fun r tr => Resolved lib svc req grant base r tr) tr := by
  have close : ∀ (r : Except PyExn InvokeOutcome) (tr' ext : Trace BrokerSig), tr <+: tr' →
      Unsettled tr' → (∀ e ∈ ext, e.op.isRedis = true) → Verdict lib req grant (tr' ++ ext) r →
      Resolved lib svc req grant base r (tr' ++ ext) := by
    intro r tr' ext grown' unsettled inside verdict
    have noAdd := unsettled.noAdd.append fun e member => Op.isAdd_of_isRedis (inside e member)
    obtain ⟨mid, rfl⟩ := grown'
    rw [List.append_assoc] at verdict noAdd ⊢
    exact ⟨grown.trans (List.prefix_append _ _), noAdd, .inl (running.admitted.live.append _),
      verdict, .held key owner keyed (held.append _)⟩
  have noCall : ∀ {ext : Trace BrokerSig}, (∀ e ∈ ext, e.op.isRedis = true) →
      ∀ e ∈ ext, e.op.isToolCall = false := fun inside e member =>
    Op.isToolCall_of_isRedis (inside e member)
  unfold executeReserved
  rw [wp_bind, wp_attempt]
  refine wp_mono (wp_executeCall running) fun r tr' _ ended => ?_
  obtain ⟨grown', unsettled, executed⟩ := ended
  have found := grown'.subset running.admitted.live.found
  have held' : Reserved (fullKey req grant key) owner tr' := held.trans grown'.isInfix
  rw [Post.next_ok]
  cases executed with
  | raised noResult =>
    rename_i x
    show wp _ _ (if _ then _ else _) _ _
    split
    · rw [wp_bind]
      refine wp_release found keyed held' unsettled noResult fun r ext inside => ?_
      have noResult' := noResult.append (noResult_of_noCall (noCall inside))
      cases r with
      | error y => exact close _ _ _ grown' unsettled inside (.raised noResult')
      | ok _ => exact close _ _ _ grown' unsettled inside (.raised noResult')
    · have ended := close (.error x) tr' [] grown' unsettled (by simp)
        (.raised (by simpa using noResult))
      simpa using ended
  | refused status noResult =>
    rename_i o
    show wp _ _ (settle store _ _ o >>= _) _ _
    rw [wp_bind, settle, if_neg status]
    refine wp_release found keyed held' unsettled noResult fun r ext inside => ?_
    have noResult' := noResult.append (noResult_of_noCall (noCall inside))
    cases r with
    | error y => exact close _ _ _ grown' unsettled inside (.raised noResult')
    | ok _ => exact close _ _ _ grown' unsettled inside (.refused status noResult')
  | performed rest status sent clean =>
    rename_i o
    show wp _ _ (settle store _ _ o >>= _) _ _
    rw [wp_bind, settle, if_pos status]
    refine wp_complete found keyed stored held' unsettled sent ?_ ?_
    · exact fun ext inside ok => close _ _ _ grown' unsettled inside
        (.performed _ status (sent.append (noCall inside)) (clean.append ok))
    · exact fun x ext e inside member raised => close _ _ _ grown' unsettled inside
        (.lost _ _ (sent.append (noCall inside)) (not_allOk_append member raised))

/-! ## Claiming a key -/

/-- `reserve` draws a token and asks once. -/
theorem wp_reserve {Q : Post BrokerSig (Option Str)} (found : looked lib req grant ∈ tr)
    (keyed : req.idempotencyKey = some key) (stored : svc.idempotencyStore = some store)
    (unheld : ∀ e ∈ tr, e.op.isReserve = false)
    (claimed : ∀ owner ext, (∀ e ∈ ext, e.op.isQuiet = true) →
      Reserved (fullKey req grant key) owner (tr ++ ext) → Q (.ok (some owner)) (tr ++ ext))
    (taken : ∀ ext, (∀ e ∈ ext, e.op.isQuiet = true) → Q (.ok none) (tr ++ ext))
    (raised : ∀ x ext cmd, (∀ e ∈ ext, e.op.isQuiet = true) → ⟨.redis cmd, .error x⟩ ∈ ext →
      Q (.error x) (tr ++ ext)) :
    wp (broker lib svc lossy) (invokeRole lib svc req)
      (IdempotencyStore.reserve (fullKey req grant key)) Q tr := by
  refine ⟨trivial, fun a may _ => ?_⟩
  obtain ⟨owner, rfl⟩ := may_sync rfl may
  refine ⟨.reserve found keyed stored unheld rfl, fun a may _ => ?_⟩
  rw [List.append_assoc]
  rcases a with x | _ | _
  · exact raised x _ _ (by simp [Op.isQuiet]) (List.mem_append_right _ (List.mem_singleton.mpr rfl))
  · exact taken _ (by simp [Op.isQuiet])
  · exact claimed owner _ (by simp [Op.isQuiet]) (List.suffix_append _ _).isInfix

/-- Step 6 ends with a reservation of our own, or with an answer. -/
theorem wp_claimKey {Q : Post BrokerSig (Except InvokeOutcome Str)}
    (entering : Entering lib svc req grant tool tr)
    (keyed : req.idempotencyKey = some key) (stored : svc.idempotencyStore = some store)
    (claimed : ∀ owner ext, (∀ e ∈ ext, e.op.isQuiet = true) →
      Reserved (fullKey req grant key) owner (tr ++ ext) → Q (.ok (.ok owner)) (tr ++ ext))
    (answered : ∀ o ext, (∀ e ∈ ext, e.op.isQuiet = true) →
      Claim lib svc req grant (tr ++ ext) (.ok o) → Verdict lib req grant (tr ++ ext) (.ok o) →
      Q (.ok (.error o)) (tr ++ ext))
    (raised : ∀ x ext, (∀ e ∈ ext, e.op.isQuiet = true) →
      Claim lib svc req grant (tr ++ ext) (.error x) → Q (.error x) (tr ++ ext)) :
    wp (broker lib svc lossy) (invokeRole lib svc req)
      (claimKey lib start (fullKey req grant key)) Q tr := by
  have noResult : ∀ {ext : Trace BrokerSig}, (∀ e ∈ ext, e.op.isQuiet = true) →
      NoResult (tr ++ ext) := fun quiet =>
    entering.noResult.append (noResult_of_noCall fun e member =>
      Op.isToolCall_of_isQuiet (quiet e member))
  have conflicted : ∀ ext : Trace BrokerSig, (∀ e ∈ ext, e.op.isQuiet = true) →
      wp (broker lib svc lossy) (invokeRole lib svc req)
        (.error <$> conflict start : BrokerProg (Except InvokeOutcome Str)) Q (tr ++ ext) := by
    intro ext quiet
    show wp _ _ (conflict start >>= fun o => Prog.ret (Except.error o)) _ _
    rw [wp_bind]
    refine wp_refused_for fun o secrets now status reason => ?_
    rw [List.append_assoc]
    have quiet' : ∀ e ∈ ext ++ refusal secrets now, e.op.isQuiet = true :=
      List.forall_mem_append.mpr
        ⟨quiet, fun e member => Op.isQuiet_of_isPlain (refusal_plain e member)⟩
    exact answered o _ quiet' (.answered (.inr reason))
      (.refused (by simp [status]) (noResult quiet'))
  have reserving (a : BrokerSig.Ans (.redis (.get (IdempotencyStore.name (fullKey req grant key)))))
      {next : Option Str → BrokerProg (Except InvokeOutcome Str)}
      (lost : next none = .error <$> conflict start)
      (won : ∀ reservation, next (some reservation) = Prog.ret (.ok reservation)) :
      wp (broker lib svc lossy) (invokeRole lib svc req)
        (IdempotencyStore.reserve (fullKey req grant key) >>= next) Q (tr ++ [⟨_, a⟩]) := by
    have quiet : ∀ {ext : Trace BrokerSig}, (∀ e ∈ ext, e.op.isQuiet = true) →
        ∀ e ∈ [⟨.redis (.get (IdempotencyStore.name (fullKey req grant key))), a⟩] ++ ext,
          e.op.isQuiet = true := fun inside =>
      List.forall_mem_append.mpr ⟨by simp [Op.isQuiet], inside⟩
    rw [wp_bind]
    refine wp_reserve (List.mem_append_left _ entering.live.found) keyed stored ?_ ?_ ?_ ?_
    · exact List.forall_mem_append.mpr
        ⟨fun e member => Op.isReserve_of_isEntry (entering.inside e member), by simp [Op.isReserve]⟩
    · intro owner ext inside held
      rw [List.append_assoc] at held ⊢
      rw [Post.next_ok, won]
      exact claimed owner _ (quiet inside) held
    · intro ext inside
      rw [List.append_assoc, Post.next_ok, lost]
      exact conflicted _ (quiet inside)
    · intro x ext cmd inside member
      rw [List.append_assoc]
      exact raised x _ (quiet inside) (.faulty cmd x
        (List.mem_append_right _ (List.mem_append_right _ member)))
  unfold claimKey
  rw [wp_bind, wp_attempt]
  refine ⟨.get _, fun a may _ => ?_⟩
  have quiet : ∀ e ∈ ([⟨.redis (.get (IdempotencyStore.name (fullKey req grant key))), a⟩] :
      Trace BrokerSig), e.op.isQuiet = true := by simp [Op.isQuiet]
  rcases a with x | _ | value
  · cases x with
    | idempotencyConflictError msg => exact conflicted _ quiet
    | _ =>
      exact raised _ _ quiet (.faulty _ _ (List.mem_append_right _ (List.mem_singleton.mpr rfl)))
  · exact reserving _ rfl fun _ => rfl
  · show wp _ _ (if _ then _ else _) _ _
    have seen : ⟨.redis (.get (IdempotencyStore.name (fullKey req grant key))),
        .ok (some value)⟩ ∈ tr ++ [⟨.redis (.get (IdempotencyStore.name (fullKey req grant key))),
          .ok (some value)⟩] := List.mem_append_right _ (List.mem_singleton.mpr rfl)
    split
    · exact conflicted _ quiet
    · rename_i complete
      have complete : IdempotencyStore.isPending value = false := by simpa using complete
      split
      · rename_i result parsed
        have replaying : wp (broker lib svc lossy) (invokeRole lib svc req)
            (.error <$> succeeded start result true : BrokerProg (Except InvokeOutcome Str)) Q
            (tr ++ [⟨.redis (.get (IdempotencyStore.name (fullKey req grant key))),
              .ok (some value)⟩]) := by
          show wp _ _ (succeeded start result true >>= fun o => Prog.ret (Except.error o)) _ _
          rw [wp_bind]
          refine wp_succeeded fun o now status result_eq cached => ?_
          rw [List.append_assoc]
          have quiet' : ∀ e ∈ ([⟨.redis (.get (IdempotencyStore.name (fullKey req grant key))),
              .ok (some value)⟩] ++ [⟨.clock, .ok now⟩] : Trace BrokerSig), e.op.isQuiet = true :=
            List.forall_mem_append.mpr ⟨quiet, by simp [Op.isQuiet]⟩
          refine answered o _ quiet' (.answered (.inl cached))
            (.replayed status (noResult quiet') ?_)
          exact .replayed key value keyed (by simp) complete (result_eq ▸ parsed) tool
            entering.tool_eq
        cases result with
        | null => exact reserving _ rfl fun _ => rfl
        | _ => exact replaying
      · rename_i malformed
        exact raised _ _ quiet (.corrupt key value keyed seen complete malformed)

/-! ## Admission -/

theorem wp_checkInvokeRate {Q : Post BrokerSig Bool} (unmarked : Unmarked lib req tr)
    (decided : ∀ allowed ext, (∀ e ∈ ext, e.op.isEntry = true) → Unmarked lib req (tr ++ ext) →
      (allowed = true → Paced svc grant (tr ++ ext)) → Q (.ok allowed) (tr ++ ext))
    (raised : ∀ x ext, (∀ e ∈ ext, e.op.isEntry = true) → Q (.error x) (tr ++ ext)) :
    wp (broker lib svc lossy) (invokeRole lib svc req) (checkInvokeRate svc grant) Q tr := by
  unfold checkInvokeRate
  split
  · refine ⟨trivial, fun a may _ => ?_⟩
    obtain ⟨now, rfl⟩ := may_sync rfl may
    refine ⟨.incr _ _, fun a may _ => ?_⟩
    rw [List.append_assoc]
    cases a with
    | error x => exact raised x _ (by simp [Op.isEntry])
    | ok count =>
      have paced : ∀ ext : Trace BrokerSig, decide
          (count ≤ svc.settings.invokesPerMinutePerAgent) = true →
          Paced svc grant (tr ++ ([⟨.clock, .ok now⟩] ++ [⟨.redis (.incr (RateLimiter.counterKey
            ("invoke:" ++ grant.agentId.str) (now / seconds RateLimiter.windowSeconds))),
            .ok count⟩] ++ ext)) := fun ext le _ =>
        ⟨now / seconds RateLimiter.windowSeconds, count, by simp, by simpa using le⟩
      show wp _ _ (if _ then _ else _) _ _
      split
      · refine ⟨.expire _ _ _, fun a may _ => ?_⟩
        rw [List.append_assoc]
        cases a with
        | error x => exact raised x _ (by simp [Op.isEntry])
        | ok done =>
          exact decided _ _ (by simp [Op.isEntry])
            (unmarked.append (unmarked_of_unchecked (by simp [Op.isCheck]))) (paced _)
      · have at_ := paced []
        rw [List.append_nil] at at_
        exact decided _ _ (by simp [Op.isEntry])
          (unmarked.append (unmarked_of_unchecked (by simp [Op.isCheck]))) at_
  · rename_i off
    simpa using decided true [] (by simp) (by simpa using unmarked)
      fun _ on => absurd on off

/-- A denial before the idempotency store is asked. -/
theorem wp_entry_denied {base : Trace BrokerSig} {error : Str} {reason : DeniedReason}
    (grown : base <+: tr) (inside : ∀ e ∈ tr, e.op.isEntry = true) :
    wp (broker lib svc lossy) (invokeRole lib svc req) (denied start error reason)
      (fun r tr' => Resolved lib svc req grant base r tr') tr := by
  refine wp_refused fun o secrets now status => ?_
  have noResult : NoResult (tr ++ refusal secrets now) := noResult_of_noCall
    (List.forall_mem_append.mpr ⟨fun e member => Op.isToolCall_of_isEntry (inside e member),
      by simp [refusal, Op.isToolCall]⟩)
  exact {
    grown := grown.trans (List.prefix_append _ _)
    noAdd := List.forall_mem_append.mpr
      ⟨fun e member => Op.isAdd_of_settles (Op.settles_of_isEntry (inside e member)),
        by simp [refusal, Op.isAdd]⟩
    live := .inr ⟨o, rfl, status⟩
    verdict := .refused (by simp [status]) noResult
    claim := .unasked (List.forall_mem_append.mpr
      ⟨fun e member => Op.isAsk_of_isEntry (inside e member), by simp [refusal, Op.isAsk]⟩) }

/-- An exception before the idempotency store is asked. -/
theorem resolved_raised {base : Trace BrokerSig} {x : PyExn} (grown : base <+: tr)
    (inside : ∀ e ∈ tr, e.op.isEntry = true) (live : Live lib req grant tr) :
    Resolved lib svc req grant base (.error x) tr where
  grown := grown
  noAdd e member := Op.isAdd_of_settles (Op.settles_of_isEntry (inside e member))
  live := .inl live
  verdict := .raised (noResult_of_noCall fun e member => Op.isToolCall_of_isEntry (inside e member))
  claim := .unasked fun e member => Op.isAsk_of_isEntry (inside e member)

/-- Steps 6 to 10. -/
theorem wp_entering {base : Trace BrokerSig} (grown : base <+: tr)
    (entering : Entering lib svc req grant tool tr) :
    wp (broker lib svc lossy) (invokeRole lib svc req)
      (match req.idempotencyKey, svc.idempotencyStore with
        | some key, some store => do
          match ← claimKey lib start (fullKey req grant key) with
          | .error outcome => return outcome
          | .ok reservation =>
            executeReserved lib svc req grant (hashToken lib req.grantToken) tool start store
              (fullKey req grant key) reservation
        | _, _ => executeCall lib svc req grant (hashToken lib req.grantToken) tool start)
      (fun r tr' => Resolved lib svc req grant base r tr') tr := by
  have noAdd : ∀ {ext : Trace BrokerSig}, (∀ e ∈ ext, e.op.isQuiet = true) →
      NoAdd (tr ++ ext) := fun quiet => List.forall_mem_append.mpr
    ⟨fun e member => Op.isAdd_of_settles (Op.settles_of_isEntry (entering.inside e member)),
      fun e member => Op.isAdd_of_settles (Op.settles_of_isQuiet (quiet e member))⟩
  split
  · rename_i key store keyed stored
    rw [wp_bind]
    refine wp_claimKey entering keyed stored ?_ ?_ ?_
    · intro owner ext quiet held
      refine wp_executeReserved (grown.trans (List.prefix_append _ _)) keyed stored held
        (entering.running quiet ?_)
      intro key' store' keyed' stored'
      rw [keyed] at keyed'
      exact ⟨owner, Option.some.inj keyed' ▸ held⟩
    · exact fun o ext quiet claim verdict => ⟨grown.trans (List.prefix_append _ _), noAdd quiet,
        .inl (entering.live.append _), verdict, claim⟩
    · exact fun x ext quiet claim => ⟨grown.trans (List.prefix_append _ _), noAdd quiet,
        .inl (entering.live.append _), .raised (entering.noResult.append (noResult_of_noCall
          fun e member => Op.isToolCall_of_isQuiet (quiet e member))), claim⟩
  · rename_i unkeyed
    have unkeyed : req.idempotencyKey = none ∨ svc.idempotencyStore = none := by
      rcases keyed : req.idempotencyKey with _ | key
      · exact .inl rfl
      · rcases stored : svc.idempotencyStore with _ | store
        · exact .inr rfl
        · exact (unkeyed key store keyed stored).elim
    have running : Running lib svc req grant tool (tr ++ []) :=
      entering.running (by simp) fun key store keyed stored => by simp [keyed, stored] at unkeyed
    rw [List.append_nil] at running
    refine wp_mono (wp_executeCall running) fun r tr' _ ended => ?_
    obtain ⟨grown', unsettled, executed⟩ := ended
    obtain ⟨ext, rfl⟩ := grown'
    refine ⟨grown.trans (List.prefix_append _ _), unsettled.noAdd, .inl (entering.live.append _),
      ?_, .unkeyed unkeyed⟩
    cases executed with
    | performed rest status sent clean => exact .performed rest status sent clean
    | refused status noResult => exact .refused status noResult
    | raised noResult => exact .raised noResult

/-- Steps 3 to 10. -/
theorem wp_invokeResolved {pre : Trace BrokerSig} {fastRevoked : Bool}
    (accepted : Accepted lib svc req tr) (found : tr = pre ++ [looked lib req grant])
    (inside : ∀ e ∈ tr, e.op.isEntry = true)
    (unmarked : fastRevoked = false → Unmarked lib req tr) :
    wp (broker lib svc lossy) (invokeRole lib svc req)
      (invokeResolved lib svc req grant (hashToken lib req.grantToken) start fastRevoked)
      (fun r tr' => Resolved lib svc req grant tr r tr') tr := by
  unfold invokeResolved
  split
  · exact wp_entry_denied List.prefix_rfl inside
  · rename_i unrevoked
    obtain ⟨clear, active⟩ : fastRevoked = false ∧ grant.revokedAt = none := by
      simpa using unrevoked
    refine ⟨trivial, fun a may _ => ?_⟩
    obtain ⟨now, rfl⟩ := may_sync rfl may
    have inside' : ∀ e ∈ tr ++ [⟨.clock, .ok now⟩], e.op.isEntry = true :=
      List.forall_mem_append.mpr ⟨inside, by simp [Op.isEntry]⟩
    show wp _ _ (if _ then _ else _) _ _
    split
    · exact wp_entry_denied (List.prefix_append _ _) inside'
    · rename_i unexpired
      have live : Live lib req grant (tr ++ [⟨.clock, .ok now⟩]) :=
        ⟨now, ⟨pre, [], by simp [found]⟩, active, Int.not_le.mp unexpired⟩
      show wp _ _ (checkInvokeRate svc grant >>= _) _ _
      rw [wp_bind]
      refine wp_checkInvokeRate
        ((unmarked clear).append (unmarked_of_unchecked (by simp [Op.isCheck]))) ?_ ?_
      · intro allowed ext entry unmarked' paced
        have grown : tr <+: tr ++ [⟨.clock, .ok now⟩] ++ ext :=
          (List.prefix_append _ _).trans (List.prefix_append _ _)
        have inside'' : ∀ e ∈ tr ++ [⟨.clock, .ok now⟩] ++ ext, e.op.isEntry = true :=
          List.forall_mem_append.mpr ⟨inside', entry⟩
        have live' := live.append ext
        rw [Post.next_ok]
        cases allowed with
        | false => exact wp_entry_denied grown inside''
        | true =>
          show wp _ _ (if _ then _ else _) _ _
          rw [if_neg (by decide)]
          split
          · exact wp_entry_denied grown inside''
          · exact resolved_raised grown inside'' live'
          · rename_i tool tool_eq
            split
            · exact wp_entry_denied grown inside''
            · rename_i scope_eq
              exact wp_entering grown ⟨(accepted.append _).append _, live', paced rfl, tool_eq,
                Decidable.not_not.mp scope_eq, unmarked', inside''⟩
      · exact fun x ext entry => resolved_raised
          ((List.prefix_append _ _).trans (List.prefix_append _ _))
          (List.forall_mem_append.mpr ⟨inside', entry⟩) (live.append ext)

/-! ## The service -/

variable (lib req) in
/-- What the outcome of a resolved invocation says about its trace. -/
inductive Reported (grant : Grant) (o : InvokeOutcome) (tr : Trace BrokerSig) : Prop
  | performed (rest : Trace BrokerSig) (status : o.status = .success)
      (sent : Sent req o.result rest tr) (clean : AllOk rest)
  | replayed (status : o.status = .success) (noResult : NoResult tr)
      (evidence : Evidence lib req grant o.result tr)
  | refused (status : o.status ≠ .success) (noResult : NoResult tr)
  | lost (result : Json) (rest : Trace BrokerSig) (status : o.status ≠ .success)
      (sent : Sent req result rest tr) (dirty : ¬ AllOk rest)

/-- A success is only reported on evidence. -/
theorem Reported.evidence {o : InvokeOutcome} (reported : Reported lib req grant o tr)
    (status : o.status = .success) : Evidence lib req grant o.result tr := by
  cases reported with
  | performed rest _ sent _ => exact .performed rest sent
  | replayed _ _ evidence => exact evidence
  | refused bad _ => exact (bad status).elim
  | lost _ _ bad _ _ => exact (bad status).elim

variable (req) in
/-- A result that the provider returned was followed by a failure. -/
def Spoiled (tr : Trace BrokerSig) : Prop := ∀ result rest, Sent req result rest tr → ¬ AllOk rest

theorem Spoiled.of_noResult (none : NoResult tr) : Spoiled req tr := fun _ _ sent =>
  (sent.not_noResult none).elim

theorem Spoiled.of_sent {result : Json} {rest : Trace BrokerSig} (sent : Sent req result rest tr)
    (dirty : ¬ AllOk rest) : Spoiled req tr := fun result' rest' sent' ok => by
  obtain ⟨-, rfl⟩ := sent.unique sent'
  exact dirty ok

theorem Spoiled.append (spoiled : Spoiled req tr) (none : ∀ e ∈ ext, e.op.isToolCall = false) :
    Spoiled req (tr ++ ext) := fun result rest' sent ok => by
  obtain ⟨rest, rfl, sent'⟩ := sent.of_append none
  exact spoiled result rest sent' fun e member => ok e (List.mem_append_left _ member)

theorem Verdict.spoiled {x : PyExn} (verdict : Verdict lib req grant tr (.error x)) :
    Spoiled req tr := by
  cases verdict with
  | raised noResult => exact .of_noResult noResult
  | lost result rest sent dirty => exact .of_sent sent dirty

theorem Verdict.reported {o : InvokeOutcome} (verdict : Verdict lib req grant tr (.ok o)) :
    Reported lib req grant o tr := by
  cases verdict with
  | performed rest status sent clean => exact .performed rest status sent clean
  | replayed status noResult evidence => exact .replayed status noResult evidence
  | refused status noResult => exact .refused status noResult

/-- The backstop's outcome says that the call failed, whatever the provider returned. -/
theorem Verdict.backstopped {x : PyExn} {o : InvokeOutcome}
    (verdict : Verdict lib req grant tr (.error x)) (status : o.status = .failed)
    (none : ∀ e ∈ ext, e.op.isToolCall = false) : Reported lib req grant o (tr ++ ext) := by
  cases verdict with
  | raised noResult =>
    exact .refused (by simp [status]) (noResult.append (noResult_of_noCall none))
  | lost result rest sent dirty =>
    exact .lost result (rest ++ ext) (by simp [status]) (sent.append none) fun ok =>
      dirty fun e member => ok e (List.mem_append_left _ member)

/-- What the store said stays said. -/
theorem Claim.append {x : PyExn} {r : Except PyExn InvokeOutcome}
    (claim : Claim lib svc req grant tr (.error x)) (none : ∀ e ∈ ext, e.op.isAsk = false) :
    Claim lib svc req grant (tr ++ ext) r := by
  cases claim with
  | unkeyed unkeyed => exact .unkeyed unkeyed
  | unasked unasked => exact .unasked (List.forall_mem_append.mpr ⟨unasked, none⟩)
  | held key owner keyed held => exact .held key owner keyed (held.append ext)
  | faulty cmd x raised => exact .faulty cmd x (List.mem_append_left _ raised)
  | corrupt key value keyed seen complete malformed =>
    exact .corrupt key value keyed (List.mem_append_left _ seen) complete malformed

variable (lib svc req) in
/-- How `invokeAudited` may end: with an outcome, or with what the backstop lets through. -/
inductive Backstopped (grant : Grant) (tr : Trace BrokerSig) : Except PyExn InvokeOutcome → Prop
  | reported {o} (live : Live lib req grant tr ∨ o.status = .denied)
      (reported : Reported lib req grant o tr) (claim : Claim lib svc req grant tr (.ok o)) :
      Backstopped grant tr (.ok o)
  | raised {x} (cause : x.isException = false ∨ ∃ y, ⟨.rollback, .error y⟩ ∈ tr)
      (spoiled : Spoiled req tr) : Backstopped grant tr (.error x)

theorem wp_invokeAudited {pre : Trace BrokerSig} {fastRevoked : Bool}
    (accepted : Accepted lib svc req tr) (found : tr = pre ++ [looked lib req grant])
    (inside : ∀ e ∈ tr, e.op.isEntry = true)
    (unmarked : fastRevoked = false → Unmarked lib req tr) :
    wp (broker lib svc lossy) (invokeRole lib svc req)
      (invokeAudited lib svc req grant (hashToken lib req.grantToken) start fastRevoked)
      (fun r tr' => tr <+: tr' ∧ NoAdd tr' ∧ Backstopped lib svc req grant tr' r) tr := by
  unfold invokeAudited
  rw [wp_bind, wp_attempt]
  refine wp_mono (wp_invokeResolved accepted found inside unmarked) fun r tr' _ resolved => ?_
  rw [Post.next_ok]
  cases r with
  | ok o =>
    refine ⟨resolved.grown, resolved.noAdd, .reported ?_ resolved.verdict.reported resolved.claim⟩
    rcases resolved.live with live | ⟨o', same, status⟩
    · exact .inl live
    · exact .inr (Except.ok.inj same ▸ status)
  | error x =>
    show wp _ _ (if _ then _ else _) _ _
    split
    · refine ⟨trivial, fun a may _ => ?_⟩
      have noAdd : NoAdd (tr' ++ [⟨.rollback, a⟩]) := resolved.noAdd.append (by simp [Op.isAdd])
      cases a with
      | error y =>
        exact ⟨resolved.grown.trans (List.prefix_append _ _), noAdd,
          .raised (.inr ⟨y, by simp⟩) (resolved.verdict.spoiled.append (by simp [Op.isToolCall]))⟩
      | ok _ =>
        refine wp_refused fun o secrets now status => ?_
        refine ⟨resolved.grown.trans ((List.prefix_append _ _).trans (List.prefix_append _ _)),
          noAdd.append (by simp [refusal, Op.isAdd]), ?_⟩
        rw [List.append_assoc]
        refine .reported (.inl ?_) ?_ ?_
        · rcases resolved.live with live | ⟨o', same, -⟩
          · exact live.append _
          · cases same
        · exact resolved.verdict.backstopped status (by simp [refusal, Op.isToolCall])
        · exact resolved.claim.append (by simp [refusal, Op.isAsk])
    · rename_i fatal
      exact ⟨resolved.grown, resolved.noAdd, .raised (.inl (by simpa using fatal))
        resolved.verdict.spoiled⟩

/-! ## The end of an invocation -/

variable (lib req) in
/-- The audit row of an outcome. -/
def auditRow (grant : Grant) (o : InvokeOutcome) : Row :=
  .audit ⟨grant.id, req.toolName, hashArguments lib req.arguments, o.status, o.latencyMs⟩

variable (lib svc req) in
/-- How an invocation may end. -/
inductive Concluded (tr : Trace BrokerSig) : Except PyExn InvokeOutcome → Prop
  /-- No row was looked up. -/
  | unresolved {r} (unfound : ∀ grant, looked lib req grant ∉ tr) (noAdd : NoAdd tr)
      (noCall : ∀ e ∈ tr, e.op.isToolCall = false)
      (denied : ∀ o, r = .ok o → o.status = .denied) : Concluded tr r
  /-- The audit row was committed. -/
  | audited {r} (grant : Grant) (o : InvokeOutcome) (pre : Trace BrokerSig)
      (closed : BrokerSig.Ans .close) (found : looked lib req grant ∈ pre) (noAdd : NoAdd pre)
      (live : Live lib req grant pre ∨ o.status = .denied)
      (reported : Reported lib req grant o pre) (claim : Claim lib svc req grant pre (.ok o))
      (trace_eq : tr = pre ++
        [⟨.add (auditRow lib req grant o), .ok ()⟩, ⟨.commit, .ok ()⟩, ⟨.close, closed⟩])
      (ended : r = closed.bind fun _ => .ok o) : Concluded tr r
  /-- The commit of the audit row raised. -/
  | unacknowledged {r} (grant : Grant) (o : InvokeOutcome) (pre : Trace BrokerSig) (x : PyExn)
      (closed : BrokerSig.Ans .close) (found : looked lib req grant ∈ pre) (noAdd : NoAdd pre)
      (trace_eq : tr = pre ++
        [⟨.add (auditRow lib req grant o), .ok ()⟩, ⟨.commit, .error x⟩, ⟨.close, closed⟩])
      (ended : r = closed.bind fun _ => .error x) : Concluded tr r
  /-- The invocation did not come to its audit row. -/
  | aborted {x} (grant : Grant) (found : looked lib req grant ∈ tr) (noAdd : NoAdd tr)
      (cause : x.isException = false ∨ ∃ y, ⟨.rollback, .error y⟩ ∈ tr)
      (spoiled : Spoiled req tr) : Concluded tr (.error x)

/-- What holds once the session is closed, however that ends. -/
def Post.closing {α : Type} (Q : Post BrokerSig α) : Post BrokerSig α := fun r tr =>
  ∀ closed : BrokerSig.Ans .close, (∀ x, closed = .error x → x.isException = false) →
    Q (closed.bind fun _ => r) (tr ++ [⟨.close, closed⟩])

/-- A session is closed after its body, whose end it passes on. -/
theorem wp_withSession {α : Type} {p : BrokerProg α} {role : Role BrokerSig}
    {Q : Post BrokerSig α} (open_ : ∀ tr, role.Guard tr .close)
    (body : wp (broker lib svc lossy) role p (Post.closing Q) tr) :
    wp (broker lib svc lossy) role (withSession p) Q tr := by
  unfold withSession
  rw [wp_bind, wp_attempt]
  refine wp_mono body fun r tr' _ ended => ⟨open_ _, fun closed may _ => ?_⟩
  have closed' := ended closed (by rintro x rfl; exact may_close may)
  cases closed with
  | error x => exact closed'
  | ok _ => exact (wp_ofExcept r).mpr closed'

/-- What holds of the value that a program returns, if it returns. -/
abbrev Post.onOk {α : Type} (Q : α → Trace BrokerSig → Prop) : Post BrokerSig α := fun ended tr =>
  ∀ v, ended = .ok v → Q v tr

section OnOk

variable {α β : Type} {p : BrokerProg α}

theorem onOk_error {Q : α → Trace BrokerSig → Prop} (x : PyExn) :
    Post.onOk Q (.error x) tr := by
  rintro v ⟨⟩

theorem wp_onOk_map {f : α → β} {Q : β → Trace BrokerSig → Prop}
    (body : wp (broker lib svc lossy) freeRole p (Post.onOk fun v => Q (f v)) tr) :
    wp (broker lib svc lossy) freeRole (f <$> p) (Post.onOk Q) tr := by
  refine wp_map (wp_mono body fun ended tr' _ told v same => ?_)
  cases ended with
  | error x => cases same
  | ok a =>
    obtain rfl := Except.ok.inj same
    exact told a rfl

/-- The closing of a session takes nothing back. -/
theorem wp_onOk_session {Q : α → Trace BrokerSig → Prop}
    (grows : ∀ v tr tr', tr <+: tr' → Q v tr → Q v tr')
    (body : wp (broker lib svc lossy) freeRole p (Post.onOk Q) tr) :
    wp (broker lib svc lossy) freeRole (withSession p) (Post.onOk Q) tr := by
  refine wp_withSession (fun _ => trivial) (wp_mono body fun ended tr' _ told closed _ v same => ?_)
  cases closed with
  | error x => cases same
  | ok _ => exact grows v _ _ (List.prefix_append _ _) (told v same)

end OnOk

variable (lib svc req) in
/-- The postcondition of the part of an invocation that has a session. -/
abbrev concludedPost : Post BrokerSig InvokeOutcome :=
  Post.closing fun r tr => Concluded lib svc req tr r

theorem looked_not_mem (unlooked : ∀ e ∈ tr, e.op.isLookup = false) (grant : Grant) :
    looked lib req grant ∉ tr := fun member => by cases unlooked _ member

/-- What is concluded when the lookup did not yield a row. -/
theorem concluded_unresolved {r : Except PyExn InvokeOutcome}
    (inside : ∀ e ∈ tr, e.op.isEntry = true) (unfound : ∀ grant, looked lib req grant ∉ tr)
    (denied : ∀ o, r = .ok o → o.status = .denied) (plain : ∀ e ∈ ext, e.op.isPlain = true) :
    concludedPost lib svc req r (tr ++ ext) := by
  intro closed _
  refine .unresolved (fun grant member => ?_) (List.forall_mem_append.mpr
    ⟨List.forall_mem_append.mpr ⟨fun e member => ?_, fun e member => ?_⟩, by simp [Op.isAdd]⟩)
    (List.forall_mem_append.mpr
      ⟨List.forall_mem_append.mpr ⟨fun e member => ?_, fun e member => ?_⟩,
        by simp [Op.isToolCall]⟩)
    fun o ended => ?_
  · rcases List.mem_append.mp member with member | member
    · rcases List.mem_append.mp member with member | member
      · exact unfound grant member
      · cases plain _ member
    · simp at member
  · exact Op.isAdd_of_settles (Op.settles_of_isEntry (inside e member))
  · exact Op.isAdd_of_settles (Op.settles_of_isQuiet (Op.isQuiet_of_isPlain (plain e member)))
  · exact Op.isToolCall_of_isEntry (inside e member)
  · exact Op.isToolCall_of_isQuiet (Op.isQuiet_of_isPlain (plain e member))
  · cases closed with
    | ok _ => exact denied o ended
    | error x => cases ended

/-- The audit row is added and committed, unless the backstop let an exception through. -/
theorem wp_recorded {pre : Trace BrokerSig} {fastRevoked : Bool}
    (found : looked lib req grant ∈ pre)
    (audited : wp (broker lib svc lossy) (invokeRole lib svc req)
      (invokeAudited lib svc req grant (hashToken lib req.grantToken) start fastRevoked)
      (fun r tr' => pre <+: tr' ∧ NoAdd tr' ∧ Backstopped lib svc req grant tr' r) tr) :
    wp (broker lib svc lossy) (invokeRole lib svc req)
      (do
        let outcome ←
          invokeAudited lib svc req grant (hashToken lib req.grantToken) start fastRevoked
        recordCall lib grant.id req.toolName req.arguments outcome.status outcome.latencyMs
        return outcome)
      (concludedPost lib svc req) tr := by
  rw [wp_bind]
  refine wp_mono audited fun r tr' _ ended => ?_
  obtain ⟨grown, noAdd, backstopped⟩ := ended
  have found := grown.subset found
  cases backstopped with
  | raised cause spoiled =>
    rename_i x
    intro closed cancelled
    have noAdd' : NoAdd (tr' ++ [⟨.close, closed⟩]) := noAdd.append (by simp [Op.isAdd])
    have spoiled' : Spoiled req (tr' ++ [⟨.close, closed⟩]) :=
      spoiled.append (by simp [Op.isToolCall])
    cases closed with
    | error y =>
      exact .aborted grant (List.mem_append_left _ found) noAdd' (.inl (cancelled y rfl)) spoiled'
    | ok _ =>
      refine .aborted grant (List.mem_append_left _ found) noAdd' (cause.imp_right ?_) spoiled'
      rintro ⟨y, member⟩
      exact ⟨y, List.mem_append_left _ member⟩
  | reported live reported claim =>
    rename_i o
    refine ⟨⟨_, rfl⟩, fun a may _ => ?_⟩
    obtain ⟨⟨⟩, rfl⟩ := may_sync rfl may
    refine ⟨.audit grant o tr' found noAdd reported.evidence rfl, fun a may _ => ?_⟩
    cases a with
    | ok _ =>
      exact fun closed _ =>
        .audited grant o tr' closed found noAdd live reported claim (by simp [auditRow]) rfl
    | error x =>
      exact fun closed _ =>
        .unacknowledged grant o tr' x closed found noAdd (by simp [auditRow]) rfl

/-- The part of `invoke` that has a session, after the token was verified. -/
theorem wp_invokeGranted (accepted : Accepted lib svc req tr)
    (inside : ∀ e ∈ tr, e.op.isEntry = true) (unlooked : ∀ e ∈ tr, e.op.isLookup = false)
    (unchecked : ∀ e ∈ tr, e.op.isCheck = false) :
    wp (broker lib svc lossy) (invokeRole lib svc req) (invokeGranted lib svc req start)
      (concludedPost lib svc req) tr := by
  have looking : ∀ (fastRevoked : Bool) (ext : Trace BrokerSig),
      (∀ e ∈ ext, e.op.isCheck = true) → (fastRevoked = false → Unmarked lib req (tr ++ ext)) →
      ∀ next : Option Grant → BrokerProg InvokeOutcome,
      next none = denied start "grant not found" .notFound →
      (∀ grant, next (some grant) = do
        let outcome ← invokeAudited lib svc req grant (hashToken lib req.grantToken)
          start fastRevoked
        recordCall lib grant.id req.toolName req.arguments outcome.status outcome.latencyMs
        return outcome) →
      wp (broker lib svc lossy) (invokeRole lib svc req)
        (op (.query (.grantByTokenHash (hashToken lib req.grantToken))) >>= next)
        (concludedPost lib svc req) (tr ++ ext) := by
    intro fastRevoked ext checks unmarked next missing found
    have unlooked' : ∀ e ∈ tr ++ ext, e.op.isLookup = false := List.forall_mem_append.mpr
      ⟨unlooked, fun e member => Op.isLookup_of_isCheck (checks e member)⟩
    have inside' : ∀ e ∈ tr ++ ext, e.op.isEntry = true := List.forall_mem_append.mpr
      ⟨inside, fun e member => Op.isEntry_of_isCheck (checks e member)⟩
    refine ⟨unlooked', fun a may _ => ?_⟩
    have inside'' : ∀ e ∈ tr ++ ext ++
        [⟨.query (.grantByTokenHash (hashToken lib req.grantToken)), a⟩], e.op.isEntry = true :=
      List.forall_mem_append.mpr ⟨inside', by simp [Op.isEntry]⟩
    have unfound : ∀ b : BrokerSig.Ans (.query (.grantByTokenHash (hashToken lib req.grantToken))),
        (∀ grant, b ≠ .ok (some grant)) → ∀ grant, looked lib req grant ∉ tr ++ ext ++
          [⟨.query (.grantByTokenHash (hashToken lib req.grantToken)), b⟩] := by
      intro b missed grant member
      rcases List.mem_append.mp member with old | new
      · exact looked_not_mem unlooked' grant old
      · exact missed grant (by simpa using (List.mem_singleton.mp new).symm)
    rcases a with x | _ | grant
    · have ended : concludedPost lib svc req (.error x) (_ ++ []) :=
        concluded_unresolved inside'' (unfound (.error x) (by simp)) (by simp) (by simp)
      rw [List.append_nil] at ended
      exact ended
    · show wp _ _ (next none) _ _
      rw [missing]
      refine wp_refused fun o secrets now status => ?_
      refine concluded_unresolved inside'' (unfound _ (by simp)) ?_ refusal_plain
      rintro o' ⟨⟩
      exact status
    · show wp _ _ (next (some grant)) _ _
      rw [found]
      exact wp_recorded (List.mem_append_right _ (List.mem_singleton.mpr rfl))
        (wp_invokeAudited ((accepted.append _).append _) rfl inside'' fun clear =>
          (unmarked clear).append (unmarked_of_unchecked (by simp [Op.isCheck])))
  unfold invokeGranted
  rw [wp_bind]
  refine wp_markedRevoked ?_ ?_
  · exact looking false _ unmarkedNow_checks
      (fun _ => (unmarked_of_unchecked unchecked).append unmarked_unmarkedNow) _ rfl fun _ => rfl
  · intro r ext stop checks
    cases r with
    | error x =>
      have ended : concludedPost lib svc req (.error x) (tr ++ ext ++ []) :=
        concluded_unresolved (List.forall_mem_append.mpr
          ⟨inside, fun e member => Op.isEntry_of_isCheck (checks e member)⟩)
          (looked_not_mem (List.forall_mem_append.mpr
            ⟨unlooked, fun e member => Op.isLookup_of_isCheck (checks e member)⟩))
          (by simp) (by simp)
      rw [List.append_nil] at ended
      exact ended
    | ok marked =>
      exact looking marked ext checks (fun clear => (stop (clear ▸ rfl)).elim) _ rfl fun _ => rfl

/-- `invoke` around its session: the token is verified first, and a refusal
there comes without one. -/
theorem wp_invoke_of {Q : Post BrokerSig InvokeOutcome}
    (early : ∀ r start now ext, (∀ e ∈ ext, e.op.isPlain = true) →
      (∀ o, r = .ok o → o.status = .denied) →
      Q r ([⟨.clock, .ok start⟩, ⟨.clock, .ok now⟩] ++ ext))
    (body : ∀ start now, Accepted lib svc req [⟨.clock, .ok start⟩, ⟨.clock, .ok now⟩] →
      wp (broker lib svc lossy) (invokeRole lib svc req) (invokeGranted lib svc req start)
        (Post.closing Q) [⟨.clock, .ok start⟩, ⟨.clock, .ok now⟩]) :
    wp (broker lib svc lossy) (invokeRole lib svc req) (invoke lib svc req) Q [] := by
  refine ⟨trivial, fun a may _ => ?_⟩
  obtain ⟨start, rfl⟩ := may_sync rfl may
  have refusing : ∀ (now : Time) (error : Str) (reason : DeniedReason),
      wp (broker lib svc lossy) (invokeRole lib svc req) (denied start error reason) Q
        [⟨.clock, .ok start⟩, ⟨.clock, .ok now⟩] := by
    intro now error reason
    refine wp_refused fun o secrets later status => early _ _ _ _ refusal_plain ?_
    rintro o' ⟨⟩
    exact status
  show wp _ _ ((verifyGrantToken lib svc req.grantToken).attempt >>= _) _ _
  rw [wp_bind, wp_attempt]
  refine ⟨trivial, fun a may _ => ?_⟩
  obtain ⟨now, rfl⟩ := may_sync rfl may
  show wp _ _
    (Prog.ofExcept (verifiedClaims lib svc req.grantToken now) : BrokerProg GrantClaims) _ _
  rw [wp_ofExcept, Post.next_ok]
  split
  · exact refusing _ _ _
  · exact refusing _ _ _
  · exact early _ start now [] (by simp) (by simp)
  · rename_i claims accepted
    split
    · exact refusing _ _ _
    · rename_i tool_eq
      exact wp_withSession (fun _ => trivial)
        (body start now ⟨start, now, claims, by simp, accepted, Decidable.not_not.mp tool_eq⟩)

/-- What is concluded without a session. -/
theorem concluded_early {r : Except PyExn InvokeOutcome} {start now : Time}
    (plain : ∀ e ∈ ext, e.op.isPlain = true) (denied : ∀ o, r = .ok o → o.status = .denied) :
    Concluded lib svc req ([⟨.clock, .ok start⟩, ⟨.clock, .ok now⟩] ++ ext) r := by
  have plain : ∀ e ∈ ([⟨.clock, .ok start⟩, ⟨.clock, .ok now⟩] ++ ext : Trace BrokerSig),
      e.op.isPlain = true := List.forall_mem_append.mpr ⟨by simp [Op.isPlain], plain⟩
  refine .unresolved (fun grant member => ?_) (fun e member => ?_) (fun e member => ?_) denied
  · cases plain _ member
  · exact Op.isAdd_of_settles (Op.settles_of_isQuiet (Op.isQuiet_of_isPlain (plain e member)))
  · exact Op.isToolCall_of_isQuiet (Op.isQuiet_of_isPlain (plain e member))

/-- The session of an invocation whose token was accepted. -/
theorem wp_session {now : Time}
    (accepted : Accepted lib svc req [⟨.clock, .ok start⟩, ⟨.clock, .ok now⟩]) :
    wp (broker lib svc lossy) (invokeRole lib svc req) (invokeGranted lib svc req start)
      (concludedPost lib svc req) [⟨.clock, .ok start⟩, ⟨.clock, .ok now⟩] :=
  wp_invokeGranted accepted (by simp [Op.isEntry]) (by simp [Op.isLookup]) (by simp [Op.isCheck])

variable (lib svc req) in
/-- `invoke`, from its first event to its last. -/
theorem wp_invoke :
    wp (broker lib svc lossy) (invokeRole lib svc req) (invoke lib svc req)
      (fun r tr => Concluded lib svc req tr r) [] :=
  wp_invoke_of (fun _ _ _ _ plain denied => concluded_early plain denied) fun _ _ => wp_session

end CredBroker
