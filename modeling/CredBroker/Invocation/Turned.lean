import CredBroker.Invocation.Settlement
import CredBroker.Invocation.Shown

/-!
# Invocations that find their key taken

Step 6 looks at the key, and where nothing is there it tries to reserve it. An
invocation that finds a marker or a result, or whose reservation is refused, is
answered by a conflict or by a replay, whatever else it does.
-/

namespace CredBroker

open Python Interaction

variable {lib : Lib} {svc : Services} {lossy : Bool} {req : InvokeRequest} {grant : Grant}
  {tokenHash : Str} {tool : ToolAdapter} {start : Time} {tr ext : Trace BrokerSig}

/-! ## Looks and reservations in a trace -/

/-- The operations with which step 6 asks for its key. -/
def Op.claims (e : Op) : Bool := e.isAsk || e.isReserve

/-- A marker, or a result that `get` does not take for a missing one. -/
def Taken (lib : Lib) (value : Str) : Prop :=
  IdempotencyStore.isPending value = true ∨
    ∃ stored, Json.loads lib.floatRepr value = some stored ∧ stored ≠ .null

/-- The invocation found its key taken: when it looked, or when it tried to reserve it. -/
def Turned (lib : Lib) (tr : Trace BrokerSig) : Prop :=
  (∃ name value, tr.find? (·.op.isAsk) = some ⟨.redis (.get name), .ok (some value)⟩ ∧
      Taken lib value) ∨
    ∃ name value ex, ⟨.redis (.set name value true ex), .ok false⟩ ∈ tr

/-- A replay or a conflict. -/
def Away (o : InvokeOutcome) : Prop :=
  o.fromCache = true ∨ o.deniedReason = some .idempotencyConflict

theorem Op.isAsk_of_claims {e : Op} (h : e.claims = false) : e.isAsk = false :=
  (Bool.or_eq_false_iff.mp h).1

theorem Op.isReserve_of_claims {e : Op} (h : e.claims = false) : e.isReserve = false :=
  (Bool.or_eq_false_iff.mp h).2

theorem Op.claims_of_isEntry {e : Op} (h : e.isEntry = true) : e.claims = false := by
  rw [Op.claims, Op.isAsk_of_isEntry h, Op.isReserve_of_isEntry h]
  rfl

theorem Op.claims_of_isExecute {e : Op} (h : e.isExecute = true) : e.claims = false := by
  rw [Op.claims, Op.isAsk_of_isExecute h, Op.isReserve_of_isExecute h]
  rfl

theorem Op.claims_of_isPlain {e : Op} (h : e.isPlain = true) : e.claims = false := by
  cases e <;> first | rfl | cases h

theorem Op.claims_of_isRecord {e : Op} (h : e.isRecord = true) : e.claims = false := by
  cases e <;> first | rfl | cases h

/-- A trace without such operations. -/
abbrev Idle (tr : Trace BrokerSig) : Prop := ∀ e ∈ tr, e.op.claims = false

theorem idle_one {e : Event BrokerSig} (idle : e.op.claims = false) : Idle [e] := by
  intro e' member
  obtain rfl := List.mem_singleton.mp member
  exact idle

/-- A program that has claimed nothing was turned away from nothing. -/
theorem not_turned_of_idle (idle : Idle tr) : ¬ Turned lib tr := by
  rintro (⟨name, value, found, -⟩ | ⟨name, value, ex, member⟩)
  · have asks := List.find?_some found
    rw [Op.isAsk_of_claims (idle _ (List.mem_of_find?_eq_some found))] at asks
    cases asks
  · cases Op.isReserve_of_claims (idle _ member)

/-- What was found stays found, and operations that do not ask find nothing more. -/
theorem turned_append_idle (idle : Idle ext) : Turned lib (tr ++ ext) ↔ Turned lib tr := by
  have unasked : ∀ e ∈ ext, e.op.isAsk = false := fun e member => Op.isAsk_of_claims (idle e member)
  unfold Turned
  rw [find_unasked unasked]
  refine or_congr_right ⟨?_, ?_⟩
  · rintro ⟨name, value, ex, member⟩
    rcases List.mem_append.mp member with old | new
    · exact ⟨name, value, ex, old⟩
    · cases Op.isReserve_of_claims (idle _ new)
  · rintro ⟨name, value, ex, member⟩
    exact ⟨name, value, ex, List.mem_append_left _ member⟩

/-- Only the first look counts, and a reservation that is not refused. -/
theorem not_turned_append {e : Event BrokerSig} (asked : tr.find? (·.op.isAsk) = some e)
    (unturned : ¬ Turned lib tr)
    (unrefused : ∀ name value ex, ⟨.redis (.set name value true ex), .ok false⟩ ∉ ext) :
    ¬ Turned lib (tr ++ ext) := by
  rintro (⟨name, value, found, taken⟩ | ⟨name, value, ex, member⟩)
  · rw [find_asked asked] at found
    exact unturned (.inl ⟨name, value, asked.trans found, taken⟩)
  · rcases List.mem_append.mp member with old | new
    · exact unturned (.inr ⟨name, value, ex, old⟩)
    · exact unrefused name value ex new

/-! ## Step 6 -/

/-- How step 6 ends: with a reservation, after a look that found nothing, or with an outcome. -/
def claimTurned (lib : Lib) : Post BrokerSig (Except InvokeOutcome Str) := fun r tr =>
  (∀ owner, r = .ok (.ok owner) → ¬ Turned lib tr ∧ ∃ e, tr.find? (·.op.isAsk) = some e) ∧
    (∀ o, r = .ok (.error o) → Away o) ∧ ∀ x, r = .error x → ¬ Turned lib tr

theorem claimTurned_early {o : InvokeOutcome} (away : Away o) :
    claimTurned lib (.ok (.error o)) tr := by
  refine ⟨fun owner same => ?_, fun o' same => ?_, fun x same => ?_⟩
  · cases same
  · cases same
    exact away
  · cases same

theorem claimTurned_error (x : PyExn) (unturned : ¬ Turned lib tr) :
    claimTurned lib (.error x) tr := by
  refine ⟨fun owner same => ?_, fun o same => ?_, fun y _ => unturned⟩
  · cases same
  · cases same

/-- A conflict is an outcome of an invocation that was turned away. -/
theorem wp_conflict_turned :
    wp (broker lib svc lossy) freeRole
      (.error <$> conflict start : BrokerProg (Except InvokeOutcome Str)) (claimTurned lib) tr := by
  refine ⟨trivial, fun a may _ => ?_⟩
  obtain ⟨secrets, rfl⟩ := may_sync rfl may
  refine ⟨trivial, fun a may _ => ?_⟩
  obtain ⟨now, rfl⟩ := may_sync rfl may
  exact claimTurned_early (.inr rfl)

/-- A look that finds nothing, or `null`, is not the last word. -/
theorem not_turned_looking (idle : Idle tr) {key : Str}
    {a : BrokerSig.Ans (.redis (.get (IdempotencyStore.name key)))}
    (untaken : ∀ value, a = .ok (some value) → ¬ Taken lib value) :
    ¬ Turned lib (tr ++ [looking key a]) := by
  have unasked : ∀ e ∈ tr, e.op.isAsk = false := fun e member => Op.isAsk_of_claims (idle e member)
  rintro (⟨name, value, found, taken⟩ | ⟨name, value, ex, member⟩)
  · rw [find_looking unasked] at found
    cases found
    exact untaken value rfl taken
  · rcases List.mem_append.mp member with old | new
    · cases Op.isReserve_of_claims (idle _ old)
    · cases List.mem_singleton.mp new

/-- A reservation that is refused ends in one. -/
theorem wp_reserve_turned {key : Str} {e : Event BrokerSig} (unturned : ¬ Turned lib tr)
    (asked : tr.find? (·.op.isAsk) = some e)
    {next : Option Str → BrokerProg (Except InvokeOutcome Str)}
    (lost : next .none = .error <$> conflict start)
    (won : ∀ reservation, next (some reservation) = return .ok reservation) :
    wp (broker lib svc lossy) freeRole (IdempotencyStore.reserve key >>= next)
      (claimTurned lib) tr := by
  rw [wp_bind]
  refine ⟨trivial, fun a may _ => ?_⟩
  obtain ⟨owner, rfl⟩ := may_sync rfl may
  refine ⟨trivial, fun a _ _ => ?_⟩
  rw [List.append_assoc]
  rcases a with x | _ | _
  · exact claimTurned_error x (not_turned_append asked unturned (by simp))
  · show wp _ _ (next .none) _ _
    rw [lost]
    exact wp_conflict_turned
  · show wp _ _ (next (some owner)) _ _
    rw [won]
    refine ⟨fun owner' _ => ⟨not_turned_append asked unturned (by simp), e, find_asked asked⟩, ?_,
      ?_⟩
    · intro o same
      cases same
    · intro x same
      cases same

/-- A claim returns an owner after a look that found nothing, or ends in a replay or a
conflict. -/
theorem wp_claimKey_turned {key : Str} (idle : Idle tr) :
    wp (broker lib svc lossy) freeRole (claimKey lib start key) (claimTurned lib) tr := by
  have unasked : ∀ e ∈ tr, e.op.isAsk = false := fun e member => Op.isAsk_of_claims (idle e member)
  unfold claimKey
  rw [wp_bind, wp_attempt]
  refine ⟨trivial, fun a _ _ => ?_⟩
  have asked := find_looking unasked key a
  rcases a with x | _ | value
  · cases x with
    | idempotencyConflictError msg => exact wp_conflict_turned
    | _ => exact claimTurned_error _ (not_turned_looking idle (by simp))
  · exact wp_reserve_turned (not_turned_looking idle (by simp)) asked rfl fun _ => rfl
  · show wp _ _ (if _ then _ else _) _ _
    split
    · exact wp_conflict_turned
    · rename_i complete
      split
      · rename_i result parsed
        have replaying : wp (broker lib svc lossy) freeRole
            (.error <$> succeeded start result true : BrokerProg (Except InvokeOutcome Str))
            (claimTurned lib) (tr ++ [looking key (.ok (some value))]) := by
          refine ⟨trivial, fun a may _ => ?_⟩
          obtain ⟨now, rfl⟩ := may_sync rfl may
          exact claimTurned_early (.inl rfl)
        cases result with
        | null =>
          refine wp_reserve_turned (not_turned_looking idle ?_) asked rfl fun _ => rfl
          rintro value' same (pending | ⟨stored, parsed', other⟩)
          · cases same
            exact complete pending
          · cases same
            exact other (Option.some.inj (parsed'.symm.trans parsed))
        | _ => exact replaying
      · rename_i malformed
        refine claimTurned_error _ (not_turned_looking idle ?_)
        rintro value' same (pending | ⟨stored, parsed, -⟩)
        · cases same
          exact complete pending
        · cases same
          rw [malformed] at parsed
          cases parsed

/-! ## The service -/

/-- An invocation that found its key taken has an outcome that says so. -/
def turnedPost (lib : Lib) : Post BrokerSig InvokeOutcome := fun r tr =>
  Turned lib tr → ∃ o, r = .ok o ∧ Away o

theorem turnedPost_idle {r : Except PyExn InvokeOutcome} (idle : Idle tr) : turnedPost lib r tr :=
  fun turned => (not_turned_of_idle idle turned).elim

/-- A program that does not ask, after a trace that did not find anything. -/
theorem wp_unturned {p : BrokerProg InvokeOutcome} {c : Op → Bool} (uses : Within p c)
    (none : ∀ {e : Op}, c e = true → e.claims = false) (unturned : ¬ Turned lib tr) :
    wp (broker lib svc lossy) freeRole p (turnedPost lib) tr := by
  refine wp_of_uses uses (fun _ _ _ => trivial) fun r ext inside turned => ?_
  exact (unturned ((turned_append_idle fun e member => none (inside e member)).mp turned)).elim

theorem wp_refused_turned {status : Status} {error : Str} {reason : Option DeniedReason}
    (unturned : ¬ Turned lib tr) :
    wp (broker lib svc lossy) freeRole (refused start status error reason) (turnedPost lib) tr :=
  wp_unturned (refused_uses ..) Op.claims_of_isPlain unturned

/-- Who has reserved is not turned away later. -/
theorem wp_executeReserved_turned {store : IdempotencyStore} {key owner : Str}
    {e : Event BrokerSig} (unturned : ¬ Turned lib tr) (asked : tr.find? (·.op.isAsk) = some e) :
    wp (broker lib svc lossy) freeRole
      (executeReserved lib svc req grant tokenHash tool start store key owner)
      (turnedPost lib) tr := by
  refine wp_of_uses executeReserved_uses (fun _ _ _ => trivial) fun r ext inside turned => ?_
  refine (not_turned_append asked unturned (fun name value ex member => ?_) turned).elim
  have reserves := inside _ member
  cases reserves

/-- The head of a sequence, before the store is asked. -/
theorem wp_head_turned {α : Type} {p : BrokerProg α} {f : α → BrokerProg InvokeOutcome}
    (uses : Within p Op.isEntry) (idle : Idle tr)
    (tail : ∀ a tr', Idle tr' → wp (broker lib svc lossy) freeRole (f a) (turnedPost lib) tr') :
    wp (broker lib svc lossy) freeRole (p >>= f) (turnedPost lib) tr := by
  rw [wp_bind]
  refine wp_of_uses uses (fun _ _ _ => trivial) fun r ext entries => ?_
  have idle' : Idle (tr ++ ext) := List.forall_mem_append.mpr
    ⟨idle, fun e member => Op.claims_of_isEntry (entries e member)⟩
  cases r with
  | ok a => exact tail a _ idle'
  | error x => exact turnedPost_idle idle'

/-- Who finds the key taken has an outcome that says so. -/
theorem wp_invokeResolved_turned {fastRevoked : Bool} (idle : Idle tr) :
    wp (broker lib svc lossy) freeRole
      (invokeResolved lib svc req grant tokenHash start fastRevoked) (turnedPost lib) tr := by
  have refused_idle {tr : Trace BrokerSig} {status : Status} {error : Str}
      {reason : Option DeniedReason} (idle : Idle tr) : wp (broker lib svc lossy) freeRole
        (refused start status error reason) (turnedPost lib) tr :=
    wp_refused_turned (not_turned_of_idle idle)
  unfold invokeResolved
  split
  · exact refused_idle idle
  · refine wp_head_turned (within_op rfl) idle fun now tr₁ idle => ?_
    split
    · exact refused_idle idle
    · refine wp_head_turned checkInvokeRate_entry idle fun allowed tr₂ idle => ?_
      split
      · exact refused_idle idle
      · split
        · exact refused_idle idle
        · exact turnedPost_idle idle
        · split
          · exact refused_idle idle
          · split
            · rw [wp_bind]
              refine wp_mono (wp_claimKey_turned idle) fun r tr' _ claimed => ?_
              rcases r with x | outcome | reservation
              · intro turned
                exact (claimed.2.2 x rfl turned).elim
              · intro _
                exact ⟨outcome, rfl, claimed.2.1 outcome rfl⟩
              · obtain ⟨unturned, e, asked⟩ := claimed.1 reservation rfl
                exact wp_executeReserved_turned unturned asked
            · exact wp_unturned executeCall_uses Op.claims_of_isExecute (not_turned_of_idle idle)

/-- The handler around it keeps that outcome. -/
theorem wp_invokeAudited_turned {fastRevoked : Bool} (idle : Idle tr) :
    wp (broker lib svc lossy) freeRole
      (invokeAudited lib svc req grant tokenHash start fastRevoked) (turnedPost lib) tr := by
  unfold invokeAudited
  rw [wp_bind, wp_attempt]
  refine wp_mono (wp_invokeResolved_turned idle) fun r tr' _ post => ?_
  rw [Post.next_ok]
  cases r with
  | ok o => exact post
  | error x =>
    have unturned : ¬ Turned lib tr' := by
      intro turned
      obtain ⟨o, same, -⟩ := post turned
      cases same
    show wp _ _ (if _ then _ else _) _ _
    split
    · refine ⟨trivial, fun a _ _ => ?_⟩
      have unturned' : ¬ Turned lib (tr' ++ [⟨.rollback, a⟩]) := fun turned =>
        unturned ((turned_append_idle (idle_one rfl)).mp turned)
      cases a with
      | error y => exact fun turned => (unturned' turned).elim
      | ok _ => exact wp_refused_turned unturned'
    · exact fun turned => (unturned turned).elim

/-- What an invocation returns, where it returns an outcome. -/
def awayPost (lib : Lib) : Post BrokerSig InvokeOutcome := fun r tr =>
  ∀ o, r = .ok o → Turned lib tr → Away o

theorem awayPost_error (x : PyExn) : awayPost lib (.error x) tr := by
  intro o same
  cases same

theorem away_of_turnedPost {r : Except PyExn InvokeOutcome} (post : turnedPost lib r tr) :
    awayPost lib r tr := by
  intro o same turned
  obtain ⟨o', same', away⟩ := post turned
  obtain rfl := Except.ok.inj (same.symm.trans same')
  exact away

theorem awayPost.append {r : Except PyExn InvokeOutcome} (post : awayPost lib r tr)
    (idle : Idle ext) : awayPost lib r (tr ++ ext) :=
  fun o same turned => post o same ((turned_append_idle idle).mp turned)

/-- So does the audit row. -/
theorem wp_invokeGranted_turned (idle : Idle tr) :
    wp (broker lib svc lossy) freeRole (invokeGranted lib svc req start) (awayPost lib) tr := by
  unfold invokeGranted
  rw [wp_bind]
  refine wp_of_uses markedRevoked_entry (fun _ _ _ => trivial) fun r ext entries => ?_
  cases r with
  | error x => exact awayPost_error x
  | ok fastRevoked =>
    refine ⟨trivial, fun a _ _ => ?_⟩
    have idle' : Idle (tr ++ ext ++
        [⟨.query (.grantByTokenHash (hashToken lib req.grantToken)), a⟩]) :=
      List.forall_mem_append.mpr ⟨List.forall_mem_append.mpr
        ⟨idle, fun e member => Op.claims_of_isEntry (entries e member)⟩,
          idle_one rfl⟩
    rcases a with x | _ | grant
    · exact awayPost_error x
    · exact wp_mono (wp_refused_turned (not_turned_of_idle idle')) fun _ _ _ => away_of_turnedPost
    · show wp _ _
        (invokeAudited lib svc req grant (hashToken lib req.grantToken) start fastRevoked >>= _) _ _
      rw [wp_bind]
      refine wp_mono (wp_invokeAudited_turned idle') fun r tr'' _ post => ?_
      cases r with
      | error x => exact awayPost_error x
      | ok outcome =>
        show wp _ _ (recordCall lib grant.id req.toolName req.arguments outcome.status
          outcome.latencyMs >>= _) _ _
        rw [wp_bind]
        have records : Within (recordCall lib grant.id req.toolName req.arguments outcome.status
            outcome.latencyMs) Op.isRecord := .bind (within_op rfl) fun _ => within_op rfl
        refine wp_of_uses records (fun _ _ _ => trivial) fun r ext recorded => ?_
        cases r with
        | error x => exact awayPost_error x
        | ok _ =>
          exact (away_of_turnedPost post).append fun e member =>
            Op.claims_of_isRecord (recorded e member)

variable (lib svc lossy req) in
/-- `invoke` answers a replay or a conflict where it found its key taken. -/
theorem wp_invoke_turned :
    wp (broker lib svc lossy) freeRole (invoke lib svc req) (awayPost lib) [] := by
  refine ⟨trivial, fun a may _ => ?_⟩
  obtain ⟨now, rfl⟩ := may_sync rfl may
  show wp _ _ ((verifyGrantToken lib svc req.grantToken).attempt >>= _) _ _
  rw [wp_bind, wp_attempt]
  refine wp_of_uses verifyGrantToken_entry (fun _ _ _ => trivial) fun r ext entries => ?_
  have idle : Idle ([] ++ [⟨.clock, .ok now⟩] ++ ext) :=
    List.forall_mem_append.mpr ⟨idle_one rfl,
      fun e member => Op.claims_of_isEntry (entries e member)⟩
  have refusing {message : Str} {reason : DeniedReason} :
      wp (broker lib svc lossy) freeRole (denied now message reason) (awayPost lib)
        ([] ++ [⟨.clock, .ok now⟩] ++ ext) :=
    wp_mono (wp_refused_turned (not_turned_of_idle idle)) fun _ _ _ => away_of_turnedPost
  rw [Post.next_ok]
  split
  · exact refusing
  · exact refusing
  · exact awayPost_error _
  · split
    · exact refusing
    · refine wp_withSession (fun _ => trivial) (wp_mono (wp_invokeGranted_turned idle) ?_)
      intro r tr' _ post closed _
      cases closed with
      | ok _ => exact post.append (idle_one rfl)
      | error x => exact awayPost_error x

end CredBroker
