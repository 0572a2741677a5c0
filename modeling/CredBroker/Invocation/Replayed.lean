import CredBroker.Invocation.Verdict

/-!
# Replayed outcomes

An outcome is marked as coming from the cache only where a completed result was
found under the invocation's key, and then it carries that result.
-/

namespace CredBroker

open Python Interaction

variable {lib : Lib} {svc : Services} {lossy : Bool} {req : InvokeRequest} {grant : Grant}
  {tokenHash : Str} {account : ConnectedAccount} {tool : ToolAdapter} {start : Time}
  {tr : Trace BrokerSig}

/-! ## Outcomes that are made -/

/-- What holds of every outcome that `_execute_call` makes: of a result, a failure, and the
refusal of a revoked grant. -/
structure OfCalls (R : InvokeOutcome → Prop) : Prop where
  result (result : Json) (latencyMs : Nat) : R ⟨.success, result, none, latencyMs, false, none⟩
  failure (error : Str) (latencyMs : Nat) : R ⟨.failed, .null, some error, latencyMs, false, none⟩
  revoked (error : Str) (latencyMs : Nat) :
    R ⟨.denied, .null, some error, latencyMs, false, some .revoked⟩

section OfCalls

variable {R : InvokeOutcome → Prop} (all : OfCalls R)

/-- A step ends the invocation early with such an outcome only. -/
abbrev Early (R : InvokeOutcome → Prop) {α : Type} (r : Except InvokeOutcome α) : Prop :=
  ∀ o, r = .error o → R o

theorem early_ok {α : Type} (a : α) : Early R (.ok a : Except InvokeOutcome α) := by
  rintro o ⟨⟩

/-- A program that ends early returns what its message program returns. -/
theorem early_of_returns {α : Type} {p : BrokerProg InvokeOutcome} (returns : p.Returns R) :
    (.error <$> p : BrokerProg (Except InvokeOutcome α)).Returns (Early R) :=
  .bind_of returns fun o made => by
    rintro o' ⟨⟩
    exact made

include all

theorem succeeded_ofCalls {result : Json} : (succeeded start result false).Returns R :=
  .bind fun latencyMs => all.result result latencyMs

theorem failed_ofCalls {error : Str} : (failed start error).Returns R :=
  .bind fun error => .bind fun latencyMs => all.failure error latencyMs

theorem revoked_ofCalls {error : Str} : (denied start error .revoked).Returns R :=
  .bind fun error => .bind fun latencyMs => all.revoked error latencyMs

theorem failed_early {α : Type} {error : Str} :
    (.error <$> failed start error : BrokerProg (Except InvokeOutcome α)).Returns (Early R) :=
  early_of_returns (failed_ofCalls all)

theorem refreshOrOutcome_ofCalls :
    (refreshOrOutcome lib svc account start).Returns (Early R) := by
  refine .bind fun r => ?_
  split
  · exact early_ok _
  · exact failed_early all
  · exact failed_early all
  · exact failed_early all
  · split
    · exact failed_early all
    · trivial

theorem refreshIfStale_ofCalls : (refreshIfStale lib svc account start).Returns (Early R) := by
  unfold refreshIfStale
  split
  · exact early_ok _
  · refine .bind fun now => ?_
    split
    · split
      · refine .bind_of (refreshOrOutcome_ofCalls all) fun r made => ?_
        split
        · exact early_ok _
        · rintro o ⟨⟩
          exact made _ rfl
      · refine .bind fun now => ?_
        split
        · exact failed_early all
        · exact early_ok _
    · exact early_ok _

theorem decryptStored_ofCalls : (decryptStored account start).Returns (Early R) := by
  refine .bind fun r => ?_
  split
  · exact early_ok _
  · exact failed_early all
  · exact failed_early all
  · trivial

/-- Obtaining the credential ends early in an outcome of a call. -/
theorem obtainCredential_ofCalls :
    (obtainCredential lib svc account start).Returns (Early R) := by
  refine .bind_of (refreshIfStale_ofCalls all) fun r made => ?_
  split
  · rintro o ⟨⟩
    exact made _ rfl
  · exact early_ok _
  · refine .bind_of (decryptStored_ofCalls all) fun r made => ?_
    split
    · rintro o ⟨⟩
      exact made _ rfl
    · exact early_ok _

/-- So do the rounds. -/
theorem providerRounds_ofCalls (refreshed : Bool) (accessToken : Str) :
    (providerRounds lib svc req grant tokenHash account tool start refreshed accessToken).Returns
      R := by
  have round : ∀ refreshed accessToken, (refreshed = false → ∀ accessToken,
      (providerRounds lib svc req grant tokenHash account tool start true accessToken).Returns R) →
      (providerRounds lib svc req grant tokenHash account tool start refreshed accessToken).Returns
        R := by
    intro refreshed accessToken next
    rw [providerRounds]
    refine .bind fun r => ?_
    split
    · exact succeeded_ofCalls all
    · split
      · rename_i again
        refine .bind_of (refreshOrOutcome_ofCalls all) fun r made => ?_
        split
        · exact made _ rfl
        · refine .bind fun revoked => ?_
          split
          · exact revoked_ofCalls all
          · exact next again.2.1 _
      · exact failed_ofCalls all
    · exact failed_ofCalls all
    · exact failed_ofCalls all
    · exact failed_ofCalls all
    · exact failed_ofCalls all
    · trivial
  exact round refreshed accessToken fun _ accessToken => round true accessToken (by simp)

/-- Every outcome of `_execute_call` is one of a call. -/
theorem executeCall_ofCalls : (executeCall lib svc req grant tokenHash tool start).Returns R := by
  refine .bind fun account => ?_
  split
  · exact failed_ofCalls all
  · refine .bind_of (obtainCredential_ofCalls all) fun r made => ?_
    split
    · exact made _ rfl
    · refine .bind fun revoked => ?_
      split
      · exact revoked_ofCalls all
      · exact providerRounds_ofCalls all _ _

/-- Settling the key does not change it. -/
theorem executeReserved_ofCalls {store : IdempotencyStore} {key reservation : Str} :
    (executeReserved lib svc req grant tokenHash tool start store key reservation).Returns R := by
  refine .bind_of (executeCall_ofCalls all).attempt fun r made => ?_
  split
  · split
    · exact .bind fun _ => trivial
    · trivial
  · exact .bind fun _ => made _ rfl

end OfCalls

/-- An outcome that does not come from the cache. -/
abbrev Made (o : InvokeOutcome) : Prop := o.fromCache = false

theorem made_ofCalls : OfCalls Made := ⟨fun _ _ => rfl, fun _ _ => rfl, fun _ _ => rfl⟩

theorem refused_made {status : Status} {error : Str} {reason : Option DeniedReason} :
    (refused start status error reason).Returns Made :=
  .bind fun _ => .bind fun _ => rfl

theorem refused_madeEarly {α : Type} {status : Status} {error : Str}
    {reason : Option DeniedReason} :
    (.error <$> refused start status error reason : BrokerProg (Except InvokeOutcome α)).Returns
      (Early Made) := early_of_returns refused_made

/-! ## Outcomes that are replayed -/

variable (lib req) in
/-- What stands behind an outcome from the cache: a completed result found under
the key of the invocation, which has no result of its own. -/
def Replayed (tr : Trace BrokerSig) (o : InvokeOutcome) : Prop :=
  NoResult tr ∧ ∃ grant key value tool, looked lib req grant ∈ tr ∧ req.idempotencyKey = some key ∧
    ⟨.redis (.get (IdempotencyStore.name (fullKey req grant key))), .ok (some value)⟩ ∈ tr ∧
    IdempotencyStore.isPending value = false ∧
    Json.loads lib.floatRepr value = some o.result ∧ getTool req.toolName = .ok tool

variable (lib req) in
/-- An outcome is made, or replayed. -/
def cachePost : Post BrokerSig InvokeOutcome := fun r tr =>
  ∀ o, r = .ok o → o.fromCache = true → Replayed lib req tr o

section Walk

theorem Replayed.append {o : InvokeOutcome} (replayed : Replayed lib req tr o)
    {ext : Trace BrokerSig} (none : ∀ e ∈ ext, e.op.isToolCall = false) :
    Replayed lib req (tr ++ ext) o := by
  obtain ⟨noResult, grant, key, value, tool, found, keyed, seen, rest⟩ := replayed
  exact ⟨noResult.append (noResult_of_noCall none), grant, key, value, tool,
    List.mem_append_left _ found, keyed, List.mem_append_left _ seen, rest⟩

theorem cachePost.append {r : Except PyExn InvokeOutcome} (post : cachePost lib req r tr)
    {ext : Trace BrokerSig} (none : ∀ e ∈ ext, e.op.isToolCall = false) :
    cachePost lib req r (tr ++ ext) :=
  fun o ended cached => (post o ended cached).append none

theorem cachePost_error (x : PyExn) : cachePost lib req (.error x) tr := by
  rintro o ⟨⟩

/-- An outcome that was made is not marked as cached. -/
theorem cachePost_made {o : InvokeOutcome} (made : Made o) : cachePost lib req (.ok o) tr := by
  rintro o' ⟨⟩ cached
  cases made.symm.trans cached

/-- A program that only makes outcomes. -/
theorem wp_made {p : BrokerProg InvokeOutcome} (made : p.Returns Made) :
    wp (broker lib svc lossy) freeRole p (cachePost lib req) tr := by
  refine wp_returns made (wp_mono (wp_free fun _ _ => trivial) fun r tr' _ _ value => ?_)
  cases r with
  | ok o => exact cachePost_made (value o rfl)
  | error x => exact cachePost_error x

/-- The head of a sequence, before the store is asked, adds operations of the entry. -/
theorem wp_head {α : Type} {p : BrokerProg α} {f : α → BrokerProg InvokeOutcome}
    (uses : Within p Op.isEntry) (inside : ∀ e ∈ tr, e.op.isEntry = true)
    (tail : ∀ a tr', tr <+: tr' → (∀ e ∈ tr', e.op.isEntry = true) →
      wp (broker lib svc lossy) freeRole (f a) (cachePost lib req) tr') :
    wp (broker lib svc lossy) freeRole (p >>= f) (cachePost lib req) tr := by
  rw [wp_bind]
  refine wp_of_uses uses (fun _ _ _ => trivial) fun r ext entries => ?_
  cases r with
  | ok a =>
    exact tail a _ (List.prefix_append _ _) (List.forall_mem_append.mpr ⟨inside, entries⟩)
  | error x => exact cachePost_error x

theorem markedRevoked_entry : Within (markedRevoked svc tokenHash) Op.isEntry :=
  .ite (fun _ => .bind (within_op rfl) fun _ => trivial) fun _ => trivial

theorem verifyGrantToken_entry {token : Str} :
    Within (verifyGrantToken lib svc token) Op.isEntry :=
  .bind (within_op rfl) fun _ => Prog.uses_ofExcept _

theorem checkInvokeRate_entry : Within (checkInvokeRate svc grant) Op.isEntry := by
  refine .ite (fun _ => .bind (within_op rfl) fun _ => .bind (within_op rfl) fun _ => ?_)
    fun _ => trivial
  exact .ite (fun _ => .bind (within_op rfl) fun _ => trivial) fun _ => trivial

/-- The outcomes with which step 6 ends an invocation. -/
def claimPost (lib : Lib) (req : InvokeRequest) : Post BrokerSig (Except InvokeOutcome Str) :=
  fun r tr => ∀ o, r = .ok (.error o) → cachePost lib req (.ok o) tr

theorem wp_claim_made {p : BrokerProg (Except InvokeOutcome Str)} (made : p.Returns (Early Made)) :
    wp (broker lib svc lossy) freeRole p (claimPost lib req) tr := by
  refine wp_returns made (wp_mono (wp_free fun _ _ => trivial) fun r tr' _ _ value => ?_)
  rintro o rfl
  exact cachePost_made (value _ rfl o rfl)

/-- A claim that ends in an outcome replays what it has read, or is a conflict. -/
theorem wp_claimKey_replayed {key : Str} (inside : ∀ e ∈ tr, e.op.isEntry = true)
    (found : looked lib req grant ∈ tr)
    (keyed : req.idempotencyKey = some key) (tool_eq : getTool req.toolName = .ok tool) :
    wp (broker lib svc lossy) freeRole (claimKey lib start (fullKey req grant key))
      (claimPost lib req) tr := by
  have raised : ∀ (x : PyExn) (tr' : Trace BrokerSig), claimPost lib req (.error x) tr' := by
    intro x tr' o ended
    cases ended
  have reserving (tr' : Trace BrokerSig) {next : Option Str → BrokerProg (Except InvokeOutcome Str)}
      (lost : next none = .error <$> conflict start)
      (won : ∀ reservation, next (some reservation) = return .ok reservation) :
      wp (broker lib svc lossy) freeRole
        (IdempotencyStore.reserve (fullKey req grant key) >>= next) (claimPost lib req) tr' := by
    refine wp_claim_made (.bind fun reserved => ?_)
    cases reserved with
    | none =>
      rw [lost]
      exact refused_madeEarly
    | some reservation =>
      rw [won]
      exact early_ok _
  unfold claimKey
  rw [wp_bind, wp_attempt]
  refine ⟨trivial, fun a _ _ => ?_⟩
  rcases a with x | _ | value
  · cases x with
    | idempotencyConflictError msg => exact wp_claim_made refused_madeEarly
    | _ => exact raised _ _
  · exact reserving _ rfl fun _ => rfl
  · show wp _ _ (if _ then _ else _) _ _
    split
    · exact wp_claim_made refused_madeEarly
    · rename_i complete
      split
      · rename_i result parsed
        have replaying : wp (broker lib svc lossy) freeRole
            (.error <$> succeeded start result true : BrokerProg (Except InvokeOutcome Str))
            (claimPost lib req) (tr ++
              [⟨.redis (.get (IdempotencyStore.name (fullKey req grant key))),
              .ok (some value)⟩]) := by
          refine ⟨trivial, fun a may _ => ?_⟩
          obtain ⟨now, rfl⟩ := may_sync rfl may
          rintro o ⟨⟩ o' ⟨⟩ -
          refine ⟨?_, grant, key, value, tool, by simp [found], keyed, by simp,
            by simpa using complete, parsed, tool_eq⟩
          have none : NoResult tr :=
            noResult_of_noCall fun e member => Op.isToolCall_of_isEntry (inside e member)
          exact (none.append (noResult_of_noCall (by simp [Op.isToolCall]))).append
            (noResult_of_noCall (by simp [Op.isToolCall]))
        cases result with
        | null => exact reserving _ rfl fun _ => rfl
        | _ => exact replaying
      · exact raised _ _

/-- What `_invoke_resolved` returns as cached was replayed. -/
theorem wp_invokeResolved_replayed {fastRevoked : Bool} (inside : ∀ e ∈ tr, e.op.isEntry = true)
    (found : looked lib req grant ∈ tr) :
    wp (broker lib svc lossy) freeRole
      (invokeResolved lib svc req grant tokenHash start fastRevoked) (cachePost lib req) tr := by
  unfold invokeResolved
  split
  · exact wp_made refused_made
  · refine wp_head (within_op rfl) inside fun now tr₁ grown inside => ?_
    split
    · exact wp_made refused_made
    · refine wp_head checkInvokeRate_entry inside fun allowed tr₂ grown' inside => ?_
      split
      · exact wp_made refused_made
      · split
        · exact wp_made refused_made
        · exact cachePost_error _
        · rename_i tool tool_eq
          split
          · exact wp_made refused_made
          · split
            · rename_i key store keyed stored
              rw [wp_bind]
              refine wp_mono (wp_claimKey_replayed inside (grown'.subset (grown.subset found)) keyed
                tool_eq) fun r tr' _ claimed => ?_
              rcases r with x | outcome | reservation
              · exact cachePost_error x
              · exact claimed outcome rfl
              · exact wp_made (executeReserved_ofCalls made_ofCalls)
            · exact wp_made (executeCall_ofCalls made_ofCalls)

/-- The handler makes its own outcomes and passes the others on. -/
theorem wp_invokeAudited_replayed {fastRevoked : Bool} (inside : ∀ e ∈ tr, e.op.isEntry = true)
    (found : looked lib req grant ∈ tr) :
    wp (broker lib svc lossy) freeRole
      (invokeAudited lib svc req grant tokenHash start fastRevoked) (cachePost lib req) tr := by
  unfold invokeAudited
  rw [wp_bind, wp_attempt]
  refine wp_mono (wp_invokeResolved_replayed inside found) fun r tr' _ post => ?_
  rw [Post.next_ok]
  split
  · exact post
  · split
    · exact wp_made (.bind fun _ => refused_made)
    · exact cachePost_error _

/-- The operations of `record_call`. -/
def Op.isRecord : Op → Bool
  | .add _ | .commit => true
  | _ => false

/-- The audit row does not change that. -/
theorem wp_invokeGranted_replayed (inside : ∀ e ∈ tr, e.op.isEntry = true) :
    wp (broker lib svc lossy) freeRole (invokeGranted lib svc req start)
    (cachePost lib req) tr := by
  refine wp_head markedRevoked_entry inside fun fastRevoked tr' _ inside =>
    ⟨trivial, fun a _ _ => ?_⟩
  rcases a with x | _ | grant
  · exact cachePost_error x
  · exact wp_made refused_made
  · show wp _ _
      (invokeAudited lib svc req grant (hashToken lib req.grantToken) start fastRevoked >>= _) _ _
    rw [wp_bind]
    refine wp_mono (wp_invokeAudited_replayed (List.forall_mem_append.mpr
      ⟨inside, by simp [Op.isEntry]⟩) (by simp)) fun r tr'' _ post => ?_
    cases r with
    | error x => exact cachePost_error x
    | ok outcome =>
      show wp _ _ (recordCall lib grant.id req.toolName req.arguments outcome.status
        outcome.latencyMs >>= _) _ _
      rw [wp_bind]
      have records : Within (recordCall lib grant.id req.toolName req.arguments outcome.status
          outcome.latencyMs) Op.isRecord := .bind (within_op rfl) fun _ => within_op rfl
      refine wp_of_uses records (fun _ _ _ => trivial) fun r ext recorded => ?_
      cases r with
      | error x => exact cachePost_error x
      | ok _ =>
        refine post.append fun e member => ?_
        have record := recorded e member
        cases call : e.op with
        | toolCall => rw [call] at record; cases record
        | _ => rfl

variable (lib svc req) in
/-- `invoke` returns an outcome from the cache only where it replays one. -/
theorem wp_invoke_replayed :
    wp (broker lib svc lossy) freeRole (invoke lib svc req) (cachePost lib req) [] := by
  refine wp_head (within_op rfl) (by simp) fun start tr₁ _ inside =>
    wp_head (.attempt verifyGrantToken_entry) inside fun r tr₂ _ inside => ?_
  split
  · exact wp_made refused_made
  · exact wp_made refused_made
  · exact cachePost_error _
  · split
    · exact wp_made refused_made
    · refine wp_withSession (fun _ => trivial) ?_
      refine wp_mono (wp_invokeGranted_replayed inside) fun r tr' _ post closed _ => ?_
      cases closed with
      | ok _ => exact post.append (by simp [Op.isToolCall])
      | error x => exact cachePost_error x

end Walk

end CredBroker
