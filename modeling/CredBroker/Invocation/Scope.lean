import CredBroker.Invocation.Verdict
import CredBroker.Requests

/-!
# The scope of an invocation

An invocation works for the one grant that it looked up: it loads that grant's account,
re-reads that grant's row, uses the breaker of the requested tool's provider on its own
surface, and logs its call under that grant.
-/

namespace CredBroker

open Python Interaction

variable {lib : Lib} {svc : Services} {lossy : Bool} {req : InvokeRequest} {grant : Grant}
  {tool : ToolAdapter} {start : Time}

namespace Op

/-- The operations that are about one grant. -/
def isGranted : Op → Bool
  | .query (.accountById _) | .query (.revokedAt _) | .add _ | .circuitFor .. | .circuitAllow ..
  | .circuitSuccess .. | .circuitFailure .. | .toolCall .. | .sleep _ => true
  | _ => false

/-- The operations of `_execute_call` for one grant and tool. -/
def isExecuteFor (svc : Services) (surface : Surface) (grant : Grant) (tool : ToolAdapter) :
    Op → Bool
  | .query (.accountById id) => id = grant.connectedAccountId
  | .query (.revokedAt id) => id = grant.id
  | .circuitFor surface' provider failureThreshold resetSeconds =>
    surface' = surface && provider = tool.provider &&
      failureThreshold = svc.settings.circuitFailureThreshold &&
      resetSeconds = svc.settings.circuitResetSeconds
  | .circuitAllow surface' provider | .circuitSuccess surface' provider
  | .circuitFailure surface' provider => surface' = surface && provider = tool.provider
  | .toolCall tool' _ _ => tool' = tool
  | .sleep _ => true
  | e => !e.isGranted

theorem not_isGranted_of_isRefresh {e : Op} (refresh : e.isRefresh = true) :
    e.isGranted = false := by
  cases e <;> first | rfl | cases refresh

theorem not_isGranted_of_isPlain {e : Op} (plain : e.isPlain = true) : e.isGranted = false :=
  not_isGranted_of_isRefresh (isRefresh_of_isPlain plain)

/-- What is done for an idempotency key. -/
def isKeyed : Op → Bool
  | .clock | .secretRegistry | .tokenHex => true
  | .redis cmd => cmd.name.take 2 = "id"
  | _ => false

theorem isKeyed_of_isPlain {e : Op} (plain : e.isPlain = true) : e.isKeyed = true := by
  cases e <;> first | rfl | cases plain

theorem not_isGranted_of_isKeyed {e : Op} (keyed : e.isKeyed = true) : e.isGranted = false := by
  cases e <;> first | rfl | cases keyed

theorem isExecuteFor_of_not {e : Op} {surface : Surface} (other : e.isGranted = false) :
    e.isExecuteFor svc surface grant tool = true := by
  cases e with
  | query q => cases q <;> first | rfl | cases other
  | _ => first | rfl | cases other

end Op

/-- An operation for a grant, if it is about one: a part of `_execute_call` with the
requested tool, or the row of the call. -/
def Serves (lib : Lib) (svc : Services) (req : InvokeRequest) (grant : Grant) : Op → Prop
  | .add row => ∃ status latencyMs, row = .audit ⟨grant.id, req.toolName,
      hashArguments lib req.arguments, status, latencyMs⟩
  | e => e.isGranted = true → ∃ tool, getTool req.toolName = .ok tool ∧
      e.isExecuteFor svc req.surface grant tool = true

/-- What needs no grant serves any request. -/
theorem serves_of_not {e : Op} (other : e.isGranted = false) : Serves lib svc req grant e := by
  cases e with
  | add row => cases other
  | _ => exact fun is => absurd is (by rw [other]; exact Bool.false_ne_true)

theorem serves_of_execute {e : Op} (found : getTool req.toolName = .ok tool)
    (executes : e.isExecuteFor svc req.surface grant tool = true) : Serves lib svc req grant e := by
  cases e with
  | add row => cases executes
  | _ => exact fun _ => ⟨tool, found, executes⟩

/-! ## The operations of `_execute_call` -/

section Execute

variable {tokenHash accessToken : Str} {account : ConnectedAccount}

theorem refused_for {status : Status} {msg : Str} {reason : Option DeniedReason} :
    Within (refused start status msg reason) (Op.isExecuteFor svc req.surface grant tool) :=
  (refused_uses ..).mono fun plain => Op.isExecuteFor_of_not (Op.not_isGranted_of_isPlain plain)

theorem markedRevoked_ungranted : Within (markedRevoked svc tokenHash) (!·.isGranted) :=
  .ite (fun _ => .bind (within_op rfl) fun _ => trivial) fun _ => trivial

theorem isRevokedNow_for :
    Within (isRevokedNow svc grant tokenHash) (Op.isExecuteFor svc req.surface grant tool) := by
  refine .bind (markedRevoked_ungranted.mono fun other =>
    Op.isExecuteFor_of_not (by simpa using other)) fun marked =>
      .ite (fun _ => trivial) fun _ => .bind (within_op (decide_eq_true rfl)) fun found => ?_
  split <;> trivial

theorem callProvider_for : Within (callProvider svc req tool accessToken)
    (Op.isExecuteFor svc req.surface grant tool) :=
  .bind (within_op (by simp [Op.isExecuteFor])) fun _ => .ite (fun _ => trivial) fun _ =>
    .ite (fun _ => trivial) fun _ => callAttempts_uses (within_op (by simp [Op.isExecuteFor]))
      (by simp [Op.isExecuteFor]) (by simp [Op.isExecuteFor]) (by simp [Op.isExecuteFor])
      (fun _ => rfl) _

/-- A round calls the tool that it was given, and at most refreshes. -/
theorem providerRound_for {refreshed : Bool} (next : refreshed = false → ∀ accessToken,
      Within (providerRounds lib svc req grant tokenHash account tool start true accessToken)
        (Op.isExecuteFor svc req.surface grant tool)) :
    Within (providerRounds lib svc req grant tokenHash account tool start refreshed accessToken)
      (Op.isExecuteFor svc req.surface grant tool) := by
  rw [providerRounds]
  refine .bind (.attempt callProvider_for) fun r => ?_
  split
  · exact (succeeded_uses ..).mono fun plain =>
      Op.isExecuteFor_of_not (Op.not_isGranted_of_isPlain plain)
  · split
    · rename_i again
      refine .bind (refreshOrOutcome_uses.mono fun refresh =>
        Op.isExecuteFor_of_not (Op.not_isGranted_of_isRefresh refresh)) fun r => ?_
      split
      · trivial
      · exact .bind isRevokedNow_for fun _ => .ite (fun _ => refused_for) fun _ => next again.2.1 _
    · exact refused_for
  · exact refused_for
  · exact refused_for
  · exact refused_for
  · exact refused_for
  · trivial

/-- So do both rounds of a call. -/
theorem executeCall_for : Within (executeCall lib svc req grant tokenHash tool start)
    (Op.isExecuteFor svc req.surface grant tool) := by
  refine .bind (within_op (decide_eq_true rfl)) fun found => ?_
  split
  · exact refused_for
  · refine .bind (obtainCredential_uses.mono fun refresh =>
      Op.isExecuteFor_of_not (Op.not_isGranted_of_isRefresh refresh)) fun r => ?_
    split
    · trivial
    · exact .bind isRevokedNow_for fun _ => .ite (fun _ => refused_for) fun _ =>
        providerRound_for fun _ _ => providerRound_for nofun

end Execute

/-! ## The operations of an invocation -/

theorem refused_serves {status : Status} {msg : Str} {reason : Option DeniedReason} :
    (refused start status msg reason).Uses (Serves lib svc req grant) :=
  Prog.Uses.mono (refused_uses ..) fun _ plain => serves_of_not (Op.not_isGranted_of_isPlain plain)

/-- What neither calls a provider nor works on an account serves any request. -/
theorem ungranted_serves {α : Type} {p : BrokerProg α} (uses : Within p (!·.isGranted)) :
    p.Uses (Serves lib svc req grant) :=
  Prog.Uses.mono uses fun _ other => serves_of_not (by simpa using other)

/-- Claiming a key is work for that key. -/
theorem claimKey_keyed {key : Str} : Within (claimKey lib start key) Op.isKeyed := by
  have early {status : Status} {msg : Str} {reason : Option DeniedReason} :
      Within (.error <$> refused start status msg reason : BrokerProg (Except InvokeOutcome Str))
        Op.isKeyed := .bind ((refused_uses ..).mono Op.isKeyed_of_isPlain) fun _ => trivial
  refine .bind (.attempt (.bind (within_op rfl) fun value => ?_)) fun r => ?_
  · split
    · trivial
    · refine .ite (fun _ => trivial) fun _ => ?_
      split <;> trivial
  · split
    · exact early
    · trivial
    · refine .bind (.bind (within_op rfl) fun _ => .bind (within_op rfl) fun _ => trivial)
        fun reservation => ?_
      split
      · exact early
      · trivial
    · exact .bind ((succeeded_uses ..).mono Op.isKeyed_of_isPlain) fun _ => trivial

theorem release_keyed {key : Str} {owner : Option Str} :
    Within (IdempotencyStore.release key owner) Op.isKeyed := by
  refine .bind (within_op rfl) fun value => ?_
  split
  · trivial
  · exact .ite (fun _ => trivial) fun _ => .ite (fun _ => trivial) fun _ =>
      .bind (within_op rfl) fun _ => trivial

theorem settle_keyed {store : IdempotencyStore} {key reservation : Str}
    {outcome : InvokeOutcome} : Within (settle store key reservation outcome) Op.isKeyed := by
  refine .ite (fun _ => .bind (within_op rfl) fun value => ?_) fun _ => release_keyed
  exact .ite (fun _ => trivial) fun _ => .bind (within_op rfl) fun _ => trivial

theorem ungranted_of_keyed {α : Type} {p : BrokerProg α} (uses : Within p Op.isKeyed) :
    Within p (!·.isGranted) :=
  uses.mono fun keyed => by rw [Op.not_isGranted_of_isKeyed keyed]; rfl

theorem checkInvokeRate_ungranted : Within (checkInvokeRate svc grant) (!·.isGranted) := by
  refine .ite (fun _ => .bind (within_op rfl) fun _ => .bind (within_op rfl) fun _ => ?_)
    fun _ => trivial
  exact .ite (fun _ => .bind (within_op rfl) fun _ => trivial) fun _ => trivial

/-- The tool of a call is the one that the request names. -/
theorem executeCall_serves {tokenHash : Str} (found : getTool req.toolName = .ok tool) :
    (executeCall lib svc req grant tokenHash tool start).Uses (Serves lib svc req grant) :=
  Prog.Uses.mono executeCall_for fun _ executes => serves_of_execute found executes

/-- A call is for the tool and the scope of the grant. -/
theorem invokeResolved_serves {tokenHash : Str} {fastRevoked : Bool} :
    (invokeResolved lib svc req grant tokenHash start fastRevoked).Uses
      (Serves lib svc req grant) := by
  refine .ite (fun _ => refused_serves) fun _ =>
    .bind (ungranted_serves (within_op rfl)) fun now =>
    .ite (fun _ => refused_serves) fun _ =>
    .bind (ungranted_serves checkInvokeRate_ungranted) fun allowed =>
    .ite (fun _ => refused_serves) fun _ => ?_
  split
  · exact refused_serves
  · trivial
  · rename_i tool found
    refine .ite (fun _ => refused_serves) fun _ => ?_
    split
    · refine .bind (ungranted_serves (ungranted_of_keyed claimKey_keyed)) fun claimed => ?_
      split
      · trivial
      · refine .bind (.attempt (executeCall_serves found)) fun ended => ?_
        split
        · exact .ite (fun _ =>
            .bind (ungranted_serves (ungranted_of_keyed release_keyed)) fun _ => trivial)
            fun _ => trivial
        · exact .bind (ungranted_serves (ungranted_of_keyed settle_keyed)) fun _ => trivial
    · exact executeCall_serves found

/-- Recording it calls no provider. -/
theorem invokeAudited_serves {tokenHash : Str} {fastRevoked : Bool} :
    (invokeAudited lib svc req grant tokenHash start fastRevoked).Uses
    (Serves lib svc req grant) := by
  refine .bind (.attempt invokeResolved_serves) fun ended => ?_
  split
  · trivial
  · exact .ite (fun _ => .bind (ungranted_serves (within_op rfl)) fun _ => refused_serves)
      fun _ => trivial

/-! ## Along the trace -/

/-- An operation about a grant is about one that was looked up. -/
def scopeGuard (lib : Lib) (svc : Services) : Request → Trace BrokerSig → Op → Prop
  | .invoke req => fun tr e => e.isGranted = true →
      ∃ grant, looked lib req grant ∈ tr ∧ Serves lib svc req grant e
  | _ => fun _ _ => True

abbrev scopeRole (lib : Lib) (svc : Services) (r : Request) : Role BrokerSig :=
  .guarding (scopeGuard lib svc r)

theorem scopeGuard_of_not {tr : Trace BrokerSig} {e : Op} (other : e.isGranted = false) :
    scopeGuard lib svc (.invoke req) tr e :=
    fun is => absurd is (by rw [other]; exact Bool.false_ne_true)

/-- A program that needs no grant meets the guard. -/
theorem wp_ungranted {α : Type} {p : BrokerProg α} {tr : Trace BrokerSig}
    (uses : Within p (!·.isGranted)) : wp (broker lib svc lossy) (scopeRole lib svc (.invoke req)) p
      (fun _ _ => True) tr :=
  wp_guarded uses fun _ _ other => scopeGuard_of_not (by simpa using other)

theorem wp_refused_scoped {status : Status} {msg : Str} {reason : Option DeniedReason}
    {tr : Trace BrokerSig} : wp (broker lib svc lossy) (scopeRole lib svc (.invoke req))
      (refused start status msg reason) (fun _ _ => True) tr :=
  wp_ungranted ((refused_uses ..).mono fun plain => by simp [Op.not_isGranted_of_isPlain plain])

/-- All calls of an invocation are for the grant that it has looked up. -/
theorem wp_invokeGranted_scoped {tr : Trace BrokerSig} :
    wp (broker lib svc lossy) (scopeRole lib svc (.invoke req)) (invokeGranted lib svc req start)
      (fun _ _ => True) tr := by
  show wp _ _ (markedRevoked svc (hashToken lib req.grantToken) >>= _) _ _
  rw [wp_bind]
  refine wp_mono (wp_ungranted markedRevoked_ungranted) fun r tr' _ _ => ?_
  cases r with
  | error x => trivial
  | ok fastRevoked =>
    refine ⟨scopeGuard_of_not rfl, fun a _ _ => ?_⟩
    rcases a with x | _ | grant
    · trivial
    · exact wp_refused_scoped
    · have uses : (invokeAudited lib svc req grant (hashToken lib req.grantToken) start
          fastRevoked >>= fun outcome => recordCall lib grant.id req.toolName req.arguments
            outcome.status outcome.latencyMs >>= fun _ => Prog.ret outcome).Uses
              (Serves lib svc req grant) :=
        .bind invokeAudited_serves fun outcome =>
          .bind (.bind ((Prog.uses_perform _).mpr ⟨outcome.status, outcome.latencyMs, rfl⟩)
            fun _ => ungranted_serves (within_op rfl)) fun _ => trivial
      exact wp_invariant (J := fun tr => looked lib req grant ∈ tr) uses
        (fun _ _ found _ => List.mem_append_left _ found)
        (fun _ _ found serves _ => ⟨grant, found, serves⟩)
        (List.mem_append_right _ List.mem_cons_self) fun _ _ _ _ => trivial

variable (lib svc) in
/-- No other request calls a provider. -/
theorem wp_serve_scoped (r : Request) :
    wp (broker lib svc lossy) (scopeRole lib svc r) (serve lib svc r) (fun _ _ => True) [] := by
  cases r with
  | invoke req =>
    apply wp_map
    refine ⟨scopeGuard_of_not rfl, fun a may _ => ?_⟩
    obtain ⟨start, rfl⟩ := may_sync rfl may
    show wp _ _ ((verifyGrantToken lib svc req.grantToken).attempt >>= _) _ _
    rw [wp_bind, wp_attempt]
    refine ⟨scopeGuard_of_not rfl, fun a may _ => ?_⟩
    obtain ⟨now, rfl⟩ := may_sync rfl may
    show wp _ _ (Prog.ofExcept (verifiedClaims lib svc req.grantToken now) :
      BrokerProg GrantClaims) _ _
    rw [wp_ofExcept, Post.next_ok]
    split
    · exact wp_refused_scoped
    · exact wp_refused_scoped
    · trivial
    · split
      · exact wp_refused_scoped
      · exact wp_withSession (fun _ => scopeGuard_of_not rfl)
          (wp_mono wp_invokeGranted_scoped fun _ _ _ _ _ _ => trivial)
  | _ => exact wp_free fun _ _ => trivial

/-- Every operation of an invocation that is about a grant is about the grant of its token. -/
theorem kept_scoped {w : World} {c : Broker} (run : (broker lib svc lossy).Reaches (.start w) c)
    {i : Nat} {t : Thread BrokerSig Request Response} (thread : c.threads[i]? = some t)
    (request : t.req = .invoke req) {pre : Trace BrokerSig} {ev : Event BrokerSig}
    (sub : pre ++ [ev] <+: t.trace) (granted : ev.op.isGranted = true) :
    ∃ grant, looked lib req grant ∈ pre ∧ Serves lib svc req grant ev.op := by
  have guard := Machine.Reaches.kept run thread (wp_serve_scoped lib svc t.req)
    (Role.met_guarding _ _) sub
  have guard : scopeGuard lib svc t.req pre ev.op := guard
  rw [request] at guard
  exact guard granted

end CredBroker
