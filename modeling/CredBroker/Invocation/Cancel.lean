import CredBroker.Interaction.Abort
import CredBroker.Invocation.Verdict

/-!
# Cancellation

A cancelled invocation performs nothing more but the closing of its session, and
ends with the cancellation. No handler on the way stops it: all of them are for
`Exception`, which a `CancelledError` is not.
-/

namespace CredBroker

open Python Interaction

variable {lib : Lib} {svc : Services} {lossy : Bool} {req : InvokeRequest} {grant : Grant}
  {tokenHash : Str} {account : ConnectedAccount} {tool : ToolAdapter} {start : Time}

/-- What is not an `Exception` is fatal, and only the closing of the session may follow. -/
def cancellation : AbortRule BrokerSig where
  Fatal x := x.isException = false
  Cleanup e := e = .close
  Legal e := ∀ x, e.op = .close → e.ans = .error x → x.isException = false

/-- Any awaited operation may be cancelled. -/
theorem cancellation_legal (tr : Trace BrokerSig) (e : Event BrokerSig)
    (may : (broker lib svc lossy).May tr e) : cancellation.Legal e := by
  rintro x close raised
  obtain ⟨e, a⟩ := e
  obtain rfl : e = .close := close
  obtain rfl : a = .error x := raised
  exact may_close may

/-- A program that a cancellation ends at once. -/
abbrev Cancels {α : Type} (p : BrokerProg α) : Prop := p.Aborts cancellation

theorem cancels_op (e : Op) : Cancels (op e) := @Prog.Aborts.perform BrokerSig cancellation e

theorem cancels_throw {α : Type} {x : PyExn} (exception : x.isException = true) :
    Cancels (.throw x : BrokerProg α) := fun fatal => by
  change x.isException = false at fatal
  rw [exception] at fatal
  cases fatal

/-- Only a `CancelledError` is fatal. -/
theorem fatal_cases {x : PyExn} (fatal : cancellation.Fatal x) :
    ∃ applied, x = .cancelledError applied := by
  cases x with
  | cancelledError applied => exact ⟨applied, rfl⟩
  | _ => cases fatal

theorem dies_throw {α : Type} {x : PyExn} (fatal : cancellation.Fatal x) :
    (Prog.throw x : BrokerProg α).Dies cancellation := fatal

/-! ## The steps -/

/-- A program that only renders its result is cancelled with it. -/
theorem cancels_map {α β : Type} {p : BrokerProg α} {f : α → β} (head : Cancels p) :
    Cancels (f <$> p) :=
  .bind head fun _ => trivial

/-- A cancelled body closes its session and ends as cancelled. -/
theorem cancels_withSession {α : Type} {p : BrokerProg α} (body : Cancels p) :
    Cancels (withSession p) := by
  refine .attempt_bind body (fun x fatal => ⟨rfl, fun a legal => ?_⟩) fun r harmless =>
    .bind (cancels_op _) fun _ => .ofExcept harmless
  cases a with
  | ok _ => exact fatal
  | error y => exact legal y rfl rfl

theorem cancels_refused (status : Status) (error : Str) (reason : Option DeniedReason) :
    Cancels (refused start status error reason) :=
  .bind (.bind (cancels_op _) fun _ => trivial) fun _ =>
    .bind (.bind (cancels_op _) fun _ => trivial) fun _ => trivial

theorem cancels_succeeded (result : Json) (fromCache : Bool) :
    Cancels (succeeded start result fromCache) :=
  .bind (.bind (cancels_op _) fun _ => trivial) fun _ => trivial

theorem cancels_markedRevoked : Cancels (markedRevoked svc tokenHash) := by
  unfold markedRevoked
  exact .ite (fun _ => .bind (cancels_op _) fun _ => trivial) fun _ => trivial

theorem cancels_isRevokedNow : Cancels (isRevokedNow svc grant tokenHash) :=
  .bind cancels_markedRevoked fun _ => .ite (fun _ => trivial) fun _ =>
    .bind (cancels_op _) fun row => by split <;> trivial

theorem cancels_registerSecret (value : Json) : Cancels (registerSecret value) := by
  unfold registerSecret
  refine .ite (fun _ => trivial) fun _ => ?_
  split
  · exact .ite (fun _ => trivial) fun _ => cancels_op _
  · exact .ite (fun _ => trivial) fun _ => cancels_throw rfl
  · exact .ite (fun _ => trivial) fun _ => cancels_throw rfl
  · exact cancels_throw rfl

/-! ## Pure steps -/

/-- What is computed without an `await` raises nothing but `Exception`s. -/
def Raises {α : Type} (r : Except PyExn α) : Prop := ∀ x, r = .error x → x.isException = true

theorem raises_ok {α : Type} (a : α) : Raises (.ok a : Except PyExn α) := by rintro x ⟨⟩

theorem raises_error {α : Type} {x : PyExn} (exception : x.isException = true) :
    Raises (.error x : Except PyExn α) := by
  rintro y ⟨⟩
  exact exception

/-- A sequence raises exceptions only, if its parts do. -/
theorem Raises.bind {α β : Type} {r : Except PyExn α} {f : α → Except PyExn β} (head : Raises r)
    (tail : ∀ a, Raises (f a)) : Raises (r >>= f) := by
  cases r with
  | ok a => exact tail a
  | error x => exact raises_error (head x rfl)

theorem Raises.map {α β : Type} {r : Except PyExn α} {f : α → β} (head : Raises r) :
    Raises (r.map f) := by
  cases r with
  | ok a => exact raises_ok _
  | error x => exact raises_error (head x rfl)

/-- What is raised of a value is no cancellation. -/
theorem cancels_ofExcept {α : Type} {r : Except PyExn α} (raises : Raises r) :
    Cancels (.ofExcept r : BrokerProg α) :=
  .ofExcept fun x raised fatal => by
    change x.isException = false at fatal
    rw [raises x raised] at fatal
    cases fatal

theorem intOfFloat_raises (printed : FloatText) : Raises (intOfFloat lib printed) := by
  unfold intOfFloat
  split
  · exact raises_error rfl
  · split
    · exact raises_error rfl
    · exact raises_ok _

theorem jsonInt_raises (value : Json) : Raises (jsonInt lib value) := by
  cases value with
  | float printed => exact intOfFloat_raises printed
  | int n => exact raises_ok _
  | bool b => exact raises_ok _
  | str s =>
    simp only [jsonInt]
    split
    · split
      · exact raises_error rfl
      · exact raises_ok _
    · exact raises_error rfl
  | _ => exact raises_error rfl

theorem parseExpiresIn_raises (value : Json) : Raises (parseExpiresIn lib value) := by
  unfold parseExpiresIn
  split
  · exact raises_ok _
  · exact (jsonInt_raises _).map

theorem backoffDelay_raises (baseDelay : Time) (attempt : Nat) :
    Raises (backoffDelay baseDelay attempt) := by
  unfold backoffDelay
  split
  · exact raises_ok _
  · exact raises_error rfl

theorem addSeconds_raises (time : Time) (n : Int) : Raises (addSeconds time n) := by
  unfold addSeconds
  split
  · exact raises_ok _
  · exact raises_error rfl

theorem claim_raises (payload : List (Str × Json)) (key : Str) : Raises (claim payload key) := by
  unfold claim
  split
  · exact raises_ok _
  · exact raises_error rfl

theorem uuidOf_raises (value : Json) : Raises (uuidOf lib value) := by
  cases value with
  | str s =>
    simp only [uuidOf, Uuid.parse]
    split
    · exact raises_error rfl
    · split
      · exact raises_error rfl
      · split
        · exact raises_ok _
        · exact raises_error rfl
  | _ => exact raises_error rfl

theorem grantClaims_raises (payload : List (Str × Json)) : Raises (grantClaims lib payload) :=
  .bind (claim_raises _ _) fun _ => .bind (uuidOf_raises _) fun _ =>
    .bind (claim_raises _ _) fun _ => .bind (uuidOf_raises _) fun _ =>
    .bind (claim_raises _ _) fun _ => .bind (claim_raises _ _) fun _ => raises_ok _

theorem verifiedClaims_raises (token : Str) (now : Time) :
    Raises (verifiedClaims lib svc token now) := by
  unfold verifiedClaims
  split
  · exact raises_error rfl
  · exact raises_error rfl
  · exact raises_error rfl
  · rename_i x _ _ _ raised
    exact raises_error (lib.jwtDecode_raises _ _ _ _ x raised)
  · split
    · exact raises_error rfl
    · exact raises_error rfl
    · exact raises_error rfl
    · exact grantClaims_raises _

theorem getTool_raises (name : Str) : Raises (getTool name) := by
  unfold getTool
  split
  · exact raises_ok _
  · exact raises_error rfl

/-! ## Credentials -/

/-- Parsing a response raises exceptions only. -/
theorem cancels_parseTokenResponse (response : HttpResponse) :
    Cancels (parseTokenResponse lib response) := by
  unfold parseTokenResponse
  refine .ite (fun _ => cancels_throw rfl) fun _ => ?_
  split
  · exact cancels_throw rfl
  · rename_i exc _ raised
    exact cancels_throw (response.json_raises exc raised)
  · split
    · exact .bind (cancels_registerSecret _) fun _ => .bind (cancels_registerSecret _) fun _ =>
        .bind (cancels_ofExcept (parseExpiresIn_raises _)) fun _ => trivial
    · exact cancels_throw rfl
  · exact cancels_throw rfl

theorem cancels_persistRefreshed (refreshed : TokenResponse) :
    Cancels (persistRefreshed refreshed) := by
  refine .bind (cancels_op _) fun _ => .bind (cancels_op _) fun _ => .bind ?_ fun _ =>
    .bind ?_ fun _ => .bind (cancels_op _) fun _ => .bind (cancels_op _) fun _ => trivial
  · exact .ite (fun _ => .bind (cancels_op _) fun _ => cancels_op _) fun _ => trivial
  · unfold expiryOf
    split
    · trivial
    · exact .bind (cancels_op _) fun _ => cancels_ofExcept (addSeconds_raises _ _).map

theorem cancels_refreshCredential : Cancels (refreshCredential lib svc account) := by
  unfold refreshCredential
  split
  · exact cancels_throw rfl
  · exact .bind (cancels_op _) fun _ =>
      .bind (.bind (cancels_op _) fun _ => cancels_parseTokenResponse _) fun _ =>
        cancels_persistRefreshed _

/-- A handler that lets a cancellation through. -/
theorem cancels_handler {α β : Type} {p : BrokerProg α}
    {f : Except PyExn α → BrokerProg β} (head : Cancels p)
    (through : ∀ applied, f (.error (.cancelledError applied)) = .throw (.cancelledError applied))
    (tail : ∀ r, (∀ applied, r ≠ .error (.cancelledError applied)) → Cancels (f r)) :
    Cancels (p.attempt >>= f) := by
  refine .attempt_bind head (fun x fatal => ?_) fun r harmless => tail r fun applied => ?_
  · obtain ⟨applied, rfl⟩ := fatal_cases fatal
    rw [through]
    exact dies_throw fatal
  · rintro rfl
    exact harmless _ rfl rfl

theorem cancels_failed_early {α : Type} (msg : Str) :
    Cancels (.error <$> failed start msg : BrokerProg (Except InvokeOutcome α)) :=
  cancels_map (cancels_refused _ _ _)

/-- What is not a cancellation may be raised again. -/
theorem cancels_rethrow {α : Type} {x : PyExn} (other : ∀ applied, x ≠ .cancelledError applied) :
    Cancels (.throw x : BrokerProg α) := by
  cases x with
  | cancelledError applied => exact (other applied rfl).elim
  | _ => exact cancels_throw rfl

/-- `_refresh_or_outcome` lets a cancellation pass. -/
theorem cancels_refreshOrOutcome : Cancels (refreshOrOutcome lib svc account start) := by
  refine cancels_handler cancels_refreshCredential (fun applied => rfl) fun r other => ?_
  cases r with
  | ok accessToken => trivial
  | error x =>
    have other : ∀ applied, x ≠ .cancelledError applied := fun applied same =>
      other applied (same ▸ rfl)
    dsimp only
    split
    · rename_i h; cases h
    · exact cancels_failed_early _
    · exact cancels_failed_early _
    · exact cancels_failed_early _
    · rename_i exc _ _ _ same
      obtain rfl := Except.error.inj same
      exact .ite (fun _ => cancels_failed_early _) fun _ => cancels_rethrow other

theorem cancels_refreshIfStale : Cancels (refreshIfStale lib svc account start) := by
  unfold refreshIfStale
  split
  · trivial
  · refine .bind (cancels_op _) fun _ => .ite (fun _ => .ite (fun _ => ?_) fun _ => ?_) fun _ =>
      trivial
    · exact .bind cancels_refreshOrOutcome fun r => by cases r <;> trivial
    · exact .bind (cancels_op _) fun _ => .ite (fun _ => cancels_failed_early _) fun _ => trivial

theorem cancels_decryptStored : Cancels (decryptStored account start) := by
  refine cancels_handler (cancels_op _) (fun applied => rfl) fun r other => ?_
  cases r with
  | ok accessToken => trivial
  | error x =>
    have other : ∀ applied, x ≠ .cancelledError applied := fun applied same =>
      other applied (same ▸ rfl)
    dsimp only
    split
    · rename_i h; cases h
    · exact cancels_failed_early _
    · exact cancels_failed_early _
    · rename_i exc _ _ same
      obtain rfl := Except.error.inj same
      exact cancels_rethrow other

/-- So does obtaining the credential. -/
theorem cancels_obtainCredential : Cancels (obtainCredential lib svc account start) := by
  refine .bind cancels_refreshIfStale fun r => ?_
  rcases r with outcome | _ | accessToken
  · trivial
  · exact .bind cancels_decryptStored fun r => by cases r <;> trivial
  · trivial

/-! ## The provider call -/

/-- The retry loop ends with a cancelled attempt. -/
theorem cancels_callAttempts {fn : BrokerProg Json} {maxRetries : Int} {baseDelay : Time}
    {surface : Surface} {provider : Str} (head : Cancels fn) (attempts : List Nat) :
    Cancels (callAttempts fn maxRetries baseDelay (some (circuitOf surface provider))
      defaultRetryable (fun delay => op (.sleep delay)) attempts) := by
  induction attempts with
  | nil => exact cancels_throw rfl
  | cons attempt attempts ih =>
    refine .bind (cancels_op _) fun _ => .ite (fun _ => cancels_throw rfl) fun _ => ?_
    refine cancels_handler head (fun applied => rfl) fun r other => ?_
    cases r with
    | ok result => exact .bind (cancels_op _) fun _ => trivial
    | error x =>
      have rethrow : Cancels (.throw x : BrokerProg Json) :=
        cancels_rethrow fun applied same => other applied (same ▸ rfl)
      exact .ite (fun _ => rethrow) fun _ => .ite (fun _ => rethrow) fun _ =>
        .bind (cancels_op _) fun _ => .ite (fun _ => rethrow) fun _ =>
        .bind (cancels_ofExcept (backoffDelay_raises _ _)) fun _ =>
          .bind (cancels_op _) fun _ => ih

theorem cancels_callProvider {accessToken : Str} :
    Cancels (callProvider svc req tool accessToken) := by
  refine .bind (cancels_op _) fun _ => ?_
  unfold callWithRetries
  exact .ite (fun _ => cancels_throw rfl) fun _ => .ite (fun _ => cancels_throw rfl) fun _ =>
    cancels_callAttempts (cancels_op _) _

/-- One round, and what is left to the next. -/
theorem cancels_providerRound {refreshed : Bool} {accessToken : Str}
    (next : refreshed = false → ∀ accessToken, Cancels
      (providerRounds lib svc req grant tokenHash account tool start true accessToken)) :
    Cancels (providerRounds lib svc req grant tokenHash account tool start refreshed
      accessToken) := by
  rw [providerRounds]
  refine cancels_handler cancels_callProvider (fun applied => rfl) fun r other => ?_
  cases r with
  | ok result => exact cancels_succeeded _ _
  | error x =>
    have other : ∀ applied, x ≠ .cancelledError applied := fun applied same =>
      other applied (same ▸ rfl)
    dsimp only
    split
    · rename_i h; cases h
    · split
      · rename_i again
        refine .bind cancels_refreshOrOutcome fun r => ?_
        cases r with
        | error outcome => trivial
        | ok accessToken =>
          exact .bind cancels_isRevokedNow fun _ => .ite (fun _ => cancels_refused _ _ _) fun _ =>
            next again.2.1 _
      · exact cancels_refused _ _ _
    · exact cancels_refused _ _ _
    · exact cancels_refused _ _ _
    · exact cancels_refused _ _ _
    · exact cancels_refused _ _ _
    · rename_i exc _ _ _ _ _ same
      obtain rfl := Except.error.inj same
      exact cancels_rethrow other

/-- Both rounds end with a cancelled call. -/
theorem cancels_providerRounds {refreshed : Bool} {accessToken : Str} :
    Cancels (providerRounds lib svc req grant tokenHash account tool start refreshed
      accessToken) :=
  cancels_providerRound fun _ _ => cancels_providerRound (by simp)

/-- So does a call. -/
theorem cancels_executeCall : Cancels (executeCall lib svc req grant tokenHash tool start) := by
  refine .bind (cancels_op _) fun row => ?_
  split
  · exact cancels_refused _ _ _
  · refine .bind cancels_obtainCredential fun r => ?_
    cases r with
    | error outcome => trivial
    | ok credential =>
      exact .bind cancels_isRevokedNow fun _ => .ite (fun _ => cancels_refused _ _ _) fun _ =>
        cancels_providerRounds

/-! ## The idempotency store -/

theorem cancels_get (key : Str) : Cancels (IdempotencyStore.get lib key) := by
  refine .bind (cancels_op _) fun value => ?_
  split
  · trivial
  · refine .ite (fun _ => cancels_throw rfl) fun _ => ?_
    split
    · trivial
    · exact cancels_throw rfl

theorem cancels_reserve (key : Str) : Cancels (IdempotencyStore.reserve key) :=
  .bind (cancels_op _) fun _ => .bind (cancels_op _) fun _ => trivial

/-- A cancelled claim ends the invocation without a reservation of its own. -/
theorem cancels_claimKey (key : Str) : Cancels (claimKey lib start key) := by
  have conflicting : Cancels
      (.error <$> conflict start : BrokerProg (Except InvokeOutcome Str)) :=
    cancels_map (cancels_refused _ _ _)
  refine cancels_handler (cancels_get key) (fun applied => rfl) fun r other => ?_
  cases r with
  | error x =>
    have other : ∀ applied, x ≠ .cancelledError applied := fun applied same =>
      other applied (same ▸ rfl)
    dsimp only
    split
    · exact conflicting
    · rename_i exc _ same
      obtain rfl := Except.error.inj same
      exact cancels_rethrow other
    · rename_i h; cases h
    · rename_i h; cases h
  | ok value =>
    cases value with
    | null =>
      refine .bind (cancels_reserve key) fun reservation => ?_
      cases reservation with
      | none => exact conflicting
      | some owner => trivial
    | _ => exact cancels_map (cancels_succeeded _ _)

theorem cancels_release (key : Str) (owner : Option Str) :
    Cancels (IdempotencyStore.release key owner) := by
  refine .bind (cancels_op _) fun value => ?_
  split
  · trivial
  · exact .ite (fun _ => trivial) fun _ => .ite (fun _ => trivial) fun _ =>
      .bind (cancels_op _) fun _ => trivial

theorem cancels_complete (store : IdempotencyStore) (key : Str) (result : Json) (owner : Str) :
    Cancels (store.complete key result (some owner)) :=
  .bind (cancels_op _) fun _ => .ite (fun _ => trivial) fun _ =>
    .bind (cancels_op _) fun _ => trivial

/-- A cancelled call under a key neither completes nor releases it. -/
theorem cancels_executeReserved (store : IdempotencyStore) (key owner : Str) :
    Cancels (executeReserved lib svc req grant tokenHash tool start store key owner) := by
  refine cancels_handler cancels_executeCall (fun applied => rfl) fun r other => ?_
  cases r with
  | error x =>
    have rethrow : Cancels (.throw x : BrokerProg InvokeOutcome) :=
      cancels_rethrow fun applied same => other applied (same ▸ rfl)
    exact .ite (fun _ => .bind (cancels_release _ _) fun _ => rethrow) fun _ => rethrow
  | ok outcome =>
    refine .bind ?_ fun _ => trivial
    exact .ite (fun _ => cancels_complete _ _ _ _) fun _ => cancels_release _ _

/-! ## The service -/

theorem cancels_checkInvokeRate : Cancels (checkInvokeRate svc grant) := by
  unfold checkInvokeRate
  exact .ite (fun _ => .bind (cancels_op _) fun _ => .bind (cancels_op _) fun _ =>
    .ite (fun _ => .bind (cancels_op _) fun _ => trivial) fun _ => trivial) fun _ => trivial

/-- No handler of `_invoke_resolved` catches a cancellation. -/
theorem cancels_invokeResolved {fastRevoked : Bool} :
    Cancels (invokeResolved lib svc req grant tokenHash start fastRevoked) := by
  unfold invokeResolved
  refine .ite (fun _ => cancels_refused _ _ _) fun _ => .bind (cancels_op _) fun _ =>
    .ite (fun _ => cancels_refused _ _ _) fun _ => .bind cancels_checkInvokeRate fun _ =>
    .ite (fun _ => cancels_refused _ _ _) fun _ => ?_
  split
  · exact cancels_refused _ _ _
  · rename_i exc _ raised
    exact cancels_throw (getTool_raises _ _ raised)
  · refine .ite (fun _ => cancels_refused _ _ _) fun _ => ?_
    split
    · refine .bind (cancels_claimKey _) fun r => ?_
      cases r with
      | error outcome => trivial
      | ok reservation => exact cancels_executeReserved _ _ _
    · exact cancels_executeCall

/-- Nor does `invoke`, and no audit row is added. -/
theorem cancels_invokeAudited {fastRevoked : Bool} :
    Cancels (invokeAudited lib svc req grant tokenHash start fastRevoked) := by
  refine cancels_handler cancels_invokeResolved (fun applied => rfl) fun r other => ?_
  cases r with
  | ok outcome => trivial
  | error x =>
    exact .ite (fun _ => .bind (cancels_op _) fun _ => cancels_refused _ _ _) fun _ =>
      cancels_rethrow fun applied same => other applied (same ▸ rfl)

theorem cancels_invokeGranted : Cancels (invokeGranted lib svc req start) := by
  refine .bind cancels_markedRevoked fun _ => .bind (cancels_op _) fun row => ?_
  split
  · exact cancels_refused _ _ _
  · exact .bind cancels_invokeAudited fun _ => .bind
      (.bind (cancels_op _) fun _ => cancels_op _) fun _ => trivial

variable (lib svc req) in
/-- `invoke` is ended by a cancellation at once. -/
theorem cancels_invoke : Cancels (invoke lib svc req) := by
  refine .bind (cancels_op _) fun _ => ?_
  refine cancels_handler
    (.bind (cancels_op _) fun _ => cancels_ofExcept (verifiedClaims_raises _ _))
    (fun applied => rfl) fun r other => ?_
  cases r with
  | ok claims =>
    exact .ite (fun _ => cancels_refused _ _ _) fun _ => cancels_withSession cancels_invokeGranted
  | error x =>
    have other : ∀ applied, x ≠ .cancelledError applied := fun applied same =>
      other applied (same ▸ rfl)
    dsimp only
    split
    · exact cancels_refused _ _ _
    · exact cancels_refused _ _ _
    · rename_i exc _ _ same
      obtain rfl := Except.error.inj same
      exact cancels_rethrow other
    · rename_i h; cases h

/-- On traces: once it is cancelled an invocation only closes its session, and
it raises a cancellation exactly if it got one. -/
theorem wp_cancellation :
    wp (broker lib svc lossy) cancellation.role (serve lib svc (.invoke req))
      (cancellation.post Response) [] :=
  (cancels_map (cancels_invoke lib svc req)).wp cancellation_legal (by simp [AbortRule.Aborted])

/-! ## Invocations without an audit row -/

variable (lib req) in
/-- A row was looked up, but none added: something was cancelled before the
session was closed, or the rollback failed. -/
def Severed (tr : Trace BrokerSig) : Prop :=
  ∀ grant, looked lib req grant ∈ tr → NoAdd tr →
    (∃ e ∈ tr.dropLast, cancellation.Hit e.ans) ∨ ∃ y, ⟨.rollback, .error y⟩ ∈ tr.dropLast

/-- What the body of the session says of the trace once it is closed. -/
theorem severed_of_body {r : Except PyExn InvokeOutcome} {tr : Trace BrokerSig}
    (concluded : concludedPost lib svc req r tr) (aborted : cancellation.post InvokeOutcome r tr)
    (closed : BrokerSig.Ans .close) : Severed lib req (tr ++ [⟨.close, closed⟩]) := by
  intro grant found noAdd
  rw [List.dropLast_concat]
  -- had the session been closed without more ado, the body would have shown its end
  have ended := concluded (.ok ()) (by simp)
  have noAdd : NoAdd tr := (List.forall_mem_append.mp noAdd).1
  have added : ∀ {pre : Trace BrokerSig} {row : Row} {a b : Event BrokerSig},
      tr ++ [⟨.close, .ok ()⟩] ≠ pre ++ [⟨.add row, .ok ()⟩, a, b] := by
    intro pre row a b same
    have noAdd' : NoAdd (tr ++ [⟨.close, .ok ()⟩]) := noAdd.append (by simp [Op.isAdd])
    cases noAdd' ⟨.add row, .ok ()⟩ (by simp [same])
  have old : ∀ {e : Event BrokerSig} {a : BrokerSig.Ans .close}, e.op ≠ .close →
      e ∈ tr ++ [⟨.close, a⟩] → e ∈ tr := by
    intro e a other member
    rcases List.mem_append.mp member with old | new
    · exact old
    · exact (other (by rw [List.mem_singleton.mp new])).elim
  cases ended with
  | unresolved unfound => exact (unfound grant (List.mem_append_left _ (old (by simp) found))).elim
  | audited _ _ _ _ _ _ _ _ _ trace_eq => exact (added trace_eq).elim
  | unacknowledged _ _ _ _ _ _ _ trace_eq => exact (added trace_eq).elim
  | @aborted x _ _ _ cause _ =>
    rcases cause with fatal | ⟨y, member⟩
    · exact .inl (aborted.mpr ⟨x, rfl, fatal⟩)
    · exact .inr ⟨y, old (by simp) member⟩

variable (lib svc req) in
/-- `invoke` is concluded, and only without an audit row where it was severed. -/
theorem wp_invoke_severed :
    wp (broker lib svc lossy) (invokeRole lib svc req) (invoke lib svc req)
      (fun r tr => Concluded lib svc req tr r ∧ Severed lib req tr) [] := by
  refine wp_invoke_of (fun r start now ext plain denied => ⟨concluded_early plain denied, ?_⟩)
    fun start now accepted => ?_
  · intro grant found
    have plain : ∀ e ∈ ([⟨.clock, .ok start⟩, ⟨.clock, .ok now⟩] ++ ext : Trace BrokerSig),
        e.op.isPlain = true := List.forall_mem_append.mpr ⟨by simp [Op.isPlain], plain⟩
    cases plain _ found
  · have aborts : wp (broker lib svc lossy) cancellation.role (invokeGranted lib svc req start)
        (cancellation.post InvokeOutcome) [⟨.clock, .ok start⟩, ⟨.clock, .ok now⟩] :=
      Prog.Aborts.wp cancels_invokeGranted cancellation_legal
        (by simp [AbortRule.Aborted, AbortRule.Hit])
    refine wp_mono (wp_conj (wp_session accepted) aborts fun _ _ _ => trivial) ?_
    exact fun r tr _ ended closed cancelled =>
      ⟨ended.1 closed cancelled, severed_of_body ended.1 ended.2 closed⟩

end CredBroker
