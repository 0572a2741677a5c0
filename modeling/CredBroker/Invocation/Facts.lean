import CredBroker.Invocation.Ops

/-!
# What an invocation has established

Facts about the events of one invocation. Those of `Admitted` only accumulate;
`Gated` and `Fresh` say how recent the last revocation check is; `Sent` says
where the provider's result stands in the trace.
-/

namespace CredBroker

open Python Interaction

variable (lib : Lib) (svc : Services) (req : InvokeRequest)

/-! ## Admission -/

/-- The presented token was looked up, and this is its row. -/
abbrev looked (grant : Grant) : Event BrokerSig :=
  ⟨.query (.grantByTokenHash (hashToken lib req.grantToken)), .ok (some grant)⟩

/-- `verify_grant_token` accepted the token, for the requested tool. -/
def Accepted (tr : Trace BrokerSig) : Prop :=
  ∃ start now claims, [⟨.clock, .ok start⟩, ⟨.clock, .ok now⟩] <+: tr ∧
    verifiedClaims lib svc req.grantToken now = .ok claims ∧ req.toolName = claims.toolName

/-- Step 3: right after the lookup, the row was not revoked and not expired. -/
def Live (grant : Grant) (tr : Trace BrokerSig) : Prop :=
  ∃ now, [looked lib req grant, ⟨.clock, .ok now⟩] <:+: tr ∧ grant.revokedAt = none ∧
    now < grant.expiresAt

/-- No revocation marker was seen. -/
def Unmarked (tr : Trace BrokerSig) : Prop :=
  ∀ count : Nat, ⟨.redis (.existsKey (GrantCache.revokedKey (hashToken lib req.grantToken))),
    .ok count⟩ ∈ tr → count = 0

/-- The limiter, where there is one, allowed the call. -/
def Paced (grant : Grant) (tr : Trace BrokerSig) : Prop :=
  svc.rateLimiter = true → ∃ window count,
    ⟨.redis (.incr (RateLimiter.counterKey ("invoke:" ++ grant.agentId.str) window)),
      .ok count⟩ ∈ tr ∧ count ≤ svc.settings.invokesPerMinutePerAgent

/-- `reserve` gave this owner the key. -/
def Reserved (key owner : Str) (tr : Trace BrokerSig) : Prop :=
  [⟨.tokenHex, .ok owner⟩,
    ⟨.redis (.set (IdempotencyStore.name key) (IdempotencyStore.pendingValue owner) true
      IdempotencyStore.reservationTtlSeconds), .ok true⟩] <:+: tr

/-- Everything that `_execute_call` may take for granted. -/
structure Admitted (grant : Grant) (tool : ToolAdapter) (tr : Trace BrokerSig) : Prop where
  accepted : Accepted lib svc req tr
  live : Live lib req grant tr
  paced : Paced svc grant tr
  tool_eq : getTool req.toolName = .ok tool
  scope_eq : grant.scope = tool.scope
  reserved : ∀ key store, req.idempotencyKey = some key → svc.idempotencyStore = some store →
    ∃ owner, Reserved (fullKey req grant key) owner tr

/-! ## Revocation checks -/

/-- The events of a look at the revocation marker that found none. -/
def unmarkedNow : Trace BrokerSig :=
  if svc.grantCache then
    [⟨.redis (.existsKey (GrantCache.revokedKey (hashToken lib req.grantToken))), .ok (0 : Nat)⟩]
  else []

/-- The events of an `_is_revoked_now` that returned `False`. -/
def notRevokedNow (grantId : Uuid) : Trace BrokerSig :=
  unmarkedNow lib svc req ++ [⟨.query (.revokedAt grantId), .ok (some none)⟩]

/-- A check came out clear, and no credential was decrypted or refreshed since. -/
def Gated (grantId : Uuid) (tr : Trace BrokerSig) : Prop :=
  ∃ pre post, tr = pre ++ notRevokedNow lib svc req grantId ++ post ∧
    ∀ e ∈ post, e.op.exposes = false

/-- A check came out clear, and no attempt was made and no time slept since. -/
def Fresh (grantId : Uuid) (tr : Trace BrokerSig) : Prop :=
  ∃ pre post, tr = pre ++ notRevokedNow lib svc req grantId ++ post ∧
    ∀ e ∈ post, e.op.isToolCall = false ∧ e.op.isSleep = false

/-- The breaker has just admitted the retry of a failed attempt. -/
def Retrying (tr : Trace BrokerSig) : Prop :=
  ∃ pre tool accessToken arguments x surface provider delay,
    tr = pre ++ [⟨.toolCall tool accessToken arguments, .error x⟩,
      ⟨.circuitFailure surface provider, .ok ()⟩, ⟨.sleep delay, .ok ()⟩,
      ⟨.circuitAllow surface provider, .ok true⟩] ∧ defaultRetryable x = true

/-! ## Credentials -/

/-- An access token was decrypted from an account, or redeemed with the refresh
token decrypted from it. -/
inductive Obtained (account : ConnectedAccount) (accessToken : Str) (tr : Trace BrokerSig) : Prop
  | stored (decrypted : ⟨.decrypt account.encryptedAccessToken, .ok accessToken⟩ ∈ tr)
  | refreshed (blob : Bytes) (refreshToken : Str) (response : HttpResponse)
      (blob_eq : account.encryptedRefreshToken = some blob)
      (decrypted : ⟨.decrypt blob, .ok refreshToken⟩ ∈ tr)
      (redeemed : ⟨.tokenEndpoint (refreshForm svc.settings refreshToken), .ok response⟩ ∈ tr)
      (token_eq : AccessTokenOf response accessToken)

/-- The access token is the account's that the grant names. -/
def Credential (grant : Grant) (accessToken : Str) (tr : Trace BrokerSig) : Prop :=
  ∃ account, ⟨.query (.accountById grant.connectedAccountId), .ok (some account)⟩ ∈ tr ∧
    Obtained svc account accessToken tr

/-- What stands behind one attempt at the provider call. -/
structure Mediated (grant : Grant) (tool : ToolAdapter) (accessToken : Str)
    (tr : Trace BrokerSig) : Prop where
  admitted : Admitted lib svc req grant tool tr
  unmarked : Unmarked lib req tr
  credential : Credential svc grant accessToken tr
  gated : Gated lib svc req grant.id tr
  recent : Fresh lib svc req grant.id tr ∨ Retrying tr

/-! ## Results and rows -/

/-- The provider has not returned a result. -/
def NoResult (tr : Trace BrokerSig) : Prop :=
  ∀ tool accessToken arguments result, ⟨.toolCall tool accessToken arguments, .ok result⟩ ∉ tr

/-- The provider returned one result, and `rest` came after it. -/
def Sent (result : Json) (rest tr : Trace BrokerSig) : Prop :=
  ∃ pre tool accessToken,
    tr = pre ++ ⟨.toolCall tool accessToken req.arguments, .ok result⟩ :: rest ∧
      NoResult pre ∧ NoResult rest

/-- Every operation succeeded. -/
def AllOk (tr : Trace BrokerSig) : Prop := ∀ e ∈ tr, ∃ v, e.ans = .ok v

def NoAdd (tr : Trace BrokerSig) : Prop := ∀ e ∈ tr, e.op.isAdd = false

/-- The reservation is not settled, and nothing audited. -/
def Unsettled (tr : Trace BrokerSig) : Prop := ∀ e ∈ tr, e.op.settles = false

/-- The facts that `_execute_call` carries along until the provider has answered. -/
structure Running (grant : Grant) (tool : ToolAdapter) (tr : Trace BrokerSig) : Prop where
  admitted : Admitted lib svc req grant tool tr
  unmarked : Unmarked lib req tr
  unsettled : Unsettled tr
  noResult : NoResult tr

/-- The facts that stand between a clear check and the provider's answer. -/
structure Poised (grant : Grant) (tool : ToolAdapter) (accessToken : Str)
    (tr : Trace BrokerSig) : Prop where
  running : Running lib svc req grant tool tr
  credential : Credential svc grant accessToken tr
  gated : Gated lib svc req grant.id tr

section Accumulate

variable {lib svc req} {grant : Grant} {tool : ToolAdapter} {accessToken key owner : Str}
  {tr ext : Trace BrokerSig}

theorem Accepted.append (h : Accepted lib svc req tr) (ext : Trace BrokerSig) :
    Accepted lib svc req (tr ++ ext) := by
  obtain ⟨start, now, claims, first, rest⟩ := h
  exact ⟨start, now, claims, first.trans (List.prefix_append _ _), rest⟩

theorem Live.append (h : Live lib req grant tr) (ext : Trace BrokerSig) :
    Live lib req grant (tr ++ ext) := by
  obtain ⟨now, inside, rest⟩ := h
  exact ⟨now, inside.trans (List.prefix_append _ _).isInfix, rest⟩

theorem Paced.append (h : Paced svc grant tr) (ext : Trace BrokerSig) :
    Paced svc grant (tr ++ ext) := fun on => by
  obtain ⟨window, count, member, le⟩ := h on
  exact ⟨window, count, List.mem_append_left _ member, le⟩

theorem Reserved.append (h : Reserved key owner tr) (ext : Trace BrokerSig) :
    Reserved key owner (tr ++ ext) := h.trans (List.prefix_append _ _).isInfix

/-- An admission is kept. -/
theorem Admitted.append (h : Admitted lib svc req grant tool tr) (ext : Trace BrokerSig) :
    Admitted lib svc req grant tool (tr ++ ext) where
  accepted := h.accepted.append ext
  live := h.live.append ext
  paced := h.paced.append ext
  tool_eq := h.tool_eq
  scope_eq := h.scope_eq
  reserved key store keyed stored := by
    obtain ⟨owner, held⟩ := h.reserved key store keyed stored
    exact ⟨owner, held.append ext⟩

/-- What was obtained stays obtained, whatever else happens. -/
theorem Obtained.mono {account : ConnectedAccount} {tr' : Trace BrokerSig}
    (h : Obtained svc account accessToken tr) (sub : ∀ e ∈ tr, e ∈ tr') :
    Obtained svc account accessToken tr' := by
  cases h with
  | stored decrypted => exact .stored (sub _ decrypted)
  | refreshed blob refreshToken response blob_eq decrypted redeemed token_eq =>
    exact .refreshed blob refreshToken response blob_eq (sub _ decrypted) (sub _ redeemed) token_eq

theorem Credential.append (h : Credential svc grant accessToken tr) (ext : Trace BrokerSig) :
    Credential svc grant accessToken (tr ++ ext) := by
  obtain ⟨account, loaded, obtained⟩ := h
  exact ⟨account, List.mem_append_left _ loaded,
    obtained.mono fun _ member => List.mem_append_left _ member⟩

/-- A passed gate stays passed while nothing is exposed. -/
theorem Gated.append (h : Gated lib svc req grant.id tr)
    (hidden : ∀ e ∈ ext, e.op.exposes = false) : Gated lib svc req grant.id (tr ++ ext) := by
  obtain ⟨pre, post, rfl, since⟩ := h
  refine ⟨pre, post ++ ext, by rw [List.append_assoc], fun e member => ?_⟩
  rcases List.mem_append.mp member with old | new
  · exact since e old
  · exact hidden e new

theorem Fresh.append (h : Fresh lib svc req grant.id tr)
    (idle : ∀ e ∈ ext, e.op.isToolCall = false ∧ e.op.isSleep = false) :
    Fresh lib svc req grant.id (tr ++ ext) := by
  obtain ⟨pre, post, rfl, since⟩ := h
  refine ⟨pre, post ++ ext, by rw [List.append_assoc], fun e member => ?_⟩
  rcases List.mem_append.mp member with old | new
  · exact since e old
  · exact idle e new

theorem unmarkedNow_checks : ∀ e ∈ unmarkedNow lib svc req, e.op.isCheck = true := by
  intro e member
  unfold unmarkedNow at member
  split at member <;> simp at member
  rw [member]
  rfl

theorem notRevokedNow_checks (grantId : Uuid) :
    ∀ e ∈ notRevokedNow lib svc req grantId, e.op.isCheck = true :=
  List.forall_mem_append.mpr ⟨unmarkedNow_checks, by simp [Op.isCheck]⟩

theorem unmarked_unmarkedNow : Unmarked lib req (unmarkedNow lib svc req) := by
  intro count member
  unfold unmarkedNow at member
  split at member <;> simp at member
  exact member

/-- Looking for the marker again keeps `Unmarked`, where it is not there. -/
theorem Unmarked.append (h : Unmarked lib req tr) (h' : Unmarked lib req ext) :
    Unmarked lib req (tr ++ ext) := fun count member =>
  (List.mem_append.mp member).elim (h count) (h' count)

theorem unmarked_of_unchecked (unchecked : ∀ e ∈ tr, e.op.isCheck = false) :
    Unmarked lib req tr := fun _ member => by cases unchecked _ member

/-- The gate is passed right after its checks. -/
theorem gated_checked : Gated lib svc req grant.id (tr ++ notRevokedNow lib svc req grant.id) :=
  ⟨tr, [], by simp, by simp⟩

theorem fresh_checked : Fresh lib svc req grant.id (tr ++ notRevokedNow lib svc req grant.id) :=
  ⟨tr, [], by simp, by simp⟩

theorem NoAdd.append (h : NoAdd tr) (none : ∀ e ∈ ext, e.op.isAdd = false) :
    NoAdd (tr ++ ext) := List.forall_mem_append.mpr ⟨h, none⟩

theorem Unsettled.noAdd (h : Unsettled tr) : NoAdd tr := fun e member =>
  Op.isAdd_of_settles (h e member)

theorem Unsettled.append (h : Unsettled tr) (none : ∀ e ∈ ext, e.op.settles = false) :
    Unsettled (tr ++ ext) := List.forall_mem_append.mpr ⟨h, none⟩

/-- No call has returned in either part. -/
theorem NoResult.append (h : NoResult tr) (h' : NoResult ext) : NoResult (tr ++ ext) := by
  intro tool accessToken arguments result member
  rcases List.mem_append.mp member with old | new
  · exact h _ _ _ _ old
  · exact h' _ _ _ _ new

theorem noResult_of_noCall (none : ∀ e ∈ tr, e.op.isToolCall = false) : NoResult tr := by
  intro tool accessToken arguments result member
  cases none _ member

/-- Quiet operations keep all that an invocation carries along. -/
theorem Running.quiet (h : Running lib svc req grant tool tr)
    (quiet : ∀ e ∈ ext, e.op.isQuiet = true) : Running lib svc req grant tool (tr ++ ext) where
  admitted := h.admitted.append ext
  unmarked count member := by
    rcases List.mem_append.mp member with old | new
    · exact h.unmarked count old
    · cases quiet _ new
  unsettled := h.unsettled.append fun e member => Op.settles_of_isQuiet (quiet e member)
  noResult := h.noResult.append (noResult_of_noCall fun e member =>
    Op.isToolCall_of_isQuiet (quiet e member))

/-- So does a revocation check that came out clear. -/
theorem Running.checked (h : Running lib svc req grant tool tr) :
    Running lib svc req grant tool (tr ++ notRevokedNow lib svc req grant.id) where
  admitted := h.admitted.append _
  unmarked := h.unmarked.append (unmarked_unmarkedNow.append (by simp [Unmarked]))
  unsettled := h.unsettled.append fun e member =>
    Op.settles_of_isCheck (notRevokedNow_checks _ e member)
  noResult := h.noResult.append (noResult_of_noCall fun e member =>
    Op.isToolCall_of_isCheck (notRevokedNow_checks _ e member))

/-- And a failed attempt. -/
theorem Running.attempted (h : Running lib svc req grant tool tr) {x : PyExn}
    {arguments : Arguments} :
    Running lib svc req grant tool (tr ++ [⟨.toolCall tool accessToken arguments, .error x⟩]) where
  admitted := h.admitted.append _
  unmarked count member := by
    rcases List.mem_append.mp member with old | new
    · exact h.unmarked count old
    · simp at new
  unsettled := h.unsettled.append (by simp [Op.settles])
  noResult := h.noResult.append (by intro _ _ _ _ member; simp at member)

theorem Poised.quiet (h : Poised lib svc req grant tool accessToken tr)
    (quiet : ∀ e ∈ ext, e.op.isQuiet = true) (hidden : ∀ e ∈ ext, e.op.exposes = false) :
    Poised lib svc req grant tool accessToken (tr ++ ext) where
  running := h.running.quiet quiet
  credential := h.credential.append ext
  gated := h.gated.append hidden

/-- A failed attempt leaves the program poised for the next one. -/
theorem Poised.attempted (h : Poised lib svc req grant tool accessToken tr) {x : PyExn}
    {arguments : Arguments} :
    Poised lib svc req grant tool accessToken
      (tr ++ [⟨.toolCall tool accessToken arguments, .error x⟩]) where
  running := h.running.attempted
  credential := h.credential.append _
  gated := h.gated.append (by simp [Op.exposes])

/-- A program that is poised calls with what it was admitted with. -/
theorem Poised.mediated (h : Poised lib svc req grant tool accessToken tr)
    (recent : Fresh lib svc req grant.id tr ∨ Retrying tr) :
    Mediated lib svc req grant tool accessToken tr :=
  ⟨h.running.admitted, h.running.unmarked, h.credential, h.gated, recent⟩

end Accumulate

end CredBroker
