import CredBroker.Entitlement
import CredBroker.Interaction.Keeps
import CredBroker.Invocation.Replayed
import CredBroker.Transactions

/-!
# Whose credentials are sent

A credential is received from the token endpoint, encrypted, stored with an account,
decrypted and sent, by programs that know nothing of each other. Whatever they do in
between, what is sent for an account was received by a program that worked on it.
-/

namespace CredBroker

open Python Interaction

variable {lib : Lib} {svc : Services} {lossy : Bool}

/-! ## Where a credential is from -/

/-- The token endpoint answered with this credential. -/
def Received (field token : Str) (tr : Trace BrokerSig) : Prop :=
  ∃ form response, ⟨.tokenEndpoint form, .ok response⟩ ∈ tr ∧ response.field field = .str token

/-- A credential that was received is encrypted. -/
def Vaulted (field : Str) (blob : Bytes) (tr : Trace BrokerSig) : Prop :=
  ∃ token, Received field token tr ∧ ⟨.encrypt (.str token), .ok blob⟩ ∈ tr

/-- The refresh token was decrypted from an account that was loaded. -/
def Redeemable (refreshToken : Str) (tr : Trace BrokerSig) : Prop :=
  ∃ id account blob, ⟨.query (.accountById id), .ok (some account)⟩ ∈ tr ∧
    account.encryptedRefreshToken = some blob ∧ ⟨.decrypt blob, .ok refreshToken⟩ ∈ tr

/-- The columns of a new account hold credentials that were received. -/
structure Stocked (account : ConnectedAccount) (tr : Trace BrokerSig) : Prop where
  access : Vaulted "access_token" account.encryptedAccessToken tr
  refresh : ∀ blob, account.encryptedRefreshToken = some blob → Vaulted "refresh_token" blob tr

/-- What stands behind the operations that store and redeem credentials. -/
def vaultGuard (svc : Services) (r : Request) (tr : Trace BrokerSig) : Op → Prop
  | .add (.account account) =>
    (r = .seedDemo ∧ ⟨.encrypt (.str demoAccessToken), .ok account.encryptedAccessToken⟩ ∈ tr ∧
      account.encryptedRefreshToken = none) ∨
      (∃ request, r = .callback request) ∧ Stocked account tr
  | .setAccount (.encryptedAccessToken blob) => Vaulted "access_token" blob tr
  | .setAccount (.encryptedRefreshToken value) =>
    ∀ blob, value = some blob → Vaulted "refresh_token" blob tr
  | .tokenEndpoint form => ∀ req, r = .invoke req →
    ∃ refreshToken, form = refreshForm svc.settings refreshToken ∧ Redeemable refreshToken tr
  | _ => True

/-- The operations that it is about. -/
def Op.isVault : Op → Bool
  | .add (.account _) | .setAccount _ | .tokenEndpoint _ => true
  | _ => false

theorem vaultGuard_of_not {r : Request} {tr : Trace BrokerSig} {e : Op}
    (other : e.isVault = false) : vaultGuard svc r tr e := by
  cases e with
  | add row => cases row <;> trivial
  | setAccount | tokenEndpoint => cases other
  | _ => trivial

section Lasting

variable {field token : Str} {blob : Bytes} {account : ConnectedAccount} {tr ext : Trace BrokerSig}

theorem vaulted_lasting : Lasting (Vaulted field blob) := by
  rintro tr ext ⟨token, ⟨form, response, answered, holds⟩, encrypted⟩
  exact ⟨token, ⟨form, response, List.mem_append_left _ answered, holds⟩,
    List.mem_append_left _ encrypted⟩

/-- The answer of the token endpoint was parsed. -/
def Fetched (lib : Lib) (token : TokenResponse) (tr : Trace BrokerSig) : Prop :=
  ∃ form response, ⟨.tokenEndpoint form, .ok response⟩ ∈ tr ∧ TokenOf lib response token

theorem fetched_lasting (token : TokenResponse) : Lasting (Fetched lib token) := by
  rintro tr ext ⟨form, response, answered, parsed⟩
  exact ⟨form, response, List.mem_append_left _ answered, parsed⟩

theorem Fetched.access {token : TokenResponse} (fetched : Fetched lib token tr) :
    Received "access_token" token.accessToken tr := by
  obtain ⟨form, response, answered, parsed⟩ := fetched
  obtain ⟨payload, json, found⟩ := parsed.access
  exact ⟨form, response, answered, (HttpResponse.field_of_json json _).trans found⟩

/-- Only a string is ever encrypted. -/
theorem encrypted_str {value : Json} {tr : Trace BrokerSig}
    (may : (broker lib svc lossy).May tr ⟨.encrypt value, .ok blob⟩) : ∃ s, value = .str s := by
  obtain ⟨w, permits⟩ := may
  have permits : w.permits tr ⟨.encrypt value, .ok blob⟩ = true := permits
  cases value with
  | str s => exact ⟨s, rfl⟩
  | _ => cases permits

theorem Fetched.refresh {token : TokenResponse} (fetched : Fetched lib token tr)
    (truthy : token.refreshToken.truthy = true) {s : Str} (is : token.refreshToken = .str s) :
    Received "refresh_token" s tr := by
  obtain ⟨form, response, answered, parsed⟩ := fetched
  refine ⟨form, response, answered, ?_⟩
  rw [← is, parsed.refresh]
  split
  · rfl
  · rename_i absent
    rw [parsed.refresh, if_neg absent] at truthy
    cases truthy

end Lasting

/-! ## Programs that store credentials -/

section Programs

variable {α : Type} {p : BrokerProg α} {r : Request} {J : Trace BrokerSig → Prop}

variable (lib svc lossy) in
/-- A program that keeps to the guard. -/
abbrev Guards (r : Request) (J : Trace BrokerSig → Prop) (p : BrokerProg α)
    (R : α → Trace BrokerSig → Prop) : Prop :=
  (broker lib svc lossy).Keeps (vaultGuard svc r) J p R

/-- What neither encrypts, decrypts nor calls a provider needs no guard. -/
theorem guards_unvaulted (uses : Within p (!·.isVault)) : Guards lib svc lossy r J p Anywhere :=
  .of_uses uses fun _ _ other => vaultGuard_of_not (by simpa using other)

theorem guards_op {e : Op} (other : e.isVault = false) : Guards lib svc lossy r J (op e)
    fun v tr => (∃ tr, (broker lib svc lossy).May tr ⟨e, .ok v⟩) ∧ ⟨e, .ok v⟩ ∈ tr :=
  .perform fun _ _ => vaultGuard_of_not other

/-- The answer of the token endpoint, parsed. -/
theorem guards_parse {form : List (Str × Str)} (allowed : ∀ tr, J tr →
    vaultGuard svc r tr (.tokenEndpoint form)) :
    Guards lib svc lossy r J (op (.tokenEndpoint form) >>= parseTokenResponse lib)
      fun token tr => Fetched lib token tr := by
  intro tr holds
  rw [wp_bind, wp_perform]
  refine ⟨allowed tr holds, fun a _ _ => ?_⟩
  cases a with
  | error x => exact nofun
  | ok response =>
    refine wp_within (parseTokenResponse_uses response) (parseTokenResponse_field response)
      (fun tr e register => vaultGuard_of_not ?_) fun ended ext _ parsed token same => ?_
    · cases e <;> first | rfl | cases register
    · exact ⟨form, response, List.mem_append_left _ (List.mem_append_right _
        (List.mem_singleton_self _)), parsed token same⟩

theorem guards_rotate {token : TokenResponse} :
    Guards lib svc lossy r (Fetched lib token) (rotateRefresh token.refreshToken) Anywhere := by
  refine .ite (fun truthy => ?_) fun _ => .ret fun _ _ => trivial
  refine .bind (fetched_lasting token) (guards_op rfl) fun blob => .anywhere (.perform ?_)
  rintro tr ⟨fetched, ⟨_, may⟩, encrypted⟩ _ ⟨⟩
  obtain ⟨s, is⟩ := encrypted_str may
  rw [is] at encrypted
  exact ⟨s, fetched.refresh truthy is, encrypted⟩

theorem guards_plain (uses : Within p Op.isPlain) : Guards lib svc lossy r J p Anywhere :=
  guards_unvaulted (uses.mono fun {e} plain => by cases e <;> first | rfl | cases plain)

/-- The tokens of a response are encrypted to what is then assigned. -/
theorem guards_persist {token : TokenResponse} :
    Guards lib svc lossy r (Fetched lib token) (persistRefreshed token) Anywhere := by
  have lasting : Lasting (Fetched lib token) := fetched_lasting token
  refine .bind lasting (guards_op rfl) fun blob => ?_
  refine .seq (lasting.and ((Lasting.const _).and (Lasting.mem _)))
    (.anywhere (.perform ?_)) fun _ => ?_
  · rintro tr ⟨fetched, -, encrypted⟩
    exact ⟨token.accessToken, fetched.access, encrypted⟩
  · apply Machine.Keeps.mono (J := Fetched lib token) _ fun tr holds => holds.1
    refine .seq lasting guards_rotate fun _ => .seq lasting (guards_plain (expiryOf_uses _))
      fun expiresAt => ?_
    refine .seq lasting (.anywhere (.perform fun _ _ => trivial)) fun _ => ?_
    exact .seq lasting (.anywhere (guards_op rfl)) fun _ => .ret fun _ _ => trivial

/-- A refresh redeems the refresh token of the account that was loaded. -/
theorem guards_refresh {id : Uuid} {account : ConnectedAccount} :
    Guards lib svc lossy r (⟨.query (.accountById id), .ok (some account)⟩ ∈ ·)
      (refreshCredential lib svc account) Anywhere := by
  unfold refreshCredential
  split
  · exact .throw _
  · rename_i blob stored
    have lasting :
        Lasting (⟨.query (.accountById id), .ok (some account)⟩ ∈ · : Trace BrokerSig → Prop) :=
      Lasting.mem _
    refine .bind lasting (guards_op rfl) fun refreshToken => ?_
    refine .bind (lasting.and ((Lasting.const _).and (Lasting.mem _))) (guards_parse ?_)
      fun token => guards_persist.mono fun tr holds => holds.2
    rintro tr ⟨loaded, -, decrypted⟩ req -
    exact ⟨refreshToken, rfl, id, account, blob, loaded, stored, decrypted⟩

/-! ### Invocations -/

section Invoke

variable {req : InvokeRequest} {grant : Grant} {tokenHash : Str} {tool : ToolAdapter} {start : Time}
  {id : Uuid} {account : ConnectedAccount}

theorem guards_refused {status : Status} {msg : Str} {reason : Option DeniedReason} :
    Guards lib svc lossy r J (refused start status msg reason) Anywhere :=
  guards_plain (refused_uses ..)

theorem guards_early {β : Type} {status : Status} {msg : Str} {reason : Option DeniedReason} :
    Guards lib svc lossy r J
      (.error <$> refused start status msg reason : BrokerProg (Except InvokeOutcome β)) Anywhere :=
  guards_plain (.bind (refused_uses ..) fun _ => trivial)

theorem guards_keyed (uses : Within p Op.isKeyed) : Guards lib svc lossy r J p Anywhere :=
  guards_unvaulted (uses.mono fun {e} keyed => by cases e <;> first | rfl | cases keyed)

theorem guards_entry (uses : Within p Op.isEntry) : Guards lib svc lossy r J p Anywhere :=
  guards_unvaulted (uses.mono fun {e} entry => by cases e <;> first | rfl | cases entry)

theorem guards_isRevokedNow :
    Guards lib svc lossy r J (isRevokedNow svc grant tokenHash) Anywhere := by
  refine guards_entry (.bind markedRevoked_entry fun marked => .ite (fun _ => trivial) fun _ =>
    .bind (within_op rfl) fun found => ?_)
  split <;> trivial

theorem guards_callProvider {accessToken : Str} :
    Guards lib svc lossy r J (callProvider svc req tool accessToken) Anywhere :=
  guards_unvaulted (.bind (within_op rfl) fun _ => .ite (fun _ => trivial) fun _ =>
    .ite (fun _ => trivial) fun _ =>
      callAttempts_uses (within_op rfl) rfl rfl rfl (fun _ => rfl) _)

/-- What an account's part of an invocation relies on. -/
abbrev Loaded (id : Uuid) (account : ConnectedAccount) (tr : Trace BrokerSig) : Prop :=
  ⟨.query (.accountById id), .ok (some account)⟩ ∈ tr

/-- A refresh decrypts what its account was loaded with. -/
theorem guards_refreshOrOutcome : Guards lib svc lossy r (Loaded id account)
    (refreshOrOutcome lib svc account start) Anywhere := by
  refine .seq (Lasting.mem _) guards_refresh.attempt.anywhere fun ended => ?_
  split
  · exact .ret fun _ _ => trivial
  · exact guards_early
  · exact guards_early
  · exact guards_early
  · exact .ite (fun _ => guards_early) fun _ => .throw _

theorem guards_refreshIfStale : Guards lib svc lossy r (Loaded id account)
    (refreshIfStale lib svc account start) Anywhere := by
  unfold refreshIfStale
  split
  · exact .ret fun _ _ => trivial
  · refine .seq (Lasting.mem _) (.anywhere (guards_op rfl)) fun now => .ite (fun _ => ?_) fun _ =>
      .ret fun _ _ => trivial
    refine .ite (fun _ => .seq (Lasting.mem _) guards_refreshOrOutcome fun ended => ?_) fun _ =>
      .seq (Lasting.mem _) (.anywhere (guards_op rfl)) fun now =>
        .ite (fun _ => guards_early) fun _ => .ret fun _ _ => trivial
    split <;> exact .ret fun _ _ => trivial

theorem guards_decryptStored : Guards lib svc lossy r J (decryptStored account start) Anywhere := by
  refine guards_unvaulted (.bind (.attempt (within_op rfl)) fun ended => ?_)
  have early {status : Status} {msg : Str} {reason : Option DeniedReason} :
      Within (.error <$> refused start status msg reason : BrokerProg (Except InvokeOutcome Str))
        (!·.isVault) := .bind ((refused_uses ..).mono fun {e} plain => by
          cases e <;> first | rfl | cases plain) fun _ => trivial
  split
  · trivial
  · exact early
  · exact early
  · trivial

/-- The credential of a call was decrypted from its account, or has come with its refresh. -/
theorem guards_obtain : Guards lib svc lossy r (Loaded id account)
    (obtainCredential lib svc account start) Anywhere := by
  refine .seq (Lasting.mem _) guards_refreshIfStale fun ended => ?_
  split
  · exact .ret fun _ _ => trivial
  · exact .ret fun _ _ => trivial
  · refine .seq (Lasting.mem _) guards_decryptStored fun ended => ?_
    split <;> exact .ret fun _ _ => trivial

/-- A round sends the credential that it was given, or one that it has renewed. -/
theorem guards_round {refreshed : Bool} (next : refreshed = false → ∀ accessToken,
      Guards lib svc lossy r (Loaded id account)
        (providerRounds lib svc req grant tokenHash account tool start true accessToken) Anywhere) :
    ∀ accessToken, Guards lib svc lossy r (Loaded id account)
      (providerRounds lib svc req grant tokenHash account tool start refreshed accessToken)
      Anywhere := by
  intro accessToken
  rw [providerRounds]
  refine .seq (Lasting.mem _) guards_callProvider.attempt.anywhere fun ended => ?_
  split
  · exact guards_plain (succeeded_uses ..)
  · split
    · rename_i again
      refine .seq (Lasting.mem _) guards_refreshOrOutcome fun ended => ?_
      split
      · exact .ret fun _ _ => trivial
      · exact .seq (Lasting.mem _) guards_isRevokedNow fun _ => .ite (fun _ => guards_refused)
          fun _ => next again.2.1 _
    · exact guards_refused
  · exact guards_refused
  · exact guards_refused
  · exact guards_refused
  · exact guards_refused
  · exact .throw _

/-- A call loads the account of its grant and works on no other. -/
theorem guards_executeCall (lasting : Lasting J) : Guards lib svc lossy r J
    (executeCall lib svc req grant tokenHash tool start) Anywhere := by
  refine .bind lasting (guards_op rfl) fun found => ?_
  cases found with
  | none => exact guards_refused
  | some account =>
    apply Machine.Keeps.mono (J := Loaded grant.connectedAccountId account) _
      fun tr holds => holds.2.2
    refine .seq (Lasting.mem _) guards_obtain fun ended => ?_
    split
    · exact .ret fun _ _ => trivial
    · exact .seq (Lasting.mem _) guards_isRevokedNow fun _ => .ite (fun _ => guards_refused)
        fun _ => guards_round (fun _ => guards_round nofun) _

theorem guards_resolved {fastRevoked : Bool} (lasting : Lasting J) : Guards lib svc lossy r J
    (invokeResolved lib svc req grant tokenHash start fastRevoked) Anywhere := by
  refine .ite (fun _ => guards_refused) fun _ => .seq lasting (.anywhere (guards_op rfl)) fun now =>
    .ite (fun _ => guards_refused) fun _ => .seq lasting (guards_entry checkInvokeRate_entry)
      fun allowed => .ite (fun _ => guards_refused) fun _ => ?_
  split
  · exact guards_refused
  · exact .throw _
  · refine .ite (fun _ => guards_refused) fun _ => ?_
    split
    · refine .seq lasting (guards_keyed claimKey_keyed) fun claimed => ?_
      split
      · exact .ret fun _ _ => trivial
      · refine .seq lasting (guards_executeCall lasting).attempt.anywhere fun ended => ?_
        split
        · exact .ite (fun _ => .seq lasting (guards_keyed release_keyed) fun _ => .throw _)
            fun _ => .throw _
        · exact .seq lasting (guards_keyed settle_keyed) fun _ => .ret fun _ _ => trivial
    · exact guards_executeCall lasting

theorem guards_granted (lasting : Lasting J) :
    Guards lib svc lossy r J (invokeGranted lib svc req start) Anywhere := by
  refine .seq lasting (guards_entry markedRevoked_entry) fun fastRevoked =>
    .seq lasting (.anywhere (guards_op rfl)) fun found => ?_
  cases found with
  | none => exact guards_refused
  | some grant =>
    refine .seq lasting (.seq lasting (guards_resolved lasting).attempt.anywhere fun ended => ?_)
      fun outcome => .seq lasting (guards_unvaulted (.bind (within_op rfl) fun _ => within_op rfl))
        fun _ => .ret fun _ _ => trivial
    split
    · exact .ret fun _ _ => trivial
    · exact .ite (fun _ => .seq lasting (.anywhere (guards_op rfl)) fun _ => guards_refused)
        fun _ => .throw _

/-- An invocation keeps to the account of the grant that it has found. -/
theorem guards_invoke (lasting : Lasting J) :
    Guards lib svc lossy r J (invoke lib svc req) Anywhere := by
  refine .seq lasting (.anywhere (guards_op rfl)) fun start =>
    .seq lasting (Machine.Keeps.attempt (guards_unvaulted ?_)).anywhere fun verified => ?_
  · exact .bind (within_op rfl) fun _ => Prog.uses_ofExcept _
  · split
    · exact guards_refused
    · exact guards_refused
    · exact .throw _
    · exact .ite (fun _ => guards_refused) fun _ => .seq lasting
        (guards_granted lasting).attempt.anywhere fun ended => guards_unvaulted
          (.bind (within_op rfl) fun _ => Prog.uses_ofExcept _)

end Invoke

/-! ### Other requests -/

theorem guards_session {R : α → Trace BrokerSig → Prop} (lasting : Lasting J)
    (keeps : Guards lib svc lossy r J p R) : Guards lib svc lossy r J (withSession p) Anywhere :=
  .seq lasting keeps.attempt.anywhere fun _ =>
    guards_unvaulted (.bind (within_op rfl) fun _ => Prog.uses_ofExcept _)

theorem guards_encryptRefresh {token : TokenResponse} :
    Guards lib svc lossy r (Fetched lib token) (encryptRefresh token.refreshToken)
      fun value tr => ∀ blob, value = some blob → Vaulted "refresh_token" blob tr := by
  refine .ite (fun truthy => ?_) fun _ => .ret fun _ _ => nofun
  refine .bind (fetched_lasting token) (guards_op rfl) fun blob => .ret ?_
  rintro tr ⟨fetched, ⟨_, may⟩, encrypted⟩ _ ⟨⟩
  obtain ⟨s, is⟩ := encrypted_str may
  rw [is] at encrypted
  exact ⟨s, fetched.refresh truthy is, encrypted⟩

/-- The answer to a callback becomes an account. -/
theorem guards_connect {request : CallbackRequest} {userId : Uuid} {token : TokenResponse} :
    Guards lib svc lossy (.callback request) (Fetched lib token) (connectAccount userId token)
      Anywhere := by
  refine .bind (fetched_lasting token) (guards_op rfl) fun access => ?_
  refine .bind ((fetched_lasting token).and ((Lasting.const _).and (Lasting.mem _)))
    (guards_encryptRefresh.mono fun tr holds => holds.1) fun refresh => ?_
  -- both columns are received, whatever the rest of the row is
  let J (tr : Trace BrokerSig) : Prop := Vaulted "access_token" access tr ∧
    ∀ blob, refresh = some blob → Vaulted "refresh_token" blob tr
  have lasting : Lasting J := fun tr ext holds => ⟨vaulted_lasting tr ext holds.1,
    fun blob stored => vaulted_lasting tr ext (holds.2 blob stored)⟩
  apply Machine.Keeps.mono (J := J) _ fun tr holds =>
    ⟨⟨token.accessToken, holds.1.1.access, holds.1.2.2⟩, holds.2⟩
  refine .seq lasting (guards_plain (expiryOf_uses _)) fun expiresAt =>
    guards_session lasting (R := Anywhere) ?_
  refine .seq lasting (.anywhere (guards_op rfl)) fun id => .seq lasting (.anywhere (guards_op rfl))
    fun createdAt => .seq lasting (.anywhere (.perform fun tr holds => ?_)) fun _ =>
      guards_unvaulted (.bind (within_op rfl) fun _ => .bind (within_op rfl) fun _ => trivial)
  exact .inr ⟨⟨request, rfl⟩, holds.1, holds.2⟩

theorem guards_callbackTokens {code state : Str} (other : ∀ req, r ≠ .invoke req) :
    Guards lib svc lossy r (fun _ => True) (callbackTokens lib svc.settings code state)
      fun tokens tr => Fetched lib tokens.2 tr := by
  have redeems : Guards lib svc lossy r (fun _ => True) (redeemCallback lib svc.settings code state)
      fun tokens tr => Fetched lib tokens.2 tr :=
    .seq (Lasting.const _) (guards_plain (verifyState_plain _)) fun user =>
      .seq (Lasting.const _) (guards_plain (Prog.uses_ofExcept _)) fun userId =>
      .bind (Lasting.const _) (guards_parse fun tr _ req is => (other req is).elim) fun token =>
        .ret fun tr holds => holds.2
  refine .bind (Lasting.const _) redeems.attempt fun ended => ?_
  split
  · exact .ret fun tr holds => holds.2 _ rfl
  · exact .throw _
  · exact .throw _
  · exact .throw _

/-- A callback adds an account with the tokens that it has just received. -/
theorem guards_callback (request : CallbackRequest) :
    Guards lib svc lossy (.callback request) (fun _ => True) (callback lib svc.settings request)
      Anywhere := by
  refine .seq (Lasting.const _) (.ite (fun _ => .throw _) fun _ => .ret fun _ _ => trivial)
    fun _ => ?_
  split
  · exact .throw _
  · exact .bind (Lasting.const _) (guards_callbackTokens nofun) fun tokens =>
      guards_connect.mono fun tr holds => holds.2
  · exact .throw _

/-- The demo account is made up. -/
theorem guards_seed : Guards lib svc lossy .seedDemo (fun _ => True) seedDemo Anywhere := by
  have lasting : Lasting fun _ : Trace BrokerSig => True := .const _
  refine .seq lasting (guards_unvaulted (.bind (within_op rfl) fun found => ?_)) fun agent => ?_
  · split
    · trivial
    · exact .bind (within_op rfl) fun _ => .bind (within_op rfl) fun _ => .bind (within_op rfl)
        fun _ => .bind (within_op rfl) fun _ => trivial
  · refine .seq lasting (.seq lasting (.anywhere (guards_op rfl)) fun found => ?_) fun account =>
      guards_unvaulted (.bind (within_op rfl) fun _ => trivial)
    split
    · exact .ret fun _ _ => trivial
    · refine .bind lasting (guards_op rfl) fun blob => ?_
      let J (tr : Trace BrokerSig) : Prop := ⟨.encrypt (.str demoAccessToken), .ok blob⟩ ∈ tr
      have lasting : Lasting J := Lasting.mem _
      apply Machine.Keeps.mono (J := J) _ fun tr holds => holds.2.2
      refine .seq lasting (.anywhere (guards_op rfl)) fun now =>
        .seq lasting (guards_plain (Prog.uses_ofExcept _)) fun expiresAt =>
        .seq lasting (.anywhere (guards_op rfl)) fun id =>
        .seq lasting (.anywhere (guards_op rfl)) fun createdAt =>
        .seq lasting (.anywhere (.perform fun tr holds => ?_)) fun _ =>
          guards_unvaulted (.bind (within_op rfl) fun _ => trivial)
      exact .inl ⟨rfl, holds, rfl⟩

variable (lib svc lossy) in
/-- So does every request keep to what it has loaded or received. -/
theorem guards_serve (r : Request) :
    Guards lib svc lossy r (fun _ => True) (serve lib svc r) Anywhere := by
  have lasting : Lasting fun _ : Trace BrokerSig => True := .const _
  cases r with
  | createAgent body =>
    refine guards_unvaulted (.bind (.bind ?_ fun _ => withSession_uses rfl ?_) fun _ => trivial)
    · unfold userOr
      split
      · trivial
      · exact within_op rfl
    · exact .bind (within_op rfl) fun _ => .bind (within_op rfl) fun _ => .bind (within_op rfl)
        fun _ => .bind (within_op rfl) fun _ => trivial
  | seedDemo =>
    exact .seq lasting (guards_session lasting guards_seed) fun _ => .ret fun _ _ => trivial
  | authorize provider userId =>
    exact guards_unvaulted (.bind (.bind (.ite (fun _ => trivial) fun _ => trivial) fun _ =>
      .ite (fun _ => trivial) fun _ => .bind (within_op rfl) fun _ => .bind (within_op rfl)
        fun _ => trivial) fun _ => trivial)
  | callback request =>
    exact .seq lasting (guards_callback request) fun _ => .ret fun _ _ => trivial
  | requestGrant agentId toolName scope =>
    exact guards_unvaulted ((requestGrant_answerable agentId toolName scope).mono
      fun {e} answerable => by
        cases e with
        | add row => cases row <;> first | rfl | cases answerable
        | _ => first | rfl | cases answerable)
  | revokeGrant grantId =>
    refine guards_unvaulted (.bind (withSession_uses rfl (.bind (within_op rfl) fun found => ?_))
      fun _ => trivial)
    split
    · trivial
    · exact .bind (.ite (fun _ => .bind (within_op rfl) fun _ => .bind (within_op rfl) fun _ =>
          .bind (within_op rfl) fun _ => trivial) fun _ => trivial) fun grant =>
        .ite (fun _ => .bind (.bind (within_op rfl) fun _ => .bind (within_op rfl) fun _ =>
          trivial) fun _ => trivial) fun _ => trivial
  | invoke req => exact .seq lasting (guards_invoke lasting) fun _ => .ret fun _ _ => trivial

end Programs

end CredBroker
