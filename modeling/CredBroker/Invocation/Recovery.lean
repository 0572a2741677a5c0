import CredBroker.Demo
import CredBroker.Invocation.Ops

/-!
# Credential recovery

What `_execute_call` does about a credential that is stale or that the provider
refuses: it redeems the refresh token once at most, and calls the provider in two
rounds at most. Which token an attempt carries, and where a refresh is due, is said
of the events that came before it.

The environment may answer anything that it may answer after some events, so the
results hold whatever came before the call.
-/

namespace CredBroker

open Python Interaction

namespace Op

/-- The refresh token is redeemed. -/
def isRedemption : Op → Bool
  | .tokenEndpoint _ => true
  | _ => false

/-- A round of provider calls begins. -/
def isRound : Op → Bool
  | .circuitFor .. => true
  | _ => false

def isDecrypt : Op → Bool
  | .decrypt _ => true
  | _ => false

/-- What decides nothing about a recovery. -/
def isAside (e : Op) : Bool := !(e.isRedemption || e.isRound || e.isDecrypt || e.isToolCall)

theorem isAside_of_isPlain {e : Op} (h : e.isPlain = true) : e.isAside = true := by
  cases e <;> first | rfl | cases h

theorem isAside_of_isRegister {e : Op} (h : e.isRegister = true) : e.isAside = true := by
  cases e <;> first | rfl | cases h

end Op

namespace Recovery

variable {lib : Lib} {svc : Services} {lossy : Bool} {req : InvokeRequest} {grant : Grant}
  {tokenHash : Str} {account : ConnectedAccount} {tool : ToolAdapter} {start : Time}
  {tr ext : Trace BrokerSig} {accessToken : Str}

/-! ## Where a refresh is due -/

/-- How often the refresh token was redeemed. -/
def redemptions (tr : Trace BrokerSig) : Nat := tr.countP (·.op.isRedemption)

/-- How many rounds of provider calls have begun. -/
def rounds (tr : Trace BrokerSig) : Nat := tr.countP (·.op.isRound)

/-- How often the provider was called. -/
def attempts (tr : Trace BrokerSig) : Nat := tr.countP (·.op.isToolCall)

/-- The account is loaded, and the clock just read says that its credential is within
the expiry margin. -/
def Stale (account : ConnectedAccount) (tr : Trace BrokerSig) : Prop :=
  ∃ loaded now expiresAt, tr = [loaded, ⟨.clock, .ok now⟩] ∧ account.expiresAt = some expiresAt ∧
    expiresAt ≤ now + refreshExpiryMargin

/-- The provider has just answered with a 401. -/
def Rejected (tr : Trace BrokerSig) : Prop :=
  ∃ before tool accessToken arguments msg, tr = before ++
    [⟨.toolCall tool accessToken arguments, .error (.providerCallError msg (some 401))⟩]

/-- A refreshable credential that was not refreshed yet is stale, or was just rejected. -/
structure Due (account : ConnectedAccount) (tr : Trace BrokerSig) : Prop where
  refreshable : canRefresh account = true
  unrefreshed : redemptions tr = 0
  cause : Stale account tr ∨ Rejected tr

/-- The refresh token was just decrypted for a refresh that was due. -/
def Redeeming (account : ConnectedAccount) (tr : Trace BrokerSig) : Prop :=
  ∃ before blob refreshToken, Due account before ∧ account.encryptedRefreshToken = some blob ∧
    tr = before ++ [⟨.decrypt blob, .ok refreshToken⟩]

/-- The stored access token was decrypted to this, after the freshness check: when the
clock was read last, it had not expired. -/
def Stored (account : ConnectedAccount) (tr : Trace BrokerSig) (accessToken : Str) : Prop :=
  ∃ (loaded : Event BrokerSig) (readings : List Time) (rest : Trace BrokerSig),
    tr = loaded :: readings.map (fun now => ⟨.clock, .ok now⟩) ++
      ⟨.decrypt account.encryptedAccessToken, .ok accessToken⟩ :: rest ∧
    ∀ expiresAt, account.expiresAt = some expiresAt →
      ∃ now, readings.getLast? = some now ∧ now < expiresAt

/-- The token endpoint has answered with this access token. -/
def Refreshed (tr : Trace BrokerSig) (accessToken : Str) : Prop :=
  ∃ form response, (⟨.tokenEndpoint form, .ok response⟩ : Event BrokerSig) ∈ tr ∧
    AccessTokenOf response accessToken

/-- The token that an attempt has to carry: the stored one until there was a refresh,
and the refreshed one from then on. -/
def Current (account : ConnectedAccount) (tr : Trace BrokerSig) (accessToken : Str) : Prop :=
  if redemptions tr = 0 then Stored account tr accessToken else Refreshed tr accessToken

/-- The attempts of one round. -/
def perRound (svc : Services) : Nat := (1 + svc.settings.outboundMaxRetries).toNat

/-- Where a refresh is due nothing else is done; it is not done anywhere else, and the
bounds are not reached yet. -/
structure Allowed (svc : Services) (account : ConnectedAccount) (tr : Trace BrokerSig) (e : Op) :
    Prop where
  due : Due account tr → ∃ blob, account.encryptedRefreshToken = some blob ∧ e = .decrypt blob
  redeeming : Redeeming account tr → ∃ form, e = .tokenEndpoint form
  redemption : e.isRedemption = true → redemptions tr < 1 ∧ Redeeming account tr
  round : e.isRound = true → rounds tr < 2
  attempt : ∀ tool accessToken arguments, e = .toolCall tool accessToken arguments →
    attempts tr < 2 * perRound svc ∧ Current account tr accessToken

abbrev role (svc : Services) (account : ConnectedAccount) : Role BrokerSig :=
  .guarding (Allowed svc account)

/-- No refresh is due or going on. -/
structure Undue (account : ConnectedAccount) (tr : Trace BrokerSig) : Prop where
  began : 2 ≤ tr.length
  notDue : ¬ Due account tr
  notRedeeming : ¬ Redeeming account tr

/-! ## What one more event changes -/

theorem redemptions_append : redemptions (tr ++ ext) = redemptions tr + redemptions ext :=
  List.countP_append

theorem rounds_append : rounds (tr ++ ext) = rounds tr + rounds ext := List.countP_append

theorem attempts_append : attempts (tr ++ ext) = attempts tr + attempts ext := List.countP_append

theorem count_eq_zero {p : Event BrokerSig → Bool} (none : ∀ e ∈ ext, p e = false) :
    ext.countP p = 0 :=
  List.countP_eq_zero.mpr fun e member => by simp [none e member]

theorem redemptions_asides (asides : ∀ e ∈ ext, e.op.isAside = true) : redemptions ext = 0 := by
  refine count_eq_zero fun e member => ?_
  have aside := asides e member
  simp only [Op.isAside, Bool.not_eq_true', Bool.or_eq_false_iff] at aside
  exact aside.1.1.1

theorem rounds_asides (asides : ∀ e ∈ ext, e.op.isAside = true) : rounds ext = 0 := by
  refine count_eq_zero fun e member => ?_
  have aside := asides e member
  simp only [Op.isAside, Bool.not_eq_true', Bool.or_eq_false_iff] at aside
  exact aside.1.1.2

theorem attempts_asides (asides : ∀ e ∈ ext, e.op.isAside = true) : attempts ext = 0 := by
  refine count_eq_zero fun e member => ?_
  have aside := asides e member
  simp only [Op.isAside, Bool.not_eq_true', Bool.or_eq_false_iff] at aside
  exact aside.2

/-- The last event of a trace that has just been rejected. -/
theorem Rejected.last {e : Event BrokerSig} (rejected : Rejected (tr ++ [e])) :
    ∃ tool accessToken arguments msg,
      e = ⟨.toolCall tool accessToken arguments, .error (.providerCallError msg (some 401))⟩ := by
  obtain ⟨before, tool, accessToken, arguments, msg, same⟩ := rejected
  have last := (List.append_inj' same rfl).2
  exact ⟨tool, accessToken, arguments, msg, List.singleton_inj.mp last⟩

theorem Redeeming.last {e : Event BrokerSig} (redeeming : Redeeming account (tr ++ [e])) :
    Due account tr ∧ e.op.isDecrypt = true := by
  obtain ⟨before, blob, refreshToken, due, -, same⟩ := redeeming
  obtain ⟨rfl, last⟩ := List.append_inj' same rfl
  rw [List.singleton_inj.mp last]
  exact ⟨due, rfl⟩

/-- What makes a refresh due: the first reading of the clock, or a rejection. -/
theorem Due.last {e : Event BrokerSig} (due : Due account (tr ++ [e])) :
    Rejected (tr ++ [e]) ∨ e.op = .clock ∧ tr.length = 1 := by
  rcases due.cause with ⟨loaded, now, expiresAt, same, -⟩ | rejected
  · obtain ⟨rfl, last⟩ := List.append_inj' (same.trans (List.append_cons [] _ _)) rfl
    rw [List.singleton_inj.mp last]
    exact .inr ⟨rfl, rfl⟩
  · exact .inl rejected

theorem undue_snoc {e : Event BrokerSig} (began : 1 ≤ tr.length)
    (unread : e.op = .clock → tr.length ≠ 1) (unrejected : ¬ Rejected (tr ++ [e]))
    (unredeemed : ¬ Redeeming account (tr ++ [e])) : Undue account (tr ++ [e]) where
  began := by
    rw [List.length_append, List.length_singleton]
    omega
  notDue := fun due => due.last.elim unrejected fun reading => unread reading.1 reading.2
  notRedeeming := unredeemed

/-- An event that is no rejection leaves things as they are. -/
theorem Undue.snoc {e : Event BrokerSig} (undue : Undue account tr)
    (unrejected : ¬ Rejected (tr ++ [e])) : Undue account (tr ++ [e]) := by
  have began := undue.began
  exact undue_snoc (by omega) (fun _ => by omega) unrejected
    fun redeeming => undue.notDue redeeming.last.1

/-- A refresh that is due is not going on yet. -/
theorem Due.not_redeeming (due : Due account tr) : ¬ Redeeming account tr := by
  rintro ⟨before, blob, refreshToken, -, -, rfl⟩
  rcases due.last with rejected | ⟨clock, -⟩
  · obtain ⟨tool, accessToken, arguments, msg, same⟩ := rejected.last
    cases same
  · cases clock

theorem unrejected {e : Event BrokerSig} (other : e.op.isToolCall = false) :
    ¬ Rejected (tr ++ [e]) := by
  intro rejected
  obtain ⟨tool, accessToken, arguments, msg, rfl⟩ := rejected.last
  cases other

theorem Undue.append (undue : Undue account tr) (asides : ∀ e ∈ ext, e.op.isAside = true) :
    Undue account (tr ++ ext) := by
  induction ext using List.reverseRecOn with
  | nil => rwa [List.append_nil]
  | append_singleton ext e ih =>
    obtain ⟨first, last⟩ := List.forall_mem_append.mp asides
    rw [← List.append_assoc]
    refine (ih first).snoc (unrejected ?_)
    have aside := last e (List.mem_singleton_self e)
    simp only [Op.isAside, Bool.not_eq_true', Bool.or_eq_false_iff] at aside
    exact aside.2

theorem Stored.append (stored : Stored account tr accessToken) (ext : Trace BrokerSig) :
    Stored account (tr ++ ext) accessToken := by
  obtain ⟨loaded, readings, rest, rfl, unexpired⟩ := stored
  exact ⟨loaded, readings, rest ++ ext, by simp, unexpired⟩

theorem Refreshed.append (refreshed : Refreshed tr accessToken) (ext : Trace BrokerSig) :
    Refreshed (tr ++ ext) accessToken := by
  obtain ⟨form, response, member, field⟩ := refreshed
  exact ⟨form, response, List.mem_append_left _ member, field⟩

/-- The token stays until the next refresh. -/
theorem Current.append (current : Current account tr accessToken) (none : redemptions ext = 0) :
    Current account (tr ++ ext) accessToken := by
  unfold Current at current ⊢
  rw [redemptions_append, none, Nat.add_zero]
  split
  · rename_i unrefreshed
    rw [if_pos unrefreshed] at current
    exact current.append ext
  · rename_i refreshed
    rw [if_neg refreshed] at current
    exact current.append ext

theorem allowed_aside {e : Op} (undue : Undue account tr) (aside : e.isAside = true) :
    Allowed svc account tr e where
  due := fun due => (undue.notDue due).elim
  redeeming := fun redeeming => (undue.notRedeeming redeeming).elim
  redemption := fun is => by simp [Op.isAside, is] at aside
  round := fun is => by simp [Op.isAside, is] at aside
  attempt := by
    rintro tool accessToken arguments rfl
    cases aside

/-- Programs that only perform asides. -/
theorem wp_asides {α : Type} {p : BrokerProg α} {c : Op → Bool} {Q : Post BrokerSig α}
    (uses : Within p c) (asides : ∀ {e : Op}, c e = true → e.isAside = true)
    (undue : Undue account tr)
    (post : ∀ r ext, (∀ e ∈ ext, e.op.isAside = true) → Q r (tr ++ ext)) :
    wp (broker lib svc lossy).forgetful (role svc account) p Q tr := by
  refine wp_invariant (uses.mono asides) (fun tr e undue aside => ?_)
    (fun tr e undue aside => allowed_aside undue aside) undue
    (fun r ext inside _ => post r ext inside)
  refine undue.append fun e' member => ?_
  obtain rfl := List.mem_singleton.mp member
  exact aside

/-! ## The refresh -/

theorem may_sync {e : Op} {a : BrokerSig.Ans e} (sync : e.isSync = true)
    (may : (broker lib svc lossy).forgetful.May tr ⟨e, a⟩) : ∃ v, a = .ok v := by
  obtain ⟨past, may⟩ := Machine.may_of_forgetful may
  exact CredBroker.may_sync sync may

theorem rotateRefresh_asides (refreshToken : Json) :
    Within (rotateRefresh refreshToken) Op.isAside :=
  .ite (fun _ => .bind (within_op rfl) fun _ => within_op rfl) fun _ => trivial

theorem persistRefreshed_asides (refreshed : TokenResponse) :
    Within (persistRefreshed refreshed) Op.isAside :=
  .bind (within_op rfl) fun _ => .bind (within_op rfl) fun _ =>
    .bind (rotateRefresh_asides _) fun _ =>
    .bind ((expiryOf_uses _).mono Op.isAside_of_isPlain) fun _ =>
    .bind (within_op rfl) fun _ => .bind (within_op rfl) fun _ => trivial

theorem isRevokedNow_asides : Within (isRevokedNow svc grant tokenHash) Op.isAside := by
  refine .bind (.ite (fun _ => .bind (within_op rfl) fun _ => trivial) fun _ => trivial)
    fun marked => .ite (fun _ => trivial) fun _ => .bind (within_op rfl) fun found => ?_
  split <;> trivial

/-- What a refresh adds to the events, and the access token that it gives. -/
structure Refresh (account : ConnectedAccount) (tr ext : Trace BrokerSig) (given : Str → Prop) :
    Prop where
  undue : Undue account (tr ++ ext)
  redemptions : redemptions ext ≤ 1
  rounds : rounds ext = 0
  attempts : attempts ext = 0
  refreshed : ∀ accessToken, given accessToken →
    Recovery.redemptions ext = 1 ∧ Refreshed (tr ++ ext) accessToken

theorem Refresh.append {given given' : Str → Prop} {ext' : Trace BrokerSig}
    (refresh : Refresh account tr ext given) (asides : ∀ e ∈ ext', e.op.isAside = true)
    (imp : ∀ accessToken, given' accessToken → given accessToken) :
    Refresh account tr (ext ++ ext') given' where
  undue := by
    rw [← List.append_assoc]
    exact refresh.undue.append asides
  redemptions := by
    rw [redemptions_append, redemptions_asides asides]
    exact refresh.redemptions
  rounds := by rw [rounds_append, rounds_asides asides, refresh.rounds]
  attempts := by rw [attempts_append, attempts_asides asides, refresh.attempts]
  refreshed := by
    intro accessToken is
    obtain ⟨once, refreshed⟩ := refresh.refreshed accessToken (imp accessToken is)
    rw [redemptions_append, redemptions_asides asides, ← List.append_assoc]
    exact ⟨once, refreshed.append ext'⟩

/-- `_refresh_credential`, where a refresh is due. -/
theorem wp_refreshCredential {Q : Post BrokerSig Str} (due : Due account tr)
    (began : 2 ≤ tr.length)
    (ended : ∀ r ext, Refresh account tr ext (fun accessToken => r = .ok accessToken) →
      Q r (tr ++ ext)) :
    wp (broker lib svc lossy).forgetful (role svc account) (refreshCredential lib svc account) Q
      tr := by
  unfold refreshCredential
  split
  · rename_i missing
    have refreshable := due.refreshable
    rw [canRefresh, missing] at refreshable
    cases refreshable
  rename_i blob blob_eq
  refine ⟨⟨fun _ => ⟨blob, blob_eq, rfl⟩, fun redeeming => (due.not_redeeming redeeming).elim,
    nofun, nofun, nofun⟩, fun a _ _ => ?_⟩
  have decrypted (a : BrokerSig.Ans (.decrypt blob)) :
      ¬ Due account (tr ++ [⟨.decrypt blob, a⟩]) := by
    intro due'
    rcases due'.last with rejected | ⟨clock, -⟩
    · exact unrejected rfl rejected
    · cases clock
  cases a with
  | error x =>
    refine ended _ _ ⟨undue_snoc (by omega) nofun (unrejected rfl) ?_, Nat.zero_le _, rfl, rfl,
      nofun⟩
    rintro ⟨before, blob', refreshToken, -, -, same⟩
    cases List.singleton_inj.mp (List.append_inj' same rfl).2
  | ok refreshToken =>
    have redeeming : Redeeming account (tr ++ [⟨.decrypt blob, .ok refreshToken⟩]) :=
      ⟨tr, blob, refreshToken, due, blob_eq, rfl⟩
    have unrefreshed : redemptions (tr ++ [⟨.decrypt blob, .ok refreshToken⟩]) < 1 := by
      rw [redemptions_append, due.unrefreshed]
      exact Nat.zero_lt_one
    refine ⟨⟨fun due' => (decrypted _ due').elim, fun _ => ⟨_, rfl⟩,
      fun _ => ⟨unrefreshed, redeeming⟩, nofun, nofun⟩, fun a _ _ => ?_⟩
    have undue : Undue account (tr ++ [⟨.decrypt blob, .ok refreshToken⟩] ++
        [⟨.tokenEndpoint (refreshForm svc.settings refreshToken), a⟩]) := by
      refine undue_snoc ?_ nofun (unrejected rfl) fun redeeming' => ?_
      · rw [List.length_append]
        exact Nat.le_add_left _ _
      · cases redeeming'.last.2
    rw [List.append_assoc] at undue ⊢
    cases a with
    | error x => exact ended _ _ ⟨undue, Nat.le_refl 1, rfl, rfl, nofun⟩
    | ok response =>
      have redeemed : Refresh account tr [⟨.decrypt blob, .ok refreshToken⟩,
          ⟨.tokenEndpoint (refreshForm svc.settings refreshToken), .ok response⟩]
          (AccessTokenOf response) :=
        ⟨undue, Nat.le_refl 1, rfl, rfl, fun accessToken field => ⟨rfl, _, response,
          List.mem_append_right _ (List.mem_cons_of_mem _ List.mem_cons_self), field⟩⟩
      show wp _ _ (parseTokenResponse lib response >>= persistRefreshed) _ _
      rw [wp_bind]
      refine wp_returns (parseTokenResponse_returns response) (wp_asides
        (parseTokenResponse_uses response) Op.isAside_of_isRegister undue
        fun r ext asides field => ?_)
      rw [List.append_assoc]
      cases r with
      | error x => exact ended _ _ (redeemed.append asides nofun)
      | ok refreshed =>
        have parsed : Refresh account tr _ (· = refreshed.accessToken) :=
          redeemed.append asides fun _ is => is ▸ field refreshed rfl
        refine wp_returns (persistRefreshed_returns refreshed) (wp_asides
          (persistRefreshed_asides refreshed) id parsed.undue fun r ext asides returned => ?_)
        rw [List.append_assoc]
        exact ended _ _ (parsed.append asides returned)

/-- `_refresh_or_outcome`, where a refresh is due. -/
theorem wp_refreshOrOutcome {Q : Post BrokerSig (Except InvokeOutcome Str)}
    (due : Due account tr) (began : 2 ≤ tr.length)
    (ended : ∀ r ext, Refresh account tr ext (fun accessToken => r = .ok (.ok accessToken)) →
      Q r (tr ++ ext)) :
    wp (broker lib svc lossy).forgetful (role svc account)
      (refreshOrOutcome lib svc account start) Q tr := by
  unfold refreshOrOutcome
  rw [wp_bind, wp_attempt]
  refine wp_refreshCredential due began fun r ext refresh => ?_
  rw [Post.next_ok]
  have failing (msg : Str) : wp (broker lib svc lossy).forgetful (role svc account)
      (.error <$> failed start msg : BrokerProg (Except InvokeOutcome Str)) Q (tr ++ ext) := by
    refine wp_map (wp_asides (refused_uses ..) Op.isAside_of_isPlain refresh.undue
      fun r ext' asides => ?_)
    rw [List.append_assoc]
    refine ended _ _ (refresh.append asides fun accessToken is => ?_)
    cases r <;> cases is
  split
  · exact ended _ _ ⟨refresh.undue, refresh.redemptions, refresh.rounds, refresh.attempts,
      fun accessToken is => refresh.refreshed accessToken (by cases is; rfl)⟩
  · exact failing _
  · exact failing _
  · exact failing _
  · split
    · exact failing _
    · exact ended _ _ ⟨refresh.undue, refresh.redemptions, refresh.rounds, refresh.attempts, nofun⟩

/-! ## The freshness check -/

/-- The readings of the freshness check, after the account was loaded. -/
def checked (loaded : Event BrokerSig) (readings : List Time) : Trace BrokerSig :=
  loaded :: readings.map fun now => ⟨.clock, .ok now⟩

/-- The check is over, and the stored token is to be used. -/
structure Unexpired (account : ConnectedAccount) (tr : Trace BrokerSig) : Prop where
  readings : ∃ loaded readings, tr = checked loaded readings ∧ loaded.op.isAside = true ∧
    ∀ expiresAt, account.expiresAt = some expiresAt →
      ∃ now, readings.getLast? = some now ∧ now < expiresAt
  notDue : ¬ Due account tr

theorem checked_asides {loaded : Event BrokerSig} {readings : List Time}
    (aside : loaded.op.isAside = true) : ∀ e ∈ checked loaded readings, e.op.isAside = true := by
  intro e member
  rcases List.mem_cons.mp member with rfl | reading
  · exact aside
  · obtain ⟨now, -, rfl⟩ := List.mem_map.mp reading
    rfl

theorem not_redeeming_of_asides (asides : ∀ e ∈ tr, e.op.isAside = true) :
    ¬ Redeeming account tr := by
  rintro ⟨before, blob, refreshToken, -, -, rfl⟩
  have aside := asides _ (List.mem_append_right _ (List.mem_singleton_self _))
  cases aside

theorem not_rejected_of_asides (asides : ∀ e ∈ tr, e.op.isAside = true) : ¬ Rejected tr := by
  rintro ⟨before, tool, accessToken, arguments, msg, rfl⟩
  have aside := asides _ (List.mem_append_right _ (List.mem_singleton_self _))
  cases aside

theorem allowed_of_not {e : Op} (notDue : ¬ Due account tr) (notRedeeming : ¬ Redeeming account tr)
    (redemption : e.isRedemption = false) (round : e.isRound = false)
    (attempt : e.isToolCall = false) : Allowed svc account tr e where
  due := fun due => (notDue due).elim
  redeeming := fun redeeming => (notRedeeming redeeming).elim
  redemption := fun is => by simp [redemption] at is
  round := fun is => by simp [round] at is
  attempt := by
    rintro tool accessToken arguments rfl
    cases attempt

/-- What was done before the provider is called: no round yet, and the token is known. -/
structure Obtained (account : ConnectedAccount) (tr : Trace BrokerSig)
    (given : Str → Bool → Prop) : Prop where
  undue : Undue account tr
  redemptions : redemptions tr ≤ 1
  rounds : rounds tr = 0
  attempts : attempts tr = 0
  current : ∀ accessToken refreshed, given accessToken refreshed →
    Recovery.redemptions tr = refreshed.toNat ∧ Current account tr accessToken

theorem Obtained.append {given given' : Str → Bool → Prop} (obtained : Obtained account tr given)
    (asides : ∀ e ∈ ext, e.op.isAside = true)
    (imp : ∀ accessToken refreshed, given' accessToken refreshed → given accessToken refreshed) :
    Obtained account (tr ++ ext) given' where
  undue := obtained.undue.append asides
  redemptions := by
    rw [redemptions_append, redemptions_asides asides]
    exact obtained.redemptions
  rounds := by rw [rounds_append, rounds_asides asides, obtained.rounds]
  attempts := by rw [attempts_append, attempts_asides asides, obtained.attempts]
  current := by
    intro accessToken refreshed is
    obtain ⟨count, current⟩ := obtained.current accessToken refreshed (imp _ _ is)
    rw [redemptions_append, redemptions_asides asides]
    exact ⟨count, current.append (redemptions_asides asides)⟩

/-- After the account was loaded a refresh leaves what is needed for the first round. -/
theorem Refresh.obtained {given : Str → Prop} (asides : ∀ e ∈ tr, e.op.isAside = true)
    (refresh : Refresh account tr ext given) :
    Obtained account (tr ++ ext) fun accessToken refreshed =>
      refreshed = true ∧ given accessToken where
  undue := refresh.undue
  redemptions := by
    rw [redemptions_append, redemptions_asides asides, Nat.zero_add]
    exact refresh.redemptions
  rounds := by rw [rounds_append, rounds_asides asides, refresh.rounds]
  attempts := by rw [attempts_append, attempts_asides asides, refresh.attempts]
  current := by
    rintro accessToken _ ⟨rfl, is⟩
    obtain ⟨once, refreshed⟩ := refresh.refreshed accessToken is
    rw [Current, redemptions_append, redemptions_asides asides, once]
    exact ⟨rfl, refreshed⟩

/-- A failure before the provider is called. -/
theorem obtained_of_asides (began : 2 ≤ tr.length) (asides : ∀ e ∈ tr, e.op.isAside = true)
    (notDue : ¬ Due account tr) : Obtained account tr fun _ _ => False where
  undue := ⟨began, notDue, not_redeeming_of_asides asides⟩
  redemptions := by
    rw [redemptions_asides asides]
    exact Nat.zero_le _
  rounds := rounds_asides asides
  attempts := attempts_asides asides
  current := nofun

/-- Step 7. -/
theorem wp_refreshIfStale {loaded : Event BrokerSig} (aside : loaded.op.isAside = true)
    {Q : Post BrokerSig (Except InvokeOutcome (Option Str))}
    (fresh : ∀ tr', Unexpired account tr' → Q (.ok (.ok none)) tr')
    (ended : ∀ r tr', r ≠ .ok (.ok none) → Obtained account tr' (fun accessToken refreshed =>
      refreshed = true ∧ r = .ok (.ok (some accessToken))) → Q r tr') :
    wp (broker lib svc lossy).forgetful (role svc account)
      (refreshIfStale lib svc account start) Q [loaded] := by
  unfold refreshIfStale
  have asides (readings : List Time) := @checked_asides loaded readings aside
  split
  · rename_i unset
    refine fresh _ ⟨⟨loaded, [], rfl, aside, fun expiresAt is => ?_⟩, fun due => ?_⟩
    · rw [unset] at is
      cases is
    · rcases due.cause with ⟨_, now, expiresAt, same, -⟩ | rejected
      · cases same
      · exact not_rejected_of_asides (asides []) rejected
  rename_i expiresAt expires
  have begun : ¬ Due account [loaded] := by
    intro due
    rcases due.cause with ⟨_, now, expiresAt, same, -⟩ | rejected
    · cases same
    · exact not_rejected_of_asides (asides []) rejected
  refine ⟨allowed_of_not begun (not_redeeming_of_asides (asides [])) rfl rfl rfl, fun a may _ => ?_⟩
  obtain ⟨now, rfl⟩ := may_sync rfl may
  show wp _ _ (if _ then _ else _) _ (checked loaded [now])
  split
  · rename_i stale
    split
    · -- the credential is refreshed
      rename_i refreshable
      have due : Due account (checked loaded [now]) :=
        ⟨refreshable, redemptions_asides (asides [now]),
          .inl ⟨loaded, now, expiresAt, rfl, expires, stale⟩⟩
      show wp _ _ (refreshOrOutcome lib svc account start >>= _) _ _
      rw [wp_bind]
      refine wp_refreshOrOutcome due (Nat.le_refl 2) fun r ext refresh => ?_
      have obtained := refresh.obtained (asides [now])
      rcases r with x | outcome | accessToken
      · exact ended _ _ nofun ⟨obtained.undue, obtained.redemptions, obtained.rounds,
          obtained.attempts, nofun⟩
      · exact ended _ _ nofun ⟨obtained.undue, obtained.redemptions, obtained.rounds,
          obtained.attempts, nofun⟩
      · refine ended _ _ nofun ⟨obtained.undue, obtained.redemptions, obtained.rounds,
          obtained.attempts, ?_⟩
        rintro _ refreshed ⟨rfl, is⟩
        cases is
        exact obtained.current accessToken true ⟨rfl, rfl⟩
    · -- or it cannot be, and the clock is read again
      rename_i unrefreshable
      have notDue (tr : Trace BrokerSig) : ¬ Due account tr :=
        fun due => unrefreshable due.refreshable
      refine ⟨allowed_of_not (notDue _) (not_redeeming_of_asides (asides [now])) rfl rfl rfl,
        fun a may _ => ?_⟩
      obtain ⟨now', rfl⟩ := may_sync rfl may
      show wp _ _ (if _ then _ else _) _ (checked loaded [now, now'])
      split
      · have began : 2 ≤ (checked loaded [now, now']).length := Nat.le_succ 2
        have obtained := obtained_of_asides began (asides [now, now']) (notDue _)
        refine wp_map (wp_asides (refused_uses ..) Op.isAside_of_isPlain obtained.undue
          fun r ext asides => ?_)
        refine ended _ _ ?_ (obtained.append asides ?_)
        · cases r <;> nofun
        · rintro accessToken refreshed ⟨-, is⟩
          cases r <;> cases is
      · rename_i unexpired
        refine fresh _ ⟨⟨loaded, [now, now'], rfl, aside, fun expiresAt' is => ?_⟩, notDue _⟩
        obtain rfl := Option.some.inj (expires.symm.trans is)
        exact ⟨now', rfl, Int.not_le.mp unexpired⟩
  · rename_i outside
    refine fresh _ ⟨⟨loaded, [now], rfl, aside, fun expiresAt' is => ?_⟩, fun due => ?_⟩
    · obtain rfl := Option.some.inj (expires.symm.trans is)
      refine ⟨now, rfl, ?_⟩
      have margin : now + refreshExpiryMargin < expiresAt := Int.not_le.mp outside
      have positive : (0 : Int) < refreshExpiryMargin := by decide
      exact Int.lt_trans (Int.lt_add_of_pos_right now positive) margin
    · rcases due.cause with ⟨_, now', expiresAt', same, is, stale⟩ | rejected
      · obtain rfl := Option.some.inj (expires.symm.trans is)
        cases same
        exact outside stale
      · exact not_rejected_of_asides (asides [now]) rejected

/-- Step 8. -/
theorem wp_decryptStored {Q : Post BrokerSig (Except InvokeOutcome Str)}
    (unexpired : Unexpired account tr)
    (ended : ∀ r tr', Obtained account tr' (fun accessToken refreshed =>
      refreshed = false ∧ r = .ok (.ok accessToken)) → Q r tr') :
    wp (broker lib svc lossy).forgetful (role svc account) (decryptStored account start) Q tr := by
  obtain ⟨⟨loaded, readings, rfl, aside, unexpired⟩, notDue⟩ := unexpired
  have asides := @checked_asides loaded readings aside
  unfold decryptStored
  rw [wp_bind, wp_attempt]
  refine ⟨allowed_of_not notDue (not_redeeming_of_asides asides) rfl rfl rfl, fun a _ _ => ?_⟩
  have undue (a : BrokerSig.Ans (.decrypt account.encryptedAccessToken)) :
      Undue account (checked loaded readings ++ [⟨.decrypt account.encryptedAccessToken, a⟩]) :=
    undue_snoc (Nat.succ_le_succ (Nat.zero_le _)) nofun (unrejected rfl)
      fun redeeming => notDue redeeming.last.1
  have none (a : BrokerSig.Ans (.decrypt account.encryptedAccessToken)) : Obtained account
      (checked loaded readings ++ [⟨.decrypt account.encryptedAccessToken, a⟩])
      (fun _ _ => False) := by
    refine ⟨undue a, ?_, ?_, ?_, nofun⟩
    · rw [redemptions_append, redemptions_asides asides]
      exact Nat.zero_le _
    · rw [rounds_append, rounds_asides asides]
      rfl
    · rw [attempts_append, attempts_asides asides]
      rfl
  have failing (a : BrokerSig.Ans (.decrypt account.encryptedAccessToken)) (msg : Str) :
      wp (broker lib svc lossy).forgetful (role svc account)
        (.error <$> failed start msg : BrokerProg (Except InvokeOutcome Str)) Q
        (checked loaded readings ++ [⟨.decrypt account.encryptedAccessToken, a⟩]) := by
    refine wp_map (wp_asides (refused_uses ..) Op.isAside_of_isPlain (undue a)
      fun r ext asides => ?_)
    refine ended _ _ ((none a).append asides ?_)
    rintro accessToken refreshed ⟨-, is⟩
    cases r <;> cases is
  rw [wp_ofExcept, Post.next_ok]
  split
  · rename_i accessToken _ _
    refine ended _ _ ⟨undue _, (none _).redemptions, (none _).rounds, (none _).attempts, ?_⟩
    rintro accessToken' _ ⟨rfl, is⟩
    cases is
    have unrefreshed : redemptions (checked loaded readings ++
        [⟨.decrypt account.encryptedAccessToken, .ok accessToken⟩]) = 0 := by
      rw [redemptions_append, redemptions_asides asides]
      rfl
    rw [Current, if_pos unrefreshed]
    exact ⟨unrefreshed, loaded, readings, [], rfl, unexpired⟩
  · exact failing _ _
  · exact failing _ _
  · refine ended _ _ ⟨undue _, (none _).redemptions, (none _).rounds, (none _).attempts, ?_⟩
    rintro accessToken refreshed ⟨-, is⟩
    cases is

/-- Steps 7 and 8. -/
theorem wp_obtainCredential {loaded : Event BrokerSig} (aside : loaded.op.isAside = true)
    {Q : Post BrokerSig (Except InvokeOutcome (Str × Bool))}
    (ended : ∀ r tr', Obtained account tr' (fun accessToken refreshed =>
      r = .ok (.ok (accessToken, refreshed))) → Q r tr') :
    wp (broker lib svc lossy).forgetful (role svc account)
      (obtainCredential lib svc account start) Q [loaded] := by
  unfold obtainCredential
  rw [wp_bind]
  refine wp_refreshIfStale aside (fun tr' unexpired => ?_) fun r tr' other obtained => ?_
  · show wp _ _ (decryptStored account start >>= _) _ _
    rw [wp_bind]
    refine wp_decryptStored unexpired fun r tr' obtained => ?_
    have result {r' : Except PyExn (Except InvokeOutcome (Str × Bool))}
        (imp : ∀ accessToken refreshed, r' = .ok (.ok (accessToken, refreshed)) →
          refreshed = false ∧ r = .ok (.ok accessToken)) : Q r' tr' :=
      ended _ _ ⟨obtained.undue, obtained.redemptions, obtained.rounds, obtained.attempts,
        fun accessToken refreshed is => obtained.current _ _ (imp _ _ is)⟩
    rcases r with x | outcome | accessToken
    · exact result nofun
    · exact result nofun
    · refine result fun accessToken' refreshed is => ?_
      cases is
      exact ⟨rfl, rfl⟩
  · have result {r' : Except PyExn (Except InvokeOutcome (Str × Bool))}
        (imp : ∀ accessToken refreshed, r' = .ok (.ok (accessToken, refreshed)) →
          refreshed = true ∧ r = .ok (.ok (some accessToken))) : Q r' tr' :=
      ended _ _ ⟨obtained.undue, obtained.redemptions, obtained.rounds, obtained.attempts,
        fun accessToken refreshed is => obtained.current _ _ (imp _ _ is)⟩
    rcases r with x | outcome | _ | accessToken
    · exact result nofun
    · exact result nofun
    · exact (other rfl).elim
    · refine result fun accessToken' refreshed is => ?_
      cases is
      exact ⟨rfl, rfl⟩

/-! ## A round of provider calls -/

/-- The operations of a round, once its breaker is there. -/
def isAttempt : Op → Bool
  | .circuitAllow .. | .circuitSuccess .. | .circuitFailure .. | .toolCall .. | .sleep _ => true
  | _ => false

/-- How a round ends: by a rejection, or with no refresh due. -/
inductive RoundEnd (account : ConnectedAccount) (tr : Trace BrokerSig) : Except PyExn Json → Prop
  | rejected {msg : Str} (began : 2 ≤ tr.length) (rejected : Rejected tr) :
      RoundEnd account tr (.error (.providerCallError msg (some 401)))
  | done {r : Except PyExn Json} (undue : Undue account tr)
      (other : ∀ msg, r ≠ .error (.providerCallError msg (some 401))) : RoundEnd account tr r

theorem redemptions_attempts (inside : ∀ e ∈ ext, isAttempt e.op = true) : redemptions ext = 0 := by
  refine count_eq_zero fun e member => ?_
  have is := inside e member
  cases op : e.op <;> rw [op] at is <;> first | rfl | cases is

theorem rounds_attempts (inside : ∀ e ∈ ext, isAttempt e.op = true) : rounds ext = 0 := by
  refine count_eq_zero fun e member => ?_
  have is := inside e member
  cases op : e.op <;> rw [op] at is <;> first | rfl | cases is

theorem may_sleep {delay : Time} {x : PyExn}
    (may : (broker lib svc lossy).forgetful.May tr ⟨.sleep delay, .error x⟩) :
    x.isException = false := by
  obtain ⟨past, w, permits⟩ := Machine.may_of_forgetful may
  change w.permits past ⟨.sleep delay, .error x⟩ = true at permits
  simpa [World.permits] using permits

/-- A breaker is refused for its settings only. -/
theorem new_raises {threshold : Int} {reset : Time} {x : PyExn}
    (raised : CircuitBreaker.new threshold reset = .error x) : ∃ msg, x = .valueError msg := by
  unfold CircuitBreaker.new at raised
  split at raised
  · cases raised
    exact ⟨_, rfl⟩
  · split at raised
    · cases raised
      exact ⟨_, rfl⟩
    · cases raised

theorem may_circuitFor {surface : Surface} {provider : Str} {threshold : Int} {reset : Time}
    {x : PyExn} (may : (broker lib svc lossy).forgetful.May tr
      ⟨.circuitFor surface provider threshold reset, .error x⟩) (msg : Str) :
    x ≠ .providerCallError msg (some 401) := by
  obtain ⟨past, w, permits⟩ := Machine.may_of_forgetful may
  change w.permits past _ = true at permits
  rintro rfl
  cases there : w.circuits surface provider with
  | some b => simp [World.permits, there] at permits
  | none =>
    cases made : CircuitBreaker.new threshold reset with
    | ok b => simp [World.permits, there, made] at permits
    | error y =>
      simp only [World.permits, there, made, decide_eq_true_eq] at permits
      obtain ⟨msg', rfl⟩ := new_raises made
      cases permits

/-- The attempts that a round has left. -/
theorem wp_callAttempts {surface : Surface} {provider : Str} {maxRetries : Int} {baseDelay : Time}
    {arguments : Arguments} (left : List Nat) {Q : Post BrokerSig Json} (undue : Undue account tr)
    (current : Current account tr accessToken)
    (few : attempts tr + left.length ≤ 2 * perRound svc)
    (ended : ∀ r ext, (∀ e ∈ ext, isAttempt e.op = true) → attempts ext ≤ left.length →
      RoundEnd account (tr ++ ext) r → Q r (tr ++ ext)) :
    wp (broker lib svc lossy).forgetful (role svc account)
      (callAttempts (op (.toolCall tool accessToken arguments)) maxRetries baseDelay
        (some (circuitOf surface provider)) defaultRetryable (fun delay => op (.sleep delay)) left)
      Q tr := by
  induction left generalizing tr with
  | nil =>
    have end_ := ended (.error (.assertionError "unreachable")) [] nofun (Nat.le_refl 0)
    rw [List.append_nil] at end_
    exact end_ (RoundEnd.done undue nofun)
  | cons attempt left ih =>
    rw [List.length_cons] at few ended
    have asked (allowed : Bool) := undue.snoc (e := ⟨.circuitAllow surface provider, .ok allowed⟩)
      (unrejected rfl)
    refine ⟨allowed_aside undue rfl, fun a may _ => ?_⟩
    obtain ⟨allowed, rfl⟩ := may_sync rfl may
    cases allowed with
    | false =>
      exact ended _ _ (by simp [isAttempt]) (Nat.zero_le _) (RoundEnd.done (asked false) nofun)
    | true =>
      have asked := asked true
      refine ⟨⟨fun due => (asked.notDue due).elim,
        fun redeeming => (asked.notRedeeming redeeming).elim, nofun, nofun, ?_⟩, fun a _ _ => ?_⟩
      · rintro tool accessToken arguments ⟨⟩
        rw [attempts_append]
        exact ⟨Nat.lt_of_lt_of_le (Nat.lt_add_of_pos_right (Nat.succ_pos _)) few,
          current.append rfl⟩
      cases a with
      | ok result =>
        have called : Undue account (tr ++ [⟨.circuitAllow surface provider, .ok true⟩] ++
            [⟨.toolCall tool accessToken arguments, .ok result⟩]) := by
          refine asked.snoc fun rejected => ?_
          obtain ⟨_, _, _, _, same⟩ := rejected.last
          cases same
        refine ⟨allowed_aside called rfl, fun a may _ => ?_⟩
        obtain ⟨⟨⟩, rfl⟩ := may_sync rfl may
        have noted := called.snoc (e := ⟨.circuitSuccess surface provider, .ok ()⟩) (unrejected rfl)
        rw [List.append_assoc, List.append_assoc] at noted ⊢
        exact ended _ _ (by simp [isAttempt]) (Nat.succ_le_succ (Nat.zero_le _)) (.done noted nofun)
      | error x =>
        show wp _ _ (if _ then _ else _) _ _
        by_cases rejection : ∃ msg, x = .providerCallError msg (some 401)
        · -- a rejection is not retried
          obtain ⟨msg, rfl⟩ := rejection
          have caught : (PyExn.providerCallError msg (some 401)).isException = true := rfl
          have final : defaultRetryable (.providerCallError msg (some 401)) = false := rfl
          rw [caught, final, if_neg (by decide), if_pos (by decide), List.append_assoc]
          refine ended _ _ (by simp [isAttempt]) (Nat.succ_le_succ (Nat.zero_le _))
            (.rejected ?_ ?_)
          · rw [List.length_append]
            exact Nat.le_add_right_of_le undue.began
          · exact ⟨_, tool, accessToken, arguments, msg, (List.append_assoc _ _ [_]).symm⟩
        have other : ∀ msg, (.error x : Except PyExn Json) ≠
            .error (.providerCallError msg (some 401)) := by
          rintro msg ⟨⟩
          exact rejection ⟨msg, rfl⟩
        have tried : Undue account (tr ++ [⟨.circuitAllow surface provider, .ok true⟩] ++
            [⟨.toolCall tool accessToken arguments, .error x⟩]) := by
          refine asked.snoc fun rejected => ?_
          obtain ⟨_, _, _, msg, same⟩ := rejected.last
          cases same
          exact other msg rfl
        have stopped : Q (.error x) (tr ++ [⟨.circuitAllow surface provider, .ok true⟩] ++
            [⟨.toolCall tool accessToken arguments, .error x⟩]) := by
          rw [List.append_assoc] at tried ⊢
          exact ended _ _ (by simp [isAttempt]) (Nat.succ_le_succ (Nat.zero_le _))
            (.done tried other)
        split
        · exact stopped
        split
        · exact stopped
        -- the failure is recorded, and after a pause there is another attempt
        refine ⟨allowed_aside tried rfl, fun a may _ => ?_⟩
        obtain ⟨⟨⟩, rfl⟩ := may_sync rfl may
        have noted := tried.snoc (e := ⟨.circuitFailure surface provider, .ok ()⟩) (unrejected rfl)
        show wp _ _ (if _ then _ else _) _ _
        split
        · rw [List.append_assoc, List.append_assoc] at noted ⊢
          exact ended _ _ (by simp [isAttempt]) (Nat.succ_le_succ (Nat.zero_le _))
            (.done noted other)
        cases backoff : backoffDelay baseDelay attempt with
        | error overflow =>
          rw [List.append_assoc, List.append_assoc] at noted ⊢
          refine ended _ _ (by simp [isAttempt]) (Nat.succ_le_succ (Nat.zero_le _)) (.done noted ?_)
          rw [backoffDelay_eq_error backoff]
          exact nofun
        | ok delay =>
          refine ⟨allowed_aside noted rfl, fun a may _ => ?_⟩
          have slept := noted.snoc (e := ⟨.sleep delay, a⟩) (unrejected rfl)
          rw [List.append_assoc, List.append_assoc, List.append_assoc] at slept ⊢
          cases a with
          | error y =>
            refine ended _ _ (by simp [isAttempt]) (Nat.succ_le_succ (Nat.zero_le _))
              (.done slept ?_)
            rintro msg ⟨⟩
            cases may_sleep may
          | ok _ =>
            refine ih slept (current.append rfl) ?_ fun r ext inside bound end_ => ?_
            · rw [attempts_append]
              exact (Nat.add_right_comm _ _ _).trans_le few
            · rw [List.append_assoc] at end_ ⊢
              refine ended r _ ?_ ?_ end_
              · exact List.forall_mem_append.mpr ⟨by simp [isAttempt], inside⟩
              · rw [attempts_append, Nat.add_comm]
                exact Nat.succ_le_succ bound

/-- `_call_provider`. -/
theorem wp_callProvider {Q : Post BrokerSig Json} (undue : Undue account tr)
    (current : Current account tr accessToken) (round : rounds tr < 2)
    (few : attempts tr + perRound svc ≤ 2 * perRound svc)
    (ended : ∀ r ext, redemptions ext = 0 → rounds ext ≤ 1 → attempts ext ≤ perRound svc →
      RoundEnd account (tr ++ ext) r → Q r (tr ++ ext)) :
    wp (broker lib svc lossy).forgetful (role svc account) (callProvider svc req tool accessToken)
      Q tr := by
  refine ⟨⟨fun due => (undue.notDue due).elim, fun redeeming => (undue.notRedeeming redeeming).elim,
    nofun, fun _ => round, nofun⟩, fun a may _ => ?_⟩
  have named := undue.snoc (e := ⟨.circuitFor req.surface tool.provider
    svc.settings.circuitFailureThreshold svc.settings.circuitResetSeconds, a⟩) (unrejected rfl)
  have stopped (x : PyExn) (other : ∀ msg, x ≠ .providerCallError msg (some 401)) : Q (.error x)
      (tr ++ [⟨.circuitFor req.surface tool.provider svc.settings.circuitFailureThreshold
        svc.settings.circuitResetSeconds, a⟩]) := by
    refine ended _ _ rfl (Nat.le_refl 1) (Nat.zero_le _) (.done named ?_)
    rintro msg ⟨⟩
    exact other msg rfl
  cases a with
  | error x => exact stopped x (may_circuitFor may)
  | ok _ =>
    show wp _ _ (callWithRetries _ _ _ _ _ _) _ _
    unfold callWithRetries
    split
    · exact stopped _ nofun
    split
    · exact stopped _ nofun
    refine wp_callAttempts _ named (current.append rfl) ?_ fun r ext inside bound end_ => ?_
    · rw [attempts_append, List.length_range, Int.add_comm]
      exact few
    · rw [List.append_assoc] at end_ ⊢
      rw [List.length_range, Int.add_comm] at bound
      refine ended r _ ?_ ?_ ?_ end_
      · rw [redemptions_append, redemptions_attempts inside]
        rfl
      · rw [rounds_append, rounds_attempts inside]
        exact Nat.le_refl 1
      · rw [attempts_append]
        exact (Nat.zero_add _).trans_le bound

/-! ## The rounds -/

/-- How a call leaves the events: no refresh is due or going on. -/
def overPost (account : ConnectedAccount) : Post BrokerSig InvokeOutcome := fun _ tr =>
  Undue account tr

/-- Where a round may begin: what is left of the bounds is enough for it, and for a second
one where the credential was not refreshed. -/
structure RoundStart (svc : Services) (account : ConnectedAccount) (tr : Trace BrokerSig)
    (refreshed : Bool) (accessToken : Str) : Prop where
  undue : Undue account tr
  current : Current account tr accessToken
  count : redemptions tr = refreshed.toNat
  round : rounds tr + (!refreshed).toNat < 2
  few : attempts tr + (!refreshed).toNat * perRound svc + perRound svc ≤ 2 * perRound svc

theorem wp_over {p : BrokerProg InvokeOutcome} (uses : Within p Op.isPlain)
    (undue : Undue account tr) :
    wp (broker lib svc lossy).forgetful (role svc account) p (overPost account) tr :=
  wp_asides uses Op.isAside_of_isPlain undue fun _ _ asides => undue.append asides

theorem RoundEnd.undue {r : Except PyExn Json} (end_ : RoundEnd account tr r)
    (other : ∀ msg, r ≠ .error (.providerCallError msg (some 401))) : Undue account tr := by
  cases end_ with
  | rejected began rejected => exact (other _ rfl).elim
  | done undue _ => exact undue

theorem Rejected.not_redeeming (rejected : Rejected tr) : ¬ Redeeming account tr := by
  obtain ⟨before, tool, accessToken, arguments, msg, rfl⟩ := rejected
  intro redeeming
  cases redeeming.last.2

/-- One round, and what is left to the next. -/
theorem wp_providerRound {refreshed : Bool}
    (next : refreshed = false → ∀ accessToken tr', RoundStart svc account tr' true accessToken →
      wp (broker lib svc lossy).forgetful (role svc account)
        (providerRounds lib svc req grant tokenHash account tool start true accessToken)
        (overPost account) tr')
    (ready : RoundStart svc account tr refreshed accessToken) :
    wp (broker lib svc lossy).forgetful (role svc account)
      (providerRounds lib svc req grant tokenHash account tool start refreshed accessToken)
      (overPost account) tr := by
  have round := ready.round
  have few := ready.few
  rw [providerRounds, wp_bind, wp_attempt]
  refine wp_callProvider ready.undue ready.current (by omega) (by omega)
    fun r ext none one bound end_ => ?_
  have count : redemptions (tr ++ ext) = refreshed.toNat := by
    rw [redemptions_append, none, ready.count]
    rfl
  rw [Post.next_ok]
  split
  · exact wp_over (succeeded_uses ..) (end_.undue nofun)
  · rename_i msg statusCode
    split
    · -- the credential is refreshed after a rejection
      rename_i again
      obtain ⟨rfl, rfl, refreshable⟩ := again
      cases end_ with
      | done _ other => exact (other msg rfl).elim
      | rejected began rejected =>
        show wp _ _ (refreshOrOutcome lib svc account start >>= _) _ _
        rw [wp_bind]
        refine wp_refreshOrOutcome ⟨refreshable, count, .inr rejected⟩ began
          fun r ext' refresh => ?_
        rcases r with x | outcome | accessToken
        · exact refresh.undue
        · exact refresh.undue
        obtain ⟨once, refreshed⟩ := refresh.refreshed accessToken rfl
        show wp _ _ (isRevokedNow svc grant tokenHash >>= _) _ _
        rw [wp_bind]
        refine wp_asides isRevokedNow_asides id refresh.undue fun r asides inside => ?_
        rcases r with x | _ | _
        · exact refresh.undue.append inside
        · refine next rfl accessToken _ ⟨refresh.undue.append inside, ?_, ?_, ?_, ?_⟩
          · refine Current.append ?_ (redemptions_asides inside)
            rw [Current, redemptions_append, once, if_neg (Nat.succ_ne_zero _)]
            exact refreshed
          · rw [redemptions_append, redemptions_append, count, once, redemptions_asides inside]
            rfl
          · rw [rounds_append, rounds_append, rounds_append, refresh.rounds, rounds_asides inside]
            simp only [Bool.not_false, Bool.toNat_true, Bool.not_true, Bool.toNat_false] at round ⊢
            omega
          · rw [attempts_append, attempts_append, attempts_append, refresh.attempts,
              attempts_asides inside]
            simp only [Bool.not_false, Bool.toNat_true, Bool.not_true, Bool.toNat_false] at few ⊢
            omega
        · exact wp_over (refused_uses ..) (refresh.undue.append inside)
    · rename_i final
      refine wp_over (refused_uses ..) ?_
      cases end_ with
      | done undue _ => exact undue
      | rejected began rejected =>
        refine ⟨began, fun due => final ⟨rfl, ?_, due.refreshable⟩, rejected.not_redeeming⟩
        have unrefreshed := due.unrefreshed
        rw [count] at unrefreshed
        cases refreshed with
        | false => rfl
        | true => cases unrefreshed
  · exact wp_over (refused_uses ..) (end_.undue nofun)
  · exact wp_over (refused_uses ..) (end_.undue nofun)
  · exact wp_over (refused_uses ..) (end_.undue nofun)
  · exact wp_over (refused_uses ..) (end_.undue nofun)
  · rename_i exc other _ _ _ _
    refine end_.undue ?_
    rintro msg ⟨⟩
    exact other _ _ rfl

/-- Step 10. -/
theorem wp_providerRounds {refreshed : Bool}
    (ready : RoundStart svc account tr refreshed accessToken) :
    wp (broker lib svc lossy).forgetful (role svc account)
      (providerRounds lib svc req grant tokenHash account tool start refreshed accessToken)
      (overPost account) tr :=
  wp_providerRound (fun _ _ _ ready' => wp_providerRound nofun ready') ready

/-! ## The call -/

/-- What a call over a loaded account does about its credential. -/
structure Bounded (svc : Services) (account : ConnectedAccount) (tr : Trace BrokerSig) : Prop where
  redemptions : redemptions tr ≤ 1
  rounds : rounds tr ≤ 2
  attempts : attempts tr ≤ 2 * perRound svc
  carries : ∀ before tool accessToken arguments answer,
    before ++ [⟨.toolCall tool accessToken arguments, answer⟩] <+: tr →
      Current account before accessToken
  /-- Where a refresh is due, it begins. -/
  refreshes : ∀ before, before <+: tr → Due account before →
    ∃ blob, account.encryptedRefreshToken = some blob ∧
      ∃ answer, before ++ [⟨.decrypt blob, answer⟩] <+: tr
  /-- And with a refresh token it goes on. -/
  redeems : ∀ before, before <+: tr → Redeeming account before →
    ∃ form answer, before ++ [⟨.tokenEndpoint form, answer⟩] <+: tr
  /-- The token endpoint is not asked otherwise. -/
  only : ∀ before form answer, before ++ [⟨.tokenEndpoint form, answer⟩] <+: tr →
    Redeeming account before

/-- A count that only grows where it is below a bound does not exceed it. -/
theorem countP_bounded {p : Event BrokerSig → Bool} {bound : Nat}
    (below : ∀ before e, before ++ [e] <+: tr → p e = true → before.countP p < bound) :
    tr.countP p ≤ bound := by
  induction tr using List.reverseRecOn with
  | nil => exact Nat.zero_le _
  | append_singleton tr e ih =>
    have first := ih fun before e' sub => below before e' (sub.trans (List.prefix_append _ _))
    rw [List.countP_append, List.countP_singleton]
    split
    · exact below tr e List.prefix_rfl ‹_›
    · exact first

/-- From the guards of a call and its end. -/
theorem bounded_of_allowed {loaded : Event BrokerSig} (aside : loaded.op.isAside = true)
    (guards : ∀ before e, [loaded] <+: before → before ++ [e] <+: loaded :: ext →
      Allowed svc account before e.op) (over_ : Undue account (loaded :: ext)) :
    Bounded svc account (loaded :: ext) := by
  -- what comes before an event is empty, or meets the guard
  have guarded {before : Trace BrokerSig} {e : Event BrokerSig}
      (sub : before ++ [e] <+: loaded :: ext) :
      before = [] ∧ e = loaded ∨ Allowed svc account before e.op := by
    cases before with
    | nil =>
      obtain ⟨rest, same⟩ := sub
      exact .inl ⟨rfl, (List.cons.inj same).1⟩
    | cons first before =>
      obtain ⟨rest, same⟩ := sub
      obtain ⟨rfl, -⟩ := List.cons.inj same
      exact .inr (guards _ e ⟨before, rfl⟩ ⟨rest, same⟩)
  have is := aside
  simp only [Op.isAside, Bool.not_eq_true', Bool.or_eq_false_iff] at is
  obtain ⟨⟨⟨unredeemed, unbegun⟩, -⟩, uncalled⟩ := is
  -- a prefix at which something is pending is followed by an event
  have followed {before : Trace BrokerSig} (sub : before <+: loaded :: ext)
      (pending : ¬ Undue account before) (nonempty : before ≠ []) :
      ∃ e, before ++ [e] <+: loaded :: ext ∧ Allowed svc account before e.op := by
    obtain ⟨rest, whole⟩ := sub
    cases rest with
    | nil =>
      rw [List.append_nil] at whole
      exact (pending (whole ▸ over_)).elim
    | cons e rest =>
      have sub' : before ++ [e] <+: loaded :: ext := ⟨rest, (List.append_assoc _ _ _).trans whole⟩
      rcases guarded sub' with ⟨rfl, -⟩ | allowed
      · exact (nonempty rfl).elim
      · exact ⟨e, sub', allowed⟩
  exact
    { redemptions := countP_bounded fun before e sub redemption => by
        rcases guarded sub with ⟨-, rfl⟩ | allowed
        · rw [unredeemed] at redemption
          cases redemption
        · exact (allowed.redemption redemption).1
      rounds := countP_bounded fun before e sub round => by
        rcases guarded sub with ⟨-, rfl⟩ | allowed
        · rw [unbegun] at round
          cases round
        · exact allowed.round round
      attempts := countP_bounded fun before e sub call => by
        rcases guarded sub with ⟨-, rfl⟩ | allowed
        · rw [uncalled] at call
          cases call
        · obtain ⟨op, answer⟩ := e
          cases op with
          | toolCall tool accessToken arguments => exact (allowed.attempt _ _ _ rfl).1
          | _ => cases call
      carries := fun before tool accessToken arguments answer sub => by
        rcases guarded sub with ⟨-, rfl⟩ | allowed
        · cases uncalled
        · exact (allowed.attempt _ _ _ rfl).2
      refreshes := fun before sub due => by
        obtain ⟨⟨op, answer⟩, sub', allowed⟩ := followed sub (fun undue => undue.notDue due) (by
          rintro rfl
          rcases due.cause with ⟨_, now, expiresAt, same, -⟩ | ⟨before, _, _, _, _, same⟩
          · cases same
          · exact List.append_ne_nil_of_right_ne_nil before (List.cons_ne_nil _ _) same.symm)
        obtain ⟨blob, stored, rfl⟩ := allowed.due due
        exact ⟨blob, stored, answer, sub'⟩
      redeems := fun before sub redeeming => by
        obtain ⟨⟨op, answer⟩, sub', allowed⟩ := followed sub
          (fun undue => undue.notRedeeming redeeming) (by
            rintro rfl
            obtain ⟨before, _, _, -, -, same⟩ := redeeming
            exact List.append_ne_nil_of_right_ne_nil before (List.cons_ne_nil _ _) same.symm)
        obtain ⟨form, rfl⟩ := allowed.redeeming redeeming
        exact ⟨form, answer, sub'⟩
      only := fun before form answer sub => by
        rcases guarded sub with ⟨-, rfl⟩ | allowed
        · cases unredeemed
        · exact (allowed.redemption rfl).2 }

end Recovery

open Recovery in
/-- `_execute_call` comes to its end whatever it is answered. It redeems the refresh token
once at most and calls the provider in two rounds of attempts at most. Every attempt
carries the stored access token, which had not expired at the freshness check, until there
was a refresh, and the refreshed one from then on. A refresh happens where the credential
is refreshable and within the expiry margin, or was rejected by a 401 before any refresh,
and nowhere else. -/
theorem recovery_bounded {lib : Lib} {svc : Services} {lossy : Bool} {req : InvokeRequest}
    {grant : Grant} {tokenHash : Str} {tool : ToolAdapter} {start : Time} (past : Trace BrokerSig) :
    (∀ answer : Trace BrokerSig → (e : Op) → BrokerSig.Ans e,
      (∀ past e, e.isExecute = true → (broker lib svc lossy).May past ⟨e, answer past e⟩) →
        ∃ tr r, (executeCall lib svc req grant tokenHash tool start).play answer past = (tr, r) ∧
          (broker lib svc lossy).Runs (executeCall lib svc req grant tokenHash tool start)
            past tr r) ∧
    ∀ tr' r, (broker lib svc lossy).Runs (executeCall lib svc req grant tokenHash tool start)
        past tr' r →
      ∃ found tr, tr' = past ++ ⟨.query (.accountById grant.connectedAccountId), found⟩ :: tr ∧
        (∀ account, found = .ok (some account) → Bounded svc account
          (⟨.query (.accountById grant.connectedAccountId), found⟩ :: tr)) ∧
        ((∀ account, found ≠ .ok (some account)) → ∀ e ∈ tr, e.op.isPlain = true) := by
  refine ⟨fun answer may => ⟨_, _, rfl, Machine.runs_play may executeCall_uses⟩,
    fun tr' r runs => ?_⟩
  cases runs with
  | call found may rest =>
    generalize event : (⟨.query (.accountById grant.connectedAccountId), found⟩ :
      Event BrokerSig) = loaded at rest
    have aside : loaded.op.isAside = true := by rw [← event]; rfl
    refine ⟨found, ?_⟩
    rw [event]
    have plain {p : BrokerProg InvokeOutcome} (uses : Within p Op.isPlain)
        (runs : (broker lib svc lossy).Runs p (past ++ [loaded]) tr' r) :
        ∃ tr, tr' = past ++ loaded :: tr ∧ ∀ e ∈ tr, e.op.isPlain = true := by
      have entry : wp (broker lib svc lossy).forgetful (.guarding fun _ _ => True) p
          (fun _ tr => ∃ ext, tr = [loaded] ++ ext ∧ ∀ e ∈ ext, e.op.isPlain = true) [loaded] :=
        wp_of_uses uses (fun _ _ _ => trivial) fun r ext inside => ⟨ext, rfl, inside⟩
      obtain ⟨ext, whole, ⟨ext', same, inside⟩, -⟩ := runs.shifted entry
      rw [List.append_cancel_left same] at whole
      exact ⟨ext', whole, inside⟩
    rcases found with x | _ | account
    · obtain ⟨tr, whole, inside⟩ := plain (p := .throw x) trivial rest
      exact ⟨tr, whole, nofun, fun _ => inside⟩
    · obtain ⟨tr, whole, inside⟩ := plain (refused_uses ..) rest
      exact ⟨tr, whole, nofun, fun _ => inside⟩
    · have ended : ∃ ext, tr' = past ++ ([loaded] ++ ext) ∧ Undue account ([loaded] ++ ext) ∧
          ∀ before e, [loaded] <+: before → before ++ [e] <+: [loaded] ++ ext →
            Allowed svc account before e.op := by
        refine rest.shifted (Q := overPost account) ?_
        show wp _ _ (obtainCredential lib svc account start >>= _) _ _
        rw [wp_bind]
        refine Recovery.wp_obtainCredential aside fun r tr obtained => ?_
        rcases r with x | outcome | ⟨accessToken, refreshed⟩
        · exact obtained.undue
        · exact obtained.undue
        obtain ⟨count, current⟩ := obtained.current accessToken refreshed rfl
        show wp _ _ (isRevokedNow svc grant tokenHash >>= _) _ _
        rw [wp_bind]
        refine wp_asides isRevokedNow_asides id obtained.undue fun r asides inside => ?_
        have undue := obtained.undue.append inside
        rcases r with x | _ | _
        · exact undue
        · refine Recovery.wp_providerRounds
            ⟨undue, current.append (redemptions_asides inside), ?_, ?_, ?_⟩
          · rw [redemptions_append, redemptions_asides inside]
            exact count
          · rw [Recovery.rounds_append, rounds_asides inside, obtained.rounds]
            cases refreshed <;> decide
          · rw [attempts_append, attempts_asides inside, obtained.attempts]
            cases refreshed
            · simp only [Bool.not_false, Bool.toNat_true]
              omega
            · simp only [Bool.not_true, Bool.toNat_false]
              omega
        · exact wp_over (refused_uses ..) undue
      obtain ⟨ext, whole, over_, guards⟩ := ended
      refine ⟨ext, whole, fun account' is => ?_, fun none => (none account rfl).elim⟩
      cases is
      exact bounded_of_allowed aside guards over_

/-! ## A rejected token -/

namespace Demo

/-- A token that the provider rejects, and that does not expire. -/
def rejectedAccount : ConnectedAccount := { staleAccount with expiresAt := none }

def rejectedGrant : Grant :=
  ⟨grantId, agentId, staleAccount.id, "drive.read", "read", lib.sha256 token, midnight,
    midnight + seconds 300, none⟩

/-- The broker with that account, where each provider has a breaker. -/
def rejecting : World :=
  { connected with
    db := { connected.db with accounts := [rejectedAccount] }
    circuits := fun _ _ => some ⟨5, seconds 20, .closed, 0, none, false, by decide, by decide⟩ }

/-- The provider takes the refreshed token only. -/
def rejection (past : Trace BrokerSig) : (e : Op) → BrokerSig.Ans e
  | .toolCall _ accessToken _ =>
    if accessToken = demoAccessToken then .error (.providerCallError "HTTP 401" (some 401))
    else .ok (.obj [("files", .arr [])])
  | e => healthy rejecting past e

/-- What that broker may not answer so is an error. -/
def recovering (past : Trace BrokerSig) (e : Op) : BrokerSig.Ans e :=
  if rejecting.permits past ⟨e, rejection past e⟩ = true then rejection past e
  else .error (.other "OSError" "")

theorem may_recovering (past : Trace BrokerSig) (e : Op) (execute : e.isExecute = true) :
    (broker lib services false).May past ⟨e, recovering past e⟩ := by
  by_cases permits : rejecting.permits past ⟨e, rejection past e⟩ = true
  · refine ⟨rejecting, ?_⟩
    rw [recovering, if_pos permits]
    exact permits
  · refine ⟨rejecting, ?_⟩
    rw [recovering, if_neg permits]
    cases e with
    | redis cmd =>
      cases cmd with
      | existsKey name => rfl
      | _ => cases execute
    | query q =>
      cases q with
      | accountById id => rfl
      | revokedAt id => rfl
      | _ => cases execute
    | encrypt plaintext => cases plaintext <;> rfl
    | decrypt | tokenEndpoint | toolCall | commit => rfl
    | clock | registerSecret | setAccount | circuitSuccess | circuitFailure | sleep | circuitFor =>
      exact (permits rfl).elim
    | secretRegistry => exact (permits rfl).elim
    | circuitAllow surface provider =>
      simp [rejection, healthy, World.permits, rejecting] at permits
    | _ => cases execute

/-- A call over the rejected account. -/
def recovery : BrokerProg InvokeOutcome :=
  executeCall lib services ⟨.grpc, token, "drive.read", [], none⟩ rejectedGrant (lib.sha256 token)
    driveListFilesTool 0

/-- What that call comes to. -/
theorem recovery_computed : (fun ended : Trace BrokerSig × Except PyExn InvokeOutcome =>
    Recovery.redemptions ended.1 = 1 ∧ Recovery.rounds ended.1 = 2 ∧ Recovery.attempts ended.1 = 2)
      (recovery.play recovering []) := by decide +kernel

end Demo

/-- A 401 is answered by a refresh and a second round. -/
theorem recovery_bounded_demo :
    ∃ tr r, (broker Demo.lib Demo.services false).Runs Demo.recovery [] tr r ∧
    Recovery.Bounded Demo.services Demo.rejectedAccount tr ∧ Recovery.redemptions tr = 1 ∧
    Recovery.rounds tr = 2 ∧ Recovery.attempts tr = 2 := by
  obtain ⟨ends, bounded⟩ := @recovery_bounded Demo.lib Demo.services false
    ⟨.grpc, Demo.token, "drive.read", [], none⟩ Demo.rejectedGrant (Demo.lib.sha256 Demo.token)
    driveListFilesTool 0 []
  obtain ⟨tr, r, played, runs⟩ := ends Demo.recovering Demo.may_recovering
  obtain ⟨found, rest, whole, loaded, -⟩ := bounded tr r runs
  have answered : found = Demo.recovering [] (.query (.accountById ⟨3⟩)) := by
    refine (Prog.play_answers Demo.recovery []).2 [] ⟨_, found⟩ rest ?_ (Nat.le_refl 0)
    rw [Demo.recovery, played]
    exact whole
  have counts := Demo.recovery_computed
  rw [Demo.recovery, played] at counts
  refine ⟨tr, r, runs, ?_, counts⟩
  rw [whole]
  exact loaded _ answered

end CredBroker
