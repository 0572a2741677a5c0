import CredBroker.Runs

/-!
# The session of an invocation

What the session of an invocation holds of the connected account: the row as
loaded, the row with a refreshed credential when that is committed, and what a
failed refresh may leave behind for the commit of the audit row.
-/

namespace CredBroker

open Python Interaction

variable {lib : Lib} {svc : Services} {lossy : Bool}

/-! ## Operations that leave the account alone -/

namespace Op

/-- Assigned attributes come from here, and go from here to the database. -/
def saves : Op → Bool
  | .setAccount _ | .commit => true
  | _ => false

/-- Operations that change neither what a session holds of the account, nor what
it inserts. -/
def isIdle : Op → Bool
  | .query (.accountById _) | .setAccount _ | .commit | .rollback | .close | .add _ => false
  | _ => true

theorem isIdle_of_isLocal {e : Op} (h : e.isLocal = true) : e.isIdle = true := by
  cases e <;> first | rfl | cases h

theorem isIdle_of_isRegister {e : Op} (h : e.isRegister = true) : e.isIdle = true := by
  cases e <;> first | rfl | cases h

theorem saves_of_isIdle {e : Op} (h : e.isIdle = true) : e.saves = false := by
  cases e <;> first | rfl | cases h

theorem ne_commit_of_isIdle {e : Op} (h : e.isIdle = true) : e ≠ .commit := by
  rintro rfl
  cases h

theorem isAdd_of_isIdle {e : Op} (h : e.isIdle = true) : e.isAdd = false := by
  cases e <;> first | rfl | cases h

end Op

theorem idle_of_local {α : Type} {p : BrokerProg α} (uses : Within p Op.isLocal) :
    Within p Op.isIdle := uses.mono Op.isIdle_of_isLocal

theorem isRevokedNow_idle {grant : Grant} {tokenHash : Str} :
    Within (isRevokedNow svc grant tokenHash) Op.isIdle := by
  refine .bind (idle_of_local markedRevoked_local) fun marked => .ite (fun _ => trivial) fun _ => ?_
  refine .bind (within_op rfl) fun row => ?_
  split <;> trivial

/-! ## What the session holds -/

/-- A field of a token-endpoint document. -/
def HttpResponse.field (response : HttpResponse) (name : Str) : Json :=
  match response.json with
  | .ok (.obj payload) => Json.getItem payload name
  | _ => .null

/-- The exceptions that `_refresh_or_outcome` turns into a failed outcome. -/
def PyExn.failsRefresh : PyExn → Bool
  | .oauthFlowError _ | .clientError _ | .valueError _ => true
  | exc => exc.isHTTPError

/-- The account is loaded, and nothing of it assigned or committed yet. -/
structure Ready (account : ConnectedAccount) (tr : Trace BrokerSig) : Prop where
  loaded : ∃ id, ⟨.query (.accountById id), .ok (some account)⟩ ∈ tr
  session : (Session.replay tr).account = some (account, account)
  unsaved : ∀ e ∈ tr, e.op.saves = false
  noAdd : NoAdd tr

/-- The session has no change of an account to write. -/
def Clean (tr : Trace BrokerSig) : Prop :=
  ∀ stored assigned, (Session.replay tr).account = some (stored, assigned) → assigned = stored

/-- A statement of the transaction failed: no commit can take effect. -/
def Stuck (tr : Trace BrokerSig) : Prop := (Session.replay tr).failed = true

/-- The new access token was assigned, and then the encryption of the rotated
refresh token failed in a way that ends in an outcome. -/
structure Torn (blob : Bytes) (head tr : Trace BrokerSig) : Prop where
  events : ∃ (value : Json) (x : PyExn) (mid : Trace BrokerSig), x.failsRefresh = true ∧
    tr = head ++ [⟨.setAccount (.encryptedAccessToken blob), .ok ()⟩, ⟨.encrypt value, .error x⟩] ++
      mid ∧ ∀ e ∈ mid, e.op.endsTransaction = false

/-- What is left once a refresh was tried, or not needed. -/
structure Calm (tr : Trace BrokerSig) : Prop where
  noAdd : NoAdd tr
  state : Clean tr ∨ (∃ blob head, Torn blob head tr) ∨ Stuck tr

/-- A rotated refresh token is encrypted and assigned; without one the stored one stays. -/
inductive Rotation (account account' : ConnectedAccount) (response : HttpResponse) :
    Trace BrokerSig → Prop
  | kept (absent : (response.field "refresh_token").truthy = false)
      (same : account'.encryptedRefreshToken = account.encryptedRefreshToken) :
      Rotation account account' response []
  | rotated (blob : Bytes) (present : (response.field "refresh_token").truthy = true)
      (stored : account'.encryptedRefreshToken = some blob) :
      Rotation account account' response
        [⟨.encrypt (response.field "refresh_token"), .ok blob⟩,
          ⟨.setAccount (.encryptedRefreshToken (some blob)), .ok ()⟩]

/-- The new expiry is counted from the clock, where the response names one. -/
inductive Expiring (lib : Lib) (account' : ConnectedAccount) (response : HttpResponse) :
    Trace BrokerSig → Prop
  | never (parsed : parseExpiresIn lib (response.field "expires_in") = .ok none)
      (none : account'.expiresAt = none) : Expiring lib account' response []
  | counted (n : Int) (now expiresAt : Time)
      (parsed : parseExpiresIn lib (response.field "expires_in") = .ok (some n))
      (sum : addSeconds now n = .ok expiresAt) (stored : account'.expiresAt = some expiresAt) :
      Expiring lib account' response [⟨.clock, .ok now⟩]

/-- The events of a refresh up to its commit: `account'` is the row with the
credential that the token endpoint returned. -/
structure Renewal (lib : Lib) (svc : Services) (account account' : ConnectedAccount)
    (response : HttpResponse) (events : Trace BrokerSig) : Prop where
  granted : 200 ≤ response.statusCode ∧ response.statusCode < 300
  rest_eq : account' = { account with
    encryptedAccessToken := account'.encryptedAccessToken
    encryptedRefreshToken := account'.encryptedRefreshToken
    expiresAt := account'.expiresAt }
  performed : ∃ blob refreshToken registers accessToken rotation reading,
    account.encryptedRefreshToken = some blob ∧ AccessTokenOf response accessToken ∧
    (∀ e ∈ registers, e.op.isRegister = true) ∧ Rotation account account' response rotation ∧
    Expiring lib account' response reading ∧
    events = [⟨.decrypt blob, .ok refreshToken⟩,
      ⟨.tokenEndpoint (refreshForm svc.settings refreshToken), .ok response⟩] ++ registers ++
      [⟨.encrypt (.str accessToken), .ok account'.encryptedAccessToken⟩,
        ⟨.setAccount (.encryptedAccessToken account'.encryptedAccessToken), .ok ()⟩] ++ rotation ++
      reading ++ [⟨.setAccount (.expiresAt account'.expiresAt), .ok ()⟩]

/-- No encryption failed. -/
def Unfailed (tr : Trace BrokerSig) : Prop := ∀ value x, ⟨.encrypt value, .error x⟩ ∉ tr

/-- An attribute is assigned in a refresh in which no encryption failed, and the
access token first. -/
structure Assigning (attr : Attr) (tr : Trace BrokerSig) : Prop where
  refresh : ∃ account base events, tr = base ++ events ∧ Ready account base ∧ Unfailed events ∧
    ∀ blob, attr = .encryptedAccessToken blob → ∀ e ∈ events, e.op.isIdle = true

/-- What a commit of an invocation writes: a refreshed credential, or the audit
row with what a failed refresh left behind. -/
inductive Saving (lib : Lib) (svc : Services) (tr : Trace BrokerSig) : Prop
  | renewed (account account' : ConnectedAccount) (response : HttpResponse)
      (base events : Trace BrokerSig) (ready : Ready account base)
      (renewal : Renewal lib svc account account' response events) (split : tr = base ++ events)
  | audit (added : ¬ NoAdd tr) (state : Clean tr ∨ (∃ blob head, Torn blob head tr) ∨ Stuck tr)

/-- What stands behind the operations that a session's account depends on. -/
def savingGuard (lib : Lib) (svc : Services) (tr : Trace BrokerSig) : Op → Prop
  | .query (.accountById _) => ∀ e ∈ tr, e.op.isIdle = true
  | .setAccount attr => Assigning attr tr
  | .commit => Saving lib svc tr
  | _ => True

abbrev savingRole (lib : Lib) (svc : Services) : Role BrokerSig := .guarding (savingGuard lib svc)

section Facts

variable {account : ConnectedAccount} {tr ext : Trace BrokerSig}

theorem Unfailed.append (h : Unfailed tr) (h' : Unfailed ext) : Unfailed (tr ++ ext) :=
  fun value x member => (List.mem_append.mp member).elim (h value x) (h' value x)

theorem unfailed_of_isRegister (registers : ∀ e ∈ tr, e.op.isRegister = true) : Unfailed tr :=
  fun _ _ member => by cases registers _ member

theorem savingGuard_of_isIdle {e : Op} (idle : e.isIdle = true) : savingGuard lib svc tr e := by
  cases e with
  | query q =>
    cases q with
    | accountById id => cases idle
    | _ => trivial
  | setAccount | commit => cases idle
  | _ => trivial

theorem Session.note_idle (s : Session) {e : Event BrokerSig} (idle : e.op.isIdle = true) :
    (s.note e).account = s.account ∧ (s.failed = true → (s.note e).failed = true) := by
  obtain ⟨e, a⟩ := e
  cases e with
  | query q =>
    rcases a with x | a
    · cases q <;> exact ⟨rfl, fun _ => rfl⟩
    · cases q with
      | accountById id => cases idle
      | agentForUpdate => cases a <;> exact ⟨rfl, id⟩
      | _ => exact ⟨rfl, id⟩
  | flush => cases a <;> first | exact ⟨rfl, id⟩ | exact ⟨rfl, fun _ => rfl⟩
  | add | setAccount | commit | rollback | close => cases idle
  | _ => exact ⟨rfl, id⟩

theorem Session.replay_idle (idle : ∀ e ∈ ext, e.op.isIdle = true) :
    (replay (tr ++ ext)).account = (replay tr).account ∧
      ((replay tr).failed = true → (replay (tr ++ ext)).failed = true) := by
  induction ext using List.reverseRecOn with
  | nil => simp
  | append_singleton ext e ih =>
    obtain ⟨idle, last⟩ := List.forall_mem_append.mp idle
    obtain ⟨account, failed⟩ := note_idle (replay (tr ++ ext)) (last e (List.mem_singleton.mpr rfl))
    rw [← List.append_assoc, replay_append_singleton]
    exact ⟨account.trans (ih idle).1, failed ∘ (ih idle).2⟩

theorem Ready.append (ready : Ready account tr) (idle : ∀ e ∈ ext, e.op.isIdle = true) :
    Ready account (tr ++ ext) where
  loaded := by
    obtain ⟨id, member⟩ := ready.loaded
    exact ⟨id, List.mem_append_left _ member⟩
  session := (Session.replay_idle idle).1.trans ready.session
  unsaved := List.forall_mem_append.mpr
    ⟨ready.unsaved, fun e member => Op.saves_of_isIdle (idle e member)⟩
  noAdd := ready.noAdd.append fun e member => Op.isAdd_of_isIdle (idle e member)

theorem Ready.clean (ready : Ready account tr) : Clean tr := by
  intro stored assigned held
  rw [ready.session] at held
  obtain ⟨rfl, rfl⟩ : account = stored ∧ account = assigned := by simpa using held
  rfl

theorem Ready.calm (ready : Ready account tr) : Calm tr := ⟨ready.noAdd, .inl ready.clean⟩

theorem Calm.append (calm : Calm tr) (idle : ∀ e ∈ ext, e.op.isIdle = true) : Calm (tr ++ ext) where
  noAdd := calm.noAdd.append fun e member => Op.isAdd_of_isIdle (idle e member)
  state := by
    have kept : (Session.replay (tr ++ ext)).account = (Session.replay tr).account ∧
        ((Session.replay tr).failed = true → (Session.replay (tr ++ ext)).failed = true) :=
      Session.replay_idle idle
    obtain ⟨account, failed⟩ := kept
    rcases calm.state with clean | ⟨blob, head, torn⟩ | stuck
    · exact .inl fun stored assigned held => clean stored assigned (account ▸ held)
    · obtain ⟨value, x, mid, fails, rfl, open_⟩ := torn.events
      refine .inr (.inl ⟨blob, head, value, x, mid ++ ext, fails, by simp, ?_⟩)
      refine List.forall_mem_append.mpr ⟨open_, fun e member => ?_⟩
      have idle := idle e member
      obtain ⟨e, a⟩ := e
      cases e <;> first | rfl | cases idle
    · exact .inr (.inr (failed stuck))

/-- After a rollback nothing is left to write. -/
theorem clean_rollback : Clean (tr ++ [⟨.rollback, .ok ()⟩]) := by
  intro stored assigned held
  simp [Session.note, Session.new] at held

end Facts

/-! ## The refresh -/

section Rules

variable {account : ConnectedAccount} {tr : Trace BrokerSig}

/-- Idle operations need no grounds. -/
theorem wp_idle {α : Type} {p : BrokerProg α} {Q : Post BrokerSig α} (uses : Within p Op.isIdle)
    (post : ∀ r ext, (∀ e ∈ ext, e.op.isIdle = true) → Q r (tr ++ ext)) :
    wp (broker lib svc lossy) (savingRole lib svc) p Q tr :=
  wp_of_uses uses (fun _ _ idle => savingGuard_of_isIdle idle) post

theorem wp_local {α : Type} {p : BrokerProg α} {Q : Post BrokerSig α} (uses : Within p Op.isLocal)
    (post : ∀ r ext, (∀ e ∈ ext, e.op.isIdle = true) → Q r (tr ++ ext)) :
    wp (broker lib svc lossy) (savingRole lib svc) p Q tr := wp_idle (idle_of_local uses) post

/-- What a parsed response says. -/
structure TokenOf (lib : Lib) (response : HttpResponse) (token : TokenResponse) : Prop where
  granted : 200 ≤ response.statusCode ∧ response.statusCode < 300
  access : AccessTokenOf response token.accessToken
  refresh : token.refreshToken =
    if (response.field "refresh_token").truthy then response.field "refresh_token" else .null
  expires : parseExpiresIn lib (response.field "expires_in") = .ok token.expiresIn

theorem HttpResponse.field_of_json {response : HttpResponse} {payload : List (Str × Json)}
    (json : response.json = .ok (.obj payload)) (name : Str) :
    response.field name = Json.getItem payload name := by
  rw [field, json]

theorem parseTokenResponse_field (response : HttpResponse) :
    (parseTokenResponse lib response).Returns (TokenOf lib response) := by
  unfold parseTokenResponse
  split
  · trivial
  · rename_i granted
    split
    · trivial
    · trivial
    · rename_i payload json
      split
      · rename_i c accessToken found
        refine .bind fun _ => .bind fun _ => ?_
        cases parsed : parseExpiresIn lib (Json.getItem payload "expires_in") with
        | error x => trivial
        | ok expiresIn =>
          refine ⟨by omega, ⟨payload, json, found⟩, ?_, ?_⟩
          · rw [HttpResponse.field_of_json json]
          · rw [HttpResponse.field_of_json json]
            exact parsed
      · trivial
    · trivial

/-- The postcondition of a refresh: nothing is left to write once it succeeded,
and what it failed with says what may be. -/
def refreshedPost : Post BrokerSig Str := fun r tr =>
  match r with
  | .ok _ => Calm tr
  | .error x => NoAdd tr ∧ (x.failsRefresh = true → Calm tr)

theorem refreshedPost_ready {x : PyExn} (ready : Ready account tr) :
    refreshedPost (.error x) tr := ⟨ready.noAdd, fun _ => ready.calm⟩

/-- After its commit the session of a refresh has nothing left to write. -/
theorem clean_commit : Clean (tr ++ [⟨.commit, .ok ()⟩]) := by
  intro stored assigned held
  rw [Session.replay_append_singleton] at held
  cases loaded : (Session.replay tr).account with
  | none => simp [Session.note, loaded] at held
  | some pair =>
    simp only [Session.note, loaded, Option.map_some, Option.some.injEq, Prod.mk.injEq] at held
    exact held.2.symm.trans held.1

theorem stuck_commit {x : PyExn} : Stuck (tr ++ [⟨.commit, .error x⟩]) := by
  simp [Stuck, Session.note]

theorem addSeconds_error {time : Time} {n : Int} {x : PyExn}
    (raised : addSeconds time n = .error x) : x.failsRefresh = false := by
  unfold addSeconds at raised
  split at raised
  · cases raised
  · cases raised
    rfl

/-- The last steps of a refresh: the expiry is assigned, and all of it committed. -/
theorem wp_commitRefreshed {account₁ : ConnectedAccount} {response : HttpResponse}
    {refreshed : TokenResponse} {blob : Bytes} {refreshToken : Str}
    {registers rotation : Trace BrokerSig} (ready : Ready account tr)
    (token : TokenOf lib response refreshed) (blob_eq : account.encryptedRefreshToken = some blob)
    (registering : ∀ e ∈ registers, e.op.isRegister = true)
    (rest_eq : account₁ = { account with
      encryptedAccessToken := account₁.encryptedAccessToken
      encryptedRefreshToken := account₁.encryptedRefreshToken })
    (rotated : Rotation account account₁ response rotation) :
    wp (broker lib svc lossy) (savingRole lib svc)
      (do
        let expiresAt ← expiryOf refreshed.expiresIn
        op (.setAccount (.expiresAt expiresAt))
        op .commit
        return refreshed.accessToken : BrokerProg Str) refreshedPost
      (tr ++ ([⟨.decrypt blob, .ok refreshToken⟩,
        ⟨.tokenEndpoint (refreshForm svc.settings refreshToken), .ok response⟩] ++ registers ++
        [⟨.encrypt (.str refreshed.accessToken), .ok account₁.encryptedAccessToken⟩,
          ⟨.setAccount (.encryptedAccessToken account₁.encryptedAccessToken), .ok ()⟩] ++
        rotation)) := by
  have rotation_ok : Unfailed rotation := by
    intro value x
    cases rotated <;> simp
  have registers_ok : Unfailed registers := unfailed_of_isRegister registering
  have noAdd : ∀ e ∈ rotation, e.op.isAdd = false := by
    cases rotated <;> simp [Op.isAdd]
  have registers_noAdd : ∀ e ∈ registers, e.op.isAdd = false := fun e member =>
    Op.isAdd_of_isIdle (Op.isIdle_of_isRegister (registering e member))
  -- from the new expiry on
  have tail : ∀ (expiresAt : Option Time) (reading : Trace BrokerSig),
      Expiring lib { account₁ with expiresAt := expiresAt } response reading →
      wp (broker lib svc lossy) (savingRole lib svc)
        (do
          op (.setAccount (.expiresAt expiresAt))
          op .commit
          return refreshed.accessToken : BrokerProg Str) refreshedPost
        (tr ++ ([⟨.decrypt blob, .ok refreshToken⟩,
          ⟨.tokenEndpoint (refreshForm svc.settings refreshToken), .ok response⟩] ++ registers ++
          [⟨.encrypt (.str refreshed.accessToken), .ok account₁.encryptedAccessToken⟩,
            ⟨.setAccount (.encryptedAccessToken account₁.encryptedAccessToken), .ok ()⟩] ++
          rotation ++ reading)) := by
    intro expiresAt reading expiring
    have reading_ok : Unfailed reading := by
      intro value x
      cases expiring <;> simp
    have reading_noAdd : ∀ e ∈ reading, e.op.isAdd = false := by
      cases expiring <;> simp [Op.isAdd]
    refine ⟨⟨account, tr, _, rfl, ready, ?_, fun blob same => by cases same⟩, fun a may _ => ?_⟩
    · refine .append (.append (.append (.append ?_ registers_ok) ?_) rotation_ok) reading_ok
      · simp [Unfailed]
      · simp [Unfailed]
    · obtain ⟨⟨⟩, rfl⟩ := may_sync rfl may
      have noAdd : NoAdd (tr ++ ([⟨.decrypt blob, .ok refreshToken⟩,
          ⟨.tokenEndpoint (refreshForm svc.settings refreshToken), .ok response⟩] ++ registers ++
          [⟨.encrypt (.str refreshed.accessToken), .ok account₁.encryptedAccessToken⟩,
            ⟨.setAccount (.encryptedAccessToken account₁.encryptedAccessToken), .ok ()⟩] ++
          rotation ++ reading) ++ [⟨.setAccount (.expiresAt expiresAt), .ok ()⟩]) := by
        refine (ready.noAdd.append ?_).append (by simp [Op.isAdd])
        simp only [List.forall_mem_append]
        exact ⟨⟨⟨⟨by simp [Op.isAdd], registers_noAdd⟩, by simp [Op.isAdd]⟩, noAdd⟩, reading_noAdd⟩
      refine ⟨.renewed account { account₁ with expiresAt := expiresAt } response tr _ ready
        ⟨token.granted, ?_, blob, refreshToken, registers, refreshed.accessToken, rotation,
          reading, blob_eq, token.access, registering, ?_, expiring, rfl⟩ (by simp),
          fun a _ _ => ?_⟩
      · rw [rest_eq]
      · cases rotated with
        | kept absent same => exact .kept absent same
        | rotated blob' present stored => exact .rotated blob' present stored
      · cases a with
        | ok _ => exact ⟨noAdd.append (by simp [Op.isAdd]), .inl clean_commit⟩
        | error x =>
          have noAdd : NoAdd (_ ++ [⟨.commit, .error x⟩]) := noAdd.append (by simp [Op.isAdd])
          exact ⟨noAdd, fun _ => ⟨noAdd, .inr (.inr stuck_commit)⟩⟩
  cases parsed : refreshed.expiresIn with
  | none =>
    have never := tail none [] (.never (parsed ▸ token.expires) rfl)
    rw [List.append_nil] at never
    exact never
  | some n =>
    refine ⟨trivial, fun a may _ => ?_⟩
    obtain ⟨now, rfl⟩ := may_sync rfl may
    show wp _ _
      ((Prog.ofExcept ((addSeconds now n).map some) : BrokerProg (Option Time)) >>= _) _ _
    rw [wp_bind, wp_ofExcept, List.append_assoc]
    cases sum : addSeconds now n with
    | ok expiresAt =>
      exact tail (some expiresAt) _ (.counted n now expiresAt (parsed ▸ token.expires) sum rfl)
    | error x =>
      refine ⟨ready.noAdd.append ?_, fun fails => ?_⟩
      · simp only [List.forall_mem_append]
        exact ⟨⟨⟨⟨by simp [Op.isAdd], registers_noAdd⟩, by simp [Op.isAdd]⟩, noAdd⟩,
          by simp [Op.isAdd]⟩
      · rw [addSeconds_error sum] at fails
        cases fails

/-- The parsed tokens are encrypted, assigned and committed. -/
theorem wp_persistRefreshed_saving {response : HttpResponse} {refreshed : TokenResponse}
    {blob : Bytes} {refreshToken : Str} {registers : Trace BrokerSig} (ready : Ready account tr)
    (token : TokenOf lib response refreshed) (blob_eq : account.encryptedRefreshToken = some blob)
    (registering : ∀ e ∈ registers, e.op.isRegister = true) :
    wp (broker lib svc lossy) (savingRole lib svc) (persistRefreshed refreshed) refreshedPost
      (tr ++ ([⟨.decrypt blob, .ok refreshToken⟩] ++
        [⟨.tokenEndpoint (refreshForm svc.settings refreshToken), .ok response⟩] ++
        registers)) := by
  have idle : ∀ e ∈ ([⟨.decrypt blob, .ok refreshToken⟩] ++
      [⟨.tokenEndpoint (refreshForm svc.settings refreshToken), .ok response⟩] ++ registers :
        Trace BrokerSig), e.op.isIdle = true := by
    simp only [List.forall_mem_append]
    exact ⟨⟨by simp [Op.isIdle], by simp [Op.isIdle]⟩, fun e member =>
      Op.isIdle_of_isRegister (registering e member)⟩
  refine ⟨trivial, fun a _ _ => ?_⟩
  rw [List.append_assoc]
  cases a with
  | error x =>
    refine refreshedPost_ready (ready.append (List.forall_mem_append.mpr ⟨idle, ?_⟩))
    simp [Op.isIdle]
  | ok access =>
    have encrypted := List.forall_mem_append.mpr ⟨idle,
      show ∀ e ∈ ([⟨.encrypt (.str refreshed.accessToken), .ok access⟩] : Trace BrokerSig),
        e.op.isIdle = true by simp [Op.isIdle]⟩
    have unfailed : Unfailed ([⟨.decrypt blob, .ok refreshToken⟩] ++
        [⟨.tokenEndpoint (refreshForm svc.settings refreshToken), .ok response⟩] ++ registers ++
        [⟨.encrypt (.str refreshed.accessToken), .ok access⟩]) := by
      refine .append (.append ?_ (unfailed_of_isRegister registering)) ?_ <;> simp [Unfailed]
    refine ⟨⟨account, tr, _, rfl, ready, unfailed, fun _ _ => encrypted⟩, fun a may _ => ?_⟩
    obtain ⟨⟨⟩, rfl⟩ := may_sync rfl may
    have assigned : NoAdd (tr ++ ([⟨.decrypt blob, .ok refreshToken⟩] ++
        [⟨.tokenEndpoint (refreshForm svc.settings refreshToken), .ok response⟩] ++ registers ++
        [⟨.encrypt (.str refreshed.accessToken), .ok access⟩]) ++
        [⟨.setAccount (.encryptedAccessToken access), .ok ()⟩]) :=
      (ready.append encrypted).noAdd.append (by simp [Op.isAdd])
    have commit : ∀ (rotation : Trace BrokerSig) (stored : Option Bytes),
        Rotation account { account with
          encryptedAccessToken := access, encryptedRefreshToken := stored } response rotation →
        wp (broker lib svc lossy) (savingRole lib svc)
          (do
            let expiresAt ← expiryOf refreshed.expiresIn
            op (.setAccount (.expiresAt expiresAt))
            op .commit
            return refreshed.accessToken : BrokerProg Str) refreshedPost
          (tr ++ ([⟨.decrypt blob, .ok refreshToken⟩] ++
            [⟨.tokenEndpoint (refreshForm svc.settings refreshToken), .ok response⟩] ++ registers ++
            [⟨.encrypt (.str refreshed.accessToken), .ok access⟩]) ++
            [⟨.setAccount (.encryptedAccessToken access), .ok ()⟩] ++ rotation) := by
      intro rotation stored rotated
      have done : wp (broker lib svc lossy) (savingRole lib svc) _ refreshedPost
          (tr ++ ([⟨.decrypt blob, .ok refreshToken⟩,
            ⟨.tokenEndpoint (refreshForm svc.settings refreshToken), .ok response⟩] ++ registers ++
            [⟨.encrypt (.str refreshed.accessToken), .ok access⟩,
              ⟨.setAccount (.encryptedAccessToken access), .ok ()⟩] ++ rotation)) :=
        wp_commitRefreshed ready token blob_eq registering rfl rotated
      simpa only [List.append_assoc, List.cons_append, List.nil_append] using done
    show wp _ _ (rotateRefresh refreshed.refreshToken >>= _) _ _
    unfold rotateRefresh
    have truthy : refreshed.refreshToken.truthy = (response.field "refresh_token").truthy := by
      rw [token.refresh]
      split
      · rfl
      · rename_i absent
        rw [Bool.not_eq_true] at absent
        exact absent.symm
    split
    · rename_i present
      have same : refreshed.refreshToken = response.field "refresh_token" := by
        rw [token.refresh, if_pos (truthy ▸ present)]
      refine ⟨trivial, fun a _ _ => ?_⟩
      cases a with
      | error x =>
        have noAdd := assigned.append
          (show ∀ e ∈ ([⟨.encrypt refreshed.refreshToken, .error x⟩] : Trace BrokerSig),
            e.op.isAdd = false by simp [Op.isAdd])
        refine ⟨noAdd, fun fails => ⟨noAdd, .inr (.inl ⟨access,
          tr ++ ([⟨.decrypt blob, .ok refreshToken⟩] ++
            [⟨.tokenEndpoint (refreshForm svc.settings refreshToken), .ok response⟩] ++ registers ++
            [⟨.encrypt (.str refreshed.accessToken), .ok access⟩]),
          refreshed.refreshToken, x, [], fails, ?_, by simp⟩)⟩⟩
        simp only [List.append_assoc, List.cons_append, List.nil_append, List.append_nil]
      | ok rotated =>
        refine ⟨⟨account, tr, ([⟨.decrypt blob, .ok refreshToken⟩] ++
          [⟨.tokenEndpoint (refreshForm svc.settings refreshToken), .ok response⟩] ++ registers ++
          [⟨.encrypt (.str refreshed.accessToken), .ok access⟩]) ++
          [⟨.setAccount (.encryptedAccessToken access), .ok ()⟩] ++
          [⟨.encrypt refreshed.refreshToken, .ok rotated⟩],
          by simp only [List.append_assoc], ready, ?_, fun _ same => by cases same⟩,
          fun a may _ => ?_⟩
        · exact .append (.append unfailed (by simp [Unfailed])) (by simp [Unfailed])
        · obtain ⟨⟨⟩, rfl⟩ := may_sync rfl may
          have done := commit _ _ (.rotated rotated (truthy ▸ present) rfl)
          rw [← same] at done
          simp only [List.append_assoc, List.cons_append, List.nil_append] at done ⊢
          exact done
    · rename_i absent
      rw [Bool.not_eq_true] at absent
      have done := commit [] account.encryptedRefreshToken (.kept (truthy ▸ absent) rfl)
      rw [List.append_nil] at done
      exact done

/-- `_refresh_credential`, with the account just loaded. -/
theorem wp_refreshCredential_saving (ready : Ready account tr) :
    wp (broker lib svc lossy) (savingRole lib svc) (refreshCredential lib svc account)
      refreshedPost tr := by
  unfold refreshCredential
  split
  · exact refreshedPost_ready ready
  · rename_i blob blob_eq
    refine ⟨trivial, fun a _ _ => ?_⟩
    cases a with
    | error x => exact refreshedPost_ready (ready.append (by simp [Op.isIdle]))
    | ok refreshToken =>
      refine ⟨trivial, fun a _ _ => ?_⟩
      rw [List.append_assoc]
      cases a with
      | error x => exact refreshedPost_ready (ready.append (by simp [Op.isIdle]))
      | ok response =>
        show wp _ _ (parseTokenResponse lib response >>= persistRefreshed) _ _
        rw [wp_bind]
        refine wp_within (parseTokenResponse_uses response) (parseTokenResponse_field response)
          (fun _ _ register => savingGuard_of_isIdle (Op.isIdle_of_isRegister register))
          fun r registers inside parsed => ?_
        have idle : ∀ e ∈ registers, e.op.isIdle = true := fun e member =>
          Op.isIdle_of_isRegister (inside e member)
        rw [List.append_assoc]
        cases r with
        | error x =>
          refine refreshedPost_ready (ready.append (List.forall_mem_append.mpr ⟨?_, idle⟩))
          simp [Op.isIdle]
        | ok refreshed =>
          exact wp_persistRefreshed_saving ready (parsed refreshed rfl) blob_eq inside

/-- What a step leaves to write: nothing that is not `Calm` where it ended, and no
row to insert where it raised. -/
def calmPost {α : Type} : Post BrokerSig α := fun r tr =>
  match r with
  | .ok _ => Calm tr
  | .error _ => NoAdd tr

theorem Calm.refused {β : Type} {status : Status} {error : Str} {reason : Option DeniedReason}
    {start : Time} (calm : Calm tr) :
    wp (broker lib svc lossy) (savingRole lib svc)
      (.error <$> refused start status error reason : BrokerProg (Except InvokeOutcome β))
      (fun r tr => ∃ o, r = .ok (.error o) ∧ Calm tr) tr := by
  refine ⟨trivial, fun a may _ => ?_⟩
  obtain ⟨secrets, rfl⟩ := may_sync rfl may
  refine ⟨trivial, fun a may _ => ?_⟩
  obtain ⟨now, rfl⟩ := may_sync rfl may
  exact ⟨_, rfl, (calm.append (by simp [Op.isIdle])).append (by simp [Op.isIdle])⟩

/-- Local operations leave everything as it is. -/
theorem Calm.idle {α : Type} {p : BrokerProg α} (calm : Calm tr) (uses : Within p Op.isLocal) :
    wp (broker lib svc lossy) (savingRole lib svc) p (fun _ tr => Calm tr) tr :=
  wp_local uses fun _ _ idle => calm.append idle

theorem calmPost_of_calm {α : Type} {r : Except PyExn α} (calm : Calm tr) : calmPost r tr := by
  cases r with
  | ok a => exact calm
  | error x => exact calm.noAdd

/-- And end calm, or raise. -/
theorem Calm.calmPost {α : Type} {p : BrokerProg α} (calm : Calm tr) (uses : Within p Op.isLocal) :
    wp (broker lib svc lossy) (savingRole lib svc) p calmPost tr :=
  wp_mono (calm.idle uses) fun _ _ _ ended => calmPost_of_calm ended

section Walk

variable {req : InvokeRequest} {grant : Grant} {tokenHash : Str} {tool : ToolAdapter} {start : Time}

theorem wp_refreshOrOutcome_saving (ready : Ready account tr) :
    wp (broker lib svc lossy) (savingRole lib svc) (refreshOrOutcome lib svc account start)
      calmPost tr := by
  unfold refreshOrOutcome
  rw [wp_bind, wp_attempt]
  refine wp_mono (wp_refreshCredential_saving ready) fun r tr' _ ended => ?_
  rw [Post.next_ok]
  have failing : ∀ x : PyExn, refreshedPost (.error x) tr' → x.failsRefresh = true → ∀ msg,
      wp (broker lib svc lossy) (savingRole lib svc)
        (.error <$> failed start msg : BrokerProg (Except InvokeOutcome Str)) calmPost tr' := by
    intro x ended fails msg
    refine wp_mono (ended.2 fails).refused ?_
    rintro r tr'' - ⟨o, rfl, calm⟩
    exact calm
  split
  · exact ended
  · exact failing _ ended rfl _
  · exact failing _ ended rfl _
  · exact failing _ ended rfl _
  · rename_i exc _ _ _
    split
    · rename_i http
      refine failing _ ended ?_ _
      unfold PyExn.failsRefresh
      split <;> first | rfl | exact http
    · exact ended.1

/-- Step 7. -/
theorem wp_refreshIfStale_saving (ready : Ready account tr) :
    wp (broker lib svc lossy) (savingRole lib svc) (refreshIfStale lib svc account start)
      (fun r tr => calmPost r tr ∧ (r = .ok (.ok none) → Ready account tr)) tr := by
  have skipped : ∀ ext : Trace BrokerSig, (∀ e ∈ ext, e.op.isIdle = true) →
      calmPost (.ok (.ok none) : Except PyExn (Except InvokeOutcome (Option Str))) (tr ++ ext) ∧
        ((.ok (.ok none) : Except PyExn (Except InvokeOutcome (Option Str))) = .ok (.ok none) →
          Ready account (tr ++ ext)) := fun _ idle =>
    ⟨(ready.append idle).calm, fun _ => ready.append idle⟩
  unfold refreshIfStale
  split
  · have done := skipped [] (by simp)
    rwa [List.append_nil] at done
  · refine ⟨trivial, fun a may _ => ?_⟩
    obtain ⟨now, rfl⟩ := may_sync rfl may
    have read : Ready account (tr ++ [⟨.clock, .ok now⟩]) := ready.append (by simp [Op.isIdle])
    show wp _ _ (if _ then _ else _) _ _
    split
    · split
      · show wp _ _ (refreshOrOutcome lib svc account start >>= _) _ _
        rw [wp_bind]
        refine wp_mono (wp_refreshOrOutcome_saving read) fun r tr' _ ended => ?_
        rcases r with x | outcome | accessToken
        · exact ⟨ended, by simp⟩
        · exact ⟨ended, by simp⟩
        · exact ⟨ended, by simp⟩
      · refine ⟨trivial, fun a may _ => ?_⟩
        obtain ⟨now', rfl⟩ := may_sync rfl may
        rw [List.append_assoc]
        show wp _ _ (if _ then _ else _) _ _
        split
        · refine wp_mono (ready.append (by simp [Op.isIdle])).calm.refused ?_
          rintro r tr' - ⟨o, rfl, calm⟩
          exact ⟨calm, by simp⟩
        · exact skipped _ (by simp [Op.isIdle])
    · exact skipped _ (by simp [Op.isIdle])

/-- Steps 7 and 8. -/
theorem wp_obtainCredential_saving (ready : Ready account tr) :
    wp (broker lib svc lossy) (savingRole lib svc) (obtainCredential lib svc account start)
      (fun r tr => calmPost r tr ∧
        ∀ accessToken, r = .ok (.ok (accessToken, false)) → Ready account tr) tr := by
  unfold obtainCredential
  rw [wp_bind]
  refine wp_mono (wp_refreshIfStale_saving ready) fun r tr' _ ended => ?_
  obtain ⟨calm, unrefreshed⟩ := ended
  rcases r with x | outcome | _ | accessToken
  · exact ⟨calm, by simp⟩
  · exact ⟨calm, by simp⟩
  · show wp _ _ (decryptStored account start >>= _) _ _
    rw [wp_bind]
    refine wp_local decryptStored_local fun r ext idle => ?_
    have ready := (unrefreshed rfl).append idle
    rcases r with x | outcome | accessToken
    · exact ⟨ready.noAdd, by simp⟩
    · exact ⟨ready.calm, by simp⟩
    · exact ⟨ready.calm, fun _ _ => ready⟩
  · exact ⟨calm, by simp⟩

/-- One round, and what is left to the next. -/
theorem wp_providerRound_saving {refreshed : Bool} {accessToken : Str}
    (next : refreshed = false → ∀ accessToken tr', Calm tr' →
      wp (broker lib svc lossy) (savingRole lib svc)
        (providerRounds lib svc req grant tokenHash account tool start true accessToken)
        calmPost tr')
    (calm : Calm tr) (ready : refreshed = false → Ready account tr) :
    wp (broker lib svc lossy) (savingRole lib svc)
      (providerRounds lib svc req grant tokenHash account tool start refreshed accessToken)
      calmPost tr := by
  rw [providerRounds, wp_bind, wp_attempt]
  refine wp_local callProvider_local fun r ext idle => ?_
  have calm := calm.append idle
  rw [Post.next_ok]
  split
  · exact calm.calmPost succeeded_local
  · split
    · rename_i again
      have ready := (ready again.2.1).append idle
      show wp _ _ (refreshOrOutcome lib svc account start >>= _) _ _
      rw [wp_bind]
      refine wp_mono (wp_refreshOrOutcome_saving ready) fun r tr' _ ended => ?_
      rcases r with x | outcome | accessToken
      · exact ended
      · exact ended
      · show wp _ _ (isRevokedNow svc grant tokenHash >>= _) _ _
        rw [wp_bind]
        refine wp_idle isRevokedNow_idle fun r ext idle => ?_
        have calm := Calm.append ended idle
        rcases r with x | _ | _
        · exact calm.noAdd
        · exact next again.2.1 accessToken _ calm
        · exact calm.calmPost refused_local
    · exact calm.calmPost refused_local
  · exact calm.calmPost refused_local
  · exact calm.calmPost refused_local
  · exact calm.calmPost refused_local
  · exact calm.calmPost refused_local
  · exact calm.noAdd

/-- Step 10. -/
theorem wp_providerRounds_saving {refreshed : Bool} {accessToken : Str} (calm : Calm tr)
    (ready : refreshed = false → Ready account tr) :
    wp (broker lib svc lossy) (savingRole lib svc)
      (providerRounds lib svc req grant tokenHash account tool start refreshed accessToken)
      calmPost tr :=
  wp_providerRound_saving (fun _ accessToken tr' calm' =>
    wp_providerRound_saving (by simp) calm' (by simp)) calm ready

/-- Nothing was loaded yet. -/
theorem calm_of_idle (idle : ∀ e ∈ tr, e.op.isIdle = true) : Calm tr where
  noAdd := fun e member => Op.isAdd_of_isIdle (idle e member)
  state := by
    have held : (Session.replay ([] ++ tr)).account = (Session.replay []).account :=
      (Session.replay_idle idle).1
    rw [List.nil_append] at held
    refine .inl fun stored assigned loaded => ?_
    rw [held] at loaded
    cases loaded

theorem ready_of_load (idle : ∀ e ∈ tr, e.op.isIdle = true) (id : Uuid) :
    Ready account (tr ++ [⟨.query (.accountById id), .ok (some account)⟩]) where
  loaded := ⟨id, by simp⟩
  session := by simp [Session.note]
  unsaved := List.forall_mem_append.mpr
    ⟨fun e member => Op.saves_of_isIdle (idle e member), by simp [Op.saves]⟩
  noAdd := List.forall_mem_append.mpr
    ⟨fun e member => Op.isAdd_of_isIdle (idle e member), by simp [Op.isAdd]⟩

/-- `_execute_call`. -/
theorem wp_executeCall_saving (idle : ∀ e ∈ tr, e.op.isIdle = true) :
    wp (broker lib svc lossy) (savingRole lib svc)
      (executeCall lib svc req grant tokenHash tool start) calmPost tr := by
  refine ⟨idle, fun a _ _ => ?_⟩
  have noAdd : ∀ a, NoAdd (tr ++ [⟨.query (.accountById grant.connectedAccountId), a⟩]) := fun a =>
    (calm_of_idle idle).noAdd.append (by simp [Op.isAdd])
  rcases a with x | _ | account
  · exact noAdd _
  · refine Calm.calmPost ⟨noAdd _, .inl fun stored assigned loaded => ?_⟩ refused_local
    simp [Session.note] at loaded
  · show wp _ _ (obtainCredential lib svc account start >>= _) _ _
    rw [wp_bind]
    refine wp_mono (wp_obtainCredential_saving (ready_of_load idle _)) fun r tr' _ ended => ?_
    obtain ⟨calm, unrefreshed⟩ := ended
    rcases r with x | outcome | ⟨accessToken, refreshed⟩
    · exact calm
    · exact calm
    · show wp _ _ (isRevokedNow svc grant tokenHash >>= _) _ _
      rw [wp_bind]
      refine wp_idle isRevokedNow_idle fun r ext idle => ?_
      have calm := Calm.append calm idle
      rcases r with x | _ | _
      · exact calm.noAdd
      · refine wp_providerRounds_saving calm ?_
        rintro rfl
        exact (unrefreshed accessToken rfl).append idle
      · exact calm.calmPost refused_local

/-- The call under a reservation. -/
theorem wp_executeReserved_saving {store : IdempotencyStore} {key reservation : Str}
    (idle : ∀ e ∈ tr, e.op.isIdle = true) :
    wp (broker lib svc lossy) (savingRole lib svc)
      (executeReserved lib svc req grant tokenHash tool start store key reservation)
      calmPost tr := by
  unfold executeReserved
  rw [wp_bind, wp_attempt]
  refine wp_mono (wp_executeCall_saving idle) fun r tr' _ ended => ?_
  rw [Post.next_ok]
  rcases r with x | outcome
  · have noAdd : ∀ {ext : Trace BrokerSig}, (∀ e ∈ ext, e.op.isIdle = true) → NoAdd (tr' ++ ext) :=
      fun idle => NoAdd.append ended fun e member => Op.isAdd_of_isIdle (idle e member)
    show wp _ _ (if _ then _ else _) _ _
    split
    · rw [wp_bind]
      refine wp_local release_local fun r ext idle => ?_
      cases r <;> exact noAdd idle
    · exact ended
  · show wp _ _ (settle store key reservation outcome >>= _) _ _
    rw [wp_bind]
    refine wp_local settle_local fun r ext idle => ?_
    have calm := Calm.append ended idle
    cases r with
    | ok _ => exact calm
    | error x => exact calm.noAdd

/-- `_invoke_resolved`. -/
theorem wp_invokeResolved_saving {fastRevoked : Bool} (idle : ∀ e ∈ tr, e.op.isIdle = true) :
    wp (broker lib svc lossy) (savingRole lib svc)
      (invokeResolved lib svc req grant tokenHash start fastRevoked) calmPost tr := by
  unfold invokeResolved
  split
  · exact (calm_of_idle idle).calmPost refused_local
  · refine ⟨trivial, fun a may _ => ?_⟩
    obtain ⟨now, rfl⟩ := may_sync rfl may
    have idle : ∀ e ∈ tr ++ [⟨.clock, .ok now⟩], e.op.isIdle = true :=
      List.forall_mem_append.mpr ⟨idle, by simp [Op.isIdle]⟩
    show wp _ _ (if _ then _ else _) _ _
    split
    · exact (calm_of_idle idle).calmPost refused_local
    · rw [wp_bind]
      refine wp_local checkInvokeRate_local fun r ext paced => ?_
      have idle := List.forall_mem_append.mpr ⟨idle, paced⟩
      rcases r with x | allowed
      · exact (calm_of_idle idle).noAdd
      · show wp _ _ (if _ then _ else _) _ _
        split
        · exact (calm_of_idle idle).calmPost refused_local
        · split
          · exact (calm_of_idle idle).calmPost refused_local
          · exact (calm_of_idle idle).noAdd
          · split
            · exact (calm_of_idle idle).calmPost refused_local
            · split
              · rw [wp_bind]
                refine wp_local claimKey_local fun r ext claimed => ?_
                have idle := List.forall_mem_append.mpr ⟨idle, claimed⟩
                rcases r with x | outcome | reservation
                · exact (calm_of_idle idle).noAdd
                · exact calm_of_idle idle
                · exact wp_executeReserved_saving idle
              · exact wp_executeCall_saving idle

/-- After the backstop nothing is left of an invocation that raised. -/
theorem wp_invokeAudited_saving {fastRevoked : Bool} (idle : ∀ e ∈ tr, e.op.isIdle = true) :
    wp (broker lib svc lossy) (savingRole lib svc)
      (invokeAudited lib svc req grant tokenHash start fastRevoked) calmPost tr := by
  unfold invokeAudited
  rw [wp_bind, wp_attempt]
  refine wp_mono (wp_invokeResolved_saving idle) fun r tr' _ ended => ?_
  rw [Post.next_ok]
  rcases r with x | outcome
  · show wp _ _ (if _ then _ else _) _ _
    split
    · refine ⟨trivial, fun a _ _ => ?_⟩
      have noAdd : NoAdd (tr' ++ [⟨.rollback, a⟩]) := NoAdd.append ended (by simp [Op.isAdd])
      cases a with
      | ok _ => exact Calm.calmPost ⟨noAdd, .inl clean_rollback⟩ refused_local
      | error y => exact noAdd
    · exact ended
  · exact ended

/-- Adding a row leaves the account as it is. -/
theorem Calm.audit (calm : Calm tr) {row : Row} (a : BrokerSig.Ans (.add row)) :
    Saving lib svc (tr ++ [⟨.add row, a⟩]) := by
  refine .audit (fun noAdd => ?_) ?_
  · cases noAdd ⟨.add row, a⟩ (by simp)
  · rcases calm.state with clean | ⟨blob, head, value, x, mid, fails, rfl, open_⟩ | stuck
    · exact .inl fun stored assigned held => clean stored assigned (by
        rwa [Session.replay_append_singleton] at held)
    · refine .inr (.inl ⟨blob, head, value, x, mid ++ [⟨.add row, a⟩], fails, by simp, ?_⟩)
      exact List.forall_mem_append.mpr ⟨open_, by simp [Op.endsTransaction]⟩
    · refine .inr (.inr ?_)
      rw [Stuck, Session.replay_append_singleton]
      exact stuck

/-- The audit row, and what its commit writes besides. -/
theorem wp_invokeGranted_saving (idle : ∀ e ∈ tr, e.op.isIdle = true) :
    wp (broker lib svc lossy) (savingRole lib svc) (invokeGranted lib svc req start)
      (fun _ _ => True) tr := by
  unfold invokeGranted
  rw [wp_bind]
  refine wp_local markedRevoked_local fun r ext marked => ?_
  have idle := List.forall_mem_append.mpr ⟨idle, marked⟩
  rcases r with x | fastRevoked
  · trivial
  · refine ⟨trivial, fun a _ _ => ?_⟩
    have idle : ∀ e ∈ tr ++ ext ++ [⟨.query (.grantByTokenHash (hashToken lib req.grantToken)), a⟩],
        e.op.isIdle = true := List.forall_mem_append.mpr ⟨idle, by simp [Op.isIdle]⟩
    rcases a with x | _ | grant
    · trivial
    · exact wp_mono ((calm_of_idle idle).idle refused_local) fun _ _ _ _ => trivial
    · show wp _ _ (invokeAudited lib svc req grant _ start fastRevoked >>= _) _ _
      rw [wp_bind]
      refine wp_mono (wp_invokeAudited_saving idle) fun r tr' _ ended => ?_
      rcases r with x | outcome
      · trivial
      · refine ⟨trivial, fun a may _ => ?_⟩
        obtain ⟨⟨⟩, rfl⟩ := may_sync rfl may
        refine ⟨Calm.audit ended _, fun a _ _ => ?_⟩
        cases a <;> trivial

/-- `invoke`: what each of its commits saves. -/
theorem wp_invoke_saving :
    wp (broker lib svc lossy) (savingRole lib svc) (invoke lib svc req) (fun _ _ => True) [] := by
  refine ⟨trivial, fun a may _ => ?_⟩
  obtain ⟨start, rfl⟩ := may_sync rfl may
  show wp _ _ ((verifyGrantToken lib svc req.grantToken).attempt >>= _) _ _
  rw [wp_bind, wp_attempt]
  refine wp_local verifyGrantToken_local fun r ext verified => ?_
  have idle : ∀ e ∈ [] ++ [⟨.clock, .ok start⟩] ++ ext, e.op.isIdle = true :=
    List.forall_mem_append.mpr ⟨by simp [Op.isIdle], verified⟩
  have refusing : ∀ error reason, wp (broker lib svc lossy) (savingRole lib svc)
      (denied start error reason) (fun _ _ => True) ([] ++ [⟨.clock, .ok start⟩] ++ ext) :=
    fun _ _ => wp_mono ((calm_of_idle idle).idle refused_local) fun _ _ _ _ => trivial
  rw [Post.next_ok]
  split
  · exact refusing _ _
  · exact refusing _ _
  · trivial
  · split
    · exact refusing _ _
    · refine wp_withSession (fun _ => trivial) (wp_mono (wp_invokeGranted_saving idle) ?_)
      exact fun _ _ _ _ _ _ => trivial

end Walk

end Rules

end CredBroker
