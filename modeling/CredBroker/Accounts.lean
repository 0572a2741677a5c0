import CredBroker.Demo
import CredBroker.Invocation.Refresh

/-!
# Connected accounts

What invocations write to the rows of connected accounts: a refreshed credential
as a whole, and what a failed refresh leaves to the commit of the audit row.
-/

namespace CredBroker

open Python Interaction

variable {lib : Lib} {svc : Services} {lossy : Bool}

/-! ## Updates -/

/-- The `UPDATE`s that an event commits. -/
def updated (past : Trace BrokerSig) : Event BrokerSig → List (Uuid × Attr)
  | ⟨.commit, a⟩ => if Applied a then (Session.replay past).updates else []
  | _ => []

/-- The `UPDATE`s that program `i` commits. -/
def updatesBy (i : Nat) (hist : List (Entry BrokerSig World)) : List (Uuid × Attr) :=
  (hist.filter (·.tid = i)).flatMap fun e => updated e.past e.event

/-- The `UPDATE`s that turn the row `account` into `account'`. -/
def changes (account account' : ConnectedAccount) : List (Uuid × Attr) :=
  (Session.accountChanges account account').map (account.id, ·)

/-- The row is loaded, and a token endpoint's credential is assigned to it. -/
def Renewed (lib : Lib) (svc : Services) (account account' : ConnectedAccount)
    (response : HttpResponse) (tr : Trace BrokerSig) : Prop :=
  ∃ base events, tr = base ++ events ∧ Ready account base ∧
    Renewal lib svc account account' response events

/-- `_refresh_credential` is all or nothing: once its commit succeeded, the
invocation has written the credential that the endpoint returned, and nothing else;
without such a commit it has written nothing. -/
structure AllOrNothing (lib : Lib) (svc : Services) (tr : Trace BrokerSig)
    (updates : List (Uuid × Attr)) : Prop where
  renewed : ∀ pre, pre ++ [⟨.commit, .ok ()⟩] <+: tr → NoAdd pre →
    ∃ account account' response, Renewed lib svc account account' response pre ∧
      updates = changes account account'
  untouched : (∀ pre, pre ++ [⟨.commit, .ok ()⟩] <+: tr → ¬ NoAdd pre) → updates = []

/-- A commit takes effect after the new access token was assigned and the rotated
refresh token failed to be encrypted. -/
def Spilled (tr : Trace BrokerSig) : Prop :=
  ∃ pre a blob head id account, pre ++ [⟨.commit, a⟩] <+: tr ∧ Applied a = true ∧
    Torn blob head pre ∧ ⟨.query (.accountById id), .ok (some account)⟩ ∈ head ∧
    blob ≠ account.encryptedAccessToken

/-- The commit of a refresh raises, though it took effect. -/
def Unacknowledged (tr : Trace BrokerSig) : Prop :=
  ∃ pre x id account attr, pre ++ [⟨.commit, .error x⟩] <+: tr ∧
    Applied (.error x : BrokerSig.Ans .commit) = true ∧ NoAdd pre ∧
    ⟨.query (.accountById id), .ok (some account)⟩ ∈ pre ∧ ⟨.setAccount attr, .ok ()⟩ ∈ pre ∧
    account.set attr ≠ account

namespace Session

theorem accountChanges_eq_nil {stored assigned : ConnectedAccount} :
    accountChanges stored assigned = [] ↔
      assigned.encryptedAccessToken = stored.encryptedAccessToken ∧
        assigned.encryptedRefreshToken = stored.encryptedRefreshToken ∧
        assigned.expiresAt = stored.expiresAt := by
  simp only [accountChanges, List.append_eq_nil_iff]
  constructor
  · rintro ⟨⟨access, refresh⟩, expires⟩
    refine ⟨?_, ?_, ?_⟩
    · by_contra ne
      simp [ne] at access
    · by_contra ne
      simp [ne] at refresh
    · by_contra ne
      simp [ne] at expires
  · rintro ⟨access, refresh, expires⟩
    simp [access, refresh, expires]

theorem replay_assign {tr : Trace BrokerSig} {stored assigned : ConnectedAccount}
    (held : (replay tr).account = some (stored, assigned)) (attr : Attr)
    (a : BrokerSig.Ans (.setAccount attr)) :
    (replay (tr ++ [⟨.setAccount attr, a⟩])).account = some (stored, assigned.set attr) := by
  rw [replay_append_singleton]
  simp only [note, held, Option.map_some]

/-- Without an assignment to a grant no update of one is flushed. -/
theorem updates_of_grants {tr : Trace BrokerSig}
    (unset : ∀ e ∈ tr, ∀ attr, e.op ≠ .setGrant attr) :
    (replay tr).updates = (replay tr).account.elim [] fun row => changes row.1 row.2 := by
  suffices same : ∀ g g', (replay tr).grant = some (g, g') → g' = g by
    unfold updates
    cases loaded : (replay tr).grant with
    | none => cases (replay tr).account <;> simp [changes]
    | some pair =>
      obtain ⟨g, g'⟩ := pair
      cases (replay tr).account <;> simp [changes, grantChanges, same g g' loaded]
  induction tr using List.reverseRecOn with
  | nil => intro g g' loaded; simp [new] at loaded
  | append_singleton tr e ih =>
    have ih := ih fun e member => unset e (List.mem_append_left _ member)
    have unset := unset e (by simp)
    rw [replay_append_singleton]
    intro g g' loaded
    obtain ⟨e, a⟩ := e
    cases e with
    | setGrant attr => exact (unset attr rfl).elim
    | query q =>
      rcases a with x | a
      · exact ih g g' (by cases q <;> exact loaded)
      · cases q with
        | grantById id =>
          cases a with
          | none => simp [note] at loaded
          | some grant =>
            simp only [note, Option.map_some, Option.some.injEq, Prod.mk.injEq] at loaded
            exact loaded.2.symm.trans loaded.1
        | agentForUpdate id => cases a <;> exact ih g g' loaded
        | _ => exact ih g g' loaded
    | commit =>
      cases a with
      | error x => exact ih g g' loaded
      | ok _ =>
        cases held : (replay tr).grant with
        | none => simp [note, held] at loaded
        | some pair =>
          simp only [note, held, Option.map_some, Option.some.injEq, Prod.mk.injEq] at loaded
          exact loaded.2.symm.trans loaded.1
    | rollback => cases a <;> first | exact ih g g' loaded | simp [note, new] at loaded
    | close => simp [note, new] at loaded
    | flush => cases a <;> exact ih g g' loaded
    | _ => exact ih g g' loaded

end Session

/-- Audit rows leave the accounts alone. -/
theorem Database.insertAll_accounts {rows : List Row} {db db' : Database}
    (audits : ∀ row ∈ rows, ∃ audit, row = .audit audit)
    (inserted : db.insertAll? rows = some db') :
    db'.accounts = db.accounts := by
  induction rows generalizing db with
  | nil =>
    obtain rfl := Option.some.inj inserted
    rfl
  | cons row rows ih =>
    obtain ⟨audit, rfl⟩ := audits row (List.mem_cons_self ..)
    rw [insertAll?] at inserted
    split at inserted
    · rw [ih (fun row member => audits row (List.mem_cons_of_mem _ member)) inserted]
      rfl
    · cases inserted

/-! ## What a refresh assigns -/

section Renewal

variable {account account' : ConnectedAccount} {response : HttpResponse}
  {base events tr : Trace BrokerSig}

/-- The row as assigned is the row with the changes. -/
theorem Renewal.applied (renewal : Renewal lib svc account account' response events) :
    (Session.accountChanges account account').foldl ConnectedAccount.set account = account' := by
  rw [renewal.rest_eq]
  simp only [Session.accountChanges]
  split_ifs <;> simp_all [ConnectedAccount.set]

/-- The session of a refresh holds the row as loaded, and as assigned. -/
theorem Renewal.session (ready : Ready account base)
    (renewal : Renewal lib svc account account' response events) :
    (Session.replay (base ++ events)).account = some (account, account') := by
  obtain ⟨blob, refreshToken, registers, accessToken, rotation, reading, -, -, registering,
    rotated, expiring, rfl⟩ := renewal.performed
  have encrypted : (Session.replay (base ++ ([⟨.decrypt blob, .ok refreshToken⟩,
      ⟨.tokenEndpoint (refreshForm svc.settings refreshToken), .ok response⟩] ++ registers ++
      [⟨.encrypt (.str accessToken), .ok account'.encryptedAccessToken⟩]))).account =
        some (account, account) := by
    refine (Session.replay_idle (List.forall_mem_append.mpr
      ⟨List.forall_mem_append.mpr ⟨by simp [Op.isIdle], fun e member => ?_⟩,
        by simp [Op.isIdle]⟩)).1.trans
      ready.session
    exact Op.isIdle_of_isRegister (registering e member)
  have access : (Session.replay (base ++ ([⟨.decrypt blob, .ok refreshToken⟩,
      ⟨.tokenEndpoint (refreshForm svc.settings refreshToken), .ok response⟩] ++ registers ++
      [⟨.encrypt (.str accessToken), .ok account'.encryptedAccessToken⟩]) ++
      [⟨.setAccount (.encryptedAccessToken account'.encryptedAccessToken), .ok ()⟩])).account =
        some (account, { account with encryptedAccessToken := account'.encryptedAccessToken }) :=
    Session.replay_assign encrypted _ _
  have rotate : (Session.replay (base ++ ([⟨.decrypt blob, .ok refreshToken⟩,
      ⟨.tokenEndpoint (refreshForm svc.settings refreshToken), .ok response⟩] ++ registers ++
      [⟨.encrypt (.str accessToken), .ok account'.encryptedAccessToken⟩]) ++
      [⟨.setAccount (.encryptedAccessToken account'.encryptedAccessToken), .ok ()⟩] ++
      rotation)).account = some (account, { account with
        encryptedAccessToken := account'.encryptedAccessToken
        encryptedRefreshToken := account'.encryptedRefreshToken }) := by
    cases rotated with
    | kept absent same =>
      rw [List.append_nil, access, same]
    | rotated blob' present stored =>
      have encrypting := (Session.replay_idle (show ∀ e ∈ ([⟨.encrypt (response.field
        "refresh_token"), .ok blob'⟩] : Trace BrokerSig), e.op.isIdle = true by
          simp [Op.isIdle])).1.trans access
      have assigned := Session.replay_assign encrypting (.encryptedRefreshToken (some blob'))
        (.ok ())
      rw [List.append_assoc] at assigned
      rw [stored]
      exact assigned
  have read : ∀ e ∈ reading, e.op.isIdle = true := by
    cases expiring <;> simp [Op.isIdle]
  have counted := Session.replay_assign ((Session.replay_idle read).1.trans rotate)
    (.expiresAt account'.expiresAt) (.ok ())
  rw [renewal.rest_eq]
  simp only [List.append_assoc, List.cons_append, List.nil_append] at counted ⊢
  exact counted

/-- The attributes that a refresh assigns. -/
theorem Renewal.assigned
    (renewal : Renewal lib svc account account' response events) {attr : Attr} :
    ⟨.setAccount attr, .ok ()⟩ ∈ events →
      attr = .encryptedAccessToken account'.encryptedAccessToken ∨
      attr = .encryptedRefreshToken account'.encryptedRefreshToken ∨
      attr = .expiresAt account'.expiresAt := by
  obtain ⟨blob, refreshToken, registers, accessToken, rotation, reading, -, -, registering,
    rotated, expiring, rfl⟩ := renewal.performed
  intro member
  simp only [List.mem_append, List.mem_cons, List.not_mem_nil, or_false, Event.mk.injEq,
    reduceCtorEq, false_and, false_or, Op.setAccount.injEq, heq_eq_eq, and_true] at member
  rcases member with ((((registered | rfl) | rotates) | reads) | rfl)
  · cases registering _ registered
  · exact .inl rfl
  · cases rotated with
    | kept => cases rotates
    | rotated blob' _ stored =>
      simp at rotates
      exact .inr (.inl (rotates ▸ by rw [stored]))
  · cases expiring <;> simp at reads
  · exact .inr (.inr rfl)

/-- What is not assigned differently is not changed. -/
theorem Renewal.unchanged (renewal : Renewal lib svc account account' response events)
    (same : ∀ attr, ⟨.setAccount attr, .ok ()⟩ ∈ events → account.set attr = account) :
    Session.accountChanges account account' = [] := by
  obtain ⟨blob, refreshToken, registers, accessToken, rotation, reading, -, -, registering,
    rotated, expiring, rfl⟩ := renewal.performed
  refine Session.accountChanges_eq_nil.mpr ⟨?_, ?_, ?_⟩
  · have access := same (.encryptedAccessToken account'.encryptedAccessToken) (by simp)
    simpa [ConnectedAccount.set] using congrArg ConnectedAccount.encryptedAccessToken access
  · cases rotated with
    | kept absent kept => exact kept
    | rotated blob' present stored =>
      rw [stored]
      have refresh := same (.encryptedRefreshToken (some blob')) (by simp)
      simpa [ConnectedAccount.set] using congrArg ConnectedAccount.encryptedRefreshToken refresh
  · have expires := same (.expiresAt account'.expiresAt) (by simp)
    simpa [ConnectedAccount.set] using congrArg ConnectedAccount.expiresAt expires

/-- And what is assigned differently is. -/
theorem Renewal.changed (renewal : Renewal lib svc account account' response events) {attr : Attr}
    (assigned : ⟨.setAccount attr, .ok ()⟩ ∈ events) (other : account.set attr ≠ account) :
    Session.accountChanges account account' ≠ [] := by
  intro none
  obtain ⟨access, refresh, expires⟩ := Session.accountChanges_eq_nil.mp none
  rcases renewal.assigned assigned with rfl | rfl | rfl
  · exact other (by rw [ConnectedAccount.set, access])
  · exact other (by rw [ConnectedAccount.set, refresh])
  · exact other (by rw [ConnectedAccount.set, expires])

/-- A refresh inserts nothing and commits nothing before its end, and no encryption in it failed. -/
theorem Renewal.unfinished (renewal : Renewal lib svc account account' response events) :
    Unfailed events ∧ ∀ e ∈ events, e.op ≠ .commit ∧ e.op.isAdd = false := by
  obtain ⟨blob, refreshToken, registers, accessToken, rotation, reading, -, -, registering,
    rotated, expiring, rfl⟩ := renewal.performed
  constructor
  · refine .append (.append (.append (.append (.append ?_ (unfailed_of_isRegister registering))
      ?_) ?_) ?_) ?_
    · simp [Unfailed]
    · simp [Unfailed]
    · cases rotated <;> simp [Unfailed]
    · cases expiring <;> simp [Unfailed]
    · simp [Unfailed]
  · simp only [List.forall_mem_append]
    refine ⟨⟨⟨⟨⟨by simp [Op.isAdd], fun e member => ?_⟩, by simp [Op.isAdd]⟩, ?_⟩, ?_⟩,
      by simp [Op.isAdd]⟩
    · have idle := Op.isIdle_of_isRegister (registering e member)
      exact ⟨Op.ne_commit_of_isIdle idle, Op.isAdd_of_isIdle idle⟩
    · cases rotated <;> simp [Op.isAdd]
    · cases expiring <;> simp [Op.isAdd]

theorem Renewed.noAdd (renewed : Renewed lib svc account account' response tr) : NoAdd tr := by
  obtain ⟨base, events, rfl, ready, renewal⟩ := renewed
  exact ready.noAdd.append fun e member => (renewal.unfinished.2 e member).2

theorem Renewed.uncommitted (renewed : Renewed lib svc account account' response tr) :
    ∀ e ∈ tr, e.op ≠ .commit := by
  obtain ⟨base, events, rfl, ready, renewal⟩ := renewed
  refine List.forall_mem_append.mpr ⟨fun e member commit => ?_,
    fun e member => (renewal.unfinished.2 e member).1⟩
  have unsaved := ready.unsaved e member
  rw [commit] at unsaved
  cases unsaved

end Renewal

/-- What follows the base of a torn refresh has the encryption that failed. -/
theorem Torn.not_unfailed {blob : Bytes} {head tr base events : Trace BrokerSig}
    (torn : Torn blob head tr) (split : tr = base ++ events)
    (unsaved : ∀ e ∈ base, e.op.saves = false) : ¬ Unfailed events := by
  obtain ⟨value, x, mid, -, rfl, -⟩ := torn.events
  rw [List.append_assoc] at split
  rcases List.append_eq_append_iff.mp split with ⟨ext, rfl, tail⟩ | ⟨ext, rfl, tail⟩
  · cases ext with
    | nil =>
      rw [List.nil_append] at tail
      exact fun unfailed => unfailed value x (by simp [← tail])
    | cons e ext =>
      obtain ⟨rfl, -⟩ : _ = e ∧ _ := by simpa using tail
      cases unsaved ⟨.setAccount (.encryptedAccessToken blob), .ok ()⟩ (by simp)
  · exact fun unfailed => unfailed value x (by simp [tail])

theorem Torn.not_renewed {blob : Bytes} {head tr : Trace BrokerSig} (torn : Torn blob head tr)
    {account account' : ConnectedAccount} {response : HttpResponse} :
    ¬ Renewed lib svc account account' response tr := by
  rintro ⟨base, events, split, ready, renewal⟩
  exact torn.not_unfailed split ready.unsaved renewal.unfinished.1

/-! ## Along a run -/

section Run

variable {w : World} {c : Broker} (run : (broker lib svc lossy).Reaches (.start w) c) {i : Nat}
  {t : Thread BrokerSig Request Response} (thread : c.threads[i]? = some t) {req : InvokeRequest}
  (request : t.req = .invoke req)

include run thread

omit request in
theorem updatesBy_eq : updatesBy i c.hist =
    (Trace.steps [] t.trace).flatMap fun step => updated step.1 step.2 := by
  rw [updatesBy, ← Machine.Reaches.performed run thread, performedBy, List.flatMap_map]

include request

/-- Every operation of an invocation met the guard of its session. -/
theorem kept_saving {pre : Trace BrokerSig} {ev : Event BrokerSig}
    (sub : pre ++ [ev] <+: t.trace) : savingGuard lib svc pre ev.op := by
  have entry : wp (broker lib svc lossy) (savingRole lib svc) (serve lib svc (.invoke req))
      (fun _ _ => True) [] := wp_map (wp_mono wp_invoke_saving fun _ _ _ _ => trivial)
  exact Machine.Reaches.kept run thread (request ▸ entry) (Role.met_guarding _ _) sub

/-- An invocation loads its account once. -/
theorem loaded_unique {id id' : Uuid} {account account' : Option ConnectedAccount}
    {pre pre' : Trace BrokerSig}
    (sub : pre ++ [⟨.query (.accountById id), .ok account⟩] <+: t.trace)
    (sub' : pre' ++ [⟨.query (.accountById id'), .ok account'⟩] <+: t.trace) :
    account = account' := by
  have first : ∀ {id id' : Uuid} {account account' : Option ConnectedAccount}
      {pre pre' : Trace BrokerSig},
      pre ++ [⟨.query (.accountById id), .ok account⟩] <+: t.trace →
      pre' ++ [⟨.query (.accountById id'), .ok account'⟩] <+: t.trace →
      pre'.length ≤ pre.length := by
    intro id id' account account' pre pre' sub sub'
    by_contra longer
    have idle := kept_saving run thread request sub'
    have earlier := List.prefix_of_prefix_length_le sub ((List.prefix_append _ _).trans sub')
      (by simp only [List.length_append, List.length_singleton]; omega)
    cases idle ⟨.query (.accountById id), .ok account⟩ (earlier.subset (by simp))
  have lengths := Nat.le_antisymm (first sub' sub) (first sub sub')
  have same := (List.prefix_of_prefix_length_le sub sub' (by simp [lengths])).eq_of_length
    (by simp [lengths])
  have equal := (List.append_inj' same rfl).2
  simp only [List.cons.injEq, and_true, Event.mk.injEq, Op.query.injEq, Query.accountById.injEq]
    at equal
  obtain ⟨rfl, equal⟩ := equal
  exact Except.ok.inj (eq_of_heq equal)

/-- A torn session holds the row as loaded, with the new access token assigned. -/
theorem torn_session {pre : Trace BrokerSig} {blob : Bytes} {head : Trace BrokerSig}
    (torn : Torn blob head pre) (sub : pre <+: t.trace) :
    ∃ account id, ⟨.query (.accountById id), .ok (some account)⟩ ∈ head ∧
      (Session.replay pre).account =
        some (account, { account with encryptedAccessToken := blob }) := by
  obtain ⟨value, x, mid, fails, rfl, open_⟩ := torn.events
  have first : head ++ [⟨.setAccount (.encryptedAccessToken blob), .ok ()⟩] <+: t.trace :=
    List.IsPrefix.trans ⟨⟨.encrypt value, .error x⟩ :: mid, by simp⟩ sub
  have assigning : savingGuard lib svc head (.setAccount (.encryptedAccessToken blob)) :=
    kept_saving run thread request first
  obtain ⟨account, base, events, rfl, ready, -, idle⟩ := assigning.refresh
  obtain ⟨id, loaded⟩ := ready.loaded
  refine ⟨account, id, List.mem_append_left _ loaded, ?_⟩
  have held := (Session.replay_idle (idle blob rfl)).1.trans ready.session
  have assigned := Session.replay_assign held (.encryptedAccessToken blob) (.ok ())
  have failed := (Session.replay_idle (show ∀ e ∈ ([⟨.encrypt value, .error x⟩] :
    Trace BrokerSig), e.op.isIdle = true by simp [Op.isIdle])).1.trans assigned
  clear torn
  induction mid using List.reverseRecOn with
  | nil =>
    rw [List.append_assoc] at failed
    rw [List.append_nil]
    exact failed
  | append_singleton mid e ih =>
    obtain ⟨before, last⟩ := List.forall_mem_append.mp open_
    rw [← List.append_assoc] at sub ⊢
    have torn : Torn blob (base ++ events) (base ++ events ++
        [⟨.setAccount (.encryptedAccessToken blob), .ok ()⟩, ⟨.encrypt value, .error x⟩] ++ mid) :=
      ⟨value, x, mid, fails, rfl, before⟩
    have guard := kept_saving run thread request sub
    rw [Session.replay_append_singleton, ← ih before ((List.prefix_append _ _).trans sub)]
    have last := last e (List.mem_singleton.mpr rfl)
    obtain ⟨e, a⟩ := e
    cases e with
    | setAccount attr =>
      obtain ⟨_, base', events', split, ready', unfailed, -⟩ := guard.refresh
      exact (torn.not_unfailed split ready'.unsaved unfailed).elim
    | query q =>
      cases q with
      | accountById id =>
        cases guard ⟨.setAccount (.encryptedAccessToken blob), .ok ()⟩ (by simp)
      | _ => exact (Session.note_idle _ rfl).1
    | commit | rollback | close => cases last
    | add row => rfl
    | _ => exact (Session.note_idle _ rfl).1

/-- No assignment to a grant. -/
theorem unset_of_invocation {pre : Trace BrokerSig} (sub : pre <+: t.trace) :
    ∀ e ∈ pre, ∀ attr, e.op ≠ .setGrant attr := by
  intro e member attr assigns
  obtain ⟨before, v, sub', -⟩ := entry_of_event run thread (sub.subset member)
  have guard := kept run thread sub'
  rw [request, assigns] at guard
  exact guard

/-- The updates of an invocation's session are those of its account. -/
theorem updates_of_invocation {pre : Trace BrokerSig} (sub : pre <+: t.trace)
    {stored assigned : ConnectedAccount}
    (held : (Session.replay pre).account = some (stored, assigned)) :
    (Session.replay pre).updates = changes stored assigned := by
  rw [Session.updates_of_grants (unset_of_invocation run thread request sub), held]
  rfl

/-- A commit over a torn session writes the new access token alone. -/
theorem updated_torn {pre head : Trace BrokerSig} {blob : Bytes} (torn : Torn blob head pre)
    {a : BrokerSig.Ans .commit} (sub : pre ++ [⟨.commit, a⟩] <+: t.trace) :
    ∃ account id, ⟨.query (.accountById id), .ok (some account)⟩ ∈ head ∧
      updated pre ⟨.commit, a⟩ = if Applied a
        then changes account { account with encryptedAccessToken := blob } else [] := by
  have sub := (List.prefix_append _ _).trans sub
  obtain ⟨account, id, loaded, held⟩ := torn_session run thread request torn sub
  exact ⟨account, id, loaded, by rw [updated, updates_of_invocation run thread request sub held]⟩

/-- What one commit of an invocation writes. -/
theorem updated_cases {pre : Trace BrokerSig} {a : BrokerSig.Ans .commit}
    (sub : pre ++ [⟨.commit, a⟩] <+: t.trace) :
    (∃ account account' response, Renewed lib svc account account' response pre ∧
      updated pre ⟨.commit, a⟩ = if Applied a then changes account account' else []) ∨
      ¬ NoAdd pre ∧ (updated pre ⟨.commit, a⟩ = [] ∨ ∃ blob head, Torn blob head pre) := by
  have sub' : pre <+: t.trace := (List.prefix_append _ _).trans sub
  cases kept_saving run thread request sub with
  | renewed account account' response base events ready renewal split =>
    refine .inl ⟨account, account', response, ⟨base, events, split, ready, renewal⟩, ?_⟩
    rw [updated, updates_of_invocation run thread request sub' (split ▸ renewal.session ready)]
  | audit added state =>
    refine .inr ⟨added, ?_⟩
    rcases state with clean | torn | stuck
    · refine .inl ?_
      rw [updated, Session.updates_of_grants (unset_of_invocation run thread request sub')]
      cases held : (Session.replay pre).account with
      | none => exact ite_self _
      | some row =>
        obtain ⟨stored, assigned⟩ := row
        obtain rfl := clean stored assigned held
        simp [changes, Session.accountChanges_eq_nil.mpr]
    · exact .inr torn
    · refine .inl ?_
      obtain ⟨v, entry⟩ := entry_at run thread sub
      have permits := entry_permitted run entry
      rw [updated, if_neg]
      intro applied
      simp [World.permits, applied, show (Session.replay pre).failed = true from stuck] at permits

/-- Where nothing was spilled and every commit acknowledged, only a refresh writes. -/
theorem updated_sound {pre : Trace BrokerSig} {a : BrokerSig.Ans .commit}
    (sub : pre ++ [⟨.commit, a⟩] <+: t.trace) (unspilled : ¬ Spilled t.trace)
    (acknowledged : ¬ Unacknowledged t.trace) :
    updated pre ⟨.commit, a⟩ = [] ∨ a = .ok () ∧ ∃ account account' response,
      Renewed lib svc account account' response pre ∧
        updated pre ⟨.commit, a⟩ = changes account account' := by
  rcases updated_cases run thread request sub with
    ⟨account, account', response, renewed, written⟩ | ⟨-, nothing | ⟨blob, head, torn⟩⟩
  · cases a with
    | ok _ => exact .inr ⟨rfl, account, account', response, renewed, written⟩
    | error x =>
      refine .inl ?_
      rw [written]
      split
      · rename_i applied
        have noAdd := renewed.noAdd
        obtain ⟨base, events, rfl, ready, renewal⟩ := renewed
        obtain ⟨id, loaded⟩ := ready.loaded
        rw [changes, renewal.unchanged fun attr assigned => ?_]
        · rfl
        · by_contra other
          exact acknowledged ⟨_, x, id, account, attr, sub, applied, noAdd,
            List.mem_append_left _ loaded, List.mem_append_right _ assigned, other⟩
      · rfl
  · exact .inl nothing
  · refine .inl ?_
    obtain ⟨account, id, loaded, written⟩ := updated_torn run thread request torn sub
    rw [written]
    split
    · rename_i applied
      have same : blob = account.encryptedAccessToken := by
        by_contra other
        exact unspilled ⟨pre, a, blob, head, id, account, sub, applied, torn, loaded, other⟩
      simp [changes, Session.accountChanges_eq_nil.mpr, same]
    · rfl

omit run thread request in
/-- There is one first commit only. -/
theorem first_commit {tr pre pre' : Trace BrokerSig} {a a' : BrokerSig.Ans .commit}
    (sub : pre ++ [⟨.commit, a⟩] <+: tr) (sub' : pre' ++ [⟨.commit, a'⟩] <+: tr)
    (first : ∀ e ∈ pre, e.op ≠ .commit) (first' : ∀ e ∈ pre', e.op ≠ .commit) :
    pre = pre' ∧ a = a' := by
  have le : ∀ {pre pre' : Trace BrokerSig} {a a' : BrokerSig.Ans .commit},
      pre ++ [⟨.commit, a⟩] <+: tr → pre' ++ [⟨.commit, a'⟩] <+: tr →
      (∀ e ∈ pre', e.op ≠ .commit) → pre'.length ≤ pre.length := by
    intro pre pre' a a' sub sub' first'
    by_contra longer
    have earlier := List.prefix_of_prefix_length_le sub ((List.prefix_append _ _).trans sub')
      (by simp only [List.length_append, List.length_singleton]; omega)
    exact first' ⟨.commit, a⟩ (earlier.subset (by simp)) rfl
  have lengths := Nat.le_antisymm (le sub' sub first) (le sub sub' first')
  have same := (List.prefix_of_prefix_length_le sub sub' (by simp [lengths])).eq_of_length
    (by simp [lengths])
  obtain ⟨rfl, events⟩ := List.append_inj' same rfl
  simp only [List.cons.injEq, and_true, Event.mk.injEq, heq_eq_eq, true_and] at events
  exact ⟨rfl, events⟩

/-- A torn refresh has committed nothing. -/
theorem torn_uncommitted {pre head : Trace BrokerSig} {blob : Bytes} (torn : Torn blob head pre)
    (sub : pre <+: t.trace) : ∀ e ∈ pre, e.op ≠ .commit := by
  obtain ⟨value, x, mid, fails, rfl, open_⟩ := torn.events
  have first : head ++ [⟨.setAccount (.encryptedAccessToken blob), .ok ()⟩] <+: t.trace :=
    List.IsPrefix.trans ⟨⟨.encrypt value, .error x⟩ :: mid, by simp⟩ sub
  have assigning : savingGuard lib svc head (.setAccount (.encryptedAccessToken blob)) :=
    kept_saving run thread request first
  obtain ⟨account, base, events, rfl, ready, -, idle⟩ := assigning.refresh
  refine List.forall_mem_append.mpr ⟨List.forall_mem_append.mpr ⟨List.forall_mem_append.mpr
    ⟨fun e member commit => ?_, fun e member => Op.ne_commit_of_isIdle (idle blob rfl e member)⟩,
    by simp⟩, fun e member commit => ?_⟩
  · have unsaved := ready.unsaved e member
    rw [commit] at unsaved
    cases unsaved
  · have open_ := open_ e member
    rw [commit] at open_
    cases open_

/-- Along its trace, what an invocation writes is what its one refresh commits. -/
theorem updates_renewed {pre : Trace BrokerSig} (sub : pre ++ [⟨.commit, .ok ()⟩] <+: t.trace)
    (first : ∀ e ∈ pre, e.op ≠ .commit) (unspilled : ¬ Spilled t.trace)
    (acknowledged : ¬ Unacknowledged t.trace) :
    updatesBy i c.hist = updated pre ⟨.commit, .ok ()⟩ := by
  obtain ⟨post, cut⟩ := sub
  have before : (Trace.steps [] pre).flatMap (fun step => updated step.1 step.2) = [] := by
    refine List.flatMap_eq_nil_iff.mpr fun ⟨past, e⟩ member => ?_
    obtain ⟨mid, rfl, inside⟩ := Trace.mem_steps member
    have other := first e (inside.subset (by simp))
    obtain ⟨e, a⟩ := e
    cases e <;> first | rfl | exact (other rfl).elim
  have after : (Trace.steps (pre ++ [⟨.commit, .ok ()⟩]) post).flatMap
      (fun step => updated step.1 step.2) = [] := by
    refine List.flatMap_eq_nil_iff.mpr fun ⟨past, e⟩ member => ?_
    obtain ⟨mid, rfl, inside⟩ := Trace.mem_steps member
    obtain ⟨e, a⟩ := e
    cases e with
    | commit =>
      have sub : pre ++ [⟨.commit, .ok ()⟩] ++ mid ++ [⟨.commit, a⟩] <+: t.trace := by
        obtain ⟨rest, rfl⟩ := inside
        exact ⟨rest, by simp [← cut]⟩
      rcases updated_sound run thread request sub unspilled acknowledged with
        nothing | ⟨-, account, account', response, renewed, -⟩
      · exact nothing
      · exact (renewed.uncommitted ⟨.commit, .ok ()⟩ (by simp) rfl).elim
    | _ => rfl
  rw [updatesBy_eq run thread, ← cut, Trace.steps_append, Trace.steps_append, List.flatMap_append,
    List.flatMap_append, before]
  simp only [List.nil_append]
  rw [after]
  simp [Trace.steps]

omit request in
/-- A commit that writes something leaves the invocation with something written. -/
theorem updates_ne_nil {pre : Trace BrokerSig} {a : BrokerSig.Ans .commit}
    (sub : pre ++ [⟨.commit, a⟩] <+: t.trace) (written : updated pre ⟨.commit, a⟩ ≠ []) :
    updatesBy i c.hist ≠ [] := by
  obtain ⟨v, entry⟩ := entry_at run thread sub
  intro none
  exact written (List.flatMap_eq_nil_iff.mp none _ (List.mem_filter.mpr ⟨entry, by simp⟩))

/-- An invocation inserts no account, so an event leaves the accounts as its updates do. -/
theorem accounts_updated {e : Entry BrokerSig World} (member : e ∈ c.hist) (mine : e.tid = i) :
    (e.pre.after e.past e.event).db.accounts =
      ((updated e.past e.event).foldl (fun db u => db.update u.1 u.2) e.pre.db).accounts := by
  obtain ⟨u, thread', sub, -⟩ := entry_kept run member
  rw [mine] at thread'
  obtain rfl := Option.some.inj (thread.symm.trans thread')
  have permits := entry_permitted run member
  obtain ⟨j, v, past, e, a⟩ := e
  by_cases commit : e = .commit
  · subst commit
    cases applied : Applied a with
    | false => simp [World.after, updated, applied]
    | true =>
      simp only [World.permits, applied, Bool.not_true, Bool.false_or, Bool.and_eq_true] at permits
      obtain ⟨db', written⟩ := Option.isSome_iff_exists.mp permits.2
      have audits : ∀ row ∈ (Session.replay past).added, ∃ audit, row = .audit audit := by
        intro row added
        obtain ⟨pre, b, sub'⟩ := Session.mem_replay_added added
        have guard := kept run thread (sub'.trans ((List.prefix_append _ _).trans sub))
        rw [request] at guard
        exact guard
      simp only [World.after, updated, applied, if_true, World.unlock_db, written, Option.getD_some]
      exact Database.insertAll_accounts audits written
  · rw [(v.after_framed past ⟨e, a⟩).db commit]
    cases e <;> first | rfl | exact (commit rfl).elim

end Run

/-! ## The refresh of an invocation -/

/-- Whatever fails inside `_refresh_credential`, it is all or nothing exactly if no
later commit takes a half-assigned credential along and its own commit is not
reported as failed after it took effect; and the accounts follow what is written. -/
theorem refresh_atomic_iff {w : World} {c : Broker}
    (run : (broker lib svc lossy).Reaches (.start w) c) {i : Nat}
    {t : Thread BrokerSig Request Response} (thread : c.threads[i]? = some t) {req : InvokeRequest}
    (request : t.req = .invoke req) :
    (AllOrNothing lib svc t.trace (updatesBy i c.hist) ↔
      ¬ (Spilled t.trace ∨ Unacknowledged t.trace)) ∧
      ∀ e ∈ c.hist, e.tid = i → (e.pre.after e.past e.event).db.accounts =
        ((updated e.past e.event).foldl (fun db u => db.update u.1 u.2) e.pre.db).accounts := by
  refine ⟨⟨?_, ?_⟩, fun e => accounts_updated run thread request⟩
  · rintro atomic (⟨pre, a, blob, head, id, account, sub, applied, torn, loaded, other⟩ |
      ⟨pre, x, id, account, attr, sub, applied, noAdd, loaded, assigned, other⟩)
    · obtain ⟨account', id', loaded', written⟩ := updated_torn run thread request torn sub
      have sub' : pre <+: t.trace := (List.prefix_append _ _).trans sub
      have uncommitted := torn_uncommitted run thread request torn sub'
      have within : head <+: t.trace := by
        obtain ⟨value, x, mid, -, rfl, -⟩ := torn.events
        exact List.IsPrefix.trans ⟨_, by rw [List.append_assoc]⟩ sub'
      obtain ⟨before, v, at_, -⟩ := entry_of_event run thread (within.subset loaded)
      obtain ⟨before', v', at_', -⟩ := entry_of_event run thread (within.subset loaded')
      obtain rfl := Option.some.inj (loaded_unique run thread request at_ at_')
      refine updates_ne_nil run thread sub ?_ (atomic.untouched fun pre' sub'' noAdd => ?_)
      · simp [written, applied, changes, Session.accountChanges_eq_nil, other]
      · rcases updated_cases run thread request sub'' with
          ⟨_, _, _, renewed, -⟩ | ⟨added, -⟩
        · obtain ⟨rfl, -⟩ := first_commit sub sub'' uncommitted renewed.uncommitted
          exact torn.not_renewed renewed
        · exact added noAdd
    · rcases updated_cases run thread request sub with
        ⟨account₁, account', response, renewed, written⟩ | ⟨added, -⟩
      · refine updates_ne_nil run thread sub ?_ (atomic.untouched fun pre' sub' noAdd' => ?_)
        · have first := renewed
          obtain ⟨base, events, rfl, ready, renewal⟩ := first
          obtain ⟨id', loaded'⟩ := ready.loaded
          have sub' : base ++ events <+: t.trace := (List.prefix_append _ _).trans sub
          obtain ⟨before, v, at_, -⟩ := entry_of_event run thread (sub'.subset loaded)
          obtain ⟨before', v', at_', -⟩ :=
            entry_of_event run thread (sub'.subset (List.mem_append_left _ loaded'))
          obtain rfl := Option.some.inj (loaded_unique run thread request at_ at_')
          have inside : ⟨.setAccount attr, .ok ()⟩ ∈ events := by
            rcases List.mem_append.mp assigned with early | late
            · cases ready.unsaved _ early
            · exact late
          simp [written, applied, changes, renewal.changed inside other]
        · rcases updated_cases run thread request sub' with
            ⟨_, _, _, renewed', -⟩ | ⟨added, -⟩
          · obtain ⟨rfl, same⟩ := first_commit sub sub' renewed.uncommitted renewed'.uncommitted
            cases same
          · exact added noAdd'
      · exact added noAdd
  · intro sound
    obtain ⟨unspilled, acknowledged⟩ := not_or.mp sound
    constructor
    · intro pre sub noAdd
      rcases updated_cases run thread request sub with
        ⟨account, account', response, renewed, written⟩ | ⟨added, -⟩
      · refine ⟨account, account', response, renewed, ?_⟩
        rw [updates_renewed run thread request sub renewed.uncommitted unspilled acknowledged,
          written]
        rfl
      · exact (added noAdd).elim
    · intro unrefreshed
      rw [updatesBy_eq run thread]
      refine List.flatMap_eq_nil_iff.mpr fun ⟨past, e⟩ member => ?_
      obtain ⟨mid, rfl, sub⟩ := Trace.mem_steps member
      obtain ⟨e, a⟩ := e
      cases e with
      | commit =>
        rcases updated_sound run thread request sub unspilled acknowledged with
          nothing | ⟨rfl, _, _, _, renewed, -⟩
        · exact nothing
        · exact (unrefreshed _ sub renewed.noAdd).elim
      | _ => rfl

namespace Demo

/-- The program serves an invocation. -/
def isInvocation (t : Thread BrokerSig Request Response) : Bool :=
  match t.req with
  | .invoke _ => true
  | _ => false

theorem of_isInvocation {t : Thread BrokerSig Request Response} (call : isInvocation t = true) :
    ∃ req, t.req = .invoke req := by
  unfold isInvocation at call
  split at call
  · exact ⟨_, by assumption⟩
  · cases call

/-- Nothing is committed before something is added. -/
def auditedFirst : Trace BrokerSig → Bool
  | [] => true
  | e :: tr => e.op.isAdd || (!e.op.endsTransaction && auditedFirst tr)

theorem of_auditedFirst {tr pre : Trace BrokerSig} {a : BrokerSig.Ans .commit}
    (audited : auditedFirst tr = true) (sub : pre ++ [⟨.commit, a⟩] <+: tr) : ¬ NoAdd pre := by
  induction tr generalizing pre with
  | nil => simp at sub
  | cons e tr ih =>
    cases pre with
    | nil =>
      obtain rfl : ⟨.commit, a⟩ = e := by simpa using sub
      cases audited
    | cons e' pre =>
      obtain ⟨rfl, rest⟩ := List.cons_prefix_cons.mp sub
      simp only [auditedFirst, Bool.or_eq_true, Bool.and_eq_true] at audited
      rcases audited with added | ⟨-, audited⟩
      · intro noAdd
        rw [noAdd e' (List.mem_cons_self ..)] at added
        cases added
      · exact fun noAdd => ih audited rest fun e member => noAdd e (List.mem_cons_of_mem _ member)

end Demo

/-- A rotated credential is stored as a whole. -/
theorem refresh_atomic_iff_demo : ∃ (c : Broker) (t : Thread BrokerSig Request Response),
    (broker Demo.lib Demo.services false).Reaches (.start Demo.connected) c ∧
      c.threads[0]? = some t ∧ (∃ req, t.req = .invoke req) ∧ (∃ r, t.prog = .ofExcept r) ∧
      AllOrNothing Demo.lib Demo.services t.trace (updatesBy 0 c.hist) ∧
      c.world.db.accounts = [{ Demo.staleAccount with
        encryptedAccessToken := [0]
        encryptedRefreshToken := some [0]
        expiresAt := some (Demo.midnight + seconds 3600) }] := by
  have computed : (Config.play (broker Demo.lib Demo.services false) (.start Demo.connected)
      (Demo.invocation [] none :: Demo.refresh 0 31 "rotated-token" [0])).any (fun c =>
        (c.threads[0]?.any fun t => Demo.isInvocation t && Demo.ended t &&
          t.trace.all Demo.succeeds) &&
        c.world.db.accounts == [{ Demo.staleAccount with
          encryptedAccessToken := [0]
          encryptedRefreshToken := some [0]
          expiresAt := some (Demo.midnight + seconds 3600) }]) = true := by decide +kernel
  obtain ⟨c, run, computed⟩ := Demo.reached_connected computed
  simp only [Bool.and_eq_true, beq_iff_eq] at computed
  obtain ⟨computed, stored⟩ := computed
  obtain ⟨t, thread, computed⟩ := (Option.any_eq_true _ _).mp computed
  simp only [Bool.and_eq_true, List.all_eq_true] at computed
  obtain ⟨⟨call, finished⟩, ok⟩ := computed
  obtain ⟨req, request⟩ := Demo.of_isInvocation call
  have unraised : ∀ {e : Op} {x : PyExn}, ⟨e, .error x⟩ ∉ t.trace := fun member => by
    obtain ⟨v, answered⟩ := Demo.answer_of_succeeds (ok _ member)
    cases answered
  refine ⟨c, t, run, thread, ⟨req, request⟩, Demo.finished finished,
    (refresh_atomic_iff run thread request).1.mpr ?_, stored⟩
  rintro (⟨pre, a, blob, head, id, account, sub, -, torn, -⟩ | ⟨pre, x, _, _, _, sub, -⟩)
  · obtain ⟨value, x, mid, -, rfl, -⟩ := torn.events
    have member : ⟨.encrypt value, .error x⟩ ∈ t.trace := sub.subset (by simp)
    exact unraised member
  · exact unraised (sub.subset (List.mem_append_right _ (List.mem_singleton.mpr rfl)))

/-- The rotated refresh token fails to be encrypted: the refresh has failed, nothing
was committed before the audit row, and the row has the new access token with the
old refresh token and expiry. -/
theorem refresh_torn_demo : ∃ (c : Broker) (t : Thread BrokerSig Request Response),
    (broker Demo.lib Demo.services false).Reaches (.start Demo.connected) c ∧
      c.threads[0]? = some t ∧ (∃ req, t.req = .invoke req) ∧ (∃ r, t.prog = .ofExcept r) ∧
      (∀ pre, pre ++ [⟨.commit, .ok ()⟩] <+: t.trace → ¬ NoAdd pre) ∧
      ¬ AllOrNothing Demo.lib Demo.services t.trace (updatesBy 0 c.hist) ∧
      c.world.db.accounts = [{ Demo.staleAccount with encryptedAccessToken := [0] }] := by
  have computed : (Config.play (broker Demo.lib Demo.services false) (.start Demo.connected)
      (Demo.invocation [] none :: Demo.refresh 0 16 "rotated-token" [0] ++
        Demo.raise 0 (.clientError "KMS") ++ Demo.refresh 0 5 "rotated-token" [0])).any (fun c =>
          (c.threads[0]?.any fun t => Demo.isInvocation t && Demo.ended t &&
            Demo.auditedFirst t.trace) &&
          !(updatesBy 0 c.hist).isEmpty &&
          c.world.db.accounts == [{ Demo.staleAccount with encryptedAccessToken := [0] }]) =
        true := by
    decide +kernel
  obtain ⟨c, run, computed⟩ := Demo.reached_connected computed
  simp only [Bool.and_eq_true, beq_iff_eq, Bool.not_eq_true'] at computed
  obtain ⟨⟨computed, written⟩, stored⟩ := computed
  obtain ⟨t, thread, computed⟩ := (Option.any_eq_true _ _).mp computed
  simp only [Bool.and_eq_true] at computed
  obtain ⟨⟨call, finished⟩, audited⟩ := computed
  have failed : ∀ pre, pre ++ [⟨.commit, .ok ()⟩] <+: t.trace → ¬ NoAdd pre := fun pre sub =>
    Demo.of_auditedFirst audited sub
  refine ⟨c, t, run, thread, Demo.of_isInvocation call, Demo.finished finished, failed,
    fun atomic => ?_, stored⟩
  rw [atomic.untouched failed] at written
  cases written

end CredBroker
