import CredBroker.ActiveLimit
import CredBroker.Interaction.Progress
import CredBroker.Invocation.Session

/-!
# Row locks and sessions

The one row lock of the broker is taken by `request_grant` on its agent's row. Nobody
waits for a second lock while holding one, and whoever holds one lets it go within a few
operations of its own, however they end: no chain of waiting requests is longer than one.

A request opens at most one session. Closing it is the last thing that the request does,
and a request that succeeds leaves nothing in it that is not committed.
-/

namespace CredBroker

open Python Interaction

variable {lib : Lib} {svc : Services} {lossy : Bool}

/-! ## The operations of a session -/

namespace Op

/-- `with_for_update()`: the one operation that waits for another request. -/
def isLocking : Op → Bool
  | .query (.agentForUpdate _) => true
  | _ => false

def isClose : Op → Bool
  | .close => true
  | _ => false

/-- What is done in an open session that takes no lock. -/
def isBody (e : Op) : Bool := !e.isLocking && !e.isClose

theorem isBody_of_isLocal {e : Op} (harmless : e.isLocal = true) : e.isBody = true := by
  cases e <;> first | rfl | cases harmless

theorem isBody_of_isExecute {e : Op} (executes : e.isExecute = true) : e.isBody = true := by
  cases e with
  | query q => cases q <;> first | rfl | cases executes
  | _ => first | rfl | cases executes

theorem not_isClose_of_open {e : Op} (open_ : e.endsTransaction = false) : e.isClose = false := by
  cases e <;> first | rfl | cases open_

theorem isBody_iff {e : Op} : e.isBody = true ↔ e.isLocking = false ∧ e.isClose = false := by
  simp [isBody]

end Op

section Uses

variable {req : InvokeRequest} {grant : Grant} {tokenHash : Str} {start : Time}

theorem refused_body {status : Status} {msg : Str} {reason : Option DeniedReason} :
    Within (refused start status msg reason) Op.isBody := refused_local.mono Op.isBody_of_isLocal

theorem invokeResolved_body {fastRevoked : Bool} :
    Within (invokeResolved lib svc req grant tokenHash start fastRevoked) Op.isBody := by
  have executes : ∀ tool, Within (executeCall lib svc req grant tokenHash tool start) Op.isBody :=
    fun tool => executeCall_uses.mono Op.isBody_of_isExecute
  refine .ite (fun _ => refused_body) fun _ => .bind (within_op rfl) fun now =>
    .ite (fun _ => refused_body) fun _ =>
    .bind (checkInvokeRate_local.mono Op.isBody_of_isLocal) fun allowed =>
    .ite (fun _ => refused_body) fun _ => ?_
  split
  · exact refused_body
  · trivial
  · refine .ite (fun _ => refused_body) fun _ => ?_
    split
    · refine .bind (claimKey_local.mono Op.isBody_of_isLocal) fun claimed => ?_
      split
      · trivial
      · refine .bind (.attempt (executes _)) fun ended => ?_
        split
        · exact .ite (fun _ => .bind (release_local.mono Op.isBody_of_isLocal) fun _ => trivial)
            fun _ => trivial
        · exact .bind (settle_local.mono Op.isBody_of_isLocal) fun _ => trivial
    · exact executes _

theorem invokeAudited_body {fastRevoked : Bool} :
    Within (invokeAudited lib svc req grant tokenHash start fastRevoked) Op.isBody := by
  refine .bind (.attempt invokeResolved_body) fun ended => ?_
  split
  · trivial
  · exact .ite (fun _ => .bind (within_op rfl) fun _ => refused_body) fun _ => trivial

/-- An invocation takes no lock, and closes its session at its end only. -/
theorem invokeGranted_body : Within (invokeGranted lib svc req start) Op.isBody := by
  refine .bind (markedRevoked_local.mono Op.isBody_of_isLocal) fun fastRevoked =>
    .bind (within_op rfl) fun found => ?_
  split
  · exact refused_body
  · exact .bind invokeAudited_body fun outcome =>
      .bind (.bind (within_op rfl) fun _ => within_op rfl) fun _ => trivial

theorem revokeGrant_body (grantId : Uuid) : Within (revokeGrant svc grantId) Op.isBody := by
  refine .bind (within_op rfl) fun found => ?_
  split
  · trivial
  · refine .bind ?_ fun grant => ?_
    · exact .ite (fun _ => .bind (within_op rfl) fun _ => .bind (within_op rfl) fun _ =>
        .bind (within_op rfl) fun _ => trivial) fun _ => trivial
    · exact .ite (fun _ => .bind (.bind (within_op rfl) fun _ => .bind (within_op rfl) fun _ =>
        trivial) fun _ => trivial) fun _ => trivial

theorem seedDemo_body : Within seedDemo Op.isBody := by
  refine .bind (.bind (within_op rfl) fun agent => ?_) fun _ =>
    .bind (.bind (within_op rfl) fun account => ?_) fun _ => .bind (within_op rfl) fun _ => trivial
  · split
    · trivial
    · exact .bind (within_op rfl) fun _ => .bind (within_op rfl) fun _ => .bind (within_op rfl)
        fun _ => .bind (within_op rfl) fun _ => trivial
  · split
    · trivial
    · exact .bind (within_op rfl) fun _ => .bind (within_op rfl) fun _ =>
        .bind (Prog.uses_ofExcept _) fun _ => .bind (within_op rfl) fun _ => .bind (within_op rfl)
        fun _ => .bind (within_op rfl) fun _ => .bind (within_op rfl) fun _ => trivial

theorem makeState_local (userId : Str) : Within (makeState lib svc.settings userId) Op.isLocal :=
  .ite (fun _ => trivial) fun _ => .bind (within_op rfl) fun _ => .bind (within_op rfl)
  fun _ => trivial

theorem callbackTokens_local (code state : Str) :
    Within (callbackTokens lib svc.settings code state) Op.isLocal := by
  refine .bind (.attempt (.bind ?_ fun user => .bind (Prog.uses_ofExcept _) fun userId =>
    .bind (.bind (within_op rfl) fun response =>
      (parseTokenResponse_uses _).mono Op.isLocal_of_isRegister) fun token => trivial))
      fun ended => ?_
  · unfold verifyState
    split
    · trivial
    · split
      · refine .ite (fun _ => trivial) fun _ => ?_
        split
        · trivial
        · exact .bind (within_op rfl) fun now => .ite (fun _ => trivial) fun _ => trivial
      · trivial
  · split <;> trivial

end Uses

/-! ## What a request does with its session -/

/-- A session with nothing left to commit. -/
structure Session.Clean (s : Session) : Prop where
  added : s.added = []
  updates : s.updates = []

/-- A request for a grant that holds the row of the agent, for a few operations so far. -/
def Holding (r : Request) (id : Uuid) (tr : Trace BrokerSig) : Prop :=
  (∃ toolName scope, r = .requestGrant id toolName scope) ∧
    ∃ agent pre post, tr = pre ++ ⟨.query (.agentForUpdate id), .ok (some agent)⟩ :: post ∧
      post.length ≤ 5 ∧ ∀ e ∈ post, e.op.endsTransaction = false

/-- What a request has done with its session before an operation. -/
structure SessionGuard (r : Request) (tr : Trace BrokerSig) (e : Op) : Prop where
  unclosed : e.isLocal = false → ∀ ev ∈ tr, ev.op.isClose = false
  holding : ∀ id ∈ (Session.replay tr).locked, Holding r id tr ∧ e.isLocking = false

abbrev sessionRole (r : Request) : Role BrokerSig := .guarding (SessionGuard r)

/-- How a request leaves its session, if it has one. -/
inductive Disposes {α : Type} (r : Except PyExn α) (tr : Trace BrokerSig) : Prop
  | unopened (none : ∀ e ∈ tr, e.op.isLocal = true)
  | closed (pre : Trace BrokerSig) (a : BrokerSig.Ans .close) (split : tr = pre ++ [⟨.close, a⟩])
      (unclosed : ∀ e ∈ pre, e.op.isClose = false)
      (clean : ∀ v, r = .ok v → (Session.replay pre).Clean)

section Rules

variable {α : Type} {r : Request} {tr ext : Trace BrokerSig}

/-- Nothing was locked, and the session is not closed yet. -/
structure Unlocked (tr : Trace BrokerSig) : Prop where
  unclosed : ∀ e ∈ tr, e.op.isClose = false
  free : (Session.replay tr).locked = []

theorem Unlocked.guard (unlocked : Unlocked tr) (e : Op) : SessionGuard r tr e :=
  ⟨fun _ => unlocked.unclosed, fun id held => by simp [unlocked.free] at held⟩

theorem locks_of_not {e : Event BrokerSig} (other : e.op.isLocking = false) :
    Session.locks e = none := by
  obtain ⟨e, a⟩ := e
  cases e with
  | query q =>
    cases q with
    | agentForUpdate id => cases other
    | _ => rfl
  | _ => rfl

theorem Unlocked.append (unlocked : Unlocked tr) {e : Event BrokerSig} (body : e.op.isBody = true) :
    Unlocked (tr ++ [e]) := by
  obtain ⟨locking, close⟩ := Op.isBody_iff.mp body
  refine ⟨List.forall_mem_append.mpr ⟨unlocked.unclosed, by simpa using close⟩, ?_⟩
  rw [Session.replay_append_singleton, Session.note_locked, locks_of_not locking, unlocked.free]
  simp

theorem Unlocked.of_local (quiet : ∀ e ∈ tr, e.op.isLocal = true) : Unlocked tr := by
  constructor
  · intro e member
    exact (Op.isBody_iff.mp (Op.isBody_of_isLocal (quiet e member))).2
  · have fresh : Session.replay ([] ++ tr) = Session.replay [] := Session.replay_local quiet
    exact congrArg Session.locked fresh

/-- What is done without a session leaves it unopened. -/
theorem wp_unopened {p : BrokerProg α} {Q : Post BrokerSig α}
    (quiet : ∀ e ∈ tr, e.op.isLocal = true) (uses : Within p Op.isLocal)
    (post : ∀ r ext, (∀ e ∈ tr ++ ext, e.op.isLocal = true) → Q r (tr ++ ext)) :
    wp (broker lib svc lossy) (sessionRole r) p Q tr := by
  apply wp_invariant (J := fun tr : Trace BrokerSig => ∀ e ∈ tr, e.op.isLocal = true) uses
  · intro tr e quiet last
    exact List.forall_mem_append.mpr ⟨quiet, by simpa using last⟩
  · exact fun tr e quiet _ => (Unlocked.of_local quiet).guard e
  · exact quiet
  · exact fun r ext _ quiet => post r ext quiet

/-- How the body of a session may end. -/
structure Closable (req : Request) (r : Except PyExn α) (tr : Trace BrokerSig) : Prop where
  unclosed : ∀ e ∈ tr, e.op.isClose = false
  holding : ∀ id ∈ (Session.replay tr).locked, Holding req id tr
  clean : ∀ v, r = .ok v → (Session.replay tr).Clean

/-- A session that locked nothing may be closed however its body ended. -/
theorem Unlocked.closable {ended : Except PyExn α} (unlocked : Unlocked tr)
    (clean : ∀ v, ended = .ok v → (Session.replay tr).Clean) : Closable r ended tr :=
  ⟨unlocked.unclosed, fun id held => by simp [unlocked.free] at held, clean⟩

/-- Closing the session is the last thing that is done. -/
theorem wp_disposes {p : BrokerProg α} (body : wp (broker lib svc lossy) (sessionRole r) p
    (Closable r) tr) : wp (broker lib svc lossy) (sessionRole r) (withSession p) Disposes tr := by
  unfold withSession
  rw [wp_bind, wp_attempt]
  refine wp_mono body fun ended tr' _ closable => ?_
  refine ⟨⟨fun _ => closable.unclosed, fun id held => ⟨closable.holding id held, rfl⟩⟩,
    fun closed _ _ => ?_⟩
  cases closed with
  | error x => exact .closed tr' (.error x) rfl closable.unclosed nofun
  | ok _ =>
    exact (wp_ofExcept ended).mpr (.closed tr' (.ok ()) rfl closable.unclosed closable.clean)

/-- A body that takes no lock only has to commit what it adds and changes. -/
theorem wp_body {p : BrokerProg α} (quiet : ∀ e ∈ tr, e.op.isLocal = true)
    (uses : Within p Op.isBody)
    (clean : wp (broker lib svc lossy) (.guarding fun _ _ => True) p
      (fun r tr => ∀ v, r = .ok v → (Session.replay tr).Clean) tr) :
    wp (broker lib svc lossy) (sessionRole r) (withSession p) Disposes tr := by
  have unlocked : wp (broker lib svc lossy) (sessionRole r) p (fun _ tr => Unlocked tr) tr := by
    apply wp_invariant (J := Unlocked) uses
    · exact fun tr e unlocked body => unlocked.append body
    · exact fun tr e unlocked _ => unlocked.guard e
    · exact Unlocked.of_local quiet
    · exact fun _ _ _ unlocked => unlocked
  apply wp_disposes
  refine wp_mono (wp_conj unlocked clean fun _ _ _ => trivial) fun ended tr' _ ends => ?_
  exact ends.1.closable ends.2

/-- A commit leaves nothing to commit. -/
theorem commit_clean (tr : Trace BrokerSig) :
    (Session.replay (tr ++ [⟨.commit, .ok ()⟩])).Clean := by
  rw [Session.replay_append_singleton]
  constructor
  · rfl
  · simp only [Session.note, Session.updates]
    cases (Session.replay tr).account <;> cases (Session.replay tr).grant <;>
      simp [Session.accountChanges, Session.grantChanges]

/-- Nor does what is done without the session change that. -/
theorem Session.Clean.append (clean : (Session.replay tr).Clean)
    (quiet : ∀ e ∈ ext, e.op.isLocal = true) : (Session.replay (tr ++ ext)).Clean := by
  rwa [Session.replay_local quiet]

/-- A body that ends with a commit leaves nothing. -/
theorem wp_commit {f : BrokerSig.Val .commit → α} :
    wp (broker lib svc lossy) (.guarding fun _ _ => True) (f <$> op .commit)
      (fun r tr => ∀ v, r = .ok v → (Session.replay tr).Clean) tr := by
  refine wp_map ⟨trivial, fun a _ _ => ?_⟩
  cases a with
  | error x => exact nofun
  | ok _ => exact fun _ _ => commit_clean tr

end Rules

/-! ## Requests under the guard -/

section Requests

variable {r : Request} {tr : Trace BrokerSig}

theorem createAgent_disposes (body : AgentCreateRequest) :
    wp (broker lib svc lossy) (sessionRole r) (createAgent body) Disposes [] := by
  have user : Within (userOr body.userId) Op.isLocal := by
    unfold userOr
    split
    · trivial
    · exact within_op rfl
  show wp _ _ (userOr body.userId >>= _) _ _
  rw [wp_bind]
  refine wp_unopened (by simp) user fun ended ext quiet => ?_
  cases ended with
  | error x => exact .unopened quiet
  | ok userId =>
    apply wp_body quiet
    · exact .bind (within_op rfl) fun _ => .bind (within_op rfl) fun _ => .bind (within_op rfl)
        fun _ => .bind (within_op rfl) fun _ => trivial
    · refine ⟨trivial, fun a may _ => ?_⟩
      obtain ⟨id, rfl⟩ := may_sync rfl may
      refine ⟨trivial, fun a may _ => ?_⟩
      obtain ⟨⟨⟩, rfl⟩ := may_sync rfl may
      refine ⟨trivial, fun a _ _ => ?_⟩
      cases a with
      | error x => exact nofun
      | ok _ => exact wp_commit

theorem seedDemo_disposes :
    wp (broker lib svc lossy) (sessionRole r) (withSession seedDemo) Disposes [] := by
  apply wp_body (by simp) seedDemo_body
  show wp _ _ (seedAgent >>= _) _ _
  rw [wp_bind]
  refine wp_mono (wp_free fun _ _ => trivial) fun ended tr' _ _ => ?_
  cases ended with
  | error x => exact nofun
  | ok agent =>
    show wp _ _ (seedAccount agent.1 >>= _) _ _
    rw [wp_bind]
    refine wp_mono (wp_free fun _ _ => trivial) fun ended tr' _ _ => ?_
    cases ended with
    | error x => exact nofun
    | ok account => exact wp_commit

theorem authorize_disposes (provider : Str) (userId : Uuid) :
    wp (broker lib svc lossy) (sessionRole r) (authorize lib svc.settings provider userId) Disposes
      [] := by
  refine wp_unopened (by simp) (.bind (.ite (fun _ => trivial) fun _ => trivial) fun _ =>
    makeState_local _) fun ended ext quiet => .unopened quiet

theorem connectAccount_disposes {userId : Uuid} {token : TokenResponse}
    (quiet : ∀ e ∈ tr, e.op.isLocal = true) :
    wp (broker lib svc lossy) (sessionRole r) (connectAccount userId token) Disposes tr := by
  show wp _ _ (op (.encrypt (.str token.accessToken)) >>= _) _ _
  rw [wp_bind]
  refine wp_unopened quiet (within_op rfl) fun ended ext quiet => ?_
  cases ended with
  | error x => exact .unopened quiet
  | ok encryptedAccess =>
    show wp _ _ (encryptRefresh token.refreshToken >>= _) _ _
    rw [wp_bind]
    refine wp_unopened quiet (.ite (fun _ => .bind (within_op rfl) fun _ => trivial)
      fun _ => trivial) fun ended ext quiet => ?_
    cases ended with
    | error x => exact .unopened quiet
    | ok encryptedRefresh =>
      show wp _ _ (expiryOf token.expiresIn >>= _) _ _
      rw [wp_bind]
      refine wp_unopened quiet ((expiryOf_uses _).mono Op.isLocal_of_isPlain)
        fun ended ext quiet => ?_
      cases ended with
      | error x => exact .unopened quiet
      | ok expiresAt =>
        apply wp_body quiet
        · exact .bind (within_op rfl) fun _ => .bind (within_op rfl) fun _ => .bind (within_op rfl)
            fun _ => .bind (within_op rfl) fun _ => .bind (within_op rfl) fun _ => trivial
        · refine ⟨trivial, fun a may _ => ?_⟩
          obtain ⟨id, rfl⟩ := may_sync rfl may
          refine ⟨trivial, fun a may _ => ?_⟩
          obtain ⟨createdAt, rfl⟩ := may_sync rfl may
          refine ⟨trivial, fun a may _ => ?_⟩
          obtain ⟨⟨⟩, rfl⟩ := may_sync rfl may
          refine ⟨trivial, fun a _ _ => ?_⟩
          cases a with
          | error x => exact nofun
          | ok _ => exact wp_commit

/-- A callback closes the one session that it opens. -/
theorem callback_disposes (request : CallbackRequest) :
    wp (broker lib svc lossy) (sessionRole r) (callback lib svc.settings request) Disposes [] := by
  have none : ∀ e ∈ ([] : Trace BrokerSig), e.op.isLocal = true := by simp
  show wp _ _ (requireGoogle request.provider >>= _) _ _
  rw [wp_bind]
  refine wp_unopened none (.ite (fun _ => trivial) fun _ => trivial) fun ended ext quiet => ?_
  cases ended with
  | error x => exact .unopened quiet
  | ok _ =>
    rw [Post.next_ok]
    split
    · exact .unopened quiet
    · rename_i code state _ _ _
      show wp _ _ (callbackTokens lib svc.settings code state >>= _) _ _
      rw [wp_bind]
      refine wp_unopened quiet (callbackTokens_local _ _) fun ended ext quiet => ?_
      cases ended with
      | error x => exact .unopened quiet
      | ok tokens => exact connectAccount_disposes quiet
    · exact .unopened quiet

theorem revokeGrant_disposes (grantId : Uuid) :
    wp (broker lib svc lossy) (sessionRole r) (withSession (revokeGrant svc grantId)) Disposes
      [] := by
  apply wp_body (by simp) (revokeGrant_body grantId)
  -- the marker is written after the session has nothing left to commit
  have marking : ∀ (grant : Grant) (tr : Trace BrokerSig), (Session.replay tr).Clean →
      wp (broker lib svc lossy) (.guarding fun _ _ => True)
        (if svc.grantCache then do
          GrantCache.recordRevoked grant.grantTokenHash
          return grant
        else return grant : BrokerProg Grant)
        (fun ended tr => ∀ v, ended = .ok v → (Session.replay tr).Clean) tr := by
    intro grant tr clean
    have uses : Within (if svc.grantCache then do
        GrantCache.recordRevoked grant.grantTokenHash
        return grant
      else return grant : BrokerProg Grant) Op.isLocal :=
      .ite (fun _ => .bind (.bind (within_op rfl) fun _ => .bind (within_op rfl) fun _ => trivial)
        fun _ => trivial) fun _ => trivial
    exact wp_of_uses uses (fun _ _ _ => trivial) fun _ ext quiet _ _ => clean.append quiet
  refine ⟨trivial, fun a _ _ => ?_⟩
  rcases a with x | _ | grant
  · exact nofun
  · exact nofun
  · show wp _ _ (markRevoked grant >>= _) _ _
    rw [wp_bind]
    unfold markRevoked
    split
    · refine ⟨trivial, fun a may _ => ?_⟩
      obtain ⟨now, rfl⟩ := may_sync rfl may
      refine ⟨trivial, fun a may _ => ?_⟩
      obtain ⟨⟨⟩, rfl⟩ := may_sync rfl may
      refine ⟨trivial, fun a _ _ => ?_⟩
      cases a with
      | error x => exact nofun
      | ok _ => exact marking _ _ (commit_clean _)
    · apply marking
      constructor
      · rfl
      · change Session.updates { Session.new with grant := some (grant, grant) } = []
        simp [Session.updates, Session.new, Session.grantChanges]

/-- A transaction that holds the row of an agent, `n` operations after the lock at most. -/
structure Window (agentId : Uuid) (n : Nat) (tr : Trace BrokerSig) : Prop where
  unclosed : ∀ e ∈ tr, e.op.isClose = false
  locked : (Session.replay tr).locked = [agentId]
  since : ∃ agent pre post,
    tr = pre ++ ⟨.query (.agentForUpdate agentId), .ok (some agent)⟩ :: post ∧
      post.length ≤ n ∧ ∀ e ∈ post, e.op.endsTransaction = false

section Window

variable {agentId : Uuid} {toolName scope : Str} {n : Nat} {e : Event BrokerSig}

theorem Unlocked.lock (unlocked : Unlocked tr) (agent : AgentIdentity) :
    Window agentId 0 (tr ++ [⟨.query (.agentForUpdate agentId), .ok (some agent)⟩]) := by
  constructor
  · exact List.forall_mem_append.mpr ⟨unlocked.unclosed, by simp [Op.isClose]⟩
  · rw [Session.replay_append_singleton, Session.note_locked, unlocked.free]
    rfl
  · exact ⟨agent, tr, [], rfl, Nat.le_refl _, by simp⟩

/-- Without an agent there is nothing to lock. -/
theorem Unlocked.miss (unlocked : Unlocked tr)
    {a : BrokerSig.Ans (.query (.agentForUpdate agentId))}
    (none : Session.locks ⟨.query (.agentForUpdate agentId), a⟩ = none) :
    Unlocked (tr ++ [⟨.query (.agentForUpdate agentId), a⟩]) := by
  constructor
  · exact List.forall_mem_append.mpr ⟨unlocked.unclosed, by simp [Op.isClose]⟩
  · rw [Session.replay_append_singleton, Session.note_locked, none, unlocked.free]
    rfl

theorem Window.append (window : Window agentId n tr) (waits : e.op.isLocking = false)
    (open_ : e.op.endsTransaction = false) : Window agentId (n + 1) (tr ++ [e]) := by
  obtain ⟨agent, pre, post, cut, short, inside⟩ := window.since
  constructor
  · apply List.forall_mem_append.mpr ⟨window.unclosed, ?_⟩
    simpa using Op.not_isClose_of_open open_
  · rw [Session.replay_append_singleton, Session.note_locked, open_, locks_of_not waits,
      window.locked]
    rfl
  · refine ⟨agent, pre, post ++ [e], by simp [cut], ?_, ?_⟩
    · rw [List.length_append, List.length_singleton]
      omega
    · exact List.forall_mem_append.mpr ⟨inside, by simpa using open_⟩

/-- The end of the transaction lets the row go. -/
theorem Window.commit (window : Window agentId n tr) (a : BrokerSig.Ans .commit) :
    Unlocked (tr ++ [⟨.commit, a⟩]) := by
  constructor
  · exact List.forall_mem_append.mpr ⟨window.unclosed, by simp [Op.isClose]⟩
  · rw [Session.replay_append_singleton, Session.note_locked]
    rfl

theorem Window.guard (window : Window agentId n tr) (short : n ≤ 5) {e : Op}
    (waits : e.isLocking = false) :
    SessionGuard (.requestGrant agentId toolName scope) tr e := by
  refine ⟨fun _ => window.unclosed, fun id held => ?_⟩
  rw [window.locked] at held
  obtain rfl := List.mem_singleton.mp held
  obtain ⟨agent, pre, post, cut, length, inside⟩ := window.since
  exact ⟨⟨⟨toolName, scope, rfl⟩, agent, pre, post, cut, Nat.le_trans length short, inside⟩, waits⟩

/-- A body may end wherever the session may be closed. -/
theorem SessionGuard.closable {α : Type} {x : PyExn} (guard : SessionGuard r tr .close) :
    Closable r (.error x : Except PyExn α) tr :=
  ⟨guard.unclosed rfl, fun id held => (guard.holding id held).1, nofun⟩

/-- So may the session of a request for a grant, which locks one row. -/
theorem Window.closable {α : Type} {x : PyExn} (window : Window agentId n tr) (short : n ≤ 5) :
    Closable (.requestGrant agentId toolName scope) (.error x : Except PyExn α) tr :=
  (window.guard short rfl).closable

variable (agentId toolName scope) in
/-- `request_grant` holds its lock over five operations at most, and its commit ends that. -/
theorem wp_requestGrant_closable :
    wp (broker lib svc lossy) (sessionRole (.requestGrant agentId toolName scope))
      (requestGrant lib svc agentId toolName scope)
      (Closable (.requestGrant agentId toolName scope)) [] := by
  unfold requestGrant
  rw [wp_bind]
  have paces : Within (checkGrantRate svc agentId) Op.isLocal :=
    .ite (fun _ => .bind (.bind (within_op rfl) fun _ => .bind (within_op rfl) fun _ =>
      .ite (fun _ => .bind (within_op rfl) fun _ => trivial) fun _ => trivial) fun _ =>
        .ite (fun _ => trivial) fun _ => trivial) fun _ => trivial
  refine wp_unopened (by simp) paces fun ended pacing quiet => ?_
  have unlocked := Unlocked.of_local quiet
  cases ended with
  | error x => exact (unlocked.guard .close).closable
  | ok _ =>
    refine ⟨unlocked.guard _, fun a _ _ => ?_⟩
    rcases a with x | _ | agent
    · exact ((unlocked.miss rfl).guard .close).closable
    · exact ((unlocked.miss rfl).guard .close).closable
    · have window : Window agentId 0 _ := unlocked.lock agent
      show wp _ _ ((Prog.ofExcept (checkPolicy lib agent toolName scope) :
        BrokerProg ToolAdapter) >>= _) _ _
      rw [wp_bind, wp_ofExcept]
      cases checkPolicy lib agent toolName scope with
      | error x => exact window.closable (by omega)
      | ok tool =>
        refine ⟨window.guard (by omega) rfl, fun a _ _ => ?_⟩
        replace window := window.append (e := ⟨_, a⟩) rfl rfl
        rcases a with x | _ | account
        · exact window.closable (by omega)
        · exact window.closable (by omega)
        · refine ⟨window.guard (by omega) rfl, fun a may _ => ?_⟩
          obtain ⟨now, rfl⟩ := may_sync rfl may
          replace window := window.append (e := ⟨.clock, .ok now⟩) rfl rfl
          refine ⟨window.guard (by omega) rfl, fun a _ _ => ?_⟩
          replace window := window.append (e := ⟨_, a⟩) rfl rfl
          rcases a with x | activeCount
          · exact window.closable (by omega)
          · show wp _ _ (if _ then _ else _) _ _
            split
            · exact window.closable (by omega)
            · refine ⟨window.guard (by omega) rfl, fun a may _ => ?_⟩
              obtain ⟨grantId, rfl⟩ := may_sync rfl may
              replace window := window.append (e := ⟨.uuid4, .ok grantId⟩) rfl rfl
              show wp _ _ ((Prog.ofExcept (addSeconds now svc.settings.grantTokenTtlSeconds) :
                BrokerProg Time) >>= _) _ _
              rw [wp_bind, wp_ofExcept]
              cases addSeconds now svc.settings.grantTokenTtlSeconds with
              | error x => exact window.closable (by omega)
              | ok expiresAt =>
                show wp _ _ ((Prog.ofExcept (signGrantToken lib svc grantId agentId toolName
                  scope now expiresAt) : BrokerProg Str) >>= _) _ _
                rw [wp_bind, wp_ofExcept]
                cases signGrantToken lib svc grantId agentId toolName scope now expiresAt with
                | error x => exact window.closable (by omega)
                | ok token =>
                  refine ⟨window.guard (by omega) rfl, fun a may _ => ?_⟩
                  obtain ⟨⟨⟩, rfl⟩ := may_sync rfl may
                  replace window := window.append (e := ⟨.add (.grant ⟨grantId, agentId, account.id,
                    toolName, scope, hashToken lib token, now, expiresAt, none⟩), .ok ()⟩) rfl rfl
                  refine ⟨window.guard (by omega) rfl, fun a _ _ => ?_⟩
                  have unlocked := window.commit a
                  rcases a with x | _
                  · exact (unlocked.guard .close).closable
                  · show wp _ _ (if _ then _ else _) _ _
                    split
                    · refine ⟨unlocked.guard _, fun a _ _ => ?_⟩
                      have unlocked' := unlocked.append (e := ⟨_, a⟩) rfl
                      cases a with
                      | error x => exact (unlocked'.guard .close).closable
                      | ok _ =>
                        exact unlocked'.closable fun _ _ =>
                          (commit_clean _).append (by simp [Op.isLocal])
                    · exact unlocked.closable fun _ _ => commit_clean _

end Window

/-- An invocation closes the one session that it opens. -/
theorem invoke_disposes (req : InvokeRequest) :
    wp (broker lib svc lossy) (sessionRole r) (invoke lib svc req) Disposes [] := by
  refine ⟨(Unlocked.of_local (by simp)).guard _, fun a may _ => ?_⟩
  obtain ⟨start, rfl⟩ := may_sync rfl may
  have quiet : ∀ e ∈ ([⟨.clock, .ok start⟩] : Trace BrokerSig), e.op.isLocal = true := by
    simp [Op.isLocal]
  show wp _ _ ((verifyGrantToken lib svc req.grantToken).attempt >>= _) _ _
  rw [wp_bind, wp_attempt]
  refine wp_unopened quiet verifyGrantToken_local fun ended ext quiet => ?_
  have refuses : ∀ {status : Status} {msg : Str} {reason : Option DeniedReason},
      wp (broker lib svc lossy) (sessionRole r) (refused start status msg reason) Disposes
        ([⟨.clock, .ok start⟩] ++ ext) :=
    wp_unopened quiet refused_local fun _ _ quiet => .unopened quiet
  rw [Post.next_ok]
  split
  · exact refuses
  · exact refuses
  · exact .unopened quiet
  · split
    · exact refuses
    · apply wp_body quiet invokeGranted_body
      show wp _ _ (markedRevoked svc (hashToken lib req.grantToken) >>= _) _ _
      rw [wp_bind]
      refine wp_of_uses markedRevoked_local (fun _ _ _ => trivial) fun marked ext' quiet' => ?_
      have quiet := List.forall_mem_append.mpr ⟨quiet, quiet'⟩
      cases marked with
      | error x => exact nofun
      | ok fastRevoked =>
        refine ⟨trivial, fun a _ _ => ?_⟩
        rcases a with x | _ | grant
        · exact nofun
        · -- the lookup of an unknown token leaves nothing in the session
          refine wp_of_uses refused_local (fun _ _ _ => trivial) fun _ ext'' quiet'' _ _ => ?_
          apply Session.Clean.append _ quiet''
          have fresh : Session.replay ([] ++ _) = Session.replay [] := Session.replay_local quiet
          rw [List.nil_append] at fresh
          rw [Session.replay_append_singleton, fresh]
          constructor <;> rfl
        · show wp _ _ (invokeAudited lib svc req grant (hashToken lib req.grantToken) start
            fastRevoked >>= _) _ _
          rw [wp_bind]
          refine wp_mono (wp_free fun _ _ => trivial) fun ended tr' _ _ => ?_
          cases ended with
          | error x => exact nofun
          | ok outcome =>
            refine ⟨trivial, fun a may _ => ?_⟩
            obtain ⟨⟨⟩, rfl⟩ := may_sync rfl may
            exact wp_commit

variable (lib svc) in
/-- Every request keeps its session in order. -/
theorem wp_serve_disposes (r : Request) :
    wp (broker lib svc lossy) (sessionRole r) (serve lib svc r) Disposes [] := by
  have mapped : ∀ {α : Type} {p : BrokerProg α} {f : α → Response},
      wp (broker lib svc lossy) (sessionRole r) p Disposes [] →
        wp (broker lib svc lossy) (sessionRole r) (f <$> p) Disposes [] := by
    intro α p f pre
    refine wp_map (wp_mono pre fun ended tr _ disposes => ?_)
    cases disposes with
    | unopened none => exact .unopened none
    | closed pre a split unclosed clean =>
      refine .closed pre a split unclosed fun v same => ?_
      cases ended with
      | error x => cases same
      | ok v => exact clean v rfl
  cases r with
  | createAgent body => exact mapped (createAgent_disposes body)
  | seedDemo => exact mapped seedDemo_disposes
  | authorize provider userId => exact mapped (authorize_disposes provider userId)
  | callback request => exact mapped (callback_disposes request)
  | requestGrant agentId toolName scope =>
    exact mapped (wp_disposes (wp_requestGrant_closable agentId toolName scope))
  | revokeGrant grantId => exact mapped (revokeGrant_disposes grantId)
  | invoke req => exact mapped (invoke_disposes req)

end Requests

/-! ## Who holds what is locked -/

/-- What is locked is held by a session, and listed once. -/
structure Locked (c : Broker) : Prop where
  nodup : c.world.locks.Nodup
  held : ∀ id ∈ c.world.locks, ∃ (i : Nat) (t : Thread BrokerSig Request Response),
    c.threads[i]? = some t ∧ id ∈ (Session.replay t.trace).locked

theorem World.nudge_locks {n : World.Nudge} {w w' : World}
    (moved : World.nudge lossy n w = some w') : w'.locks = w.locks := by
  cases n with
  | tick elapsed =>
    obtain rfl := Option.some.inj moved
    rfl
  | evict keep =>
    rw [World.nudge] at moved
    split at moved
    · obtain rfl := Option.some.inj moved
      rfl
    · cases moved

/-- One step keeps the locks to the programs that hold them. -/
theorem Locked.step {c c' : Broker} (locked : Locked c)
    (step : (broker lib svc lossy).Step c c') : Locked c' := by
  cases step with
  | nudge n moved =>
    have same : _ = c.world.locks := World.nudge_locks moved
    exact ⟨same ▸ locked.nodup, fun id there => locked.held id (same ▸ there)⟩
  | spawn r =>
    refine ⟨locked.nodup, fun id there => ?_⟩
    obtain ⟨i, t, thread, held⟩ := locked.held id there
    have started := (List.getElem?_eq_some_iff.mp thread).1
    exact ⟨i, t, by rw [Config.spawn, List.getElem?_append_left started]; exact thread, held⟩
  | @answer i t e k a thread pending permits =>
    have locks := (c.world.after_framed t.trace ⟨e, a⟩).locks
    -- a row that another session holds is still held by it
    have others : ∀ id ∈ c.world.locks, id ∉ (Session.replay t.trace).locked →
        ∃ (j : Nat) (u : Thread BrokerSig Request Response),
          (c.answer (broker lib svc lossy) i t ⟨e, a⟩ (k a)).threads[j]? = some u ∧
            id ∈ (Session.replay u.trace).locked := by
      intro id there free
      obtain ⟨j, u, thread', held⟩ := locked.held id there
      refine ⟨j, u, ?_, held⟩
      rw [Config.answer_other]
      · exact thread'
      · rintro rfl
        obtain rfl := Option.some.inj (thread.symm.trans thread')
        exact free held
    have own := Config.answer_self (broker lib svc lossy) thread ⟨e, a⟩ (k a)
    have kept := Session.note_locked (Session.replay t.trace) ⟨e, a⟩
    rw [← Session.replay_append_singleton] at kept
    constructor
    · show (c.world.after t.trace ⟨e, a⟩).locks.Nodup
      rw [locks]
      split
      · exact locked.nodup.filter _
      · cases taken : Session.locks ⟨e, a⟩ with
        | none => exact locked.nodup
        | some id =>
          exact List.nodup_cons.mpr ⟨World.permits_locks permits taken, locked.nodup⟩
    · intro id there
      change id ∈ (c.world.after t.trace ⟨e, a⟩).locks at there
      rw [locks] at there
      split at there
      · obtain ⟨there, free⟩ := List.mem_filter.mp there
        exact others id there (by simpa using free)
      · rename_i open_
        rw [if_neg open_] at kept
        by_cases mine : id ∈ (Session.replay (t.trace ++ [⟨e, a⟩])).locked
        · exact ⟨i, _, own, mine⟩
        · rw [kept] at mine
          simp only [List.mem_append, not_or] at mine there
          exact others id (there.resolve_left mine.1) mine.2

theorem run_locked {now : Time} {c : Broker}
    (run : (broker lib svc lossy).Reaches (.start (World.fresh now)) c) : Locked c := by
  induction run with
  | refl => exact ⟨List.nodup_nil, by simp [Config.start, World.fresh]⟩
  | tail _ step ih => exact ih.step step

/-- A request that holds the lock of an agent's row, and will let it go. -/
structure Holds (id : Uuid) (t : Thread BrokerSig Request Response) : Prop where
  holding : Holding t.req id t.trace
  /-- It is not over, and does not wait for a lock itself. -/
  running : ∃ e, t.prog.next = some e ∧ e.isLocking = false

theorem Disposes.fresh {r : Except PyExn Response} {tr : Trace BrokerSig}
    (disposes : Disposes r tr) : Session.replay tr = Session.new := by
  cases disposes with
  | unopened none =>
    have fresh : Session.replay ([] ++ tr) = Session.replay [] := Session.replay_local none
    exact fresh
  | closed pre a split unclosed clean =>
    rw [split, Session.replay_append_singleton]
    rfl

section Run

variable {w : World} {c : Broker} (run : (broker lib svc lossy).Reaches (.start w) c) {i : Nat}
  {t : Thread BrokerSig Request Response} (thread : c.threads[i]? = some t)

include run thread

/-- A request that is over has disposed of its session. -/
theorem disposed {r : Except PyExn Response} (halted : t.prog = .ofExcept r) :
    Disposes r t.trace := by
  have under := Machine.Reaches.under_start run thread (wp_serve_disposes lib svc t.req)
    (Role.met_guarding _ _)
  rwa [halted, wp_ofExcept] at under

/-- What a session holds, its request holds for a while. -/
theorem holds_of_locked {id : Uuid} (held : id ∈ (Session.replay t.trace).locked) : Holds id t := by
  have under := Machine.Reaches.under_start run thread (wp_serve_disposes lib svc t.req)
    (Role.met_guarding _ _)
  cases prog : t.prog with
  | call e k =>
    rw [prog] at under
    obtain ⟨holding, waits⟩ := under.1.holding id held
    exact ⟨holding, e, by rw [prog]; rfl, waits⟩
  | ret v =>
    have fresh := Disposes.fresh (disposed run thread (r := .ok v) prog)
    simp [fresh, Session.new] at held
  | throw x =>
    have fresh := Disposes.fresh (disposed run thread (r := .error x) prog)
    simp [fresh, Session.new] at held

omit run thread in
theorem Holds.locked {id : Uuid} (holds : Holds id t) : id ∈ (Session.replay t.trace).locked := by
  obtain ⟨-, agent, pre, post, cut, -, open_⟩ := holds.holding
  rw [cut, List.append_cons]
  apply Session.mem_locked_append _ open_
  rw [Session.replay_append_singleton, Session.note_locked]
  exact List.mem_append_left _ (List.mem_singleton.mpr rfl)

end Run

/-! ## No deadlock -/

/-- What a request for a grant performs can always be answered, if only by an error. -/
def Op.isAnswerable : Op → Bool
  | .clock | .redis _ | .query _ | .uuid4 | .add (.grant _) | .commit | .close => true
  | _ => false

theorem World.answers (w : World) (tr : Trace BrokerSig) {e : Op}
    (answerable : e.isAnswerable = true) : ∃ a, w.permits tr ⟨e, a⟩ = true := by
  cases e with
  | clock => exact ⟨.ok w.now, decide_eq_true rfl⟩
  | uuid4 => exact ⟨.ok ⟨0⟩, rfl⟩
  | redis cmd => exact ⟨.error (.redisError false []), rfl⟩
  | query q => exact ⟨.error (.sqlAlchemyError false []), by cases q <;> rfl⟩
  | add row => exact ⟨.ok (), rfl⟩
  | commit => exact ⟨.error (.sqlAlchemyError false []), rfl⟩
  | close => exact ⟨.ok (), rfl⟩
  | _ => cases answerable

theorem requestGrant_answerable (agentId : Uuid) (toolName scope : Str) :
    Within (serve lib svc (.requestGrant agentId toolName scope)) Op.isAnswerable := by
  refine .bind (.bind (.attempt ?_) fun ended => .bind (within_op rfl) fun _ =>
    Prog.uses_ofExcept _) fun _ => trivial
  refine .bind (.ite (fun _ => .bind (.bind (within_op rfl) fun _ => .bind (within_op rfl) fun _ =>
      .ite (fun _ => .bind (within_op rfl) fun _ => trivial) fun _ => trivial) fun _ =>
        .ite (fun _ => trivial) fun _ => trivial) fun _ => trivial) fun _ =>
    .bind (within_op rfl) fun found => ?_
  split
  · trivial
  · refine .bind (Prog.uses_ofExcept _) fun tool => .bind (within_op rfl) fun account => ?_
    split
    · trivial
    · exact .bind (within_op rfl) fun now => .bind (within_op rfl) fun count =>
        .ite (fun _ => trivial) fun _ => .bind (within_op rfl) fun id =>
        .bind (Prog.uses_ofExcept _) fun expiresAt => .bind (Prog.uses_ofExcept _) fun token =>
        .bind (within_op rfl) fun _ => .bind (within_op rfl) fun _ =>
        .ite (fun _ => .bind (.bind (within_op rfl) fun _ => trivial) fun _ => trivial)
        fun _ => trivial

section Held

variable {now : Time} {c : Broker}
  (run : (broker lib svc lossy).Reaches (.start (World.fresh now)) c)

include run

/-- A row is locked exactly while a program holds it. -/
theorem mem_locks_iff (id : Uuid) : id ∈ c.world.locks ↔
    ∃ (i : Nat) (t : Thread BrokerSig Request Response), c.threads[i]? = some t ∧ Holds id t := by
  constructor
  · intro there
    obtain ⟨i, t, thread, held⟩ := (run_locked run).held id there
    exact ⟨i, t, thread, holds_of_locked run thread held⟩
  · rintro ⟨i, t, thread, holds⟩
    exact (run_locking run).locked i t thread id holds.locked

/-- No row has two holders. -/
theorem Holds.unique {id : Uuid} {i j : Nat} {t u : Thread BrokerSig Request Response}
    (thread : c.threads[i]? = some t) (thread' : c.threads[j]? = some u) (holds : Holds id t)
    (holds' : Holds id u) : i = j := by
  by_contra other
  exact (run_locking run).apart i j t u thread thread' other id holds.locked holds'.locked

/-- Its holder alone can let a row go. -/
theorem Holds.released {id : Uuid} {i : Nat} {t : Thread BrokerSig Request Response}
    (thread : c.threads[i]? = some t) (holds : Holds id t) :
    ∃ c', (broker lib svc lossy).Reaches c c' ∧ id ∉ c'.world.locks ∧
      ∀ j, j ≠ i → c'.threads[j]? = c.threads[j]? := by
  obtain ⟨⟨toolName, scope, request⟩, -⟩ := holds.holding
  have entry : wp (broker lib svc lossy) (.guarding fun _ (e : Op) => e.isAnswerable = true)
      (serve lib svc t.req) (fun _ _ => True) [] :=
    wp_guarded (request ▸ requestGrant_answerable id toolName scope)
    fun _ _ answerable => answerable
  have under := Machine.Reaches.under_start run thread entry (Role.met_guarding _ _)
  obtain ⟨c', alone⟩ := Machine.run_alone (fun w tr e answerable => w.answers tr answerable) under
    (r := t.req) thread
  refine ⟨c', alone.reaches, fun there => ?_, alone.others⟩
  obtain ⟨j, u, thread', holds'⟩ := (mem_locks_iff (run.trans alone.reaches) id).mp there
  by_cases same : j = i
  · -- the holder is over
    subst same
    obtain ⟨ended, tr, halted, -⟩ := alone.halted
    obtain rfl := Option.some.inj (halted.symm.trans thread')
    obtain ⟨e, next, -⟩ := holds'.running
    cases ended <;> cases next
  · rw [alone.others j same] at thread'
    exact same (Holds.unique run thread' thread holds' holds)

/-- A row is locked while one request for a grant of that agent holds it, within five
operations of its own. The holder waits for nobody, and alone can let the row go. -/
theorem locks_held : c.world.locks.Nodup ∧
    (∀ id, id ∈ c.world.locks ↔ ∃ (i : Nat) (t : Thread BrokerSig Request Response),
      c.threads[i]? = some t ∧ Holds id t) ∧
    (∀ (id : Uuid) (i j : Nat) (t u : Thread BrokerSig Request Response), c.threads[i]? = some t →
      c.threads[j]? = some u → Holds id t → Holds id u → i = j) ∧
    ∀ (id : Uuid) (i : Nat) (t : Thread BrokerSig Request Response), c.threads[i]? = some t →
      Holds id t → ∃ c', (broker lib svc lossy).Reaches c c' ∧ id ∉ c'.world.locks ∧ ∀ j, j ≠ i →
      c'.threads[j]? = c.threads[j]? :=
  ⟨(run_locked run).nodup, mem_locks_iff run, fun _ _ _ _ _ thread thread' =>
    Holds.unique run thread thread', fun _ _ _ => Holds.released run⟩

end Held

/-- The demo agent's row while a grant is issued for it. -/
theorem locks_held_demo : ∃ c : Broker,
    (broker Demo.lib Demo.services false).Reaches (.start (World.fresh Demo.midnight)) c ∧
      c.world.locks = [Demo.agentId] ∧ c.world.locks.Nodup ∧
      ∃ (i : Nat) (t : Thread BrokerSig Request Response), c.threads[i]? = some t ∧
        Holds Demo.agentId t ∧ ∃ c', (broker Demo.lib Demo.services false).Reaches c c' ∧
          Demo.agentId ∉ c'.world.locks ∧ ∀ j, j ≠ i → c'.threads[j]? = c.threads[j]? := by
  have computed : (Demo.played false (Demo.issued.take 22)).any
      (fun c => c.world.locks = [Demo.agentId]) = true := by
    decide +kernel
  obtain ⟨c, run, computed⟩ := Demo.reached computed
  have locked : c.world.locks = [Demo.agentId] := of_decide_eq_true computed
  obtain ⟨nodup, held, -, released⟩ := locks_held run
  obtain ⟨i, t, thread, holds⟩ :=
    (held Demo.agentId).mp (by rw [locked]; exact List.mem_singleton_self _)
  exact ⟨c, run, locked, nodup, i, t, thread, holds, released _ i t thread holds⟩

/-! ## Sessions at the end -/

/-- No request works on a closed session. One that is over has closed its session as the
last thing it did, if it opened one, and has nothing uncommitted in it if it succeeded. -/
theorem sessions_disposed {w : World} {c : Broker}
    (run : (broker lib svc lossy).Reaches (.start w) c) {i : Nat}
    {t : Thread BrokerSig Request Response} (thread : c.threads[i]? = some t) :
    (∀ pre ev, pre ++ [ev] <+: t.trace → ev.op.isLocal = false →
      ∀ e ∈ pre, e.op.isClose = false) ∧
    ∀ r, t.prog = .ofExcept r → Disposes r t.trace ∧ Session.replay t.trace = Session.new := by
  refine ⟨fun pre ev sub session => ?_, fun r halted => ?_⟩
  · have guard := Machine.Reaches.kept run thread (wp_serve_disposes lib svc t.req)
      (Role.met_guarding _ _) sub
    exact guard.unclosed session
  · have disposes := disposed run thread halted
    exact ⟨disposes, disposes.fresh⟩

/-- The demo agent's grant request has disposed of its session. -/
theorem sessions_disposed_demo : ∃ (c : Broker) (t : Thread BrokerSig Request Response)
    (r : Except PyExn Response),
    (broker Demo.lib Demo.services false).Reaches (.start (World.fresh Demo.midnight)) c ∧
      c.threads[1]? = some t ∧ t.prog = .ofExcept r ∧ t.trace.length = 12 ∧ Disposes r t.trace ∧
      Session.replay t.trace = Session.new := by
  have computed : (Demo.played false Demo.issued).any (fun c =>
      c.threads[1]?.any fun t => Demo.ended t && t.trace.length = 12) = true := by
    decide +kernel
  obtain ⟨c, run, computed⟩ := Demo.reached computed
  obtain ⟨t, thread, computed⟩ := (Option.any_eq_true _ _).mp computed
  simp only [Bool.and_eq_true, decide_eq_true_eq] at computed
  obtain ⟨r, halted⟩ := Demo.finished computed.1
  exact ⟨c, t, r, run, thread, halted, computed.2, (sessions_disposed run thread).2 r halted⟩

end CredBroker
