import CredBroker.Mediation

/-!
# Issuance of grants

`request_grant` inserts its row in one commit, under a lock on the agent's row.
What comes after that commit can no longer take the row back; what comes before
it leaves the tables as they are. While the lock is held nobody else issues for
the agent, so the count that was checked still bounds the active grants when the
row is inserted.
-/

namespace CredBroker

open Python Interaction

variable {lib : Lib} {svc : Services} {lossy : Bool}

/-! ## The events of an issuance -/

namespace Op

/-- What is performed before the row lock is asked for. -/
def isPacing : Op → Bool
  | .clock | .redis _ => true
  | _ => false

def isCommit : Op → Bool
  | .commit => true
  | _ => false

def isAddGrant : Op → Bool
  | .add (.grant _) => true
  | _ => false

end Op

/-- From the row lock to the count of the active grants. -/
def counting (agentId : Uuid) (toolName scope : Str) (agent : AgentIdentity) (provider : Str)
    (account : ConnectedAccount) (now : Time) (count : Nat) : Trace BrokerSig :=
  [⟨.query (.agentForUpdate agentId), .ok (some agent)⟩,
    ⟨.query (.latestAccount agent.userId provider), .ok (some account)⟩, ⟨.clock, .ok now⟩,
    ⟨.query (.countActive agentId toolName scope now), .ok count⟩]

variable (svc) in
/-- What stands behind the commit of a new grant: a count below the limit, made
under the lock on the agent's row. -/
structure Issuing (agentId : Uuid) (toolName scope : Str) (grant : Grant) (now : Time)
    (count : Nat) (tr : Trace BrokerSig) : Prop where
  below : (count : Int) < svc.settings.maxActiveGrantsPerAgentScope
  agent_eq : grant.agentId = agentId
  tool_eq : grant.toolName = toolName
  scope_eq : grant.scope = scope
  counted : ∃ pacing agent provider account id, (∀ e ∈ pacing, e.op.isPacing = true) ∧
    tr = pacing ++ counting agentId toolName scope agent provider account now count ++
      [⟨.uuid4, .ok id⟩, ⟨.add (.grant grant), .ok ()⟩]

variable (svc) in
/-- Grants are inserted by `request_grant` only, and on these grounds. -/
def issueGuard : Request → Trace BrokerSig → Op → Prop
  | .requestGrant agentId toolName scope => fun tr e =>
    e = .commit → ∃ grant now count, Issuing svc agentId toolName scope grant now count tr
  | _ => fun _ e => ∀ grant, e ≠ .add (.grant grant)

/-- An exception is raised by a commit that took effect, or after it. -/
def Lapsed (tr : Trace BrokerSig) : Prop :=
  ∃ (pre : Trace BrokerSig) (a : BrokerSig.Ans .commit) (post : Trace BrokerSig),
    tr = pre ++ ⟨.commit, a⟩ :: post ∧ Applied a = true ∧
      ∃ e ∈ (⟨.commit, a⟩ : Event BrokerSig) :: post, ∃ x, e.ans = .error x

/-- How `request_grant` ends. -/
inductive Issuance (tr : Trace BrokerSig) : Except PyExn IssuedGrant → Prop
  | issued {grant} (unlapsed : ¬ Lapsed tr) : Issuance tr (.ok grant)
  | lapsed {x} (lapsed : Lapsed tr) : Issuance tr (.error x)
  | refused {x} (none : ∀ a : BrokerSig.Ans .commit, ⟨.commit, a⟩ ∈ tr → Applied a = false) :
      Issuance tr (.error x)

/-- How a request may end, as far as the issuance of grants goes. -/
def issuePost : Request → Post BrokerSig Response
  | .requestGrant .. => fun r tr => ∃ r', r = r'.map .issued ∧ Issuance tr r'
  | _ => fun _ _ => True

section Ends

variable {tr : Trace BrokerSig}

/-- Nothing is inserted without a commit. -/
theorem issuance_uncommitted (none : ∀ e ∈ tr, e.op.isCommit = false) (x : PyExn) :
    Post.closing (fun r tr => Issuance tr r) (.error x) tr := by
  intro closed _
  have unapplied : ∀ a : BrokerSig.Ans .commit, ⟨.commit, a⟩ ∈ tr ++ [⟨.close, closed⟩] →
      Applied a = false := by
    intro a member
    rcases List.mem_append.mp member with old | new
    · cases none _ old
    · simp at new
  cases closed <;> exact .refused unapplied

/-- Nor by a commit that took no effect. -/
theorem issuance_unapplied (none : ∀ e ∈ tr, e.op.isCommit = false) {x : PyExn}
    (unapplied : Applied (.error x : BrokerSig.Ans .commit) = false) :
    Post.closing (fun r tr => Issuance tr r) (.error x) (tr ++ [⟨.commit, .error x⟩]) := by
  intro closed _
  have unapplied : ∀ a : BrokerSig.Ans .commit,
      ⟨.commit, a⟩ ∈ tr ++ [⟨.commit, .error x⟩] ++ [⟨.close, closed⟩] → Applied a = false := by
    intro a member
    rcases List.mem_append.mp member with old | new
    · rcases List.mem_append.mp old with old | new
      · cases none _ old
      · cases List.mem_singleton.mp new
        exact unapplied
    · simp at new
  cases closed <;> exact .refused unapplied

/-- A commit that took effect, and an exception from then on. -/
theorem issuance_lapsed {a : BrokerSig.Ans .commit} {post : Trace BrokerSig}
    (applied : Applied a = true)
    (raised : ∃ e ∈ (⟨.commit, a⟩ : Event BrokerSig) :: post, ∃ x, e.ans = .error x) (x : PyExn) :
    Post.closing (fun r tr => Issuance tr r) (.error x) (tr ++ ⟨.commit, a⟩ :: post) := by
  intro closed _
  have lapsed : Lapsed (tr ++ ⟨.commit, a⟩ :: post ++ [⟨.close, closed⟩]) := by
    obtain ⟨e, member, raised⟩ := raised
    exact ⟨tr, a, post ++ [⟨.close, closed⟩], by simp, applied, e,
      List.mem_append_left _ member, raised⟩
  cases closed <;> exact .lapsed lapsed

/-- A commit after which all goes well, up to the closing of the session. -/
theorem issuance_issued (none : ∀ e ∈ tr, e.op.isCommit = false) {post : Trace BrokerSig}
    (ok : AllOk post) (grant : IssuedGrant) :
    Post.closing (fun r tr => Issuance tr r) (.ok grant) (tr ++ ⟨.commit, .ok ()⟩ :: post) := by
  intro closed fatal
  cases closed with
  | error x =>
    refine .lapsed ⟨tr, .ok (), post ++ [⟨.close, .error x⟩], by simp, rfl, ⟨.close, .error x⟩, ?_,
      x, rfl⟩
    simp
  | ok _ =>
    refine .issued ?_
    rintro ⟨pre, a, post', split, -, e, member, x, raised⟩
    -- the commit of the split is not among the events before
    have later : e ∈ (⟨.commit, .ok ()⟩ : Event BrokerSig) :: (post ++ [⟨.close, .ok ()⟩]) := by
      rw [List.append_assoc, List.cons_append] at split
      rcases List.append_eq_append_iff.mp split with ⟨mid, -, tail⟩ | ⟨mid, same, tail⟩
      · rw [tail]
        exact List.mem_append_right _ member
      · cases mid with
        | nil => rw [List.nil_append] at tail; rwa [← tail]
        | cons e' mid =>
          obtain ⟨rfl, -⟩ := List.cons.inj tail
          cases none ⟨.commit, a⟩ (by rw [same]; simp)
    have ok' : AllOk ((⟨.commit, .ok ()⟩ : Event BrokerSig) :: (post ++ [⟨.close, .ok ()⟩])) := by
      intro e' member'
      simp only [List.mem_cons, List.mem_append, List.not_mem_nil, or_false] at member'
      rcases member' with rfl | old | rfl
      · exact ⟨(), rfl⟩
      · exact ok e' old
      · exact ⟨(), rfl⟩
    obtain ⟨v, answered⟩ := ok' e later
    rw [raised] at answered
    cases answered

end Ends

/-! ## Requests under the guard -/

abbrev issueRole (svc : Services) (r : Request) : Role BrokerSig := .guarding (issueGuard svc r)

section Issue

variable {agentId : Uuid} {toolName scope : Str} {tr : Trace BrokerSig}

theorem issueGuard_of_ne {e : Op} (other : e ≠ .commit) :
    issueGuard svc (.requestGrant agentId toolName scope) tr e := fun same => (other same).elim

theorem checkGrantRate_uses (agentId : Uuid) : Within (checkGrantRate svc agentId) Op.isPacing := by
  unfold checkGrantRate
  split
  · refine .bind (.bind (within_op rfl) fun _ => .bind (within_op rfl) fun _ => ?_) fun _ => ?_
    · exact .ite (fun _ => .bind (within_op rfl) fun _ => trivial) fun _ => trivial
    · exact .ite (fun _ => trivial) fun _ => trivial
  · trivial

/-- The limiter only paces. -/
theorem wp_pacing {Q : Post BrokerSig Unit}
    (post : ∀ r pacing, (∀ e ∈ pacing, e.op.isPacing = true) → Q r (tr ++ pacing)) :
    wp (broker lib svc lossy) (issueRole svc (.requestGrant agentId toolName scope))
      (checkGrantRate svc agentId) Q tr := by
  refine wp_of_uses (checkGrantRate_uses agentId) (fun tr e pacing => issueGuard_of_ne ?_) post
  rintro rfl
  cases pacing

/-- `request_grant` commits under its lock, and ends as its commit went. -/
theorem wp_requestGrant_issuing :
    wp (broker lib svc lossy) (issueRole svc (.requestGrant agentId toolName scope))
      (requestGrant lib svc agentId toolName scope)
      (Post.closing fun r tr => Issuance tr r) [] := by
  unfold requestGrant
  rw [wp_bind]
  refine wp_pacing fun r pacing plain => ?_
  rw [List.nil_append]
  have uncommitted : ∀ {ext : Trace BrokerSig}, (∀ e ∈ ext, e.op.isCommit = false) →
      ∀ e ∈ pacing ++ ext, e.op.isCommit = false := by
    refine fun none => List.forall_mem_append.mpr ⟨fun e member => ?_, none⟩
    have paces := plain e member
    obtain ⟨e, a⟩ := e
    cases e <;> first | rfl | cases paces
  have refusal : ∀ (ext : Trace BrokerSig) (x : PyExn), (∀ e ∈ ext, e.op.isCommit = false) →
      Post.closing (fun r tr => Issuance tr r) (.error x) (pacing ++ ext) :=
    fun ext x none => issuance_uncommitted (uncommitted none) x
  cases r with
  | error x =>
    have ended := refusal [] x (by simp)
    rwa [List.append_nil] at ended
  | ok _ =>
    refine ⟨issueGuard_of_ne (by simp), fun a _ _ => ?_⟩
    rcases a with x | _ | agent
    · exact refusal _ _ (by simp [Op.isCommit])
    · exact refusal _ _ (by simp [Op.isCommit])
    · show wp _ _ ((Prog.ofExcept (checkPolicy lib agent toolName scope) :
        BrokerProg ToolAdapter) >>= _) _ _
      rw [wp_bind, wp_ofExcept]
      cases checkPolicy lib agent toolName scope with
      | error x => exact refusal _ _ (by simp [Op.isCommit])
      | ok tool =>
        refine ⟨issueGuard_of_ne (by simp), fun a _ _ => ?_⟩
        rw [List.append_assoc]
        rcases a with x | _ | account
        · exact refusal _ _ (by simp [Op.isCommit])
        · exact refusal _ _ (by simp [Op.isCommit])
        · refine ⟨issueGuard_of_ne (by simp), fun a may _ => ?_⟩
          obtain ⟨now, rfl⟩ := may_sync rfl may
          refine ⟨issueGuard_of_ne (by simp), fun a _ _ => ?_⟩
          rw [List.append_assoc, List.append_assoc]
          rcases a with x | activeCount
          · exact refusal _ _ (by simp [Op.isCommit])
          · show wp _ _ (if _ then _ else _) _ _
            split
            · exact refusal _ _ (by simp [Op.isCommit])
            · rename_i below
              refine ⟨issueGuard_of_ne (by simp), fun a may _ => ?_⟩
              obtain ⟨grantId, rfl⟩ := may_sync rfl may
              rw [List.append_assoc]
              show wp _ _ ((Prog.ofExcept (addSeconds now svc.settings.grantTokenTtlSeconds) :
                BrokerProg Time) >>= _) _ _
              rw [wp_bind, wp_ofExcept]
              cases addSeconds now svc.settings.grantTokenTtlSeconds with
              | error x => exact refusal _ _ (by simp [Op.isCommit])
              | ok expiresAt =>
                show wp _ _ ((Prog.ofExcept (signGrantToken lib svc grantId agentId toolName
                  scope now expiresAt) : BrokerProg Str) >>= _) _ _
                rw [wp_bind, wp_ofExcept]
                cases signGrantToken lib svc grantId agentId toolName scope now expiresAt with
                | error x => exact refusal _ _ (by simp [Op.isCommit])
                | ok token =>
                  refine ⟨issueGuard_of_ne (by simp), fun a may _ => ?_⟩
                  obtain ⟨⟨⟩, rfl⟩ := may_sync rfl may
                  rw [List.append_assoc]
                  refine ⟨fun _ => ⟨⟨grantId, agentId, account.id, toolName, scope,
                    hashToken lib token, now, expiresAt, none⟩, now, activeCount,
                    Int.not_le.mp below, rfl, rfl, rfl, pacing, agent, tool.provider, account,
                    grantId, plain, by simp [counting]⟩, fun a _ _ => ?_⟩
                  rcases a with x | _
                  · cases applied : Applied (.error x : BrokerSig.Ans .commit) with
                    | true =>
                      exact issuance_lapsed applied
                        ⟨⟨.commit, .error x⟩, List.mem_cons_self, x, rfl⟩ _
                    | false =>
                      exact issuance_unapplied (uncommitted (by simp [Op.isCommit])) applied
                  · show wp _ _ (if _ then _ else _) _ _
                    split
                    · refine ⟨issueGuard_of_ne (by simp), fun a _ _ => ?_⟩
                      rw [List.append_assoc]
                      rcases a with x | _
                      · exact issuance_lapsed rfl
                          ⟨⟨_, .error x⟩, List.mem_cons_of_mem _ (List.mem_singleton.mpr rfl), x,
                            rfl⟩ _
                      · exact issuance_issued (uncommitted (by simp [Op.isCommit]))
                          (by simp [AllOk]) _
                    · exact issuance_issued (uncommitted (by simp [Op.isCommit]))
                        (by simp [AllOk]) _

end Issue

/-- No other request adds a grant. -/
theorem wp_addless {α : Type} {p : BrokerProg α} {r : Request} {Q : Post BrokerSig α}
    (other : ∀ agentId toolName scope, r ≠ .requestGrant agentId toolName scope)
    (uses : Within p fun e => !e.isAddGrant) (post : ∀ r tr, Q r tr) :
    wp (broker lib svc lossy) (issueRole svc r) p Q [] := by
  refine wp_mono (wp_guarded uses fun tr e addless => ?_) fun r tr _ _ => post r tr
  cases r with
  | requestGrant agentId toolName scope => exact (other agentId toolName scope rfl).elim
  | _ =>
    rintro grant rfl
    cases addless

theorem revokeGrant_uses (grantId : Uuid) :
    Within (revokeGrant svc grantId) fun e => !e.isAddGrant := by
  refine .bind (within_op rfl) fun found => ?_
  split
  · trivial
  · refine .bind ?_ fun grant => ?_
    · exact .ite (fun _ => .bind (within_op rfl) fun _ => .bind (within_op rfl) fun _ =>
        .bind (within_op rfl) fun _ => trivial) fun _ => trivial
    · exact .ite (fun _ => .bind (.bind (within_op rfl) fun _ => .bind (within_op rfl) fun _ =>
        trivial) fun _ => trivial) fun _ => trivial

variable (lib svc) in
theorem wp_serve_issuing (r : Request) :
    wp (broker lib svc lossy) (issueRole svc r) (serve lib svc r) (issuePost r) [] := by
  have harmless : ∀ {e : Op}, e.isHarmless = true → (!e.isAddGrant) = true := by
    intro e harmless
    cases e with
    | add row => cases row <;> first | rfl | cases harmless
    | _ => rfl
  cases r with
  | createAgent body =>
    exact wp_map (wp_addless (by simp) ((createAgent_uses body).mono harmless) fun _ _ => trivial)
  | seedDemo =>
    exact wp_map (wp_addless (by simp)
      ((withSession_uses rfl seedDemo_uses).mono harmless) fun _ _ => trivial)
  | authorize provider userId =>
    exact wp_map (wp_addless (by simp) ((authorize_uses provider userId).mono harmless)
      fun _ _ => trivial)
  | callback request =>
    exact wp_map (wp_addless (by simp) ((callback_uses request).mono harmless) fun _ _ => trivial)
  | revokeGrant grantId =>
    exact wp_map (wp_addless (by simp) (withSession_uses rfl (revokeGrant_uses grantId))
      fun _ _ => trivial)
  | requestGrant agentId toolName scope =>
    refine wp_map (wp_mono (wp_withSession (fun _ => issueGuard_of_ne (by simp))
      wp_requestGrant_issuing) fun r tr _ ended => ⟨r, rfl, ended⟩)
  | invoke req =>
    refine wp_map (wp_role_mono (wp_mono (wp_invoke lib svc req) fun _ _ _ _ => trivial)
      (fun tr e guard grant added => ?_) fun _ _ _ => trivial)
    obtain ⟨audit, other⟩ := added ▸ guard
    cases other

section Runs

variable {w : World} {c : Broker} (run : (broker lib svc lossy).Reaches (.start w) c)

include run

/-- Every entry is behind its guard. -/
theorem entry_issuing {e : Entry BrokerSig World} (member : e ∈ c.hist) :
    ∃ t, c.threads[e.tid]? = some t ∧ issueGuard svc t.req e.past e.event.op := by
  obtain ⟨t, thread, -⟩ := run.owned member
  exact ⟨t, thread, run.guarded member thread (wp_serve_issuing lib svc t.req)
    (Role.met_guarding _ _)⟩

/-- `request_grant` that is over ended as its commit went. -/
theorem issuance_over {i : Nat} {t : Thread BrokerSig Request Response}
    (thread : c.threads[i]? = some t) {agentId : Uuid} {toolName scope : Str}
    (request : t.req = .requestGrant agentId toolName scope) {r : Except PyExn Response}
    (finished : t.prog = .ofExcept r) : ∃ r', r = r'.map .issued ∧ Issuance t.trace r' := by
  have under := Machine.Reaches.under_start run thread (wp_serve_issuing lib svc t.req)
    (Role.met_guarding _ _)
  rw [finished, wp_ofExcept, request] at under
  exact under

end Runs

/-! ## What an issuance commits -/

namespace Session

/-- Pacing leaves a session as it is. -/
theorem replay_pacing {pacing : Trace BrokerSig} (plain : ∀ e ∈ pacing, e.op.isPacing = true) :
    replay pacing = new := by
  induction pacing using List.reverseRecOn with
  | nil => rfl
  | append_singleton pacing e ih =>
    obtain ⟨plain, last⟩ := List.forall_mem_append.mp plain
    rw [replay_append_singleton, ih plain]
    have paces := last e (List.mem_singleton.mpr rfl)
    obtain ⟨e, a⟩ := e
    cases e with
    | clock | redis => rfl
    | _ => cases paces

/-- The session of an issuance, when it comes to its commit. -/
theorem replay_issuing {agentId : Uuid} {toolName scope : Str} {grant : Grant} {now : Time}
    {count : Nat} {tr : Trace BrokerSig}
    (issuing : Issuing svc agentId toolName scope grant now count tr) :
    replay tr = { new with added := [.grant grant], locked := [agentId] } := by
  obtain ⟨pacing, agent, provider, account, id, plain, rfl⟩ := issuing.counted
  have start : pacing.foldl note new = new := replay_pacing plain
  rw [replay, List.append_assoc, List.foldl_append, start]
  rfl

end Session

/-- The commit of an issuance inserts the grant, and does nothing else. -/
theorem Issuing.after_db {agentId : Uuid} {toolName scope : Str} {grant : Grant} {now : Time}
    {count : Nat} {tr : Trace BrokerSig}
    (issuing : Issuing svc agentId toolName scope grant now count tr) {w : World}
    {a : BrokerSig.Ans .commit} (applied : Applied a = true)
    (permits : w.permits tr ⟨.commit, a⟩ = true) :
    (w.after tr ⟨.commit, a⟩).db = w.db.insert (.grant grant) := by
  have session := Session.replay_issuing issuing
  have inserted : (Session.replay tr).apply w.db =
      if w.db.accepts (.grant grant) then some (w.db.insert (.grant grant)) else none := by
    simp [session, Session.apply, Session.updates, Session.new, Database.insertAll?]
  simp only [World.permits, applied, Bool.not_true, Bool.false_or, Bool.and_eq_true] at permits
  rw [inserted] at permits
  have accepted : w.db.accepts (.grant grant) = true := by
    by_contra refused
    simp [refused] at permits
  simp [World.after, applied, inserted, accepted]

/-- An event that is no commit that took effect leaves the tables alone. -/
theorem World.after_db_unapplied (w : World) (tr : Trace BrokerSig) {e : Event BrokerSig}
    (none : ∀ a : BrokerSig.Ans .commit, e = ⟨.commit, a⟩ → Applied a = false) :
    (w.after tr e).db = w.db := by
  by_cases commit : e.op = .commit
  · obtain ⟨e, a⟩ := e
    obtain rfl : e = .commit := commit
    simp [World.after, none a rfl]
  · exact (w.after_framed tr e).db commit

/-- The active grants of an agent, a tool and a scope. -/
def Database.active (db : Database) (agentId : Uuid) (toolName scope : Str) (now : Time) : Nat :=
  db.grants.countP fun row =>
    row.agentId = agentId ∧ row.toolName = toolName ∧ row.scope = scope ∧
      row.revokedAt = none ∧ now < row.expiresAt

/-- Whatever its collaborators raise, `request_grant` that raises has left the
tables as they were, exactly if nothing was raised once its commit took effect. -/
theorem requestGrant_atomic_iff {w : World} {c : Broker}
    (run : (broker lib svc lossy).Reaches (.start w) c) {i : Nat}
    {t : Thread BrokerSig Request Response} (thread : c.threads[i]? = some t) {agentId : Uuid}
    {toolName scope : Str} (request : t.req = .requestGrant agentId toolName scope)
    {r : Except PyExn Response} (finished : t.prog = .ofExcept r) :
    ((∃ x, r = .error x) →
      ∀ e ∈ c.hist, e.tid = i → (e.pre.after e.past e.event).db = e.pre.db) ↔ ¬ Lapsed t.trace := by
  obtain ⟨r', rfl, issuance⟩ := issuance_over run thread request finished
  constructor
  · rintro atomic lapsed
    have raised : ∃ x, r'.map Response.issued = .error x := by
      cases issuance with
      | issued unlapsed => exact (unlapsed lapsed).elim
      | lapsed _ => exact ⟨_, rfl⟩
      | refused _ => exact ⟨_, rfl⟩
    obtain ⟨pre, a, post, split, applied, -⟩ := lapsed
    obtain ⟨h₁, h₂, v, cut⟩ := run.recorded thread split (by simp [Config.start])
    have member : (⟨i, v, pre, ⟨.commit, a⟩⟩ : Entry BrokerSig World) ∈ c.hist := by simp [cut]
    obtain ⟨u, thread', guard⟩ := entry_issuing run member
    obtain rfl := Option.some.inj (thread.symm.trans thread')
    rw [request] at guard
    obtain ⟨grant, now, count, issuing⟩ := guard rfl
    have inserted := issuing.after_db applied (entry_permitted run member)
    have lengths := congrArg (fun db => db.grants.length)
      (inserted.symm.trans (atomic raised _ member rfl))
    simp [Database.insert] at lengths
  · rintro unlapsed ⟨x, raised⟩ e member rfl
    cases issuance with
    | issued _ => cases raised
    | lapsed lapsed => exact (unlapsed lapsed).elim
    | refused none =>
      obtain ⟨u, thread', sub⟩ := run.owned member
      obtain rfl := Option.some.inj (thread.symm.trans thread')
      refine World.after_db_unapplied _ _ fun a same => none a ?_
      exact sub.subset (by simp [← same])

namespace Demo

/-- The program issues a grant to the demo agent. -/
def isIssue (t : Thread BrokerSig Request Response) : Bool :=
  match t.req with
  | .requestGrant id toolName scope => id = agentId ∧ toolName = "drive.read" ∧ scope = "read"
  | _ => false

theorem of_isIssue {t : Thread BrokerSig Request Response} (issue : isIssue t = true) :
    t.req = .requestGrant agentId "drive.read" "read" := by
  unfold isIssue at issue
  split at issue
  · rename_i request
    obtain ⟨rfl, rfl, rfl⟩ := of_decide_eq_true issue
    exact request
  · cases issue

def raised (t : Thread BrokerSig Request Response) : Bool :=
  match t.prog with
  | .throw _ => true
  | _ => false

theorem of_raised {t : Thread BrokerSig Request Response} (threw : raised t = true) :
    ∃ x, t.prog = .throw x := by
  unfold raised at threw
  split at threw
  · exact ⟨_, by assumption⟩
  · cases threw

end Demo

/-- The agent of the demo asks for a second grant, and is refused without a trace. -/
theorem requestGrant_atomic_iff_demo : ∃ (c : Broker) (t : Thread BrokerSig Request Response)
    (x : PyExn),
    (broker Demo.lib Demo.services false).Reaches (.start (World.fresh Demo.midnight)) c ∧
      c.threads[2]? = some t ∧ t.req = .requestGrant Demo.agentId "drive.read" "read" ∧
      t.prog = .throw x ∧ t.trace ≠ [] ∧
      ∀ e ∈ c.hist, e.tid = 2 → (e.pre.after e.past e.event).db = e.pre.db := by
  have computed : (Demo.played false (Demo.issued ++
      .spawn (.requestGrant Demo.agentId "drive.read" "read") :: Demo.run 2 7)).any (fun c =>
        c.threads[2]?.any fun t => Demo.isIssue t && Demo.raised t &&
          t.trace.length == 7 && t.trace.all fun e => !e.op.isCommit) = true := by decide +kernel
  obtain ⟨c, run, computed⟩ := Demo.reached computed
  obtain ⟨t, thread, computed⟩ := (Option.any_eq_true _ _).mp computed
  simp only [Bool.and_eq_true, List.all_eq_true, Bool.not_eq_true', beq_iff_eq] at computed
  obtain ⟨⟨⟨request, raised⟩, length⟩, uncommitted⟩ := computed
  have request := Demo.of_isIssue request
  obtain ⟨x, raised⟩ := Demo.of_raised raised
  refine ⟨c, t, x, run, thread, request, raised, fun empty => by simp [empty] at length, ?_⟩
  refine (requestGrant_atomic_iff run thread request (r := .error x) raised).mpr ?_ ⟨x, rfl⟩
  rintro ⟨pre, a, post, split, -⟩
  cases uncommitted ⟨.commit, a⟩ (by simp [split])

/-- The cache write fails after the commit: the caller gets an error and no token,
and the row takes the one slot that the agent has. -/
theorem requestGrant_leaked_demo :
    ∃ (c : Broker) (t : Thread BrokerSig Request Response) (x : PyExn)
      (e : Entry BrokerSig World),
    (broker Demo.lib Demo.services false).Reaches (.start (World.fresh Demo.midnight)) c ∧
      c.threads[1]? = some t ∧ t.req = .requestGrant Demo.agentId "drive.read" "read" ∧
      t.prog = .throw x ∧ e ∈ c.hist ∧ e.tid = 1 ∧ e.pre.db.grants = [] ∧
      (e.pre.after e.past e.event).db.grants.length = 1 ∧
      (c.world.db.active Demo.agentId "drive.read" "read" c.world.now : Int) =
        Demo.services.settings.maxActiveGrantsPerAgentScope := by
  have computed : (Demo.played false (.spawn .seedDemo :: Demo.run 0 14 ++
      .spawn (.requestGrant Demo.agentId "drive.read" "read") :: Demo.run 1 10 ++
      Demo.raise 1 (.redisError false "timeout") ++ Demo.run 1 1)).any (fun c =>
        (c.threads[1]?.any fun t => Demo.isIssue t && Demo.raised t) &&
        (c.hist.any fun e => e.tid == 1 && e.pre.db.grants.isEmpty &&
          (e.pre.after e.past e.event).db.grants.length == 1) &&
        c.world.db.active Demo.agentId "drive.read" "read" c.world.now == 1) = true := by
    decide +kernel
  obtain ⟨c, run, computed⟩ := Demo.reached computed
  simp only [Bool.and_eq_true, List.any_eq_true, List.isEmpty_iff, beq_iff_eq] at computed
  obtain ⟨⟨caller, e, member, ⟨mine, empty⟩, inserted⟩, count⟩ := computed
  obtain ⟨t, thread, caller⟩ := (Option.any_eq_true _ _).mp caller
  simp only [Bool.and_eq_true] at caller
  obtain ⟨x, raised⟩ := Demo.of_raised caller.2
  exact ⟨c, t, x, e, run, thread, Demo.of_isIssue caller.1, raised, member, mine, empty, inserted,
    by rw [count]; rfl⟩

end CredBroker
