import CredBroker.Accounts
import CredBroker.Issuance
import CredBroker.Revocation

/-!
# The rows of grants

What one step of the broker does to the `grants` table: `request_grant` appends its
row, `revoke_grant` marks one, and nothing else touches it. The invariants of the table
are drawn from `step_grants` alone.
-/

namespace CredBroker

open Python Interaction

variable {lib : Lib} {svc : Services} {lossy : Bool}

/-! ## Requests that leave the table alone -/

/-- Whether an operation prepares nothing for the table of grants. -/
def Op.leavesGrants : Op → Bool
  | .setGrant _ | .add (.grant _) => false
  | _ => true

/-- The other requests leave the table alone. -/
def grantGuard : Request → Op → Prop
  | .requestGrant .. | .revokeGrant _ => fun _ => True
  | _ => fun e => e.leavesGrants = true

theorem Op.leavesGrants_of_isHarmless {e : Op} (harmless : e.isHarmless = true) :
    e.leavesGrants = true := by
  cases e with
  | add row => cases row <;> first | rfl | cases harmless
  | setGrant attr => cases harmless
  | _ => rfl

variable (lib svc) in
theorem wp_serve_grants (r : Request) :
    wp (broker lib svc lossy) (.guarding fun _ => grantGuard r) (serve lib svc r)
      (fun _ _ => True) [] := by
  have harmless : ∀ {α : Type} {p : BrokerProg α}, Within p Op.isHarmless →
      wp (broker lib svc lossy) (.guarding fun _ e => e.leavesGrants = true) p
        (fun _ _ => True) [] :=
    fun uses => wp_guarded uses fun _ _ => Op.leavesGrants_of_isHarmless
  cases r with
  | createAgent body => exact wp_map (harmless (createAgent_uses body))
  | seedDemo => exact wp_map (harmless (withSession_uses rfl seedDemo_uses))
  | authorize provider userId => exact wp_map (harmless (authorize_uses provider userId))
  | callback request => exact wp_map (harmless (callback_uses request))
  | requestGrant agentId toolName scope => exact wp_free fun _ _ => trivial
  | revokeGrant grantId => exact wp_free fun _ _ => trivial
  | invoke req =>
    apply wp_map
    refine wp_role_mono (wp_mono (wp_invoke lib svc req) fun _ _ _ _ => trivial) ?_
      fun _ _ _ => trivial
    intro tr e guard
    cases e with
    | setGrant attr => exact guard.elim
    | add row =>
      obtain ⟨audit, rfl⟩ := guard
      rfl
    | _ => rfl

/-! ## Commits that leave the table alone -/

theorem Database.update_grants_of_account (db : Database) (id : Uuid)
    {stored assigned : ConnectedAccount} {attr : Attr}
    (changes : attr ∈ Session.accountChanges stored assigned) :
    (db.update id attr).grants = db.grants := by
  have kept : ∀ g : Grant, g.set attr = g := by
    intro g
    cases attr with
    | revokedAt value =>
      simp only [Session.accountChanges, List.mem_append] at changes
      rcases changes with (access | refresh) | expires
      · split at access <;> simp at access
      · split at refresh <;> simp at refresh
      · split at expires <;> simp at expires
    | _ => rfl
  simp [Database.update, kept]

theorem Database.insertAll_grants {rows : List Row} {db db' : Database}
    (others : ∀ grant, Row.grant grant ∉ rows) (inserted : db.insertAll? rows = some db') :
    db'.grants = db.grants := by
  induction rows generalizing db with
  | nil =>
    obtain rfl := Option.some.inj inserted
    rfl
  | cons row rows ih =>
    rw [insertAll?] at inserted
    split at inserted
    · rw [ih (fun grant member => others grant (List.mem_cons_of_mem _ member)) inserted]
      cases row with
      | grant row => exact (others row List.mem_cons_self).elim
      | _ => rfl
    · cases inserted

/-- A session that was handed nothing for the table commits nothing to it. -/
theorem Session.apply_grants {tr : Trace BrokerSig}
    (leaves : ∀ e ∈ tr, e.op.leavesGrants = true) {db db' : Database}
    (applied : (Session.replay tr).apply db = some db') : db'.grants = db.grants := by
  have unset : ∀ e ∈ tr, ∀ attr, e.op ≠ .setGrant attr := by
    intro e member attr assigns
    have leaves := leaves e member
    rw [assigns] at leaves
    cases leaves
  have unadded : ∀ grant, Row.grant grant ∉ (Session.replay tr).added := by
    intro grant member
    obtain ⟨pre, a, sub⟩ := Session.mem_replay_added member
    cases leaves _ (sub.subset (List.mem_append_right _ (List.mem_singleton_self _)))
  have updated : ∀ (updates : List (Uuid × Attr)) (db : Database),
      (∀ u ∈ updates, ∀ db : Database, (db.update u.1 u.2).grants = db.grants) →
      (updates.foldl (fun db u => db.update u.1 u.2) db).grants = db.grants := by
    intro updates
    induction updates with
    | nil => exact fun db _ => rfl
    | cons u updates ih =>
      intro db kept
      rw [List.foldl_cons, ih _ fun u member => kept u (List.mem_cons_of_mem _ member)]
      exact kept u List.mem_cons_self db
  rw [Database.insertAll_grants unadded applied, updated]
  intro u member db
  rw [Session.updates_of_grants unset] at member
  cases held : (Session.replay tr).account with
  | none =>
    rw [held] at member
    cases member
  | some row =>
    rw [held] at member
    obtain ⟨attr, changes, rfl⟩ := List.mem_map.mp member
    exact db.update_grants_of_account _ changes

/-! ## One step -/

/-- An entry is the commit, in effect, of a revocation of the grant that read this instant. -/
structure Marks (c : Broker) (id : Uuid) (now : Time) (g : Entry BrokerSig World) : Prop where
  member : g ∈ c.hist
  commits : ∃ a : BrokerSig.Ans .commit, g.event = ⟨.commit, a⟩ ∧ Applied a = true
  request : ∃ t, c.threads[g.tid]? = some t ∧ t.req = .revokeGrant id
  read : ⟨.clock, .ok now⟩ ∈ g.past

/-- An entry is the commit, in effect, of the issuance of this grant. -/
structure Issues (svc : Services) (c : Broker) (grant : Grant) (g : Entry BrokerSig World) :
    Prop where
  member : g ∈ c.hist
  commits : ∃ a : BrokerSig.Ans .commit, g.event = ⟨.commit, a⟩ ∧ Applied a = true
  issuing : ∃ t agentId toolName scope now count, c.threads[g.tid]? = some t ∧
    t.req = .requestGrant agentId toolName scope ∧
    Issuing svc agentId toolName scope grant now count g.past

/-- What a step does to the table. -/
inductive GrantStep (svc : Services) (b b' : Broker) : Prop
  | same (grants : b'.world.db.grants = b.world.db.grants)
  | issued {grant : Grant} {g : Entry BrokerSig World} (hist : b'.hist = b.hist ++ [g])
      (pre : g.pre = b.world) (issues : Issues svc b' grant g)
      (grants : b'.world.db.grants = b.world.db.grants ++ [grant])
  | revoked {id : Uuid} {now : Time} {g : Entry BrokerSig World} (hist : b'.hist = b.hist ++ [g])
      (pre : g.pre = b.world) (marks : Marks b' id now g)
      (grants : b'.world.db.grants = (b.world.db.update id (.revokedAt (some now))).grants)

section Run

variable {w : World} {c : Broker} (run : (broker lib svc lossy).Reaches (.start w) c)

theorem Marks.mono {c' : Broker} (rest : (broker lib svc lossy).Reaches c c') {id : Uuid}
    {now : Time} {g : Entry BrokerSig World} (marks : Marks c id now g) : Marks c' id now g := by
  obtain ⟨t, thread, request⟩ := marks.request
  obtain ⟨t', thread', same, -⟩ := Machine.Reaches.thread_mono rest thread
  exact ⟨rest.hist_mono.subset marks.member, marks.commits, ⟨t', thread', same.trans request⟩,
    marks.read⟩

include run

/-- The row that a revocation has loaded is the one it marks. -/
theorem Marks.spec {id : Uuid} {now : Time} {g : Entry BrokerSig World} (marks : Marks c id now g) :
    ∃ grant, grant.revokedAt = none ∧ grant.id = id ∧ g.past = markingOf id grant now := by
  obtain ⟨a, commits, -⟩ := marks.commits
  obtain ⟨t, thread, request⟩ := marks.request
  obtain ⟨u, there, sub, guard⟩ := entry_kept run marks.member
  obtain rfl := Option.some.inj (there.symm.trans thread)
  rw [request] at guard
  obtain ⟨grant, now', unrevoked, past⟩ := guard.2 (by rw [commits])
  have read := marks.read
  obtain rfl : now = now' := by simpa [past] using read
  have loaded : (⟨.query (.grantById id), .ok (some grant)⟩ : Event BrokerSig) ∈ u.trace := by
    apply sub.subset
    rw [past]
    simp
  obtain ⟨v, answered, -⟩ := read_truthful run thread loaded
  have found : v.db.grants.find? (·.id = id) = some grant := (of_decide_eq_true answered).symm
  exact ⟨grant, unrevoked, by simpa using List.find?_some found, past⟩

/-- The commit of an issuance follows the insertion of its row. -/
theorem Issues.added {grant : Grant} {g : Entry BrokerSig World} (issues : Issues svc c grant g) :
    ∃ t agentId toolName scope pre, c.threads[g.tid]? = some t ∧
      t.req = .requestGrant agentId toolName scope ∧
      pre ++ [⟨.add (.grant grant), .ok ()⟩] <+: t.trace := by
  obtain ⟨t, agentId, toolName, scope, now, count, thread, request, issuing⟩ := issues.issuing
  obtain ⟨pacing, agent, provider, account, id, -, past⟩ := issuing.counted
  obtain ⟨u, there, sub, -⟩ := entry_kept run issues.member
  obtain rfl := Option.some.inj (there.symm.trans thread)
  have whole : g.past = (pacing ++ counting agentId toolName scope agent provider account
      now count ++ [⟨.uuid4, .ok id⟩]) ++ [⟨.add (.grant grant), .ok ()⟩] := by
    rw [past, List.append_assoc _ [_] [_]]
    rfl
  exact ⟨u, agentId, toolName, scope, _, thread, request,
    whole ▸ (List.prefix_append _ _).trans sub⟩

/-- A grant is issued unrevoked. -/
theorem Issues.unrevoked {grant : Grant} {g : Entry BrokerSig World}
    (issues : Issues svc c grant g) : grant.revokedAt = none := by
  obtain ⟨t, agentId, toolName, scope, pre, thread, request, sub⟩ := issues.added run
  have guard := kept run thread sub
  rw [request] at guard
  exact Issuable.unrevoked guard

/-- What a commit does to the table. -/
theorem commit_grants {i : Nat} {t : Thread BrokerSig Request Response}
    (thread : c.threads[i]? = some t) {k : BrokerSig.Ans .commit → BrokerProg Response}
    (pending : t.prog = .call .commit k) {a : BrokerSig.Ans .commit}
    (permits : c.world.permits t.trace ⟨.commit, a⟩ = true) (applied : Applied a = true) :
    GrantStep svc c (c.answer (broker lib svc lossy) i t ⟨.commit, a⟩ (k a)) := by
  have run' : (broker lib svc lossy).Reaches (.start w)
      (c.answer (broker lib svc lossy) i t ⟨.commit, a⟩ (k a)) :=
    run.tail (.answer thread pending permits)
  have there := Config.answer_self (broker lib svc lossy) thread ⟨.commit, a⟩ (k a)
  have last : (⟨i, c.world, t.trace, ⟨.commit, a⟩⟩ : Entry BrokerSig World) ∈
      (c.answer (broker lib svc lossy) i t ⟨.commit, a⟩ (k a)).hist :=
    List.mem_append_right _ (List.mem_singleton_self _)
  obtain ⟨db', commit⟩ : ∃ db', (Session.replay t.trace).apply c.world.db = some db' := by
    simp only [World.permits, applied, Bool.not_true, Bool.false_or, Bool.and_eq_true] at permits
    exact Option.isSome_iff_exists.mp permits.2
  have db_eq : (c.answer (broker lib svc lossy) i t ⟨.commit, a⟩ (k a)).world.db = db' := by
    show (c.world.after t.trace ⟨.commit, a⟩).db = db'
    simp [World.after, applied, commit]
  have leaves (other : ∀ e, grantGuard t.req e → e.leavesGrants = true) :
      GrantStep svc c (c.answer (broker lib svc lossy) i t ⟨.commit, a⟩ (k a)) := by
    apply GrantStep.same
    rw [db_eq]
    apply Session.apply_grants (fun e member => other _ ?_) commit
    obtain ⟨pre, post, cut⟩ := List.append_of_mem member
    have sub : pre ++ [e] <+: t.trace := ⟨post, by simp [cut]⟩
    exact run.kept thread (wp_serve_grants lib svc t.req) (Role.met_guarding _ _) sub
  cases request : t.req with
  | requestGrant agentId toolName scope =>
    obtain ⟨u, there', guard⟩ := entry_issuing run' last
    obtain rfl := Option.some.inj (there.symm.trans there')
    dsimp only at guard
    rw [request] at guard
    obtain ⟨grant, now, count, issuing⟩ := guard rfl
    refine .issued rfl rfl ⟨last, ⟨a, rfl, applied⟩, _, agentId, toolName, scope, now, count,
      there, request, issuing⟩ ?_
    exact congrArg Database.grants (issuing.after_db applied permits)
  | revokeGrant id =>
    have guard := kept run' there List.prefix_rfl
    dsimp only at guard
    rw [request] at guard
    obtain ⟨grant, now, -, past⟩ := guard.2 rfl
    have marks : Marks (c.answer (broker lib svc lossy) i t ⟨.commit, a⟩ (k a)) id now
        ⟨i, c.world, t.trace, ⟨.commit, a⟩⟩ :=
      ⟨last, ⟨a, rfl, applied⟩, ⟨_, there, request⟩, by simp [past]⟩
    obtain ⟨row, unrevoked, named, past⟩ := marks.spec run'
    apply GrantStep.revoked rfl rfl marks
    rw [show t.trace = _ from past, markingOf_apply unrevoked, named] at commit
    rw [db_eq, ← Option.some.inj commit]
  | _ => exact leaves fun e guard => by rw [request] at guard; exact guard

/-- What one step does to the table. -/
theorem step_grants {c' : Broker} (step : (broker lib svc lossy).Step c c') :
    GrantStep svc c c' := by
  cases step with
  | spawn r => exact .same rfl
  | nudge n moved => exact .same (by rw [World.nudge_db moved])
  | @answer i t e k a thread pending permits =>
    by_cases unapplied : ∀ a' : BrokerSig.Ans .commit, (⟨e, a⟩ : Event BrokerSig) = ⟨.commit, a'⟩ →
        Applied a' = false
    · apply GrantStep.same
      show (c.world.after t.trace ⟨e, a⟩).db.grants = _
      rw [World.after_db_unapplied _ _ unapplied]
    · obtain ⟨a', effective⟩ := not_forall.mp unapplied
      obtain ⟨same, applied⟩ := Classical.not_imp.mp effective
      cases same
      exact commit_grants run thread pending permits (Bool.not_eq_false _ ▸ applied)

end Run

end CredBroker
