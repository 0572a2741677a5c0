import CredBroker.Tenancy

/-!
# Revocation

A committed revocation is permanent, whatever becomes of Redis, and no
invocation that starts after it gets past the row. An invocation that is on its
way meets it at its next check, which the retries of a failed attempt do not
make.
-/

namespace CredBroker

open Python Interaction

variable {lib : Lib} {svc : Services} {lossy : Bool}

/-! ## The row -/

/-- The grant is there, and revoked. -/
def Database.Revoked (db : Database) (id : Uuid) : Prop :=
  (∃ grant ∈ db.grants, grant.id = id) ∧
    ∀ grant ∈ db.grants, grant.id = id → grant.revokedAt.isSome = true

theorem Grant.issued_id {g g' : Grant} (same : g'.issued = g.issued) : g'.id = g.id := by
  simp only [Grant.issued, Grant.mk.injEq] at same
  exact same.1

theorem Grant.issued_hash {g g' : Grant} (same : g'.issued = g.issued) :
    g'.grantTokenHash = g.grantTokenHash := by
  simp only [Grant.issued, Grant.mk.injEq] at same
  exact same.2.2.2.2.2.1

/-- No growth of the tables takes a revocation back. -/
theorem Database.Revoked.mono {db db' : Database} {id : Uuid} (revoked : db.Revoked id)
    (grows : db.Grows db') (keyed : db'.Keyed) : db'.Revoked id := by
  obtain ⟨⟨grant, member, named⟩, all⟩ := revoked
  obtain ⟨row, there, same, stays⟩ := grows.grants grant member
  have row_id : row.id = id := (Grant.issued_id same).trans named
  refine ⟨⟨row, there, row_id⟩, fun row' there' named' => ?_⟩
  obtain rfl := Database.eq_of_key keyed.grants there' there (named'.trans row_id.symm)
  exact stays (all grant member named)

/-- The events of a revocation up to its commit. -/
def markingOf (id : Uuid) (grant : Grant) (now : Time) : Trace BrokerSig :=
  [⟨.query (.grantById id), .ok (some grant)⟩, ⟨.clock, .ok now⟩,
    ⟨.setGrant (.revokedAt (some now)), .ok ()⟩]

/-- What the session of a revocation commits. -/
theorem markingOf_apply {id : Uuid} {grant : Grant} {now : Time}
    (unrevoked : grant.revokedAt = none)
    (db : Database) : (Session.replay (markingOf id grant now)).apply db =
      some (db.update grant.id (.revokedAt (some now))) := by
  simp [markingOf, Session.replay, Session.note, Session.new, Session.apply, Session.updates,
    Session.grantChanges, Grant.set, unrevoked, Database.insertAll?]

theorem marking_apply {id : Uuid} {tr : Trace BrokerSig} (marking : Marking id tr)
    (db : Database) : ∃ grant now, ⟨.query (.grantById id), .ok (some grant)⟩ ∈ tr ∧
      (Session.replay tr).apply db = some (db.update grant.id (.revokedAt (some now))) := by
  obtain ⟨grant, now, unrevoked, rfl⟩ := marking
  exact ⟨grant, now, List.mem_cons_self, markingOf_apply unrevoked db⟩

/-- A request that revokes a grant, and whose commit has taken effect. -/
def hasRevoked (id : Uuid) (t : Thread BrokerSig Request Response) : Bool :=
  (match t.req with
    | .revokeGrant id' => id' = id
    | _ => false) &&
  t.trace.any fun
    | ⟨.commit, a⟩ => Applied a
    | _ => false

theorem hasRevoked_spec {id : Uuid} {t : Thread BrokerSig Request Response}
    (has : hasRevoked id t = true) :
    t.req = .revokeGrant id ∧
      ∃ a : BrokerSig.Ans .commit, ⟨.commit, a⟩ ∈ t.trace ∧ Applied a = true := by
  simp only [hasRevoked, Bool.and_eq_true, List.any_eq_true] at has
  obtain ⟨request, ⟨e, a⟩, member, applied⟩ := has
  constructor
  · split at request
    · rename_i id' same
      rw [same, of_decide_eq_true request]
    · cases request
  · cases e with
    | commit => exact ⟨a, member, applied⟩
    | _ => cases applied

/-- Program `i` has revoked the grant. -/
def RevokedBy (c : Broker) (id : Uuid) (i : Nat) : Prop :=
  ∃ t, c.threads[i]? = some t ∧ hasRevoked id t = true

/-- From then on the row is revoked. -/
theorem RevokedBy.revoked {w : World} {c : Broker} (keyed : w.db.Keyed)
    (run : (broker lib svc lossy).Reaches (.start w) c) {id : Uuid} {i : Nat}
    (by_ : RevokedBy c id i) : c.world.db.Revoked id := by
  obtain ⟨t, thread, has⟩ := by_
  obtain ⟨request, a, member, applied⟩ := hasRevoked_spec has
  obtain ⟨pre, v, sub, entry⟩ := entry_of_event run thread member
  have guard := kept run thread sub
  rw [request] at guard
  obtain ⟨h₁, h₂, split⟩ := List.append_of_mem entry
  obtain ⟨before⟩ := run.before (by simpa [Config.start] using split)
  obtain ⟨grant, now, found, wrote⟩ := marking_apply (guard.2 rfl) v.db
  -- the row was read earlier, so it is there when the commit comes
  have read : ⟨.query (.grantById id), .ok (some grant)⟩ ∈ before.thread.trace := by
    rw [before.trace_eq]
    exact found
  obtain ⟨u, answered, grows⟩ := read_truthful before.reached before.running read
  have isFound : u.db.grants.find? (·.id = id) = some grant := (of_decide_eq_true answered).symm
  have named : grant.id = id := by simpa using List.find?_some isFound
  obtain ⟨row, there, same, -⟩ := grows.grants grant (List.mem_of_find?_eq_some isFound)
  rw [before.world_eq] at there
  have toEnd := run_grows (before.reached.tail before.step) before.rest
  have atEnd : (before.mid.answer (broker lib svc lossy) i before.thread ⟨.commit, a⟩
      (before.next a)).world.db = v.db.update id (.revokedAt (some now)) := by
    show (before.mid.world.after before.thread.trace ⟨.commit, a⟩).db = _
    simp [World.after, before.world_eq, before.trace_eq, applied, wrote, named]
  have revoked : (v.db.update id (.revokedAt (some now))).Revoked id := by
    refine ⟨⟨_, List.mem_map_of_mem there, ?_⟩, ?_⟩
    · split <;> simp [Grant.issued_id same, named, Grant.set]
    · intro grant' member' named'
      obtain ⟨old, -, rfl⟩ := List.mem_map.mp member'
      split
      · rfl
      · rename_i other
        rw [if_neg other] at named'
        exact (other named').elim
  have keyedEnd := (run_grows .refl run).2 keyed
  exact (atEnd ▸ revoked).mono (atEnd ▸ toEnd.1) keyedEnd

/-! ## Invocations that start later -/

/-- The operations that reach out to a provider. -/
def Op.contacts : Op → Bool
  | .toolCall .. | .tokenEndpoint _ => true
  | _ => false

/-- Both come after the row was seen live. -/
theorem live_of_contact {req : InvokeRequest} {tr : Trace BrokerSig} {e : Op}
    (guard : invokeGuard lib svc req tr e) (contacts : e.contacts = true) :
    ∃ grant, Live lib req grant tr := by
  cases e with
  | toolCall tool accessToken arguments =>
    obtain ⟨-, -, -, grant, mediated⟩ := guard
    exact ⟨grant, mediated.admitted.live⟩
  | tokenEndpoint form =>
    obtain ⟨grant, tool, admitted⟩ := guard
    exact ⟨grant, admitted.live⟩
  | _ => cases contacts

theorem Live.unrevoked {req : InvokeRequest} {grant : Grant} {tr : Trace BrokerSig}
    (live : Live lib req grant tr) : grant.revokedAt = none := by
  obtain ⟨now, -, unrevoked, -⟩ := live
  exact unrevoked

theorem Live.mono {req : InvokeRequest} {grant : Grant} {tr tr' : Trace BrokerSig}
    (live : Live lib req grant tr) (grown : tr <+: tr') : Live lib req grant tr' := by
  obtain ⟨ext, rfl⟩ := grown
  exact live.append ext

/-- An invocation that starts when the grant is revoked does not see it live. -/
theorem not_live_of_revoked {w : World} {c c' : Broker} (keyed : w.db.Keyed)
    (run : (broker lib svc lossy).Reaches (.start w) c)
    (rest : (broker lib svc lossy).Reaches c c') {id : Uuid} (revoked : c.world.db.Revoked id)
    {j : Nat} {u : Thread BrokerSig Request Response} (later : c.threads.length ≤ j)
    (thread : c'.threads[j]? = some u) {req : InvokeRequest}
    (token : ∀ grant ∈ c.world.db.grants, grant.id = id →
      hashToken lib req.grantToken = grant.grantTokenHash) (grant : Grant) :
    ¬ Live lib req grant u.trace := by
  intro live
  obtain ⟨pre, post, cut⟩ := List.append_of_mem live.found
  obtain ⟨h₁, h₂, v, split⟩ := rest.recorded thread cut fun t₀ there =>
    absurd (List.getElem?_eq_some_iff.mp there).1 (Nat.not_lt.mpr later)
  obtain ⟨before⟩ := Machine.Reaches.before rest split
  have answered := of_decide_eq_true (World.permits_query before.permits)
  obtain ⟨member, hash⟩ := World.one_eq_some answered
  have grows := run_grows run before.reached
  rw [before.world_eq] at grows
  have keyed' := grows.2 ((run_grows .refl run).2 keyed)
  obtain ⟨row₀, there₀, named₀⟩ := revoked.1
  obtain ⟨row, there, same, -⟩ := grows.1.grants row₀ there₀
  -- the token is that of the revoked row
  obtain rfl : grant = row := Database.eq_of_key keyed'.tokens member there
    ((of_decide_eq_true hash).trans
      ((token row₀ there₀ named₀).trans (Grant.issued_hash same).symm))
  have still := (revoked.mono grows.1 keyed').2 grant member
    ((Grant.issued_id same).trans named₀)
  rw [live.unrevoked] at still
  cases still

/-- An invocation that does not see a row live reaches out to nobody and is denied. -/
theorem refused_of_not_live {w : World} {c : Broker}
    (run : (broker lib svc lossy).Reaches (.start w) c) {j : Nat}
    {u : Thread BrokerSig Request Response} (thread : c.threads[j]? = some u) {req : InvokeRequest}
    (request : u.req = .invoke req) (notLive : ∀ grant, ¬ Live lib req grant u.trace) :
    (∀ e ∈ u.trace, e.op.contacts = false) ∧ (∀ e, u.prog.next = some e → e.contacts = false) ∧
      ∀ o, u.prog = .ret (.outcome o) → o.status = .denied := by
  refine ⟨fun e member => ?_, fun e next => ?_, fun o finished => ?_⟩
  · rw [← Bool.not_eq_true]
    intro contacts
    obtain ⟨pre, v, sub, -⟩ := entry_of_event run thread member
    have guard := kept run thread sub
    rw [request] at guard
    obtain ⟨grant, live⟩ := live_of_contact guard contacts
    exact notLive grant (live.mono ((List.prefix_append _ _).trans sub))
  · rw [← Bool.not_eq_true]
    intro contacts
    have guard := next_kept run thread next
    rw [request] at guard
    obtain ⟨grant, live⟩ := live_of_contact guard contacts
    exact notLive grant live
  · have finished : u.prog = .ofExcept (.ok (.outcome o)) := finished
    obtain ⟨r, ended, concluded⟩ := invocation_concluded run thread request finished
    obtain rfl : r = .ok o := by
      cases r with
      | ok o' => simpa [Except.map] using ended.symm
      | error x => cases ended
    cases concluded with
    | unresolved _ _ _ denied => exact denied o rfl
    | audited grant o' pre closed _ _ live _ _ trace_eq outcome =>
      obtain rfl : o = o' := by
        cases closed with
        | ok _ => exact Except.ok.inj outcome
        | error x => cases outcome
      rcases live with live | denied
      · exact (notLive grant (live.mono ⟨_, trace_eq.symm⟩)).elim
      · exact denied
    | unacknowledged grant o' pre x closed _ _ _ outcome =>
      cases closed <;> cases outcome

/-- Revocation is permanent and does not rest on Redis: from the commit on the row
stays revoked, and an invocation that starts later with the grant's token
reaches out to nobody and is denied. -/
theorem revocation_permanent {w : World} (keyed : w.db.Keyed) {c c' : Broker}
    (run : (broker lib svc lossy).Reaches (.start w) c) {id : Uuid} {i : Nat}
    (revoked : RevokedBy c id i) (rest : (broker lib svc lossy).Reaches c c') :
    c'.world.db.Revoked id ∧
      ∀ (j : Nat) (u : Thread BrokerSig Request Response) (req : InvokeRequest),
        c.threads.length ≤ j → c'.threads[j]? = some u → u.req = .invoke req →
        (∀ grant ∈ c.world.db.grants, grant.id = id →
          hashToken lib req.grantToken = grant.grantTokenHash) →
        (∀ e ∈ u.trace, e.op.contacts = false) ∧
          (∀ e, u.prog.next = some e → e.contacts = false) ∧
          ∀ o, u.prog = .ret (.outcome o) → o.status = .denied := by
  have atCommit := revoked.revoked keyed run
  have grows := run_grows run rest
  refine ⟨atCommit.mono grows.1 (grows.2 ((run_grows .refl run).2 keyed)), ?_⟩
  intro j u req later thread request token
  have run' := run.trans rest
  have notLive : ∀ grant, ¬ Live lib req grant u.trace :=
    not_live_of_revoked keyed run rest atCommit later thread token
  exact refused_of_not_live run' thread request notLive

/-- The demo grant is revoked, and an invocation with its token denied. -/
theorem revocation_permanent_demo : ∃ (c c' : Broker) (o : InvokeOutcome),
    (broker Demo.lib Demo.services true).Reaches (.start (World.fresh Demo.midnight)) c ∧
      RevokedBy c Demo.grantId 2 ∧ (broker Demo.lib Demo.services true).Reaches c c' ∧
      (∃ u, c'.threads[3]? = some u ∧ u.prog = .ret (.outcome o)) ∧ o.status = .denied ∧
      c'.world.db.Revoked Demo.grantId := by
  have computed : (Demo.played true
      (Demo.issued ++ .spawn (.revokeGrant Demo.grantId) :: Demo.run 2 7)).any (fun c =>
        c.threads[2]?.any (hasRevoked Demo.grantId) && c.threads.length == 3 &&
        c.world.db.grants.all (fun grant => decide (grant.grantTokenHash =
          hashToken Demo.lib Demo.token)) &&
        (Config.play (broker Demo.lib Demo.services true) c
          (.nudge (.evict fun _ => false) :: Demo.invocation [] none :: Demo.run 3 9)).any fun c' =>
            c'.threads[3]?.any fun u => (Demo.outcome u).any fun ended =>
              ended.1.grantToken == Demo.token) = true := by decide +kernel
  obtain ⟨c, run, computed⟩ := Demo.reached computed
  simp only [Bool.and_eq_true] at computed
  obtain ⟨⟨⟨revoked, three⟩, tokens⟩, later⟩ := computed
  obtain ⟨t, thread, has⟩ := (Option.any_eq_true _ _).mp revoked
  obtain ⟨c', played, finished⟩ := (Option.any_eq_true _ _).mp later
  obtain ⟨u, thread', finished⟩ := (Option.any_eq_true _ _).mp finished
  obtain ⟨⟨req, o⟩, finished, presented⟩ := (Option.any_eq_true _ _).mp finished
  obtain ⟨request, finished⟩ := Demo.of_outcome finished
  have rest := Config.play_reaches played
  have revoked : RevokedBy c Demo.grantId 2 := ⟨t, thread, has⟩
  obtain ⟨row, denials⟩ := revocation_permanent Database.keyed_empty run revoked rest
  obtain ⟨-, -, denied⟩ := denials 3 u req (by simpa using Nat.le_of_eq (by simpa using three))
    thread' request (by
      intro grant member _
      rw [show req.grantToken = Demo.token by simpa using presented]
      simpa [eq_comm] using (List.all_eq_true.mp tokens grant member))
  exact ⟨c, c', o, run, revoked, rest, ⟨u, thread', finished⟩, denied o finished, row⟩

/-! ## Invocations on their way -/

/-- Every attempt comes right after a clear check. -/
def AttemptsFresh (lib : Lib) (svc : Services) (c : Broker) : Prop :=
  ∀ e ∈ c.hist, e.event.op.isToolCall = true → ∀ t req, c.threads[e.tid]? = some t →
    t.req = .invoke req → ∃ grant, looked lib req grant ∈ e.past ∧
      Fresh lib svc req grant.id e.past

/-- No attempt is the retry of a failed one. -/
def NoRetry (c : Broker) : Prop :=
  ∀ e ∈ c.hist, e.event.op.isToolCall = true → ¬ Retrying e.past

/-- A retry comes without a check. -/
theorem not_fresh_of_retrying {req : InvokeRequest} {id : Uuid} {tr : Trace BrokerSig}
    (retrying : Retrying tr) : ¬ Fresh lib svc req id tr := by
  obtain ⟨pre, tool, accessToken, arguments, x, surface, provider, delay, split, -⟩ := retrying
  rintro ⟨pre', post, split', since⟩
  have same : (pre ++ [⟨.toolCall tool accessToken arguments, .error x⟩,
      ⟨.circuitFailure surface provider, .ok ()⟩]) ++ [⟨.sleep delay, .ok ()⟩,
        ⟨.circuitAllow surface provider, .ok true⟩] =
      (pre' ++ unmarkedNow lib svc req) ++ ⟨.query (.revokedAt id), .ok (some none)⟩ :: post := by
    rw [split] at split'
    simpa [notRevokedNow] using split'
  rcases List.append_eq_append_iff.mp same with ⟨mid, -, tail⟩ | ⟨mid, -, tail⟩
  · -- the check would have to stand among the last two events
    rcases mid with _ | ⟨e, _ | ⟨e', mid⟩⟩ <;> simp at tail
  · cases mid with
    | nil => simp at tail
    | cons e mid =>
      obtain ⟨-, rfl⟩ : _ ∧ post = mid ++ _ := by simpa using tail
      have slept := since ⟨.sleep delay, .ok ()⟩ (by simp)
      simp [Op.isSleep] at slept

/-- Checked last is therefore the same as not retried. -/
theorem attemptsFresh_iff {w : World} {c : Broker}
    (run : (broker lib svc lossy).Reaches (.start w) c) :
    AttemptsFresh lib svc c ↔ NoRetry c := by
  constructor
  · intro fresh e member call retrying
    obtain ⟨t, req, -, -, -, thread, -, request, -⟩ := entry_mediated run member call
    obtain ⟨grant, -, checked⟩ := fresh e member call t req thread request
    exact not_fresh_of_retrying retrying checked
  · intro noRetry e member call t req thread request
    obtain ⟨u, req', grant, tool, accessToken, thread', -, request', -, -, mediated⟩ :=
      entry_mediated run member call
    obtain rfl := Option.some.inj (thread'.symm.trans thread)
    obtain rfl : req' = req := by
      rw [request] at request'
      exact (Request.invoke.inj request').symm
    exact ⟨grant, mediated.admitted.live.found,
      mediated.recent.resolve_right (noRetry e member call)⟩

/-- The attempts of program `j` among some entries. -/
def attemptsOf (j : Nat) (hist : List (Entry BrokerSig World)) : List (Entry BrokerSig World) :=
  hist.filter fun e => e.tid = j ∧ e.event.op.isToolCall

/-- The check right before an attempt stands after the attempt before. -/
theorem Fresh.after_attempt {req : InvokeRequest} {id : Uuid} {tr past : Trace BrokerSig}
    {ev : Event BrokerSig} (fresh : Fresh lib svc req id tr) (call : ev.op.isToolCall = true)
    (sub : past ++ [ev] <+: tr) : ∃ mid post, past.length < mid.length ∧
      tr = mid ++ ⟨.query (.revokedAt id), .ok (some none)⟩ :: post := by
  obtain ⟨pre, post, rfl, since⟩ := fresh
  have noCall : ∀ e ∈ notRevokedNow lib svc req id ++ post, e.op.isToolCall = false :=
    List.forall_mem_append.mpr
      ⟨fun e member => Op.isToolCall_of_isCheck (notRevokedNow_checks id e member),
        fun e member => (since e member).1⟩
  refine ⟨pre ++ unmarkedNow lib svc req, post, ?_, by simp [notRevokedNow]⟩
  obtain ⟨rest, split⟩ := sub
  have split : past ++ ev :: rest = pre ++ (notRevokedNow lib svc req id ++ post) := by
    simpa using split
  rcases List.append_eq_append_iff.mp split with ⟨mid, rfl, tail⟩ | ⟨mid, rfl, tail⟩
  · cases mid with
    | nil =>
      have inside : ev ∈ notRevokedNow lib svc req id ++ post := by
        rw [List.nil_append] at tail
        rw [← tail]
        exact List.mem_cons_self
      rw [noCall ev inside] at call
      cases call
    | cons e mid => simp
  · rw [noCall ev (by simp [tail])] at call
    cases call

/-- Where every attempt is fresh, one attempt at most follows a revocation. -/
theorem attempts_after_revocation {w : World} {c c' : Broker} (keyed : w.db.Keyed)
    (run : (broker lib svc lossy).Reaches (.start w) c)
    (rest : (broker lib svc lossy).Reaches c c') (fresh : AttemptsFresh lib svc c') {id : Uuid}
    (revoked : c.world.db.Revoked id) {j : Nat} {u : Thread BrokerSig Request Response}
    (thread : c'.threads[j]? = some u) {req : InvokeRequest} (request : u.req = .invoke req)
    {grant : Grant} (found : looked lib req grant ∈ u.trace) (named : grant.id = id) :
    (attemptsOf j (c'.hist.drop c.hist.length)).length ≤ 1 := by
  obtain ⟨h, grown⟩ := rest.hist_mono
  rw [← grown, List.drop_left]
  match two : attemptsOf j h with
  | [] => simp
  | [_] => simp
  | a₁ :: a₂ :: _ =>
    exfalso
    obtain ⟨x, h', rfl, -, first, two⟩ := List.filter_eq_cons_iff.mp two
    obtain ⟨y, z, rfl, -, second, -⟩ := List.filter_eq_cons_iff.mp two
    simp only [decide_eq_true_eq] at first second
    obtain ⟨rfl, call₁⟩ := first
    obtain ⟨same, call₂⟩ := second
    -- the second attempt starts in `before₂.mid`, the first one is in its trace
    obtain ⟨before₁⟩ := rest.before grown.symm
    have grown₂ : c'.hist = c.hist ++ ((x ++ a₁ :: y) ++ a₂ :: z) := by simpa using grown.symm
    obtain ⟨before₂⟩ := rest.before grown₂
    have run₂ := run.trans before₂.reached
    obtain ⟨t, there, sub⟩ :=
      Machine.Reaches.owned run₂ (show a₁ ∈ before₂.mid.hist by simp [before₂.hist_eq])
    have running := before₂.running
    rw [same] at running
    obtain rfl := Option.some.inj (there.symm.trans running)
    rw [before₂.trace_eq] at sub
    have member₂ : a₂ ∈ c'.hist := by simp [grown₂]
    obtain ⟨grant₂, found₂, checked⟩ := fresh a₂ member₂ call₂ u req (same ▸ thread) request
    have named₂ : grant₂.id = id := by
      obtain ⟨t', thread', sub', -⟩ := entry_kept (run.trans rest) member₂
      rw [same] at thread'
      obtain rfl := Option.some.inj (thread'.symm.trans thread)
      have found₂ := ((List.prefix_append _ _).trans sub').subset found₂
      rw [looked_unique (run.trans rest) thread request found₂ found, named]
    rw [named₂] at checked
    obtain ⟨mid, post, far, cut⟩ := checked.after_attempt call₁ sub
    -- so the check was answered after the revocation
    obtain ⟨g₁, g₂, v, split⟩ := Machine.Reaches.recorded before₂.reached running
      (before₂.trace_eq.trans cut) (by
        intro t₀ there₀
        obtain ⟨t₁, there₁, -, grown₁⟩ := Machine.Reaches.thread_mono before₁.reached there₀
        obtain rfl := Option.some.inj (before₁.running.symm.trans there₁)
        rw [before₁.trace_eq] at grown₁
        exact (grown₁.length_le.trans_lt far).le)
    obtain ⟨check⟩ := Machine.Reaches.before before₂.reached split
    have grows := run_grows run check.reached
    rw [check.world_eq] at grows
    have still := revoked.mono grows.1 (grows.2 ((run_grows .refl run).2 keyed))
    have answered := of_decide_eq_true (World.permits_query check.permits)
    obtain ⟨row, isRow, unrevoked⟩ := Option.map_eq_some_iff.mp answered.symm
    have revokedRow := still.2 row (List.mem_of_find?_eq_some isRow)
      (by simpa using List.find?_some isRow)
    rw [unrevoked] at revokedRow
    cases revokedRow

/-- Each attempt of a run is checked right before it exactly if none of them is a
retry, and then at most one of an invocation's attempts follows the revocation
of its grant. -/
theorem attempts_checked_iff {w : World} (keyed : w.db.Keyed) {c c' : Broker}
    (run : (broker lib svc lossy).Reaches (.start w) c)
    (rest : (broker lib svc lossy).Reaches c c') :
    (AttemptsFresh lib svc c' ↔ NoRetry c') ∧
      (NoRetry c' → ∀ (id : Uuid) (i j : Nat) (u : Thread BrokerSig Request Response)
        (req : InvokeRequest) (grant : Grant), RevokedBy c id i → c'.threads[j]? = some u →
        u.req = .invoke req → looked lib req grant ∈ u.trace → grant.id = id →
        (attemptsOf j (c'.hist.drop c.hist.length)).length ≤ 1) := by
  have checked := attemptsFresh_iff (run.trans rest)
  refine ⟨checked, fun noRetry id i j u req grant revoked thread request found named => ?_⟩
  exact attempts_after_revocation keyed run rest (checked.mpr noRetry) (revoked.revoked keyed run)
    thread request found named

/-- Where there is one grant, an attempt is one with it. -/
theorem attempt_grant {w : World} {c : Broker} (run : (broker lib svc lossy).Reaches (.start w) c)
    {j : Nat} {a : Entry BrokerSig World} (attempt : a ∈ attemptsOf j c.hist) {id : Uuid}
    (single : ∀ grant ∈ c.world.db.grants, grant.id = id) :
    ∃ u req grant, c.threads[j]? = some u ∧ u.req = .invoke req ∧
      looked lib req grant ∈ u.trace ∧ grant.id = id := by
  obtain ⟨member, mine⟩ := List.mem_filter.mp attempt
  simp only [decide_eq_true_eq] at mine
  obtain ⟨u, req, grant, tool, accessToken, thread, sub, request, -, -, mediated⟩ :=
    entry_mediated run member mine.2
  rw [mine.1] at thread
  have found := ((List.prefix_append _ _).trans sub).subset mediated.admitted.live.found
  obtain ⟨-, row, there, same⟩ := looked_row run thread found
  exact ⟨u, req, grant, thread, request, found,
    (Grant.issued_id same).symm.trans (single row there)⟩

/-- The attempts after a point of a run are attempts of the run. -/
theorem attemptsOf_drop {j n : Nat} {hist : List (Entry BrokerSig World)}
    {a : Entry BrokerSig World} (attempt : a ∈ attemptsOf j (hist.drop n)) :
    a ∈ attemptsOf j hist := by
  obtain ⟨member, mine⟩ := List.mem_filter.mp attempt
  exact List.mem_filter.mpr ⟨List.mem_of_mem_drop member, mine⟩

/-- The grant is revoked while its one attempt is on its way. -/
theorem attempts_checked_iff_demo : ∃ (c c' : Broker) (u : Thread BrokerSig Request Response)
    (req : InvokeRequest) (grant : Grant),
    (broker Demo.lib Demo.services false).Reaches (.start (World.fresh Demo.midnight)) c ∧
      (broker Demo.lib Demo.services false).Reaches c c' ∧ RevokedBy c grant.id 3 ∧
      c'.threads[2]? = some u ∧ u.req = .invoke req ∧ looked Demo.lib req grant ∈ u.trace ∧
      attemptsOf 2 (c'.hist.drop c.hist.length) ≠ [] ∧
      AttemptsFresh Demo.lib Demo.services c' ∧
      (attemptsOf 2 (c'.hist.drop c.hist.length)).length ≤ 1 := by
  have computed : (Demo.played false
      (Demo.issued ++ Demo.invocation [] none :: Demo.run 2 15 ++
        .spawn (.revokeGrant Demo.grantId) :: Demo.run 3 7)).any (fun c =>
          c.threads[3]?.any (hasRevoked Demo.grantId) &&
          (Config.play (broker Demo.lib Demo.services false) c (Demo.run 2 6)).any fun c' =>
            !(attemptsOf 2 (c'.hist.drop c.hist.length)).isEmpty &&
            c'.world.db.grants.all (fun grant => grant.id = Demo.grantId) &&
            c'.hist.all fun e => !e.event.op.isToolCall ||
              e.past.all fun ev => !ev.op.isToolCall) = true := by decide +kernel
  obtain ⟨c, run, computed⟩ := Demo.reached computed
  simp only [Bool.and_eq_true] at computed
  obtain ⟨revoked, later⟩ := computed
  obtain ⟨t, thread, has⟩ := (Option.any_eq_true _ _).mp revoked
  obtain ⟨c', played, computed⟩ := (Option.any_eq_true _ _).mp later
  simp only [Bool.and_eq_true] at computed
  obtain ⟨⟨some_, single⟩, first⟩ := computed
  have rest := Config.play_reaches played
  have noRetry : NoRetry c' := by
    rintro e member call ⟨pre, tool, accessToken, arguments, x, surface, provider, delay, cut, -⟩
    have alone := List.all_eq_true.mp first e member
    simp only [call, Bool.not_true, Bool.false_or, List.all_eq_true] at alone
    cases alone ⟨.toolCall tool accessToken arguments, .error x⟩ (by simp [cut])
  have some_ : attemptsOf 2 (c'.hist.drop c.hist.length) ≠ [] := by simpa using some_
  obtain ⟨a, attempt⟩ := List.exists_mem_of_ne_nil _ some_
  obtain ⟨u, req, grant, thread', request, found, named⟩ := attempt_grant (run.trans rest)
    (attemptsOf_drop attempt)
    fun grant member => by simpa using List.all_eq_true.mp single grant member
  have revoked : RevokedBy c grant.id 3 := ⟨t, thread, named ▸ has⟩
  obtain ⟨checked, one⟩ := attempts_checked_iff Database.keyed_empty run rest
  exact ⟨c, c', u, req, grant, run, rest, revoked, thread', request, found, some_,
    checked.mpr noRetry, one noRetry grant.id 3 2 u req grant revoked thread' request found rfl⟩

/-- An attempt times out, the grant is revoked during the backoff, and two more
attempts follow. -/
theorem attempts_unchecked_demo : ∃ (c c' : Broker) (u : Thread BrokerSig Request Response)
    (req : InvokeRequest) (grant : Grant),
    (broker Demo.lib Demo.services false).Reaches (.start (World.fresh Demo.midnight)) c ∧
      (broker Demo.lib Demo.services false).Reaches c c' ∧ RevokedBy c grant.id 3 ∧
      c'.threads[2]? = some u ∧ u.req = .invoke req ∧ looked Demo.lib req grant ∈ u.trace ∧
      (attemptsOf 2 (c'.hist.drop c.hist.length)).length = 2 ∧
      ¬ AttemptsFresh Demo.lib Demo.services c' := by
  have computed : (Demo.played false
      (Demo.issued ++ Demo.invocation [] none :: Demo.run 2 15 ++
        Demo.raise 2 (.timeoutException "timed out") ++ Demo.run 2 1 ++
        .spawn (.revokeGrant Demo.grantId) :: Demo.run 3 7)).any (fun c =>
          c.threads[3]?.any (hasRevoked Demo.grantId) &&
          (Config.play (broker Demo.lib Demo.services false) c
            (Demo.run 2 2 ++ Demo.raise 2 (.timeoutException "timed out") ++ Demo.run 2 4)).any
              fun c' => (attemptsOf 2 (c'.hist.drop c.hist.length)).length == 2 &&
                c'.world.db.grants.all fun grant => grant.id = Demo.grantId) = true := by
    decide +kernel
  obtain ⟨c, run, computed⟩ := Demo.reached computed
  simp only [Bool.and_eq_true] at computed
  obtain ⟨revoked, later⟩ := computed
  obtain ⟨t, thread, has⟩ := (Option.any_eq_true _ _).mp revoked
  obtain ⟨c', played, computed⟩ := (Option.any_eq_true _ _).mp later
  simp only [Bool.and_eq_true, beq_iff_eq] at computed
  obtain ⟨two, single⟩ := computed
  have rest := Config.play_reaches played
  obtain ⟨a, attempt⟩ := List.exists_mem_of_length_pos (two ▸ Nat.two_pos)
  obtain ⟨u, req, grant, thread', request, found, named⟩ := attempt_grant (run.trans rest)
    (attemptsOf_drop attempt)
    fun grant member => by simpa using List.all_eq_true.mp single grant member
  have revoked : RevokedBy c grant.id 3 := ⟨t, thread, named ▸ has⟩
  refine ⟨c, c', u, req, grant, run, rest, revoked, thread', request, found, two, fun fresh => ?_⟩
  have one := attempts_after_revocation Database.keyed_empty run rest fresh
    (revoked.revoked Database.keyed_empty run) thread' request found rfl
  omega

end CredBroker
