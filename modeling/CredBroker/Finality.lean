import CredBroker.GrantRows

/-!
# Finality of revocations

`revoke_grant` looks at its row, reads the clock and commits, and holds no lock on the
row in between. A second revocation that has looked before the first one commits
writes its own instant over the recorded one. `revocation_final_iff` says that this is
the only way in which a recorded revocation ever changes.
-/

namespace CredBroker

open Python Interaction

variable {lib : Lib} {svc : Services} {lossy : Bool} {w : World} {c : Broker}

variable (lib svc lossy) in
/-- No step on the way to `c` changes a row that is revoked. -/
def RevocationsFinal (w : World) (c : Broker) : Prop :=
  ∀ b b', (broker lib svc lossy).Reaches (.start w) b → (broker lib svc lossy).Step b b' →
    (broker lib svc lossy).Reaches b' c →
      ∀ row ∈ b.world.db.grants, row.revokedAt ≠ none → row ∈ b'.world.db.grants

/-- Between a revocation's look at its row and its commit another one commits, and the
two have read different instants. -/
structure Overtaken (c : Broker) (id : Uuid) (look g g' : Entry BrokerSig World) : Prop where
  marks : ∃ now now', Marks c id now g ∧ Marks c id now' g' ∧ now ≠ now'
  looks : look.event.op = .query (.grantById id) ∧ look.tid = g'.tid
  first : Precedes c.hist look g
  second : Precedes c.hist g g'

section Run

variable (run : (broker lib svc lossy).Reaches (.start w) c)

include run

/-- A recorded revocation was there, or was recorded on the way. -/
theorem marked_between {c' : Broker} (rest : (broker lib svc lossy).Reaches c c') :
    ∃ h, c'.hist = c.hist ++ h ∧ ∀ row ∈ c'.world.db.grants, ∀ now, row.revokedAt = some now →
      row ∈ c.world.db.grants ∨ ∃ g ∈ h, Marks c' row.id now g := by
  induction rest with
  | refl => exact ⟨[], by simp, fun row member _ _ => .inl member⟩
  | @tail b c' before step ih =>
    obtain ⟨h, hist, marked⟩ := ih
    obtain ⟨added, grown⟩ := step.hist_mono
    refine ⟨h ++ added, by rw [← grown, hist, List.append_assoc], fun row member now revoked => ?_⟩
    have earlier : row ∈ b.world.db.grants →
        row ∈ c.world.db.grants ∨ ∃ g ∈ h ++ added, Marks c' row.id now g := by
      intro old
      rcases marked row old now revoked with there | ⟨g, member, marks⟩
      · exact .inl there
      · exact .inr ⟨g, List.mem_append_left _ member, marks.mono (.single step)⟩
    cases step_grants (run.trans before) step with
    | same grants => exact earlier (grants ▸ member)
    | issued hist' pre issues grants =>
      rw [grants] at member
      rcases List.mem_append.mp member with old | new
      · exact earlier old
      · rw [List.mem_singleton.mp new, issues.unrevoked (run.trans (before.tail step))] at revoked
        cases revoked
    | @revoked id now' g hist' pre marks grants =>
      rw [grants] at member
      obtain ⟨old, there, rfl⟩ := List.mem_map.mp member
      split at revoked
      · rename_i named
        obtain rfl : now' = now := Option.some.inj revoked
        have new : g ∈ added := by
          rw [hist', List.append_right_inj] at grown
          simp [grown]
        rw [if_pos named, old.set_id, named]
        exact .inr ⟨g, List.mem_append_right _ new, marks⟩
      · rename_i other
        rw [if_neg other] at earlier ⊢
        exact earlier there

omit run

/-- Where no step changes a revoked row, it stays. -/
theorem RevocationsFinal.stays {b b' : Broker} (final : RevocationsFinal lib svc lossy w c)
    (run : (broker lib svc lossy).Reaches (.start w) b)
    (path : (broker lib svc lossy).Reaches b b') (rest : (broker lib svc lossy).Reaches b' c)
    {row : Grant} (member : row ∈ b.world.db.grants) (revoked : row.revokedAt ≠ none) :
    row ∈ b'.world.db.grants := by
  induction path with
  | refl => exact member
  | tail before step ih =>
    exact final _ _ (run.trans before) step rest row (ih (.head step rest)) revoked

include run

/-- What the commit of a revocation does to the table. -/
theorem Marks.grants {id : Uuid} {now : Time} {g : Entry BrokerSig World} (marks : Marks c id now g)
    {c₀ : Broker} (start : (broker lib svc lossy).Reaches (.start w) c₀)
    {h : List (Entry BrokerSig World)} (before : (broker lib svc lossy).Before c₀ c h g) :
    before.done.world.db.grants =
        (before.mid.world.db.update id (.revokedAt (some now))).grants ∧
      ∃ row ∈ before.mid.world.db.grants, row.id = id := by
  obtain ⟨grant, unrevoked, named, past⟩ := marks.spec run
  obtain ⟨a, commits, applied⟩ := marks.commits
  constructor
  · show (before.mid.world.after before.thread.trace g.event).db.grants = _
    rw [before.trace_eq, past, commits]
    simp [World.after, applied, markingOf_apply unrevoked, named]
  · have loaded : (⟨.query (.grantById id), .ok (some grant)⟩ : Event BrokerSig) ∈
        before.thread.trace := by
      rw [before.trace_eq, past]
      exact List.mem_cons_self
    obtain ⟨v, answered, grows⟩ :=
      read_truthful (start.trans before.reached) before.running loaded
    have found : v.db.grants.find? (·.id = id) = some grant := (of_decide_eq_true answered).symm
    obtain ⟨row, there, same, -⟩ := grows.grants grant (List.mem_of_find?_eq_some found)
    exact ⟨row, there, (Grant.issued_id same).trans named⟩

/-- An overtaken revocation writes over the recorded one. -/
theorem not_final_of_overtaken {id : Uuid} {look g g' : Entry BrokerSig World}
    (overtaken : Overtaken c id look g g') : ¬ RevocationsFinal lib svc lossy w c := by
  intro final
  obtain ⟨now, now', marks, marks', differ⟩ := overtaken.marks
  obtain ⟨h, rest, cut, member⟩ := overtaken.second
  obtain ⟨h₁, h₂, rfl⟩ := List.append_of_mem member
  obtain ⟨before⟩ := run.before
    (show c.hist = [] ++ (h₁ ++ g :: (h₂ ++ g' :: rest)) by rw [cut]; simp)
  obtain ⟨grants, row, there, named⟩ := marks.grants run .refl before
  have recorded : row.set (.revokedAt (some now)) ∈ before.done.world.db.grants := by
    rw [grants]
    exact List.mem_map.mpr ⟨row, there, if_pos named⟩
  have revoked : (row.set (.revokedAt (some now))).revokedAt ≠ none := Option.some_ne_none now
  have split : c.hist = before.done.hist ++ (h₂ ++ g' :: rest) := by
    show c.hist =
      (before.mid.hist ++ [⟨g.tid, before.mid.world, before.thread.trace, g.event⟩]) ++ _
    rw [before.hist_eq, before.world_eq, before.trace_eq, cut]
    simp [Config.start]
  obtain ⟨later⟩ := before.rest.before split
  have reached := before.reached.tail before.step
  -- the record stands until the second commit, and through it
  have still := final.stays reached later.reached later.toEnd recorded revoked
  have after := final _ _ (reached.trans later.reached) later.step later.rest _ still revoked
  rw [(marks'.grants run reached later).1] at after
  obtain ⟨old, -, same⟩ := List.mem_map.mp after
  split at same
  · have instants := congrArg Grant.revokedAt same
    exact differ (Option.some.inj instants).symm
  · rename_i other
    rw [same] at other
    exact other ((row.set_id _).trans named)

/-- A step that changes a revoked row is that of an overtaken revocation. -/
theorem overtaken_of_changed (keyed : w.db.Keyed) {b : Broker}
    (step : (broker lib svc lossy).Step c b) {row : Grant} (member : row ∈ c.world.db.grants)
    (revoked : row.revokedAt ≠ none) (changed : row ∉ b.world.db.grants) :
    ∃ id look g g', Overtaken b id look g g' := by
  cases step_grants run step with
  | same grants => exact (changed (grants ▸ member)).elim
  | issued hist pre issues grants => exact (changed (grants ▸ List.mem_append_left _ member)).elim
  | @revoked id now' g' hist pre marks' grants =>
    have named : row.id = id := by
      by_contra other
      exact changed (grants ▸ List.mem_map.mpr ⟨row, member, if_neg other⟩)
    obtain ⟨now, recorded⟩ := Option.ne_none_iff_exists'.mp revoked
    have differ : now ≠ now' := by
      rintro rfl
      refine changed (grants ▸ List.mem_map.mpr ⟨row, member, ?_⟩)
      rw [if_pos named, Grant.set, ← recorded]
    obtain ⟨grant, unrevoked, isGrant, past⟩ := marks'.spec (run.tail step)
    -- the look of this revocation, and what was recorded since
    have cut : b.hist = c.hist ++ g' :: [] := hist
    have first : [] ++ [⟨.query (.grantById id), .ok (some grant)⟩] <+: g'.past :=
      ⟨_, past.symm⟩
    obtain ⟨v, looked⟩ := Machine.Reaches.precedes (run.tail step) cut first
    obtain ⟨h₁, h₂, split⟩ := List.append_of_mem looked
    obtain ⟨before⟩ := run.before (by simpa [Config.start] using split)
    obtain ⟨h, grown, marked⟩ := marked_between (before.reached.tail before.step) before.rest
    rcases marked row member now recorded with there | ⟨g, new, marks⟩
    · -- it was recorded when this revocation looked
      have there : row ∈ before.mid.world.db.grants := by
        have unwritten := (before.mid.world.after_framed before.thread.trace
          ⟨.query (.grantById id), .ok (some grant)⟩).db (by simp)
        exact (show before.done.world.db = _ from unwritten) ▸ there
      have answered := of_decide_eq_true (World.permits_query before.permits)
      rw [← before.world_eq] at answered
      have rows := ((run_grows .refl before.reached).2 keyed).grants
      obtain rfl := Database.eq_of_key rows there (List.mem_of_find?_eq_some answered.symm)
        (named.trans isGrant.symm)
      exact (revoked unrevoked).elim
    · obtain ⟨k, k', rfl⟩ := List.append_of_mem new
      have look_first : Precedes b.hist ⟨g'.tid, v, [], ⟨.query (.grantById id), .ok (some grant)⟩⟩
          g := by
        refine ⟨before.done.hist ++ k, k' ++ [g'], by rw [hist, grown]; simp, ?_⟩
        apply List.mem_append_left
        show _ ∈ before.mid.hist ++ [_]
        rw [before.world_eq, before.trace_eq]
        exact List.mem_append_right _ (List.mem_singleton_self _)
      exact ⟨id, ⟨g'.tid, v, [], ⟨.query (.grantById id), .ok (some grant)⟩⟩, g, g',
        ⟨now, now', named ▸ marks.mono (.single step), marks', differ⟩, ⟨rfl, rfl⟩, look_first,
        c.hist, [], cut, marks.member⟩

end Run

/-- A recorded revocation is final exactly where no revocation is overtaken. -/
theorem revocation_final_iff (keyed : w.db.Keyed)
    (run : (broker lib svc lossy).Reaches (.start w) c) :
    RevocationsFinal lib svc lossy w c ↔ ∀ id look g g', ¬ Overtaken c id look g g' := by
  constructor
  · intro final id look g g' overtaken
    exact not_final_of_overtaken run overtaken final
  · intro none b b' reached step rest row member revoked
    by_contra changed
    obtain ⟨id, look, g, g', overtaken⟩ :=
      overtaken_of_changed reached keyed step member revoked changed
    obtain ⟨now, now', marks, marks', differ⟩ := overtaken.marks
    exact none id look g g' ⟨⟨now, now', marks.mono rest, marks'.mono rest, differ⟩,
      overtaken.looks, overtaken.first.mono rest.hist_mono, overtaken.second.mono rest.hist_mono⟩

namespace Demo

/-- An entry that commits a revocation. -/
def revokes (c : Broker) (e : Entry BrokerSig World) : Bool :=
  e.event.op.isCommit && match c.threads[e.tid]? with
    | some ⟨.revokeGrant _, _, _⟩ => true
    | _ => false

theorem revokes_of_marks {c : Broker} {id : Uuid} {now : Time} {g : Entry BrokerSig World}
    (marks : Marks c id now g) : g ∈ c.hist.filter (revokes c) := by
  obtain ⟨a, commits, -⟩ := marks.commits
  obtain ⟨⟨req, prog, trace⟩, thread, rfl⟩ := marks.request
  apply List.mem_filter.mpr
  exact ⟨marks.member, by simp [revokes, commits, Op.isCommit, thread]⟩

/-- When the rows were revoked. -/
def revocations (c : Broker) : List (Uuid × Option Time) :=
  c.world.db.grants.map fun grant => (grant.id, grant.revokedAt)

end Demo

/-- Revoked again after a second, a grant keeps the time of its revocation. -/
theorem revocation_final_iff_demo : ∃ c : Broker,
    (broker Demo.lib Demo.services false).Reaches (.start (World.fresh Demo.midnight)) c ∧
      (c.threads.map Demo.ended) = [true, true, true, true] ∧
      Demo.revocations c = [(Demo.grantId, some Demo.midnight)] ∧
      RevocationsFinal Demo.lib Demo.services false (World.fresh Demo.midnight) c := by
  have computed : (Demo.played false
      (Demo.issued ++ .spawn (.revokeGrant Demo.grantId) :: Demo.run 2 7 ++ Demo.wait 1000000 ++
        .spawn (.revokeGrant Demo.grantId) :: Demo.run 3 4)).any (fun c =>
          c.threads.map Demo.ended = [true, true, true, true] &&
          Demo.revocations c = [(Demo.grantId, some Demo.midnight)] &&
          (c.hist.filter (Demo.revokes c)).length = 1) = true := by decide +kernel
  obtain ⟨c, run, computed⟩ := Demo.reached computed
  simp only [Bool.and_eq_true, decide_eq_true_eq] at computed
  obtain ⟨⟨ended, recorded⟩, one⟩ := computed
  refine ⟨c, run, ended, recorded, (revocation_final_iff Database.keyed_empty run).mpr ?_⟩
  intro id look g g' overtaken
  obtain ⟨now, now', marks, marks', -⟩ := overtaken.marks
  obtain ⟨only, single⟩ := List.length_eq_one_iff.mp one
  have is := Demo.revokes_of_marks marks
  have is' := Demo.revokes_of_marks marks'
  rw [single, List.mem_singleton] at is is'
  rw [is, is'] at overtaken
  exact overtaken.second.irrefl run.hist_nodup

/-- Two revocations have looked before either commits, a second apart: the later one
changes the recorded time. -/
theorem revocation_rewritten : ∃ c c' : Broker,
    (broker Demo.lib Demo.services false).Reaches (.start (World.fresh Demo.midnight)) c ∧
      (broker Demo.lib Demo.services false).Step c c' ∧
      Demo.revocations c = [(Demo.grantId, some Demo.midnight)] ∧
      Demo.revocations c' = [(Demo.grantId, some (Demo.midnight + seconds 1))] ∧
      ¬ RevocationsFinal Demo.lib Demo.services false (World.fresh Demo.midnight) c' := by
  have computed : (Demo.played false
      (Demo.issued ++ .spawn (.revokeGrant Demo.grantId) :: .spawn (.revokeGrant Demo.grantId) ::
        Demo.run 2 1 ++ Demo.run 3 7 ++ Demo.wait 1000000 ++ Demo.run 2 2)).any (fun c =>
          Demo.revocations c = [(Demo.grantId, some Demo.midnight)] &&
          (Config.act (broker Demo.lib Demo.services false) c (.answer 2 Demo.healthy)).any
            fun c' =>
            Demo.revocations c' = [(Demo.grantId, some (Demo.midnight + seconds 1))]) = true := by
    decide +kernel
  obtain ⟨c, run, computed⟩ := Demo.reached computed
  simp only [Bool.and_eq_true, decide_eq_true_eq] at computed
  obtain ⟨recorded, next⟩ := computed
  obtain ⟨c', acted, rewritten⟩ := (Option.any_eq_true _ _).mp next
  have rewritten := of_decide_eq_true rewritten
  have step := Config.act_step acted
  refine ⟨c, c', run, step, recorded, rewritten, fun final => ?_⟩
  obtain ⟨row, member, was⟩ : ∃ row ∈ c.world.db.grants,
      (row.id, row.revokedAt) = (Demo.grantId, some Demo.midnight) := by
    apply List.mem_map.mp
    show _ ∈ Demo.revocations c
    rw [recorded]
    exact List.mem_singleton_self _
  have still := final c c' run step .refl row member (by simp [(Prod.mk.inj was).2])
  have stays : (row.id, row.revokedAt) ∈ Demo.revocations c' := List.mem_map_of_mem still
  rw [rewritten, was] at stays
  simp [seconds, Demo.midnight] at stays

end CredBroker
