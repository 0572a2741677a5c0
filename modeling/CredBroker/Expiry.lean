import CredBroker.Invocation.Replayed
import CredBroker.Revocation

/-!
# Expiry

An invocation looks at the expiry of its grant once, right after it looked the
row up. The check before each provider round is about revocation only: a grant
may expire on the way there, and the call proceeds.
-/

namespace CredBroker

open Python Interaction

variable {lib : Lib} {svc : Services} {lossy : Bool}

/-- What stands behind a check `g` that let a call proceed: the reading `l` of the clock at
which the grant was not expired, and a row that is not revoked. -/
structure Timed (lib : Lib) (req : InvokeRequest) (grant : Grant) (l g : Entry BrokerSig World) :
    Prop where
  tid : l.tid = g.tid
  read : l.event = ⟨.clock, .ok l.pre.now⟩
  looked_up : [looked lib req grant] <:+ l.past
  unexpired : l.pre.now < grant.expiresAt
  gate : g.event = ⟨.query (.revokedAt grant.id), .ok (some none)⟩
  unrevoked : ∃ row ∈ g.pre.db.grants, row.id = grant.id ∧ row.revokedAt = none
  read_before : l.past ++ [l.event] <+: g.past
  order : l.pre.now ≤ g.pre.now

/-- The row that a gate found is not revoked. -/
theorem gate_unrevoked {w : World} {tr : Trace BrokerSig} {id : Uuid}
    (permits : w.permits tr ⟨.query (.revokedAt id), .ok (some none)⟩ = true) :
    ∃ row ∈ w.db.grants, row.id = id ∧ row.revokedAt = none := by
  have answered : some none = (w.db.grants.find? (·.id = id)).map (·.revokedAt) :=
    of_decide_eq_true (World.permits_query permits)
  obtain ⟨row, found, unrevoked⟩ := Option.map_eq_some_iff.mp answered.symm
  exact ⟨row, List.mem_of_find?_eq_some found, by simpa using List.find?_some found, unrevoked⟩

/-- An invocation looks its token up once, and so reads the expiry of one grant at one
instant. -/
theorem reading_unique {w : World} {c : Broker}
    (run : (broker lib svc lossy).Reaches (.start w) c) {i : Nat}
    {t : Thread BrokerSig Request Response} (thread : c.threads[i]? = some t) {req : InvokeRequest}
    (request : t.req = .invoke req) {grant grant' : Grant} {now now' : Time}
    (read : [looked lib req grant, ⟨.clock, .ok now⟩] <:+: t.trace)
    (read' : [looked lib req grant', ⟨.clock, .ok now'⟩] <:+: t.trace) :
    grant = grant' ∧ now = now' := by
  obtain ⟨pre, post, cut⟩ := read
  obtain ⟨pre', post', cut'⟩ := read'
  have lookup : ∀ {g : Grant} {now : Time} {pre post : Trace BrokerSig},
      pre ++ [looked lib req g, ⟨.clock, .ok now⟩] ++ post = t.trace →
      ∀ e ∈ pre, e.op.isLookup = false := by
    intro g now pre post cut
    have sub : pre ++ [looked lib req g] <+: t.trace := ⟨⟨.clock, .ok now⟩ :: post, by simp [← cut]⟩
    have guard := kept run thread sub
    rw [request] at guard
    exact guard
  have same := cut.trans cut'.symm
  rw [List.append_assoc, List.append_assoc] at same
  rcases List.append_eq_append_iff.mp same with ⟨mid, rfl, tail⟩ | ⟨mid, rfl, tail⟩
  · cases mid with
    | nil =>
      simp only [List.nil_append, List.cons_append, List.cons.injEq, Event.mk.injEq, heq_eq_eq,
        Except.ok.injEq, Option.some.injEq, true_and] at tail
      exact ⟨tail.1, tail.2.1⟩
    | cons e mid =>
      obtain ⟨rfl, -⟩ : looked lib req grant = e ∧ _ := by simpa using tail
      cases lookup cut' (looked lib req grant) (by simp)
  · cases mid with
    | nil =>
      simp only [List.nil_append, List.cons_append, List.cons.injEq, Event.mk.injEq, heq_eq_eq,
        Except.ok.injEq, Option.some.injEq, true_and] at tail
      exact ⟨tail.1.symm, tail.2.1.symm⟩
    | cons e mid =>
      obtain ⟨rfl, -⟩ : looked lib req grant' = e ∧ _ := by simpa using tail
      cases lookup cut (looked lib req grant') (by simp)

/-- An invocation that saw its grant expired does not see it live. -/
theorem not_live_of_expired {w : World} {c : Broker}
    (run : (broker lib svc lossy).Reaches (.start w) c) {i : Nat}
    {t : Thread BrokerSig Request Response} (thread : c.threads[i]? = some t) {req : InvokeRequest}
    (request : t.req = .invoke req) {grant : Grant} {now : Time}
    (read : [looked lib req grant, ⟨.clock, .ok now⟩] <:+: t.trace)
    (expired : grant.expiresAt ≤ now)
    (grant' : Grant) : ¬ Live lib req grant' t.trace := by
  rintro ⟨now', read', -, unexpired⟩
  obtain ⟨rfl, rfl⟩ := reading_unique run thread request read read'
  exact Int.not_lt.mpr expired unexpired

/-! ## What is refused as expired -/

section Refused

variable {req : InvokeRequest} {grant : Grant} {tokenHash : Str} {start : Time}
  {tr : Trace BrokerSig}

/-- An outcome that is no refusal of an expired grant. -/
abbrev NotExpired (o : InvokeOutcome) : Prop := o.deniedReason ≠ some .expired

theorem notExpired_ofCalls : OfCalls NotExpired :=
  ⟨fun _ _ => nofun, fun _ _ => nofun, fun _ _ => nofun⟩

theorem denied_notExpired {error : Str} {reason : DeniedReason} (other : reason ≠ .expired) :
    (denied start error reason).Returns NotExpired :=
  .bind fun _ => .bind fun _ same => other (Option.some.inj same)

theorem claimKey_notExpired {key : Str} : (claimKey lib start key).Returns (Early NotExpired) := by
  refine .bind fun r => ?_
  split
  · exact early_of_returns (denied_notExpired (by decide))
  · trivial
  · refine .bind fun reserved => ?_
    split
    · exact early_of_returns (denied_notExpired (by decide))
    · exact early_ok _
  · exact early_of_returns (.bind fun _ => nofun)

variable (lib req) in
/-- An outcome refuses an expired grant only for a reading at which the row was expired. -/
def ReadExpired (o : InvokeOutcome) (tr : Trace BrokerSig) : Prop :=
  o.deniedReason = some .expired →
    ∃ grant now, [looked lib req grant, ⟨.clock, .ok now⟩] <:+: tr ∧ grant.expiresAt ≤ now

theorem ReadExpired.mono {o : InvokeOutcome} {tr' : Trace BrokerSig} (sub : tr <+: tr')
    (refused : ReadExpired lib req o tr) : ReadExpired lib req o tr' := by
  intro reason
  obtain ⟨grant, now, read, expired⟩ := refused reason
  exact ⟨grant, now, read.trans sub.isInfix, expired⟩

theorem wp_notExpired {p : BrokerProg InvokeOutcome} (other : p.Returns NotExpired) :
    wp (broker lib svc lossy) freeRole p (Post.onOk (ReadExpired lib req)) tr :=
  wp_returns other (wp_mono (wp_free fun _ _ => trivial) fun _ _ _ _ value o same reason =>
    (value o same reason).elim)

theorem wp_invokeResolved_expired {fastRevoked : Bool} :
    wp (broker lib svc lossy) freeRole
      (invokeResolved lib svc req grant tokenHash start fastRevoked)
      (Post.onOk (ReadExpired lib req)) (tr ++ [looked lib req grant]) := by
  unfold invokeResolved
  split
  · exact wp_notExpired (denied_notExpired (by decide))
  · refine ⟨trivial, fun a may _ => ?_⟩
    obtain ⟨now, rfl⟩ := may_sync rfl may
    show wp _ _ (if _ then _ else _) _ _
    split
    · rename_i expired
      refine wp_mono (wp_free fun _ _ => trivial) fun ended tr' grown _ o _ _ => ?_
      obtain ⟨ext, rfl⟩ := grown
      exact ⟨grant, now, ⟨tr, ext, by simp⟩, expired⟩
    · refine wp_notExpired (.bind fun allowed => ?_)
      split
      · exact denied_notExpired (by decide)
      · split
        · exact denied_notExpired (by decide)
        · trivial
        · split
          · exact denied_notExpired (by decide)
          · split
            · refine .bind_of claimKey_notExpired fun r early => ?_
              split
              · exact early _ rfl
              · exact executeReserved_ofCalls notExpired_ofCalls
            · exact executeCall_ofCalls notExpired_ofCalls

theorem wp_invokeAudited_expired {fastRevoked : Bool} :
    wp (broker lib svc lossy) freeRole
      (invokeAudited lib svc req grant tokenHash start fastRevoked)
      (Post.onOk (ReadExpired lib req)) (tr ++ [looked lib req grant]) := by
  unfold invokeAudited
  rw [wp_bind, wp_attempt]
  refine wp_mono wp_invokeResolved_expired fun ended tr' _ refused => ?_
  rw [Post.next_ok]
  split
  · exact refused
  · split
    · exact wp_notExpired (.bind fun _ => failed_ofCalls notExpired_ofCalls)
    · exact onOk_error _

theorem wp_invokeGranted_expired :
    wp (broker lib svc lossy) freeRole (invokeGranted lib svc req start)
      (Post.onOk (ReadExpired lib req)) tr := by
  show wp _ _ (markedRevoked svc (hashToken lib req.grantToken) >>= _) _ _
  rw [wp_bind]
  refine wp_mono (wp_free fun _ _ => trivial) fun ended tr _ _ => ?_
  cases ended with
  | error x => exact onOk_error _
  | ok fastRevoked =>
    refine ⟨trivial, fun a _ _ => ?_⟩
    rcases a with x | _ | grant
    · exact onOk_error _
    · exact wp_notExpired (denied_notExpired (by decide))
    · show wp _ _ (invokeAudited lib svc req grant (hashToken lib req.grantToken) start
        fastRevoked >>= fun outcome => recordCall lib grant.id req.toolName req.arguments
          outcome.status outcome.latencyMs >>= fun _ => return outcome) _ _
      rw [wp_bind]
      refine wp_mono wp_invokeAudited_expired fun ended tr' _ refused => ?_
      cases ended with
      | error x => exact onOk_error _
      | ok outcome =>
        rw [Post.next_ok, wp_bind]
        refine wp_mono (wp_free fun _ _ => trivial) fun recorded tr'' grown _ => ?_
        cases recorded with
        | error x => exact onOk_error _
        | ok _ =>
          rintro o same
          obtain rfl := Except.ok.inj same
          exact (refused outcome rfl).mono grown

/-- A refusal as expired is for the token's own expiry, before the row is looked up, or for
a reading of the row's. -/
theorem wp_invoke_expired :
    wp (broker lib svc lossy) freeRole (invoke lib svc req)
      (Post.onOk fun o tr => ReadExpired lib req o tr ∨ ∀ e ∈ tr, e.op.isLookup = false) [] := by
  refine ⟨trivial, fun a may _ => ?_⟩
  obtain ⟨start, rfl⟩ := may_sync rfl may
  have refusing : ∀ (now : Time) (error : Str) (reason : DeniedReason),
      wp (broker lib svc lossy) freeRole (denied start error reason)
        (Post.onOk fun o tr => ReadExpired lib req o tr ∨ ∀ e ∈ tr, e.op.isLookup = false)
        [⟨.clock, .ok start⟩, ⟨.clock, .ok now⟩] := by
    intro now error reason
    refine wp_of_uses (refused_uses ..) (fun _ _ _ => trivial) fun _ ext plain _ _ => .inr ?_
    refine List.forall_mem_append.mpr ⟨by simp [Op.isLookup], fun e member => ?_⟩
    exact Op.isLookup_of_isPlain (plain e member)
  show wp _ _ ((verifyGrantToken lib svc req.grantToken).attempt >>= _) _ _
  rw [wp_bind, wp_attempt]
  refine ⟨trivial, fun a may _ => ?_⟩
  obtain ⟨now, rfl⟩ := may_sync rfl may
  show wp _ _
    (Prog.ofExcept (verifiedClaims lib svc req.grantToken now) : BrokerProg GrantClaims) _ _
  rw [wp_ofExcept, Post.next_ok]
  split
  · exact refusing _ _ _
  · exact refusing _ _ _
  · exact (wp_throw _).mpr (onOk_error _)
  · split
    · exact refusing _ _ _
    · have session : wp (broker lib svc lossy) freeRole
        (withSession (invokeGranted lib svc req start))
          (Post.onOk (ReadExpired lib req)) [⟨.clock, .ok start⟩, ⟨.clock, .ok now⟩] :=
        wp_onOk_session (fun _ _ _ sub refused => refused.mono sub) wp_invokeGranted_expired
      exact wp_mono session fun _ _ _ refused o same => .inl (refused o same)

end Refused

/-! ## The two checks -/

section Checks

variable {w : World} {c : Broker} (run : (broker lib svc lossy).Reaches (.start w) c)

include run

/-- Behind every check that lets a call proceed stands a look at the expiry, at step 3. -/
theorem timed_of_clear {g : Entry BrokerSig World} (member : g ∈ c.hist)
    {t : Thread BrokerSig Request Response} (thread : c.threads[g.tid]? = some t)
    {req : InvokeRequest} (request : t.req = .invoke req) {id : Uuid}
    (clear : g.event = ⟨.query (.revokedAt id), .ok (some none)⟩) :
    ∃ grant l, grant.id = id ∧ l ∈ c.hist ∧ Timed lib req grant l g := by
  obtain ⟨t', thread', sub⟩ := run.owned member
  obtain rfl := Option.some.inj (thread.symm.trans thread')
  have permits := entry_permitted run member
  rw [clear] at sub permits
  have guard := kept run thread sub
  rw [request] at guard
  obtain ⟨grant, rfl, live⟩ := guard
  obtain ⟨now, ⟨pre, post, cut⟩, -, unexpired⟩ := live
  have readSub : (pre ++ [looked lib req grant]) ++ [⟨.clock, .ok now⟩] <+: g.past :=
    ⟨post, by simp [← cut]⟩
  obtain ⟨u, entry, le⟩ := earlier_entry run member readSub
  obtain rfl : now = u.now := of_decide_eq_true (entry_permitted run entry)
  exact ⟨grant, _, rfl, entry, {
    tid := rfl
    read := rfl
    looked_up := ⟨pre, rfl⟩
    unexpired := unexpired
    gate := clear
    unrevoked := gate_unrevoked permits
    read_before := readSub
    order := le }⟩

/-- Behind every attempt stands such a check, with no credential obtained since. -/
theorem clear_of_call {e : Entry BrokerSig World} (member : e ∈ c.hist)
    (call : e.event.op.isToolCall = true) : ∃ t req g id, c.threads[e.tid]? = some t ∧
      t.req = .invoke req ∧ g ∈ c.hist ∧ g.tid = e.tid ∧
      g.event = ⟨.query (.revokedAt id), .ok (some none)⟩ ∧
      ∃ since, e.past = g.past ++ g.event :: since ∧ ∀ ev ∈ since, ev.op.exposes = false := by
  obtain ⟨t, req, grant, tool, accessToken, thread, sub, request, -, -, mediated⟩ :=
    entry_mediated run member call
  obtain ⟨pre, since, cut, hidden⟩ := mediated.gated
  have gated : (pre ++ unmarkedNow lib svc req) ++
      [⟨.query (.revokedAt grant.id), .ok (some none)⟩] <+: e.past :=
    ⟨since, by simp [cut, notRevokedNow]⟩
  obtain ⟨v, gate, -⟩ := earlier_entry run member gated
  exact ⟨t, req, _, grant.id, thread, request, gate, rfl, rfl, since,
    by simp [cut, notRevokedNow], hidden⟩

/-- An invocation that read its grant's expiry before it is not refused as expired. -/
theorem not_refused_expired {i : Nat} {t : Thread BrokerSig Request Response}
    (thread : c.threads[i]? = some t) {req : InvokeRequest} (request : t.req = .invoke req)
    {grant : Grant} {now : Time}
    (read : [looked lib req grant, ⟨.clock, .ok now⟩] <:+: t.trace)
    (unexpired : now < grant.expiresAt) {o : InvokeOutcome}
    (finished : t.prog = .ret (.outcome o)) :
    o.deniedReason ≠ some .expired := by
  intro reason
  have entered : wp (broker lib svc lossy) freeRole (serve lib svc t.req) (Post.onOk fun v tr =>
      ∀ o, v = .outcome o → ReadExpired lib req o tr ∨ ∀ e ∈ tr, e.op.isLookup = false) [] := by
    rw [request]
    refine wp_onOk_map (wp_mono wp_invoke_expired fun _ _ _ told o same o' is => ?_)
    obtain rfl := Response.outcome.inj is
    exact told o same
  have under := run.under_start thread entered (Role.met_guarding _ _)
  rw [finished] at under
  rcases under _ rfl o rfl with refused | unlooked
  · obtain ⟨grant', now', read', expired⟩ := refused reason
    obtain ⟨rfl, rfl⟩ := reading_unique run thread request read read'
    exact Int.not_lt.mpr expired unexpired
  · cases unlooked (looked lib req grant) (read.subset List.mem_cons_self)

end Checks

/-- A look at a revocation column that found it empty, and the grant. -/
def clearedFor (e : Entry BrokerSig World) : Option Uuid :=
  match e.event with
  | ⟨.query (.revokedAt id), .ok (some none)⟩ => some id
  | _ => none

theorem of_clearedFor {e : Entry BrokerSig World} {id : Uuid} (clear : clearedFor e = some id) :
    e.event = ⟨.query (.revokedAt id), .ok (some none)⟩ := by
  unfold clearedFor at clear
  split at clear
  · obtain rfl := Option.some.inj clear
    assumption
  · cases clear

end CredBroker
