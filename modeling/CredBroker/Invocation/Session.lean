import CredBroker.Invocation.Verdict

/-!
# A sound session

Once a statement has raised, a session answers no further read. An invocation
looks its grant up again only over a session in which nothing has raised.
-/

namespace CredBroker

open Python Interaction

variable {lib : Lib} {svc : Services} {lossy : Bool}

/-- No statement of the open transaction raised. -/
def Sound (tr : Trace BrokerSig) : Prop := (Session.replay tr).failed = false

/-- Grants are checked again over a sound session. -/
def soundGuard (tr : Trace BrokerSig) : Op → Prop
  | .query (.revokedAt _) => Sound tr
  | _ => True

abbrev soundRole : Role BrokerSig := .guarding soundGuard

/-- What returns leaves the session sound. -/
def soundPost {α : Type} : Post BrokerSig α := fun r tr =>
  match r with
  | .ok _ => Sound tr
  | .error _ => True

section Rules

variable {tr ext : Trace BrokerSig} {α β : Type}

theorem Session.note_local (s : Session) {e : Event BrokerSig} (quiet : e.op.isLocal = true) :
    s.note e = s := by
  obtain ⟨e, a⟩ := e
  cases e <;> first | rfl | cases quiet

/-- Local operations leave the session as it is. -/
theorem Session.replay_local (quiet : ∀ e ∈ ext, e.op.isLocal = true) :
    replay (tr ++ ext) = replay tr := by
  induction ext using List.reverseRecOn with
  | nil => rw [List.append_nil]
  | append_singleton ext e ih =>
    obtain ⟨quiet, last⟩ := List.forall_mem_append.mp quiet
    rw [← List.append_assoc, replay_append_singleton, ih quiet,
      note_local _ (last e (List.mem_singleton.mpr rfl))]

/-- A sound session stays so. -/
theorem Sound.append (sound : Sound tr) (quiet : ∀ e ∈ ext, e.op.isLocal = true) :
    Sound (tr ++ ext) := by
  rw [Sound, Session.replay_local quiet]
  exact sound

theorem Sound.query (sound : Sound tr) {q : Query} (a : q.Val) :
    Sound (tr ++ [⟨.query q, .ok a⟩]) := by
  rw [Sound, Session.replay_append_singleton]
  cases q with
  | agentForUpdate id => cases a <;> exact sound
  | _ => exact sound

theorem Sound.setAccount (sound : Sound tr) {attr : Attr} (a : BrokerSig.Ans (.setAccount attr)) :
    Sound (tr ++ [⟨.setAccount attr, a⟩]) := by
  rw [Sound, Session.replay_append_singleton]
  exact sound

theorem Sound.commit (sound : Sound tr) : Sound (tr ++ [⟨.commit, .ok ()⟩]) := by
  rw [Sound, Session.replay_append_singleton]
  exact sound

theorem soundGuard_of_isLocal (tr : Trace BrokerSig) (e : Op) (quiet : e.isLocal = true) :
    soundGuard tr e := by
  cases e with
  | query q => cases quiet
  | _ => trivial

/-- Local operations keep a session sound, however they end. -/
theorem Sound.wp_local {p : BrokerProg α} {Q : Post BrokerSig α} (uses : Within p Op.isLocal)
    (sound : Sound tr) (post : ∀ r tr', Sound tr' → Q r tr') :
    wp (broker lib svc lossy) soundRole p Q tr :=
  wp_of_uses uses soundGuard_of_isLocal fun r _ quiet => post r _ (sound.append quiet)

/-- A sequence goes on over a sound session. -/
theorem wp_sound_bind {p : BrokerProg α} {f : α → BrokerProg β} {Q : Post BrokerSig β}
    (head : wp (broker lib svc lossy) soundRole p soundPost tr)
    (tail : ∀ a tr', Sound tr' → wp (broker lib svc lossy) soundRole (f a) Q tr')
    (raised : ∀ x tr', Q (.error x) tr') : wp (broker lib svc lossy) soundRole (p >>= f) Q tr := by
  rw [wp_bind]
  refine wp_mono head fun r tr' _ ended => ?_
  cases r with
  | ok a => exact tail a tr' ended
  | error x => exact raised x tr'

theorem soundPost_of_sound {r : Except PyExn α} (sound : Sound tr) : soundPost r tr := by
  cases r with
  | ok a => exact sound
  | error x => trivial

theorem Op.isLocal_of_isRegister {e : Op} (register : e.isRegister = true) : e.isLocal = true := by
  cases e <;> first | rfl | cases register

/-- And so it does over a program of local operations. -/
theorem Sound.local (sound : Sound tr) {p : BrokerProg α} (uses : Within p Op.isLocal) :
    wp (broker lib svc lossy) soundRole p soundPost tr :=
  sound.wp_local uses fun _ _ => soundPost_of_sound

end Rules

/-! ## The steps of an invocation -/

section Walk

variable {req : InvokeRequest} {grant : Grant} {tokenHash : Str} {account : ConnectedAccount}
  {tool : ToolAdapter} {start : Time} {tr : Trace BrokerSig}

theorem wp_setAccount_sound (sound : Sound tr) (attr : Attr) :
    wp (broker lib svc lossy) soundRole (op (.setAccount attr)) soundPost tr := by
  refine ⟨trivial, fun a _ _ => ?_⟩
  cases a with
  | ok _ => exact sound.setAccount _
  | error x => trivial

theorem wp_rotateRefresh_sound (sound : Sound tr) (refreshToken : Json) :
    wp (broker lib svc lossy) soundRole (rotateRefresh refreshToken) soundPost tr := by
  unfold rotateRefresh
  split
  · exact wp_sound_bind (sound.local (within_op rfl))
      (fun _ _ sound => wp_setAccount_sound sound _) fun _ _ => trivial
  · exact sound

/-- A refresh assigns to an account that is loaded, and commits. -/
theorem wp_persistRefreshed_sound (sound : Sound tr) (refreshed : TokenResponse) :
    wp (broker lib svc lossy) soundRole (persistRefreshed refreshed) soundPost tr := by
  have raised : ∀ (x : PyExn) (tr' : Trace BrokerSig),
      soundPost (.error x : Except PyExn Str) tr' :=
    fun _ _ => trivial
  refine wp_sound_bind (sound.local (within_op rfl)) (fun _ _ sound => ?_) raised
  refine wp_sound_bind (wp_setAccount_sound sound _) (fun _ _ sound => ?_) raised
  refine wp_sound_bind (wp_rotateRefresh_sound sound _) (fun _ _ sound => ?_) raised
  refine wp_sound_bind (sound.local ((expiryOf_uses _).mono Op.isLocal_of_isPlain))
    (fun _ _ sound => ?_) raised
  refine wp_sound_bind (wp_setAccount_sound sound _)
    (fun _ _ sound => ⟨trivial, fun a _ _ => ?_⟩) raised
  cases a with
  | ok _ => exact sound.commit
  | error x => trivial

/-- So it does with the exchange before it. -/
theorem wp_refreshCredential_sound (sound : Sound tr) :
    wp (broker lib svc lossy) soundRole (refreshCredential lib svc account) soundPost tr := by
  have raised : ∀ (x : PyExn) (tr' : Trace BrokerSig),
      soundPost (.error x : Except PyExn Str) tr' :=
    fun _ _ => trivial
  unfold refreshCredential
  split
  · trivial
  · refine wp_sound_bind (sound.local (within_op rfl)) (fun _ _ sound => ?_) raised
    refine wp_sound_bind (wp_sound_bind (sound.local (within_op rfl)) (fun response _ sound => ?_)
      fun _ _ => trivial) (fun refreshed _ sound => wp_persistRefreshed_sound sound refreshed)
        raised
    exact sound.local ((parseTokenResponse_uses response).mono Op.isLocal_of_isRegister)

/-- A step that ends the invocation, or goes on over a sound session. -/
def continuing {α : Type} : Post BrokerSig (Except InvokeOutcome α) := fun r tr =>
  match r with
  | .ok (.ok _) => Sound tr
  | _ => True

theorem wp_ending {p : BrokerProg InvokeOutcome} (uses : Within p Op.isLocal) :
    wp (broker lib svc lossy) soundRole p (fun _ _ => True) tr :=
  wp_guarded uses soundGuard_of_isLocal

theorem wp_ending_early {α : Type} {status : Status} {error : Str} {reason : Option DeniedReason} :
    wp (broker lib svc lossy) soundRole
      (.error <$> refused start status error reason : BrokerProg (Except InvokeOutcome α))
      continuing tr := by
  show wp _ _ (refused start status error reason >>= fun o =>
    (Prog.ret (Except.error o) : BrokerProg (Except InvokeOutcome α))) _ _
  rw [wp_bind]
  refine wp_mono (wp_ending refused_local) fun r _ _ _ => ?_
  cases r <;> trivial

theorem wp_refreshOrOutcome_sound (sound : Sound tr) :
    wp (broker lib svc lossy) soundRole (refreshOrOutcome lib svc account start) continuing tr := by
  unfold refreshOrOutcome
  rw [wp_bind, wp_attempt]
  refine wp_mono (wp_refreshCredential_sound sound) fun r tr' _ ended => ?_
  rw [Post.next_ok]
  split
  · exact ended
  · exact wp_ending_early
  · exact wp_ending_early
  · exact wp_ending_early
  · split
    · exact wp_ending_early
    · trivial

theorem wp_refreshIfStale_sound (sound : Sound tr) :
    wp (broker lib svc lossy) soundRole (refreshIfStale lib svc account start) continuing tr := by
  unfold refreshIfStale
  split
  · exact sound
  · refine wp_sound_bind (sound.local (within_op rfl)) (fun now tr' sound => ?_) fun _ _ => trivial
    split
    · split
      · show wp _ _ (refreshOrOutcome lib svc account start >>= _) _ _
        rw [wp_bind]
        refine wp_mono (wp_refreshOrOutcome_sound sound) fun r tr'' _ ended => ?_
        rcases r with x | outcome | accessToken
        · trivial
        · trivial
        · exact ended
      · refine wp_sound_bind (sound.local (within_op rfl)) (fun now tr' sound => ?_)
          fun _ _ => trivial
        split
        · exact wp_ending_early
        · exact sound
    · exact sound

theorem wp_obtainCredential_sound (sound : Sound tr) :
    wp (broker lib svc lossy) soundRole (obtainCredential lib svc account start) continuing tr := by
  unfold obtainCredential
  rw [wp_bind]
  refine wp_mono (wp_refreshIfStale_sound sound) fun r tr' _ ended => ?_
  rcases r with x | outcome | _ | accessToken
  · trivial
  · trivial
  · refine wp_sound_bind (Sound.local ended decryptStored_local) (fun r tr'' sound => ?_)
      fun _ _ => trivial
    cases r with
    | ok accessToken => exact sound
    | error outcome => trivial
  · exact ended

theorem wp_isRevokedNow_sound (sound : Sound tr) :
    wp (broker lib svc lossy) soundRole (isRevokedNow svc grant tokenHash) soundPost tr := by
  refine wp_sound_bind (sound.local markedRevoked_local) (fun marked tr' sound => ?_)
    fun _ _ => trivial
  split
  · exact sound
  · refine ⟨sound, fun a _ _ => ?_⟩
    rcases a with x | _ | revokedAt
    · trivial
    · exact sound.query _
    · exact sound.query _

/-- The gate before a round. -/
theorem wp_gate_sound {p : BrokerProg InvokeOutcome} (sound : Sound tr)
    (clear : ∀ tr', Sound tr' → wp (broker lib svc lossy) soundRole p (fun _ _ => True) tr') :
    wp (broker lib svc lossy) soundRole
      (isRevokedNow svc grant tokenHash >>= fun revoked =>
        if revoked then denied start "grant has been revoked" .revoked else p)
      (fun _ _ => True) tr := by
  refine wp_sound_bind (wp_isRevokedNow_sound sound) (fun revoked tr' sound => ?_)
    fun _ _ => trivial
  split
  · exact wp_ending refused_local
  · exact clear tr' sound

theorem wp_providerRound_sound {refreshed : Bool} {accessToken : Str}
    (next : refreshed = false → ∀ accessToken tr', Sound tr' →
      wp (broker lib svc lossy) soundRole
        (providerRounds lib svc req grant tokenHash account tool start true accessToken)
        (fun _ _ => True) tr')
    (sound : Sound tr) :
    wp (broker lib svc lossy) soundRole
      (providerRounds lib svc req grant tokenHash account tool start refreshed accessToken)
      (fun _ _ => True) tr := by
  rw [providerRounds, wp_bind, wp_attempt]
  refine sound.wp_local callProvider_local fun r tr' sound => ?_
  rw [Post.next_ok]
  split
  · exact wp_ending succeeded_local
  · split
    · rename_i again
      show wp _ _ (refreshOrOutcome lib svc account start >>= _) _ _
      rw [wp_bind]
      refine wp_mono (wp_refreshOrOutcome_sound sound) fun r tr'' _ ended => ?_
      rcases r with x | outcome | accessToken
      · trivial
      · trivial
      · exact wp_gate_sound ended fun tr' sound => next again.2.1 accessToken tr' sound
    · exact wp_ending refused_local
  · exact wp_ending refused_local
  · exact wp_ending refused_local
  · exact wp_ending refused_local
  · exact wp_ending refused_local
  · trivial

/-- A call loads and assigns to one account. -/
theorem wp_executeCall_sound (sound : Sound tr) :
    wp (broker lib svc lossy) soundRole (executeCall lib svc req grant tokenHash tool start)
      (fun _ _ => True) tr := by
  refine ⟨trivial, fun a _ _ => ?_⟩
  rcases a with x | _ | account
  · trivial
  · exact wp_ending refused_local
  · show wp _ _ (obtainCredential lib svc account start >>= _) _ _
    rw [wp_bind]
    refine wp_mono (wp_obtainCredential_sound (sound.query _)) fun r tr' _ ended => ?_
    rcases r with x | outcome | ⟨accessToken, refreshed⟩
    · trivial
    · trivial
    · exact wp_gate_sound ended fun tr' sound => wp_providerRound_sound
        (fun _ accessToken tr' sound => wp_providerRound_sound (by simp) sound) sound

/-- What comes after it under a key is on Redis. -/
theorem wp_executeReserved_sound {store : IdempotencyStore} {key reservation : Str}
    (sound : Sound tr) :
    wp (broker lib svc lossy) soundRole
      (executeReserved lib svc req grant tokenHash tool start store key reservation)
      (fun _ _ => True) tr := by
  unfold executeReserved
  rw [wp_bind, wp_attempt]
  refine wp_mono (wp_executeCall_sound sound) fun r tr' _ _ => ?_
  rw [Post.next_ok]
  have quiet : ∀ {p : BrokerProg InvokeOutcome}, Within p Op.isLocal →
      wp (broker lib svc lossy) soundRole p (fun _ _ => True) tr' := wp_ending
  rcases r with x | outcome
  · exact quiet (.ite (fun _ => .bind release_local fun _ => trivial) fun _ => trivial)
  · exact quiet (.bind settle_local fun _ => trivial)

/-- Under its grant an invocation does no more than that to its session. -/
theorem wp_invokeResolved_sound {fastRevoked : Bool} (sound : Sound tr) :
    wp (broker lib svc lossy) soundRole
      (invokeResolved lib svc req grant tokenHash start fastRevoked) (fun _ _ => True) tr := by
  have raised : ∀ (x : PyExn) (tr' : Trace BrokerSig), True := fun _ _ => trivial
  unfold invokeResolved
  split
  · exact wp_ending refused_local
  · refine wp_sound_bind (sound.local (within_op rfl)) (fun now tr' sound => ?_) raised
    split
    · exact wp_ending refused_local
    · refine wp_sound_bind (sound.local checkInvokeRate_local) (fun allowed tr' sound => ?_) raised
      split
      · exact wp_ending refused_local
      · split
        · exact wp_ending refused_local
        · trivial
        · split
          · exact wp_ending refused_local
          · split
            · refine wp_sound_bind (sound.local claimKey_local) (fun r tr' sound => ?_) raised
              cases r with
              | error outcome => trivial
              | ok reservation => exact wp_executeReserved_sound sound
            · exact wp_executeCall_sound sound

/-- A failed one is rolled back before the audit row is added. -/
theorem wp_invokeAudited_sound {fastRevoked : Bool} (sound : Sound tr) :
    wp (broker lib svc lossy) soundRole
      (invokeAudited lib svc req grant tokenHash start fastRevoked) (fun _ _ => True) tr := by
  unfold invokeAudited
  rw [wp_bind, wp_attempt]
  refine wp_mono (wp_invokeResolved_sound sound) fun r tr' _ _ => ?_
  rw [Post.next_ok]
  split
  · trivial
  · split
    · refine ⟨trivial, fun a _ _ => ?_⟩
      cases a with
      | ok _ => exact wp_ending refused_local
      | error x => trivial
    · trivial

theorem wp_recordCall_sound {grantId : Uuid} {status : Status} {latencyMs : Nat} :
    wp (broker lib svc lossy) soundRole
      (recordCall lib grantId req.toolName req.arguments status latencyMs)
      (fun _ _ => True) tr := by
  refine ⟨trivial, fun a _ _ => ?_⟩
  cases a with
  | ok _ => exact ⟨trivial, fun a _ _ => by cases a <;> trivial⟩
  | error x => trivial

/-- The session is sound up to its end. -/
theorem wp_invokeGranted_sound (sound : Sound tr) :
    wp (broker lib svc lossy) soundRole (invokeGranted lib svc req start) (fun _ _ => True) tr := by
  refine wp_sound_bind (sound.local markedRevoked_local) (fun fastRevoked tr' sound => ?_)
    fun _ _ => trivial
  refine ⟨trivial, fun a _ _ => ?_⟩
  rcases a with x | _ | grant
  · trivial
  · exact wp_ending refused_local
  · show wp _ _
      (invokeAudited lib svc req grant (hashToken lib req.grantToken) start fastRevoked >>= _) _ _
    rw [wp_bind]
    refine wp_mono (wp_invokeAudited_sound (sound.query _)) fun r tr'' _ _ => ?_
    cases r with
    | error x => trivial
    | ok outcome =>
      show wp _ _ (recordCall lib grant.id req.toolName req.arguments outcome.status
        outcome.latencyMs >>= _) _ _
      rw [wp_bind]
      refine wp_mono wp_recordCall_sound fun r _ _ _ => ?_
      cases r <;> trivial

/-- `invoke`: its session is sound at every check. -/
theorem wp_invoke_sound :
    wp (broker lib svc lossy) soundRole (invoke lib svc req) (fun _ _ => True) [] := by
  have raised : ∀ (x : PyExn) (tr' : Trace BrokerSig), True := fun _ _ => trivial
  have start : Sound [] := rfl
  refine wp_sound_bind (start.local (within_op rfl)) (fun start tr sound => ?_) raised
  refine wp_sound_bind (sound.local (.attempt verifyGrantToken_local)) (fun r tr sound => ?_) raised
  split
  · exact wp_ending refused_local
  · exact wp_ending refused_local
  · trivial
  · split
    · exact wp_ending refused_local
    · refine wp_withSession (fun _ => trivial) ?_
      exact wp_mono (wp_invokeGranted_sound sound) fun _ _ _ _ _ _ => trivial

end Walk

end CredBroker
