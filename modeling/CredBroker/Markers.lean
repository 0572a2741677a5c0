import CredBroker.Revocation

/-!
# Revocation markers

A marker in Redis is only ever written behind the commit of the revocation, or
over a row that already was revoked. Redis may forget it; it never says more
than the table.
-/

namespace CredBroker

open Python Interaction

variable {lib : Lib} {svc : Services} {lossy : Bool}

/-! ## Who writes a marker -/

/-- A command that records a revocation. -/
def Records (tokenHash : Str) (e : Op) : Prop :=
  ∃ ttl, e = .redis (.set (GrantCache.revokedKey tokenHash) "1" false ttl)

/-- What stands behind a marker: the grant was read, and its revocation
committed now or before. -/
def Recorded (grantId : Uuid) (tokenHash : Str) (tr : Trace BrokerSig) : Prop :=
  ∃ grant, ⟨.query (.grantById grantId), .ok (some grant)⟩ ∈ tr ∧ grant.grantTokenHash = tokenHash ∧
    (grant.revokedAt.isSome = true ∨ ⟨.commit, .ok ()⟩ ∈ tr)

/-- Only a revocation records one, and only once it stands. -/
def recordGuard : Request → Trace BrokerSig → Op → Prop
  | .invoke _ => fun _ _ => True
  | .revokeGrant grantId => fun tr e => ∀ tokenHash, Records tokenHash e →
      Recorded grantId tokenHash tr
  | _ => fun _ e => ∀ tokenHash, ¬ Records tokenHash e

abbrev recordRole (r : Request) : Role BrokerSig := .guarding (recordGuard r)

theorem revokedKey_inj {tokenHash tokenHash' : Str}
    (same : GrantCache.revokedKey tokenHash = GrantCache.revokedKey tokenHash') :
    tokenHash = tokenHash' := List.append_cancel_left same

theorem issuedKey_ne (tokenHash tokenHash' : Str) :
    GrantCache.issuedKey tokenHash ≠ GrantCache.revokedKey tokenHash' := by
  intro same
  cases congrArg List.head? same

theorem counterKey_ne (key tokenHash : Str) (window : Int) :
    RateLimiter.counterKey key window ≠ GrantCache.revokedKey tokenHash := by
  intro same
  have tails := congrArg (List.take 2) same
  cases tails

theorem idempotencyName_ne (key tokenHash : Str) :
    IdempotencyStore.name key ≠ GrantCache.revokedKey tokenHash := by
  intro same
  cases congrArg List.head? same

/-- Operations that do not record anything. -/
def Op.isUnrecorded : Op → Bool
  | .redis (.set ..) => false
  | _ => true

theorem not_records {e : Op} (unrecorded : e.isUnrecorded = true) (tokenHash : Str) :
    ¬ Records tokenHash e := by
  rintro ⟨ttl, rfl⟩
  cases unrecorded

theorem Op.isUnrecorded_of_isHarmless {e : Op} (harmless : e.isHarmless = true) :
    e.isUnrecorded = true := by
  cases e <;> first | rfl | cases harmless

/-- A request for a grant sets no revocation marker. -/
theorem requestGrant_records_nothing (agentId : Uuid) (toolName requestedScope : Str) :
    (requestGrant lib svc agentId toolName requestedScope).Uses
      fun e => ∀ tokenHash, ¬ Records tokenHash e := by
  have plain : ∀ {e : Op}, e.isUnrecorded = true →
      (op e).Uses fun e => ∀ tokenHash, ¬ Records tokenHash e := fun unrecorded =>
    (Prog.uses_perform _).mpr (not_records unrecorded)
  have paced : (checkGrantRate svc agentId).Uses fun e => ∀ tokenHash, ¬ Records tokenHash e :=
    .ite (fun _ => .bind (.bind (plain rfl) fun _ => .bind (plain rfl) fun _ =>
      .ite (fun _ => .bind (plain rfl) fun _ => trivial) fun _ => trivial) fun _ =>
        .ite (fun _ => trivial) fun _ => trivial) fun _ => trivial
  refine .bind paced fun _ => .bind (plain rfl) fun found => ?_
  split
  · trivial
  · refine .bind (Prog.uses_ofExcept _) fun tool => .bind (plain rfl) fun connected => ?_
    split
    · trivial
    · refine .bind (plain rfl) fun _ => .bind (plain rfl) fun _ => .ite (fun _ => trivial) fun _ =>
        .bind (plain rfl) fun _ => .bind (Prog.uses_ofExcept _) fun _ =>
        .bind (Prog.uses_ofExcept _) fun token => .bind (plain rfl) fun _ =>
        .bind (plain rfl) fun _ =>
        .ite (fun _ => .bind (.bind ((Prog.uses_perform _).mpr ?_) fun _ => trivial)
          fun _ => trivial) fun _ => trivial
      rintro tokenHash ⟨ttl, same⟩
      injection same with same
      injection same with named
      exact issuedKey_ne _ _ named

/-- A marker is recorded after the row was found revoked, or marked and committed. -/
theorem wp_revokeGrant_recording (grantId : Uuid) :
    wp (broker lib svc lossy) (recordRole (.revokeGrant grantId)) (revokeGrant svc grantId)
      (fun _ _ => True) [] := by
  have plain : ∀ {tr : Trace BrokerSig} {e : Op}, e.isUnrecorded = true →
      recordGuard (.revokeGrant grantId) tr e := fun unrecorded tokenHash records =>
    (not_records unrecorded tokenHash records).elim
  have recording : ∀ (grant : Grant) (tr : Trace BrokerSig),
      Recorded grantId grant.grantTokenHash tr →
      wp (broker lib svc lossy) (recordRole (.revokeGrant grantId))
        (if svc.grantCache then do
          GrantCache.recordRevoked grant.grantTokenHash
          return grant
        else return grant : BrokerProg Grant) (fun _ _ => True) tr := by
    intro grant tr recorded
    split
    · refine ⟨?_, fun a _ _ => ?_⟩
      · rintro tokenHash ⟨ttl, same⟩
        injection same with same
        injection same with named
        exact revokedKey_inj named ▸ recorded
      · rcases a with x | _
        · trivial
        · refine ⟨plain rfl, fun a _ _ => ?_⟩
          cases a <;> trivial
    · trivial
  refine ⟨plain rfl, fun a _ _ => ?_⟩
  rcases a with x | _ | grant
  · trivial
  · trivial
  · show wp _ _ (markRevoked grant >>= _) _ _
    rw [wp_bind]
    unfold markRevoked
    split
    · refine ⟨plain rfl, fun a may _ => ?_⟩
      obtain ⟨now, rfl⟩ := may_sync rfl may
      refine ⟨plain rfl, fun a may _ => ?_⟩
      obtain ⟨⟨⟩, rfl⟩ := may_sync rfl may
      refine ⟨plain rfl, fun a _ _ => ?_⟩
      rcases a with x | _
      · trivial
      · exact recording { grant with revokedAt := some now } _
          ⟨grant, by simp, rfl, .inr (by simp)⟩
    · rename_i revoked
      exact recording grant _ ⟨grant, by simp, rfl, .inl (Option.isSome_iff_ne_none.mpr revoked)⟩

variable (lib svc) in
/-- Whatever marks a token as revoked has found its grant, and has revoked it. -/
theorem wp_serve_recording (r : Request) :
    wp (broker lib svc lossy) (recordRole r) (serve lib svc r) (fun _ _ => True) [] := by
  have quiet : ∀ {α : Type} {p : BrokerProg α} {role : Role BrokerSig}, Within p Op.isHarmless →
      (∀ tr e, e.isUnrecorded = true → role.Guard tr e) →
      wp (broker lib svc lossy) role p (fun _ _ => True) [] := fun uses guard =>
    wp_guarded uses fun tr e harmless => guard tr e (Op.isUnrecorded_of_isHarmless harmless)
  cases r with
  | createAgent body => exact wp_map (quiet (createAgent_uses body) fun _ _ => not_records)
  | seedDemo => exact wp_map (quiet (withSession_uses rfl seedDemo_uses) fun _ _ => not_records)
  | authorize provider userId =>
    exact wp_map (quiet (authorize_uses provider userId) fun _ _ => not_records)
  | callback request => exact wp_map (quiet (callback_uses request) fun _ _ => not_records)
  | requestGrant agentId toolName requestedScope =>
    refine wp_map (wp_withSession (fun _ => not_records rfl) ?_)
    exact wp_mono (wp_guarded (requestGrant_records_nothing agentId toolName requestedScope)
      fun _ _ unrecorded => unrecorded) fun _ _ _ _ _ _ => trivial
  | revokeGrant grantId =>
    refine wp_map (wp_withSession (fun _ _ records => (not_records rfl _ records).elim) ?_)
    exact wp_mono (wp_revokeGrant_recording grantId) fun _ _ _ _ _ _ => trivial
  | invoke req => exact wp_free fun _ _ => trivial

/-! ## What a marker says -/

/-- The row with this token hash is there, and revoked. -/
def Database.RevokedToken (db : Database) (tokenHash : Str) : Prop :=
  ∃ grant ∈ db.grants, grant.grantTokenHash = tokenHash ∧ grant.revokedAt.isSome = true

theorem Database.RevokedToken.mono {db db' : Database} {tokenHash : Str}
    (revoked : db.RevokedToken tokenHash) (grows : db.Grows db') : db'.RevokedToken tokenHash := by
  obtain ⟨grant, member, hash, marked⟩ := revoked
  obtain ⟨row, there, same, stays⟩ := grows.grants grant member
  exact ⟨row, there, (Grant.issued_hash same).trans hash, stays marked⟩

/-- Every revocation marker is that of a revoked row. -/
def World.MarkersTrue (w : World) : Prop :=
  ∀ tokenHash, (w.redis.table (GrantCache.revokedKey tokenHash)).isSome = true →
    w.db.RevokedToken tokenHash

/-- What was recorded stands in the table. -/
theorem Recorded.revoked {w : World} {c : Broker} (keyed : w.db.Keyed)
    (run : (broker lib svc lossy).Reaches (.start w) c) {i : Nat}
    {t : Thread BrokerSig Request Response} (thread : c.threads[i]? = some t) {grantId : Uuid}
    (request : t.req = .revokeGrant grantId) {tokenHash : Str}
    (recorded : Recorded grantId tokenHash t.trace) : c.world.db.RevokedToken tokenHash := by
  obtain ⟨grant, found, hash, stands⟩ := recorded
  obtain ⟨v, answered, grows⟩ := read_truthful run thread found
  have isFound : v.db.grants.find? (·.id = grantId) = some grant :=
    (of_decide_eq_true answered).symm
  have named : grant.id = grantId := by simpa using List.find?_some isFound
  obtain ⟨row, there, same, stays⟩ := grows.grants grant (List.mem_of_find?_eq_some isFound)
  refine ⟨row, there, (Grant.issued_hash same).trans hash, ?_⟩
  rcases stands with before | committed
  · exact stays before
  · have has : hasRevoked grantId t = true := by
      rw [hasRevoked, request, Bool.and_eq_true]
      exact ⟨decide_eq_true rfl, List.any_eq_true.mpr ⟨_, committed, rfl⟩⟩
    exact (RevokedBy.revoked keyed run ⟨t, thread, has⟩).2 row there
      ((Grant.issued_id same).trans named)

/-- What may touch a marker records it, or only reads. -/
theorem read_or_records {r : Request} {tr : Trace BrokerSig} {cmd : Redis.Cmd} {tokenHash : Str}
    (guard : requestGuard lib svc r tr (.redis cmd))
    (named : cmd.name = GrantCache.revokedKey tokenHash) :
    cmd.isRead = true ∨ ((∀ req, r ≠ .invoke req) ∧ Records tokenHash (.redis cmd)) := by
  have plain : GrantRedisUse cmd → Records tokenHash (.redis cmd) := by
    rintro (⟨key, window⟩ | ⟨key, window, ttl⟩ | ⟨other, ttl⟩ | ⟨other, ttl⟩ | ⟨other⟩)
    · exact (counterKey_ne _ _ _ named).elim
    · exact (counterKey_ne _ _ _ named).elim
    · exact (issuedKey_ne _ _ named).elim
    · obtain rfl := revokedKey_inj named
      exact ⟨ttl, rfl⟩
    · exact (issuedKey_ne _ _ named).elim
  cases r with
  | invoke req =>
    cases guard with
    | get | existsKey => exact .inl rfl
    | incr | expire => exact (counterKey_ne _ _ _ named).elim
    | reserve | complete | release => exact (idempotencyName_ne _ _ named).elim
  | revokeGrant grantId => exact .inr ⟨by simp, plain guard.1⟩
  | _ => exact .inr ⟨by simp, plain guard⟩

theorem World.nudge_table {n : World.Nudge} {w w' : World} (moved : World.nudge lossy n w = some w')
    {name : Str} (there : (w'.redis.table name).isSome = true) :
    (w.redis.table name).isSome = true := by
  cases n with
  | tick elapsed =>
    obtain rfl := Option.some.inj moved
    exact there
  | evict keep =>
    rw [World.nudge] at moved
    split at moved
    · obtain rfl := Option.some.inj moved
      simp only [Redis.evict] at there
      split at there
      · exact there
      · cases there
    · cases moved

/-- One step of a program or of the environment leaves no marker without a revocation. -/
theorem markersTrue_step {w : World} {c c' : Broker} (keyed : w.db.Keyed)
    (run : (broker lib svc lossy).Reaches (.start w) c) (step : (broker lib svc lossy).Step c c')
    (true_ : c.world.MarkersTrue) : c'.world.MarkersTrue := by
  intro tokenHash there
  have grows := (run_grows run (.single step)).1
  cases step with
  | spawn r => exact true_ tokenHash there
  | nudge n moved => exact (true_ tokenHash (World.nudge_table moved there)).mono grows
  | @answer i t e k a thread pending permits =>
    refine Database.RevokedToken.mono ?_ grows
    have framed := c.world.after_framed t.trace ⟨e, a⟩
    cases e with
    | redis cmd =>
      have table : (c.world.after t.trace ⟨.redis cmd, a⟩).redis.table = c.world.redis.table ∨
          (c.world.after t.trace ⟨.redis cmd, a⟩).redis = c.world.redis.after c.world.now cmd := by
        simp only [World.after]
        split
        · exact .inr rfl
        · exact .inl rfl
      change ((c.world.after t.trace ⟨.redis cmd, a⟩).redis.table _).isSome = true at there
      by_cases named : cmd.name = GrantCache.revokedKey tokenHash
      · rcases read_or_records (next_kept run thread (Prog.next_eq_some.mpr ⟨k, pending⟩))
          named with read | ⟨other, records⟩
        · rw [Redis.after_read _ _ read] at table
          refine true_ tokenHash ?_
          rcases table with same | same
          · rwa [same] at there
          · rwa [same] at there
        · have under := Machine.Reaches.under_start run thread (wp_serve_recording lib svc t.req)
            (Role.met_guarding _ _)
          rw [pending] at under
          have guard := under.1
          cases request : t.req with
          | invoke req => exact (other req request).elim
          | revokeGrant grantId =>
            rw [request] at guard
            exact Recorded.revoked keyed run thread request (guard tokenHash records)
          | _ =>
            rw [request] at guard
            exact (guard tokenHash records).elim
      · refine true_ tokenHash ?_
        rcases table with same | same
        · rwa [same] at there
        · rwa [same, Redis.after_table_ne _ _ (Ne.symm named)] at there
    | _ =>
      refine true_ tokenHash ?_
      have same := framed.redis rfl
      rwa [← same]

/-- In every state a run reaches, a marker is that of a revoked row. -/
theorem run_markersTrue {w : World} {c : Broker} (keyed : w.db.Keyed) (start : w.MarkersTrue)
    (run : (broker lib svc lossy).Reaches (.start w) c) : c.world.MarkersTrue := by
  induction run with
  | refl => exact start
  | tail reach step ih => exact markersTrue_step keyed reach step ih

end CredBroker
