import CredBroker.Interaction.Replace
import CredBroker.Invocation.Session
import CredBroker.Markers

/-!
# Invocations without a grant cache

An invocation that reads the markers decides as one that does not have the
cache: a marker it meets is that of a revoked row, so a look at the row decides
alike. `Tracks` relates the two programs step by step, and the run of the first
yields one of the second.
-/

namespace CredBroker

open Python Interaction

variable {lib : Lib} {svc : Services} {lossy : Bool}

/-- The services of a process without a grant cache. -/
def Services.uncached (svc : Services) : Services := { svc with grantCache := false }

/-- A request, and whether the process that serves it has the grant cache. -/
structure Served where
  cached : Bool
  request : Request

/-- A broker some of whose requests are served without the grant cache. -/
def partly (lib : Lib) (svc : Services) (lossy : Bool) :
    Machine BrokerSig Served Response World World.Nudge where
  entry r := serve lib (if r.cached then svc else svc.uncached) r.request
  Permits w tr e := w.permits tr e = true
  after := World.after
  nudge := World.nudge lossy

theorem broker_extends : (broker lib svc lossy).Extends (partly lib svc lossy) (⟨true, ·⟩) where
  entry _ := rfl
  permits permits := permits
  after := rfl
  nudge := rfl

/-! ## Two programs side by side -/

/-- What the program that reads the markers has seen of its grant. -/
inductive Stage
  | unseen
  | marked
  | found (id : Uuid)

/-- What may come after a stage. -/
def Stage.Leads (s s' : Stage) : Prop := s' = s ∨ ∀ id, s ≠ .found id

theorem Stage.Leads.refl (s : Stage) : s.Leads s := .inl rfl

theorem Stage.Leads.of_found {id : Uuid} {s : Stage} (leads : (Stage.found id).Leads s) :
    s = .found id := leads.resolve_right fun open_ => open_ id rfl

/-- `p` reads the markers of a token and `q` does not. -/
inductive Tracks (tokenHash : Str) {α : Type} : Stage → BrokerProg α → BrokerProg α → Prop
  | ret (s a) : Tracks tokenHash s (.ret a) (.ret a)
  | throw (s x) : Tracks tokenHash s (.throw x) (.throw x)
  | call {s e k k'} (next : ∀ a, Tracks tokenHash s (k a) (k' a)) :
      Tracks tokenHash s (.call e k) (.call e k')
  /-- The look at the marker before the row is looked up. -/
  | entry {k q} (clear : Tracks tokenHash .unseen (k (.ok (0 : Nat))) q)
      (marked : ∀ n : Nat, n ≠ 0 → Tracks tokenHash .marked (k (.ok n)) q) :
      Tracks tokenHash .unseen (.call (.redis (.existsKey (GrantCache.revokedKey tokenHash))) k) q
  /-- The row is looked up; behind a marker it is a revoked one. -/
  | lookup {s k k'} (open_ : ∀ id, s ≠ .found id)
      (raised : ∀ x, Tracks tokenHash s (k (.error x)) (k' (.error x)))
      (missing : Tracks tokenHash s (k (.ok none)) (k' (.ok none)))
      (row : ∀ grant : Grant, (s = .marked → grant.revokedAt.isSome = true) →
        Tracks tokenHash (.found grant.id) (k (.ok (some grant))) (k' (.ok (some grant)))) :
      Tracks tokenHash s (.call (.query (.grantByTokenHash tokenHash)) k)
        (.call (.query (.grantByTokenHash tokenHash)) k')
  /-- A check before a call: behind a marker the row is revoked. -/
  | gate {id k k'} (clear : Tracks tokenHash (.found id) (k (.ok (0 : Nat)))
        (.call (.query (.revokedAt id)) k'))
      (marked : ∀ (n : Nat) (time : Time), n ≠ 0 →
        Tracks tokenHash (.found id) (k (.ok n)) (k' (.ok (some (some time))))) :
      Tracks tokenHash (.found id)
        (.call (.redis (.existsKey (GrantCache.revokedKey tokenHash))) k)
        (.call (.query (.revokedAt id)) k')

namespace Tracks

variable {tokenHash : Str} {α β : Type} {s : Stage}

theorem refl (s : Stage) (p : BrokerProg α) : Tracks tokenHash s p p := by
  induction p with
  | ret a => exact .ret s a
  | throw x => exact .throw s x
  | call e k ih => exact .call ih

theorem bind {p q : BrokerProg α} {f g : α → BrokerProg β} (head : Tracks tokenHash s p q)
    (tail : ∀ s' a, s.Leads s' → Tracks tokenHash s' (f a) (g a)) :
    Tracks tokenHash s (p >>= f) (q >>= g) := by
  induction head with
  | ret s a => exact tail s a (.refl s)
  | throw s x => exact .throw s x
  | call next ih => exact .call fun a => ih a tail
  | entry clear marked ihc ihm =>
    refine .entry (ihc tail) fun n seen => ihm n seen fun s' a _ => tail s' a (.inr ?_)
    rintro id ⟨⟩
  | lookup open_ raised missing row ihr ihm ihf =>
    exact .lookup open_ (fun x => ihr x tail) (ihm tail) fun grant revoked =>
      ihf grant revoked fun s' a _ => tail s' a (.inr open_)
  | gate clear marked ihc ihm =>
    exact .gate (ihc tail) fun n time seen => ihm n time seen tail

theorem attempt {p q : BrokerProg α} (tracks : Tracks tokenHash s p q) :
    Tracks tokenHash s p.attempt q.attempt := by
  induction tracks with
  | ret s a => exact .ret s _
  | throw s x => exact .ret s _
  | call next ih => exact .call ih
  | entry clear marked ihc ihm => exact .entry ihc ihm
  | lookup open_ raised missing row ihr ihm ihf => exact .lookup open_ ihr ihm ihf
  | gate clear marked ihc ihm => exact .gate ihc ihm

/-- The two start alike. -/
theorem after (p : BrokerProg α) {f g : α → BrokerProg β}
    (tail : ∀ a, Tracks tokenHash s (f a) (g a)) : Tracks tokenHash s (p >>= f) (p >>= g) := by
  induction p with
  | ret a => exact tail a
  | throw x => exact .throw s x
  | call e k ih => exact .call ih

/-- Once the row is found, nothing more is learnt. -/
theorem bind_found {id : Uuid} {p q : BrokerProg α} {f g : α → BrokerProg β}
    (head : Tracks tokenHash (.found id) p q)
    (tail : ∀ a, Tracks tokenHash (.found id) (f a) (g a)) :
    Tracks tokenHash (.found id) (p >>= f) (q >>= g) :=
  head.bind fun _ a leads => leads.of_found ▸ tail a

end Tracks

/-! ## The two invocations -/

section Walk

variable {req : InvokeRequest} {grant : Grant} {tokenHash : Str} {account : ConnectedAccount}
  {tool : ToolAdapter} {start : Time}

theorem tracks_isRevokedNow : Tracks tokenHash (.found grant.id) (isRevokedNow svc grant tokenHash)
    (isRevokedNow svc.uncached grant tokenHash) := by
  unfold isRevokedNow markedRevoked
  cases on : svc.grantCache with
  | false => exact .refl _ _
  | true =>
    refine .gate (.refl _ _) fun n time seen => ?_
    have marked : (n != 0) = true := by simpa using seen
    show Tracks _ _ (if (n != 0) = true then _ else _) _
    rw [if_pos marked]
    exact .refl _ _

theorem tracks_gate {p q : BrokerProg InvokeOutcome}
    (clear : Tracks tokenHash (.found grant.id) p q) :
    Tracks tokenHash (.found grant.id)
      (isRevokedNow svc grant tokenHash >>= fun revoked =>
        if revoked then denied start "grant has been revoked" .revoked else p)
      (isRevokedNow svc.uncached grant tokenHash >>= fun revoked =>
        if revoked then denied start "grant has been revoked" .revoked else q) := by
  refine tracks_isRevokedNow.bind_found fun revoked => ?_
  cases revoked with
  | true => exact .refl _ _
  | false => exact clear

theorem tracks_providerRound {refreshed : Bool} {accessToken : Str}
    (next : refreshed = false → ∀ accessToken, Tracks tokenHash (.found grant.id)
      (providerRounds lib svc req grant tokenHash account tool start true accessToken)
      (providerRounds lib svc.uncached req grant tokenHash account tool start true accessToken)) :
    Tracks tokenHash (.found grant.id)
      (providerRounds lib svc req grant tokenHash account tool start refreshed accessToken)
      (providerRounds lib svc.uncached req grant tokenHash account tool start refreshed
        accessToken) := by
  rw [providerRounds, providerRounds]
  refine .after (callProvider svc req tool accessToken).attempt fun r => ?_
  rcases r with x | result
  · cases x with
    | providerCallError msg statusCode =>
      dsimp only
      split
      · rename_i again
        refine .after (refreshOrOutcome lib svc account start) fun r => ?_
        cases r with
        | error outcome => exact .refl _ _
        | ok accessToken => exact tracks_gate (next again.2.1 accessToken)
      · exact .refl _ _
    | _ => exact .refl _ _
  · exact .refl _ _

theorem tracks_executeCall : Tracks tokenHash (.found grant.id)
    (executeCall lib svc req grant tokenHash tool start)
    (executeCall lib svc.uncached req grant tokenHash tool start) := by
  refine .after (op (.query (.accountById grant.connectedAccountId))) fun found => ?_
  cases found with
  | none => exact .refl _ _
  | some account =>
    refine .after (obtainCredential lib svc account start) fun r => ?_
    rcases r with outcome | ⟨accessToken, refreshed⟩
    · exact .refl _ _
    · exact tracks_gate (tracks_providerRound fun _ accessToken =>
        tracks_providerRound (by simp))

theorem tracks_invokeResolved {fastRevoked : Bool}
    (fast : fastRevoked = true → grant.revokedAt.isSome = true) :
    Tracks tokenHash (.found grant.id)
      (invokeResolved lib svc req grant tokenHash start fastRevoked)
      (invokeResolved lib svc.uncached req grant tokenHash start false) := by
  unfold invokeResolved
  cases revoked : grant.revokedAt.isSome with
  | true =>
    rw [Bool.or_true, Bool.or_true]
    exact .refl _ _
  | false =>
    have slow : fastRevoked = false := by
      cases fastRevoked with
      | false => rfl
      | true => cases (fast rfl).symm.trans revoked
    rw [slow]
    refine .after (op .clock) fun now => ?_
    split
    · exact .refl _ _
    · refine .after (checkInvokeRate svc grant) fun allowed => ?_
      split
      · exact .refl _ _
      · cases getTool req.toolName with
        | error x => cases x <;> exact .refl _ _
        | ok tool =>
          dsimp only
          split
          · exact .refl _ _
          · have store_eq : svc.uncached.idempotencyStore = svc.idempotencyStore := rfl
            rw [store_eq]
            cases req.idempotencyKey with
            | none => exact tracks_executeCall
            | some key =>
              cases svc.idempotencyStore with
              | none => exact tracks_executeCall
              | some store =>
                refine .after (claimKey lib start (fullKey req grant key)) fun r => ?_
                cases r with
                | error outcome => exact .refl _ _
                | ok reservation => exact tracks_executeCall.attempt.bind_found fun _ => .refl _ _

theorem tracks_invokeAudited {fastRevoked : Bool}
    (fast : fastRevoked = true → grant.revokedAt.isSome = true) :
    Tracks tokenHash (.found grant.id)
      (invokeAudited lib svc req grant tokenHash start fastRevoked)
      (invokeAudited lib svc.uncached req grant tokenHash start false) :=
  (tracks_invokeResolved fast).attempt.bind_found fun _ => .refl _ _

/-- What follows the lookup, whose row is revoked where a marker was met. -/
theorem tracks_looked {s : Stage} (open_ : ∀ id, s ≠ .found id) {fastRevoked : Bool}
    (fast : fastRevoked = true → s = .marked) :
    Tracks (hashToken lib req.grantToken) s
      (op (.query (.grantByTokenHash (hashToken lib req.grantToken))) >>= fun found =>
        match found with
        | none => denied start "grant not found" .notFound
        | some grant => do
          let outcome ←
            invokeAudited lib svc req grant (hashToken lib req.grantToken) start fastRevoked
          recordCall lib grant.id req.toolName req.arguments outcome.status outcome.latencyMs
          return outcome)
      (op (.query (.grantByTokenHash (hashToken lib req.grantToken))) >>= fun found =>
        match found with
        | none => denied start "grant not found" .notFound
        | some grant => do
          let outcome ←
            invokeAudited lib svc.uncached req grant (hashToken lib req.grantToken) start false
          recordCall lib grant.id req.toolName req.arguments outcome.status outcome.latencyMs
          return outcome) := by
  refine .lookup open_ (fun x => .refl _ _) (.refl _ _) fun grant revoked => ?_
  exact (tracks_invokeAudited fun marked => revoked (fast marked)).bind_found fun _ => .refl _ _

theorem tracks_invokeGranted : Tracks (hashToken lib req.grantToken) .unseen
    (invokeGranted lib svc req start) (invokeGranted lib svc.uncached req start) := by
  unfold invokeGranted markedRevoked
  cases on : svc.grantCache with
  | false => exact tracks_looked (by simp) (by simp)
  | true =>
    refine .entry ?_ fun n seen => ?_
    · exact tracks_looked (by simp) (by simp)
    · exact tracks_looked (by simp) fun _ => rfl

variable (lib svc req) in
/-- `invoke`, with the grant cache and without. -/
theorem tracks_invoke : Tracks (hashToken lib req.grantToken) .unseen (invoke lib svc req)
    (invoke lib svc.uncached req) := by
  refine .after (op .clock) fun start => .after (verifyGrantToken lib svc req.grantToken).attempt
    fun r => ?_
  rcases r with x | claims
  · cases x <;> exact .refl _ _
  · show Tracks _ _ (if _ then _ else _) (if _ then _ else _)
    split
    · exact .refl _ _
    · exact tracks_invokeGranted.attempt.bind fun _ _ _ => .refl _ _

end Walk

/-! ## The two runs -/

/-- Every look at a key of Redis was answered. -/
def CacheReads (tr : Trace BrokerSig) : Prop :=
  ∀ e ∈ tr, ∀ name, e.op = .redis (.existsKey name) → ∃ v, e.ans = .ok v

/-- What a stage says of the table. -/
def Stage.Holds (tokenHash : Str) (db : Database) : Stage → Prop
  | .unseen => True
  | .marked => db.RevokedToken tokenHash
  | .found id => ∃ grant ∈ db.grants, grant.id = id ∧ grant.grantTokenHash = tokenHash

theorem Stage.Holds.mono {tokenHash : Str} {db db' : Database} {s : Stage}
    (holds : s.Holds tokenHash db) (grows : db.Grows db') : s.Holds tokenHash db' := by
  cases s with
  | unseen => trivial
  | marked => exact Database.RevokedToken.mono holds grows
  | found id =>
    obtain ⟨grant, member, named, hash⟩ := holds
    obtain ⟨row, there, same, -⟩ := grows.grants grant member
    exact ⟨row, there, (Grant.issued_id same).trans named, (Grant.issued_hash same).trans hash⟩

/-- The operations of a program besides its revocation checks. -/
def besidesChecks (tr : Trace BrokerSig) : Trace BrokerSig := tr.filter fun e => !e.op.isCheck

/-- An invocation and its counterpart without the cache, at one time. -/
structure Coupled (lib : Lib) (req : InvokeRequest) (w : World)
    (t : Thread BrokerSig Request Response) (t' : Thread BrokerSig Served Response) : Prop where
  request : t'.req = ⟨false, .invoke req⟩
  session : Session.replay t'.trace = Session.replay t.trace
  same : besidesChecks t'.trace = besidesChecks t.trace
  tracks : ∃ s : Stage, s.Holds (hashToken lib req.grantToken) w.db ∧
    Tracks (hashToken lib req.grantToken) s t.prog t'.prog

theorem World.permits_replay {w : World} {tr tr' : Trace BrokerSig} {e : Event BrokerSig}
    (same : Session.replay tr' = Session.replay tr) : w.permits tr' e = w.permits tr e := by
  unfold World.permits
  rw [same]

theorem World.after_replay {w : World} {tr tr' : Trace BrokerSig} {e : Event BrokerSig}
    (same : Session.replay tr' = Session.replay tr) : w.after tr' e = w.after tr e := by
  unfold World.after
  rw [same]

section Follow

variable {req : InvokeRequest} {w : World} {t : Thread BrokerSig Request Response}
  {t' : Thread BrokerSig Served Response} {s : Stage}

/-- Both perform the operation. -/
theorem Coupled.both (coupled : Coupled lib req w t t') {e : Op} {a : BrokerSig.Ans e}
    {next next' : BrokerProg Response}
    (holds : s.Holds (hashToken lib req.grantToken) (w.after t.trace ⟨e, a⟩).db)
    (tracks : Tracks (hashToken lib req.grantToken) s next next') :
    Coupled lib req (w.after t.trace ⟨e, a⟩) ⟨t.req, next, t.trace ++ [⟨e, a⟩]⟩
      ⟨t'.req, next', t'.trace ++ [⟨e, a⟩]⟩ where
  request := coupled.request
  session := by
    rw [Session.replay_append_singleton, Session.replay_append_singleton, coupled.session]
  same := by
    have same := coupled.same
    unfold besidesChecks at same ⊢
    rw [List.filter_append, List.filter_append, same]
  tracks := ⟨s, holds, tracks⟩

/-- The first looks at a marker, which changes nothing. -/
theorem Coupled.look (coupled : Coupled lib req w t t') {name : Str}
    {a : BrokerSig.Ans (.redis (.existsKey name))} {next : BrokerProg Response}
    (holds : s.Holds (hashToken lib req.grantToken) w.db)
    (tracks : Tracks (hashToken lib req.grantToken) s next t'.prog) :
    Coupled lib req w ⟨t.req, next, t.trace ++ [⟨.redis (.existsKey name), a⟩]⟩ t' where
  request := coupled.request
  session := by
    rw [Session.replay_append_singleton]
    exact coupled.session
  same := by
    have same := coupled.same
    unfold besidesChecks at same ⊢
    rw [List.filter_append, same]
    simp [Op.isCheck]
  tracks := ⟨s, holds, tracks⟩

/-- The second looks at the row instead. -/
theorem Coupled.exchange (coupled : Coupled lib req w t t') {name : Str} {id : Uuid}
    {a : BrokerSig.Ans (.redis (.existsKey name))} {next next' : BrokerProg Response}
    {revokedAt : Option (Option Time)} (holds : s.Holds (hashToken lib req.grantToken) w.db)
    (tracks : Tracks (hashToken lib req.grantToken) s next next') :
    Coupled lib req w ⟨t.req, next, t.trace ++ [⟨.redis (.existsKey name), a⟩]⟩
      ⟨t'.req, next', t'.trace ++ [⟨.query (.revokedAt id), .ok revokedAt⟩]⟩ where
  request := coupled.request
  session := by
    rw [Session.replay_append_singleton, Session.replay_append_singleton]
    exact coupled.session
  same := by
    have same := coupled.same
    unfold besidesChecks at same ⊢
    rw [List.filter_append, List.filter_append, same]
    simp [Op.isCheck]
  tracks := ⟨s, holds, tracks⟩

end Follow

/-- A marker that is seen is there. -/
theorem marker_seen {w : World} {tr : Trace BrokerSig} {tokenHash : Str} {n : Nat}
    (permits : w.permits tr
      ⟨.redis (.existsKey (GrantCache.revokedKey tokenHash)), .ok n⟩ = true) (seen : n ≠ 0) :
    (w.redis.table (GrantCache.revokedKey tokenHash)).isSome = true := by
  have answered :
      n = if (w.redis.find w.now (GrantCache.revokedKey tokenHash)).isSome then 1 else 0 :=
    of_decide_eq_true permits
  split at answered
  · rename_i found
    obtain ⟨e, there⟩ := Option.isSome_iff_exists.mp found
    rw [Redis.find, Option.filter_eq_some_iff] at there
    exact Option.isSome_iff_exists.mpr ⟨e, there.1⟩
  · exact (seen answered).elim

/-- The row of a marked grant answers a check alike. -/
theorem row_revoked {db : Database} (keyed : db.Keyed) {tokenHash : Str} {id : Uuid}
    (revoked : db.RevokedToken tokenHash) (found : (Stage.found id).Holds tokenHash db) :
    ∃ time, Query.answeredBy db (.revokedAt id) (some (some time)) = true := by
  obtain ⟨grant, member, hash, marked⟩ := revoked
  obtain ⟨row, there, rfl, hash'⟩ := found
  obtain rfl := Database.eq_of_key keyed.tokens member there (hash.trans hash'.symm)
  obtain ⟨time, at_⟩ := Option.isSome_iff_exists.mp marked
  have isFound : (db.grants.find? (·.id = grant.id)).isSome = true :=
    List.find?_isSome.mpr ⟨grant, member, by simp⟩
  obtain ⟨other, which⟩ := Option.isSome_iff_exists.mp isFound
  obtain rfl := Database.eq_of_key keyed.grants (List.mem_of_find?_eq_some which) member
    (by simpa using List.find?_some which)
  exact ⟨time, decide_eq_true (by rw [which, Option.map_some, at_])⟩

/-- A looked-up row of a marked token is revoked. -/
theorem lookup_revoked {w : World} (keyed : w.db.Keyed) {tr : Trace BrokerSig} {tokenHash : Str}
    {grant : Grant} (permits : w.permits tr
      ⟨.query (.grantByTokenHash tokenHash), .ok (some grant)⟩ = true) :
    (Stage.found grant.id).Holds tokenHash w.db ∧
      (w.db.RevokedToken tokenHash → grant.revokedAt.isSome = true) := by
  obtain ⟨member, hash⟩ := World.one_eq_some (of_decide_eq_true (World.permits_query permits))
  refine ⟨⟨grant, member, rfl, of_decide_eq_true hash⟩, fun revoked => ?_⟩
  obtain ⟨row, there, hash', marked⟩ := revoked
  obtain rfl := Database.eq_of_key keyed.tokens member there
    ((of_decide_eq_true hash).trans hash'.symm)
  exact marked

section Simulate

variable {req : InvokeRequest} {w : World} {i : Nat}

/-- A program without the cache checks its grant over a sound session. -/
theorem sound_uncached {c' : Config BrokerSig Served Response World}
    (run : (partly lib svc lossy).Reaches (.start w) c') {t' : Thread BrokerSig Served Response}
    (thread : c'.threads[i]? = some t') (request : t'.req = ⟨false, .invoke req⟩) {id : Uuid}
    {k : BrokerSig.Ans (.query (.revokedAt id)) → BrokerProg Response}
    (pending : t'.prog = .call (.query (.revokedAt id)) k) : Sound t'.trace := by
  have entry : wp (partly lib svc lossy) soundRole ((partly lib svc lossy).entry t'.req)
      (fun _ _ => True) [] := by
    rw [request]
    have sound : wp (broker lib svc.uncached lossy) soundRole
        (serve lib svc.uncached (.invoke req)) (fun _ _ => True) [] := wp_map wp_invoke_sound
    exact wp_machine sound fun _ _ may => may
  have under := Machine.Reaches.under_start run thread entry (Role.met_guarding _ _)
  rw [pending] at under
  exact under.1

theorem follows_uncached {c : Broker} {c' : Config BrokerSig Served Response World}
    (keyed : w.db.Keyed) (start : w.MarkersTrue) (run : (broker lib svc lossy).Reaches (.start w) c)
    (run' : (partly lib svc lossy).Reaches (.start w) c') {t : Thread BrokerSig Request Response}
    (thread : c.threads[i]? = some t) {t' : Thread BrokerSig Served Response}
    (thread' : c'.threads[i]? = some t')
    (coupled : Coupled lib req c.world t t') {e : Op} {k : BrokerSig.Ans e → BrokerProg Response}
    {a : BrokerSig.Ans e} (pending : t.prog = .call e k)
    (permits : c.world.permits t.trace ⟨e, a⟩ = true) (reads : CacheReads (t.trace ++ [⟨e, a⟩])) :
    (broker lib svc lossy).Follows (partly lib svc lossy) (Coupled lib req) c.world t t' ⟨e, a⟩
      (k a) := by
  have keyed' : c.world.db.Keyed := (run_grows .refl run).2 keyed
  have true_ := run_markersTrue keyed start run
  have permits' : c.world.permits t'.trace ⟨e, a⟩ = true :=
    (World.permits_replay coupled.session).trans permits
  have grows := (run_grows run (.single (.answer thread pending permits))).1
  obtain ⟨s, holds, tracks⟩ := coupled.tracks
  have both : ∀ {k' : BrokerSig.Ans e → BrokerProg Response}, t'.prog = .call e k' → ∀ s : Stage,
      s.Holds (hashToken lib req.grantToken) c.world.db →
      Tracks (hashToken lib req.grantToken) s (k a) (k' a) →
      (broker lib svc lossy).Follows (partly lib svc lossy) (Coupled lib req) c.world t t' ⟨e, a⟩
        (k a) := fun pending' s holds tracks =>
    .inr ⟨e, _, a, pending', permits', World.after_replay coupled.session,
      coupled.both (holds.mono grows) tracks⟩
  rw [pending] at tracks
  generalize follower : t'.prog = q at tracks
  cases tracks with
  | call next => exact both follower s holds (next a)
  | entry clear marked =>
    obtain ⟨(n : Nat), answered⟩ := reads ⟨_, a⟩ (by simp) _ rfl
    change a = .ok n at answered
    subst answered
    have still : c.world.after t.trace ⟨.redis (.existsKey
        (GrantCache.revokedKey (hashToken lib req.grantToken))), .ok n⟩ = c.world := rfl
    subst follower
    refine .inl ⟨still, ?_⟩
    by_cases seen : n = 0
    · subst seen
      exact coupled.look holds clear
    · exact coupled.look (s := .marked) (true_ _ (marker_seen permits seen)) (marked n seen)
  | lookup open_ raised missing row =>
    rcases a with x | _ | grant
    · exact both follower s holds (raised x)
    · exact both follower s holds missing
    · obtain ⟨found, revoked⟩ := lookup_revoked keyed' permits
      refine both follower (.found grant.id) found (row grant ?_)
      rintro rfl
      exact revoked holds
  | @gate id p k' clear marked =>
    obtain ⟨(n : Nat), answered⟩ := reads ⟨_, a⟩ (by simp) _ rfl
    change a = .ok n at answered
    subst answered
    have still : c.world.after t.trace ⟨.redis (.existsKey
        (GrantCache.revokedKey (hashToken lib req.grantToken))), .ok n⟩ = c.world := rfl
    by_cases seen : n = 0
    · subst seen
      refine .inl ⟨still, coupled.look holds ?_⟩
      rw [follower]
      exact clear
    · -- the second looks at the row, which is revoked
      obtain ⟨time, answered⟩ := row_revoked keyed' (true_ _ (marker_seen permits seen)) holds
      have sound := sound_uncached run' thread' coupled.request follower
      have row : c.world.permits t'.trace ⟨.query (.revokedAt id),
          .ok (some (some time))⟩ = true := by
        show (!(Session.replay t'.trace).failed && _) = true
        rw [Bool.and_eq_true, Bool.not_eq_true']
        exact ⟨sound, answered⟩
      refine .inr ⟨_, k', .ok (some (some time)), follower, row, rfl, ?_⟩
      exact coupled.exchange holds (marked n time seen)

variable (lib svc lossy req w i) in
theorem replaces_uncached (keyed : w.db.Keyed) (start : w.MarkersTrue) :
    (broker lib svc lossy).Replaces (partly lib svc lossy) w i
      (fun r tr => r = .invoke req ∧ CacheReads tr) (Coupled lib req) where
  good := fun ⟨request, reads⟩ => ⟨request, fun e member => reads e (List.mem_append_left _ member)⟩
  entry := by
    rintro r v ⟨rfl, -⟩
    exact ⟨⟨false, .invoke req⟩, rfl, rfl, rfl, .unseen, trivial,
      (tracks_invoke lib svc req).bind fun s outcome _ => .ret s _⟩
  stays run step coupled :=
    have ⟨s, holds, tracks⟩ := coupled.tracks
    ⟨coupled.request, coupled.session, coupled.same, s,
      holds.mono (run_grows run (.single step)).1, tracks⟩
  follows run run' thread thread' coupled pending permits good :=
    follows_uncached keyed start run run' thread thread' coupled pending permits good.2

end Simulate

/-! ## The fast path and the table -/

/-- `t'` does without the grant cache what `t` does with it. -/
structure Agrees (req : InvokeRequest) (t : Thread BrokerSig Request Response)
    (t' : Thread BrokerSig Served Response) : Prop where
  request : t'.req = ⟨false, .invoke req⟩
  besides : besidesChecks t'.trace = besidesChecks t.trace
  contacts : t'.trace.filter (·.op.contacts) = t.trace.filter (·.op.contacts)
  contacting : ∀ e, e.contacts = true → t.prog.next = some e → t'.prog.next = some e
  decides : ∀ r, t.prog = .ofExcept r → t'.prog = .ofExcept r

theorem filter_contacts (tr : Trace BrokerSig) :
    (besidesChecks tr).filter (·.op.contacts) = tr.filter (·.op.contacts) := by
  rw [besidesChecks, List.filter_filter]
  refine List.filter_congr fun e _ => ?_
  obtain ⟨e, a⟩ := e
  cases e with
  | redis cmd => cases cmd <;> rfl
  | query q => cases q <;> rfl
  | _ => rfl

/-- Programs that are coupled agree. -/
theorem Coupled.agrees {req : InvokeRequest} {w : World} {t : Thread BrokerSig Request Response}
    {t' : Thread BrokerSig Served Response} (coupled : Coupled lib req w t t') :
    Agrees req t t' where
  request := coupled.request
  besides := coupled.same
  contacts := by rw [← filter_contacts, coupled.same, filter_contacts]
  contacting e contacts next := by
    obtain ⟨s, -, tracks⟩ := coupled.tracks
    obtain ⟨k, pending⟩ := Prog.next_eq_some.mp next
    rw [pending] at tracks
    generalize follower : t'.prog = q at tracks
    cases tracks with
    | call next => rfl
    | lookup open_ raised missing row => rfl
    | entry clear marked => cases contacts
    | gate clear marked => cases contacts
  decides r finished := by
    obtain ⟨s, -, tracks⟩ := coupled.tracks
    rw [finished] at tracks
    generalize t'.prog = q at tracks
    cases r <;>
    · cases tracks
      rfl

/-- A revocation marker is only there for a revoked row, and an invocation whose
looks at the cache are answered decides, and reaches out, as one without it: the
run in which it has no grant cache and all else is the same exists. -/
theorem cache_agrees {w : World} (keyed : w.db.Keyed) (start : w.MarkersTrue) {c : Broker}
    (run : (broker lib svc lossy).Reaches (.start w) c) :
    c.world.MarkersTrue ∧
      ∀ (i : Nat) (t : Thread BrokerSig Request Response) (req : InvokeRequest),
        c.threads[i]? = some t → t.req = .invoke req → CacheReads t.trace →
        ∃ c', (partly lib svc lossy).Reaches (.start w) c' ∧
          c.Replaced (⟨true, ·⟩) i (fun _ => Agrees req) c' := by
  refine ⟨run_markersTrue keyed start run, fun i t req thread request reads => ?_⟩
  obtain ⟨c', run', replaced⟩ := (replaces_uncached lib svc lossy req w i keyed start).run
    broker_extends run fun u there => by
      obtain rfl := Option.some.inj (thread.symm.trans there)
      exact ⟨request, reads⟩
  refine ⟨c', run', replaced.world, replaced.length, replaced.others, fun u there => ?_⟩
  obtain ⟨u', there', coupled⟩ := replaced.replaced u there
  exact ⟨u', there', coupled.agrees⟩

theorem markersTrue_fresh (now : Time) : (World.fresh now).MarkersTrue := by
  intro tokenHash there
  cases there

/-- With the marker of the demo grant in Redis an invocation is denied, and so it
is without the cache. -/
theorem cache_agrees_demo : ∃ (c : Broker) (c' : Config BrokerSig Served Response World)
    (o : InvokeOutcome),
    (broker Demo.lib Demo.services true).Reaches (.start (World.fresh Demo.midnight)) c ∧
      (c.world.redis.table (GrantCache.revokedKey (hashToken Demo.lib Demo.token))).isSome = true ∧
      (∃ t, c.threads[3]? = some t ∧ t.prog = .ret (.outcome o)) ∧ o.status = .denied ∧
      (partly Demo.lib Demo.services true).Reaches (.start (World.fresh Demo.midnight)) c' ∧
      ∃ t', c'.threads[3]? = some t' ∧ t'.req.cached = false ∧ t'.prog = .ret (.outcome o) := by
  have computed : (Demo.played true
      (Demo.issued ++ .spawn (.revokeGrant Demo.grantId) :: Demo.run 2 7 ++
        Demo.invocation [] none :: Demo.run 3 9)).any (fun c =>
        (c.world.redis.table (GrantCache.revokedKey (hashToken Demo.lib Demo.token))).isSome &&
        c.threads[3]?.any fun t => t.trace.all Demo.succeeds &&
          (Demo.outcome t).any fun ended => decide (ended.2.status = .denied)) = true := by
    decide +kernel
  obtain ⟨c, run, computed⟩ := Demo.reached computed
  rw [Bool.and_eq_true] at computed
  obtain ⟨marker, gone⟩ := computed
  obtain ⟨t, thread, gone⟩ := (Option.any_eq_true _ _).mp gone
  rw [Bool.and_eq_true] at gone
  obtain ⟨reads, gone⟩ := gone
  obtain ⟨⟨req, o⟩, finished, denied⟩ := (Option.any_eq_true _ _).mp gone
  obtain ⟨request, finished⟩ := Demo.of_outcome finished
  obtain ⟨c', run', replaced⟩ := (cache_agrees Database.keyed_empty (markersTrue_fresh _) run).2 3 t
    req thread request fun e member _ _ => Demo.answer_of_succeeds
    (List.all_eq_true.mp reads e member)
  obtain ⟨t', thread', agrees⟩ := replaced.replaced t thread
  exact ⟨c, c', o, run, marker, ⟨t, thread, finished⟩, of_decide_eq_true denied, run', t', thread',
    by rw [agrees.request], agrees.decides (.ok _) finished⟩

end CredBroker
