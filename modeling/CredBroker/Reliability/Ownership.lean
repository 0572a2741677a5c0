import CredBroker.Python.RoundTrip
import CredBroker.Runs

/-!
# Ownership of idempotency keys

What holds of the keys of the idempotency store on any machine whose programs
keep to `IdemUse`: a key is claimed with a fresh token, and written again only
right after a read that found the program's own marker.
-/

namespace CredBroker

open Python Interaction

namespace IdempotencyStore

theorem name_inj {key key' : Str} (same : name key = name key') : key = key' :=
  List.append_cancel_left same

theorem pendingValue_inj {owner owner' : Str} (same : pendingValue owner = pendingValue owner') :
    owner = owner' := List.append_cancel_left same

theorem isPending_pendingValue (owner : Str) : isPending (pendingValue owner) = true :=
  List.isPrefixOf_iff_prefix.mpr ((List.prefix_append _ _).trans (List.prefix_append _ _))

/-- A stored result is never taken for a marker. -/
theorem isPending_dumps (result : Json) : isPending (Json.dumps .default result) = false := by
  obtain ⟨c, more, shown, opens⟩ := Json.dumps_opens .default result
  rw [shown, Bool.eq_false_iff]
  intro pending
  obtain ⟨rest, same⟩ := List.isPrefixOf_iff_prefix.mp pending
  have head : '_' = c := (List.cons.inj same).1
  exact absurd opens (head ▸ by decide)

end IdempotencyStore

/-! ## The discipline -/

/-- A look at a key that found the marker of `owner`. -/
abbrev sawOwn (key owner : Str) : Event BrokerSig :=
  ⟨.redis (.get (IdempotencyStore.name key)), .ok (some (IdempotencyStore.pendingValue owner))⟩

/-- How a program uses Redis, as far as the idempotency keys are concerned. -/
inductive IdemUse (tr : Trace BrokerSig) : Redis.Cmd → Prop
  | foreign {cmd} (other : ∀ key, cmd.name ≠ IdempotencyStore.name key) : IdemUse tr cmd
  | read {cmd} (reads : cmd.isRead = true) : IdemUse tr cmd
  | reserve {key owner : Str} {pre : Trace BrokerSig}
      (drawn : tr = pre ++ [⟨.tokenHex, .ok owner⟩]) :
      IdemUse tr (.set (IdempotencyStore.name key) (IdempotencyStore.pendingValue owner) true
        IdempotencyStore.reservationTtlSeconds)
  | complete {key owner value : Str} {ex : Int} {pre : Trace BrokerSig}
      (drawn : ⟨.tokenHex, .ok owner⟩ ∈ pre) (completed : IdempotencyStore.isPending value = false)
      (own : tr = pre ++ [sawOwn key owner]) :
      IdemUse tr (.set (IdempotencyStore.name key) value false ex)
  | release {key owner : Str} {pre : Trace BrokerSig} (drawn : ⟨.tokenHex, .ok owner⟩ ∈ pre)
      (own : tr = pre ++ [sawOwn key owner]) : IdemUse tr (.delete (IdempotencyStore.name key))

/-- A write that completes or releases a key. -/
def Settles (key : Str) (e : Op) : Prop :=
  (∃ value ex, e = .redis (.set (IdempotencyStore.name key) value false ex)) ∨
    e = .redis (.delete (IdempotencyStore.name key))

/-- A machine over a broker's world whose programs keep to `IdemUse`, and whose
Redis does not make anything up by itself. -/
structure Storing {Req Res W Nudge : Type} (M : Machine BrokerSig Req Res W Nudge) where
  world : W → World
  permits : ∀ {w tr e}, M.Permits w tr e → (world w).permits tr e = true
  after : ∀ w tr e, world (M.after w tr e) = (world w).after tr e
  nudge_now : ∀ {n w w'}, M.nudge n w = some w' → (world w).now ≤ (world w').now
  nudge_nonces : ∀ {n w w'}, M.nudge n w = some w' → (world w').nonces = (world w).nonces
  nudge_table : ∀ {n w w'}, M.nudge n w = some w' → ∀ name,
    (world w').redis.table name = (world w).redis.table name ∨ (world w').redis.table name = none
  uses : ∀ {w c}, M.Reaches (.start w) c → ∀ {e : Entry BrokerSig W}, e ∈ c.hist → ∀ {cmd},
    e.event.op = .redis cmd → IdemUse e.past cmd

section Storing

variable {Req Res W Nudge : Type} {M : Machine BrokerSig Req Res W Nudge} (K : Storing M)
  {w : W} {c c' : Config BrokerSig Req Res W}

/-! ## Tokens -/

theorem World.after_nonces (w : World) (tr : Trace BrokerSig) (e : Event BrokerSig) :
    w.nonces <+: (w.after tr e).nonces := by
  by_cases draws : e.op = .tokenHex
  · obtain ⟨e, a⟩ := e
    obtain rfl : e = .tokenHex := draws
    cases a with
    | ok token => exact List.prefix_append _ _
    | error x => exact List.prefix_rfl
  · rw [(w.after_framed tr e).nonces draws]

theorem Storing.nonces_mono (run : M.Reaches c c') :
    (K.world c.world).nonces <+: (K.world c'.world).nonces := by
  induction run with
  | refl => exact List.prefix_rfl
  | @tail b c' _ step ih =>
    refine ih.trans ?_
    cases step with
    | spawn r => exact List.prefix_rfl
    | nudge n moved => rw [K.nudge_nonces moved]
    | @answer i t e k a thread pending permits =>
      show _ <+: (K.world (M.after b.world t.trace ⟨e, a⟩)).nonces
      rw [K.after]
      exact World.after_nonces _ _ _

theorem Storing.now_mono (run : M.Reaches c c') :
    (K.world c.world).now ≤ (K.world c'.world).now := by
  induction run with
  | refl => exact Int.le_refl _
  | @tail b c' _ step ih =>
    refine Int.le_trans ih ?_
    cases step with
    | spawn r => exact Int.le_refl _
    | nudge n moved => exact K.nudge_now moved
    | @answer i t e k a thread pending permits =>
      have frame := ((K.world b.world).after_framed t.trace ⟨e, a⟩).now
      rw [← K.after] at frame
      exact Int.le_of_eq frame.symm

/-- Entries come in the order of their times. -/
theorem Storing.now_of_precedes (run : M.Reaches (.start w) c) {e e' : Entry BrokerSig W}
    (precedes : Precedes c.hist e e') : (K.world e.pre).now ≤ (K.world e'.pre).now := by
  obtain ⟨h, rest, cut, member⟩ := precedes
  obtain ⟨before⟩ := run.before (by simpa [Config.start] using cut)
  obtain ⟨h₁, h₂, rfl⟩ := List.append_of_mem member
  obtain ⟨earlier⟩ := before.reached.before
    (show before.mid.hist = [] ++ (h₁ ++ e :: h₂) by simpa [Config.start] using before.hist_eq)
  rw [← before.world_eq, ← earlier.world_eq]
  exact K.now_mono earlier.toEnd

include K in
/-- No token is drawn twice. -/
theorem Storing.drawn_once (run : M.Reaches (.start w) c) {e e' : Entry BrokerSig W} {owner : Str}
    (member : e ∈ c.hist) (member' : e' ∈ c.hist) (draws : e.event = ⟨.tokenHex, .ok owner⟩)
    (draws' : e'.event = ⟨.tokenHex, .ok owner⟩) : e = e' := by
  have later : ∀ {e e' : Entry BrokerSig W}, e.event = ⟨.tokenHex, .ok owner⟩ →
      e'.event = ⟨.tokenHex, .ok owner⟩ → ¬ Precedes c.hist e e' := by
    rintro e e' draws draws' ⟨h, rest, cut, member⟩
    obtain ⟨before⟩ := run.before (by simpa [Config.start] using cut)
    obtain ⟨h₁, h₂, rfl⟩ := List.append_of_mem member
    obtain ⟨earlier⟩ := before.reached.before
      (show before.mid.hist = [] ++ (h₁ ++ e :: h₂) by simpa [Config.start] using before.hist_eq)
    -- the token is taken from the first draw on
    have taken : owner ∈ (K.world before.mid.world).nonces := by
      refine (K.nonces_mono earlier.rest).subset ?_
      show owner ∈ (K.world (M.after earlier.mid.world earlier.thread.trace e.event)).nonces
      rw [K.after, draws]
      exact List.mem_append_right _ (List.mem_singleton_self owner)
    have permits := K.permits before.permits
    rw [draws', ← before.world_eq] at permits
    simp only [World.permits, Bool.and_eq_true, Bool.not_eq_true', List.contains_eq_mem,
      decide_eq_false_iff_not] at permits
    exact permits.2 taken
  rcases Precedes.total member member' with same | before | before
  · exact same
  · exact (later draws draws' before).elim
  · exact (later draws' draws before).elim

/-- An event before an entry has its own entry. -/
theorem entry_of_past (run : M.Reaches (.start w) c) {e : Entry BrokerSig W} (member : e ∈ c.hist)
    {ev : Event BrokerSig} (earlier : ev ∈ e.past) :
    ∃ pre v, pre ++ [ev] <+: e.past ∧ (⟨e.tid, v, pre, ev⟩ : Entry BrokerSig W) ∈ c.hist := by
  obtain ⟨h, rest, cut⟩ := List.append_of_mem member
  obtain ⟨pre, post, split⟩ := List.append_of_mem earlier
  have sub : pre ++ [ev] <+: e.past := ⟨post, by simp [split]⟩
  obtain ⟨v, there⟩ := run.precedes cut sub
  exact ⟨pre, v, sub, by rw [cut]; exact List.mem_append_left _ there⟩

include K in
/-- A token belongs to one program. -/
theorem Storing.one_owner (run : M.Reaches (.start w) c) {e e' : Entry BrokerSig W} {owner : Str}
    (member : e ∈ c.hist) (member' : e' ∈ c.hist) (drawn : ⟨.tokenHex, .ok owner⟩ ∈ e.past)
    (drawn' : ⟨.tokenHex, .ok owner⟩ ∈ e'.past) : e.tid = e'.tid := by
  obtain ⟨pre, v, -, there⟩ := entry_of_past run member drawn
  obtain ⟨pre', v', -, there'⟩ := entry_of_past run member' drawn'
  have same := K.drawn_once run there there' rfl rfl
  simpa using congrArg Interaction.Entry.tid same

end Storing

/-! ## What one operation does to a key -/

/-- What stands under a key after an operation: what stood there, or what a
reservation, a completion or a release has put there. -/
inductive KeyStep (key : Str) (w : World) (tr : Trace BrokerSig) (ev : Event BrokerSig) :
    Option Redis.Entry → Prop
  | same : KeyStep key w tr ev (w.redis.table (IdempotencyStore.name key))
  | reserved {owner : Str} {pre : Trace BrokerSig} (drawn : tr = pre ++ [⟨.tokenHex, .ok owner⟩])
      (op_eq : ev.op = .redis (.set (IdempotencyStore.name key)
        (IdempotencyStore.pendingValue owner) true IdempotencyStore.reservationTtlSeconds))
      (applied : AppliedRedis ev.ans = true)
      (free : w.redis.find w.now (IdempotencyStore.name key) = none) :
      KeyStep key w tr ev (some ⟨IdempotencyStore.pendingValue owner,
        some (w.now + seconds IdempotencyStore.reservationTtlSeconds)⟩)
  | completed {owner value : Str} {ex : Int} {pre : Trace BrokerSig}
      (drawn : ⟨.tokenHex, .ok owner⟩ ∈ pre) (completed : IdempotencyStore.isPending value = false)
      (own : tr = pre ++ [sawOwn key owner])
      (op_eq : ev.op = .redis (.set (IdempotencyStore.name key) value false ex))
      (applied : AppliedRedis ev.ans = true) :
      KeyStep key w tr ev (some ⟨value, some (w.now + seconds ex)⟩)
  | released {owner : Str} {pre : Trace BrokerSig} (drawn : ⟨.tokenHex, .ok owner⟩ ∈ pre)
      (own : tr = pre ++ [sawOwn key owner])
      (op_eq : ev.op = .redis (.delete (IdempotencyStore.name key)))
      (applied : AppliedRedis ev.ans = true) : KeyStep key w tr ev none

theorem keyStep (key : Str) (w : World) {tr : Trace BrokerSig} {ev : Event BrokerSig}
    (uses : ∀ cmd, ev.op = .redis cmd → IdemUse tr cmd) :
    KeyStep key w tr ev ((w.after tr ev).redis.table (IdempotencyStore.name key)) := by
  have unchanged : (w.after tr ev).redis.table (IdempotencyStore.name key) =
      w.redis.table (IdempotencyStore.name key) →
      KeyStep key w tr ev ((w.after tr ev).redis.table (IdempotencyStore.name key)) := fun same =>
    same ▸ .same
  by_cases isRedis : ev.op.isRedis = true
  · obtain ⟨e, a⟩ := ev
    cases e with
    | redis cmd =>
      cases applied : AppliedRedis a with
      | false =>
        refine unchanged ?_
        simp [World.after, applied]
      | true =>
        have after : (w.after tr ⟨.redis cmd, a⟩).redis = w.redis.after w.now cmd := by
          simp [World.after, applied]
        rw [after] at unchanged ⊢
        by_cases here : IdempotencyStore.name key = cmd.name
        · cases uses cmd rfl with
          | foreign other => exact (other key here.symm).elim
          | read reads => exact unchanged (by rw [Redis.after_read _ _ reads])
          | reserve drawn =>
            obtain rfl := IdempotencyStore.name_inj here
            rw [Redis.after_set_table] at unchanged ⊢
            split
            · rename_i refused
              rw [if_pos refused] at unchanged
              exact unchanged rfl
            · rename_i free
              refine .reserved drawn rfl applied ?_
              rw [not_or, not_and, Bool.not_eq_true, Option.isSome_eq_false_iff,
                Option.isNone_iff_eq_none] at free
              exact free.2 rfl
          | complete drawn completed own =>
            obtain rfl := IdempotencyStore.name_inj here
            rw [Redis.after_set_table] at unchanged ⊢
            split
            · rename_i refused
              rw [if_pos refused] at unchanged
              exact unchanged rfl
            · exact .completed drawn completed own rfl applied
          | release drawn own =>
            obtain rfl := IdempotencyStore.name_inj here
            rw [Redis.after_delete_table]
            exact .released drawn own rfl applied
        · exact unchanged (Redis.after_table_ne _ _ here)
    | _ => cases isRedis
  · exact unchanged (by rw [(w.after_framed tr ev).redis (Bool.not_eq_true _ ▸ isRedis)])

section Standing

variable {Req Res W Nudge : Type} {M : Machine BrokerSig Req Res W Nudge} (K : Storing M)
  {w : W} {c : Config BrokerSig Req Res W} {key : Str}

/-- What stands under a key. -/
def Storing.at (w : W) (key : Str) : Option Redis.Entry :=
  (K.world w).redis.table (IdempotencyStore.name key)

/-- An entry that changes what stands under a key. -/
def Storing.Alters (key : Str) (e : Entry BrokerSig W) : Prop :=
  K.at (M.left e) key ≠ K.at e.pre key

/-- Every entry does to a key what the discipline allows. -/
theorem Storing.entry_keyStep (run : M.Reaches (.start w) c) {e : Entry BrokerSig W}
    (member : e ∈ c.hist) (key : Str) :
    KeyStep key (K.world e.pre) e.past e.event (K.at (M.left e) key) := by
  rw [Storing.at, Machine.left, K.after]
  exact keyStep key _ fun cmd op_eq => K.uses run member op_eq

/-- What stands under a key was put there by the last entry that changed it. -/
theorem Storing.standing (run : M.Reaches (.start w) c) {x : Redis.Entry}
    (there : K.at c.world key = some x) :
    (K.at w key = some x ∧ ∀ e ∈ c.hist, ¬ K.Alters key e) ∨
      ∃ h e rest, c.hist = h ++ e :: rest ∧ K.Alters key e ∧ K.at (M.left e) key = some x ∧
        ∀ e' ∈ rest, ¬ K.Alters key e' := by
  induction run with
  | refl => exact .inl ⟨there, by simp [Config.start]⟩
  | @tail b c before step ih =>
    cases step with
    | spawn r => exact ih there
    | nudge n moved =>
      refine ih ?_
      rcases K.nudge_table moved (IdempotencyStore.name key) with same | gone
      · exact same.symm.trans there
      · cases gone.symm.trans there
    | @answer i t e k a thread pending permits =>
      -- the entry that this step adds
      have left : M.left ⟨i, b.world, t.trace, ⟨e, a⟩⟩ =
          (b.answer M i t ⟨e, a⟩ (k a)).world := rfl
      by_cases alters : K.Alters key ⟨i, b.world, t.trace, ⟨e, a⟩⟩
      · exact .inr ⟨b.hist, _, [], rfl, alters, left ▸ there, by simp⟩
      · have still : K.at b.world key = some x :=
          (Decidable.not_not.mp alters).symm.trans (left ▸ there)
        rcases ih still with ⟨first, none⟩ | ⟨h, e', rest, cut, alters', put, none⟩
        · exact .inl ⟨first, List.forall_mem_append.mpr ⟨none, by simpa using alters⟩⟩
        · refine .inr ⟨h, e', rest ++ [⟨i, b.world, t.trace, ⟨e, a⟩⟩], ?_, alters', put,
            List.forall_mem_append.mpr ⟨none, by simpa using alters⟩⟩
          simp [Config.answer, cut]

/-- What stands under a key stood there as long as nothing changed it. -/
theorem Storing.stood (run : M.Reaches (.start w) c) {x : Redis.Entry}
    (there : K.at c.world key = some x) {h rest : List (Entry BrokerSig W)}
    (cut : c.hist = h ++ rest) (still : ∀ e ∈ rest, ¬ K.Alters key e) :
    ∀ e ∈ rest, K.at e.pre key = some x := by
  induction run generalizing h rest with
  | refl =>
    have none : rest = [] := (List.append_eq_nil_iff.mp cut.symm).2
    simp [none]
  | @tail b c before step ih =>
    cases step with
    | spawn r => exact ih there cut still
    | nudge n moved =>
      refine ih ?_ cut still
      rcases K.nudge_table moved (IdempotencyStore.name key) with same | gone
      · exact same.symm.trans there
      · cases gone.symm.trans there
    | @answer i t e k a thread pending permits =>
      have left : M.left ⟨i, b.world, t.trace, ⟨e, a⟩⟩ =
          (b.answer M i t ⟨e, a⟩ (k a)).world := rfl
      rcases List.eq_nil_or_concat rest with rfl | ⟨rest, last, rfl⟩
      · simp
      · rw [List.concat_eq_append] at cut still ⊢
        have whole : b.hist ++ [⟨i, b.world, t.trace, ⟨e, a⟩⟩] = (h ++ rest) ++ [last] := by
          rw [List.append_assoc, ← cut]
          rfl
        obtain ⟨earlier, same⟩ := List.append_inj' whole rfl
        obtain rfl := List.cons.inj same |>.1
        obtain ⟨still, same⟩ := List.forall_mem_append.mp still
        have stands : K.at b.world key = some x :=
          (Decidable.not_not.mp (same _ List.mem_cons_self)).symm.trans (left ▸ there)
        refine List.forall_mem_append.mpr ⟨ih stands earlier still, ?_⟩
        simpa using stands

variable (key) in
/-- What a command leaves under a key, once it has taken effect. -/
theorem Storing.at_left {e : Entry BrokerSig W} {cmd : Redis.Cmd} (op_eq : e.event.op = .redis cmd)
    (applied : AppliedRedis e.event.ans = true) : K.at (M.left e) key =
      ((K.world e.pre).redis.after (K.world e.pre).now cmd).table (IdempotencyStore.name key) := by
  obtain ⟨tid, v, past, ⟨op, a⟩⟩ := e
  obtain rfl : op = .redis cmd := op_eq
  have effect : ((K.world v).after past ⟨.redis cmd, a⟩).redis =
      (K.world v).redis.after (K.world v).now cmd := by
    show (if AppliedRedis a = true then _ else _ : World).redis = _
    rw [if_pos applied]
  rw [Storing.at, Machine.left, K.after, effect]

/-- A look that found a marker found it alive. -/
theorem Storing.sawOwn_found (run : M.Reaches (.start w) c) {g : Entry BrokerSig W}
    (member : g ∈ c.hist) {owner : Str} (saw : g.event = sawOwn key owner) :
    ∃ x, K.at g.pre key = some x ∧ x.value = IdempotencyStore.pendingValue owner ∧
      x.alive (K.world g.pre).now = true := by
  have permits := K.permits (run.permits member)
  rw [saw] at permits
  have answered : some (IdempotencyStore.pendingValue owner) =
      ((K.world g.pre).redis.find (K.world g.pre).now (IdempotencyStore.name key)).map (·.value) :=
    of_decide_eq_true permits
  obtain ⟨x, found, value⟩ := Option.map_eq_some_iff.mp answered.symm
  rw [Redis.find, Option.filter_eq_some_iff] at found
  exact ⟨x, found.1, value, found.2⟩

end Standing

/-! ## Between the comparison and the write -/

/-- A machine that counts what its Redis forgets under each name. -/
structure Counting {Req Res W Nudge : Type} (M : Machine BrokerSig Req Res W Nudge)
    extends Storing M where
  losses : W → Str → Nat
  after_losses : ∀ w tr e, losses (M.after w tr e) = losses w
  nudge_losses : ∀ {n w w'}, M.nudge n w = some w' → ∀ name, losses w name ≤ losses w' name
  nudge_lost : ∀ {n w w'}, M.nudge n w = some w' → ∀ name,
    (world w').redis.table name ≠ (world w).redis.table name → losses w name < losses w' name

section Counting

variable {Req Res W Nudge : Type} {M : Machine BrokerSig Req Res W Nudge} (K : Counting M)
  {w : W} {b c : Config BrokerSig Req Res W} {key : Str} {x : Redis.Entry}

theorem Counting.losses_mono (run : M.Reaches b c) (name : Str) :
    K.losses b.world name ≤ K.losses c.world name := by
  induction run with
  | refl => exact Nat.le_refl _
  | @tail b c' _ step ih =>
    refine Nat.le_trans ih ?_
    cases step with
    | spawn r => exact Nat.le_refl _
    | nudge n moved => exact K.nudge_losses moved name
    | @answer i t e k a thread pending permits =>
      show _ ≤ K.losses (M.after b.world t.trace ⟨e, a⟩) name
      rw [K.after_losses]

/-- What stood under a key in `w` is over in `w'`, or Redis has forgotten it. -/
def Counting.Faded (key : Str) (x : Redis.Entry) (w w' : W) : Prop :=
  x.alive (K.world w').now = false ∨
    K.losses w (IdempotencyStore.name key) < K.losses w' (IdempotencyStore.name key)

theorem Entry.alive_mono {x : Redis.Entry} {now later : Time} (le : now ≤ later)
    (alive : x.alive later = true) : x.alive now = true := by
  unfold Redis.Entry.alive at alive ⊢
  split at alive
  · rfl
  · exact decide_eq_true (Int.le_trans le (of_decide_eq_true alive))

/-- It does not come back. -/
theorem Counting.Faded.mono {w₀ : W} (faded : K.Faded key x w₀ b.world) (run : M.Reaches b c) :
    K.Faded key x w₀ c.world := by
  rcases faded with gone | lost
  · refine .inl (Bool.eq_false_iff.mpr fun alive => ?_)
    rw [Entry.alive_mono (K.now_mono run) alive] at gone
    cases gone
  · exact .inr (Nat.lt_of_lt_of_le lost (K.losses_mono run _))

/-- No marker expires, or is forgotten, between a program's look at it and the
write that follows. -/
def Counting.Timely (c : Config BrokerSig Req Res W) : Prop :=
  ∀ g ∈ c.hist, ∀ e ∈ c.hist, ∀ key owner, g.event = sawOwn key owner → Settles key e.event.op →
    e.tid = g.tid → e.past = g.past ++ [g.event] → ∀ x, K.at g.pre key = some x →
      ¬ K.Faded key x g.pre e.pre

theorem Counting.Timely.before (timely : K.Timely c) (run : M.Reaches b c) : K.Timely b :=
  fun g there e there' => timely g ((Machine.Reaches.hist_mono run).subset there) e
    ((Machine.Reaches.hist_mono run).subset there')

/-- A program that has just seen its marker under a key still has it there,
unless it faded. -/
def Counting.Holding (c : Config BrokerSig Req Res W) : Prop :=
  ∀ g ∈ c.hist, ∀ key owner, g.event = sawOwn key owner → ⟨.tokenHex, .ok owner⟩ ∈ g.past →
    (∀ t, c.threads[g.tid]? = some t → t.trace = g.past ++ [g.event]) →
    ∀ x, K.at g.pre key = some x → K.at c.world key = some x ∨ K.Faded key x g.pre c.world

/-- A program that is about to settle a key finds its own marker there, alive. -/
theorem Counting.Holding.own (holding : K.Holding b) (run : M.Reaches (.start w) b) {i : Nat}
    {t : Thread BrokerSig Req Res} (thread : b.threads[i]? = some t) {owner : Str}
    {pre : Trace BrokerSig} (drawn : ⟨.tokenHex, .ok owner⟩ ∈ pre)
    (own : t.trace = pre ++ [sawOwn key owner])
    (timely : ∀ g ∈ b.hist, g.tid = i → g.event = sawOwn key owner → t.trace = g.past ++ [g.event] →
      ∀ x, K.at g.pre key = some x → ¬ K.Faded key x g.pre b.world) :
    ∃ x, K.at b.world key = some x ∧ x.value = IdempotencyStore.pendingValue owner ∧
      x.alive (K.world b.world).now = true := by
  obtain ⟨v, there⟩ := run.entry_at thread (show pre ++ [sawOwn key owner] <+: t.trace by rw [own])
  obtain ⟨x, at_, value, -⟩ := K.sawOwn_found run there rfl
  have clear := timely _ there rfl rfl own x at_
  have still := holding _ there key owner rfl drawn
    (fun u here => by obtain rfl := Option.some.inj (thread.symm.trans here); exact own) x at_
  refine ⟨x, still.resolve_right clear, value, ?_⟩
  cases alive : x.alive (K.world b.world).now with
  | true => rfl
  | false => exact (clear (.inl alive)).elim

theorem Counting.holding_step (run : M.Reaches (.start w) b) (step : M.Step b c)
    (timely : K.Timely c) (holding : K.Holding b) : K.Holding c := by
  have after : M.Reaches (.start w) c := run.tail step
  cases step with
  | spawn r =>
    intro g there key owner saw drawn last x at_
    refine holding g there key owner saw drawn (fun t thread => last t ?_) x at_
    rw [Config.spawn, List.getElem?_append_left (List.getElem?_eq_some_iff.mp thread).1, thread]
  | @nudge n w' moved =>
    intro g there key owner saw drawn last x at_
    rcases holding g there key owner saw drawn last x at_ with still | faded
    · by_cases same : K.at w' key = K.at b.world key
      · exact .inl (same.trans still)
      · obtain ⟨_, ⟨before⟩⟩ := run.before_entry there
        refine .inr (.inr (Nat.lt_of_le_of_lt ?_ (K.nudge_lost moved _ same)))
        rw [← before.world_eq]
        exact K.losses_mono before.toEnd _
    · exact .inr (faded.mono K (.single (.nudge n moved)))
  | @answer i t e k a thread pending permits =>
    have there' : (⟨i, b.world, t.trace, ⟨e, a⟩⟩ : Entry BrokerSig W) ∈
        (b.answer M i t ⟨e, a⟩ (k a)).hist := List.mem_append_right _ (List.mem_singleton_self _)
    intro g there key owner saw drawn last x at_
    have altered := K.entry_keyStep after there' key
    change KeyStep key _ _ _ (K.at (M.after b.world t.trace ⟨e, a⟩) key) at altered
    show K.at (M.after b.world t.trace ⟨e, a⟩) key = some x ∨
      K.Faded key x g.pre (M.after b.world t.trace ⟨e, a⟩)
    generalize stands : K.at (M.after b.world t.trace ⟨e, a⟩) key = put at altered ⊢
    rcases List.mem_append.mp there with earlier | last_
    · have other : i ≠ g.tid := by
        rintro rfl
        obtain ⟨u, thread', sub⟩ := run.owned earlier
        obtain rfl := Option.some.inj (thread.symm.trans thread')
        have whole := congrArg List.length (last _ (Config.answer_self M thread _ _))
        have short := sub.length_le
        simp only [List.length_append, List.length_singleton] at whole short
        omega
      have held := holding g earlier key owner saw drawn
        (fun u thread' => last u ((Config.answer_other M other _ _ _).trans thread')) x at_
      rcases held with still | faded
      · -- a writer would have to be the owner
        have excluded : ∀ {owner' : Str} {pre : Trace BrokerSig}, ⟨.tokenHex, .ok owner'⟩ ∈ pre →
            t.trace = pre ++ [sawOwn key owner'] → Settles key e → False := by
          intro owner' pre drawn' own settles
          obtain ⟨y, at', value, -⟩ := holding.own K run thread drawn' own
            fun g' earlier' tid saw' own' y at' =>
              timely g' (List.mem_append_left _ earlier') _ there'
              key owner' saw' settles tid.symm own' y at'
          obtain ⟨x', at_', value', -⟩ := K.sawOwn_found run earlier saw
          obtain rfl := Option.some.inj (at_.symm.trans at_')
          obtain rfl := Option.some.inj (still.symm.trans at')
          obtain rfl := IdempotencyStore.pendingValue_inj (value'.symm.trans value)
          exact other (K.one_owner after there' there (own ▸ List.mem_append_left _ drawn') drawn)
        cases altered with
        | same => exact .inl still
        | reserved drawn' op_eq applied free =>
          refine .inr (.inl ?_)
          rw [K.after, ((K.world b.world).after_framed _ _).now]
          rw [Redis.find, Option.filter_eq_none_iff] at free
          exact Bool.eq_false_iff.mpr (free x still)
        | completed drawn' completed own op_eq applied =>
          exact (excluded drawn' own (.inl ⟨_, _, op_eq⟩)).elim
        | released drawn' own op_eq applied => exact (excluded drawn' own (.inr op_eq)).elim
      · exact .inr (faded.mono K (.single (.answer thread pending permits)))
    · obtain rfl := List.mem_singleton.mp last_
      have op_saw : e = .redis (.get (IdempotencyStore.name key)) := congrArg Event.op saw
      cases altered with
      | same => exact .inl at_
      | reserved drawn' op_eq => cases op_saw.symm.trans op_eq
      | completed drawn' completed own op_eq => cases op_saw.symm.trans op_eq
      | released drawn' own op_eq => cases op_saw.symm.trans op_eq

theorem Counting.run_holding (run : M.Reaches (.start w) c) (timely : K.Timely c) :
    K.Holding c := by
  induction run with
  | refl => intro g there; cases there
  | tail reach step ih =>
    exact K.holding_step reach step timely (ih (timely.before K (.single step)))

/-! ## What the owner alone may do -/

/-- A program that settles a key has just seen its own marker there. -/
theorem Storing.settles_own (K : Storing M) (run : M.Reaches (.start w) c) {e : Entry BrokerSig W}
    (member : e ∈ c.hist) (settles : Settles key e.event.op) :
    ∃ owner pre, ⟨.tokenHex, .ok owner⟩ ∈ pre ∧ e.past = pre ++ [sawOwn key owner] := by
  have named : ∀ {cmd : Redis.Cmd}, e.event.op = .redis cmd →
      cmd.name = IdempotencyStore.name key := by
    intro cmd op_eq
    rcases settles with ⟨value, ex, set⟩ | delete
    · cases op_eq.symm.trans set
      rfl
    · cases op_eq.symm.trans delete
      rfl
  have ofUse : ∀ {cmd : Redis.Cmd}, e.event.op = .redis cmd →
      ∃ owner pre, ⟨.tokenHex, .ok owner⟩ ∈ pre ∧ e.past = pre ++ [sawOwn key owner] := by
    intro cmd op_eq
    have here := named op_eq
    cases K.uses run member op_eq with
    | foreign other => exact (other key here).elim
    | read reads =>
      rcases settles with ⟨value, ex, set⟩ | delete
      · cases op_eq.symm.trans set
        cases reads
      · cases op_eq.symm.trans delete
        cases reads
    | reserve drawn =>
      rcases settles with ⟨value, ex, set⟩ | delete
      · cases op_eq.symm.trans set
      · cases op_eq.symm.trans delete
    | complete drawn completed own =>
      obtain rfl := IdempotencyStore.name_inj here
      exact ⟨_, _, drawn, own⟩
    | release drawn own =>
      obtain rfl := IdempotencyStore.name_inj here
      exact ⟨_, _, drawn, own⟩
  rcases settles with ⟨value, ex, set⟩ | delete
  · exact ofUse set
  · exact ofUse delete

/-- A write that settles a key finds the writer's own marker, alive. -/
theorem Counting.settled_own (run : M.Reaches (.start w) c) (timely : K.Timely c)
    {e : Entry BrokerSig W} (member : e ∈ c.hist) (settles : Settles key e.event.op) :
    ∃ owner pre x, ⟨.tokenHex, .ok owner⟩ ∈ pre ∧ e.past = pre ++ [sawOwn key owner] ∧
      K.at e.pre key = some x ∧ x.value = IdempotencyStore.pendingValue owner ∧
      x.alive (K.world e.pre).now = true := by
  obtain ⟨owner, pre, drawn, own⟩ := K.settles_own run member settles
  obtain ⟨_, ⟨before⟩⟩ := run.before_entry member
  have holding := K.run_holding before.reached (timely.before K before.toEnd)
  obtain ⟨x, at_, value, alive⟩ := holding.own K before.reached before.running drawn
    (before.trace_eq.trans own) fun g there tid saw own' x at_ => by
      rw [before.world_eq]
      exact timely g ((Machine.Reaches.hist_mono before.toEnd).subset there) e member key owner saw
        settles tid.symm (before.trace_eq.symm.trans own') x at_
  rw [before.world_eq] at at_ alive
  exact ⟨owner, pre, x, drawn, own, at_, value, alive⟩

/-- Who changes a live entry is the owner of the marker that stands there, and
settles it. -/
theorem Counting.altered_by_owner (run : M.Reaches (.start w) c) (timely : K.Timely c)
    {e : Entry BrokerSig W} (member : e ∈ c.hist) (at_ : K.at e.pre key = some x)
    (alive : x.alive (K.world e.pre).now = true) (alters : K.Alters key e) :
    Settles key e.event.op ∧ ∃ owner, ⟨.tokenHex, .ok owner⟩ ∈ e.past ∧
      x.value = IdempotencyStore.pendingValue owner := by
  have settling : Settles key e.event.op := by
    have altered := K.entry_keyStep run member key
    generalize stands : K.at (M.left e) key = put at altered
    cases altered with
    | same => exact (alters stands).elim
    | reserved drawn op_eq applied free =>
      rw [Redis.find, Option.filter_eq_none_iff] at free
      exact (free x at_ alive).elim
    | completed drawn completed own op_eq applied => exact .inl ⟨_, _, op_eq⟩
    | released drawn own op_eq applied => exact .inr op_eq
  obtain ⟨owner, pre, y, drawn, own, at', value, -⟩ := K.settled_own run timely member settling
  obtain rfl := Option.some.inj (at_.symm.trans at')
  exact ⟨settling, owner, own ▸ List.mem_append_left _ drawn, value⟩

/-- A reservation that took effect. -/
def Storing.Reserves (K : Storing M) (key owner : Str) (e : Entry BrokerSig W) : Prop :=
  e.event.op = .redis (.set (IdempotencyStore.name key) (IdempotencyStore.pendingValue owner) true
      IdempotencyStore.reservationTtlSeconds) ∧
    AppliedRedis e.event.ans = true ∧
    (K.world e.pre).redis.find (K.world e.pre).now (IdempotencyStore.name key) = none

/-- It puts a marker there. -/
theorem Storing.Reserves.put (K : Storing M) {owner : Str} {e : Entry BrokerSig W}
    (reserves : K.Reserves key owner e) : K.at (M.left e) key =
      some ⟨IdempotencyStore.pendingValue owner,
        some ((K.world e.pre).now + seconds IdempotencyStore.reservationTtlSeconds)⟩ := by
  obtain ⟨op_eq, applied, free⟩ := reserves
  rw [K.at_left _ op_eq applied, Redis.after_set_table,
    if_neg (by simp [free, IdempotencyStore.reservationTtlSeconds])]

/-- It replaces what it finds. -/
theorem Storing.Reserves.alters (K : Storing M) {owner : Str} {e : Entry BrokerSig W}
    (reserves : K.Reserves key owner e) : K.Alters key e := by
  intro same
  have free := reserves.2.2
  rw [Redis.find, Option.filter_eq_none_iff] at free
  refine free _ (same.symm.trans (reserves.put K)) ?_
  exact decide_eq_true (Int.le_add_of_nonneg_right (by decide))

/-- A token is reserved with once. -/
theorem Storing.reserved_once (K : Storing M) (run : M.Reaches (.start w) c)
    {e e' : Entry BrokerSig W} {owner : Str} {pre pre' : Trace BrokerSig} (member : e ∈ c.hist)
    (member' : e' ∈ c.hist) (drawn : e.past = pre ++ [⟨.tokenHex, .ok owner⟩])
    (drawn' : e'.past = pre' ++ [⟨.tokenHex, .ok owner⟩]) : e = e' := by
  have draw {e : Entry BrokerSig W} {pre : Trace BrokerSig} (member : e ∈ c.hist)
      (drawn : e.past = pre ++ [⟨.tokenHex, .ok owner⟩]) :
      ∃ v, (⟨e.tid, v, pre, ⟨.tokenHex, .ok owner⟩⟩ : Entry BrokerSig W) ∈ c.hist := by
    obtain ⟨h, rest, cut⟩ := List.append_of_mem member
    obtain ⟨v, there⟩ := run.precedes cut ⟨[], by rw [drawn, List.append_nil]⟩
    exact ⟨v, cut ▸ List.mem_append_left _ there⟩
  obtain ⟨v, there⟩ := draw member drawn
  obtain ⟨v', there'⟩ := draw member' drawn'
  have same := K.drawn_once run there there' rfl rfl
  obtain ⟨tid, -, rfl⟩ : e.tid = e'.tid ∧ v = v' ∧ pre = pre' := by simpa using same
  exact run.entry_unique member member' tid (by rw [drawn, drawn'])

/-- A pending marker is that of the last reservation that took effect. -/
theorem Storing.last_reserver (K : Storing M) (run : M.Reaches (.start w) c)
    (fresh : ∀ x, K.at w key = some x → IdempotencyStore.isPending x.value = false)
    (at_ : K.at c.world key = some x) (pending : IdempotencyStore.isPending x.value = true) :
    ∃ owner h r rest, c.hist = h ++ r :: rest ∧ K.Reserves key owner r ∧
      (∃ pre, r.past = pre ++ [⟨.tokenHex, .ok owner⟩]) ∧ K.at (M.left r) key = some x ∧
      ∀ e ∈ rest, ¬ K.Alters key e := by
  rcases K.standing run at_ with ⟨first, -⟩ | ⟨h, r, rest, cut, alters, put, none⟩
  · rw [fresh x first] at pending
    cases pending
  · have altered := K.entry_keyStep run (by rw [cut]; simp : r ∈ c.hist) key
    rw [put] at altered
    generalize stands : some x = y at altered
    cases altered with
    | same => exact (alters (put.trans stands)).elim
    | @reserved owner _ drawn op_eq applied free =>
      obtain rfl := Option.some.inj stands
      exact ⟨owner, h, r, rest, cut, ⟨op_eq, applied, free⟩, ⟨_, drawn⟩, put, none⟩
    | completed drawn completed own op_eq applied =>
      obtain rfl := Option.some.inj stands
      rw [completed] at pending
      cases pending
    | released drawn own op_eq applied => cases stands

end Counting

end CredBroker
