import CredBroker.Invocation.Settlement
import CredBroker.Replay

/-!
# A finished invocation never wedges its key

A run of `_invoke_resolved` that was granted a reservation ends by looking at its key
and acting on what it finds. Whoever owned the key then, and however the call ended,
the run's own marker is not there any more when it is over.
-/

namespace CredBroker

open Python Interaction

variable {lib : Lib} {svc : Services} {lossy : Bool} {req : InvokeRequest} {grant : Grant}
  {tokenHash : Str} {start : Time} {key owner : Str} {tr : Trace BrokerSig}

/-- What a look at a key answers. -/
def World.stored (w : World) (key : Str) : Option Str :=
  (w.redis.find w.now (IdempotencyStore.name key)).map (·.value)

/-- The last entry of a run whose trace is `tr`. -/
structure LastOf (c : Broker) (i : Nat) (tr : Trace BrokerSig)
    (e : Entry BrokerSig World) : Prop where
  member : e ∈ c.hist
  tid : e.tid = i
  whole : tr = e.past ++ [e.event]

/-- What the key holds when the run that was granted it by `e` is over. The run has
the trace `tr`, and its call ended with `ended` after `called`. Whether it still owns
the key is what the store's comparison finds: the look that comes right after the call. -/
inductive Leaves (lib : Lib) (svc : Services) (lossy : Bool) (c : Broker) (req : InvokeRequest)
    (e : Entry BrokerSig World) (key owner : Str) (ended : Except PyExn InvokeOutcome)
    (called tr : Trace BrokerSig) : Prop
  /-- After a success that still owned the key: the result. -/
  | result {s : Entry BrokerSig World} {o : InvokeOutcome} {result : Json} {rest : Trace BrokerSig}
      (last : LastOf c e.tid tr s) (owned : s.past = called ++ [sawOwn key owner])
      (success : ended = .ok o) (status : o.status = .success) (sent : Sent req result rest called)
      (holds : ((broker lib svc lossy).left s).stored key = some (Json.dumps .default result))
  /-- After anything else that still owned it: nothing. -/
  | nothing {s : Entry BrokerSig World}
      (last : LastOf c e.tid tr s) (owned : s.past = called ++ [sawOwn key owner])
      (failed : ∀ o, ended = .ok o → o.status ≠ .success)
      (holds : ((broker lib svc lossy).left s).stored key = none)
  /-- Otherwise: what a successor put there. -/
  | other {g : Entry BrokerSig World} (last : LastOf c e.tid tr g) (asked : g.past = called)
      (look : g.event.op = .redis (.get (IdempotencyStore.name key)))
      (lost : g.event ≠ sawOwn key owner)
      (holds : ∀ value, ((broker lib svc lossy).left g).stored key = some value →
        value ≠ IdempotencyStore.pendingValue owner ∧ ∃ s ∈ c.hist, s.tid ≠ e.tid ∧
          Precedes c.hist e s ∧ Precedes c.hist s g ∧ Changes key s ∧
          ((broker lib svc lossy).left s).stored key = some value)

/-- The run has not left its own marker behind, neither when it is over nor later. -/
structure Unwedged (lib : Lib) (svc : Services) (lossy : Bool) (c : Broker) (req : InvokeRequest)
    (e : Entry BrokerSig World) (key owner : Str) (ended : Except PyExn InvokeOutcome)
    (called tr : Trace BrokerSig) : Prop where
  gone : c.world.stored key ≠ some (IdempotencyStore.pendingValue owner)
  leaves : Leaves lib svc lossy c req e key owner ended called tr

/-! ## What is stored -/

theorem World.stored_eq_some {w : World} {value : Str} : w.stored key = some value ↔
    ∃ x, w.redis.table (IdempotencyStore.name key) = some x ∧ x.alive w.now = true ∧
      x.value = value := by
  rw [World.stored, Option.map_eq_some_iff]
  simp only [Redis.find, Option.filter_eq_some_iff, and_assoc]

theorem dumps_storedResult_eq_iff {result : Json} :
    Json.dumps .default (storedResult result) = Json.dumps .default result ↔ Storable result := by
  refine ⟨fun same => ?_, fun storable => by rw [storedResult_eq_iff.mpr storable]⟩
  by_cases truthy : result.truthy = true
  · exact .inl truthy
  · rw [storedResult, if_neg truthy] at same
    cases result with
    | null => exact absurd same (by decide)
    | bool b =>
      cases b with
      | false => exact absurd same (by decide)
      | true => exact (truthy rfl).elim
    | int n =>
      obtain rfl : n = 0 := by simpa [Json.truthy] using truthy
      exact absurd same (by decide)
    | float printed =>
      have zero : printed.val = "0.0" ∨ printed.val = "-0.0" := by
        simpa [Json.truthy, ← or_iff_not_imp_left] using truthy
      change ("{}" : Str) = printed.val at same
      rcases zero with zero | zero
      · exact absurd (same.trans zero) (by decide)
      · exact absurd (same.trans zero) (by decide)
    | str s =>
      obtain rfl : s = [] := by simpa [Json.truthy] using truthy
      exact absurd same (by decide)
    | arr items =>
      obtain rfl : items = [] := by simpa [Json.truthy] using truthy
      exact absurd same (by decide)
    | obj members =>
      obtain rfl : members = [] := by simpa [Json.truthy] using truthy
      exact .inr rfl

theorem left_now (e : Entry BrokerSig World) : ((broker lib svc lossy).left e).now = e.pre.now :=
  (e.pre.after_framed e.past e.event).now

/-- A result that was written is there. -/
theorem stored_of_set {s : Entry BrokerSig World} {value : Str} {ex : Int} (pos : 1 ≤ ex)
    (op_eq : s.event.op = .redis (.set (IdempotencyStore.name key) value false ex))
    (applied : AppliedRedis s.event.ans = true) :
    ((broker lib svc lossy).left s).stored key = some value := by
  have put := (storing lib svc lossy).at_left key op_eq applied
  rw [Redis.after_set_table, if_neg (by simp; omega)] at put
  refine World.stored_eq_some.mpr ⟨_, put, ?_, rfl⟩
  rw [left_now]
  exact decide_eq_true (Int.le_add_of_nonneg_right (by unfold seconds; omega))

variable (lib svc lossy) in
/-- Nothing is under a key that was deleted. -/
theorem stored_of_delete {s : Entry BrokerSig World}
    (op_eq : s.event.op = .redis (.delete (IdempotencyStore.name key)))
    (applied : AppliedRedis s.event.ans = true) :
    ((broker lib svc lossy).left s).stored key = none := by
  have gone := (storing lib svc lossy).at_left key op_eq applied
  rw [Redis.after_delete_table] at gone
  refine Option.eq_none_iff_forall_ne_some.mpr fun value there => ?_
  obtain ⟨x, table, -, -⟩ := World.stored_eq_some.mp there
  cases gone.symm.trans table

variable (lib svc lossy) in
/-- A look finds what is there, and leaves it there. -/
theorem stored_of_get {g : Entry BrokerSig World} {found : Option Str}
    (event : g.event = ⟨.redis (.get (IdempotencyStore.name key)), .ok found⟩)
    (permits : g.pre.permits g.past g.event = true) :
    found = g.pre.stored key ∧ ((broker lib svc lossy).left g).stored key = g.pre.stored key := by
  have same := (storing lib svc lossy).at_left key (congrArg Event.op event)
    (by rw [event]; rfl)
  rw [Redis.after_read _ _ rfl] at same
  rw [event] at permits
  refine ⟨of_decide_eq_true permits, ?_⟩
  have table : ((broker lib svc lossy).left g).redis.table (IdempotencyStore.name key) =
      g.pre.redis.table (IdempotencyStore.name key) := same
  rw [World.stored, World.stored, Redis.find, Redis.find, table, left_now]

section Runs

variable {w : World} {c : Broker} (run : (broker lib svc lossy).Reaches (.start w) c)

include run

/-- A reservation that took effect, and whose answer arrived. -/
theorem granted_of_reserves {e : Entry BrokerSig World} (member : e ∈ c.hist)
    (reserves : (storing lib svc lossy).Reserves key owner e) (ok : ∃ v, e.event.ans = .ok v) :
    e.event = granted key owner := by
  obtain ⟨op_eq, -, free⟩ := reserves
  have permits := entry_permitted run member
  obtain ⟨i, v, past, op, a⟩ := e
  obtain rfl : op = _ := op_eq
  obtain ⟨claimed, rfl⟩ : ∃ v, a = .ok v := ok
  have free : v.redis.find v.now (IdempotencyStore.name key) = none := free
  obtain rfl : claimed = true := by
    simpa [World.permits, Redis.run, free, IdempotencyStore.reservationTtlSeconds] using permits
  rfl

/-- A granted token was drawn right before. -/
theorem granted_drawn {e : Entry BrokerSig World} (member : e ∈ c.hist)
    (event : e.event = granted key owner) : ∃ pre, e.past = pre ++ [⟨.tokenHex, .ok owner⟩] := by
  have use := (storing lib svc lossy).uses run member (congrArg Event.op event)
  generalize value_eq : IdempotencyStore.pendingValue owner = value at use
  generalize name_eq : IdempotencyStore.name key = name at use
  cases use with
  | foreign other => exact (other key name_eq.symm).elim
  | read reads => cases reads
  | @reserve _ _ pre drawn =>
    obtain rfl := IdempotencyStore.pendingValue_inj value_eq
    exact ⟨pre, drawn⟩

/-- A marker that is under a key was put there when it was granted, and nothing has
changed the key since. -/
theorem marker_since {e : Entry BrokerSig World} (member : e ∈ c.hist)
    (event : e.event = granted key owner)
    (reserves : (storing lib svc lossy).Reserves key owner e) {x : Redis.Entry}
    (there : c.world.redis.table (IdempotencyStore.name key) = some x)
    (own : x.value = IdempotencyStore.pendingValue owner) :
    ∃ h rest, c.hist = h ++ e :: rest ∧ ∀ e' ∈ rest, ¬ (storing lib svc lossy).Alters key e' := by
  rcases (storing lib svc lossy).standing run there with
    ⟨-, still⟩ | ⟨h, r, rest, cut, alters, put, still⟩
  · exact (still e member (reserves.alters _)).elim
  · have granter : r ∈ c.hist := by simp [cut]
    have altered := (storing lib svc lossy).entry_keyStep run granter key
    rw [put] at altered
    generalize stands : some x = y at altered
    cases altered with
    | same => exact (alters (put.trans stands)).elim
    | @reserved owner' pre drawn =>
      obtain rfl := Option.some.inj stands
      obtain rfl := IdempotencyStore.pendingValue_inj own
      obtain ⟨pre', drawn'⟩ := granted_drawn run member event
      obtain rfl := (storing lib svc lossy).reserved_once run granter member drawn drawn'
      exact ⟨h, rest, cut, still⟩
    | completed drawn completed =>
      obtain rfl := Option.some.inj stands
      have pending := IdempotencyStore.isPending_pendingValue owner
      rw [← own, completed] at pending
      cases pending
    | released => cases stands

/-- Once a marker is gone from its key, it is gone for good. -/
theorem marker_gone {e g : Entry BrokerSig World} (event : e.event = granted key owner)
    (reserves : (storing lib svc lossy).Reserves key owner e) (later : Precedes c.hist e g)
    (gone : ((broker lib svc lossy).left g).stored key ≠
      some (IdempotencyStore.pendingValue owner)) :
    c.world.stored key ≠ some (IdempotencyStore.pendingValue owner) := by
  intro stored
  obtain ⟨x, there, alive, own⟩ := World.stored_eq_some.mp stored
  obtain ⟨h, rest, cut, still⟩ := marker_since run later.mem_left event reserves there own
  have behind : g ∈ rest := by
    rcases List.mem_append.mp (cut ▸ later.mem_right) with before | here
    · have back : Precedes c.hist g e := ⟨h, rest, cut, before⟩
      exact (Precedes.irrefl run.hist_nodup (later.trans run.hist_nodup back)).elim
    · rcases List.mem_cons.mp here with rfl | behind
      · exact (Precedes.irrefl run.hist_nodup later).elim
      · exact behind
  have stands := (storing lib svc lossy).stood run there
    (show c.hist = (h ++ [e]) ++ rest by rw [cut, List.append_assoc]; rfl) still g behind
  have left : ((broker lib svc lossy).left g).redis.table (IdempotencyStore.name key) = some x :=
    (Decidable.not_not.mp (still g behind)).trans stands
  refine gone (World.stored_eq_some.mpr ⟨x, left, ?_, own⟩)
  rw [left_now]
  exact Entry.alive_mono (entry_now run later.mem_right) alive

/-- While it performs its call, a run changes nothing under its key. -/
theorem call_alters_nothing {e s g : Entry BrokerSig World} {inner : Trace BrokerSig}
    (performed : g.past = e.past ++ [e.event] ++ inner)
    (execute : ∀ ev ∈ inner, ev.op.isExecute = true)
    (after : Precedes c.hist e s) (before : Precedes c.hist s g) (tid : s.tid = e.tid)
    (tid' : g.tid = e.tid) : ¬ Changes key s := by
  obtain ⟨y, early⟩ := run.past_of_precedes after tid.symm
  obtain ⟨z, late⟩ := run.past_of_precedes before (tid.trans tid'.symm)
  have inside : s.event ∈ inner := by
    rw [← late, ← early, List.append_assoc, List.append_assoc (e.past ++ [e.event])] at performed
    rw [← List.append_cancel_left performed]
    simp
  have is := execute _ inside
  intro changes
  have altered := (storing lib svc lossy).entry_keyStep run before.mem_left key
  generalize stands : (storing lib svc lossy).at ((broker lib svc lossy).left s) key = y at altered
  cases altered with
  | same => exact changes stands
  | reserved drawn op_eq => rw [op_eq] at is; cases is
  | completed drawn completed own op_eq => rw [op_eq] at is; cases is
  | released drawn own op_eq => rw [op_eq] at is; cases is

/-- What is under a key after a reservation of it, if it is not that one's marker, was
put there by a later change. -/
theorem put_since {e g : Entry BrokerSig World}
    (reserves : (storing lib svc lossy).Reserves key owner e) (later : Precedes c.hist e g)
    {value : Str} (there : g.pre.stored key = some value)
    (other : value ≠ IdempotencyStore.pendingValue owner) :
    ∃ s ∈ c.hist, Precedes c.hist e s ∧ Precedes c.hist s g ∧ Changes key s ∧
      ((broker lib svc lossy).left s).stored key = some value := by
  obtain ⟨x, table, alive, value_eq⟩ := World.stored_eq_some.mp there
  obtain ⟨h, rest, cut, member⟩ := later
  obtain ⟨before⟩ := run.before (by simpa [Config.start] using cut)
  have hist : before.mid.hist = h := by simpa [Config.start] using before.hist_eq
  rw [← before.world_eq] at table
  rcases (storing lib svc lossy).standing before.reached table with ⟨-, still⟩ |
    ⟨h₁, s, h₂, cut', alters, put, still⟩
  · exact (still e (by rwa [hist]) (reserves.alters _)).elim
  · rw [hist] at cut'
    have early : s ∈ h := by simp [cut']
    have there : s ∈ c.hist := by rw [cut]; exact List.mem_append_left _ early
    have precedes : Precedes c.hist s g := ⟨h, rest, cut, early⟩
    refine ⟨s, there, ?_, precedes, alters, World.stored_eq_some.mpr ⟨x, put, ?_, value_eq⟩⟩
    · rcases List.mem_append.mp (cut' ▸ member) with first | here
      · exact ⟨h₁, h₂ ++ g :: rest, by rw [cut, cut', List.append_assoc]; rfl, first⟩
      · rcases List.mem_cons.mp here with rfl | behind
        · -- the marker itself
          have marker := put.symm.trans (reserves.put _)
          rw [Option.some.inj marker] at value_eq
          exact (other value_eq.symm).elim
        · exact (still e behind (reserves.alters _)).elim
    · rw [left_now]
      refine Entry.alive_mono ?_ alive
      have passed := entry_now before.reached (show s ∈ before.mid.hist by rwa [hist])
      rwa [before.world_eq] at passed

/-! ## Each way to settle a key -/

variable {i : Nat} {t : Thread BrokerSig Request Response} (thread : c.threads[i]? = some t)
  (request : t.req = .invoke req) {e : Entry BrokerSig World} (member : e ∈ c.hist)
  (mine : e.tid = i) (event : e.event = granted key owner)
  (reserves : (storing lib svc lossy).Reserves key owner e) {called inner : Trace BrokerSig}
  (called_eq : called = e.past ++ [e.event] ++ inner)

include thread mine member called_eq in
/-- What a run performs after its call has an entry after its reservation. -/
theorem entry_after {past : Trace BrokerSig} {ev : Event BrokerSig} (longer : called <+: past)
    (performed : past ++ [ev] <+: t.trace) :
    ∃ s, LastOf c e.tid (past ++ [ev]) s ∧ s.past = past ∧ s.event = ev ∧ Precedes c.hist e s := by
  obtain ⟨v, there⟩ := entry_at run thread performed
  refine ⟨_, ⟨there, mine.symm, rfl⟩, rfl, rfl, run.precedes_of_past member there mine ?_⟩
  exact (called_eq ▸ List.prefix_append _ _).trans longer

include thread mine member event reserves called_eq in
/-- A run that lost its key leaves it to its successor. -/
theorem stale_unwedged {ended : Except PyExn InvokeOutcome} {found : Option Str}
    (execute : ∀ ev ∈ inner, ev.op.isExecute = true)
    (other : found ≠ some (IdempotencyStore.pendingValue owner))
    (performed : called ++ [⟨.redis (.get (IdempotencyStore.name key)), .ok found⟩] <+: t.trace) :
    Unwedged lib svc lossy c req e key owner ended called
      (called ++ [⟨.redis (.get (IdempotencyStore.name key)), .ok found⟩]) := by
  obtain ⟨g, last, asked, look, later⟩ :=
    entry_after run thread member mine called_eq List.prefix_rfl performed
  obtain ⟨found_eq, same⟩ := stored_of_get lib svc lossy look
    (entry_permitted run last.member)
  refine ⟨marker_gone run event reserves later (by rw [same, ← found_eq]; exact other),
    .other last asked (congrArg Event.op look) ?_ fun value there => ?_⟩
  · intro own
    have answers := look.symm.trans own
    exact other (by simpa using answers)
  · rw [same] at there
    have foreign : value ≠ IdempotencyStore.pendingValue owner := by
      rintro rfl
      exact other (found_eq.trans there)
    obtain ⟨s, put, after, before, changes, left⟩ := put_since run reserves later there foreign
    refine ⟨foreign, s, put, fun own => ?_, after, before, changes, left⟩
    exact call_alters_nothing run (asked.trans called_eq) execute after before own last.tid changes

omit mine event reserves member called_eq in
include thread request in
/-- A key is completed with the result that the provider returned. -/
theorem completed_sent {value : Str} {ex : Int} {done : Bool}
    (performed : called ++ [sawOwn key owner] ++
      [⟨.redis (.set (IdempotencyStore.name key) value false ex), .ok done⟩] <+: t.trace) :
    ∃ result rest, Sent req result rest called ∧
      value = Json.dumps .default (storedResult result) := by
  have guard := kept run thread performed
  rw [request] at guard
  generalize name_eq : IdempotencyStore.name key = name at guard
  cases (show RedisUse lib svc req _ _ from guard) with
  | @complete _ _ _ _ result rest pre found keyed stored held unsettled sent own =>
    obtain rfl := (List.append_inj' own rfl).1
    exact ⟨result, rest, sent, rfl⟩

omit mine event reserves member called_eq in
include thread request in
/-- A key is released where the provider returned no result. -/
theorem released_noResult {count : Nat}
    (performed : called ++ [sawOwn key owner] ++
      [⟨.redis (.delete (IdempotencyStore.name key)), .ok count⟩] <+: t.trace) :
    NoResult called := by
  have guard := kept run thread performed
  rw [request] at guard
  generalize name_eq : IdempotencyStore.name key = name at guard
  cases (show RedisUse lib svc req _ _ from guard) with
  | @release _ _ _ pre found keyed held unsettled noResult own =>
    obtain rfl := (List.append_inj' own rfl).1
    exact noResult

include thread request member mine event reserves called_eq in
/-- A run that still owned its key leaves the provider's result there, where storing
does not change it. -/
theorem completed_unwedged_iff {store : IdempotencyStore} {ended : Except PyExn InvokeOutcome}
    {o : InvokeOutcome} {done : Bool}
    (success : ended = .ok o) (status : o.status = .success) {ext : Trace BrokerSig}
    (ext_eq : ext = [sawOwn key owner, ⟨.redis (.set (IdempotencyStore.name key)
      (Json.dumps .default (storedResult o.result)) false store.windowSeconds), .ok done⟩])
    (performed : called ++ ext <+: t.trace) :
    c.world.stored key ≠ some (IdempotencyStore.pendingValue owner) ∧
      ∃ result rest, Sent req result rest called ∧
        (Unwedged lib svc lossy c req e key owner ended called (called ++ ext) ↔
          Storable result) := by
  subst ext_eq
  have whole (ev : Event BrokerSig) : called ++ [sawOwn key owner, ev] =
      called ++ [sawOwn key owner] ++ [ev] :=
      (List.append_assoc called [sawOwn key owner] [ev]).symm
  rw [whole] at performed ⊢
  obtain ⟨result, rest, sent, value_eq⟩ := completed_sent run thread request performed
  obtain ⟨s, last, past_eq, event_eq, later⟩ :=
    entry_after run thread member mine called_eq (List.prefix_append _ _) performed
  have stored : ((broker lib svc lossy).left s).stored key =
      some (Json.dumps .default (storedResult result)) := by
    rw [← value_eq]
    exact stored_of_set store.window_pos (congrArg Event.op event_eq) (by rw [event_eq]; rfl)
  have gone := marker_gone run event reserves later fun same => by
    have pending := IdempotencyStore.isPending_pendingValue owner
    rw [← Option.some.inj (stored.symm.trans same), IdempotencyStore.isPending_dumps] at pending
    cases pending
  refine ⟨gone, result, rest, sent, fun unwedged => ?_, fun storable => ⟨gone, ?_⟩⟩
  · cases unwedged.leaves with
    | @result s' o' result' rest' last' owned success' status' sent' holds =>
      obtain ⟨rfl, -⟩ := sent.unique sent'
      obtain rfl : s = s' := run.entry_unique last.member last'.member
        (last.tid.trans last'.tid.symm) (by rw [past_eq, owned])
      exact dumps_storedResult_eq_iff.mp (Option.some.inj (stored.symm.trans holds))
    | nothing _ _ failed => exact (failed o success status).elim
    | other last' asked =>
      have longer := congrArg List.length last'.whole
      rw [asked] at longer
      simp at longer
  · refine .result last past_eq success status sent ?_
    rw [stored, dumps_storedResult_eq_iff.mpr storable]

include thread request member mine event reserves called_eq in
theorem released_unwedged {ended : Except PyExn InvokeOutcome} {count : Nat}
    (failed : ∀ o, ended = .ok o → o.status ≠ .success) {ext : Trace BrokerSig}
    (ext_eq : ext = [sawOwn key owner, ⟨.redis (.delete (IdempotencyStore.name key)), .ok count⟩])
    (performed : called ++ ext <+: t.trace) :
    NoResult called ∧ Unwedged lib svc lossy c req e key owner ended called (called ++ ext) := by
  subst ext_eq
  have whole (ev : Event BrokerSig) : called ++ [sawOwn key owner, ev] =
      called ++ [sawOwn key owner] ++ [ev] :=
      (List.append_assoc called [sawOwn key owner] [ev]).symm
  rw [whole] at performed ⊢
  obtain ⟨s, last, past_eq, event_eq, later⟩ :=
    entry_after run thread member mine called_eq (List.prefix_append _ _) performed
  have gone := stored_of_delete lib svc lossy (congrArg Event.op event_eq) (by rw [event_eq]; rfl)
  refine ⟨released_noResult run thread request performed,
    marker_gone run event reserves later ?_, .nothing last past_eq failed gone⟩
  rw [gone]
  nofun

include thread request member mine event reserves called_eq in
/-- However a run settles its key, its marker is gone; and it leaves what it should
unless it stores another value than the provider's. -/
theorem settled_unwedged_iff {store : IdempotencyStore} {ended : Except PyExn InvokeOutcome}
    {ext : Trace BrokerSig} (execute : ∀ ev ∈ inner, ev.op.isExecute = true)
    (settled : Settlement store key owner ended ext) (performed : called ++ ext <+: t.trace) :
    c.world.stored key ≠ some (IdempotencyStore.pendingValue owner) ∧
      (Unwedged lib svc lossy c req e key owner ended called (called ++ ext) ↔
        ∀ result rest, Sent req result rest called →
          called ++ [sawOwn key owner] <+: called ++ ext → Storable result) := by
  cases settled with
  | @stale found other =>
    have unwedged : Unwedged lib svc lossy c req e key owner ended called _ :=
      stale_unwedged run thread member mine event reserves called_eq execute other performed
    refine ⟨unwedged.gone, fun _ result rest sent own => ?_, fun _ => unwedged⟩
    have same := ((List.prefix_append_right_inj called).mp own).eq_of_length rfl
    exact (other (by simpa using same.symm)).elim
  | completed success status =>
    obtain ⟨gone, result, rest, sent, unwedged_iff⟩ := completed_unwedged_iff run thread request
      member mine event reserves called_eq success status rfl performed
    refine ⟨gone, unwedged_iff.trans ⟨fun storable result' rest' sent' _ => ?_, fun storable => ?_⟩⟩
    · obtain ⟨rfl, -⟩ := sent.unique sent'
      exact storable
    · exact storable result rest sent ⟨[_], List.append_assoc ..⟩
  | released failed =>
    obtain ⟨noResult, unwedged⟩ := released_unwedged run thread request member mine event reserves
      called_eq failed rfl performed
    exact ⟨unwedged.gone, fun _ _ _ sent => (sent.not_noResult noResult).elim, fun _ => unwedged⟩

end Runs

/-! ## The key of a finished run -/

/-- A run of `_invoke_resolved` that is over and was granted the reservation `e`, that
was not cancelled, and for which the store's own commands succeeded. -/
structure GrantedRun (lib : Lib) (svc : Services) (lossy : Bool) (c : Broker) (req : InvokeRequest)
    (grant : Grant) (tokenHash : Str) (start : Time) (e : Entry BrokerSig World) (key owner : Str)
    (tr : Trace BrokerSig) : Prop where
  thread : ∃ t, c.threads[e.tid]? = some t ∧ t.req = .invoke req ∧ tr <+: t.trace
  member : e ∈ c.hist
  reserves : (storing lib svc lossy).Reserves key owner e
  resolved : ∃ fastRevoked base r, (broker lib svc lossy).Runs
    (invokeResolved lib svc req grant tokenHash start fastRevoked) base tr r ∧ base <+: e.past
  inside : e.past ++ [e.event] <+: tr
  uncancelled : ∀ ev ∈ tr, ∀ applied, ev.ans ≠ .error (.cancelledError applied)
  answered : Answered key tr

section Invocations

variable {w : World} {c : Broker} (run : (broker lib svc lossy).Reaches (.start w) c)

include run

/-- A reservation was granted where the key was free. -/
theorem reserves_of_granted {e : Entry BrokerSig World} (member : e ∈ c.hist)
    (event : e.event = granted key owner) : (storing lib svc lossy).Reserves key owner e := by
  refine ⟨congrArg Event.op event, by rw [event]; rfl, ?_⟩
  have permits := entry_permitted run member
  rw [event] at permits
  cases free : e.pre.redis.find e.pre.now (IdempotencyStore.name key) with
  | none => exact free
  | some x =>
    simp [World.permits, Redis.run, free, IdempotencyStore.reservationTtlSeconds] at permits

variable {i : Nat} {t : Thread BrokerSig Request Response} (thread : c.threads[i]? = some t)
  (request : t.req = .invoke req)

include thread request

/-- What an invocation reserves is a key, with a marker. -/
theorem granted_of_isReserve {past : Trace BrokerSig} {ev : Event BrokerSig}
    (performed : past ++ [ev] <+: t.trace) (reserve : ev.op.isReserve = true) :
    ∃ key owner, ev.op = (granted key owner).op := by
  have guard := kept run thread performed
  rw [request] at guard
  obtain ⟨op, a⟩ := ev
  cases op with
  | redis cmd =>
    cases (show RedisUse lib svc req past cmd from guard) with
    | reserve => exact ⟨_, _, rfl⟩
    | _ => cases reserve
  | _ => cases reserve

/-- An invocation that is over got its reservation in such a run. -/
theorem invocation_granted {r : Except PyExn Response} (ended : t.prog = .ofExcept r)
    {e : Entry BrokerSig World} (member : e ∈ c.hist) (mine : e.tid = i)
    (event : e.event = granted key owner)
    (uncancelled : ∀ ev ∈ t.trace, ∀ applied, ev.ans ≠ .error (.cancelledError applied))
    (answered : Answered key t.trace) : ∃ grant start tr,
      GrantedRun lib svc lossy c req grant (hashToken lib req.grantToken) start e key owner tr := by
  have under := Machine.Reaches.under_start run thread
    (wp_runs (fun _ _ => trivial) _ []) (Role.met_guarding (fun _ _ => True) _)
  rw [ended, wp_ofExcept, request] at under
  have resolves : Resolves lib svc lossy req [] t.trace := by
    rcases Machine.Runs.bind under with ⟨o, mid, invoked, last⟩ | ⟨x, invoked, -⟩
    · have resolves := invoke_resolves invoked
      cases last with
      | ret _ _ => exact resolves
    · exact invoke_resolves invoked
  obtain ⟨u, running, more, split⟩ := run.owned member
  obtain rfl : t = u := by
    rw [mine] at running
    exact Option.some.inj (thread.symm.trans running)
  rw [event, List.append_assoc] at split
  cases resolves with
  | unclaimed unclaimed =>
    obtain ⟨ext, whole, none⟩ := unclaimed
    refine (none.not_granted key owner ?_).elim
    rw [← whole.trans (List.nil_append ext), ← split]
    exact List.mem_append_right _ List.mem_cons_self
  | @resolved grant start fastRevoked base mid r' before runs after =>
    obtain ⟨ext, base_eq, none⟩ := before
    obtain ⟨inner, rfl⟩ := runs.prefix_trace
    obtain ⟨tail, whole, none'⟩ := after
    rw [List.nil_append] at base_eq
    rw [← base_eq] at none
    obtain ⟨rest, middle, longer⟩ := split_inside (none.not_granted key owner)
      (none'.not_granted key owner) (split.trans whole)
    have performed : base ++ inner <+: t.trace := ⟨tail, whole.symm⟩
    refine ⟨grant, start, base ++ inner, ⟨t, mine ▸ thread, request, performed⟩, member,
      reserves_of_granted run member event, ⟨fastRevoked, base, r', runs, longer⟩, ?_, ?_, ?_⟩
    · exact ⟨rest, by rw [event, List.append_assoc]; exact middle⟩
    · exact fun ev inside => uncancelled ev (performed.subset inside)
    · exact fun ev inside => answered ev (performed.subset inside)

end Invocations

/-- Its call is settled. -/
theorem GrantedRun.settles {w : World} {c : Broker}
    (run : (broker lib svc lossy).Reaches (.start w) c) {e : Entry BrokerSig World}
    (finished : GrantedRun lib svc lossy c req grant tokenHash start e key owner tr) :
    e.event = granted key owner ∧ ∃ tool store ended called ext,
      (broker lib svc lossy).Runs (executeCall lib svc req grant tokenHash tool start)
        (e.past ++ [e.event]) called ended ∧
      tr = called ++ ext ∧ Settlement store key owner ended ext := by
  obtain ⟨fastRevoked, base, r, resolved, longer⟩ := finished.resolved
  have uncancelled : ¬ cancellation.Aborted tr := by
    rintro ⟨ev, inside, x, raised, fatal⟩
    obtain ⟨applied, rfl⟩ := fatal_cases fatal
    exact finished.uncancelled ev inside applied raised
  have event : e.event = granted key owner := by
    refine granted_of_reserves run finished.member finished.reserves
      (finished.answered _ ?_ _ finished.reserves.1 rfl)
    exact finished.inside.subset (List.mem_append_right _ List.mem_cons_self)
  obtain ⟨rest, whole⟩ := finished.inside
  have answered := finished.answered
  rw [event, List.append_assoc] at whole
  obtain rfl : e.past ++ granted key owner :: rest = tr := whole
  obtain ⟨tool, k, store, ended, called, ext, -, -, -, -, call, split, settled⟩ :=
    resolved_settles resolved longer answered uncancelled
  rw [← event] at call
  exact ⟨event, tool, store, ended, called, ext, call, split, settled⟩

/-- On every run of the broker, a run of `_invoke_resolved` that was granted its
reservation and is over has left no marker of its own. What the key then holds is as it
should be exactly if the provider's result, where there is one and the run still owns
the key, is one that `outcome.result or {}` leaves as it is. -/
theorem key_unwedged_iff {w : World} {c : Broker}
    (run : (broker lib svc lossy).Reaches (.start w) c) {e : Entry BrokerSig World}
    (finished : GrantedRun lib svc lossy c req grant tokenHash start e key owner tr) :
    c.world.stored key ≠ some (IdempotencyStore.pendingValue owner) ∧
    ∃ tool ended called, (broker lib svc lossy).Runs
        (executeCall lib svc req grant tokenHash tool start) (e.past ++ [e.event]) called ended ∧
      (Unwedged lib svc lossy c req e key owner ended called tr ↔
        ∀ result rest, Sent req result rest called → called ++ [sawOwn key owner] <+: tr →
          Storable result) := by
  obtain ⟨t, thread, request, performed⟩ := finished.thread
  obtain ⟨event, tool, store, ended, called, ext, call, rfl, settled⟩ := finished.settles run
  obtain ⟨inner, called_eq, execute⟩ := call.within executeCall_uses
  obtain ⟨gone, unwedged_iff⟩ := settled_unwedged_iff run thread request finished.member rfl event
    finished.reserves called_eq execute settled performed
  exact ⟨gone, tool, ended, called, call, unwedged_iff⟩

namespace Demo

def grants (ev : Event BrokerSig) : Bool :=
  match ev with
  | ⟨.redis (.set _ _ true _), .ok claimed⟩ => claimed
  | _ => false

/-- The entry of an invocation's granted reservation. -/
theorem granted_entry {w : World} {c : Broker}
    (run : (broker lib services false).Reaches (.start w) c)
    {i : Nat} {t : Thread BrokerSig Request Response} {req : InvokeRequest}
    (thread : c.threads[i]? = some t) (request : t.req = .invoke req)
    (granting : t.trace.any grants = true) :
    ∃ key owner e, e ∈ c.hist ∧ e.tid = i ∧ e.event = granted key owner := by
  obtain ⟨ev, member, grants⟩ := List.any_eq_true.mp granting
  obtain ⟨pre, v, performed, there⟩ := entry_of_event run thread member
  unfold Demo.grants at grants
  split at grants
  · rename_i name value ex claimed
    obtain ⟨key, owner, op_eq⟩ := granted_of_isReserve run thread request performed rfl
    refine ⟨key, owner, _, there, rfl, ?_⟩
    obtain ⟨rfl, rfl, rfl⟩ : name = IdempotencyStore.name key ∧
        value = IdempotencyStore.pendingValue owner ∧
        ex = IdempotencyStore.reservationTtlSeconds := by simpa using op_eq
    rw [grants]
  · cases grants

/-- Where nothing failed, the invocation is such a run. -/
theorem granted_run {w : World} {c : Broker}
    (run : (broker lib services false).Reaches (.start w) c)
    {i : Nat} {t : Thread BrokerSig Request Response} {req : InvokeRequest} {o : InvokeOutcome}
    (thread : c.threads[i]? = some t) (is : outcome t = some (req, o))
    (succeeded : t.trace.all succeeds = true) (granting : t.trace.any grants = true) :
    ∃ key owner e grant start tr,
      GrantedRun lib services false c req grant (hashToken lib req.grantToken) start e key
      owner tr := by
  obtain ⟨request, finished⟩ := of_outcome is
  obtain ⟨key, owner, e, member, mine, event⟩ := granted_entry run thread request granting
  have ok : ∀ ev ∈ t.trace, ∃ v, ev.ans = .ok v := fun ev inside =>
    answer_of_succeeds (List.all_eq_true.mp succeeded ev inside)
  have uncancelled : ∀ ev ∈ t.trace, ∀ applied, ev.ans ≠ .error (.cancelledError applied) := by
    intro ev inside applied raised
    obtain ⟨v, returned⟩ := ok ev inside
    cases returned.symm.trans raised
  obtain ⟨grant, start, tr, granted⟩ := invocation_granted run thread request
    (r := .ok (.outcome o)) finished member mine event uncancelled fun ev inside _ _ _ =>
    ok ev inside
  exact ⟨key, owner, e, grant, start, tr, granted⟩

/-- What the provider returned to a run is among the results. -/
theorem sent_result {w : World} {c : Broker}
    (run : (broker lib services false).Reaches (.start w) c)
    {i : Nat} {t : Thread BrokerSig Request Response} (thread : c.threads[i]? = some t)
    {req : InvokeRequest} {result : Json} {called rest : Trace BrokerSig}
    (sent : Sent req result rest called) (performed : called <+: t.trace) :
    result ∈ results c.hist := by
  obtain ⟨pre, tool, accessToken, rfl, -, -⟩ := sent
  obtain ⟨past, v, -, there⟩ := entry_of_event run thread
    (performed.subset (List.mem_append_right _ List.mem_cons_self))
  exact mem_results there rfl

end Demo

/-- An invocation of the demo leaves the provider's listing under its key. -/
theorem key_unwedged_iff_demo : ∃ (c : Broker) (req : InvokeRequest) (e : Entry BrokerSig World)
    (key owner : Str) (ended : Except PyExn InvokeOutcome) (called tr : Trace BrokerSig),
    (broker Demo.lib Demo.services false).Reaches (.start (World.fresh Demo.midnight)) c ∧
      (storing Demo.lib Demo.services false).Reserves key owner e ∧ e ∈ c.hist ∧
      Unwedged Demo.lib Demo.services false c req e key owner ended called tr := by
  have computed : (Demo.played false
      (Demo.issued ++ Demo.invocation [] (some "k") :: Demo.run 2 26)).any (fun c =>
          (results c.hist).all Demo.isListing &&
            c.threads[2]?.any fun t => t.trace.all Demo.succeeds && t.trace.any Demo.grants &&
              (Demo.outcome t).isSome) = true := by decide +kernel
  obtain ⟨c, run, computed⟩ := Demo.reached computed
  simp only [Bool.and_eq_true, List.all_eq_true] at computed
  obtain ⟨listings, computed⟩ := computed
  obtain ⟨t, thread, computed⟩ := (Option.any_eq_true _ _).mp computed
  simp only [Bool.and_eq_true] at computed
  obtain ⟨⟨succeeded, granting⟩, computed⟩ := computed
  obtain ⟨⟨req, o⟩, is⟩ := Option.isSome_iff_exists.mp computed
  obtain ⟨key, owner, e, grant, start, tr, granted⟩ :=
    Demo.granted_run run thread is succeeded granting
  obtain ⟨-, tool, ended, called, -, unwedged_iff⟩ := key_unwedged_iff run granted
  obtain ⟨u, running, -, performed⟩ := granted.thread
  refine ⟨c, req, e, key, owner, ended, called, tr, run, granted.reserves, granted.member,
    unwedged_iff.mpr fun result rest sent own => ?_⟩
  have listing := listings result (Demo.sent_result run running sent
    (((List.prefix_append _ _).trans own).trans performed))
  rw [Demo.of_isListing listing]
  exact .inl rfl

namespace Demo

/-- The value of a marker that was set. -/
def marked (ev : Event BrokerSig) : Option Str :=
  match ev.op with
  | .redis (.set _ value true _) => some value
  | _ => none

/-- Nothing is deleted, and a look after a reservation finds its marker. -/
def keeps (e : Entry BrokerSig World) : Bool :=
  match e.event with
  | ⟨.redis (.get _), .ok found⟩ => (e.past.filterMap marked).all fun value => found = some value
  | ⟨.redis (.delete _), _⟩ => false
  | _ => true

/-- So a run that is over has completed its key. -/
theorem completes_of_keeps {w : World} {c : Broker}
    (run : (broker lib services false).Reaches (.start w) c) {i : Nat}
    {t : Thread BrokerSig Request Response} (thread : c.threads[i]? = some t)
    (kept : c.hist.all keeps = true) {store : IdempotencyStore} {key owner : Str}
    {ended : Except PyExn InvokeOutcome} {called ext : Trace BrokerSig}
    (held : granted key owner ∈ called) (settled : Settlement store key owner ended ext)
    (performed : called ++ ext <+: t.trace) : ∃ value ex done, ext = [sawOwn key owner,
      ⟨.redis (.set (IdempotencyStore.name key) value false ex), .ok done⟩] := by
  cases settled with
  | @stale found other =>
    obtain ⟨v, there⟩ := entry_at run thread performed
    have kept := List.all_eq_true.mp kept _ there
    have marker : IdempotencyStore.pendingValue owner ∈ called.filterMap marked :=
      List.mem_filterMap.mpr ⟨_, held, rfl⟩
    exact (other (of_decide_eq_true (List.all_eq_true.mp kept _ marker))).elim
  | completed => exact ⟨_, _, _, rfl⟩
  | @released count =>
    have dropped : called ++ [sawOwn key owner] ++
        [⟨.redis (.delete (IdempotencyStore.name key)), .ok count⟩] <+: t.trace := by
      rwa [List.append_assoc]
    obtain ⟨v, there⟩ := entry_at run thread dropped
    have kept := List.all_eq_true.mp kept _ there
    cases kept

end Demo

/-- The provider answers with an empty list, and the key holds an empty object. -/
theorem key_altered_demo : ∃ (c : Broker) (req : InvokeRequest) (grant : Grant) (start : Time)
    (e : Entry BrokerSig World) (key owner : Str) (tool : ToolAdapter)
    (ended : Except PyExn InvokeOutcome) (called tr : Trace BrokerSig),
    (broker Demo.lib Demo.services false).Reaches (.start (World.fresh Demo.midnight)) c ∧
      GrantedRun Demo.lib Demo.services false c req grant
        (hashToken Demo.lib req.grantToken) start e key owner tr ∧
      (broker Demo.lib Demo.services false).Runs (executeCall Demo.lib Demo.services req grant
        (hashToken Demo.lib req.grantToken) tool start) (e.past ++ [e.event]) called ended ∧
      ¬ Unwedged Demo.lib Demo.services false c req e key owner ended called tr := by
  have computed : (Demo.played false
      (Demo.issued ++ Demo.invocation [] (some "k") :: Demo.call 2 26 (.arr []))).any (fun c =>
          (results c.hist).all Demo.isEmpty && c.hist.all Demo.keeps &&
            c.threads[2]?.any fun t => t.trace.all Demo.succeeds && t.trace.any Demo.grants &&
              (Demo.outcome t).isSome) = true := by decide +kernel
  obtain ⟨c, run, computed⟩ := Demo.reached computed
  simp only [Bool.and_eq_true] at computed
  obtain ⟨⟨empty, keeps⟩, computed⟩ := computed
  obtain ⟨t, thread, computed⟩ := (Option.any_eq_true _ _).mp computed
  simp only [Bool.and_eq_true] at computed
  obtain ⟨⟨succeeded, granting⟩, computed⟩ := computed
  obtain ⟨⟨req, o⟩, is⟩ := Option.isSome_iff_exists.mp computed
  obtain ⟨key, owner, e, grant, start, tr, resolved⟩ :=
    Demo.granted_run run thread is succeeded granting
  obtain ⟨event, tool, store, ended, called, ext, call, rfl, settled⟩ := resolved.settles run
  refine ⟨c, req, grant, start, e, key, owner, tool, ended, called, _, run, resolved, call,
    fun unwedged => ?_⟩
  obtain ⟨u, running, request, performed⟩ := resolved.thread
  obtain ⟨inner, called_eq, execute⟩ := call.within executeCall_uses
  have held : granted key owner ∈ called := by simp [called_eq, event]
  obtain ⟨value, ex, done, ext_eq⟩ :=
    Demo.completes_of_keeps run running keeps held settled performed
  have written : called ++ [sawOwn key owner] ++
      [⟨.redis (.set (IdempotencyStore.name key) value false ex), .ok done⟩] <+: u.trace := by
    rw [ext_eq] at performed
    rwa [List.append_assoc]
  obtain ⟨result, rest, sent, -⟩ := completed_sent run running request written
  have storable := (settled_unwedged_iff run running request resolved.member rfl event
    resolved.reserves called_eq execute settled performed).2.mp unwedged result rest sent
      (ext_eq ▸ ⟨[_], List.append_assoc ..⟩)
  have returned := Demo.sent_result run running sent ((List.prefix_append _ _).trans performed)
  rw [Demo.of_isEmpty (List.all_eq_true.mp empty _ returned)] at storable
  exact absurd storable (by simp [Storable, Json.truthy])

end CredBroker
