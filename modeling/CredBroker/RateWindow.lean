import CredBroker.Demo
import CredBroker.Python.Codecs
import CredBroker.Python.Numerals
import CredBroker.Stored

/-!
# Fixed windows

Any number of `RateLimiter.check` runs over one Redis that honours expiries. A
counter is named by its window, so it only has to outlast the window it is named
by: the first hit's `EXPIRE` runs at or after that window began, and leaves it a
whole window more. `fixed_window` draws from it which checks are allowed.
-/

namespace CredBroker

open Python Interaction

/-! ## Positions in a list -/

/-- A property that only early positions have is had by few. -/
theorem length_filter_le_of_positions {A : Type} {p : A → Bool} {items : List A} {n : Nat}
    (early : ∀ i a, items[i]? = some a → p a = true → i < n) : (items.filter p).length ≤ n := by
  have late : (items.drop n).filter p = [] := by
    apply List.filter_eq_nil_iff.mpr
    intro a member holds
    obtain ⟨i, at_⟩ := List.getElem?_of_mem member
    rw [List.getElem?_drop] at at_
    have := early (n + i) a at_ holds
    omega
  calc (items.filter p).length
      = ((items.take n).filter p ++ (items.drop n).filter p).length := by
        rw [← List.filter_append, List.take_append_drop]
    _ = ((items.take n).filter p).length := by rw [late, List.append_nil]
    _ ≤ (items.take n).length := List.length_filter_le _ _
    _ ≤ n := List.length_take_le _ _

/-- What is in one of two classes is counted in one of them. -/
theorem length_filter_le_add {A : Type} {p q r : A → Bool} {items : List A}
    (covered : ∀ a ∈ items, p a = true → q a = true ∨ r a = true) :
    (items.filter p).length ≤ (items.filter q).length + (items.filter r).length := by
  induction items with
  | nil => exact Nat.zero_le _
  | cons a items ih =>
    have tail := ih fun a member => covered a (List.mem_cons_of_mem _ member)
    have head := covered a List.mem_cons_self
    simp only [List.filter_cons]
    split_ifs <;> simp_all <;> omega

/-! ## The runs -/

/-- The arguments of a `check`. -/
structure RateCheck where
  key : Str
  limit : Int
  window : Int
  window_pos : 0 < window
  deriving DecidableEq

/-- The checks over one Redis that loses nothing before its time. -/
def limiter : Machine BrokerSig RateCheck Bool World World.Nudge where
  entry r := RateLimiter.check r.key r.limit r.window
  Permits w tr e := w.permits tr e = true
  after := World.after
  nudge := World.nudge false

instance (w : World) (tr : Trace BrokerSig) (e : Event BrokerSig) :
    Decidable (limiter.Permits w tr e) :=
  inferInstanceAs (Decidable (w.permits tr e = true))

abbrev Limiter : Type := Config BrokerSig RateCheck Bool World

namespace RateCheck

variable (r : RateCheck)

/-- The window that a reading of the clock is in. -/
def index (now : Time) : Int := now / seconds r.window

/-- The counter of that window. -/
def counter (now : Time) : Str := RateLimiter.counterKey r.key (r.index now)

/-- The instant at which a window is over. -/
def closing (index : Int) : Time := seconds r.window * (index + 1)

/-- What a check performs after what it has seen. -/
def Guard (tr : Trace BrokerSig) : Op → Prop
  | .clock => tr = []
  | .redis cmd => ∃ now, (tr = [⟨.clock, .ok now⟩] ∧ cmd = .incr (r.counter now)) ∨
      ∃ a, tr = [⟨.clock, .ok now⟩, ⟨.redis (.incr (r.counter now)), a⟩] ∧
        cmd = .expire (r.counter now) r.window
  | _ => False

/-- How a check returns: by what its `INCR` was answered. -/
def Ended : Post BrokerSig Bool
  | .ok allowed, tr => ∃ now count rest,
      tr = ⟨.clock, .ok now⟩ :: ⟨.redis (.incr (r.counter now)), .ok count⟩ :: rest ∧
        allowed = decide (count ≤ r.limit)
  | .error _, _ => True

theorem wp_check : wp limiter (.guarding r.Guard) (limiter.entry r) r.Ended [] := by
  refine ⟨rfl, fun a _ _ => ?_⟩
  cases a with
  | error x => trivial
  | ok now =>
    refine ⟨⟨now, .inl ⟨rfl, rfl⟩⟩, fun a _ _ => ?_⟩
    cases a with
    | error x => trivial
    | ok count =>
      show wp _ _ (if _ then _ else _) _ _
      split
      · refine ⟨⟨now, .inr ⟨_, rfl, rfl⟩⟩, fun a _ _ => ?_⟩
        cases a with
        | error x => trivial
        | ok done => exact ⟨now, count, _, rfl, rfl⟩
      · exact ⟨now, count, _, rfl, rfl⟩

end RateCheck

/-- A counter tells its key and its window. -/
theorem counterKey_inj {key key' : Str} {index index' : Int}
    (same : RateLimiter.counterKey key index = RateLimiter.counterKey key' index') :
    key = key' ∧ index = index' := by
  have plain : ∀ index : Int, ':' ∉ Str.ofInt index :=
    Json.not_mem_ofInt (by decide) (by decide)
  rw [RateLimiter.counterKey_eq, RateLimiter.counterKey_eq] at same
  obtain ⟨rfl, digits⟩ := Str.append_last_inj (plain _) (plain _) (List.append_cancel_left same)
  exact ⟨rfl, Json.ofInt_inj digits⟩

/-! ## One counter -/

/-- What Redis holds of a window after so many hits: their number, until the window is over. -/
def Tallied (closing : Time) : Nat → Option Redis.Entry → Prop
  | 0, e => e = none
  | n + 1, e => ∃ expireAt, e = some ⟨Str.ofInt (n + 1), expireAt⟩ ∧
      ∀ t, expireAt = some t → closing ≤ t

section Counter

variable {r : Redis} {now closing : Time} {name : Str} {n : Nat}

theorem counter_ofInt (n : Int) : Redis.counter (Str.ofInt n) = some n := by
  unfold Redis.counter
  rw [Json.int_ofInt]
  exact if_pos rfl

/-- A hit inside the window finds the hits before it. -/
theorem Tallied.incr (tallied : Tallied closing n (r.table name)) (early : now < closing) :
    ∃ r', r.run now (.incr name) = some ((n + 1 : Int), r') ∧
      Tallied closing (n + 1) (r'.table name) := by
  cases n with
  | zero =>
    have vacant : r.find now name = none := by rw [Redis.find, tallied]; rfl
    refine ⟨r.put name (some ⟨Str.ofInt 1, none⟩), ?_, none, Redis.put_table_self .., by simp⟩
    rw [Redis.run, vacant]
    rfl
  | succ n =>
    obtain ⟨expireAt, stored, lasting⟩ := tallied
    have alive : (⟨Str.ofInt (n + 1), expireAt⟩ : Redis.Entry).alive now = true := by
      cases expireAt with
      | none => rfl
      | some t => exact decide_eq_true (Int.le_trans (Int.le_of_lt early) (lasting t rfl))
    have found : r.find now name = some ⟨Str.ofInt (n + 1), expireAt⟩ := by
      rw [Redis.find, stored, Option.filter_some, if_pos alive]
    refine ⟨r.put name (some ⟨Str.ofInt (n + 1 + 1), expireAt⟩), ?_, expireAt,
      Redis.put_table_self .., lasting⟩
    rw [Redis.run, found]
    dsimp only
    rw [counter_ofInt]
    rfl

/-- An `EXPIRE` that leaves the counter until the window is over. -/
theorem Tallied.expire (tallied : Tallied closing n (r.table name)) {ttl : Int} (pos : 0 < ttl)
    (late : closing ≤ now + seconds ttl) :
    Tallied closing n ((r.after now (.expire name ttl)).table name) := by
  rw [Redis.after, Redis.run]
  cases found : r.find now name with
  | none => exact tallied
  | some e =>
    have stored : r.table name = some e := (Option.filter_eq_some_iff.mp found).1
    dsimp only
    rw [if_neg (Int.not_le.mpr pos)]
    dsimp only
    rw [Redis.put_table_self]
    cases n with
    | zero =>
      rw [stored] at tallied
      cases tallied
    | succ n =>
      obtain ⟨expireAt, held, -⟩ := tallied
      obtain rfl := Option.some.inj (stored.symm.trans held)
      refine ⟨_, rfl, ?_⟩
      rintro t ⟨⟩
      exact late

end Counter

/-! ## What a run keeps -/

section Run

variable {w : World} {c : Limiter} (run : limiter.Reaches (.start w) c)

include run

theorem check_kept {i : Nat} {t : Thread BrokerSig RateCheck Bool} (thread : c.threads[i]? = some t)
    {pre : Trace BrokerSig} {ev : Event BrokerSig} (sub : pre ++ [ev] <+: t.trace) :
    t.req.Guard pre ev.op :=
  Machine.Reaches.kept run thread t.req.wp_check (Role.met_guarding _ _) sub

/-- A check that is over. -/
theorem check_ended {i : Nat} {t : Thread BrokerSig RateCheck Bool}
    (thread : c.threads[i]? = some t) {allowed : Bool} (finished : t.prog = .ret allowed) :
    t.req.Ended (.ok allowed) t.trace := by
  have under := Machine.Reaches.under_start run thread t.req.wp_check (Role.met_guarding _ _)
  rw [finished] at under
  exact under

end Run

/-- The checks touch nothing of the store of results. -/
def limiting : Storing limiter where
  world := id
  permits := id
  after _ _ _ := rfl
  nudge_now := World.nudge_now
  nudge_nonces {n _ _} moved := by
    cases n with
    | tick elapsed => cases moved; rfl
    | evict keep => cases moved
  nudge_table {n _ _} moved name := by
    cases n with
    | tick elapsed => cases moved; exact .inl rfl
    | evict keep => cases moved
  uses {_ _} run {_} member {cmd} calls := by
    obtain ⟨t, thread, sub⟩ := run.owned member
    have guard := check_kept run thread sub
    rw [calls] at guard
    obtain ⟨now, ⟨-, rfl⟩ | ⟨a, -, rfl⟩⟩ := guard
    · exact .foreign fun key => counterKey_ne_name _ key _
    · exact .foreign fun key => counterKey_ne_name _ key _

/-- What a check read off the clock is past. -/
theorem reading_past {w : World} {c : Limiter} (run : limiter.Reaches (.start w) c) {i : Nat}
    {t : Thread BrokerSig RateCheck Bool} (thread : c.threads[i]? = some t) {now : Time}
    (member : ⟨.clock, .ok now⟩ ∈ t.trace) : now ≤ c.world.now := by
  obtain ⟨pre, post, cut⟩ := List.append_of_mem member
  have sub : pre ++ [⟨.clock, .ok now⟩] <+: t.trace := ⟨post, by simp [cut]⟩
  obtain ⟨v, entry⟩ := run.entry_at thread sub
  obtain rfl : now = v.now := of_decide_eq_true (run.permits entry)
  obtain ⟨hist, ⟨before⟩⟩ := run.before_entry entry
  have later := limiting.now_mono before.toEnd
  rwa [before.world_eq] at later

/-! ## Windows -/

namespace RateCheck

variable (r : RateCheck)

theorem seconds_pos : 0 < seconds r.window := Int.mul_pos r.window_pos (by decide)

theorem lt_closing (now : Time) : now < r.closing (r.index now) := by
  rw [closing, index, Int.mul_add, Int.mul_one]
  exact Int.lt_mul_ediv_self_add r.seconds_pos

/-- A whole window later the window is over. -/
theorem closing_le (now : Time) : r.closing (r.index now) ≤ now + seconds r.window := by
  rw [closing, index, Int.mul_add, Int.mul_one]
  apply Int.add_le_add_right
  exact Int.mul_ediv_self_le (Int.ne_of_gt r.seconds_pos)

end RateCheck

/-! ## Hits -/

/-- Whether an event adds one to a counter. -/
def hits (name : Str) : Event BrokerSig → Bool
  | ⟨.redis (.incr other), a⟩ => other = name && AppliedRedis a
  | _ => false

/-- The count that an event was answered with. -/
def countOf : Event BrokerSig → Option Int
  | ⟨.redis (.incr _), .ok count⟩ => some count
  | _ => none

/-- The hits of a counter, oldest first. -/
def hitsOf (c : Limiter) (name : Str) : List (Entry BrokerSig World) :=
  c.hist.filter fun e => hits name e.event

/-- A counter is named at the instant at which it is hit. -/
def Prompt (c : Limiter) : Prop :=
  ∀ e ∈ c.hist, ∀ name, e.event.op = .redis (.incr name) → ⟨.clock, .ok e.pre.now⟩ ∈ e.past

/-- What Redis and the checks know of a window. -/
structure Counted (c : Limiter) (name : Str) (closing : Time) : Prop where
  tallied : Tallied closing (hitsOf c name).length (c.world.redis.table name)
  answered : ∀ (i : Nat) e count, (hitsOf c name)[i]? = some e →
    countOf e.event = some count → count = i + 1

theorem hits_incr {name : Str} {e : Event BrokerSig} (hit : hits name e = true) :
    ∃ a, e = ⟨.redis (.incr name), a⟩ ∧ AppliedRedis a = true := by
  unfold hits at hit
  split at hit
  · rename_i other a
    obtain ⟨rfl, applied⟩ := Bool.and_eq_true_iff.mp hit |>.imp_left of_decide_eq_true
    exact ⟨a, rfl, applied⟩
  · cases hit

/-- The counter that a check of this key hits is that of the window it has read. -/
theorem counter_eq {r r' : RateCheck} {now : Time} {index : Int}
    (only : r'.key = r.key → r' = r)
    (named : r'.counter now = RateLimiter.counterKey r.key index) :
    r' = r ∧ r.index now = index := by
  obtain ⟨key, window⟩ := counterKey_inj named
  obtain rfl := only key
  exact ⟨rfl, window⟩

section Counted

variable {b : Limiter} {i : Nat} {t : Thread BrokerSig RateCheck Bool} {name : Str} {closing : Time}

/-- A hit is counted. -/
theorem Counted.hit (counted : Counted b name closing) (early : b.world.now < closing)
    {a : BrokerSig.Ans (.redis (.incr name))} (applied : AppliedRedis a = true)
    (permits : b.world.permits t.trace ⟨.redis (.incr name), a⟩ = true)
    (prog : Prog BrokerSig Bool) :
    Counted (b.answer limiter i t ⟨.redis (.incr name), a⟩ prog) name closing := by
  obtain ⟨r', runs, tallied⟩ := counted.tallied.incr early
  have grown : hitsOf (b.answer limiter i t ⟨.redis (.incr name), a⟩ prog) name =
      hitsOf b name ++ [⟨i, b.world, t.trace, ⟨.redis (.incr name), a⟩⟩] := by
    unfold hitsOf Config.answer
    rw [List.filter_append, List.filter_singleton]
    simp [hits, applied]
  have redis : (b.answer limiter i t ⟨.redis (.incr name), a⟩ prog).world.redis = r' := by
    show (b.world.after t.trace _).redis = r'
    simp only [World.after, applied, if_true]
    rw [Redis.after, runs]
  constructor
  · rw [grown, redis, List.length_append]
    exact tallied
  · intro j e count at_ answered
    rw [grown] at at_
    rcases Nat.lt_or_ge j (hitsOf b name).length with earlier | last
    · rw [List.getElem?_append_left earlier] at at_
      exact counted.answered j e count at_ answered
    · rw [List.getElem?_append_right last] at at_
      have inBounds := (List.getElem?_eq_some_iff.mp at_).1
      rw [List.length_singleton] at inBounds
      obtain rfl : j = (hitsOf b name).length := by omega
      rw [Nat.sub_self, List.getElem?_cons_zero] at at_
      obtain rfl := Option.some.inj at_
      cases a with
      | error x => cases answered
      | ok reply =>
        obtain rfl := Option.some.inj answered
        simp only [World.permits, runs] at permits
        exact of_decide_eq_true permits

/-- What is no hit leaves the count alone, if it leaves the counter. -/
theorem Counted.other (counted : Counted b name closing) {e : Event BrokerSig}
    (other : hits name e = false) (prog : Prog BrokerSig Bool)
    (kept : Tallied closing (hitsOf b name).length ((b.world.after t.trace e).redis.table name)) :
    Counted (b.answer limiter i t e prog) name closing := by
  have same : hitsOf (b.answer limiter i t e prog) name = hitsOf b name := by
    unfold hitsOf Config.answer
    rw [List.filter_append, List.filter_singleton]
    simp [other]
  constructor
  · rw [same]
    exact kept
  · rw [same]
    exact counted.answered

end Counted

/-- Whatever a check does to a counter that it does not hit, the counter is left for its window. -/
theorem Tallied.kept {r : RateCheck} {index : Int} {n : Nat} {b : World} {req : RateCheck}
    (tallied : Tallied (r.closing index) n (b.redis.table (RateLimiter.counterKey r.key index)))
    {past : Trace BrokerSig} {e : Event BrokerSig} (guard : req.Guard past e.op)
    (only : req.key = r.key → req = r) (readings : ∀ now, ⟨.clock, .ok now⟩ ∈ past → now ≤ b.now)
    (other : hits (RateLimiter.counterKey r.key index) e = false) :
    Tallied (r.closing index) n
      ((b.after past e).redis.table (RateLimiter.counterKey r.key index)) := by
  by_cases isRedis : e.op.isRedis = true
  · obtain ⟨e, a⟩ := e
    cases e with
    | redis cmd =>
      cases applied : AppliedRedis a with
      | false => simpa [World.after, applied] using tallied
      | true =>
        have after : (b.after past ⟨.redis cmd, a⟩).redis = b.redis.after b.now cmd := by
          simp [World.after, applied]
        rw [after]
        by_cases here : RateLimiter.counterKey r.key index = cmd.name
        · obtain ⟨now, ⟨-, rfl⟩ | ⟨a', saw, rfl⟩⟩ := guard
          · simp [hits, applied, here, Redis.Cmd.name] at other
          · -- the hit that this `EXPIRE` follows was in the window, and that is not later
            obtain ⟨rfl, rfl⟩ := counter_eq only here.symm
            have past := readings now (by simp [saw])
            exact tallied.expire req.window_pos
              (Int.le_trans (req.closing_le now) (Int.add_le_add_right past _))
        · rw [Redis.after_table_ne _ _ here]
          exact tallied
    | _ => cases isRedis
  · rw [(b.after_framed _ _).redis (Bool.not_eq_true _ ▸ isRedis)]
    exact tallied

/-- The counter of every window counts its hits, whatever the checks of other keys do. -/
theorem run_counted {w : World} {c : Limiter} (run : limiter.Reaches (.start w) c) {r : RateCheck}
    (vacant : ∀ index, w.redis.table (RateLimiter.counterKey r.key index) = none)
    (only : ∀ t ∈ c.threads, t.req.key = r.key → t.req = r) (prompt : Prompt c) (index : Int) :
    Counted c (RateLimiter.counterKey r.key index) (r.closing index) := by
  induction run with
  | refl =>
    refine ⟨vacant index, fun i e count at_ => ?_⟩
    rw [show hitsOf (.start w) (RateLimiter.counterKey r.key index) = [] from rfl] at at_
    cases at_
  | @tail b c before step ih =>
    have earlier : Counted b (RateLimiter.counterKey r.key index) (r.closing index) := by
      apply ih
      · intro t member key
        obtain ⟨i, inBounds, rfl⟩ := List.getElem_of_mem member
        obtain ⟨t', there, req, -⟩ := step.thread_mono (List.getElem?_eq_getElem inBounds)
        rw [← req] at key ⊢
        exact only t' (List.mem_of_getElem? there) key
      · exact fun e member => prompt e (step.hist_mono.subset member)
    have run : limiter.Reaches (.start w) c := before.tail step
    cases step with
    | spawn r' => exact ⟨earlier.tallied, earlier.answered⟩
    | nudge n moved =>
      cases n with
      | tick elapsed =>
        obtain rfl := Option.some.inj moved
        exact ⟨earlier.tallied, earlier.answered⟩
      | evict keep => cases moved
    | @answer i t e k a thread pending permits =>
      have there := Config.answer_self limiter thread ⟨e, a⟩ (k a)
      have guard := check_kept run there List.prefix_rfl
      have one := only _ (List.mem_of_getElem? there)
      cases hit : hits (RateLimiter.counterKey r.key index) ⟨e, a⟩ with
      | true =>
        obtain ⟨a, same, applied⟩ := hits_incr hit
        cases same
        obtain ⟨now, ⟨past, same⟩ | ⟨a, -, same⟩⟩ := guard
        · obtain ⟨req, rfl⟩ := counter_eq one (Redis.Cmd.incr.inj same).symm
          have read := prompt _ (List.mem_append_right _ (List.mem_singleton_self _)) _ rfl
          obtain rfl : b.world.now = now := by simpa [past] using read
          exact earlier.hit (r.lt_closing _) applied permits _
        · cases same
      | false =>
        apply earlier.other hit
        exact earlier.tallied.kept guard one (fun now => reading_past before thread) hit

/-! ## Checks -/

/-- What a check has returned. -/
def verdict (c : Limiter) (i : Nat) : Option Bool :=
  match c.threads[i]? with
  | some ⟨_, .ret allowed, _⟩ => some allowed
  | _ => none

/-- Whether an entry counts a check of this key. -/
def countsFor (c : Limiter) (key : Str) (e : Entry BrokerSig World) : Bool :=
  match e.event with
  | ⟨.redis (.incr _), a⟩ => AppliedRedis a && (c.threads[e.tid]?).any (·.req.key = key)
  | _ => false

/-- The checks of a key that one window has counted, in their order. -/
def checkedIn (c : Limiter) (r : RateCheck) (index : Int) : List (Entry BrokerSig World) :=
  c.hist.filter fun e => countsFor c r.key e && r.index e.pre.now = index

/-- The checks of a key that were counted from an instant on for the length of a window,
and allowed. -/
def allowedFrom (c : Limiter) (r : RateCheck) (start : Time) : List (Entry BrokerSig World) :=
  c.hist.filter fun e => countsFor c r.key e && verdict c e.tid = some true &&
    start ≤ e.pre.now && e.pre.now < start + seconds r.window

theorem of_verdict {c : Limiter} {i : Nat} {allowed : Bool} (is : verdict c i = some allowed) :
    ∃ t, c.threads[i]? = some t ∧ t.prog = .ret allowed := by
  unfold verdict at is
  split at is
  · rename_i thread
    obtain rfl := Option.some.inj is
    exact ⟨_, thread, rfl⟩
  · cases is

theorem of_countsFor {c : Limiter} {key : Str} {e : Entry BrokerSig World}
    (is : countsFor c key e = true) : ∃ name a t, e.event = ⟨.redis (.incr name), a⟩ ∧
      AppliedRedis a = true ∧ c.threads[e.tid]? = some t ∧ t.req.key = key := by
  unfold countsFor at is
  split at is
  · rename_i name a same
    obtain ⟨applied, found⟩ := Bool.and_eq_true_iff.mp is
    obtain ⟨t, thread, key⟩ := (Option.any_eq_true _ _).mp found
    exact ⟨name, a, t, same, applied, thread, of_decide_eq_true key⟩
  · cases is

section Checks

variable {w : World} {c : Limiter} (run : limiter.Reaches (.start w) c) (prompt : Prompt c)

include run prompt

/-- A counter is hit once the window it is named by has been read off the clock. -/
theorem hit_entry {e : Entry BrokerSig World} (member : e ∈ c.hist) {name : Str}
    {a : BrokerSig.Ans (.redis (.incr name))} (is : e.event = ⟨.redis (.incr name), a⟩) :
    ∃ t, c.threads[e.tid]? = some t ∧ e.past ++ [e.event] <+: t.trace ∧
      e.past = [⟨.clock, .ok e.pre.now⟩] ∧ name = t.req.counter e.pre.now := by
  obtain ⟨t, thread, sub⟩ := run.owned member
  have guard := check_kept run thread sub
  have read := prompt e member name (by rw [is])
  rw [is] at guard
  obtain ⟨now, ⟨past, same⟩ | ⟨a', -, same⟩⟩ := guard
  · obtain rfl : e.pre.now = now := by simpa [past] using read
    exact ⟨t, thread, sub, past, Redis.Cmd.incr.inj same⟩
  · cases same

variable {r : RateCheck} (only : ∀ t ∈ c.threads, t.req.key = r.key → t.req = r)

include only

/-- The checks that a window has counted are the hits of its counter. -/
theorem checkedIn_eq (index : Int) :
    checkedIn c r index = hitsOf c (RateLimiter.counterKey r.key index) := by
  apply List.filter_congr
  intro e member
  rw [Bool.eq_iff_iff]
  constructor
  · intro counted
    obtain ⟨counts, window⟩ := Bool.and_eq_true_iff.mp counted
    obtain ⟨name, a, t, is, applied, thread, key⟩ := of_countsFor counts
    obtain ⟨u, there, -, -, rfl⟩ := hit_entry run prompt member is
    obtain rfl := Option.some.inj (there.symm.trans thread)
    rw [only u (List.mem_of_getElem? thread) key] at is
    rw [is, ← of_decide_eq_true window]
    simpa [hits, RateCheck.counter] using applied
  · intro hit
    obtain ⟨a, is, applied⟩ := hits_incr hit
    obtain ⟨t, thread, -, -, named⟩ := hit_entry run prompt member is
    obtain ⟨req, rfl⟩ := counter_eq (only t (List.mem_of_getElem? thread)) named.symm
    simp [countsFor, is, applied, thread, req]

/-- The count that a check has returned by is its place in its window. -/
theorem verdict_place (vacant : ∀ index, w.redis.table (RateLimiter.counterKey r.key index) = none)
    {index : Int} {i : Nat} {e : Entry BrokerSig World} {allowed : Bool}
    (at_ : (checkedIn c r index)[i]? = some e) (returned : verdict c e.tid = some allowed) :
    allowed = decide ((i : Int) < r.limit) := by
  obtain ⟨member, counted⟩ := List.mem_filter.mp (List.mem_of_getElem? at_)
  obtain ⟨name, a, t, is, -, thread, key⟩ := of_countsFor (Bool.and_eq_true_iff.mp counted).1
  obtain ⟨u, there, sub, past, -⟩ := hit_entry run prompt member is
  obtain rfl := Option.some.inj (there.symm.trans thread)
  obtain ⟨v, there', finished⟩ := of_verdict returned
  obtain rfl := Option.some.inj (there'.symm.trans thread)
  obtain ⟨now, count, rest, trace, rfl⟩ := check_ended run thread finished
  have answered : countOf e.event = some count := by
    rw [past, trace] at sub
    obtain ⟨-, sub⟩ := List.cons_prefix_cons.mp sub
    rw [(List.cons_prefix_cons.mp sub).1]
    rfl
  rw [checkedIn_eq run prompt only] at at_
  have place := (run_counted run vacant only prompt index).answered i e count at_ answered
  rw [only v (List.mem_of_getElem? thread) key, decide_eq_decide, place]
  exact Int.add_one_le_iff

omit only

/-- A check counts once. -/
theorem checkedIn_nodup (index : Int) : ((checkedIn c r index).map (·.tid)).Nodup := by
  have once : ((checkedIn c r index).map fun e => (e.tid, e.past.length)).Nodup :=
    run.entry_nodup.sublist (List.filter_sublist.map _)
  have places : (checkedIn c r index).map (fun e => (e.tid, e.past.length)) =
      ((checkedIn c r index).map (·.tid)).map fun tid => (tid, 1) := by
    rw [List.map_map]
    apply List.map_congr_left
    intro e member
    obtain ⟨member, counted⟩ := List.mem_filter.mp member
    obtain ⟨name, a, t, is, -⟩ := of_countsFor (Bool.and_eq_true_iff.mp counted).1
    obtain ⟨-, -, -, past, -⟩ := hit_entry run prompt member is
    rw [past]
    rfl
  rw [places] at once
  exact .of_map _ once

omit prompt

/-- A check that has returned was counted in the window it read. -/
theorem checkedIn_of_returned {i : Nat} {allowed : Bool}
    {t : Thread BrokerSig RateCheck Bool} (thread : c.threads[i]? = some t)
    (key : t.req.key = r.key) (finished : t.prog = .ret allowed) :
    ∃ index, ∃ e ∈ checkedIn c r index, e.tid = i := by
  obtain ⟨now, count, rest, trace, -⟩ := check_ended run thread finished
  have sub : [⟨.clock, .ok now⟩] ++ [⟨.redis (.incr (t.req.counter now)), .ok count⟩] <+: t.trace :=
    ⟨rest, trace.symm⟩
  obtain ⟨v, entry⟩ := run.entry_at thread sub
  refine ⟨r.index v.now, _, List.mem_filter.mpr ⟨entry, ?_⟩, rfl⟩
  simp [countsFor, thread, key, AppliedRedis, Applied]

include prompt

/-- Few of a window's checks are allowed. -/
theorem allowedIn_le (only : ∀ t ∈ c.threads, t.req.key = r.key → t.req = r)
    (vacant : ∀ index, w.redis.table (RateLimiter.counterKey r.key index) = none) (index : Int) :
    ((checkedIn c r index).filter fun e => verdict c e.tid = some true).length ≤ r.limit.toNat := by
  apply length_filter_le_of_positions
  intro i e at_ returned
  have place := verdict_place run prompt only vacant at_ (of_decide_eq_true returned)
  have early := of_decide_eq_true place.symm
  omega

end Checks

/-- The readings of one window's length are in two windows. -/
theorem RateCheck.index_or (r : RateCheck) {start now : Time} (from_ : start ≤ now)
    (before : now < start + seconds r.window) :
    r.index now = r.index start ∨ r.index now = r.index start + 1 := by
  have positive := r.seconds_pos
  have low : r.index start ≤ r.index now := Int.ediv_le_ediv positive from_
  have high : r.index now < r.index start + 2 := by
    apply Int.ediv_lt_of_lt_mul positive
    have next := r.lt_closing start
    rw [closing, Int.mul_comm] at next
    calc now < start + seconds r.window := before
      _ < (r.index start + 1) * seconds r.window + seconds r.window := Int.add_lt_add_right next _
      _ = (r.index start + 2) * seconds r.window := by
        rw [show r.index start + 2 = r.index start + 1 + 1 by omega,
          Int.add_mul (r.index start + 1), Int.one_mul]
  omega

/-- Each window allows its first `limit` checks and no others, and any interval of a window's
length at most twice as many. -/
theorem fixed_window {w : World} {c : Limiter} (run : limiter.Reaches (.start w) c)
    (prompt : Prompt c) {r : RateCheck} (nonneg : 0 ≤ r.limit)
    (only : ∀ t ∈ c.threads, t.req.key = r.key → t.req = r)
    (vacant : ∀ index, w.redis.table (RateLimiter.counterKey r.key index) = none) :
    (∀ index, ((checkedIn c r index).map (·.tid)).Nodup ∧
      ∀ (i : Nat) e allowed, (checkedIn c r index)[i]? = some e →
        verdict c e.tid = some allowed → (allowed = true ↔ (i : Int) < r.limit)) ∧
    (∀ i t allowed, c.threads[i]? = some t → t.req.key = r.key → t.prog = .ret allowed →
      ∃ index, ∃ e ∈ checkedIn c r index, e.tid = i) ∧
    ∀ start, ((allowedFrom c r start).length : Int) ≤ 2 * r.limit := by
  refine ⟨fun index => ⟨checkedIn_nodup run prompt index, ?_⟩, ?_, fun start => ?_⟩
  · intro i e allowed at_ returned
    rw [verdict_place run prompt only vacant at_ returned, decide_eq_true_iff]
  · intro i t allowed thread key finished
    exact checkedIn_of_returned run thread key finished
  · have covered : (allowedFrom c r start).length ≤
        ((checkedIn c r (r.index start)).filter fun e => verdict c e.tid = some true).length +
        ((checkedIn c r (r.index start + 1)).filter fun e =>
          verdict c e.tid = some true).length := by
      rw [checkedIn, checkedIn, List.filter_filter, List.filter_filter]
      apply length_filter_le_add
      intro e member allowed
      simp only [Bool.and_eq_true, decide_eq_true_eq] at allowed ⊢
      obtain ⟨⟨⟨counts, returned⟩, from_⟩, before⟩ := allowed
      rcases r.index_or from_ before with here | next
      · exact .inl ⟨returned, counts, here⟩
      · exact .inr ⟨returned, counts, next⟩
    have here := allowedIn_le run prompt only vacant (r.index start)
    have next := allowedIn_le run prompt only vacant (r.index start + 1)
    omega

namespace Demo

/-- A check of the demo agent's invocations, one a minute. -/
def check : RateCheck := ⟨"invoke:agent", 1, 60, by decide⟩

def tick (seconds : Nat) : Act BrokerSig RateCheck World World.Nudge :=
  .nudge (.tick (seconds * 1000000))

/-- Two checks in one window, the second of which hits the counter first, and one in the next. -/
def checks : List (Act BrokerSig RateCheck World World.Nudge) :=
  [.spawn check, .spawn check, .spawn check, tick 59, .answer 0 healthy, .answer 1 healthy,
    .answer 1 healthy, .answer 0 healthy, .answer 1 healthy, tick 1, .answer 2 healthy,
    .answer 2 healthy, .answer 2 healthy]

def isReading (now : Time) : Event BrokerSig → Bool
  | ⟨.clock, .ok read⟩ => read = now
  | _ => false

def prompt (c : Limiter) : Bool :=
  c.hist.all fun e => !e.event.op.isRedis || e.past.any (isReading e.pre.now)

theorem prompt_spec {c : Limiter} (is : prompt c = true) : Prompt c := by
  intro e member name calls
  have here := List.all_eq_true.mp is e member
  rw [calls] at here
  obtain ⟨event, member, reads⟩ := List.any_eq_true.mp here
  unfold isReading at reads
  split at reads
  · rw [← of_decide_eq_true reads]
    exact member
  · cases reads

end Demo

/-- Of three checks a second apart, the later one of the first window is refused. -/
theorem fixed_window_demo : ∃ c : Limiter,
    limiter.Reaches (.start (World.fresh Demo.midnight)) c ∧
      (c.threads.map fun t => t.trace.length) = [2, 3, 3] ∧
      verdict c 0 = some false ∧ verdict c 1 = some true ∧ verdict c 2 = some true ∧
      ((allowedFrom c Demo.check Demo.midnight).length : Int) ≤ 2 := by
  have played : (Config.play limiter (.start (World.fresh Demo.midnight)) Demo.checks).any (fun c =>
      Demo.prompt c && c.threads.all (fun t => t.req = Demo.check) &&
      (c.threads.map fun t => t.trace.length) = [2, 3, 3] &&
      verdict c 0 = some false && verdict c 1 = some true && verdict c 2 = some true) = true := by
    decide +kernel
  obtain ⟨c, at_, holds⟩ := (Option.any_eq_true _ _).mp played
  simp only [Bool.and_eq_true, decide_eq_true_eq] at holds
  obtain ⟨⟨⟨⟨⟨prompt, all⟩, lengths⟩, first⟩, second⟩, third⟩ := holds
  have run := Config.play_reaches at_
  have only : ∀ t ∈ c.threads, t.req.key = Demo.check.key → t.req = Demo.check :=
    fun t member _ => of_decide_eq_true (List.all_eq_true.mp all t member)
  exact ⟨c, run, lengths, first, second, third,
    (fixed_window run (Demo.prompt_spec prompt) (by decide) only fun index => rfl).2.2
    Demo.midnight⟩

end CredBroker
