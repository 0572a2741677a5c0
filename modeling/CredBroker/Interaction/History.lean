import Mathlib.Data.List.Nodup
import CredBroker.Interaction.Logic

/-!
# Histories

The history of a run is its traces, interleaved: every event of a trace has its
entry, every entry is an event of its program's trace, and a run may be cut in
two right before any entry.
-/

namespace Interaction

variable {S : Sig} {Req Res W Nudge : Type} {M : Machine S Req Res W Nudge}

/-- The world that an entry leaves. -/
def Machine.left (M : Machine S Req Res W Nudge) (e : Entry S W) : W :=
  M.after e.pre e.past e.event

/-- Right before entry `e`: a configuration whose program `e.tid` is about to
perform it, and which goes on to `c` once it is answered. -/
structure Machine.Before (M : Machine S Req Res W Nudge) (c₀ c : Config S Req Res W)
    (hist : List (Entry S W)) (e : Entry S W) where
  mid : Config S Req Res W
  thread : Thread S Req Res
  next : S.Ans e.event.op → Prog S Res
  reached : M.Reaches c₀ mid
  hist_eq : mid.hist = hist
  world_eq : mid.world = e.pre
  running : mid.threads[e.tid]? = some thread
  trace_eq : thread.trace = e.past
  pending : thread.prog = .call e.event.op next
  permits : M.Permits e.pre e.past e.event
  rest : M.Reaches (mid.answer M e.tid thread e.event (next e.event.ans)) c

/-- The configuration right after the entry. -/
abbrev Machine.Before.done {c₀ c : Config S Req Res W} {hist : List (Entry S W)} {e : Entry S W}
    (before : M.Before c₀ c hist e) : Config S Req Res W :=
  before.mid.answer M e.tid before.thread e.event (before.next e.event.ans)

/-- The step that answers the entry. -/
theorem Machine.Before.step {c₀ c : Config S Req Res W} {hist : List (Entry S W)} {e : Entry S W}
    (before : M.Before c₀ c hist e) : M.Step before.mid
      (before.mid.answer M e.tid before.thread e.event (before.next e.event.ans)) :=
  .answer before.running before.pending
    (by rw [before.world_eq, before.trace_eq]; exact before.permits)

/-- From right before the entry the run goes on to its end. -/
theorem Machine.Before.toEnd {c₀ c : Config S Req Res W} {hist : List (Entry S W)} {e : Entry S W}
    (before : M.Before c₀ c hist e) : M.Reaches before.mid c := .head before.step before.rest

/-- A run may be cut right before any entry it adds to the history. -/
theorem Machine.Reaches.before {c₀ c : Config S Req Res W} (run : M.Reaches c₀ c)
    {h₁ h₂ : List (Entry S W)} {e : Entry S W} (split : c.hist = c₀.hist ++ (h₁ ++ e :: h₂)) :
    Nonempty (M.Before c₀ c (c₀.hist ++ h₁) e) := by
  induction run generalizing h₂ with
  | refl =>
    have lengths := congrArg List.length split
    simp at lengths
  | @tail b c reach step ih =>
    cases step with
    | spawn r =>
      obtain ⟨before⟩ := ih split
      exact ⟨{ before with rest := before.rest.tail (.spawn r) }⟩
    | nudge n moved =>
      obtain ⟨before⟩ := ih split
      exact ⟨{ before with rest := before.rest.tail (.nudge n moved) }⟩
    | @answer i t op k a running pending permits =>
      rcases List.eq_nil_or_concat h₂ with rfl | ⟨h₂', last, rfl⟩
      · -- the entry is the one this step adds
        have split' : b.hist ++ [⟨i, b.world, t.trace, ⟨op, a⟩⟩] = (c₀.hist ++ h₁) ++ [e] := by
          simpa [Config.answer] using split
        obtain ⟨histories, entries⟩ := List.append_inj' split' rfl
        obtain rfl : (⟨i, b.world, t.trace, ⟨op, a⟩⟩ : Entry S W) = e := by simpa using entries
        exact ⟨{
          mid := b, thread := t, next := k, reached := reach, hist_eq := histories,
          world_eq := rfl, running := running, trace_eq := rfl, pending := pending,
          permits := permits, rest := .refl }⟩
      · have split' : b.hist ++ [⟨i, b.world, t.trace, ⟨op, a⟩⟩] =
            (c₀.hist ++ (h₁ ++ e :: h₂')) ++ [last] := by
          simpa [Config.answer] using split
        obtain ⟨before⟩ := ih (List.append_inj' split' rfl).1
        exact ⟨{ before with rest := before.rest.tail (.answer running pending permits) }⟩

theorem Machine.Reaches.before_entry {w : W} {c : Config S Req Res W}
    (run : M.Reaches (.start w) c) {e : Entry S W} (member : e ∈ c.hist) :
    ∃ hist, Nonempty (M.Before (.start w) c hist e) := by
  obtain ⟨h₁, h₂, split⟩ := List.append_of_mem member
  exact ⟨_, run.before (by simpa [Config.start] using split)⟩

/-- What an entry says is permitted. -/
theorem Machine.Reaches.permits {w : W} {c : Config S Req Res W} (run : M.Reaches (.start w) c)
    {e : Entry S W} (member : e ∈ c.hist) : M.Permits e.pre e.past e.event := by
  obtain ⟨h₁, h₂, split⟩ := List.append_of_mem member
  obtain ⟨before⟩ := run.before (by simpa [Config.start] using split)
  exact before.permits

/-- Every entry is an event of its program's trace. -/
theorem Machine.Reaches.owned {w : W} {c : Config S Req Res W} (run : M.Reaches (.start w) c)
    {e : Entry S W} (member : e ∈ c.hist) :
    ∃ t, c.threads[e.tid]? = some t ∧ e.past ++ [e.event] <+: t.trace := by
  obtain ⟨h₁, h₂, split⟩ := List.append_of_mem member
  obtain ⟨before⟩ := run.before (by simpa [Config.start] using split)
  have inBounds := (List.getElem?_eq_some_iff.mp before.running).1
  have answered : (before.mid.answer M e.tid before.thread e.event
      (before.next e.event.ans)).threads[e.tid]? = some
        ⟨before.thread.req, before.next e.event.ans, before.thread.trace ++ [e.event]⟩ := by
    simp [Config.answer, inBounds]
  obtain ⟨t, there, _, grown⟩ := Machine.Reaches.thread_mono before.rest answered
  exact ⟨t, there, before.trace_eq ▸ grown⟩

/-- Every event that a run adds to a trace has its entry in what the run adds to
the history. -/
theorem Machine.Reaches.recorded {c₀ c : Config S Req Res W} (run : M.Reaches c₀ c) {i : Nat}
    {t : Thread S Req Res} (thread : c.threads[i]? = some t) {pre post : Trace S} {ev : Event S}
    (cut : t.trace = pre ++ ev :: post)
    (later : ∀ t₀, c₀.threads[i]? = some t₀ → t₀.trace.length ≤ pre.length) :
    ∃ h₁ h₂ w, c.hist = c₀.hist ++ (h₁ ++ ⟨i, w, pre, ev⟩ :: h₂) := by
  induction run generalizing t post with
  | refl =>
    have short := later t thread
    rw [cut, List.length_append, List.length_cons] at short
    omega
  | @tail b c reach step ih =>
    cases step with
    | nudge n moved => exact ih thread cut
    | spawn r =>
      by_cases started : i < b.threads.length
      · rw [Config.spawn, List.getElem?_append_left started] at thread
        exact ih thread cut
      · have fresh : t.trace = [] := by
          rw [Config.spawn, List.getElem?_append_right (Nat.not_lt.mp started)] at thread
          have member := List.mem_of_getElem? thread
          rw [List.mem_singleton.mp member]
        rw [fresh] at cut
        simp at cut
    | @answer j u op k a running pending permits =>
      by_cases same : j = i
      · subst same
        have inBounds := (List.getElem?_eq_some_iff.mp running).1
        obtain rfl : (⟨u.req, k a, u.trace ++ [⟨op, a⟩]⟩ : Thread S Req Res) = t := by
          simpa [Config.answer, inBounds] using thread
        rcases List.eq_nil_or_concat post with rfl | ⟨post', last, rfl⟩
        · -- the event is the one this step adds
          obtain ⟨traces, events⟩ :=
            List.append_inj' (show u.trace ++ [⟨op, a⟩] = pre ++ [ev] from cut) rfl
          obtain rfl : (⟨op, a⟩ : Event S) = ev := by simpa using events
          obtain ⟨added, grown⟩ := Machine.Reaches.hist_mono reach
          exact ⟨added, [], b.world, by simp [Config.answer, ← grown, ← traces]⟩
        · have cut' : u.trace = pre ++ ev :: post' :=
            (List.append_inj' (show u.trace ++ [⟨op, a⟩] = (pre ++ ev :: post') ++ [last] by
              simpa using cut) rfl).1
          obtain ⟨h₁, h₂, w, split⟩ := ih running cut'
          exact ⟨h₁, h₂ ++ [⟨j, b.world, u.trace, ⟨op, a⟩⟩], w, by simp [Config.answer, split]⟩
      · rw [Config.answer, List.getElem?_set_ne same] at thread
        obtain ⟨h₁, h₂, w, split⟩ := ih thread cut
        exact ⟨h₁, h₂ ++ [⟨j, b.world, u.trace, ⟨op, a⟩⟩], w, by simp [Config.answer, split]⟩

/-- On a run from the start every event has its entry. -/
theorem Machine.Reaches.entry_at {w : W} {c : Config S Req Res W} (run : M.Reaches (.start w) c)
    {i : Nat} {t : Thread S Req Res} (thread : c.threads[i]? = some t) {pre : Trace S}
    {ev : Event S} (sub : pre ++ [ev] <+: t.trace) :
    ∃ v, (⟨i, v, pre, ev⟩ : Entry S W) ∈ c.hist := by
  obtain ⟨post, cut⟩ := sub
  obtain ⟨h₁, h₂, v, split⟩ :=
    run.recorded thread (cut.symm.trans (List.append_cons _ _ _).symm) (by simp [Config.start])
  exact ⟨v, by simp [split]⟩

/-- Before every entry its program met the guard it started under. -/
theorem Machine.Reaches.guarded {role : Role S} {Q : Post S Res} {w : W} {c : Config S Req Res W}
    (run : M.Reaches (.start w) c) {e : Entry S W} (member : e ∈ c.hist)
    {t : Thread S Req Res} (thread : c.threads[e.tid]? = some t)
    (entry : wp M role (M.entry t.req) Q []) (met : role.Met t.trace) :
    role.Guard e.past e.event.op := by
  obtain ⟨h₁, h₂, split⟩ := List.append_of_mem member
  obtain ⟨before⟩ := run.before (by simpa [Config.start] using split)
  obtain ⟨u, there, req, grown⟩ := Machine.Reaches.thread_mono before.toEnd before.running
  obtain rfl := Option.some.inj (there.symm.trans thread)
  have under := Machine.Reaches.under_start before.reached before.running (req ▸ entry)
    fun pre ev sub => met pre ev (sub.trans grown)
  rw [before.pending, before.trace_eq] at under
  exact under.1

/-- And so did every event of its trace. -/
theorem Machine.Reaches.kept {role : Role S} {Q : Post S Res} {w : W} {c : Config S Req Res W}
    (run : M.Reaches (.start w) c) {i : Nat} {t : Thread S Req Res}
    (thread : c.threads[i]? = some t) (entry : wp M role (M.entry t.req) Q [])
    (met : role.Met t.trace) {pre : Trace S} {ev : Event S} (sub : pre ++ [ev] <+: t.trace) :
    role.Guard pre ev.op := by
  obtain ⟨post, cut⟩ := sub
  obtain ⟨h₁, h₂, w', split⟩ := run.recorded thread (cut.symm.trans (List.append_cons _ _ _).symm)
    (by simp [Config.start])
  have member : (⟨i, w', pre, ev⟩ : Entry S W) ∈ c.hist := by simp [split]
  exact run.guarded member thread entry met

/-- No two entries are one event: a program has performed each of its events once. -/
theorem Machine.Reaches.entry_nodup {w : W} {c : Config S Req Res W}
    (run : M.Reaches (.start w) c) : (c.hist.map fun e => (e.tid, e.past.length)).Nodup := by
  induction run with
  | refl => exact List.nodup_nil
  | @tail b c before step ih =>
    cases step with
    | spawn r => exact ih
    | nudge n moved => exact ih
    | @answer i t op k a running pending permits =>
      rw [Config.answer, List.map_append, List.map_singleton, List.nodup_append]
      refine ⟨ih, by simp, ?_⟩
      rintro place earlier place' last rfl
      obtain ⟨e, member, same⟩ := List.mem_map.mp earlier
      rw [List.mem_singleton.mp last, Prod.mk.injEq] at same
      obtain ⟨owner, length⟩ : e.tid = i ∧ e.past.length = t.trace.length := same
      obtain ⟨u, thread, sub⟩ := Machine.Reaches.owned before member
      rw [owner, running] at thread
      obtain rfl := Option.some.inj thread
      have shorter := sub.length_le
      rw [List.length_append, List.length_singleton] at shorter
      omega

theorem Machine.Reaches.hist_nodup {w : W} {c : Config S Req Res W}
    (run : M.Reaches (.start w) c) : c.hist.Nodup := .of_map _ run.entry_nodup

/-- An event that precedes an entry in its program precedes it in the history. -/
theorem Machine.Reaches.precedes {w : W} {c : Config S Req Res W} (run : M.Reaches (.start w) c)
    {h rest : List (Entry S W)} {e : Entry S W} (cut : c.hist = h ++ e :: rest) {pre : Trace S}
    {ev : Event S} (sub : pre ++ [ev] <+: e.past) :
    ∃ v : W, (⟨e.tid, v, pre, ev⟩ : Entry S W) ∈ h := by
  obtain ⟨before⟩ := run.before (by simpa [Config.start] using cut)
  obtain ⟨post, split⟩ := sub
  have split : before.thread.trace = pre ++ ev :: post := by rw [before.trace_eq, ← split]; simp
  obtain ⟨h₁, h₂, v, hist⟩ := before.reached.recorded before.running split (by simp [Config.start])
  have earlier : h = h₁ ++ ⟨e.tid, v, pre, ev⟩ :: h₂ := by
    have same := before.hist_eq.symm.trans hist
    simpa [Config.start] using same
  exact ⟨v, by simp [earlier]⟩

/-! ## The order of a history -/

/-- One entry comes before another. -/
def Precedes (hist : List (Entry S W)) (e e' : Entry S W) : Prop :=
  ∃ h rest, hist = h ++ e' :: rest ∧ e ∈ h

section Order

variable {hist h rest : List (Entry S W)} {e e' e'' : Entry S W}

theorem Precedes.mem_left (precedes : Precedes hist e e') : e ∈ hist := by
  obtain ⟨h, rest, rfl, member⟩ := precedes
  exact List.mem_append_left _ member

theorem Precedes.mem_right (precedes : Precedes hist e e') : e' ∈ hist := by
  obtain ⟨h, rest, rfl, -⟩ := precedes
  simp

theorem Precedes.mono {hist' : List (Entry S W)} (precedes : Precedes hist e e')
    (grown : hist <+: hist') : Precedes hist' e e' := by
  obtain ⟨h, rest, rfl, member⟩ := precedes
  obtain ⟨more, rfl⟩ := grown
  exact ⟨h, rest ++ more, by simp, member⟩

/-- Where entries are unique, what comes before one is what its history has. -/
theorem precedes_iff (unique : hist.Nodup) (cut : hist = h ++ e' :: rest) :
    Precedes hist e e' ↔ e ∈ h := by
  refine ⟨fun ⟨h', rest', cut', member⟩ => ?_, fun member => ⟨h, rest, cut, member⟩⟩
  subst cut
  have once : e' ∉ rest := (List.nodup_cons.mp (List.nodup_append.mp unique).2.1).1
  rcases List.append_eq_append_iff.mp cut' with ⟨mid, rfl, tail⟩ | ⟨mid, rfl, tail⟩
  · cases mid with
    | nil => simpa using member
    | cons x mid =>
      obtain ⟨rfl, rfl⟩ : e' = x ∧ rest = mid ++ e' :: rest' := by simpa using tail
      exact (once (by simp)).elim
  · exact List.mem_append_left _ member

theorem Precedes.irrefl (unique : hist.Nodup) : ¬ Precedes hist e e := by
  rintro ⟨h, rest, rfl, member⟩
  exact (List.nodup_append.mp unique).2.2 e member e (List.mem_cons_self ..) rfl

theorem Precedes.trans (unique : hist.Nodup) (first : Precedes hist e e')
    (second : Precedes hist e' e'') : Precedes hist e e'' := by
  obtain ⟨h, rest, cut, member⟩ := second
  obtain ⟨k, k', rfl⟩ := List.append_of_mem member
  have earlier : e ∈ k :=
    (precedes_iff unique (show hist = k ++ e' :: (k' ++ e'' :: rest) by simp [cut])).mp first
  exact ⟨_, rest, cut, List.mem_append_left _ earlier⟩

theorem Precedes.total (member : e ∈ hist) (member' : e' ∈ hist) :
    e = e' ∨ Precedes hist e e' ∨ Precedes hist e' e := by
  obtain ⟨h, rest, cut⟩ := List.append_of_mem member'
  rw [cut, List.mem_append, List.mem_cons] at member
  rcases member with before | rfl | after
  · exact .inr (.inl ⟨h, rest, cut, before⟩)
  · exact .inl rfl
  · obtain ⟨k, k', rfl⟩ := List.append_of_mem after
    exact .inr (.inr ⟨h ++ e' :: k, k', by simp [cut], by simp⟩)

end Order

/-- An entry is found by its program and its place in that program's trace. -/
theorem Machine.Reaches.entry_unique {w : W} {c : Config S Req Res W}
    (run : M.Reaches (.start w) c) {e e' : Entry S W} (member : e ∈ c.hist)
    (member' : e' ∈ c.hist) (tid : e.tid = e'.tid) (past : e.past.length = e'.past.length) :
    e = e' :=
  List.inj_on_of_nodup_map run.entry_nodup member member' (Prod.ext tid past)

/-- Entries of one program come in the order of its trace. -/
theorem Machine.Reaches.precedes_of_past {w : W} {c : Config S Req Res W}
    (run : M.Reaches (.start w) c) {e e' : Entry S W} (member : e ∈ c.hist)
    (member' : e' ∈ c.hist) (tid : e.tid = e'.tid) (sub : e.past ++ [e.event] <+: e'.past) :
    Precedes c.hist e e' := by
  obtain ⟨h, rest, cut⟩ := List.append_of_mem member'
  obtain ⟨v, there⟩ := run.precedes cut sub
  have same : e = ⟨e'.tid, v, e.past, e.event⟩ :=
    run.entry_unique member (by rw [cut]; exact List.mem_append_left _ there) tid rfl
  exact ⟨h, rest, cut, same ▸ there⟩

/-- And only in that order. -/
theorem Machine.Reaches.past_of_precedes {w : W} {c : Config S Req Res W}
    (run : M.Reaches (.start w) c) {e e' : Entry S W} (precedes : Precedes c.hist e e')
    (tid : e.tid = e'.tid) : e.past ++ [e.event] <+: e'.past := by
  obtain ⟨t, thread, sub⟩ := run.owned precedes.mem_left
  obtain ⟨t', thread', sub'⟩ := run.owned precedes.mem_right
  obtain rfl : t = t' := by
    rw [tid, thread'] at thread
    exact (Option.some.inj thread).symm
  rcases Nat.lt_trichotomy e.past.length e'.past.length with shorter | same | longer
  · refine List.prefix_of_prefix_length_le sub ((List.prefix_append _ _).trans sub') ?_
    rw [List.length_append, List.length_singleton]
    omega
  · obtain rfl := run.entry_unique precedes.mem_left precedes.mem_right tid same
    exact (Precedes.irrefl run.hist_nodup precedes).elim
  · have back : e'.past ++ [e'.event] <+: e.past := by
      refine List.prefix_of_prefix_length_le sub' ((List.prefix_append _ _).trans sub) ?_
      rw [List.length_append, List.length_singleton]
      omega
    have behind := run.precedes_of_past precedes.mem_right precedes.mem_left tid.symm back
    exact (Precedes.irrefl run.hist_nodup (precedes.trans run.hist_nodup behind)).elim

/-! ## One program's part of a history -/

/-- The events of a trace after `past`, each with all that came before it. -/
def Trace.steps (past : Trace S) : Trace S → List (Trace S × Event S)
  | [] => []
  | e :: tr => (past, e) :: Trace.steps (past ++ [e]) tr

theorem Trace.steps_append (past tr tr' : Trace S) :
    Trace.steps past (tr ++ tr') = Trace.steps past tr ++ Trace.steps (past ++ tr) tr' := by
  induction tr generalizing past with
  | nil => simp [Trace.steps]
  | cons e tr ih => simp [Trace.steps, ih]

theorem Trace.mem_steps {past tr pre : Trace S} {e : Event S}
    (member : (pre, e) ∈ Trace.steps past tr) :
    ∃ mid, pre = past ++ mid ∧ mid ++ [e] <+: tr := by
  induction tr generalizing past with
  | nil => simp [Trace.steps] at member
  | cons e' tr ih =>
    simp only [Trace.steps, List.mem_cons, Prod.mk.injEq] at member
    rcases member with ⟨rfl, rfl⟩ | member
    · exact ⟨[], by simp, by simp⟩
    · obtain ⟨mid, rfl, sub⟩ := ih member
      exact ⟨e' :: mid, by simp, by simpa using sub⟩

/-- What a program performed, as the entries of a history have it. -/
def performedBy (i : Nat) (hist : List (Entry S W)) : List (Trace S × Event S) :=
  (hist.filter (·.tid = i)).map fun e => (e.past, e.event)

/-- The entries of a program are the events of its trace, in their order. -/
theorem Machine.Reaches.performed {w : W} {c : Config S Req Res W}
    (run : M.Reaches (.start w) c) {i : Nat} {t : Thread S Req Res}
    (thread : c.threads[i]? = some t) : performedBy i c.hist = Trace.steps [] t.trace := by
  suffices key : ∀ i, performedBy i c.hist =
      Trace.steps [] ((c.threads[i]?.map (·.trace)).getD []) by
    simpa [thread] using key i
  clear thread
  induction run with
  | refl => simp [performedBy, Config.start, Trace.steps]
  | @tail b c before step ih =>
    intro i
    cases step with
    | nudge n moved => exact ih i
    | spawn r =>
      rw [Config.spawn, ih i]
      rcases Nat.lt_trichotomy i b.threads.length with small | rfl | big
      · simp [List.getElem?_append_left small]
      · simp
      · have beyond : (b.threads ++ [(⟨r, M.entry r, []⟩ : Thread S Req Res)]).length ≤ i := by
          simp only [List.length_append, List.length_singleton]
          omega
        rw [List.getElem?_eq_none (Nat.le_of_lt big), List.getElem?_eq_none beyond]
    | @answer j u op k a running pending permits =>
      have inBounds := (List.getElem?_eq_some_iff.mp running).1
      have old := ih i
      by_cases same : j = i
      · subst same
        rw [running] at old
        simp only [performedBy, Config.answer, List.filter_append, List.map_append] at old ⊢
        rw [old]
        simp [inBounds, Trace.steps_append, Trace.steps]
      · simp only [performedBy, Config.answer, List.filter_append, List.map_append] at old ⊢
        rw [old]
        simp [same, List.getElem?_set_ne same]

end Interaction
