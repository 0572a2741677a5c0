import CredBroker.Interaction.Prog

/-!
# Pools of interaction programs

A `Machine` says which program serves a request, which answers the shared world
permits, what each answer does to the world, and how the world moves by itself.
A `Config` is a world, the programs started so far, and the history of every
operation answered; `Step` starts a program, answers the pending operation of
one of them, or moves the world. All interleavings are paths of `Step`.

`Config.play` runs a script of such steps, and `Config.play_reaches` places its
result on a path.
-/

namespace Interaction

/-- How requests are served over a shared world of type `W`. A program's own
past answers are at hand where its operations are permitted and carried out, so
state private to it (an open transaction) is a function of its trace. -/
structure Machine (S : Sig) (Req Res W Nudge : Type) where
  entry : Req → Prog S Res
  Permits : W → Trace S → Event S → Prop
  after : W → Trace S → Event S → W
  nudge : Nudge → W → Option W

/-- One served or running request. -/
structure Thread (S : Sig) (Req Res : Type) where
  req : Req
  prog : Prog S Res
  trace : Trace S

/-- One answered operation: who performed it, the world it found, the events of
its program before it, and the operation with its answer. -/
structure Entry (S : Sig) (W : Type) where
  tid : Nat
  pre : W
  past : Trace S
  event : Event S

structure Config (S : Sig) (Req Res W : Type) where
  world : W
  hist : List (Entry S W)
  threads : List (Thread S Req Res)

variable {S : Sig} {Req Res W Nudge : Type} (M : Machine S Req Res W Nudge)

namespace Config

variable (c : Config S Req Res W)

/-- No request yet. -/
def start (w : W) : Config S Req Res W := ⟨w, [], []⟩

def spawn (r : Req) : Config S Req Res W :=
  { c with threads := c.threads ++ [⟨r, M.entry r, []⟩] }

/-- Thread `i`, which is `t`, gets `event` and goes on with `prog`. -/
def answer (i : Nat) (t : Thread S Req Res) (event : Event S) (prog : Prog S Res) :
    Config S Req Res W where
  world := M.after c.world t.trace event
  hist := c.hist ++ [⟨i, c.world, t.trace, event⟩]
  threads := c.threads.set i ⟨t.req, prog, t.trace ++ [event]⟩

end Config

/-- One step of a pool. -/
inductive Machine.Step : Config S Req Res W → Config S Req Res W → Prop
  | spawn {c} (r : Req) : Machine.Step c (c.spawn M r)
  | answer {c i t e k} {a : S.Ans e} (thread : c.threads[i]? = some t)
      (pending : t.prog = .call e k) (permits : M.Permits c.world t.trace ⟨e, a⟩) :
      Machine.Step c (c.answer M i t ⟨e, a⟩ (k a))
  | nudge {c} (n : Nudge) {w : W} (moved : M.nudge n c.world = some w) :
      Machine.Step c { c with world := w }

/-- Runs of a pool. -/
abbrev Machine.Reaches : Config S Req Res W → Config S Req Res W → Prop :=
  Relation.ReflTransGen M.Step

variable {M}

namespace Config

variable {c : Config S Req Res W} {j k : Nat}

/-- A thread that is answered is found in its place. -/
theorem answer_self (M : Machine S Req Res W Nudge) {t : Thread S Req Res}
    (thread : c.threads[j]? = some t) (event : Event S) (next : Prog S Res) :
    (c.answer M j t event next).threads[j]? = some ⟨t.req, next, t.trace ++ [event]⟩ := by
  have inBounds := (List.getElem?_eq_some_iff.mp thread).1
  simp [Config.answer, inBounds]

theorem answer_other (M : Machine S Req Res W Nudge) (other : j ≠ k) (t : Thread S Req Res)
    (event : Event S) (next : Prog S Res) :
    (c.answer M j t event next).threads[k]? = c.threads[k]? := by
  simp [Config.answer, List.getElem?_set_ne other]

end Config

/-! ## What a run keeps -/

/-- A thread stays in its place, keeps its request and only adds events. -/
theorem Machine.Step.thread_mono {c c' : Config S Req Res W} (step : M.Step c c') {i : Nat}
    {t : Thread S Req Res} (thread : c.threads[i]? = some t) :
    ∃ t', c'.threads[i]? = some t' ∧ t'.req = t.req ∧ t.trace <+: t'.trace := by
  cases step with
  | spawn r =>
    have inBounds := (List.getElem?_eq_some_iff.mp thread).1
    exact ⟨t, by simpa [Config.spawn, List.getElem?_append_left inBounds] using thread, rfl,
      List.prefix_rfl⟩
  | @answer j u e k a running pending permits =>
    by_cases same : j = i
    · subst same
      obtain rfl := Option.some.inj (running.symm.trans thread)
      have inBounds := (List.getElem?_eq_some_iff.mp thread).1
      exact ⟨⟨u.req, k a, u.trace ++ [⟨e, a⟩]⟩, by simp [Config.answer, inBounds], rfl,
        List.prefix_append _ _⟩
    · exact ⟨t, by simpa [Config.answer, List.getElem?_set_ne same] using thread, rfl,
        List.prefix_rfl⟩
  | nudge n moved => exact ⟨t, thread, rfl, List.prefix_rfl⟩

/-- Along a run a thread keeps its request and adds to its trace. -/
theorem Machine.Reaches.thread_mono {c c' : Config S Req Res W} (run : M.Reaches c c')
    {i : Nat} {t : Thread S Req Res} (thread : c.threads[i]? = some t) :
    ∃ t', c'.threads[i]? = some t' ∧ t'.req = t.req ∧ t.trace <+: t'.trace := by
  induction run with
  | refl => exact ⟨t, thread, rfl, List.prefix_rfl⟩
  | tail _ step ih =>
    obtain ⟨u, there, req, grown⟩ := ih
    obtain ⟨t', there', req', grown'⟩ := step.thread_mono there
    exact ⟨t', there', req'.trans req, grown.trans grown'⟩

theorem Machine.Step.hist_mono {c c' : Config S Req Res W} (step : M.Step c c') :
    c.hist <+: c'.hist := by
  cases step with
  | spawn r => exact List.prefix_rfl
  | answer thread pending permits => exact List.prefix_append _ _
  | nudge n moved => exact List.prefix_rfl

theorem Machine.Reaches.hist_mono {c c' : Config S Req Res W} (run : M.Reaches c c') :
    c.hist <+: c'.hist := by
  induction run with
  | refl => exact List.prefix_rfl
  | tail _ step ih => exact ih.trans step.hist_mono

/-- A thread that is not there yet is started later on the run. -/
theorem Machine.Reaches.spawned {c c' : Config S Req Res W} (run : M.Reaches c c') {i : Nat}
    {t' : Thread S Req Res} (later : c.threads.length ≤ i) (thread : c'.threads[i]? = some t') :
    ∃ mid, M.Reaches c mid ∧ M.Reaches mid c' ∧
      mid.threads[i]? = some ⟨t'.req, M.entry t'.req, []⟩ := by
  induction run generalizing t' with
  | refl =>
    have inBounds := (List.getElem?_eq_some_iff.mp thread).1
    exact absurd inBounds (Nat.not_lt.mpr later)
  | @tail b c' before step ih =>
    by_cases started : i < b.threads.length
    · obtain ⟨u, there⟩ : ∃ u, b.threads[i]? = some u := ⟨_, List.getElem?_eq_getElem started⟩
      obtain ⟨mid, first, last, fresh⟩ := ih there
      obtain ⟨v, there', req, _⟩ := step.thread_mono there
      obtain rfl := Option.some.inj (there'.symm.trans thread)
      exact ⟨mid, first, last.tail step, req ▸ fresh⟩
    · cases step with
      | spawn r =>
        have atEnd : i = b.threads.length := by
          have inBounds := (List.getElem?_eq_some_iff.mp thread).1
          simp only [Config.spawn, List.length_append, List.length_singleton] at inBounds
          omega
        subst atEnd
        have fresh : t' = ⟨r, M.entry r, []⟩ := by
          simpa [Config.spawn] using thread.symm
        subst fresh
        exact ⟨_, before.tail (.spawn r), .refl, thread⟩
      | answer running pending permits =>
        have inBounds := (List.getElem?_eq_some_iff.mp thread).1
        simp only [Config.answer, List.length_set] at inBounds
        exact absurd inBounds started
      | nudge n moved =>
        exact absurd (List.getElem?_eq_some_iff.mp thread).1 started

/-! ## Scripts -/

/-- One scripted step; the answer to an operation may look at the world. -/
inductive Act (S : Sig) (Req W Nudge : Type)
  | spawn (r : Req)
  | answer (i : Nat) (reply : W → Trace S → (e : S.Op) → S.Ans e)
  | nudge (n : Nudge)

variable [decide : ∀ w tr e, Decidable (M.Permits w tr e)]

variable (M) in
/-- Carry out one scripted step, if it is a step of the pool. -/
def Config.act (c : Config S Req Res W) : Act S Req W Nudge → Option (Config S Req Res W)
  | .spawn r => some (c.spawn M r)
  | .answer i reply =>
    match c.threads[i]? with
    | none => none
    | some t =>
      match t.prog with
      | .call e k =>
        if M.Permits c.world t.trace ⟨e, reply c.world t.trace e⟩ then
          some (c.answer M i t ⟨e, reply c.world t.trace e⟩ (k (reply c.world t.trace e)))
        else none
      | _ => none
  | .nudge n => (M.nudge n c.world).map fun w => { c with world := w }

variable (M) in
/-- Carry out a script. -/
def Config.play (c : Config S Req Res W) : List (Act S Req W Nudge) →
    Option (Config S Req Res W)
  | [] => some c
  | a :: acts =>
    match c.act M a with
    | none => none
    | some c' => c'.play acts

theorem Config.act_step {c c' : Config S Req Res W} {a : Act S Req W Nudge}
    (acted : c.act M a = some c') : M.Step c c' := by
  cases a with
  | spawn r =>
    obtain rfl := Option.some.inj acted
    exact .spawn r
  | answer i reply =>
    simp only [Config.act] at acted
    split at acted
    · cases acted
    · rename_i t thread
      split at acted
      · rename_i e k pending
        split at acted
        · rename_i permits
          obtain rfl := Option.some.inj acted
          exact .answer thread pending permits
        · cases acted
      · cases acted
  | nudge n =>
    simp only [Config.act, Option.map_eq_some_iff] at acted
    obtain ⟨w, moved, rfl⟩ := acted
    exact .nudge n moved

/-- What a script of acts comes to is reached by a run. -/
theorem Config.play_reaches {acts : List (Act S Req W Nudge)} {c c' : Config S Req Res W}
    (played : c.play M acts = some c') : M.Reaches c c' := by
  induction acts generalizing c with
  | nil =>
    obtain rfl := Option.some.inj played
    exact .refl
  | cons a acts ih =>
    simp only [Config.play] at played
    split at played
    · cases played
    · rename_i d acted
      exact .head (Config.act_step acted) (ih played)

end Interaction
