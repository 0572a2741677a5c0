import CredBroker.Interaction.Logic

/-!
# A layer in front of a machine

A front takes calls. It turns a call away by a program of its own, or passes a request
on and makes a reply of how that ends. Where what the front does by itself leaves the
world alone, every run of the front is a run of the machine behind it, in which each
call that was passed on has a request of its own, and no other request is served.
-/

namespace Interaction

variable {S : Sig} {Call Reply Req Res W Nudge : Type}

/-! ## What is left of a program -/

/-- `q` is left of `p` after some of its operations were answered. -/
inductive Prog.Left {α : Type} : Prog S α → Prog S α → Prop
  | refl (p : Prog S α) : Left p p
  | call {e : S.Op} {k : S.Ans e → Prog S α} {q : Prog S α} (a : S.Ans e) (rest : Left (k a) q) :
      Left (.call e k) q

namespace Prog.Left

variable {α : Type} {p q : Prog S α}

theorem answer {e : S.Op} {k : S.Ans e → Prog S α} (left : p.Left (.call e k)) (a : S.Ans e) :
    p.Left (k a) := by
  generalize same : Prog.call e k = q at left
  induction left with
  | refl p =>
    subst same
    exact .call a (.refl _)
  | call b rest ih => exact .call b (ih same)

theorem uses {P : S.Op → Prop} (left : p.Left q) (uses : p.Uses P) : q.Uses P := by
  induction left with
  | refl p => exact uses
  | call a rest ih => exact ih (uses.2 a)

theorem returns {R : α → Prop} (left : p.Left q) (returns : p.Returns R) : q.Returns R := by
  induction left with
  | refl p => exact returns
  | call a rest ih => exact ih (returns a)

end Prog.Left

/-! ## How a layer nests -/

namespace Prog

variable {α β γ : Type} (p : Prog S α)

/-- A handler around a program that goes on from the end of another one handles each of its
ways on by itself. -/
theorem attempt_bind_attempt (f : Except S.Exn α → Prog S β) (h : Except S.Exn β → Prog S γ) :
    ((p.attempt >>= f).attempt >>= h) = p.attempt >>= fun ended => (f ended).attempt >>= h := by
  induction p with
  | ret a | throw x => rfl
  | call e k ih => exact congrArg (Prog.call e) (funext fun a => ih a)

theorem map_attempt_bind (g : α → β) (f : Except S.Exn β → Prog S γ) :
    ((g <$> p).attempt >>= f) = p.attempt >>= fun ended => f (ended.map g) := by
  induction p with
  | ret a | throw x => rfl
  | call e k ih => exact congrArg (Prog.call e) (funext fun a => ih a)

end Prog

/-! ## Fronts -/

structure Front (S : Sig) (Call Reply Req Res : Type) where
  /-- A call is turned away by a program, or passed on as a request. -/
  route : Call → Except (Prog S Reply) Req
  /-- What is made of the end of the request. -/
  finish : Call → Except S.Exn Res → Prog S Reply

namespace Front

variable (front : Front S Call Reply Req Res) (M : Machine S Req Res W Nudge)

def entry (call : Call) : Prog S Reply :=
  match front.route call with
  | .error p => p
  | .ok r => (M.entry r).attempt >>= front.finish call

/-- The machine with the front before it. -/
def machine : Machine S Call Reply W Nudge where
  entry := front.entry M
  Permits := M.Permits
  after := M.after
  nudge := M.nudge

/-- What the front performs by itself leaves the world alone. -/
structure Silent (P : S.Op → Prop) : Prop where
  route : ∀ call p, front.route call = .error p → p.Uses P
  finish : ∀ call ended, (front.finish call ended).Uses P
  still : ∀ w tr e a, P e → M.after w tr ⟨e, a⟩ = w

/-- A call that was turned away. -/
def Turned (t : Thread S Call Reply) : Prop :=
  ∃ p, front.route t.req = .error p ∧ p.Left t.prog

/-- A call that was passed on as the request of `u`: that request is going on, or is over
and the front makes its reply. -/
inductive Served (t : Thread S Call Reply) (u : Thread S Req Res) : Prop
  | running (route : front.route t.req = .ok u.req)
      (prog : t.prog = u.prog.attempt >>= front.finish t.req) (trace : t.trace = u.trace)
  | finishing (ended : Except S.Exn Res) (route : front.route t.req = .ok u.req)
      (halted : u.prog = .ofExcept ended) (left : (front.finish t.req ended).Left t.prog)
      (trace : u.trace <+: t.trace)

/-- `b` is behind `g`: it has the same world, and a thread for each call that was passed on. -/
structure Behind (g : Config S Call Reply W) (b : Config S Req Res W) (place : Nat → Option Nat) :
    Prop where
  world : b.world = g.world
  threads : ∀ i t, g.threads[i]? = some t → (place i = none ∧ front.Turned t) ∨
    ∃ j u, place i = some j ∧ b.threads[j]? = some u ∧ front.Served t u
  inj : ∀ i i' j, place i = some j → place i' = some j → i = i'
  onto : ∀ j u, b.threads[j]? = some u → ∃ i t, place i = some j ∧ g.threads[i]? = some t

variable {front M} {P : S.Op → Prop} {g g' : Config S Call Reply W} {b : Config S Req Res W}
  {place : Nat → Option Nat}

/-- A call that is over: it was turned away, or its reply is what the front makes of the end
of its request. -/
theorem Served.reply {t : Thread S Call Reply} {u : Thread S Req Res} (served : front.Served t u)
    {reply : Reply} (halted : t.prog = .ret reply) :
    ∃ ended, u.prog = .ofExcept ended ∧ (front.finish t.req ended).Left (.ret reply) := by
  cases served with
  | running route prog trace =>
    rw [halted] at prog
    cases behind : u.prog with
    | ret v =>
      rw [behind] at prog
      refine ⟨.ok v, rfl, ?_⟩
      have made : Prog.ret reply = front.finish t.req (.ok v) := prog
      rw [← made]
      exact .refl _
    | throw x =>
      rw [behind] at prog
      refine ⟨.error x, rfl, ?_⟩
      have made : Prog.ret reply = front.finish t.req (.error x) := prog
      rw [← made]
      exact .refl _
    | call e k =>
      rw [behind] at prog
      cases prog
  | finishing ended route behind left trace => exact ⟨ended, behind, halted ▸ left⟩

/-! ## The simulation -/

/-- A new call is turned away, or starts a request. -/
theorem Behind.spawn (behind : front.Behind g b place) (call : Call) :
    ∃ b' place', M.Reaches b b' ∧ front.Behind (g.spawn (front.machine M) call) b' place' := by
  have old : ∀ {i : Nat} {t : Thread S Call Reply},
      (g.spawn (front.machine M) call).threads[i]? = some t → g.threads[i]? = some t ∨
        (i = g.threads.length ∧ t = ⟨call, front.entry M call, []⟩) := by
    intro i t there
    rw [Config.spawn, List.getElem?_append] at there
    split at there
    · exact .inl there
    · rename_i beyond
      have found := List.getElem?_eq_some_iff.mp there
      have bound := found.1
      simp only [List.length_singleton] at bound
      exact .inr ⟨by omega, by simpa [machine] using found.2.symm⟩
  have kept : ∀ {i : Nat} {t : Thread S Call Reply}, g.threads[i]? = some t →
      (g.spawn (front.machine M) call).threads[i]? = some t := by
    intro i t there
    rw [Config.spawn, List.getElem?_append_left (List.getElem?_eq_some_iff.mp there).1, there]
  cases route : front.route call with
  | error p =>
    refine ⟨b, fun i => if i = g.threads.length then none else place i, .refl,
      behind.world, ?_, ?_, ?_⟩
    · intro i t there
      rcases old there with there | ⟨rfl, rfl⟩
      · have bound := (List.getElem?_eq_some_iff.mp there).1
        rw [if_neg (Nat.ne_of_lt bound)]
        exact behind.threads i t there
      · refine .inl ⟨if_pos rfl, p, route, ?_⟩
        have made : front.entry M call = p := by rw [entry, route]
        rw [made]
        exact .refl p
    · intro i i' j at_ at_'
      split at at_
      · cases at_
      · split at at_'
        · cases at_'
        · exact behind.inj i i' j at_ at_'
    · intro j u there
      obtain ⟨i, t, at_, thread⟩ := behind.onto j u there
      have bound := (List.getElem?_eq_some_iff.mp thread).1
      exact ⟨i, t, by rw [if_neg (Nat.ne_of_lt bound)]; exact at_, kept thread⟩
  | ok r =>
    have fresh : (b.spawn M r).threads[b.threads.length]? = some ⟨r, M.entry r, []⟩ := by
      simp [Config.spawn]
    have stays : ∀ {j : Nat} {u : Thread S Req Res}, b.threads[j]? = some u →
        (b.spawn M r).threads[j]? = some u := by
      intro j u there
      rw [Config.spawn, List.getElem?_append_left (List.getElem?_eq_some_iff.mp there).1, there]
    refine ⟨b.spawn M r, fun i => if i = g.threads.length then some b.threads.length else
      if i < g.threads.length then place i else none, .single (.spawn r), behind.world, ?_, ?_, ?_⟩
    · intro i t there
      rcases old there with there | ⟨rfl, rfl⟩
      · have bound := (List.getElem?_eq_some_iff.mp there).1
        rw [if_neg (Nat.ne_of_lt bound), if_pos bound]
        rcases behind.threads i t there with turned | ⟨j, u, at_, thread, served⟩
        · exact .inl turned
        · exact .inr ⟨j, u, at_, stays thread, served⟩
      · refine .inr ⟨_, _, if_pos rfl, fresh, .running route ?_ rfl⟩
        show front.entry M call = _
        rw [entry, route]
    · -- the new request is behind the new call only
      have earlier : ∀ i j, i < g.threads.length → place i = some j → j < b.threads.length := by
        intro i j bound at_
        rcases behind.threads i _ (List.getElem?_eq_getElem bound) with
          ⟨none, -⟩ | ⟨j', u, at_', thread, -⟩
        · rw [at_] at none
          cases none
        · obtain rfl := Option.some.inj (at_.symm.trans at_')
          exact (List.getElem?_eq_some_iff.mp thread).1
      intro i i' j at_ at_'
      split at at_
      · rename_i here
        obtain rfl := Option.some.inj at_
        split at at_'
        · rename_i here'
          exact here.trans here'.symm
        · split at at_'
          · rename_i bound
            exact absurd (earlier i' _ bound at_') (Nat.lt_irrefl _)
          · cases at_'
      · split at at_
        · rename_i bound
          split at at_'
          · obtain rfl := Option.some.inj at_'
            exact absurd (earlier i _ bound at_) (Nat.lt_irrefl _)
          · split at at_'
            · exact behind.inj i i' j at_ at_'
            · cases at_'
        · cases at_
    · intro j u there
      rw [Config.spawn, List.getElem?_append] at there
      split at there
      · obtain ⟨i, t, at_, thread⟩ := behind.onto j u there
        have bound := (List.getElem?_eq_some_iff.mp thread).1
        exact ⟨i, t, by rw [if_neg (Nat.ne_of_lt bound), if_pos bound]; exact at_, kept thread⟩
      · rename_i beyond
        have bound := (List.getElem?_eq_some_iff.mp there).1
        simp only [List.length_singleton] at bound
        have here : j = b.threads.length := by omega
        exact ⟨g.threads.length, _, by rw [if_pos rfl, here], by simp [Config.spawn]; rfl⟩

/-- What the front does by itself is not seen behind it. -/
theorem Behind.silent (behind : front.Behind g b place) {i : Nat} {t : Thread S Call Reply}
    (thread : g.threads[i]? = some t) {event : Event S} {next : Prog S Reply}
    (still : M.after g.world t.trace event = g.world)
    (goes : front.Turned t → front.Turned ⟨t.req, next, t.trace ++ [event]⟩)
    (serves : ∀ j u, place i = some j → b.threads[j]? = some u → front.Served t u →
      front.Served ⟨t.req, next, t.trace ++ [event]⟩ u) :
    front.Behind (g.answer (front.machine M) i t event next) b place := by
  refine ⟨behind.world.trans still.symm, fun i' t' there => ?_, behind.inj, fun j u there => ?_⟩
  · by_cases same : i = i'
    · subst same
      rw [Config.answer_self _ thread] at there
      obtain rfl := Option.some.inj there
      rcases behind.threads i t thread with ⟨none, turned⟩ | ⟨j, u, at_, thread', served⟩
      · exact .inl ⟨none, goes turned⟩
      · exact .inr ⟨j, u, at_, thread', serves j u at_ thread' served⟩
    · rw [Config.answer_other _ same] at there
      exact behind.threads i' t' there
  · obtain ⟨i', t', at_, thread'⟩ := behind.onto j u there
    by_cases same : i = i'
    · subst same
      exact ⟨i, _, at_, Config.answer_self _ thread _ _⟩
    · exact ⟨i', t', at_, by rw [Config.answer_other _ same]; exact thread'⟩

/-- What a request performs is performed behind the front. -/
theorem Behind.answer (behind : front.Behind g b place) {i j : Nat} {t : Thread S Call Reply}
    {u : Thread S Req Res} (thread : g.threads[i]? = some t) (at_ : place i = some j)
    (thread' : b.threads[j]? = some u) (route : front.route t.req = .ok u.req)
    (trace : t.trace = u.trace) {e : S.Op} {k : S.Ans e → Prog S Res} (pending : u.prog = .call e k)
    {a : S.Ans e} (permits : M.Permits g.world t.trace ⟨e, a⟩) :
    ∃ b', M.Reaches b b' ∧ front.Behind (g.answer (front.machine M) i t ⟨e, a⟩
      ((k a).attempt >>= front.finish t.req)) b' place := by
  refine ⟨b.answer M j u ⟨e, a⟩ (k a),
    .single (.answer thread' pending (by rw [behind.world, ← trace]; exact permits)), ?_, ?_,
    behind.inj, ?_⟩
  · show M.after b.world u.trace ⟨e, a⟩ = M.after g.world t.trace ⟨e, a⟩
    rw [behind.world, trace]
  · intro i' t' there
    by_cases same : i = i'
    · subst same
      rw [Config.answer_self _ thread] at there
      obtain rfl := Option.some.inj there
      refine .inr ⟨j, _, at_, Config.answer_self M thread' _ _, .running route rfl ?_⟩
      rw [trace]
    · rw [Config.answer_other _ same] at there
      rcases behind.threads i' t' there with turned | ⟨j', u', at_', thread'', served⟩
      · exact .inl turned
      · have other : j ≠ j' := by
          rintro rfl
          exact same (behind.inj i i' j at_ at_')
        exact .inr ⟨j', u', at_', by rw [Config.answer_other M other]; exact thread'', served⟩
  · intro j' u' there
    by_cases same : j = j'
    · subst same
      exact ⟨i, _, at_, Config.answer_self _ thread _ _⟩
    · rw [Config.answer_other M same] at there
      obtain ⟨i', t', at_', thread''⟩ := behind.onto j' u' there
      by_cases same' : i = i'
      · subst same'
        exact absurd (Option.some.inj (at_.symm.trans at_')) same
      · exact ⟨i', t', at_', by rw [Config.answer_other _ same']; exact thread''⟩

/-- One step of the front is at most one step behind it. -/
theorem Behind.step (silent : front.Silent M P) (behind : front.Behind g b place)
    (step : (front.machine M).Step g g') :
    ∃ b' place', M.Reaches b b' ∧ front.Behind g' b' place' := by
  cases step with
  | spawn call => exact behind.spawn call
  | @nudge n w moved =>
    have moved' : M.nudge n b.world = some w := by
      rw [behind.world]
      exact moved
    exact ⟨{ b with world := w }, place, .single (.nudge n moved'), rfl, behind.threads, behind.inj,
      behind.onto⟩
  | @answer i t e k a thread pending permits =>
    have kept : P e → M.after g.world t.trace ⟨e, a⟩ = g.world := silent.still _ _ _ _
    rcases behind.threads i t thread with ⟨none, p, route, left⟩ | ⟨j, u, at_, thread', served⟩
    · -- the call was turned away
      rw [pending] at left
      have own := (left.uses (silent.route _ p route)).1
      refine ⟨b, place, .refl, behind.silent thread (kept own) ?_ ?_⟩
      · exact fun _ => ⟨p, route, left.answer a⟩
      · intro j u at_
        rw [none] at at_
        cases at_
    · cases served with
      | finishing ended route halted left trace =>
        rw [pending] at left
        have own := (left.uses (silent.finish t.req ended)).1
        refine ⟨b, place, .refl, behind.silent thread (kept own) ?_ ?_⟩
        · rintro ⟨p, turned, -⟩
          rw [route] at turned
          cases turned
        · intro j' u' at_' there served
          obtain rfl := Option.some.inj (at_.symm.trans at_')
          obtain rfl := Option.some.inj (thread'.symm.trans there)
          exact .finishing ended route halted (left.answer a) (trace.trans (List.prefix_append _ _))
      | running route prog trace =>
        rw [pending] at prog
        have finishes : ∀ ended, u.prog = .ofExcept ended →
            Prog.call e k = front.finish t.req ended →
              ∃ b' place', M.Reaches b b' ∧
                front.Behind (g.answer (front.machine M) i t ⟨e, a⟩ (k a)) b' place' := by
          intro ended halted made
          have own : (Prog.call e k).Uses P := made ▸ silent.finish t.req ended
          refine ⟨b, place, .refl, behind.silent thread (kept own.1) ?_ ?_⟩
          · rintro ⟨p, turned, -⟩
            rw [route] at turned
            cases turned
          · intro j' u' at_' there _
            obtain rfl := Option.some.inj (at_.symm.trans at_')
            obtain rfl := Option.some.inj (thread'.symm.trans there)
            refine .finishing ended route halted ?_ (trace ▸ List.prefix_append _ _)
            show (front.finish t.req ended).Left (k a)
            rw [← made]
            exact .call a (.refl _)
        cases behind' : u.prog with
        | ret v =>
          rw [behind'] at prog
          exact finishes (.ok v) behind' prog
        | throw x =>
          rw [behind'] at prog
          exact finishes (.error x) behind' prog
        | call e' k' =>
          rw [behind'] at prog
          cases prog
          obtain ⟨b', run, behind⟩ := behind.answer thread at_ thread' route trace behind' permits
          exact ⟨b', place, run, behind⟩

/-- Every run of the front is a run of the machine behind it. -/
theorem behind (silent : front.Silent M P) {w : W} (run : (front.machine M).Reaches (.start w) g) :
    ∃ b place, M.Reaches (.start w) b ∧ front.Behind g b place := by
  induction run with
  | refl =>
    exact ⟨.start w, fun _ => none,
      .refl, rfl, by simp [Config.start], by simp, by simp [Config.start]⟩
  | tail _ step ih =>
    obtain ⟨b, place, run, behind⟩ := ih
    obtain ⟨b', place', more, behind'⟩ := behind.step silent step
    exact ⟨b', place', run.trans more, behind'⟩

end Front

end Interaction
