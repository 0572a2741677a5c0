import CredBroker.Interaction.Pool

/-!
# One program amid the others

`Machine.Exec` runs one program over the shared world while that world moves on
between its operations, however the other programs and the environment move it.
What a program does by its parts is read off `Exec.bind`, and
`Machine.Reaches.exec` finds such a run in every run of a pool.
-/

namespace Interaction

variable {S : Sig} {Req Res W Nudge : Type} {M : Machine S Req Res W Nudge} {α β : Type}

/-- One move of the world, by whichever program or by itself. -/
inductive Machine.Moves (M : Machine S Req Res W Nudge) : W → W → Prop
  | answer {w : W} {tr : Trace S} {e : Event S} (permits : M.Permits w tr e) :
      Machine.Moves M w (M.after w tr e)
  | nudge {w w' : W} (n : Nudge) (moved : M.nudge n w = some w') : Machine.Moves M w w'

/-- Any number of moves. -/
abbrev Machine.Later (M : Machine S Req Res W Nudge) : W → W → Prop :=
  Relation.ReflTransGen M.Moves

/-- From the world `w`, and having seen `tr`, the program may go on until it has seen
`tr'` and ends with `r`; the world is `w'` some time later. -/
inductive Machine.Exec (M : Machine S Req Res W Nudge) {α : Type} :
    W → Prog S α → Trace S → W → Trace S → Except S.Exn α → Prop
  | ret {w w' : W} (a : α) (tr : Trace S) (later : M.Later w w') :
      Machine.Exec M w (.ret a) tr w' tr (.ok a)
  | throw {w w' : W} (x : S.Exn) (tr : Trace S) (later : M.Later w w') :
      Machine.Exec M w (.throw x) tr w' tr (.error x)
  | call {w w₁ w' : W} {e : S.Op} {k : S.Ans e → Prog S α} {tr tr' : Trace S}
      {r : Except S.Exn α} (a : S.Ans e) (later : M.Later w w₁) (permits : M.Permits w₁ tr ⟨e, a⟩)
      (rest : Machine.Exec M (M.after w₁ tr ⟨e, a⟩) (k a) (tr ++ [⟨e, a⟩]) w' tr' r) :
      Machine.Exec M w (.call e k) tr w' tr' r

namespace Machine.Exec

variable {w w₀ w' : W} {p : Prog S α} {f : α → Prog S β} {tr tr' : Trace S} {r : Except S.Exn α}

theorem later (exec : M.Exec w p tr w' tr' r) : M.Later w w' := by
  induction exec with
  | ret a tr later => exact later
  | throw x tr later => exact later
  | call a later permits rest ih => exact (later.tail (.answer permits)).trans ih

/-- Nothing that a program has seen is forgotten. -/
theorem grows (exec : M.Exec w p tr w' tr' r) : tr <+: tr' := by
  induction exec with
  | ret a tr later => exact List.prefix_rfl
  | throw x tr later => exact List.prefix_rfl
  | call a later permits rest ih => exact (List.prefix_append _ _).trans ih

/-- The program may start later. -/
theorem head (before : M.Later w₀ w) (exec : M.Exec w p tr w' tr' r) :
    M.Exec w₀ p tr w' tr' r := by
  cases exec with
  | ret a tr later => exact .ret a tr (before.trans later)
  | throw x tr later => exact .throw x tr (before.trans later)
  | call a later permits rest => exact .call a (before.trans later) permits rest

/-- A sequence runs its head, and then its tail if the head returns. -/
theorem bind {r : Except S.Exn β} (exec : M.Exec w (p >>= f) tr w' tr' r) :
    (∃ a w₁ tr₁, M.Exec w p tr w₁ tr₁ (.ok a) ∧ M.Exec w₁ (f a) tr₁ w' tr' r) ∨
      ∃ x, M.Exec w p tr w' tr' (.error x) ∧ r = .error x := by
  induction p generalizing w tr with
  | ret a => exact .inl ⟨a, w, tr, .ret a tr .refl, exec⟩
  | throw x =>
    cases exec with
    | throw x _ later => exact .inr ⟨x, .throw x _ later, rfl⟩
  | call e k ih =>
    cases exec with
    | call a later permits rest =>
      rcases ih a rest with ⟨b, w₁, tr₁, first, last⟩ | ⟨x, raised, same⟩
      · exact .inl ⟨b, w₁, tr₁, .call a later permits first, last⟩
      · exact .inr ⟨x, .call a later permits raised, same⟩

/-- Reified, a program runs as it does. -/
theorem attempt {r : Except S.Exn (Except S.Exn α)} (exec : M.Exec w p.attempt tr w' tr' r) :
    ∃ ended, M.Exec w p tr w' tr' ended ∧ r = .ok ended := by
  induction p generalizing w tr with
  | ret a =>
    cases exec with
    | ret _ _ later => exact ⟨.ok a, .ret a _ later, rfl⟩
  | throw x =>
    cases exec with
    | ret _ _ later => exact ⟨.error x, .throw x _ later, rfl⟩
  | call e k ih =>
    cases exec with
    | call a later permits rest =>
      obtain ⟨ended, inner, same⟩ := ih a rest
      exact ⟨ended, .call a later permits inner, same⟩

theorem perform {e : S.Op} {r : S.Ans e} (exec : M.Exec w (Prog.perform e) tr w' tr' r) :
    ∃ w₁, M.Later w w₁ ∧ M.Permits w₁ tr ⟨e, r⟩ ∧ M.Later (M.after w₁ tr ⟨e, r⟩) w' ∧
      tr' = tr ++ [⟨e, r⟩] := by
  cases exec with
  | call a later permits rest =>
    cases a with
    | ok v =>
      cases rest with
      | ret v tr last => exact ⟨_, later, permits, last, rfl⟩
    | error x =>
      cases rest with
      | throw x tr last => exact ⟨_, later, permits, last, rfl⟩

end Machine.Exec

/-- A program of a pool that has ended was run amid the others. -/
theorem Machine.Reaches.exec {c c' : Config S Req Res W} (run : M.Reaches c c') {i : Nat}
    {t t' : Thread S Req Res} (here : c.threads[i]? = some t) (there : c'.threads[i]? = some t')
    {r : Except S.Exn Res} (ended : t'.prog = .ofExcept r) :
    M.Exec c.world t.prog t.trace c'.world t'.trace r := by
  induction run using Relation.ReflTransGen.head_induction_on generalizing t with
  | refl =>
    obtain rfl := Option.some.inj (here.symm.trans there)
    rw [ended]
    cases r with
    | ok a => exact .ret a _ .refl
    | error x => exact .throw x _ .refl
  | @head c d step rest ih =>
    cases step with
    | spawn q =>
      have inBounds := (List.getElem?_eq_some_iff.mp here).1
      refine ih ?_
      rw [Config.spawn, List.getElem?_append_left inBounds, here]
    | nudge n moved => exact (ih here).head (.single (.nudge n moved))
    | @answer j u e k a running pending permits =>
      by_cases same : j = i
      · subst same
        obtain rfl := Option.some.inj (running.symm.trans here)
        rw [pending]
        exact .call a .refl permits (ih (Config.answer_self M running _ _))
      · refine (ih ?_).head (.single (.answer permits))
        rw [Config.answer_other M same, here]

end Interaction
