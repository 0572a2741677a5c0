import CredBroker.Interaction.Logic

/-!
# One program replaced

Two machines over one world may serve a request by different programs. A run of
the first has a counterpart on the second in which program `i` is replaced and
everything else is the same, as long as the replacement can answer each step of
the original by at most one of its own that leaves the world alike.
-/

namespace Interaction

variable {S : Sig} {Req Req' Res W Nudge : Type}

/-- `M'` serves all that `M` serves, over the same world. -/
structure Machine.Extends (M : Machine S Req Res W Nudge) (M' : Machine S Req' Res W Nudge)
    (lift : Req → Req') : Prop where
  entry : ∀ r, M'.entry (lift r) = M.entry r
  permits : ∀ {w tr e}, M.Permits w tr e → M'.Permits w tr e
  after : M'.after = M.after
  nudge : M'.nudge = M.nudge

/-- `c'` is `c`, but for program `i`, which `R` relates to its replacement. -/
structure Config.Replaced (lift : Req → Req') (i : Nat)
    (R : W → Thread S Req Res → Thread S Req' Res → Prop) (c : Config S Req Res W)
    (c' : Config S Req' Res W) : Prop where
  world : c'.world = c.world
  length : c'.threads.length = c.threads.length
  others : ∀ j t, j ≠ i → c.threads[j]? = some t →
    c'.threads[j]? = some ⟨lift t.req, t.prog, t.trace⟩
  replaced : ∀ t, c.threads[i]? = some t → ∃ t', c'.threads[i]? = some t' ∧ R c.world t t'

/-- The replacement `t'` can follow when `t`, about to perform `e`, is answered `a`. -/
def Machine.Follows (M : Machine S Req Res W Nudge) (M' : Machine S Req' Res W Nudge)
    (R : W → Thread S Req Res → Thread S Req' Res → Prop) (w : W) (t : Thread S Req Res)
    (t' : Thread S Req' Res) (event : Event S) (next : Prog S Res) : Prop :=
  (M.after w t.trace event = w ∧ R w ⟨t.req, next, t.trace ++ [event]⟩ t') ∨
    ∃ e' k' a', t'.prog = .call e' k' ∧ M'.Permits w t'.trace ⟨e', a'⟩ ∧
      M'.after w t'.trace ⟨e', a'⟩ = M.after w t.trace event ∧
      R (M.after w t.trace event) ⟨t.req, next, t.trace ++ [event]⟩
        ⟨t'.req, k' a', t'.trace ++ [⟨e', a'⟩]⟩

/-- What makes `R` a simulation of program `i` on the runs from `w₀`, as far as
its trace is `Good`. -/
structure Machine.Replaces (M : Machine S Req Res W Nudge) (M' : Machine S Req' Res W Nudge)
    (w₀ : W) (i : Nat) (Good : Req → Trace S → Prop)
    (R : W → Thread S Req Res → Thread S Req' Res → Prop) : Prop where
  good : ∀ {r tr e}, Good r (tr ++ [e]) → Good r tr
  entry : ∀ {r} (w : W), Good r [] → ∃ r', R w ⟨r, M.entry r, []⟩ ⟨r', M'.entry r', []⟩
  stays : ∀ {c c₁ t t'}, M.Reaches (.start w₀) c → M.Step c c₁ → R c.world t t' → R c₁.world t t'
  follows : ∀ {c c' t t' e k} {a : S.Ans e}, M.Reaches (.start w₀) c → M'.Reaches (.start w₀) c' →
    c.threads[i]? = some t → c'.threads[i]? = some t' → R c.world t t' → t.prog = .call e k →
    M.Permits c.world t.trace ⟨e, a⟩ → Good t.req (t.trace ++ [⟨e, a⟩]) →
    M.Follows M' R c.world t t' ⟨e, a⟩ (k a)

section Replace

variable {M : Machine S Req Res W Nudge} {M' : Machine S Req' Res W Nudge} {lift : Req → Req'}
  {w₀ : W} {i : Nat} {Good : Req → Trace S → Prop}
  {R : W → Thread S Req Res → Thread S Req' Res → Prop} {c c₁ : Config S Req Res W}
  {c' : Config S Req' Res W}

/-- The step of another program. -/
theorem Config.Replaced.answer_other (ext : M.Extends M' lift) (replaced : c.Replaced lift i R c')
    {j : Nat} {t : Thread S Req Res} (thread : c.threads[j]? = some t) (other : j ≠ i)
    {e : S.Op} {k : S.Ans e → Prog S Res} {a : S.Ans e} (pending : t.prog = .call e k)
    (permits : M.Permits c.world t.trace ⟨e, a⟩)
    (stays : ∀ u u', R c.world u u' → R (c.answer M j t ⟨e, a⟩ (k a)).world u u') :
    ∃ c₁', M'.Step c' c₁' ∧ (c.answer M j t ⟨e, a⟩ (k a)).Replaced lift i R c₁' := by
  have thread' := replaced.others j t other thread
  refine ⟨c'.answer M' j ⟨lift t.req, t.prog, t.trace⟩ ⟨e, a⟩ (k a),
    .answer thread' pending (ext.permits (replaced.world ▸ permits)), ?_, ?_, ?_, ?_⟩
  · simp [Config.answer, ext.after, replaced.world]
  · simp [Config.answer, replaced.length]
  · intro j' t' other' there
    by_cases same : j = j'
    · subst same
      rw [Config.answer_self M thread] at there
      obtain rfl := Option.some.inj there
      exact Config.answer_self M' thread' _ _
    · rw [Config.answer_other M same] at there
      rw [Config.answer_other M' same]
      exact replaced.others j' t' other' there
  · intro u there
    rw [Config.answer_other M other] at there
    obtain ⟨u', there', related⟩ := replaced.replaced u there
    rw [Config.answer_other M' other]
    exact ⟨u', there', stays u u' related⟩

/-- The step of the program that is replaced. -/
theorem Config.Replaced.answer_self (replaced : c.Replaced lift i R c')
    {t : Thread S Req Res} (thread : c.threads[i]? = some t) {t' : Thread S Req' Res}
    (thread' : c'.threads[i]? = some t') {event : Event S} {next : Prog S Res}
    (follows : M.Follows M' R c.world t t' event next) :
    ∃ c₁', M'.Reaches c' c₁' ∧ (c.answer M i t event next).Replaced lift i R c₁' := by
  rcases follows with ⟨still, related⟩ | ⟨e', k', a', pending', permits', same, related⟩
  · refine ⟨c', .refl, ?_, ?_, ?_, ?_⟩
    · simp [Config.answer, still, replaced.world]
    · simp [Config.answer, replaced.length]
    · intro j u other there
      rw [Config.answer_other M (Ne.symm other)] at there
      exact replaced.others j u other there
    · intro u there
      rw [Config.answer_self M thread] at there
      obtain rfl := Option.some.inj there
      exact ⟨t', thread', by simpa [Config.answer, still] using related⟩
  · refine ⟨c'.answer M' i t' ⟨e', a'⟩ (k' a'),
      .single (.answer thread' pending' (replaced.world ▸ permits')), ?_, ?_, ?_, ?_⟩
    · simp [Config.answer, same, replaced.world]
    · simp [Config.answer, replaced.length]
    · intro j u other there
      rw [Config.answer_other M (Ne.symm other)] at there
      rw [Config.answer_other M' (Ne.symm other)]
      exact replaced.others j u other there
    · intro u there
      rw [Config.answer_self M thread] at there
      obtain rfl := Option.some.inj there
      exact ⟨_, Config.answer_self M' thread' _ _, related⟩

/-- A request is started in both. -/
theorem Config.Replaced.spawn (ext : M.Extends M' lift) (replaced : c.Replaced lift i R c')
    (r : Req)
    (entry : c.threads.length = i → ∃ r', R c.world ⟨r, M.entry r, []⟩ ⟨r', M'.entry r', []⟩) :
    ∃ c₁', M'.Step c' c₁' ∧ (c.spawn M r).Replaced lift i R c₁' := by
  have length := replaced.length
  -- the threads that are there stay, and the new one comes last
  have old : ∀ {j : Nat} {t : Thread S Req Res}, (c.spawn M r).threads[j]? = some t →
      c.threads[j]? = some t ∨ (j = c.threads.length ∧ t = ⟨r, M.entry r, []⟩) := by
    intro j t there
    rw [Config.spawn, List.getElem?_append] at there
    split at there
    · exact .inl there
    · rename_i beyond
      have member := List.getElem?_eq_some_iff.mp there
      have bound := member.1
      simp only [List.length_singleton] at bound
      exact .inr ⟨by omega, by simpa using member.2.symm⟩
  have kept : ∀ {r' : Req'} {j : Nat} {t' : Thread S Req' Res}, c'.threads[j]? = some t' →
      (c'.spawn M' r').threads[j]? = some t' := by
    intro r' j t' there
    rw [Config.spawn, List.getElem?_append_left (List.getElem?_eq_some_iff.mp there).1, there]
  have last : ∀ {r' : Req'}, (c'.spawn M' r').threads[c.threads.length]? =
      some ⟨r', M'.entry r', []⟩ := by
    intro r'
    rw [Config.spawn, ← length]
    simp
  by_cases here : c.threads.length = i
  · obtain ⟨r', related⟩ := entry here
    refine ⟨c'.spawn M' r', .spawn r', replaced.world, by simp [Config.spawn, length], ?_, ?_⟩
    · intro j t other there
      rcases old there with there | ⟨at_, -⟩
      · exact kept (replaced.others j t other there)
      · exact (other (at_.trans here)).elim
    · intro t there
      rcases old there with there | ⟨-, rfl⟩
      · obtain ⟨t', there', related⟩ := replaced.replaced t there
        exact ⟨t', kept there', related⟩
      · exact ⟨_, here ▸ last, related⟩
  · refine ⟨c'.spawn M' (lift r), .spawn _, replaced.world, by simp [Config.spawn, length], ?_, ?_⟩
    · intro j t other there
      rcases old there with there | ⟨rfl, rfl⟩
      · exact kept (replaced.others j t other there)
      · rw [last, ext.entry]
    · intro t there
      rcases old there with there | ⟨at_, -⟩
      · obtain ⟨t', there', related⟩ := replaced.replaced t there
        exact ⟨t', kept there', related⟩
      · exact (here at_.symm).elim

/-- A run whose program `i` stays good has its counterpart with the replacement. -/
theorem Machine.Replaces.run (ext : M.Extends M' lift) (sim : M.Replaces M' w₀ i Good R)
    (run : M.Reaches (.start w₀) c) (good : ∀ t, c.threads[i]? = some t → Good t.req t.trace) :
    ∃ c', M'.Reaches (.start w₀) c' ∧ c.Replaced lift i R c' := by
  induction run with
  | refl => exact ⟨.start w₀, .refl, rfl, rfl, by simp [Config.start], by simp [Config.start]⟩
  | @tail b c before step ih =>
    cases step with
    | spawn r =>
      obtain ⟨b', run', replaced⟩ := ih fun t there => good t (by
        rw [Config.spawn, List.getElem?_append_left (List.getElem?_eq_some_iff.mp there).1, there])
      obtain ⟨c₁', step', replaced'⟩ := replaced.spawn ext r fun here =>
        sim.entry b.world (good ⟨r, M.entry r, []⟩ (by subst here; simp [Config.spawn]))
      exact ⟨c₁', run'.tail step', replaced'⟩
    | nudge n moved =>
      obtain ⟨b', run', replaced⟩ := ih good
      refine ⟨{ b' with world := _ },
        run'.tail (.nudge n (by rw [ext.nudge, replaced.world]; exact moved)), rfl, replaced.length,
        replaced.others, fun t there => ?_⟩
      obtain ⟨t', there', related⟩ := replaced.replaced t there
      exact ⟨t', there', sim.stays before (.nudge n moved) related⟩
    | @answer j t e k a thread pending permits =>
      have earlier : ∀ u, b.threads[i]? = some u → Good u.req u.trace := by
        intro u there
        by_cases same : j = i
        · subst same
          obtain rfl := Option.some.inj (thread.symm.trans there)
          exact sim.good (good _ (Config.answer_self M thread _ _))
        · exact good u (by rw [Config.answer_other M same, there])
      obtain ⟨b', run', replaced⟩ := ih earlier
      by_cases same : j = i
      · subst same
        obtain ⟨t', thread', related⟩ := replaced.replaced t thread
        obtain ⟨c₁', more, replaced'⟩ := replaced.answer_self thread thread'
          (sim.follows before run' thread thread' related pending permits
            (good _ (Config.answer_self M thread _ _)))
        exact ⟨c₁', run'.trans more, replaced'⟩
      · obtain ⟨c₁', step', replaced'⟩ := replaced.answer_other ext thread same pending permits
          fun u u' related => sim.stays before (.answer thread pending permits) related
        exact ⟨c₁', run'.tail step', replaced'⟩

end Replace

end Interaction
