import CredBroker.Interaction.Logic

/-!
# Running one program by itself

A program whose operations can always be answered is never stuck: wherever a run of the
pool has come to, the program can be run to its end while all others stand still.
-/

namespace Interaction

variable {S : Sig} {Req Res W Nudge : Type} {M : Machine S Req Res W Nudge}
  {Guard : Trace S → S.Op → Prop} {Q : Post S Res}

/-- The end of a run of one program: it is over, and the others are as they were. -/
structure Machine.Alone (M : Machine S Req Res W Nudge) (Q : Post S Res) (c : Config S Req Res W)
    (i : Nat) (r : Req) (c' : Config S Req Res W) : Prop where
  reaches : M.Reaches c c'
  halted : ∃ ended tr, c'.threads[i]? = some ⟨r, .ofExcept ended, tr⟩ ∧ Q ended tr
  others : ∀ j, j ≠ i → c'.threads[j]? = c.threads[j]?

theorem Machine.run_alone (answers : ∀ w tr e, Guard tr e → ∃ a, M.Permits w tr ⟨e, a⟩) {r : Req}
    {p : Prog S Res} {tr : Trace S} (pre : wp M (.guarding Guard) p Q tr) {c : Config S Req Res W}
    {i : Nat} (thread : c.threads[i]? = some ⟨r, p, tr⟩) : ∃ c', M.Alone Q c i r c' := by
  induction p generalizing tr c with
  | ret v => exact ⟨c, .refl, ⟨.ok v, tr, thread, pre⟩, fun _ _ => rfl⟩
  | throw x => exact ⟨c, .refl, ⟨.error x, tr, thread, pre⟩, fun _ _ => rfl⟩
  | call e k ih =>
    obtain ⟨guard, next⟩ := pre
    obtain ⟨a, permits⟩ := answers c.world tr e guard
    have self := Config.answer_self M thread ⟨e, a⟩ (k a)
    obtain ⟨c', alone⟩ := ih a (next a ⟨c.world, permits⟩ trivial) self
    refine ⟨c', .head (.answer thread rfl permits) alone.reaches, alone.halted, fun j other => ?_⟩
    rw [alone.others j other]
    exact Config.answer_other M (Ne.symm other) _ _ _

/-- A program that is over stays as it is. -/
theorem Machine.Reaches.over_mono {c c' : Config S Req Res W} (run : M.Reaches c c') {i : Nat}
    {t : Thread S Req Res} (thread : c.threads[i]? = some t) {e : Except S.Exn Res}
    (halted : t.prog = .ofExcept e) : c'.threads[i]? = some t := by
  induction run with
  | refl => exact thread
  | tail _ step ih =>
    cases step with
    | spawn r =>
      rw [Config.spawn, List.getElem?_append_left (List.getElem?_eq_some_iff.mp ih).1]
      exact ih
    | @answer j u op k a thread' pending permits =>
      rw [Config.answer_other M _ u]
      · exact ih
      · rintro rfl
        obtain rfl := Option.some.inj (thread'.symm.trans ih)
        rw [pending] at halted
        cases e <;> cases halted
    | nudge n moved => exact ih

end Interaction
