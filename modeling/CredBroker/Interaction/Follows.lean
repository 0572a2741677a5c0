import CredBroker.Interaction.History

/-!
# What follows what

`Prog.Follows` bounds each operation of a program by the event right before it: an
operation that is only allowed after one kind of event is never performed elsewhere.
-/

namespace Interaction

variable {S : Sig} {α β : Type}

namespace Prog

/-- Each operation of a program is allowed after the event before it, the first after `last`. -/
def Follows (Allowed : Option (Event S) → S.Op → Prop) : Option (Event S) → Prog S α → Prop
  | _, .ret _ => True
  | _, .throw _ => True
  | last, .call e k => Allowed last e ∧ ∀ a, Follows Allowed (some ⟨e, a⟩) (k a)

variable {Allowed : Option (Event S) → S.Op → Prop} {last : Option (Event S)}

/-- Operations that are allowed anywhere. -/
theorem Follows.of_uses {P : S.Op → Prop} {p : Prog S α} (uses : p.Uses P)
    (anywhere : ∀ last e, P e → Allowed last e) : p.Follows Allowed last := by
  induction p generalizing last with
  | ret a => trivial
  | throw x => trivial
  | call e k ih => exact ⟨anywhere last e uses.1, fun a => ih a (uses.2 a)⟩

theorem Follows.bind {p : Prog S α} {f : α → Prog S β} (head : p.Follows Allowed last)
    (tail : ∀ a last, (f a).Follows Allowed last) : (p >>= f).Follows Allowed last := by
  induction p generalizing last with
  | ret a => exact tail a last
  | throw x => trivial
  | call e k ih => exact ⟨head.1, fun a => ih a (head.2 a)⟩

theorem Follows.attempt {p : Prog S α} (follows : p.Follows Allowed last) :
    p.attempt.Follows Allowed last := by
  induction p generalizing last with
  | ret a => trivial
  | throw x => trivial
  | call e k ih => exact ⟨follows.1, fun a => ih a (follows.2 a)⟩

theorem Follows.ite {c : Prop} [Decidable c] {p q : Prog S α} (yes : c → p.Follows Allowed last)
    (no : ¬ c → q.Follows Allowed last) : (if c then p else q).Follows Allowed last := by
  split
  · exact yes ‹_›
  · exact no ‹_›

end Prog

variable {Req Res W Nudge : Type} {M : Machine S Req Res W Nudge}
  {Allowed : Option (Event S) → S.Op → Prop}

theorem wp_of_follows {p : Prog S α} {tr : Trace S} (follows : p.Follows Allowed tr.getLast?) :
    wp M (.guarding fun tr e => Allowed tr.getLast? e) p (fun _ _ => True) tr := by
  induction p generalizing tr with
  | ret a => trivial
  | throw x => trivial
  | call e k ih =>
    refine ⟨follows.1, fun a _ _ => ih a ?_⟩
    rw [List.getLast?_concat]
    exact follows.2 a

/-- Every event of a run follows on an event that its operation is allowed after. -/
theorem Machine.Reaches.follows {w : W} {c : Config S Req Res W} (run : M.Reaches (.start w) c)
    {i : Nat} {t : Thread S Req Res} (thread : c.threads[i]? = some t)
    (entry : (M.entry t.req).Follows Allowed none) {pre : Trace S} {ev : Event S}
    (sub : pre ++ [ev] <+: t.trace) : Allowed pre.getLast? ev.op :=
  Machine.Reaches.kept run thread (wp_of_follows entry) (Role.met_guarding _ _) sub

/-- So is an operation that is about to be performed. -/
theorem Machine.Reaches.follows_next {w : W} {c : Config S Req Res W}
    (run : M.Reaches (.start w) c) {i : Nat} {t : Thread S Req Res}
    (thread : c.threads[i]? = some t) (entry : (M.entry t.req).Follows Allowed none) {e : S.Op}
    {k : S.Ans e → Prog S Res} (pending : t.prog = .call e k) : Allowed t.trace.getLast? e := by
  have under := Machine.Reaches.under_start run thread (wp_of_follows entry)
    (Role.met_guarding _ _)
  rw [pending] at under
  exact under.1

end Interaction
