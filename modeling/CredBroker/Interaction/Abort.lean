import CredBroker.Interaction.Logic

/-!
# Aborts

A fatal exception, such as the cancellation of a task, is to end a program at
once: nothing but cleanup may follow it, and it is what the program raises.
`Prog.Aborts` says so of a program, `Aborts.bind` and its companions build it
up, and `Aborts.wp` reads it off the traces.
-/

namespace Interaction

variable {S : Sig} {Req Res W Nudge : Type} {α β : Type}

/-- What is fatal, what may still follow, and which answers can occur. -/
structure AbortRule (S : Sig) where
  Fatal : S.Exn → Prop
  Cleanup : S.Op → Prop
  Legal : Event S → Prop

namespace AbortRule

variable (rule : AbortRule S)

/-- An answer that carries a fatal exception. -/
def Hit {e : S.Op} (a : S.Ans e) : Prop := ∃ x, a = .error x ∧ rule.Fatal x

/-- A trace with a fatal answer in it. -/
def Aborted (tr : Trace S) : Prop := ∃ e ∈ tr, rule.Hit e.ans

theorem aborted_append {tr tr' : Trace S} :
    rule.Aborted (tr ++ tr') ↔ rule.Aborted tr ∨ rule.Aborted tr' := by
  constructor
  · rintro ⟨e, member, hit⟩
    rcases List.mem_append.mp member with old | new
    · exact .inl ⟨e, old, hit⟩
    · exact .inr ⟨e, new, hit⟩
  · rintro (⟨e, member, hit⟩ | ⟨e, member, hit⟩)
    · exact ⟨e, List.mem_append_left _ member, hit⟩
    · exact ⟨e, List.mem_append_right _ member, hit⟩

/-- An aborted program has been aborted ever after. -/
theorem aborted_mono {tr tr' : Trace S} (sub : tr <+: tr') (aborted : rule.Aborted tr) :
    rule.Aborted tr' := by
  obtain ⟨e, member, hit⟩ := aborted
  exact ⟨e, sub.subset member, hit⟩

theorem aborted_singleton {e : Event S} : rule.Aborted [e] ↔ rule.Hit e.ans := by
  simp [Aborted]

end AbortRule

namespace Prog

variable (rule : AbortRule S)

/-- Only cleanup is left before a fatal exception is raised. -/
def Dies : Prog S α → Prop
  | .ret _ => False
  | .throw x => rule.Fatal x
  | .call e k => rule.Cleanup e ∧ ∀ a, rule.Legal ⟨e, a⟩ → (k a).Dies

/-- A fatal answer, and nothing else, makes the program raise a fatal exception. -/
def Aborts : Prog S α → Prop
  | .ret _ => True
  | .throw x => ¬ rule.Fatal x
  | .call e k => ∀ a, rule.Legal ⟨e, a⟩ →
      (rule.Hit a → (k a).Dies rule) ∧ (¬ rule.Hit a → (k a).Aborts)

variable {rule}

theorem Dies.bind {p : Prog S α} (dies : p.Dies rule) (f : α → Prog S β) :
    (p >>= f).Dies rule := by
  induction p with
  | ret a => exact dies.elim
  | throw x => exact dies
  | call e k ih => exact ⟨dies.1, fun a legal => ih a (dies.2 a legal)⟩

/-- A handler that is dead after what it catches is dead, if its body is. -/
theorem Dies.attempt_bind {p : Prog S α} (dies : p.Dies rule)
    {f : Except S.Exn α → Prog S β} (fatal : ∀ x, rule.Fatal x → (f (.error x)).Dies rule) :
    (p.attempt >>= f).Dies rule := by
  induction p with
  | ret a => exact dies.elim
  | throw x => exact fatal x dies
  | call e k ih => exact ⟨dies.1, fun a legal => ih a (dies.2 a legal)⟩

/-- A sequence aborts if each of its parts does. -/
theorem Aborts.bind {p : Prog S α} {f : α → Prog S β} (head : p.Aborts rule)
    (tail : ∀ a, (f a).Aborts rule) : (p >>= f).Aborts rule := by
  induction p with
  | ret a => exact tail a
  | throw x => exact head
  | call e k ih =>
    exact fun a legal => ⟨fun hit => ((head a legal).1 hit).bind f,
      fun ok => ih a ((head a legal).2 ok)⟩

/-- A handler must pass fatal exceptions on. -/
theorem Aborts.attempt_bind {p : Prog S α} {f : Except S.Exn α → Prog S β}
    (head : p.Aborts rule) (fatal : ∀ x, rule.Fatal x → (f (.error x)).Dies rule)
    (tail : ∀ r, (∀ x, r = .error x → ¬ rule.Fatal x) → (f r).Aborts rule) :
    (p.attempt >>= f).Aborts rule := by
  induction p with
  | ret a => exact tail (.ok a) (by simp)
  | throw x => exact tail (.error x) (by rintro y ⟨⟩; exact head)
  | call e k ih =>
    exact fun a legal => ⟨fun hit => ((head a legal).1 hit).attempt_bind fatal,
      fun ok => ih a ((head a legal).2 ok)⟩

theorem Aborts.ofExcept {r : Except S.Exn α} (harmless : ∀ x, r = .error x → ¬ rule.Fatal x) :
    (Prog.ofExcept r).Aborts rule := by
  cases r with
  | ok a => trivial
  | error x => exact harmless x rfl

/-- A single operation does nothing once it is aborted. -/
theorem Aborts.perform (e : S.Op) : (Prog.perform e).Aborts rule := by
  intro a legal
  cases a with
  | ok v => exact ⟨by rintro ⟨x, ⟨⟩, -⟩, fun _ => trivial⟩
  | error x =>
    refine ⟨?_, fun ok fatal => ok ⟨x, rfl, fatal⟩⟩
    rintro ⟨y, ⟨⟩, fatal⟩
    exact fatal

theorem Aborts.ite {c : Prop} [Decidable c] {p q : Prog S α} (yes : c → p.Aborts rule)
    (no : ¬ c → q.Aborts rule) : (if c then p else q).Aborts rule := by
  split
  · exact yes ‹_›
  · exact no ‹_›

end Prog

/-! ## Aborts on traces -/

variable {M : Machine S Req Res W Nudge} {rule : AbortRule S}

/-- After a fatal answer only cleanup is performed. -/
def AbortRule.role (rule : AbortRule S) : Role S :=
  .guarding fun tr e => rule.Aborted tr → rule.Cleanup e

/-- A program raises a fatal exception exactly if it got one. -/
def AbortRule.post (rule : AbortRule S) (α : Type) : Post S α := fun r tr =>
  rule.Aborted tr ↔ ∃ x, r = .error x ∧ rule.Fatal x

theorem Prog.Dies.wp {p : Prog S α} (dies : p.Dies rule)
    (legal : ∀ tr e, M.May tr e → rule.Legal e) {tr : Trace S} (aborted : rule.Aborted tr) :
    wp M rule.role p (rule.post α) tr := by
  induction p generalizing tr with
  | ret a => exact dies.elim
  | throw x => exact ⟨fun _ => ⟨x, rfl, dies⟩, fun _ => aborted⟩
  | call e k ih =>
    exact ⟨fun _ => dies.1, fun a may _ =>
      ih a (dies.2 a (legal tr _ may)) (rule.aborted_append.mpr (.inl aborted))⟩

/-- An aborting program that was aborted raises what aborts it. -/
theorem Prog.Aborts.wp {p : Prog S α} (aborts : p.Aborts rule)
    (legal : ∀ tr e, M.May tr e → rule.Legal e) {tr : Trace S} (running : ¬ rule.Aborted tr) :
    wp M rule.role p (rule.post α) tr := by
  induction p generalizing tr with
  | ret a => exact ⟨fun aborted => (running aborted).elim, by rintro ⟨x, ⟨⟩, -⟩⟩
  | throw x =>
    refine ⟨fun aborted => (running aborted).elim, ?_⟩
    rintro ⟨y, ⟨⟩, fatal⟩
    exact (aborts fatal).elim
  | call e k ih =>
    refine ⟨fun aborted => (running aborted).elim, fun a may _ => ?_⟩
    by_cases hit : rule.Hit a
    · exact ((aborts a (legal tr _ may)).1 hit).wp legal
        (rule.aborted_append.mpr (.inr (rule.aborted_singleton.mpr hit)))
    · refine ih a ((aborts a (legal tr _ may)).2 hit) fun aborted => ?_
      rcases rule.aborted_append.mp aborted with old | new
      · exact running old
      · exact hit (rule.aborted_singleton.mp new)

end Interaction
