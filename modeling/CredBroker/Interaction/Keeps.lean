import CredBroker.Interaction.History

/-!
# Programs that keep to a guard

`Machine.Keeps` is a triple: from every trace with the precondition on, a program keeps
to a guard, and the postcondition holds where it returns. What lasts along a trace is
carried past the parts of a program, so that these may be looked at on their own.
-/

namespace Interaction

variable {S : Sig} {Req Res W Nudge α β : Type} {M : Machine S Req Res W Nudge}
  {Guard : Trace S → S.Op → Prop} {J J' : Trace S → Prop} {R : α → Trace S → Prop}
  {R' : β → Trace S → Prop}

/-- What holds of a trace goes on to hold. -/
def Lasting (J : Trace S → Prop) : Prop := ∀ tr ext, J tr → J (tr ++ ext)

theorem Lasting.const (c : Prop) : Lasting fun _ : Trace S => c := fun _ _ holds => holds

theorem Lasting.mem (e : Event S) : Lasting (e ∈ ·) := fun _ _ => List.mem_append_left _

theorem Lasting.and (left : Lasting J) (right : Lasting J') : Lasting fun tr => J tr ∧ J' tr :=
  fun tr ext holds => ⟨left tr ext holds.1, right tr ext holds.2⟩

/-- Nothing is asked of where a program returns. -/
abbrev Anywhere : α → Trace S → Prop := fun _ _ => True

namespace Machine

/-- From every trace with `J` on, a program keeps to the guard, and returns with `R`. -/
def Keeps (M : Machine S Req Res W Nudge) (Guard : Trace S → S.Op → Prop) (J : Trace S → Prop)
    (p : Prog S α) (R : α → Trace S → Prop) : Prop :=
  ∀ tr, J tr → wp M (.guarding Guard) p (fun r tr => ∀ a, r = .ok a → R a tr) tr

theorem Keeps.ret {a : α} (post : ∀ tr, J tr → R a tr) : M.Keeps Guard J (.ret a) R := by
  rintro tr holds _ ⟨⟩
  exact post tr holds

theorem Keeps.throw (x : S.Exn) : M.Keeps Guard J (.throw x : Prog S α) R := fun _ _ => nofun

/-- Where the guard allows all that a program may use, it needs no assumption. -/
theorem Keeps.of_uses {P : S.Op → Prop} {p : Prog S α} (uses : p.Uses P)
    (guard : ∀ tr e, P e → Guard tr e) : M.Keeps Guard J p Anywhere :=
  fun _ _ => wp_mono (wp_guarded uses guard) fun _ _ _ _ _ _ => trivial

theorem Keeps.mono {p : Prog S α} (keeps : M.Keeps Guard J p R) (imp : ∀ tr, J' tr → J tr) :
    M.Keeps Guard J' p R := fun tr holds => keeps tr (imp tr holds)

/-- A program that keeps to the guard does so whatever it returns with. -/
theorem Keeps.anywhere {p : Prog S α} (keeps : M.Keeps Guard J p R) :
    M.Keeps Guard J p Anywhere :=
  fun tr holds => wp_mono (keeps tr holds) fun _ _ _ _ _ _ => trivial

theorem Keeps.ite {c : Prop} [Decidable c] {p q : Prog S α} (yes : c → M.Keeps Guard J p R)
    (no : ¬ c → M.Keeps Guard J q R) : M.Keeps Guard J (if c then p else q) R := by
  split
  · exact yes ‹_›
  · exact no ‹_›

/-- A caught program keeps the guard, and its value is what it was. -/
theorem Keeps.attempt {p : Prog S α} (keeps : M.Keeps Guard J p R) :
    M.Keeps Guard J p.attempt fun r tr => ∀ a, r = .ok a → R a tr := by
  intro tr holds
  rw [wp_attempt]
  refine wp_mono (keeps tr holds) fun r tr' _ post ended same => ?_
  obtain rfl := Except.ok.inj same
  exact post

/-- What follows a part may rely on what that part returns with. -/
theorem Keeps.bind {p : Prog S α} {f : α → Prog S β} (lasting : Lasting J)
    (head : M.Keeps Guard J p R) (tail : ∀ a, M.Keeps Guard (fun tr => J tr ∧ R a tr) (f a) R') :
    M.Keeps Guard J (p >>= f) R' := by
  intro tr holds
  rw [wp_bind]
  refine wp_mono (head tr holds) fun r tr' grown post => ?_
  obtain ⟨ext, rfl⟩ := grown
  cases r with
  | error x => exact nofun
  | ok a => exact tail a _ ⟨lasting tr ext holds, post a rfl⟩

/-- What follows a part need not. -/
theorem Keeps.seq {p : Prog S α} {f : α → Prog S β} (lasting : Lasting J)
    (head : M.Keeps Guard J p Anywhere) (tail : ∀ a, M.Keeps Guard J (f a) R') :
    M.Keeps Guard J (p >>= f) R' :=
  .bind lasting head fun a => (tail a).mono fun _ holds => holds.1

theorem Keeps.perform {e : S.Op} (guard : ∀ tr, J tr → Guard tr e) :
    M.Keeps Guard J (Prog.perform e) fun v tr =>
      (∃ tr, M.May tr ⟨e, .ok v⟩) ∧ ⟨e, .ok v⟩ ∈ tr := by
  intro tr holds
  rw [wp_perform]
  refine ⟨guard tr holds, fun a may _ v same => ?_⟩
  obtain rfl := same
  exact ⟨⟨tr, may⟩, List.mem_append_right _ (List.mem_singleton_self _)⟩

/-- The events of a program that keeps to a guard from the start met it. -/
theorem Reaches.keeps {w : W} {c : Config S Req Res W} (run : M.Reaches (.start w) c) {i : Nat}
    {t : Thread S Req Res} (thread : c.threads[i]? = some t) {R : Res → Trace S → Prop}
    (entry : M.Keeps Guard (fun _ => True) (M.entry t.req) R) {pre : Trace S} {ev : Event S}
    (sub : pre ++ [ev] <+: t.trace) : Guard pre ev.op :=
  Machine.Reaches.kept run thread (entry [] trivial) (Role.met_guarding _ _) sub

/-- So does its next operation. -/
theorem Reaches.keeps_next {w : W} {c : Config S Req Res W} (run : M.Reaches (.start w) c) {i : Nat}
    {t : Thread S Req Res} (thread : c.threads[i]? = some t) {R : Res → Trace S → Prop}
    (entry : M.Keeps Guard (fun _ => True) (M.entry t.req) R) {e : S.Op}
    (next : t.prog.next = some e) : Guard t.trace e := by
  obtain ⟨k, pending⟩ := Prog.next_eq_some.mp next
  have under := Machine.Reaches.under_start run thread (entry [] trivial) (Role.met_guarding _ _)
  rw [pending] at under
  exact under.1

end Machine

end Interaction
