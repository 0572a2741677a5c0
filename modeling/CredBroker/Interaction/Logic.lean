import CredBroker.Interaction.Pool

/-!
# A logic for the programs of a pool

`wp` is the weakest precondition of one program, over the events it has seen.
`Role` is what the program owes and may assume: `Guard` holds before each
operation it performs, `Assume` of each answer it gets. Nothing is known of the
shared world but that it permits the answers.

`Machine.Reaches.under` places the program of every thread, at every point of
every run, under the `wp` it started with. What the threads do to each other is
then a matter of the history of the run.
-/

namespace Interaction

variable {S : Sig} {Req Res W Nudge : Type}

/-- What a program owes before its operations, and may assume of its answers. -/
structure Role (S : Sig) where
  Guard : Trace S → S.Op → Prop
  Assume : Trace S → Event S → Prop

/-- The role that only owes. -/
def Role.guarding (Guard : Trace S → S.Op → Prop) : Role S := ⟨Guard, fun _ _ => True⟩

/-- All events of a trace meet the assumption, each after the ones before it. -/
def Role.Met (role : Role S) (tr : Trace S) : Prop :=
  ∀ pre e, pre ++ [e] <+: tr → role.Assume pre e

theorem Role.met_guarding (Guard : Trace S → S.Op → Prop) (tr : Trace S) :
    (Role.guarding Guard).Met tr := fun _ _ _ => trivial

/-- Some world permits the event. -/
def Machine.May (M : Machine S Req Res W Nudge) (tr : Trace S) (e : Event S) : Prop :=
  ∃ w, M.Permits w tr e

/-- Postconditions speak of how a program ended and of its trace. -/
abbrev Post (S : Sig) (α : Type) : Type := Except S.Exn α → Trace S → Prop

/-- The weakest precondition of `p` in `role`. -/
def wp (M : Machine S Req Res W Nudge) (role : Role S) {α : Type} :
    Prog S α → Post S α → Trace S → Prop
  | .ret a, Q, tr => Q (.ok a) tr
  | .throw x, Q, tr => Q (.error x) tr
  | .call e k, Q, tr => role.Guard tr e ∧ ∀ a, M.May tr ⟨e, a⟩ → role.Assume tr ⟨e, a⟩ →
      wp M role (k a) Q (tr ++ [⟨e, a⟩])

/-- The postcondition of the head of a sequence whose tail meets `tail`. -/
def Post.next {α β : Type} (tail : α → Trace S → Prop) (Q : Post S β) : Post S α
  | .ok a, tr => tail a tr
  | .error x, tr => Q (.error x) tr

@[simp] theorem Post.next_ok {α β : Type} (tail : α → Trace S → Prop) (Q : Post S β) (a : α)
    (tr : Trace S) : Post.next tail Q (.ok a) tr = tail a tr := rfl

@[simp] theorem Post.next_error {α β : Type} (tail : α → Trace S → Prop) (Q : Post S β)
    (x : S.Exn) (tr : Trace S) : Post.next tail Q (.error x) tr = Q (.error x) tr := rfl

section Rules

variable {M : Machine S Req Res W Nudge} {role : Role S} {α β : Type} {Q Q' : Post S α}
  {tr : Trace S}

@[simp] theorem wp_ret (a : α) : wp M role (.ret a) Q tr ↔ Q (.ok a) tr := Iff.rfl

@[simp] theorem wp_throw (x : S.Exn) : wp M role (.throw x) Q tr ↔ Q (.error x) tr := Iff.rfl

@[simp] theorem wp_ofExcept (r : Except S.Exn α) :
    wp M role (Prog.ofExcept r) Q tr ↔ Q r tr := by
  cases r <;> exact Iff.rfl

theorem wp_bind {p : Prog S α} {f : α → Prog S β} {Q : Post S β} :
    wp M role (p >>= f) Q tr ↔
      wp M role p (Post.next (fun a tr => wp M role (f a) Q tr) Q) tr := by
  induction p generalizing tr with
  | ret a => exact Iff.rfl
  | throw x => exact Iff.rfl
  | call e k ih => simp only [Prog.call_bind, wp, ih]

/-- A mapped program is in the logic what it is before. -/
theorem wp_map {p : Prog S α} {f : α → β} {Q : Post S β}
    (mapped : wp M role p (fun r tr => Q (r.map f) tr) tr) : wp M role (f <$> p) Q tr := by
  show wp M role (p >>= fun a => Prog.ret (f a)) Q tr
  induction p generalizing tr with
  | ret a => exact mapped
  | throw x => exact mapped
  | call e k ih => exact ⟨mapped.1, fun a may assume => ih a (mapped.2 a may assume)⟩

theorem wp_attempt {p : Prog S α} {Q : Post S (Except S.Exn α)} :
    wp M role p.attempt Q tr ↔ wp M role p (fun r tr => Q (.ok r) tr) tr := by
  induction p generalizing tr with
  | ret a => exact Iff.rfl
  | throw x => exact Iff.rfl
  | call e k ih => simp only [Prog.attempt_call, wp, ih]

theorem wp_perform {e : S.Op} {Q : Post S (S.Val e)} :
    wp M role (Prog.perform e) Q tr ↔ role.Guard tr e ∧
      ∀ a, M.May tr ⟨e, a⟩ → role.Assume tr ⟨e, a⟩ → Q a (tr ++ [⟨e, a⟩]) := by
  simp only [Prog.perform, wp, wp_ofExcept]

/-- A program only adds events. -/
theorem wp_mono {p : Prog S α} (pre : wp M role p Q tr)
    (imp : ∀ r tr', tr <+: tr' → Q r tr' → Q' r tr') : wp M role p Q' tr := by
  induction p generalizing tr with
  | ret a => exact imp _ _ List.prefix_rfl pre
  | throw x => exact imp _ _ List.prefix_rfl pre
  | call e k ih =>
    refine ⟨pre.1, fun a may assume => ih a (pre.2 a may assume) fun r _ grown => ?_⟩
    exact imp r _ ((List.prefix_append _ _).trans grown)

/-- A program only adds events of the operations it uses. -/
theorem wp_uses {p : Prog S α} {P : S.Op → Prop} (uses : p.Uses P)
    (pre : wp M role p (fun r tr' => ∀ ext, tr' = tr ++ ext →
      (∀ e ∈ ext, P e.op) → Q r tr') tr) :
    wp M role p Q tr := by
  suffices key : ∀ (base ext : Trace S), tr = base ++ ext → (∀ e ∈ ext, P e.op) →
      wp M role p (fun r tr' => ∀ ext, tr' = base ++ ext →
        (∀ e ∈ ext, P e.op) → Q r tr') tr → wp M role p Q tr from
    key tr [] (List.append_nil tr).symm (by simp) pre
  clear pre
  induction p generalizing tr with
  | ret a => exact fun base ext split inside pre => pre ext split inside
  | throw x => exact fun base ext split inside pre => pre ext split inside
  | call e k ih =>
    intro base ext split inside pre
    refine ⟨pre.1, fun a may assume => ?_⟩
    refine ih a (uses.2 a) base (ext ++ [⟨e, a⟩]) (by rw [split, List.append_assoc]) ?_
      (pre.2 a may assume)
    intro e' member
    rcases List.mem_append.mp member with old | new
    · exact inside e' old
    · rw [List.mem_singleton.mp new]
      exact uses.1

/-- A program whose operations all meet the guard may run, whatever it is answered. -/
theorem wp_guarded {p : Prog S α} {P : S.Op → Prop} (uses : p.Uses P)
    (guard : ∀ tr e, P e → role.Guard tr e) : wp M role p (fun _ _ => True) tr := by
  induction p generalizing tr with
  | ret a => trivial
  | throw x => trivial
  | call e k ih => exact ⟨guard _ _ uses.1, fun a _ _ => ih a (uses.2 a)⟩

/-- Nothing is owed where the guard always holds. -/
theorem wp_free {p : Prog S α} (guard : ∀ tr e, role.Guard tr e) :
    wp M role p (fun _ _ => True) tr := by
  induction p generalizing tr with
  | ret a => trivial
  | throw x => trivial
  | call e k ih => exact ⟨guard tr e, fun a _ _ => ih a⟩

/-- What is left of a program of which only its operations matter. -/
theorem wp_of_uses {p : Prog S α} {P : S.Op → Prop} (uses : p.Uses P)
    (guard : ∀ tr e, P e → role.Guard tr e)
    (post : ∀ r ext, (∀ e ∈ ext, P e.op) → Q r (tr ++ ext)) : wp M role p Q tr := by
  refine wp_uses uses (wp_mono (wp_guarded uses guard) ?_)
  rintro r tr' - - ext rfl inside
  exact post r ext inside

/-- An invariant of the trace that the used operations keep, and that meets their guards. -/
theorem wp_invariant {p : Prog S α} {P : S.Op → Prop} {J : Trace S → Prop} (uses : p.Uses P)
    (keep : ∀ tr e, J tr → P e.op → J (tr ++ [e]))
    (guard : ∀ tr e, J tr → P e → role.Guard tr e) (start : J tr)
    (post : ∀ r ext, (∀ e ∈ ext, P e.op) → J (tr ++ ext) → Q r (tr ++ ext)) :
    wp M role p Q tr := by
  suffices key : wp M role p (fun _ tr' => J tr') tr by
    refine wp_uses uses (wp_mono key ?_)
    rintro r tr' - inv ext rfl inside
    exact post r ext inside inv
  clear post
  induction p generalizing tr with
  | ret a => exact start
  | throw x => exact start
  | call e k ih =>
    exact ⟨guard _ _ start uses.1, fun a _ _ => ih a (uses.2 a) (keep _ ⟨e, a⟩ start uses.1)⟩

/-- A program only returns what it may return. -/
theorem wp_returns {p : Prog S α} {R : α → Prop} (returns : p.Returns R)
    (pre : wp M role p (fun r tr' => (∀ a, r = .ok a → R a) → Q r tr') tr) :
    wp M role p Q tr := by
  induction p generalizing tr with
  | ret a => exact pre (by rintro b ⟨⟩; exact returns)
  | throw x => exact pre (by rintro b ⟨⟩)
  | call e k ih => exact ⟨pre.1, fun a may assume => ih a (returns a) (pre.2 a may assume)⟩

/-- What is left of a program of which only its operations and values matter. -/
theorem wp_within {p : Prog S α} {P : S.Op → Prop} {R : α → Prop} (uses : p.Uses P)
    (returns : p.Returns R) (guard : ∀ tr e, P e → role.Guard tr e)
    (post : ∀ r ext, (∀ e ∈ ext, P e.op) → (∀ a, r = .ok a → R a) → Q r (tr ++ ext)) :
    wp M role p Q tr :=
  wp_returns returns (wp_of_uses uses guard fun r ext inside value => post r ext inside value)

/-- A postcondition shown in another role that assumes no more. -/
theorem wp_conj {p : Prog S α} {role' : Role S} (left : wp M role p Q tr)
    (right : wp M role' p Q' tr) (assume : ∀ tr e, role.Assume tr e → role'.Assume tr e) :
    wp M role p (fun r tr => Q r tr ∧ Q' r tr) tr := by
  induction p generalizing tr with
  | ret a => exact ⟨left, right⟩
  | throw x => exact ⟨left, right⟩
  | call e k ih =>
    exact ⟨left.1, fun a may met => ih a (left.2 a may met) (right.2 a may (assume _ _ met))⟩

/-- A program keeps to a weaker guard, and may assume more. -/
theorem wp_role_mono {p : Prog S α} {role' : Role S} (pre : wp M role p Q tr)
    (guard : ∀ tr e, role.Guard tr e → role'.Guard tr e)
    (assume : ∀ tr e, role'.Assume tr e → role.Assume tr e) : wp M role' p Q tr := by
  induction p generalizing tr with
  | ret a => exact pre
  | throw x => exact pre
  | call e k ih =>
    exact ⟨guard _ _ pre.1, fun a may met => ih a (pre.2 a may (assume _ _ met))⟩

/-- The logic of a program is that of any machine with the same answers. -/
theorem wp_machine {Req' : Type} {M' : Machine S Req' Res W Nudge} {p : Prog S α}
    (pre : wp M role p Q tr) (may : ∀ tr e, M'.May tr e → M.May tr e) : wp M' role p Q tr := by
  induction p generalizing tr with
  | ret a => exact pre
  | throw x => exact pre
  | call e k ih =>
    exact ⟨pre.1, fun a there met => ih a (pre.2 a (may _ _ there) met)⟩

end Rules

/-! ## One program by itself -/

/-- A program that has seen `tr` may go on until it has seen `tr'`, and end with `r`. -/
inductive Machine.Runs (M : Machine S Req Res W Nudge) {α : Type} :
    Prog S α → Trace S → Trace S → Except S.Exn α → Prop
  | ret (a : α) (tr : Trace S) : Machine.Runs M (.ret a) tr tr (.ok a)
  | throw (x : S.Exn) (tr : Trace S) : Machine.Runs M (.throw x) tr tr (.error x)
  | call {e : S.Op} {k : S.Ans e → Prog S α} {tr tr' : Trace S} {r : Except S.Exn α} (a : S.Ans e)
      (may : M.May tr ⟨e, a⟩) (rest : Machine.Runs M (k a) (tr ++ [⟨e, a⟩]) tr' r) :
      Machine.Runs M (.call e k) tr tr' r

section Runs

variable {M : Machine S Req Res W Nudge} {α : Type} {p : Prog S α} {tr tr' : Trace S}
  {r : Except S.Exn α}

/-- A run of a program meets the postcondition that its `wp` is about. -/
theorem Machine.Runs.post {Guard : Trace S → S.Op → Prop} {Q : Post S α} (runs : M.Runs p tr tr' r)
    (pre : wp M (.guarding Guard) p Q tr) : Q r tr' := by
  induction runs with
  | ret a tr => exact pre
  | throw x tr => exact pre
  | call a may rest ih => exact ih (pre.2 a may trivial)

theorem Machine.Runs.prefix_trace (runs : M.Runs p tr tr' r) : tr <+: tr' := by
  induction runs with
  | ret a tr => exact List.prefix_rfl
  | throw x tr => exact List.prefix_rfl
  | call a may rest ih => exact (List.prefix_append _ _).trans ih

/-- A run only adds events of the operations that the program uses. -/
theorem Machine.Runs.within {P : S.Op → Prop} (runs : M.Runs p tr tr' r) (uses : p.Uses P) :
    ∃ ext, tr' = tr ++ ext ∧ ∀ e ∈ ext, P e.op := by
  induction runs with
  | ret a tr => exact ⟨[], (List.append_nil tr).symm, nofun⟩
  | throw x tr => exact ⟨[], (List.append_nil tr).symm, nofun⟩
  | @call e k tr tr' r a may rest ih =>
    obtain ⟨ext, rfl, inside⟩ := ih (uses.2 a)
    exact ⟨⟨e, a⟩ :: ext, List.append_assoc .., List.forall_mem_cons.mpr ⟨uses.1, inside⟩⟩

/-- A sequence runs its head, and then its tail if the head returns. -/
theorem Machine.Runs.bind {β : Type} {f : α → Prog S β} {r : Except S.Exn β}
    (runs : M.Runs (p >>= f) tr tr' r) :
    (∃ a mid, M.Runs p tr mid (.ok a) ∧ M.Runs (f a) mid tr' r) ∨
      ∃ x, M.Runs p tr tr' (.error x) ∧ r = .error x := by
  induction p generalizing tr with
  | ret a => exact .inl ⟨a, tr, .ret a tr, runs⟩
  | throw x =>
    cases runs with
    | throw x _ => exact .inr ⟨x, .throw x _, rfl⟩
  | call e k ih =>
    cases runs with
    | call a may rest =>
      rcases ih a rest with ⟨b, mid, first, last⟩ | ⟨x, raised, same⟩
      · exact .inl ⟨b, mid, .call a may first, last⟩
      · exact .inr ⟨x, .call a may raised, same⟩

/-- Reified, a program runs as it does. -/
theorem Machine.Runs.attempt {r : Except S.Exn (Except S.Exn α)}
    (runs : M.Runs p.attempt tr tr' r) : ∃ ended, M.Runs p tr tr' ended ∧ r = .ok ended := by
  induction p generalizing tr with
  | ret a =>
    cases runs with
    | ret _ _ => exact ⟨.ok a, .ret a _, rfl⟩
  | throw x =>
    cases runs with
    | ret _ _ => exact ⟨.error x, .throw x _, rfl⟩
  | call e k ih =>
    cases runs with
    | call a may rest =>
      obtain ⟨ended, inner, same⟩ := ih a rest
      exact ⟨ended, .call a may inner, same⟩

/-- A handler runs after what it handles, however that ends. -/
theorem Machine.Runs.attempt_bind {β : Type} {f : Except S.Exn α → Prog S β} {r : Except S.Exn β}
    (runs : M.Runs (p.attempt >>= f) tr tr' r) :
    ∃ ended mid, M.Runs p tr mid ended ∧ M.Runs (f ended) mid tr' r := by
  rcases runs.bind with ⟨a, mid, first, last⟩ | ⟨x, raised, -⟩
  · obtain ⟨ended, inner, same⟩ := first.attempt
    obtain rfl := Except.ok.inj same
    exact ⟨a, mid, inner, last⟩
  · obtain ⟨ended, -, same⟩ := raised.attempt
    cases same

/-- A program under no assumption runs. -/
theorem wp_runs {Guard : Trace S → S.Op → Prop} (guard : ∀ tr e, Guard tr e) (p : Prog S α)
    (tr : Trace S) : wp M (.guarding Guard) p (fun r tr' => M.Runs p tr tr' r) tr := by
  induction p generalizing tr with
  | ret a => exact .ret a tr
  | throw x => exact .throw x tr
  | call e k ih =>
    exact ⟨guard tr e, fun a may _ => wp_mono (ih a _) fun _ _ _ rest => .call a may rest⟩

/-- The machine that permits an answer wherever it is permitted after some events. -/
def Machine.forgetful (M : Machine S Req Res W Nudge) : Machine S Req Res W Nudge :=
  { M with Permits := fun w _ e => ∃ past, M.Permits w past e }

theorem Machine.may_of_forgetful {e : Event S} (may : M.forgetful.May tr e) :
    ∃ past, M.May past e := by
  obtain ⟨w, past, permits⟩ := may
  exact ⟨past, w, permits⟩

theorem not_between {before : Trace S} {e : Event S} (longer : tr <+: before) :
    ¬ before ++ [e] <+: tr := by
  intro sub
  have lengths := Nat.le_trans sub.length_le longer.length_le
  rw [List.length_append, List.length_singleton] at lengths
  omega

/-- A program that starts after other events runs as one that starts with none: what it
performs itself meets the guard and the postcondition. -/
theorem Machine.Runs.shifted {Guard : Trace S → S.Op → Prop} {Q : Post S α} {past : Trace S}
    (runs : M.Runs p (past ++ tr) tr' r) (pre : wp M.forgetful (.guarding Guard) p Q tr) :
    ∃ ext, tr' = past ++ (tr ++ ext) ∧ Q r (tr ++ ext) ∧
      ∀ before e, tr <+: before → before ++ [e] <+: tr ++ ext → Guard before e.op := by
  generalize start : past ++ tr = tr₀ at runs
  induction runs generalizing tr with
  | ret a tr₀ | throw a tr₀ =>
    refine ⟨[], by rw [List.append_nil, start], by rwa [List.append_nil], ?_⟩
    intro before e longer sub
    rw [List.append_nil] at sub
    exact (not_between longer sub).elim
  | @call e k tr₀ tr' r a may rest ih =>
    obtain ⟨w, permits⟩ := may
    have next := pre.2 a ⟨w, tr₀, permits⟩ trivial
    obtain ⟨ext, whole, post, guards⟩ := ih next (by rw [← List.append_assoc, start])
    rw [List.append_assoc] at whole post
    refine ⟨[⟨e, a⟩] ++ ext, whole, post, fun before e' longer sub => ?_⟩
    rcases Nat.eq_or_lt_of_le longer.length_le with same | later
    · -- the operation that is performed first
      obtain rfl := longer.eq_of_length same
      obtain ⟨rest, cut⟩ := sub
      rw [List.append_assoc] at cut
      obtain ⟨rfl, -⟩ := List.cons.inj (List.append_cancel_left cut)
      exact pre.1
    · refine guards before e' ?_ (by rwa [List.append_assoc])
      refine List.prefix_of_prefix_length_le ?_ ((List.prefix_append _ _).trans sub) ?_
      · exact ⟨ext, List.append_assoc _ _ _⟩
      · rw [List.length_append, List.length_singleton]
        exact later

/-- An environment that answers as the machine may makes a program run. -/
theorem Machine.runs_play {answer : Trace S → (e : S.Op) → S.Ans e} {P : S.Op → Prop}
    (may : ∀ past e, P e → M.May past ⟨e, answer past e⟩) (uses : p.Uses P) :
    M.Runs p tr (p.play answer tr).1 (p.play answer tr).2 := by
  induction p generalizing tr with
  | ret a => exact .ret a tr
  | throw x => exact .throw x tr
  | call e k ih => exact .call _ (may tr e uses.1) (ih _ (uses.2 _))

/-- Where no operation has more than one answer, a program runs in one way. -/
theorem Machine.Runs.eq_play {answer : Trace S → (e : S.Op) → S.Ans e} {P : S.Op → Prop}
    (only : ∀ past e a, P e → M.May past ⟨e, a⟩ → a = answer past e) (uses : p.Uses P)
    (runs : M.Runs p tr tr' r) : p.play answer tr = (tr', r) := by
  induction runs with
  | ret a tr => rfl
  | throw x tr => rfl
  | call a may rest ih =>
    obtain rfl := only _ _ a uses.1 may
    exact ih (uses.2 _)

end Runs

/-! ## From one program to the pool -/

section Under

variable {M : Machine S Req Res W Nudge} {role : Role S} {Q : Post S Res}

/-- A thread stays under the `wp` it was under, as long as its answers meet the
assumption. -/
theorem Machine.Reaches.under {c c' : Config S Req Res W} (run : M.Reaches c c') {i : Nat}
    {t t' : Thread S Req Res} (here : c.threads[i]? = some t) (pre : wp M role t.prog Q t.trace)
    (there : c'.threads[i]? = some t') (met : role.Met t'.trace) :
    wp M role t'.prog Q t'.trace := by
  induction run generalizing t' with
  | refl =>
    obtain rfl := Option.some.inj (here.symm.trans there)
    exact pre
  | @tail b c' before step ih =>
    obtain ⟨u, thread, _, _⟩ := Machine.Reaches.thread_mono before here
    obtain ⟨v, thread', _, grown⟩ := step.thread_mono thread
    obtain rfl := Option.some.inj (thread'.symm.trans there)
    have underB := ih thread fun pre e sub => met pre e (sub.trans grown)
    cases step with
    | spawn r =>
      have inBounds := (List.getElem?_eq_some_iff.mp thread).1
      rw [Config.spawn, List.getElem?_append_left inBounds, thread] at there
      obtain rfl := Option.some.inj there
      exact underB
    | @answer j w e k a running pending permits =>
      by_cases same : j = i
      · subst same
        obtain rfl := Option.some.inj (running.symm.trans thread)
        have inBounds := (List.getElem?_eq_some_iff.mp thread).1
        obtain rfl : (⟨w.req, k a, w.trace ++ [⟨e, a⟩]⟩ : Thread S Req Res) = v := by
          simpa [Config.answer, inBounds] using there
        rw [pending] at underB
        exact underB.2 a ⟨_, permits⟩ (met _ _ List.prefix_rfl)
      · rw [Config.answer, List.getElem?_set_ne same, thread] at there
        obtain rfl := Option.some.inj there
        exact underB
    | nudge n moved =>
      rw [thread] at there
      obtain rfl := Option.some.inj there
      exact underB

/-- Every thread started on a run is under the `wp` of its request. -/
theorem Machine.Reaches.under_spawned {c c' : Config S Req Res W} (run : M.Reaches c c')
    {i : Nat} {t : Thread S Req Res} (later : c.threads.length ≤ i)
    (thread : c'.threads[i]? = some t) (pre : wp M role (M.entry t.req) Q [])
    (met : role.Met t.trace) : wp M role t.prog Q t.trace := by
  obtain ⟨mid, -, last, fresh⟩ := run.spawned later thread
  exact Machine.Reaches.under last fresh pre thread met

/-- On a run from the start, that is every thread. -/
theorem Machine.Reaches.under_start {w : W} {c : Config S Req Res W}
    (run : M.Reaches (.start w) c) {i : Nat} {t : Thread S Req Res}
    (thread : c.threads[i]? = some t) (pre : wp M role (M.entry t.req) Q [])
    (met : role.Met t.trace) : wp M role t.prog Q t.trace :=
  Machine.Reaches.under_spawned run (Nat.zero_le i) thread pre met

end Under

end Interaction
