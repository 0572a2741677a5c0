import Mathlib.Logic.Relation
import Mathlib.Data.List.Infix

/-!
# Interaction programs

A program in direct style that talks to its environment is a tree: it returns,
it raises, or it performs an operation and goes on with whatever the
environment answers. An answer is a value or an exception, so every operation
may fail; the tree is well founded, so a program that is answered always ends.

`Prog.attempt` reifies the outcome of a program, and is the only construct that
stops an exception. `Prog.Uses` bounds the operations that occur in a program,
whatever is answered.
-/

namespace Interaction

/-- What a program may do: its operations, the value each one yields, and the
exceptions that an answer may carry instead. -/
structure Sig where
  Op : Type
  Val : Op → Type
  Exn : Type

namespace Sig

variable (S : Sig)

/-- The environment's answer to one operation. -/
abbrev Ans (e : S.Op) : Type := Except S.Exn (S.Val e)

end Sig

/-- One operation with its answer. -/
structure Event (S : Sig) where
  op : S.Op
  ans : S.Ans op

/-- The events of one program, oldest first. -/
abbrev Trace (S : Sig) : Type := List (Event S)

/-- Interaction programs over `S` that return an `α`. -/
inductive Prog (S : Sig) (α : Type) : Type
  | ret (a : α)
  | throw (x : S.Exn)
  | call (e : S.Op) (k : S.Ans e → Prog S α)

namespace Prog

variable {S : Sig} {α β : Type}

/-- Go on with `f` after a return; an exception skips `f`. -/
def bind : Prog S α → (α → Prog S β) → Prog S β
  | .ret a, f => f a
  | .throw x, _ => .throw x
  | .call e k, f => .call e fun a => (k a).bind f

instance : Monad (Prog S) where
  pure := .ret
  bind := .bind

/-- Raise the exception of an `Except`, return its value. -/
def ofExcept : Except S.Exn α → Prog S α
  | .ok a => .ret a
  | .error x => .throw x

/-- Perform one operation. -/
def perform (e : S.Op) : Prog S (S.Val e) := .call e ofExcept

/-- Run a program and return how it ended. -/
def attempt : Prog S α → Prog S (Except S.Exn α)
  | .ret a => .ret (.ok a)
  | .throw x => .ret (.error x)
  | .call e k => .call e fun a => (k a).attempt

/-- The operation that a program is about to perform. -/
def next : Prog S α → Option S.Op
  | .call e _ => some e
  | _ => none

theorem next_eq_some {p : Prog S α} {e : S.Op} : p.next = some e ↔ ∃ k, p = .call e k := by
  cases p with
  | call e' k =>
    constructor
    · rintro ⟨⟩
      exact ⟨k, rfl⟩
    · rintro ⟨k', same⟩
      cases same
      rfl
  | _ => simp [next]

@[simp] theorem pure_def (a : α) : (pure a : Prog S α) = .ret a := rfl

@[simp] theorem ret_bind (a : α) (f : α → Prog S β) : (Prog.ret a >>= f) = f a := rfl

@[simp] theorem throw_bind (x : S.Exn) (f : α → Prog S β) :
    (Prog.throw x >>= f) = .throw x := rfl

@[simp] theorem call_bind (e : S.Op) (k : S.Ans e → Prog S α) (f : α → Prog S β) :
    (Prog.call e k >>= f) = .call e fun a => k a >>= f := rfl

@[simp] theorem attempt_ret (a : α) : (Prog.ret a : Prog S α).attempt = .ret (.ok a) := rfl

@[simp] theorem attempt_throw (x : S.Exn) :
    (Prog.throw x : Prog S α).attempt = .ret (.error x) := rfl

@[simp] theorem attempt_call (e : S.Op) (k : S.Ans e → Prog S α) :
    (Prog.call e k).attempt = .call e fun a => (k a).attempt := rfl

/-- Answer a program to its end, each operation by what it has performed before. -/
def play (answer : Trace S → (e : S.Op) → S.Ans e) : Trace S → Prog S α → Trace S × Except S.Exn α
  | past, .ret a => (past, .ok a)
  | past, .throw x => (past, .error x)
  | past, .call e k => (k (answer past e)).play answer (past ++ [⟨e, answer past e⟩])

/-- A sequence plays its head, and then what its value leads to. -/
theorem play_bind {answer : Trace S → (e : S.Op) → S.Ans e} (p : Prog S α) (f : α → Prog S β)
    (past : Trace S) : (p >>= f).play answer past = match p.play answer past with
      | (tr, .ok a) => (f a).play answer tr
      | (tr, .error x) => (tr, .error x) := by
  induction p generalizing past with
  | ret a => rfl
  | throw x => rfl
  | call e k ih => exact ih _ _

theorem play_ofExcept {answer : Trace S → (e : S.Op) → S.Ans e} (r : Except S.Exn α)
    (past : Trace S) : (ofExcept r).play answer past = (past, r) := by
  cases r <;> rfl

/-- Every operation of a played program is answered so. -/
theorem play_answers {answer : Trace S → (e : S.Op) → S.Ans e} (p : Prog S α) (past : Trace S) :
    past <+: (p.play answer past).1 ∧ ∀ pre e post, (p.play answer past).1 = pre ++ e :: post →
      past.length ≤ pre.length → e.ans = answer pre e.op := by
  induction p generalizing past with
  | ret a | throw x =>
    refine ⟨List.prefix_rfl, fun pre e post split longer => ?_⟩
    have lengths := congrArg List.length split
    simp only [play, List.length_append, List.length_cons] at lengths
    omega
  | call e k ih =>
    obtain ⟨grown, answers⟩ := ih (answer past e) (past ++ [⟨e, answer past e⟩])
    refine ⟨(List.prefix_append _ _).trans grown, fun pre e' post split longer => ?_⟩
    rcases Nat.eq_or_lt_of_le longer with same | later
    · -- the operation that is answered first
      obtain ⟨rest, whole⟩ := grown
      rw [List.append_assoc, List.singleton_append] at whole
      obtain ⟨rfl, tail⟩ := List.append_inj (whole.trans split) same
      obtain ⟨rfl, -⟩ := List.cons.inj tail
      rfl
    · refine answers pre e' post split ?_
      rw [List.length_append, List.length_singleton]
      exact later

/-! ## The operations a program may perform -/

/-- Every operation that `p` may ever perform satisfies `P`. -/
def Uses (P : S.Op → Prop) : Prog S α → Prop
  | .ret _ => True
  | .throw _ => True
  | .call e k => P e ∧ ∀ a, (k a).Uses P

variable {P Q : S.Op → Prop}

@[simp] theorem uses_ret (a : α) : (Prog.ret a : Prog S α).Uses P := trivial

@[simp] theorem uses_throw (x : S.Exn) : (Prog.throw x : Prog S α).Uses P := trivial

@[simp] theorem uses_ofExcept (r : Except S.Exn α) : (ofExcept r).Uses P := by
  cases r <;> trivial

@[simp] theorem uses_perform (e : S.Op) : (perform e).Uses P ↔ P e :=
  ⟨fun h => h.1, fun h => ⟨h, uses_ofExcept⟩⟩

/-- A sequence uses what its parts use. -/
theorem Uses.bind {p : Prog S α} {f : α → Prog S β} (head : p.Uses P)
    (tail : ∀ a, (f a).Uses P) : (p >>= f).Uses P := by
  induction p with
  | ret a => exact tail a
  | throw x => trivial
  | call e k ih => exact ⟨head.1, fun a => ih a (head.2 a)⟩

/-- Catching exceptions uses nothing more. -/
theorem Uses.attempt {p : Prog S α} (uses : p.Uses P) : p.attempt.Uses P := by
  induction p with
  | ret a => trivial
  | throw x => trivial
  | call e k ih => exact ⟨uses.1, fun a => ih a (uses.2 a)⟩

/-- A program within a set is within any larger one. -/
theorem Uses.mono {p : Prog S α} (uses : p.Uses P) (imp : ∀ e, P e → Q e) : p.Uses Q := by
  induction p with
  | ret a => trivial
  | throw x => trivial
  | call e k ih => exact ⟨imp e uses.1, fun a => ih a (uses.2 a)⟩

theorem Uses.ite {c : Prop} [Decidable c] {p q : Prog S α} (yes : c → p.Uses P)
    (no : ¬ c → q.Uses P) : (if c then p else q).Uses P := by
  split
  · exact yes ‹_›
  · exact no ‹_›

/-! ## The values a program may return -/

/-- Every value that `p` may ever return satisfies `R`. -/
def Returns (R : α → Prop) : Prog S α → Prop
  | .ret a => R a
  | .throw _ => True
  | .call _ k => ∀ a, (k a).Returns R

/-- What a sequence returns is what its tail returns. -/
theorem Returns.bind {p : Prog S α} {f : α → Prog S β} {R : β → Prop}
    (tail : ∀ a, (f a).Returns R) : (p >>= f).Returns R := by
  induction p with
  | ret a => exact tail a
  | throw x => trivial
  | call e k ih => exact fun a => ih a

/-- The value of the head may matter to the tail. -/
theorem Returns.bind_of {p : Prog S α} {f : α → Prog S β} {R : α → Prop} {R' : β → Prop}
    (head : p.Returns R) (tail : ∀ a, R a → (f a).Returns R') : (p >>= f).Returns R' := by
  induction p with
  | ret a => exact tail a head
  | throw x => trivial
  | call e k ih => exact fun a => ih a (head a)

/-- A value that was computed is returned as it is. -/
theorem returns_ofExcept {r : Except S.Exn α} {R : α → Prop} (returns : ∀ a, r = .ok a → R a) :
    (ofExcept r).Returns R := by
  cases r with
  | ok a => exact returns a rfl
  | error x => trivial

/-- The value of the head may matter to what the tail performs. -/
theorem Uses.bind_of {p : Prog S α} {f : α → Prog S β} {R : α → Prop} (head : p.Uses P)
    (returns : p.Returns R) (tail : ∀ a, R a → (f a).Uses P) : (p >>= f).Uses P := by
  induction p with
  | ret a => exact tail a returns
  | throw x => trivial
  | call e k ih => exact ⟨head.1, fun a => ih a (head.2 a) (returns a)⟩

/-- A caught program returns what it returned, or an exception. -/
theorem Returns.attempt {p : Prog S α} {R : α → Prop} (returns : p.Returns R) :
    p.attempt.Returns fun r => ∀ a, r = .ok a → R a := by
  induction p with
  | ret a =>
    rintro b ⟨⟩
    exact returns
  | throw x =>
    rintro b ⟨⟩
  | call e k ih => exact fun a => ih a (returns a)

end Prog

end Interaction
