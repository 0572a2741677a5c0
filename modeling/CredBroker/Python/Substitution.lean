import Mathlib.Data.List.Basic
import Mathlib.Data.List.Infix
import Mathlib.Data.List.Induction

/-!
# Substitution in words

`substAll` goes through a text from left to right and puts `new` for every word of a
list that it comes to. The items of a text may carry more than their letters, which
`val` reads: so can be followed where each item of the result comes from.

Where no two occurrences share a position (`Apart`) and none reaches into a place
where `new` stands (`Inert`), substituting words one after the other is one substitution
of them all (`foldl_substAll`), in any order (`substAll_congr`), and nothing that a word
covered is left (`mem_substAll`).
-/

namespace Substitution

variable {A α β : Type}

/-! ## Occurrences -/

/-- The word occurs at this position. -/
def At (w text : List A) (i : Nat) : Prop := w <+: text.drop i

/-- Two occurrences of words that share a position are one. -/
def Apart (words : List (List A)) (text : List A) : Prop :=
  ∀ v ∈ words, ∀ w ∈ words, ∀ i j, At v text i → At w text j →
    i < j + w.length → j < i + v.length → v = w ∧ i = j

/-- No word reaches into an occurrence of `new`. -/
def Inert (words : List (List A)) (new : List A) : Prop :=
  ∀ w ∈ words, ∀ text i j, At w text i → At new text j →
    i < j + new.length → j < i + w.length → w = new ∧ i = j

section Occurrences

variable {v w text text' : List A} {words others : List (List A)} {i k : Nat}

theorem at_drop : At w (text.drop k) i ↔ At w text (k + i) := by
  rw [At, At, List.drop_drop]

theorem At.length_le (occurs : At w text i) (nonempty : w ≠ []) : i + w.length ≤ text.length := by
  have shorter := List.IsPrefix.length_le occurs
  have positive := List.length_pos_of_ne_nil nonempty
  rw [List.length_drop] at shorter
  omega

theorem At.isInfix (occurs : At w text i) : w <:+: text :=
  List.IsPrefix.isInfix occurs |>.trans (List.drop_suffix i text).isInfix

theorem At.getElem? (occurs : At w text i) (inside : k < w.length) : text[i + k]? = w[k]? := by
  obtain ⟨rest, split⟩ := occurs
  rw [← List.getElem?_drop, ← split, List.getElem?_append_left inside]

/-- Of two words at one place the shorter one begins the other. -/
theorem At.begins (occurs : At v text i) (occurs' : At w text i) (le : v.length ≤ w.length) :
    v <+: w := List.prefix_of_prefix_length_le occurs occurs' le

/-- The rest of a word occurs where it stands. -/
theorem At.rest (occurs : At w text i) (k : Nat) : At (w.drop k) text (i + k) := by
  rw [At, ← List.drop_drop]
  exact List.IsPrefix.drop occurs k

/-- An occurrence depends on its own letters only. -/
theorem At.of_take (occurs : At w text i) (same : text.take k = text'.take k)
    (inside : i + w.length ≤ k) : At w text' i := by
  have cut : ∀ text : List A,
      (text.drop i).take w.length = ((text.take k).drop i).take w.length := by
    intro text
    rw [List.drop_take, List.take_take, Nat.min_eq_left (by omega)]
  rw [At, List.prefix_iff_eq_take] at occurs ⊢
  exact occurs.trans ((cut text).trans (by rw [same, ← cut text']))

theorem Apart.drop (apart : Apart words text) (k : Nat) : Apart words (text.drop k) := by
  intro v left w right i j at_ at' lt lt'
  obtain ⟨rfl, same⟩ := apart v left w right (k + i) (k + j) (at_drop.mp at_) (at_drop.mp at')
    (by omega) (by omega)
  exact ⟨rfl, by omega⟩

theorem Apart.mono (apart : Apart words text) (sub : ∀ w ∈ others, w ∈ words) :
    Apart others text :=
  fun v left w right => apart v (sub v left) w (sub w right)

theorem Inert.mono {new : List A} (inert : Inert words new) (sub : ∀ w ∈ others, w ∈ words) :
    Inert others new := fun w member => inert w (sub w member)

/-- At most one word begins at the beginning. -/
theorem Apart.only (apart : Apart words text) (nonempty : ∀ w ∈ words, w ≠ []) (left : v ∈ words)
    (right : w ∈ words) (begins : v <+: text) (begins' : w <+: text) : v = w :=
  (apart v left w right 0 0 begins begins'
    (by have := List.length_pos_of_ne_nil (nonempty w right); omega)
    (by have := List.length_pos_of_ne_nil (nonempty v left); omega)).1

end Occurrences

/-! ## Substitution -/

variable [DecidableEq A]

/-- `skip` more items belong to the word that was found last. -/
def substFrom (val : α → A) (words : List (List A)) (new : List α) : (skip : Nat) → List α → List α
  | _, [] => []
  | skip + 1, _ :: text => substFrom val words new skip text
  | 0, c :: text =>
    match words.find? (·.isPrefixOf ((c :: text).map val)) with
    | some w => new ++ substFrom val words new (w.length - 1) text
    | none => c :: substFrom val words new 0 text

/-- The text with `new` in the place of the words. -/
def substAll (val : α → A) (words : List (List A)) (new text : List α) : List α :=
  substFrom val words new 0 text

section Equations

variable {val : α → A} {words : List (List A)} {new text : List α} {w : List A} {c : α}

theorem substAll_nil : substAll val words new [] = [] := rfl

theorem substFrom_skip (skip : Nat) (text : List α) :
    substFrom val words new skip text = substAll val words new (text.drop skip) := by
  induction text generalizing skip with
  | nil => simp [substFrom, substAll_nil]
  | cons c text ih =>
    cases skip with
    | zero => rfl
    | succ skip => exact ih skip

variable (val new) in
/-- At each item a word begins, or none does. -/
theorem substAll_cases (nonempty : ∀ w ∈ words, w ≠ []) (c : α) (text : List α) :
    (∃ w ∈ words, w <+: (c :: text).map val ∧ substAll val words new (c :: text) =
      new ++ substAll val words new ((c :: text).drop w.length)) ∨
    (∀ w ∈ words, ¬ w <+: (c :: text).map val) ∧
      substAll val words new (c :: text) = c :: substAll val words new text := by
  cases found : words.find? (·.isPrefixOf ((c :: text).map val)) with
  | none =>
    refine .inr ⟨fun w member begins => ?_, ?_⟩
    · exact List.find?_eq_none.mp found w member (List.isPrefixOf_iff_prefix.mpr begins)
    · rw [substAll, substFrom, found]
      rfl
  | some w =>
    have member := List.mem_of_find?_eq_some found
    have begins : w.isPrefixOf ((c :: text).map val) = true := by
      simpa using List.find?_some found
    refine .inl ⟨w, member, List.isPrefixOf_iff_prefix.mp begins, ?_⟩
    rw [substAll, substFrom, found]
    show new ++ substFrom val words new (w.length - 1) text = _
    rw [substFrom_skip]
    cases w with
    | nil => exact (nonempty [] member rfl).elim
    | cons a w => rfl

theorem substAll_hit (nonempty : ∀ w ∈ words, w ≠ []) (member : w ∈ words)
    (begins : w <+: text.map val) (only : ∀ v ∈ words, v <+: text.map val → v = w) :
    substAll val words new text = new ++ substAll val words new (text.drop w.length) := by
  cases text with
  | nil => exact (nonempty w member (List.prefix_nil.mp begins)).elim
  | cons c text =>
    rcases substAll_cases val new nonempty c text with ⟨v, there, first, eq⟩ | ⟨none_, -⟩
    · rw [eq, only v there first]
    · exact (none_ w member begins).elim

theorem substAll_miss (nonempty : ∀ w ∈ words, w ≠ [])
    (miss : ∀ w ∈ words, ¬ w <+: (c :: text).map val) :
    substAll val words new (c :: text) = c :: substAll val words new text := by
  rcases substAll_cases val new nonempty c text with ⟨v, there, first, -⟩ | ⟨-, eq⟩
  · exact (miss v there first).elim
  · exact eq

/-- What the items carry besides their letters makes no difference. -/
theorem map_substAll (val' : β → A) (f : α → β) (same : ∀ a, val' (f a) = val a) :
    (substAll val words new text).map f = substAll val' words (new.map f) (text.map f) := by
  have letters : ∀ text : List α, (text.map f).map val' = text.map val := by
    intro text
    rw [List.map_map]
    exact List.map_congr_left fun a _ => same a
  suffices key : ∀ skip, (substFrom val words new skip text).map f =
      substFrom val' words (new.map f) skip (text.map f) from key 0
  induction text with
  | nil => simp [substFrom]
  | cons c text ih =>
    intro skip
    cases skip with
    | succ skip => exact ih skip
    | zero =>
      rw [List.map_cons, substFrom, substFrom, ← List.map_cons, letters]
      cases words.find? (·.isPrefixOf ((c :: text).map val)) with
      | none => rw [List.map_cons, ih]
      | some w => rw [List.map_append, ih]

/-- Where no word begins, the text is copied. -/
theorem substAll_copy (nonempty : ∀ w ∈ words, w ≠ []) {k : Nat}
    (free : ∀ i < k, ∀ w ∈ words, ¬ At w (text.map val) i) :
    substAll val words new text = text.take k ++ substAll val words new (text.drop k) := by
  induction k generalizing text with
  | zero => rfl
  | succ k ih =>
    cases text with
    | nil => rfl
    | cons c text =>
      rw [substAll_miss nonempty (free 0 (by omega)), List.take_succ_cons, List.drop_succ_cons,
        List.cons_append, ← ih fun i lt => free (i + 1) (by omega)]

theorem substAll_free (nonempty : ∀ w ∈ words, w ≠ [])
    (free : ∀ w ∈ words, ¬ w <:+: text.map val) : substAll val words new text = text := by
  have copied : substAll val words new text = _ :=
    substAll_copy (k := text.length) nonempty fun _ _ w member occurs =>
    free w member occurs.isInfix
  rwa [List.take_length, List.drop_length, substAll_nil, List.append_nil] at copied

/-- The first place where the one word is replaced. -/
theorem substAll_first (nonempty : w ≠ []) (occurs : w <:+: text.map val) :
    ∃ head tail, text = head ++ tail ∧ w <+: tail.map val ∧ substAll val [w] new text =
      head ++ (new ++ substAll val [w] new (tail.drop w.length)) := by
  induction text with
  | nil => exact (nonempty (List.infix_nil.mp occurs)).elim
  | cons c text ih =>
    have single : ∀ v ∈ [w], v ≠ [] := by simpa using nonempty
    rcases substAll_cases val new single c text with ⟨v, member, begins, eq⟩ | ⟨missed, eq⟩
    · obtain rfl := List.mem_singleton.mp member
      exact ⟨[], c :: text, rfl, begins, eq⟩
    · have later := (List.infix_cons_iff.mp occurs).resolve_left (missed w List.mem_cons_self)
      obtain ⟨head, tail, rfl, begins, split⟩ := ih later
      exact ⟨c :: head, tail, rfl, begins, by rw [eq, split]; rfl⟩

/-- Something stays of a text. -/
theorem substAll_ne_nil (nonempty : ∀ w ∈ words, w ≠ []) (written : new ≠ []) (some_ : text ≠ []) :
    substAll val words new text ≠ [] := by
  cases text with
  | nil => exact (some_ rfl).elim
  | cons c text =>
    rcases substAll_cases val new nonempty c text with ⟨w, -, -, eq⟩ | ⟨-, eq⟩
    · rw [eq]
      exact List.append_ne_nil_of_left_ne_nil written _
    · rw [eq]
      exact List.cons_ne_nil _ _

end Equations

/-! ## Words that stay clear of what is put in -/

section Composition

variable {val : α → A} {words others : List (List A)} {new text : List α}
  (nonempty : ∀ w ∈ words, w ≠ []) (written : new ≠ [])

include nonempty

variable (val new) in
/-- The result agrees with the text up to the first place where `new` was put. -/
theorem take_or_new (text : List α) (k : Nat) :
    ((substAll val words new text).map val).take k = (text.map val).take k ∨
      ∃ i < k, At (new.map val) ((substAll val words new text).map val) i := by
  induction k generalizing text with
  | zero => exact .inl rfl
  | succ k ih =>
    cases text with
    | nil => exact .inl rfl
    | cons c text =>
      rcases substAll_cases val new nonempty c text with ⟨w, -, -, eq⟩ | ⟨-, eq⟩
      · refine .inr ⟨0, by omega, ?_⟩
        rw [eq, List.map_append]
        exact List.prefix_append _ _
      · rw [eq]
        rcases ih text with same | ⟨i, lt, stands⟩
        · exact .inl (by rw [List.map_cons, List.map_cons, List.take_succ_cons,
            List.take_succ_cons, same])
        · exact .inr ⟨i + 1, by omega, stands⟩

include written

/-- Where `new` stands, nothing is done but to replace it by itself. -/
theorem substAll_new (inert : Inert words (new.map val)) (text : List α) :
    substAll val words new (new ++ text) = new ++ substAll val words new text := by
  have length := List.length_pos_of_ne_nil written
  have stands : At (new.map val) ((new ++ text).map val) 0 := by
    rw [List.map_append]
    exact List.prefix_append _ _
  have clear : ∀ w ∈ words, ∀ i < new.length, At w ((new ++ text).map val) i →
      w = new.map val ∧ i = 0 := by
    intro w member i lt occurs
    have positive := List.length_pos_of_ne_nil (nonempty w member)
    exact inert w member _ i 0 occurs stands (by rw [List.length_map]; omega) (by omega)
  by_cases itself : new.map val ∈ words
  · rw [substAll_hit nonempty itself stands fun v there begins => (clear v there 0 length begins).1,
      List.length_map, List.drop_left]
  · rw [substAll_copy (k := new.length) nonempty fun i lt w member occurs => ?_, List.take_left,
      List.drop_left]
    exact itself ((clear w member i lt occurs).1 ▸ member)

omit written in
/-- A word that begins in the result where none was replaced began in the text. -/
theorem begins_back {v : List A} {c : α} (inert : Inert [v] (new.map val))
    (begins : v <+: (c :: substAll val words new text).map val) : v <+: (c :: text).map val := by
  rcases take_or_new val new nonempty text (v.length - 1) with same | ⟨i, lt, stands⟩
  · cases v with
    | nil => exact List.nil_prefix
    | cons a v =>
      refine At.of_take (k := v.length + 1) (i := 0) begins ?_ (by simp)
      exact congrArg (val c :: ·) same
  · obtain ⟨-, same⟩ := inert v List.mem_cons_self _ 0 (i + 1) begins stands (by omega) (by omega)
    omega

/-- Two substitutions, one after the other, are one. -/
theorem substAll_append (nonempty' : ∀ w ∈ others, w ≠ [])
    (inert : Inert (words ++ others) (new.map val))
    (apart : Apart (words ++ others) (text.map val)) :
    substAll val others new (substAll val words new text) =
      substAll val (words ++ others) new text := by
  have nonempty₂ : ∀ w ∈ words ++ others, w ≠ [] := List.forall_mem_append.mpr ⟨nonempty, nonempty'⟩
  have later : ∀ w ∈ others, w ∈ words ++ others := fun w => List.mem_append_right _
  induction size : text.length using Nat.strong_induction_on generalizing text with
  | _ n ih =>
    have rest : ∀ k, 0 < k → 0 < text.length →
        substAll val others new (substAll val words new (text.drop k)) =
          substAll val (words ++ others) new (text.drop k) := by
      intro k positive long
      refine ih _ ?_ ?_ rfl
      · rw [List.length_drop]
        omega
      · rw [List.map_drop]
        exact apart.drop k
    cases text with
    | nil => rfl
    | cons c text =>
      have long : 0 < (c :: text).length := Nat.succ_pos _
      by_cases first : ∃ w ∈ words, w <+: (c :: text).map val
      · -- the first substitution begins here
        obtain ⟨w, member, begins⟩ := first
        have there := List.mem_append_left others member
        rw [substAll_hit nonempty member begins fun v is begins' =>
            apart.only nonempty₂ (List.mem_append_left _ is) there begins' begins,
          substAll_new nonempty' written (inert.mono later),
          substAll_hit nonempty₂ there begins fun v is begins' =>
            apart.only nonempty₂ is there begins' begins,
          rest _ (List.length_pos_of_ne_nil (nonempty w member)) long]
      · have missed : ∀ w ∈ words, ¬ w <+: (c :: text).map val := fun w member begins =>
          first ⟨w, member, begins⟩
        have back : ∀ w ∈ others, w <+: (substAll val words new (c :: text)).map val →
            w <+: (c :: text).map val := by
          intro w member begins
          rw [substAll_miss nonempty missed] at begins
          exact begins_back nonempty (inert.mono (by simpa using .inr member)) begins
        by_cases second : ∃ w ∈ others, w <+: (c :: text).map val
        · -- the second one does, and the first leaves its word alone
          obtain ⟨w, member, begins⟩ := second
          have there := later w member
          have positive := List.length_pos_of_ne_nil (nonempty' w member)
          have copied : substAll val words new (c :: text) = _ :=
            substAll_copy (k := w.length) nonempty fun i lt v is occurs => by
              obtain ⟨rfl, rfl⟩ := apart v (List.mem_append_left _ is) w there i 0 occurs begins
                (by omega) (by have := List.length_pos_of_ne_nil (nonempty v is); omega)
              exact missed v is begins
          have short : w.length ≤ (c :: text).length := by
            simpa using List.IsPrefix.length_le begins
          have only : ∀ v ∈ others, v <+: (substAll val words new (c :: text)).map val → v = w :=
            fun v is begins' => apart.only nonempty₂ (later v is) there (back v is begins') begins
          have stays : w <+: (substAll val words new (c :: text)).map val := by
            rw [copied, List.map_append, List.map_take, ← List.prefix_iff_eq_take.mp begins]
            exact List.prefix_append _ _
          have after : (substAll val words new (c :: text)).drop w.length =
              substAll val words new ((c :: text).drop w.length) := by
            rw [copied, List.drop_left' (by rw [List.length_take, Nat.min_eq_left short])]
          rw [substAll_hit nonempty' member stays only, after, rest _ positive long,
            substAll_hit nonempty₂ there begins fun v is begins' =>
              apart.only nonempty₂ is there begins' begins]
        · have none_ : ∀ w ∈ words ++ others, ¬ w <+: (c :: text).map val := by
            refine List.forall_mem_append.mpr ⟨missed, fun w member begins => ?_⟩
            exact second ⟨w, member, begins⟩
          have missed' : ∀ w ∈ others, ¬ w <+: (c :: substAll val words new text).map val := by
            intro w member begins
            rw [← substAll_miss nonempty missed] at begins
            exact second ⟨w, member, back w member begins⟩
          rw [substAll_miss nonempty missed, substAll_miss nonempty' missed',
            substAll_miss nonempty₂ none_]
          exact congrArg _ (rest 1 (by omega) long)

/-- Words that are substituted one after the other. -/
theorem foldl_substAll (inert : Inert words (new.map val)) (apart : Apart words (text.map val)) :
    words.foldl (fun text w => substAll val [w] new text) text = substAll val words new text := by
  induction words using List.reverseRecOn with
  | nil => exact (substAll_free nonempty nofun).symm
  | append_singleton words w ih =>
    obtain ⟨nonempty, last⟩ := List.forall_mem_append.mp nonempty
    have before : ∀ v ∈ words, v ∈ words ++ [w] := fun v => List.mem_append_left [w]
    rw [List.foldl_append, ih nonempty (inert.mono before) (apart.mono before)]
    exact substAll_append nonempty written last inert apart

/-- What is put between two parts of a text splits the work. -/
theorem substAll_around {w : List A} (only : words = [w]) (inert : Inert words (new.map val))
    (head tail : List α) : substAll val words new (head ++ (new ++ tail)) =
      substAll val words new head ++ (new ++ substAll val words new tail) := by
  subst only
  have written' := List.length_pos_of_ne_nil written
  induction size : head.length using Nat.strong_induction_on generalizing head with
  | _ n ih =>
    cases head with
    | nil => exact substAll_new nonempty written inert tail
    | cons c head =>
      have inside : w <+: (c :: head ++ (new ++ tail)).map val → w <+: (c :: head).map val := by
        intro begins
        by_cases short : w.length ≤ (c :: head).length
        · refine List.prefix_of_prefix_length_le begins ?_ (by simpa using short)
          rw [List.map_append]
          exact List.prefix_append _ _
        · have stands : At (new.map val) ((c :: head ++ (new ++ tail)).map val)
              (c :: head).length := by
            rw [List.map_append, List.map_append, At, List.drop_left' (by simp)]
            exact List.prefix_append _ _
          obtain ⟨-, same⟩ := inert w List.mem_cons_self _ 0 _ begins stands
            (by rw [List.length_map]; omega) (by omega)
          cases same
      by_cases first : w <+: (c :: head).map val
      · have begins : w <+: (c :: head ++ (new ++ tail)).map val := by
          rw [List.map_append]
          exact first.trans (List.prefix_append _ _)
        have short : w.length ≤ (c :: head).length := by
          simpa using List.IsPrefix.length_le first
        have positive := List.length_pos_of_ne_nil (nonempty w List.mem_cons_self)
        rw [substAll_hit nonempty List.mem_cons_self begins (by simp),
          substAll_hit nonempty List.mem_cons_self first (by simp),
          List.drop_append_of_le_length short, ih _ ?_ _ rfl, List.append_assoc]
        rw [List.length_drop, ← size]
        omega
      · have missed : ∀ v ∈ [w], ¬ v <+: (c :: head).map val := by simpa using first
        rw [List.cons_append,
          substAll_miss nonempty (by simpa using fun begins => first (inside begins)),
          substAll_miss nonempty missed, List.cons_append,
            ih head.length (by simp [← size]) head rfl]

section Sequence

variable {secrets : List (List A)} (nonempty' : ∀ w ∈ secrets, w ≠ [])
  (inert : Inert secrets (new.map val))

omit nonempty
include nonempty' inert

/-- One substitution after the other leaves a place where `new` stands. -/
theorem foldl_around (head tail : List α) : ∃ head' tail',
    secrets.foldl (fun text w => substAll val [w] new text) (head ++ (new ++ tail)) =
      head' ++ (new ++ tail') ∧ (head ≠ [] → head' ≠ []) ∧ (tail ≠ [] → tail' ≠ []) := by
  induction secrets generalizing head tail with
  | nil => exact ⟨head, tail, rfl, id, id⟩
  | cons w secrets ih =>
    obtain ⟨first, others⟩ := List.forall_mem_cons.mp nonempty'
    have first : ∀ v ∈ [w], v ≠ [] := by simpa using first
    obtain ⟨head', tail', eq, heads, tails⟩ := ih others
      (inert.mono fun v => List.mem_cons_of_mem w) (substAll val [w] new head)
      (substAll val [w] new tail)
    refine ⟨head', tail', ?_, fun some_ => heads (substAll_ne_nil first written some_),
      fun some_ => tails (substAll_ne_nil first written some_)⟩
    rw [List.foldl_cons, substAll_around first written rfl (inert.mono (by simp)), eq]

/-- A text of which only `new` could be touched stays. -/
theorem foldl_new (tail : List α) (free : ∀ w ∈ secrets, ¬ w <:+: tail.map val) :
    secrets.foldl (fun text w => substAll val [w] new text) (new ++ tail) = new ++ tail := by
  induction secrets with
  | nil => rfl
  | cons w secrets ih =>
    obtain ⟨first, others⟩ := List.forall_mem_cons.mp nonempty'
    obtain ⟨absent, free⟩ := List.forall_mem_cons.mp free
    have first : ∀ v ∈ [w], v ≠ [] := by simpa using first
    rw [List.foldl_cons, substAll_new first written (inert.mono (by simp)),
      substAll_free first (by simpa using absent)]
    exact ih others (inert.mono fun v => List.mem_cons_of_mem w) free

end Sequence

end Composition

section Apart

variable {val : α → A} {words words' : List (List A)} {new text : List α}
  (nonempty : ∀ w ∈ words, w ≠ []) (apart : Apart words (text.map val))

include nonempty apart

/-- The order of the words makes no difference. -/
theorem substAll_congr (same : ∀ w, w ∈ words' ↔ w ∈ words) :
    substAll val words' new text = substAll val words new text := by
  have nonempty' : ∀ w ∈ words', w ≠ [] := fun w member => nonempty w ((same w).mp member)
  induction size : text.length using Nat.strong_induction_on generalizing text with
  | _ n ih =>
    have rest : ∀ k, 0 < k → 0 < text.length → substAll val words' new (text.drop k) =
        substAll val words new (text.drop k) := by
      intro k positive long
      refine ih _ ?_ ?_ rfl
      · rw [List.length_drop]
        omega
      · rw [List.map_drop]
        exact apart.drop k
    cases text with
    | nil => rfl
    | cons c text =>
      rcases substAll_cases val new nonempty c text with ⟨w, member, begins, eq⟩ | ⟨missed, eq⟩
      · rw [eq, substAll_hit nonempty' ((same w).mpr member) begins fun v is begins' =>
            apart.only nonempty ((same v).mp is) member begins' begins,
          rest _ (List.length_pos_of_ne_nil (nonempty w member)) (Nat.succ_pos _)]
      · rw [eq, substAll_miss nonempty' fun w member => missed w ((same w).mp member)]
        exact congrArg _ (rest 1 (by omega) (Nat.succ_pos _))

/-- What is left of the text is what no word covered. -/
theorem mem_substAll {x : α} (member : x ∈ substAll val words new text) :
    x ∈ new ∨ ∃ i, text[i]? = some x ∧
      ∀ w ∈ words, ∀ j, At w (text.map val) j → j ≤ i → j + w.length ≤ i := by
  induction size : text.length using Nat.strong_induction_on generalizing text with
  | _ n ih =>
    have rest : ∀ k, 0 < k → 0 < text.length →
        (∀ v ∈ words, ∀ j < k, At v (text.map val) j → j + v.length ≤ k) →
        x ∈ substAll val words new (text.drop k) → x ∈ new ∨ ∃ i, text[i]? = some x ∧
          ∀ w ∈ words, ∀ j, At w (text.map val) j → j ≤ i → j + w.length ≤ i := by
      intro k positive long before member
      have apart' : Apart words ((text.drop k).map val) := by
        rw [List.map_drop]
        exact apart.drop k
      rcases ih _ (by rw [List.length_drop]; omega) apart' member rfl with is | ⟨i, at_, clear⟩
      · exact .inl is
      · rw [List.getElem?_drop] at at_
        refine .inr ⟨k + i, at_, fun w is j occurs le => ?_⟩
        by_cases early : j < k
        · have ends := before w is j early occurs
          omega
        · obtain ⟨j, rfl⟩ := Nat.exists_eq_add_of_le (Nat.not_lt.mp early)
          have ends := clear w is j (by rw [List.map_drop]; exact at_drop.mpr occurs) (by omega)
          omega
    cases text with
    | nil => cases member
    | cons c text =>
      rcases substAll_cases val new nonempty c text with ⟨w, there, begins, eq⟩ | ⟨missed, eq⟩
      · rw [eq, List.mem_append] at member
        have positive := List.length_pos_of_ne_nil (nonempty w there)
        rcases member with is | member
        · exact .inl is
        · refine rest _ positive (Nat.succ_pos _) (fun v is j lt occurs => ?_) member
          have positive' := List.length_pos_of_ne_nil (nonempty v is)
          obtain ⟨rfl, rfl⟩ := apart v is w there j 0 occurs begins (by omega) (by omega)
          omega
      · have none_ : ∀ v ∈ words, ∀ j < 1, At v ((c :: text).map val) j → j + v.length ≤ 1 := by
          intro v is j lt occurs
          obtain rfl : j = 0 := by omega
          exact (missed v is occurs).elim
        rw [eq, List.mem_cons] at member
        rcases member with rfl | member
        · refine .inr ⟨0, rfl, fun v is j occurs le => ?_⟩
          obtain rfl : j = 0 := by omega
          exact (missed v is occurs).elim
        · exact rest 1 (by omega) (Nat.succ_pos _) none_ member

end Apart

/-! ## Words without the outer letters of what is put in -/

omit [DecidableEq A] in
theorem prefix_left {w head tail : List A} {c : A} (plain : c ∉ w)
    (begins : w <+: head ++ c :: tail) : w <+: head := by
  induction head generalizing w with
  | nil =>
    rcases List.prefix_cons_iff.mp begins with rfl | ⟨more, rfl, -⟩
    · exact List.nil_prefix
    · exact (plain List.mem_cons_self).elim
  | cons d head ih =>
    rcases List.prefix_cons_iff.mp begins with rfl | ⟨more, rfl, goes⟩
    · exact List.nil_prefix
    · have inside := ih (fun member => plain (List.mem_cons_of_mem _ member)) goes
      exact List.cons_prefix_cons.mpr ⟨rfl, inside⟩

omit [DecidableEq A] in
/-- A word without a letter lies on one side of it. -/
theorem infix_or_infix {w head tail : List A} {c : A} (plain : c ∉ w)
    (occurs : w <:+: head ++ c :: tail) : w <:+: head ∨ w <:+: tail := by
  induction head with
  | nil =>
    rcases List.infix_cons_iff.mp occurs with begins | later
    · exact .inl (prefix_left plain begins).isInfix
    · exact .inr later
  | cons d head ih =>
    rcases List.infix_cons_iff.mp occurs with begins | later
    · exact .inl (prefix_left plain begins).isInfix
    · exact (ih later).imp_left fun inside => List.infix_cons_iff.mpr (.inr inside)

omit [DecidableEq A] in
/-- Words without the outer letters of `new` that are no part of it do not reach into it. -/
theorem inert_of_bracketed {words : List (List A)} {new core : List A} {first last : A}
    (bracketed : new = first :: (core ++ [last]))
    (plain : ∀ w ∈ words, first ∉ w ∧ last ∉ w ∧ ¬ w <:+: new) : Inert words new := by
  intro w member text i j occurs stands lt lt'
  obtain ⟨opens, closes, other⟩ := plain w member
  have length : new.length = core.length + 2 := by simp [bracketed]
  have letter : ∀ k c, i ≤ k → k < i + w.length → text[k]? = some c → c ∈ w := by
    intro k c le lt at_
    have same := occurs.getElem? (k := k - i) (by omega)
    rw [Nat.add_sub_cancel' le, at_] at same
    exact List.mem_of_getElem? same.symm
  exfalso
  by_cases before : i ≤ j
  · refine opens (letter j first before lt' ?_)
    rw [← Nat.add_zero j, stands.getElem? (by omega), bracketed]
    rfl
  · by_cases beyond : j + core.length + 1 < i + w.length
    · refine closes (letter (j + (core.length + 1)) last (by omega) (by omega) ?_)
      rw [stands.getElem? (by omega), bracketed]
      simp
    · have rest := stands.rest (i - j)
      rw [Nat.add_sub_cancel' (by omega)] at rest
      have inside := occurs.begins rest (by rw [List.length_drop]; omega)
      exact other (inside.isInfix.trans (List.drop_suffix _ _).isInfix)

section Bracketed

variable {val : α → A} {words : List (List A)} {new text : List α} {w core : List A}
  {first last : A} (nonempty : ∀ w ∈ words, w ≠ [])
  (bracketed : new.map val = first :: (core ++ [last]))

include nonempty bracketed

theorem prefix_back (plain : first ∉ w) (begins : w <+: (substAll val words new text).map val) :
    w <+: text.map val := by
  induction text generalizing w with
  | nil => exact begins
  | cons c text ih =>
    rcases substAll_cases val new nonempty c text with ⟨v, -, -, eq⟩ | ⟨-, eq⟩
    · rw [eq, List.map_append, bracketed] at begins
      have empty : w <+: [] := prefix_left plain begins
      rw [List.prefix_nil.mp empty]
      exact List.nil_prefix
    · rw [eq, List.map_cons] at begins
      rcases List.prefix_cons_iff.mp begins with rfl | ⟨more, rfl, goes⟩
      · exact List.nil_prefix
      · have inside := ih (fun member => plain (List.mem_cons_of_mem _ member)) goes
        exact List.cons_prefix_cons.mpr ⟨rfl, inside⟩

variable (plain : first ∉ w) (plain' : last ∉ w)

include plain plain'

/-- Where such a word occurs in the result, it occurs inside of what was put in, or in
what the substitution left; there it begins where no substituted word began. -/
theorem occurs_back (occurs : w <:+: (substAll val words new text).map val) :
    w <:+: core ∨ w = [] ∨ w ∉ words ∧ w <:+: text.map val := by
  induction size : text.length using Nat.strong_induction_on generalizing text with
  | _ n ih =>
    have rest : ∀ k, 0 < k → 0 < text.length →
        w <:+: (substAll val words new (text.drop k)).map val →
        w <:+: core ∨ w = [] ∨ w ∉ words ∧ w <:+: text.map val := by
      intro k positive long occurs
      rcases ih _ (by rw [List.length_drop]; omega) occurs rfl with inside | empty | ⟨other, later⟩
      · exact .inl inside
      · exact .inr (.inl empty)
      · rw [List.map_drop] at later
        exact .inr (.inr ⟨other, later.trans (List.drop_suffix _ _).isInfix⟩)
    cases text with
    | nil => exact .inr (.inl (List.infix_nil.mp occurs))
    | cons c text =>
      rcases substAll_cases val new nonempty c text with ⟨v, member, -, eq⟩ | ⟨missed, eq⟩
      · rw [eq, List.map_append, bracketed, List.cons_append, List.append_assoc] at occurs
        rcases infix_or_infix plain (show w <:+: [] ++ first :: _ from occurs) with empty | occurs
        · exact .inr (.inl (List.infix_nil.mp empty))
        · rcases infix_or_infix plain' occurs with inside | occurs
          · exact .inl inside
          · exact rest _ (List.length_pos_of_ne_nil (nonempty v member)) (Nat.succ_pos _) occurs
      · rw [eq, List.map_cons] at occurs
        rcases List.infix_cons_iff.mp occurs with begins | later
        · rcases List.prefix_cons_iff.mp begins with rfl | ⟨more, rfl, goes⟩
          · exact .inr (.inl rfl)
          · have inside := prefix_back nonempty bracketed
              (fun member => plain (List.mem_cons_of_mem _ member)) goes
            have first_ : val c :: more <+: (c :: text).map val :=
              List.cons_prefix_cons.mpr ⟨rfl, inside⟩
            exact .inr (.inr ⟨fun member => missed _ member first_, first_.isInfix⟩)
        · exact rest 1 (by omega) (Nat.succ_pos _) later

end Bracketed

end Substitution
