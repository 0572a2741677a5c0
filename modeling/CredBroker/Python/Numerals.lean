import Mathlib.Data.List.TakeDrop
import Mathlib.Data.List.TakeWhile
import CredBroker.Python.Json

/-!
# Numerals

How `json.loads` reads a numeral: in front of what may follow a value it reads
what it reads alone, the parts it finds are the text, and the decimal numeral
of an integer is read as that integer.
-/

namespace Python

namespace Json

/-! ## What may follow a value -/

/-- A text in which a numeral before it cannot go on. -/
def Ends (text : Str) : Prop := ∀ c, text.head? = some c → c = ',' ∨ c = ']' ∨ c = '}'

theorem ends_nil : Ends [] := by
  intro c head
  cases head

theorem ends_cons {c : Char} (text : Str) (closes : c = ',' ∨ c = ']' ∨ c = '}') :
    Ends (c :: text) := by
  intro c' head
  obtain rfl : c = c' := Option.some.inj head
  exact closes

/-- The sign of an exponent, and what follows it. -/
def exponentSign : Str → Str × Str
  | '+' :: text => (['+'], text)
  | '-' :: text => (['-'], text)
  | text => ([], text)

theorem parseExponent_mark {mark : Char} (marks : mark = 'e' ∨ mark = 'E') (text : Str) :
    parseExponent (mark :: text) = match spanDigits (exponentSign text).2 with
      | ([], _) => ([], mark :: text)
      | (digits, rest) => (mark :: (exponentSign text).1 ++ digits, rest) := by
  show (if _ then _ else _) = _
  rw [if_pos marks]
  rfl

/-- The sign of a numeral, and what follows it. -/
def numeralSign : Str → Str × Str
  | '-' :: text => (['-'], text)
  | text => ([], text)

/-- The whole part of a numeral, and what follows it. -/
def wholePart : Str → Option (Str × Str)
  | '0' :: text => some (['0'], text)
  | text =>
    match spanDigits text with
    | ([], _) => none
    | parts => some parts

theorem wholePart_digits {text : Str} (nonzero : ∀ more, text = '0' :: more → False) :
    wholePart text = match spanDigits text with
      | ([], _) => none
      | parts => some parts := by
  unfold wholePart
  split
  · exact (nonzero _ rfl).elim
  · rfl

/-- The scanner is its four parts in a row. -/
theorem lexNumber_eq (text : Str) : lexNumber text =
    (wholePart (numeralSign text).2).map fun whole =>
      ((numeralSign text).1 ++ whole.1, (parseFraction whole.2).1,
        (parseExponent (parseFraction whole.2).2).1,
        (parseExponent (parseFraction whole.2).2).2) := by
  rcases signed : numeralSign text with ⟨sign, unsigned⟩
  unfold lexNumber
  split
  rename_i sign' unsigned' signed'
  obtain ⟨rfl, rfl⟩ : sign' = sign ∧ unsigned' = unsigned := by
    unfold numeralSign at signed
    split at signed <;> simp_all
  split
  · rfl
  · rename_i nonzero
    rw [wholePart_digits nonzero]
    dsimp only
    generalize spanDigits _ = parts
    rcases parts with ⟨digits, more⟩
    cases digits <;> rfl

section Numerals

variable {rest : Str} (ends : Ends rest)

include ends

theorem Ends.not_digit {c : Char} (head : rest.head? = some c) : c.isDigit = false := by
  rcases ends c head with rfl | rfl | rfl <;> rfl

/-- Digits are read up to what ends a numeral, whatever follows. -/
theorem spanDigits_append (text : Str) :
    spanDigits (text ++ rest) = ((spanDigits text).1, (spanDigits text).2 ++ rest) := by
  unfold spanDigits
  rw [List.span_eq_takeWhile_dropWhile, List.span_eq_takeWhile_dropWhile]
  induction text with
  | nil =>
    cases rest with
    | nil => rfl
    | cons c rest =>
      have other : c.isDigit = false := ends.not_digit rfl
      simp [other]
  | cons c text ih =>
    rw [Prod.mk.injEq] at ih
    cases digit : c.isDigit with
    | true => simp [digit, ih]
    | false => simp [digit]

/-- So is its fraction. -/
theorem parseFraction_append (text : Str) :
    parseFraction (text ++ rest) = ((parseFraction text).1, (parseFraction text).2 ++ rest) := by
  cases text with
  | nil =>
    cases rest with
    | nil => rfl
    | cons c rest =>
      rcases ends c rfl with rfl | rfl | rfl <;> rfl
  | cons c text =>
    by_cases dot : c = '.'
    · subst dot
      rw [List.cons_append, parseFraction, parseFraction, spanDigits_append ends]
      rcases spanDigits text with ⟨digits, more⟩
      cases digits <;> rfl
    · have plain : ∀ text : Str, parseFraction (c :: text) = ([], c :: text) := by
        intro text
        unfold parseFraction
        split
        · rename_i same
          exact (dot (List.cons.inj same).1).elim
        · rfl
      rw [List.cons_append, plain, plain, List.cons_append]

theorem exponentSign_append (text : Str) :
    exponentSign (text ++ rest) = ((exponentSign text).1, (exponentSign text).2 ++ rest) := by
  cases text with
  | nil =>
    cases rest with
    | nil => rfl
    | cons c rest => rcases ends c rfl with rfl | rfl | rfl <;> rfl
  | cons c text =>
    by_cases plus : c = '+'
    · subst plus
      rfl
    · by_cases minus : c = '-'
      · subst minus
        rfl
      · have plain : ∀ text : Str, exponentSign (c :: text) = ([], c :: text) := fun text => by
          unfold exponentSign
          split <;> simp_all
        rw [List.cons_append, plain, plain, List.cons_append]

/-- And its exponent. -/
theorem parseExponent_append (text : Str) :
    parseExponent (text ++ rest) = ((parseExponent text).1, (parseExponent text).2 ++ rest) := by
  cases text with
  | nil =>
    cases rest with
    | nil => rfl
    | cons c rest => rcases ends c rfl with rfl | rfl | rfl <;> rfl
  | cons mark text =>
    by_cases marks : mark = 'e' ∨ mark = 'E'
    · rw [List.cons_append, parseExponent_mark marks, parseExponent_mark marks,
        exponentSign_append ends, spanDigits_append ends]
      rcases spanDigits (exponentSign text).2 with ⟨digits, more⟩
      cases digits <;> rfl
    · simp only [List.cons_append, parseExponent, if_neg marks]

theorem numeralSign_append (text : Str) :
    numeralSign (text ++ rest) = ((numeralSign text).1, (numeralSign text).2 ++ rest) := by
  cases text with
  | nil =>
    cases rest with
    | nil => rfl
    | cons c rest => rcases ends c rfl with rfl | rfl | rfl <;> rfl
  | cons c text =>
    by_cases minus : c = '-'
    · subst minus
      rfl
    · have plain : ∀ text : Str, numeralSign (c :: text) = ([], c :: text) := fun text => by
        unfold numeralSign
        split <;> simp_all
      rw [List.cons_append, plain, plain, List.cons_append]

/-- The whole part of a numeral is read up to where the numeral ends. -/
theorem wholePart_append (text : Str) :
    wholePart (text ++ rest) = (wholePart text).map fun whole => (whole.1, whole.2 ++ rest) := by
  have digits : ∀ text : Str, (match spanDigits (text ++ rest) with
      | ([], _) => none
      | parts => some parts) = (match spanDigits text with
      | ([], _) => none
      | parts => some parts : Option (Str × Str)).map fun whole => (whole.1, whole.2 ++ rest) := by
    intro text
    rw [spanDigits_append ends]
    rcases spanDigits text with ⟨digits, more⟩
    cases digits <;> rfl
  cases text with
  | nil =>
    cases rest with
    | nil => rfl
    | cons c rest => rcases ends c rfl with rfl | rfl | rfl <;> rfl
  | cons c text =>
    by_cases zero : c = '0'
    · subst zero
      rfl
    · have plain : ∀ text more : Str, c :: text = '0' :: more → False :=
        fun text more same => zero (List.cons.inj same).1
      rw [List.cons_append, wholePart_digits (plain _), wholePart_digits (plain _),
        ← List.cons_append, digits]

/-- A numeral is read alike in front of such a text. -/
theorem lexNumber_append (text : Str) : lexNumber (text ++ rest) =
    (lexNumber text).map fun parts => (parts.1, parts.2.1, parts.2.2.1, parts.2.2.2 ++ rest) := by
  rw [lexNumber_eq, lexNumber_eq, numeralSign_append ends, wholePart_append ends]
  cases wholePart (numeralSign text).2 with
  | none => rfl
  | some whole =>
    simp only [Option.map_some, parseFraction_append ends, parseExponent_append ends]

end Numerals

/-! ## The parts of a numeral are its text -/

theorem spanDigits_text (text : Str) : (spanDigits text).1 ++ (spanDigits text).2 = text := by
  unfold spanDigits
  rw [List.span_eq_takeWhile_dropWhile]
  exact List.takeWhile_append_dropWhile

theorem parseFraction_text (text : Str) :
    (parseFraction text).1 ++ (parseFraction text).2 = text := by
  unfold parseFraction
  split
  · rename_i text
    have whole := spanDigits_text text
    generalize spanDigits text = parts at whole ⊢
    rcases parts with ⟨digits, more⟩
    cases digits with
    | nil => rfl
    | cons d digits => exact congrArg ('.' :: ·) whole
  · rfl

theorem exponentSign_text (text : Str) :
    (exponentSign text).1 ++ (exponentSign text).2 = text := by
  unfold exponentSign
  split <;> rfl

theorem parseExponent_text (text : Str) :
    (parseExponent text).1 ++ (parseExponent text).2 = text := by
  cases text with
  | nil => rfl
  | cons mark text =>
    by_cases marks : mark = 'e' ∨ mark = 'E'
    · rw [parseExponent_mark marks]
      have sign := exponentSign_text text
      have whole := spanDigits_text (exponentSign text).2
      generalize spanDigits (exponentSign text).2 = parts at whole ⊢
      rcases parts with ⟨digits, more⟩
      cases digits with
      | nil => rfl
      | cons d digits =>
        show mark :: (exponentSign text).1 ++ (d :: digits) ++ more = _
        rw [List.append_assoc, whole, List.cons_append, sign]
    · simp only [parseExponent, if_neg marks, List.nil_append]

theorem numeralSign_text (text : Str) : (numeralSign text).1 ++ (numeralSign text).2 = text := by
  unfold numeralSign
  split <;> rfl

theorem wholePart_text {text : Str} {whole : Str × Str} (is : wholePart text = some whole) :
    whole.1 ++ whole.2 = text := by
  unfold wholePart at is
  split at is
  · cases is
    rfl
  · have parts := spanDigits_text text
    generalize spanDigits text = span at parts is
    rcases span with ⟨digits, more⟩
    cases digits with
    | nil => cases is
    | cons d digits =>
      cases is
      exact parts

/-- The parts of a numeral are the text that was read. -/
theorem lexNumber_text {text whole fraction exponent rest : Str}
    (is : lexNumber text = some (whole, fraction, exponent, rest)) :
    whole ++ fraction ++ exponent ++ rest = text := by
  rw [lexNumber_eq] at is
  obtain ⟨parts, found, same⟩ := Option.map_eq_some_iff.mp is
  cases same
  rw [List.append_assoc, List.append_assoc, parseExponent_text, parseFraction_text,
    List.append_assoc, wholePart_text found, numeralSign_text]

/-! ## How a numeral begins -/

/-- A numeral begins with a sign or a digit. -/
theorem lexNumber_begins {text : Str} {parts : Str × Str × Str × Str}
    (is : lexNumber text = some parts) :
    ∃ c more, text = c :: more ∧ (c = '-' ∨ c.isDigit = true) := by
  rw [lexNumber_eq] at is
  obtain ⟨whole, found, -⟩ := Option.map_eq_some_iff.mp is
  cases text with
  | nil => cases found
  | cons c text =>
    refine ⟨c, text, rfl, ?_⟩
    by_cases minus : c = '-'
    · exact Or.inl minus
    · have plain : numeralSign (c :: text) = ([], c :: text) := by
        unfold numeralSign
        split <;> simp_all
      rw [plain] at found
      by_cases digit : c.isDigit = true
      · exact Or.inr digit
      · have other : c ≠ '0' := by
          rintro rfl
          exact digit rfl
        rw [wholePart_digits fun more same => other (List.cons.inj same).1] at found
        have none : spanDigits (c :: text) = ([], c :: text) := by
          unfold spanDigits
          rw [List.span_eq_takeWhile_dropWhile]
          simp [digit]
        rw [none] at found
        cases found

/-! ## Decimal numerals -/

theorem ofNat_digits (n : Nat) : ∀ c ∈ Str.ofNat n, c.isDigit = true :=
  fun _ member => Nat.isDigit_of_mem_toDigits (by decide) (by decide) member

theorem ofNat_begins (n : Nat) :
    ∃ c more, Str.ofNat n = c :: more ∧ c.isDigit = true ∧ (c = '0' → n = 0) := by
  induction n using Nat.strongRecOn with
  | _ n ih =>
    by_cases small : n < 10
    · refine ⟨_, _, Nat.toDigits_of_lt_base small, ?_, Nat.digitChar_eq_zero.mp⟩
      rw [Nat.isDigit_digitChar]
      exact decide_eq_true small
    · obtain ⟨c, more, shown, digit, zero⟩ := ih (n / 10) (by omega)
      refine ⟨c, more ++ [Nat.digitChar (n % 10)], ?_, digit, fun is => ?_⟩
      · show Nat.toDigits 10 n = _
        rw [Nat.toDigits_of_base_le (by decide) (by omega), ← List.cons_append]
        exact congrArg (· ++ _) shown
      · have := zero is
        omega

theorem spanDigits_all {text : Str} (digits : ∀ c ∈ text, c.isDigit = true) :
    spanDigits text = (text, []) := by
  unfold spanDigits
  rw [List.span_eq_takeWhile_dropWhile, List.takeWhile_eq_self_iff.mpr digits,
    List.dropWhile_eq_nil_iff.mpr digits]

/-- A printed number is its own whole part. -/
theorem wholePart_ofNat (n : Nat) : wholePart (Str.ofNat n) = some (Str.ofNat n, []) := by
  obtain ⟨c, more, shown, -, zero⟩ := ofNat_begins n
  by_cases is : c = '0'
  · rw [zero is]
    rfl
  · rw [wholePart_digits fun more' same => is (List.cons.inj (shown.symm.trans same)).1,
      spanDigits_all (ofNat_digits n), shown]

/-- An integer is read as its whole part. -/
theorem lexNumber_ofInt (n : Int) : lexNumber (Str.ofInt n) = some (Str.ofInt n, [], [], []) := by
  cases n with
  | ofNat n =>
    obtain ⟨c, more, shown, digit, -⟩ := ofNat_begins n
    have plain : numeralSign (Str.ofNat n) = ([], Str.ofNat n) := by
      unfold numeralSign
      split
      · rename_i same
        rw [shown] at same
        rw [(List.cons.inj same).1] at digit
        cases digit
      · rfl
    show lexNumber (Str.ofNat n) = some (Str.ofNat n, [], [], [])
    rw [lexNumber_eq, plain, wholePart_ofNat]
    rfl
  | negSucc n =>
    show lexNumber ('-' :: Str.ofNat (n + 1)) = some ('-' :: Str.ofNat (n + 1), [], [], [])
    rw [lexNumber_eq]
    show (wholePart (Str.ofNat (n + 1))).map _ = _
    rw [wholePart_ofNat]
    rfl

theorem go_cons {base : Nat} {value : Char → Option Nat} {c : Char} (plain : c ≠ '_') (acc : Nat)
    (text : Str) : Str.digits.go base value acc (c :: text) =
      (value c).bind fun d => Str.digits.go base value (acc * base + d) text := by
  rw [Str.digits.go]
  intro _ _ same
  exact (plain same).elim

/-- The value of digits that no underscore separates. -/
theorem go_append {base : Nat} {value : Char → Option Nat} (acc : Nat) (text : Str)
    (plain : ∀ c ∈ text, c ≠ '_') {c : Char} (last : c ≠ '_') :
    Str.digits.go base value acc (text ++ [c]) = (Str.digits.go base value acc text).bind
      fun n => (value c).map fun d => n * base + d := by
  induction text generalizing acc with
  | nil =>
    rw [List.nil_append, go_cons last]
    exact Option.map_eq_bind.symm
  | cons d text ih =>
    have first := plain d List.mem_cons_self
    rw [List.cons_append, go_cons first, go_cons first]
    cases value d with
    | none => rfl
    | some n => exact ih _ fun c member => plain c (List.mem_cons_of_mem _ member)

theorem strip_eq {skipped : Char → Bool} {text : Str} (plain : ∀ c ∈ text, skipped c = false) :
    Str.strip skipped text = text := by
  have keep : ∀ text : Str, (∀ c ∈ text, skipped c = false) → text.dropWhile skipped = text := by
    intro text plain
    cases text with
    | nil => rfl
    | cons c text => simp [plain c List.mem_cons_self]
  unfold Str.strip
  rw [keep text plain, keep _ fun c member => plain c (List.mem_reverse.mp member),
    List.reverse_reverse]

/-- What `int()` reads of an ASCII text without blanks is the text. -/
theorem strip_toAscii (decimal : Char → Option Nat) {text : Str}
    (plain : ∀ c ∈ text, 33 ≤ c.toNat ∧ c.toNat < 127) :
    Str.strip Str.isBlank (text.map (Str.toAscii decimal)) = text := by
  have same : text.map (Str.toAscii decimal) = text :=
    (List.map_congr_left fun c member => if_pos (plain c member).2).trans (List.map_id' text)
  rw [same]
  refine strip_eq fun c member => ?_
  have low := (plain c member).1
  have blank : c ≠ ' ' := by
    rintro rfl
    exact absurd low (by decide)
  simp only [Str.isBlank, Bool.or_eq_false_iff, Bool.and_eq_false_iff, decide_eq_false_iff_not,
    beq_eq_false_iff_ne]
  exact ⟨by omega, blank⟩

theorem ascii_digit {c : Char} (digit : c.isDigit = true) : 33 ≤ c.toNat ∧ c.toNat < 127 := by
  simp only [Char.isDigit, Bool.and_eq_true, decide_eq_true_eq] at digit
  have low : 48 ≤ c.toNat := digit.1
  have high : c.toNat ≤ 57 := digit.2
  omega

/-- The digits of a number have its value. -/
theorem digits_ofNat (n : Nat) : Str.digits 10 Str.decimalDigit (Str.ofNat n) = some n := by
  have value : ∀ d < 10, Str.decimalDigit (Nat.digitChar d) = some d := by decide
  induction n using Nat.strongRecOn with
  | _ n ih =>
    by_cases small : n < 10
    · rw [Str.ofNat, Nat.toDigits_of_lt_base small]
      show (Str.decimalDigit (Nat.digitChar n)).bind some = some n
      rw [value n small]
      rfl
    · obtain ⟨c, more, shown, -, -⟩ := ofNat_begins (n / 10)
      have digit : ∀ c ∈ Str.ofNat (n / 10), c ≠ '_' := by
        rintro c member rfl
        exact absurd (ofNat_digits _ _ member) (by decide)
      have low : Nat.digitChar (n % 10) ≠ '_' := by
        have table : ∀ d < 10, Nat.digitChar d ≠ '_' := by decide
        exact table _ (Nat.mod_lt _ (by decide))
      have whole := ih (n / 10) (by omega)
      have split : Str.ofNat n = Str.ofNat (n / 10) ++ [Nat.digitChar (n % 10)] :=
        Nat.toDigits_of_base_le (by decide) (by omega)
      rw [split]
      rw [shown] at whole digit ⊢
      rw [List.cons_append]
      show (Str.decimalDigit c).bind _ = _
      cases head : Str.decimalDigit c with
      | none =>
        rw [Str.digits, head] at whole
        cases whole
      | some d =>
        rw [Str.digits, head] at whole
        show Str.digits.go 10 Str.decimalDigit d (more ++ [_]) = some n
        rw [go_append d more (fun c member => digit c (List.mem_cons_of_mem _ member)) low]
        rw [show Str.digits.go 10 Str.decimalDigit d more = some (n / 10) from whole,
          value _ (Nat.mod_lt _ (by decide))]
        show some (n / 10 * 10 + n % 10) = some n
        rw [Nat.div_add_mod']

theorem signed_plain {c : Char} (minus : c ≠ '-') (plus : c ≠ '+') (digits : Str → Option Nat)
    (text : Str) : Str.signed digits (c :: text) = (digits (c :: text)).map Int.ofNat := by
  unfold Str.signed
  split
  · rename_i same
    exact (minus (List.cons.inj same).1).elim
  · rename_i same
    exact (plus (List.cons.inj same).1).elim
  · rfl

/-- `int(str(n))` is `n`. -/
theorem int_ofInt (decimal : Char → Option Nat) (n : Int) :
    Str.int decimal (Str.ofInt n) = some n := by
  have ascii (n : Nat) : ∀ c ∈ Str.ofNat n, 33 ≤ c.toNat ∧ c.toNat < 127 :=
    fun c member => ascii_digit (ofNat_digits n c member)
  cases n with
  | ofNat n =>
    obtain ⟨c, more, shown, digit, -⟩ := ofNat_begins n
    show Str.int decimal (Str.ofNat n) = some (n : Int)
    have unsigned : c ≠ '-' ∧ c ≠ '+' := by
      constructor <;> (rintro rfl; cases digit)
    rw [Str.int, strip_toAscii decimal (ascii n), shown,
      signed_plain unsigned.1 unsigned.2, ← shown, digits_ofNat]
    rfl
  | negSucc n =>
    show Str.int decimal ('-' :: Str.ofNat (n + 1)) = some (Int.negSucc n)
    rw [Str.int, strip_toAscii decimal (List.forall_mem_cons.mpr ⟨by decide, ascii (n + 1)⟩)]
    show (Str.digits 10 Str.decimalDigit (Str.ofNat (n + 1))).map (fun n => -(n : Int)) = _
    rw [digits_ofNat]
    rfl

/-- `str(n)` is written with digits and a sign. -/
theorem not_mem_ofInt {c : Char} (unsigned : c ≠ '-') (other : c.isDigit = false) (n : Int) :
    c ∉ Str.ofInt n := by
  have digits (n : Nat) : c ∉ Str.ofNat n := by
    intro member
    rw [ofNat_digits n c member] at other
    cases other
  cases n with
  | ofNat n => exact digits n
  | negSucc n =>
    intro member
    rcases List.mem_cons.mp member with sign | member
    · exact unsigned sign
    · exact digits (n + 1) member

/-- `str(n)` determines `n`. -/
theorem ofInt_inj {m n : Int} (same : Str.ofInt m = Str.ofInt n) : m = n := by
  have read : ∀ n, Str.int Str.decimalDigit (Str.ofInt n) = some n := int_ofInt _
  have agree := read m
  rw [same, read n] at agree
  exact (Option.some.inj agree).symm

end Json

end Python
