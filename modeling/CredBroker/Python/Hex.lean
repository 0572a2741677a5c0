import CredBroker.Python.RoundTrip

/-!
# Hexadecimal numerals read back

`int(hex, 16)` and `str.replace` on the numerals of fixed width that identifiers are
made of.
-/

namespace Python.Str

/-- The characters of hexadecimal numerals. -/
def IsHex (c : Char) : Prop := ∃ d < 16, c = Nat.digitChar d

theorem hex_isHex {width n : Nat} : ∀ c ∈ hex width n, IsHex c := by
  induction width generalizing n with
  | zero => simp [hex]
  | succ width ih =>
    rw [hex]
    exact List.forall_mem_append.mpr ⟨ih, by simpa using ⟨_, Nat.mod_lt n (by decide), rfl⟩⟩

/-- None of these is among them. -/
theorem IsHex.ne {c d : Char} (is : IsHex c)
    (other : d ∈ ['-', '+', '_', '{', '}', 'u', 'x', 'X']) : c ≠ d := by
  obtain ⟨n, small, rfl⟩ := is
  have table : ∀ n < 16, Nat.digitChar n ∉ ['-', '+', '_', '{', '}', 'u', 'x', 'X'] := by decide
  rintro rfl
  exact table n small other

theorem IsHex.ascii {c : Char} (is : IsHex c) : 33 ≤ c.toNat ∧ c.toNat < 127 := by
  obtain ⟨n, small, rfl⟩ := is
  have table : ∀ n < 16, 33 ≤ (Nat.digitChar n).toNat ∧ (Nat.digitChar n).toNat < 127 := by decide
  exact table n small

theorem digits_go_cons {base acc : Nat} {value : Char → Option Nat} {c : Char} (plain : c ≠ '_')
    (text : Str) : digits.go base value acc (c :: text) =
      (value c).bind fun d => digits.go base value (acc * base + d) text := by
  rw [digits.go]
  exact fun _ _ underscore => (plain underscore).elim

theorem digits_go_append {base : Nat} {value : Char → Option Nat} {text : Str}
    (plain : ∀ c ∈ text, c ≠ '_') (more : Str) (acc : Nat) :
    digits.go base value acc (text ++ more) =
      (digits.go base value acc text).bind fun acc => digits.go base value acc more := by
  induction text generalizing acc with
  | nil => rfl
  | cons c text ih =>
    obtain ⟨first, plain⟩ := List.forall_mem_cons.mp plain
    rw [List.cons_append, digits_go_cons first, digits_go_cons first, Option.bind_assoc]
    exact congrArg _ (funext fun d => ih plain _)

theorem digits_go_hex {width n : Nat} (fits : n < 16 ^ width) (acc : Nat) :
    digits.go 16 Str.hexDigit acc (hex width n) = some (acc * 16 ^ width + n) := by
  induction width generalizing n with
  | zero =>
    rw [Nat.pow_zero] at fits
    obtain rfl : n = 0 := by omega
    simp [hex, digits.go]
  | succ width ih =>
    have high : n / 16 < 16 ^ width :=
      Nat.div_lt_of_lt_mul (by rwa [Nat.pow_succ, Nat.mul_comm] at fits)
    have low : IsHex (Nat.digitChar (n % 16)) := ⟨_, Nat.mod_lt n (by decide), rfl⟩
    rw [hex, digits_go_append (fun c member => (hex_isHex c member).ne (by simp)), ih high,
      Option.bind_some, digits_go_cons (low.ne (by simp)),
      Json.hexDigit_digitChar (Nat.mod_lt n (by decide)), Option.bind_some, digits.go, Nat.pow_succ]
    congr 1
    rw [Nat.add_mul, Nat.mul_assoc]
    omega

/-- A hexadecimal numeral reads back as the number it shows. -/
theorem digits_hex {width n : Nat} (pos : 0 < width) (fits : n < 16 ^ width) :
    digits 16 Str.hexDigit (hex width n) = some n := by
  have read := digits_go_hex fits 0
  rw [Nat.zero_mul, Nat.zero_add] at read
  rw [← read]
  cases shown : hex width n with
  | nil =>
    have empty := congrArg List.length shown
    rw [length_hex, List.length_nil] at empty
    omega
  | cons c text =>
    have first : IsHex c := hex_isHex c (shown ▸ List.mem_cons_self)
    rw [digits_go_cons (first.ne (by simp)), Nat.zero_mul]
    simp only [Nat.zero_add]
    rfl

theorem unprefixed_hex {text : Str} (isHex : ∀ c ∈ text, IsHex c) : unprefixed text = text := by
  unfold unprefixed
  split
  · rename_i x more
    have second : IsHex x := isHex x (List.mem_cons_of_mem _ List.mem_cons_self)
    rw [if_neg]
    rintro (is | is)
    · exact second.ne (by simp) is
    · exact second.ne (by simp) is
  · rfl

/-- `int(hex, 16)` of the numeral of a number is the number. -/
theorem intHex_hex (decimal : Char → Option Nat) {width n : Nat} (pos : 0 < width)
    (fits : n < 16 ^ width) : intHex decimal (hex width n) = some (n : Int) := by
  have isHex := @hex_isHex width n
  have read := digits_hex pos fits
  rw [intHex, Json.strip_toAscii decimal fun c member => (isHex c member).ascii]
  cases shown : hex width n with
  | nil =>
    rw [shown] at read
    cases read
  | cons c text =>
    rw [shown] at isHex read
    have first : IsHex c := isHex c List.mem_cons_self
    rw [Json.signed_plain (first.ne (by simp)) (first.ne (by simp)), unprefixed_hex isHex, read]
    rfl

/-- What does not occur is not replaced. -/
theorem replace_of_not_mem {text more new : Str} {c : Char} (absent : c ∉ text) :
    text.replace (c :: more) new = text := by
  unfold replace
  induction text with
  | nil => rfl
  | cons d text ih =>
    have unmatched : ¬ (c :: more).isPrefixOf (d :: text) = true := fun matched =>
      List.ne_of_not_mem_cons absent
        (List.cons_prefix_cons.mp (List.isPrefixOf_iff_prefix.mp matched)).1
    rw [replaceFrom, if_neg unmatched, ih (List.not_mem_of_not_mem_cons absent)]

end Python.Str
