import Mathlib.Algebra.Group.Int.Defs
import Mathlib.Algebra.Group.Nat.Defs
import Mathlib.Data.List.Basic

/-!
# Python strings

A `str` is the list of its characters. Only the methods and conversions used by
the modules above are here: decimal and hexadecimal numerals, `int()`,
`str.replace`, `str.split`, `str.strip` and `repr`.
-/

namespace Python

/-- A `str` of Unicode scalar values. -/
abbrev Str : Type := List Char

instance : Coe String Str := ⟨String.toList⟩

instance : LawfulBEq Str := inferInstance

namespace Str

/-- `str(n)` for a non-negative `int`. -/
def ofNat (n : Nat) : Str := Nat.toDigits 10 n

/-- `str(n)` for an `int`. -/
def ofInt : Int → Str
  | .ofNat n => ofNat n
  | .negSucc n => '-' :: ofNat (n + 1)

/-- `a <= b`: strings are compared by their code points. -/
def le (a b : Str) : Bool := decide (List.le a b)

/-- The last `width` hexadecimal digits of `n`, most significant first. -/
def hex : (width : Nat) → (n : Nat) → Str
  | 0, _ => []
  | width + 1, n => hex width (n / 16) ++ [Nat.digitChar (n % 16)]

/-- `old` was matched here: skip its remaining characters, or look on. -/
def replaceFrom (old new : Str) : (skip : Nat) → Str → Str
  | _, [] => []
  | skip + 1, _ :: text => replaceFrom old new skip text
  | 0, c :: text =>
    if old.isPrefixOf (c :: text) then new ++ replaceFrom old new (old.length - 1) text
    else c :: replaceFrom old new 0 text

/-- `text.replace(old, new)` for a non-empty `old`: leftmost, non-overlapping. -/
def replace (text old new : Str) : Str := replaceFrom old new 0 text

/-- `old in text`. -/
def contains (text old : Str) : Bool := text.tails.any old.isPrefixOf

/-- `str.isspace` on one character: what `str.split()` skips. -/
def isSpace (c : Char) : Bool :=
  let n := c.toNat
  (9 ≤ n && n ≤ 13) || (28 ≤ n && n ≤ 32) || n == 0x85 || n == 0xa0 || n == 0x1680 ||
    (0x2000 ≤ n && n ≤ 0x200a) || n == 0x2028 || n == 0x2029 || n == 0x202f ||
    n == 0x205f || n == 0x3000

/-- `text` without the characters at its ends that are skipped. -/
def strip (skipped : Char → Bool) (text : Str) : Str :=
  ((text.dropWhile skipped).reverse.dropWhile skipped).reverse

/-- `text.split(sep)` for a single-character separator. -/
def splitOn (text : Str) (sep : Char) : List Str := text.splitOnP (· == sep)

/-- `text.split()`. -/
def split (text : Str) : List Str := (text.splitOnP isSpace).filter (· ≠ [])

/-- The value of a non-empty run of digits in which single underscores may
separate digits, as in `int()`. -/
def digits (base : Nat) (value : Char → Option Nat) : Str → Option Nat
  | [] => none
  | c :: text => (value c).bind fun d => go d text
where
  go (acc : Nat) : Str → Option Nat
    | [] => some acc
    | '_' :: c :: text => (value c).bind fun d => go (acc * base + d) text
    | c :: text => (value c).bind fun d => go (acc * base + d) text

def decimalDigit (c : Char) : Option Nat :=
  if c.isDigit then some (c.toNat - '0'.toNat) else none

def hexDigit (c : Char) : Option Nat :=
  if c.isDigit then some (c.toNat - '0'.toNat)
  else if 'a' ≤ c ∧ c ≤ 'f' then some (c.toNat - 'a'.toNat + 10)
  else if 'A' ≤ c ∧ c ≤ 'F' then some (c.toNat - 'A'.toNat + 10)
  else none

/-- The ASCII character that `int()` reads for one: a blank for a blank of another
script and a digit for a decimal digit. -/
def toAscii (decimal : Char → Option Nat) (c : Char) : Char :=
  if c.toNat < 127 then c
  else if isSpace c then ' '
  else
    match decimal c with
    | some d => Nat.digitChar d
    | none => '?'

/-- The ASCII blanks that `int()` skips: not all of `isSpace` are. -/
def isBlank (c : Char) : Bool := (9 ≤ c.toNat && c.toNat ≤ 13) || c == ' '

/-- A numeral of an optional sign and what `digits` reads. -/
def signed (digits : Str → Option Nat) : Str → Option Int
  | '-' :: text => (digits text).map fun n => -(n : Int)
  | '+' :: text => (digits text).map Int.ofNat
  | text => (digits text).map Int.ofNat

/-- `int(text)`, `none` where it raises `ValueError`; `decimal` is the value of
a decimal digit of any script. -/
def int (decimal : Char → Option Nat) (text : Str) : Option Int :=
  signed (digits 10 decimalDigit) (strip isBlank (text.map (toAscii decimal)))

/-- A hexadecimal numeral without its `0x`, which one underscore may follow. -/
def unprefixed : Str → Str
  | '0' :: x :: text =>
    if x = 'x' ∨ x = 'X' then
      match text with
      | '_' :: text => text
      | text => text
    else '0' :: x :: text
  | text => text

/-- `int(text, 16)`. -/
def intHex (decimal : Char → Option Nat) (text : Str) : Option Int :=
  signed (fun text => digits 16 hexDigit (unprefixed text))
    (strip isBlank (text.map (toAscii decimal)))

/-- One character inside `repr(text)` between quotes `quote`. -/
def reprChar (isPrintable : Char → Bool) (quote c : Char) : Str :=
  if c == quote || c == '\\' then ['\\', c]
  else if c == '\t' then "\\t"
  else if c == '\n' then "\\n"
  else if c == '\r' then "\\r"
  else if isPrintable c then [c]
  else if c.toNat < 0x100 then "\\x" ++ hex 2 c.toNat
  else if c.toNat < 0x10000 then "\\u" ++ hex 4 c.toNat
  else "\\U" ++ hex 8 c.toNat

/-- `repr(text)`; which characters are printable is the Unicode database's. -/
def repr (isPrintable : Char → Bool) (text : Str) : Str :=
  let quote := if '\'' ∈ text ∧ '"' ∉ text then '"' else '\''
  quote :: text.flatMap (reprChar isPrintable quote) ++ [quote]

/-! ## Numerals of fixed width -/

@[simp] theorem length_hex (width n : Nat) : (hex width n).length = width := by
  induction width generalizing n with
  | zero => rfl
  | succ width ih => simp [hex, ih]

/-- A hexadecimal digit has one value. -/
theorem digitChar_inj {a b : Nat} (ha : a < 16) (hb : b < 16)
    (same : Nat.digitChar a = Nat.digitChar b) : a = b := by
  have table : ∀ a < 16, ∀ b < 16, Nat.digitChar a = Nat.digitChar b → a = b := by decide
  exact table a ha b hb same

/-- Hexadecimal numerals of one width determine the number they show. -/
theorem hex_inj {width a b : Nat} (ha : a < 16 ^ width) (hb : b < 16 ^ width)
    (same : hex width a = hex width b) : a = b := by
  induction width generalizing a b with
  | zero =>
    rw [Nat.pow_zero] at ha hb
    omega
  | succ width ih =>
    obtain ⟨high, low⟩ := List.append_inj same (by simp)
    have high' : a / 16 = b / 16 :=
      ih (Nat.div_lt_of_lt_mul (by rwa [Nat.pow_succ, Nat.mul_comm] at ha))
        (Nat.div_lt_of_lt_mul (by rwa [Nat.pow_succ, Nat.mul_comm] at hb)) high
    have low' : a % 16 = b % 16 :=
      digitChar_inj (Nat.mod_lt _ (by decide)) (Nat.mod_lt _ (by decide)) (List.cons.inj low).1
    omega

end Str

end Python
