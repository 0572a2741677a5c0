import CredBroker.Python.Text

/-!
# Bytes

UTF-8 and base64 as Python's `str.encode`, `bytes.decode` and `base64` have them.
-/

namespace Python

abbrev Bytes : Type := List UInt8

namespace Bytes

/-- `text.encode()`. -/
def encode (text : Str) : Bytes := text.flatMap String.utf8EncodeChar

/-- `data.decode()`, `none` where it raises `UnicodeDecodeError`. -/
def decode (data : Bytes) : Option Str :=
  (ByteArray.mk data.toArray).utf8Decode?.map (·.toList)

/-! ## Base64 -/

/-- The URL-safe alphabet. -/
def base64Alphabet : Str :=
  "ABCDEFGHIJKLMNOPQRSTUVWXYZabcdefghijklmnopqrstuvwxyz0123456789-_"

def base64Char (n : Nat) : Char := base64Alphabet.getD n 'A'

/-- `base64.urlsafe_b64encode(data).decode()`. -/
def urlsafeB64Encode : Bytes → Str
  | a :: b :: c :: data =>
    let n := (a.toNat * 256 + b.toNat) * 256 + c.toNat
    base64Char (n / 262144) :: base64Char (n / 4096 % 64) :: base64Char (n / 64 % 64) ::
      base64Char (n % 64) :: urlsafeB64Encode data
  | [a, b] =>
    let n := (a.toNat * 256 + b.toNat) * 4
    [base64Char (n / 4096), base64Char (n / 64 % 64), base64Char (n % 64), '=']
  | [a] =>
    let n := a.toNat * 16
    [base64Char (n / 64), base64Char (n % 64), '=', '=']
  | [] => []

/-- The value of a character, once `-` and `_` are read as `+` and `/`. -/
def base64Value (c : Char) : Option Nat :=
  if c = '+' then some 62
  else if c = '/' then some 63
  else
    let n := base64Alphabet.idxOf c
    if n < 64 then some n else none

/-- `binascii.a2b_base64` without `strict_mode`: characters outside the alphabet
are skipped, and a complete padding ends the input. `quad` counts the
characters of the current group, whose open bits are `left`. -/
def a2bBase64 : (quad left pads : Nat) → Str → Option Bytes
  | quad, _, _, [] => if quad = 0 then some [] else none
  | quad, left, pads, c :: text =>
    if c = '=' then
      if 2 ≤ quad then
        if 4 ≤ quad + (pads + 1) then some [] else a2bBase64 quad left (pads + 1) text
      else a2bBase64 quad left pads text
    else
      match base64Value c with
      | none => a2bBase64 quad left pads text
      | some v =>
        match quad with
        | 0 => a2bBase64 1 v 0 text
        | 1 => (a2bBase64 2 (v % 16) 0 text).map (UInt8.ofNat (left * 4 + v / 16) :: ·)
        | 2 => (a2bBase64 3 (v % 4) 0 text).map (UInt8.ofNat (left * 16 + v / 4) :: ·)
        | _ => (a2bBase64 0 0 0 text).map (UInt8.ofNat (left * 64 + v) :: ·)

/-- `base64.urlsafe_b64decode(text.encode())`, `none` where it raises
`binascii.Error`. -/
def urlsafeB64Decode (text : Str) : Option Bytes := a2bBase64 0 0 0 text

example : (decode =<< urlsafeB64Decode (urlsafeB64Encode (encode "a|é|c"))) = some "a|é|c" := by
  decide +kernel

end Bytes

end Python
