import CredBroker.Python.Codecs
import CredBroker.Python.Json

/-!
# Query strings

`urlencode` quotes names and values so that a query string reads back as the fields it
was made of: what is quoted holds neither `&` nor `=`, and quoting is undone byte by byte.
-/

namespace Python

namespace Bytes

/-! ## Quoting -/

/-- What `quote` leaves as it is. -/
def isUnreserved (c : Char) : Bool := c.isAlphanum || c ∈ ['_', '.', '-', '~']

def upperHexDigit (d : Nat) : Char := (Nat.digitChar d).toUpper

/-- One byte inside `quote_plus(text)`. -/
def quoteByte (byte : UInt8) : Str :=
  if byte = 32 then ['+']
  else if byte.toNat < 128 && isUnreserved (Char.ofNat byte.toNat) then [Char.ofNat byte.toNat]
  else ['%', upperHexDigit (byte.toNat / 16), upperHexDigit (byte.toNat % 16)]

/-- `urllib.parse.quote_plus(text)`. -/
def quotePlus (text : Str) : Str := (encode text).flatMap quoteByte

/-- One field of a query string. -/
def quoteField (field : Str × Str) : Str := quotePlus field.1 ++ '=' :: quotePlus field.2

/-- `urllib.parse.urlencode(fields)`. -/
def urlencode (fields : List (Str × Str)) : Str := ['&'].intercalate (fields.map quoteField)

/-- The bytes that `urllib.parse.unquote_plus(text)` decodes. -/
def unquoteBytes : Str → Bytes
  | [] => []
  | '+' :: text => 32 :: unquoteBytes text
  | '%' :: a :: b :: text =>
    match Str.hexDigit a, Str.hexDigit b with
    | some high, some low => UInt8.ofNat (high * 16 + low) :: unquoteBytes text
    | _, _ => 37 :: unquoteBytes (a :: b :: text)
  | c :: text => String.utf8EncodeChar c ++ unquoteBytes text

/-- `urllib.parse.unquote_plus(text, errors="strict")`. -/
def unquotePlus (text : Str) : Option Str := decode (unquoteBytes text)

def unquoteField (text : Str) : Option (Str × Str) := do
  let name ← unquotePlus (text.takeWhile (· != '='))
  let value ← unquotePlus ((text.dropWhile (· != '=')).drop 1)
  return (name, value)

/-- `urllib.parse.parse_qsl(text, keep_blank_values=True, errors="strict")`. -/
def parseQsl (text : Str) : Option (List (Str × Str)) :=
  ((Str.splitOn text '&').filter (· ≠ [])).mapM unquoteField

/-! ## Quoting is undone -/

/-- What one quoted byte is: a plus, a character that stands for itself, or a percent escape. -/
theorem quoteByte_spec (byte : UInt8) : (quoteByte byte = ['+'] ∧ byte = 32) ∨
    (∃ c, quoteByte byte = [c] ∧ isUnreserved c = true ∧ String.utf8EncodeChar c = [byte]) ∨
    ∃ a b high low, quoteByte byte = ['%', a, b] ∧ a.isAlphanum = true ∧ b.isAlphanum = true ∧
      Str.hexDigit a = some high ∧ Str.hexDigit b = some low ∧
      UInt8.ofNat (high * 16 + low) = byte := by
  have digits : ∀ d < 16, (upperHexDigit d).isAlphanum = true ∧
      Str.hexDigit (upperHexDigit d) = some d := by decide
  have bound := byte.toNat_lt
  unfold quoteByte
  split
  · rename_i space
    exact .inl ⟨rfl, space⟩
  · split
    · rename_i plain
      obtain ⟨ascii, unreserved⟩ : byte.toNat < 128 ∧
          isUnreserved (Char.ofNat byte.toNat) = true := by
        simpa using plain
      have valid : byte.toNat.isValidChar := .inl (by omega)
      have code : (Char.ofNat byte.toNat).toNat = byte.toNat := by
        rw [Char.ofNat, dif_pos valid]
        rfl
      refine .inr (.inl ⟨_, rfl, unreserved, ?_⟩)
      rw [String.utf8EncodeChar]
      have val : (Char.ofNat byte.toNat).val.toNat = byte.toNat := code
      simp [val, Nat.le_of_lt_succ ascii]
    · obtain ⟨first, high⟩ := digits (byte.toNat / 16) (by omega)
      obtain ⟨second, low⟩ := digits (byte.toNat % 16) (by omega)
      refine .inr (.inr ⟨_, _, _, _, rfl, first, second, high, low, ?_⟩)
      rw [Nat.div_add_mod' byte.toNat 16, UInt8.ofNat_toNat]

theorem isUnreserved_ne {c d : Char} (unreserved : isUnreserved c = true)
    (special : d ∈ ['+', '%', '&', '=']) : c ≠ d := by
  rintro rfl
  simp only [List.mem_cons, List.not_mem_nil, or_false] at special
  rcases special with rfl | rfl | rfl | rfl <;> revert unreserved <;> decide

/-- A quoted byte is read back. -/
theorem unquoteBytes_quoteByte (byte : UInt8) (rest : Str) :
    unquoteBytes (quoteByte byte ++ rest) = byte :: unquoteBytes rest := by
  obtain ⟨quoted, rfl⟩ | ⟨c, quoted, unreserved, is⟩ |
    ⟨a, b, high, low, quoted, -, -, first, second, is⟩ := quoteByte_spec byte
  · rw [quoted]
    rfl
  · have plus : c ≠ '+' := isUnreserved_ne unreserved (by simp)
    have percent : c ≠ '%' := isUnreserved_ne unreserved (by simp)
    rw [quoted, List.singleton_append, unquoteBytes, is, List.singleton_append]
    · exact fun plus' => plus plus'
    · exact fun _ _ _ percent' _ => percent percent'
  · rw [quoted]
    show unquoteBytes ('%' :: a :: b :: rest) = _
    rw [unquoteBytes, first, second]
    show UInt8.ofNat (high * 16 + low) :: _ = _
    rw [is]

theorem unquotePlus_quotePlus (text : Str) : unquotePlus (quotePlus text) = some text := by
  have undone : ∀ data : Bytes, unquoteBytes (data.flatMap quoteByte) = data := by
    intro data
    induction data with
    | nil => rfl
    | cons byte data ih => rw [List.flatMap_cons, unquoteBytes_quoteByte, ih]
  rw [unquotePlus, quotePlus, undone, decode_encode]

/-- What is quoted holds no separator. -/
theorem not_mem_quotePlus {text : Str} {sep : Char} (special : sep ∈ ['&', '=']) :
    sep ∉ quotePlus text := by
  intro member
  obtain ⟨byte, -, member⟩ := List.mem_flatMap.mp member
  have special' : sep ∈ ['+', '%', '&', '='] := by
    rcases List.mem_cons.mp special with rfl | special
    · simp
    · obtain rfl := List.mem_singleton.mp special
      simp
  have not_alphanum : sep.isAlphanum = false ∧ sep ≠ '+' ∧ sep ≠ '%' := by
    rcases List.mem_cons.mp special with rfl | special
    · decide
    · obtain rfl := List.mem_singleton.mp special
      decide
  obtain ⟨plain, plus, percent⟩ := not_alphanum
  obtain ⟨quoted, -⟩ | ⟨c, quoted, unreserved, -⟩ | ⟨a, b, -, -, quoted, first, second, -⟩ :=
    quoteByte_spec byte
  · rw [quoted] at member
    exact plus (List.mem_singleton.mp member)
  · rw [quoted] at member
    exact isUnreserved_ne unreserved special' (List.mem_singleton.mp member).symm
  · rw [quoted] at member
    simp only [List.mem_cons, List.not_mem_nil, or_false] at member
    rcases member with rfl | rfl | rfl
    · exact percent rfl
    · rw [first] at plain
      cases plain
    · rw [second] at plain
      cases plain

theorem unquoteField_quoteField (field : Str × Str) :
    unquoteField (quoteField field) = some field := by
  have bare : ∀ c ∈ quotePlus field.1, (c != '=') = true := fun c member =>
    bne_iff_ne.mpr fun is => not_mem_quotePlus (by simp) (is ▸ member)
  have name : (quoteField field).takeWhile (· != '=') = quotePlus field.1 := by
    rw [quoteField, List.takeWhile_append_of_pos bare, List.takeWhile_cons_of_neg (by simp),
      List.append_nil]
  have value : (quoteField field).dropWhile (· != '=') = '=' :: quotePlus field.2 := by
    rw [quoteField, List.dropWhile_append_of_pos bare, List.dropWhile_cons_of_neg (by simp)]
  rw [unquoteField, name, value, List.drop_one, List.tail_cons, unquotePlus_quotePlus,
    unquotePlus_quotePlus]
  rfl

/-! ## Fields are read back -/

theorem not_mem_quoteField (field : Str × Str) : '&' ∉ quoteField field := by
  intro member
  rcases List.mem_append.mp member with member | member
  · exact not_mem_quotePlus (by simp) member
  · rcases List.mem_cons.mp member with same | member
    · exact absurd same (by decide)
    · exact not_mem_quotePlus (by simp) member

/-- The fields are apart at the ampersands. -/
theorem splitOn_urlencode (field : Str × Str) (fields : List (Str × Str)) :
    Str.splitOn (urlencode (field :: fields)) '&' = (field :: fields).map quoteField := by
  induction fields generalizing field with
  | nil =>
    have alone : urlencode [field] = quoteField field := by simp [urlencode, List.intercalate]
    rw [alone]
    exact Str.splitOn_plain (not_mem_quoteField field)
  | cons next fields ih =>
    have joined : urlencode (field :: next :: fields) =
        quoteField field ++ '&' :: urlencode (next :: fields) := by
      simp [urlencode, List.intercalate]
    rw [joined, Str.splitOn_append (not_mem_quoteField field), ih next]
    rfl

/-- A query string reads back as its fields: no name and no value adds a field of its own. -/
theorem parseQsl_urlencode (fields : List (Str × Str)) :
    parseQsl (urlencode fields) = some fields := by
  cases fields with
  | nil => rfl
  | cons field fields =>
    have kept : ((field :: fields).map quoteField).filter (· ≠ []) =
        (field :: fields).map quoteField :=
      List.filter_eq_self.mpr fun part member => by
        obtain ⟨field, -, rfl⟩ := List.mem_map.mp member
        simp [quoteField]
    rw [parseQsl, splitOn_urlencode, kept, List.mapM_map]
    have each : ∀ fields : List (Str × Str),
        fields.mapM (fun field => unquoteField (quoteField field)) = some fields := by
      intro fields
      induction fields with
      | nil => rfl
      | cons field fields ih =>
        rw [List.mapM_cons, unquoteField_quoteField, ih]
        rfl
    exact each (field :: fields)

example : urlencode [("a b", "x&y=é")] = ("a+b=x%26y%3D%C3%A9" : Str) := by decide +kernel

end Bytes

end Python
