import CredBroker.Python.Bytes

/-!
# What the codecs give back

UTF-8 and URL-safe base64 are undone by their decoders, and `str.split` on one
character undoes a join by it.
-/

namespace Python

/-! ## Splitting -/

namespace Str

theorem splitOn_plain {text : Str} {sep : Char} (plain : sep ∉ text) : splitOn text sep = [text] :=
  List.splitOnP_eq_singleton fun _ member =>
    beq_false_of_ne fun is => plain (Eq.subst is member)

theorem splitOn_append {part : Str} {sep : Char} (plain : sep ∉ part) (rest : Str) :
    splitOn (part ++ sep :: rest) sep = part :: splitOn rest sep :=
  List.splitOnP_append_cons_of_forall_mem
    (fun _ member => beq_false_of_ne fun is => plain (Eq.subst is member)) sep
    (beq_self_eq_true sep) rest

/-- The first part of a split ends at a separator, or with the text. -/
theorem splitOn_first {text part : Str} {parts : List Str} {sep : Char}
    (split : splitOn text sep = part :: parts) :
    sep ∉ part ∧ ((parts = [] ∧ text = part) ∨
      ∃ rest, text = part ++ sep :: rest ∧ splitOn rest sep = parts) := by
  by_cases there : sep ∈ text
  · obtain ⟨first, rest, rfl, plain⟩ := List.eq_append_cons_of_mem there
    rw [splitOn_append plain] at split
    obtain ⟨rfl, rfl⟩ := List.cons.inj split
    exact ⟨plain, .inr ⟨rest, rfl, rfl⟩⟩
  · rw [splitOn_plain there] at split
    obtain ⟨rfl, rfl⟩ := List.cons.inj split
    exact ⟨there, .inl ⟨rfl, rfl⟩⟩

/-- The last part of a split. -/
theorem splitOn_last {text part : Str} {sep : Char} (split : splitOn text sep = [part]) :
    sep ∉ part ∧ text = part := by
  obtain ⟨plain, ⟨-, is⟩ | ⟨rest, -, none⟩⟩ := splitOn_first split
  · exact ⟨plain, is⟩
  · exact absurd none (List.splitOnP_ne_nil _ _)

/-- A further part of a split follows a separator. -/
theorem splitOn_next {text part next : Str} {parts : List Str} {sep : Char}
    (split : splitOn text sep = part :: next :: parts) :
    sep ∉ part ∧ ∃ rest, text = part ++ sep :: rest ∧ splitOn rest sep = next :: parts := by
  obtain ⟨plain, ⟨none, -⟩ | rest⟩ := splitOn_first split
  · cases none
  · exact ⟨plain, rest⟩

/-- What follows the last separator, and what comes before it. -/
theorem append_last_inj {part part' last last' : Str} {sep : Char} (plain : sep ∉ last)
    (plain' : sep ∉ last') (same : part ++ sep :: last = part' ++ sep :: last') :
    part = part' ∧ last = last' := by
  have longer : ∀ {part last more last' : Str}, sep ∉ last → sep :: last = more ++ sep :: last' →
      part = part ++ more ∧ last = last' := by
    intro part last more last' plain same
    cases more with
    | nil => exact ⟨(List.append_nil part).symm, (List.cons.inj same).2⟩
    | cons c more =>
      have there : sep ∈ more ++ sep :: last' := List.mem_append_right _ List.mem_cons_self
      rw [List.cons_append] at same
      exact absurd ((List.cons.inj same).2 ▸ there) plain
  rcases List.append_eq_append_iff.mp same with ⟨more, rfl, tail⟩ | ⟨more, rfl, tail⟩
  · exact longer plain tail
  · obtain ⟨is, same⟩ : part' = part' ++ more ∧ last' = last := longer plain' tail
    exact ⟨is.symm, same.symm⟩

end Str

/-! ## UTF-8 -/

namespace Bytes

/-- UTF-8 is read back. -/
theorem decode_encode (text : Str) : decode (encode text) = some text := by
  have bytes : ByteArray.mk (encode text).toArray = text.utf8Encode := by
    refine ByteArray.ext (Array.toList_inj.mp ?_)
    rw [List.utf8Encode, List.toList_data_toByteArray]
    rfl
  rw [decode, bytes, List.utf8Decode?_utf8Encode]
  rfl

/-! ## Base64 -/

theorem base64Value_char {n : Nat} (small : n < 64) :
    base64Char n ≠ '=' ∧ base64Value (base64Char n) = some n := by
  have table : ∀ n < 64, base64Char n ≠ '=' ∧ base64Value (base64Char n) = some n := by
    decide +kernel
  exact table n small

/-! What one character of the alphabet does to a decoder. -/

section Quads

variable {n : Nat} (small : n < 64) (left pads : Nat) (text : Str)

include small

theorem a2bBase64_first : a2bBase64 0 left pads (base64Char n :: text) = a2bBase64 1 n 0 text := by
  obtain ⟨data, value⟩ := base64Value_char small
  rw [a2bBase64, if_neg data, value]
  rfl

theorem a2bBase64_second : a2bBase64 1 left pads (base64Char n :: text) =
    (a2bBase64 2 (n % 16) 0 text).map (UInt8.ofNat (left * 4 + n / 16) :: ·) := by
  obtain ⟨data, value⟩ := base64Value_char small
  rw [a2bBase64, if_neg data, value]
  rfl

theorem a2bBase64_third : a2bBase64 2 left pads (base64Char n :: text) =
    (a2bBase64 3 (n % 4) 0 text).map (UInt8.ofNat (left * 16 + n / 4) :: ·) := by
  obtain ⟨data, value⟩ := base64Value_char small
  rw [a2bBase64, if_neg data, value]
  rfl

theorem a2bBase64_fourth : a2bBase64 3 left pads (base64Char n :: text) =
    (a2bBase64 0 0 0 text).map (UInt8.ofNat (left * 64 + n) :: ·) := by
  obtain ⟨data, value⟩ := base64Value_char small
  rw [a2bBase64, if_neg data, value]
  rfl

end Quads

theorem ofNat_byte {n : Nat} {byte : UInt8} (is : n = byte.toNat) : UInt8.ofNat n = byte := by
  rw [is, UInt8.ofNat_toNat]

/-- So is base64, whatever the padding. -/
theorem urlsafeB64Decode_encode (data : Bytes) :
    urlsafeB64Decode (urlsafeB64Encode data) = some data := by
  unfold urlsafeB64Decode
  fun_induction urlsafeB64Encode data with
  | case1 a b c data n ih =>
    have ha := a.toNat_lt
    have hb := b.toNat_lt
    have hc := c.toNat_lt
    have first : UInt8.ofNat (n / 262144 * 4 + n / 4096 % 64 / 16) = a := ofNat_byte (by omega)
    have second : UInt8.ofNat (n / 4096 % 64 % 16 * 16 + n / 64 % 64 / 4) = b :=
      ofNat_byte (by omega)
    have third : UInt8.ofNat (n / 64 % 64 % 4 * 64 + n % 64) = c := ofNat_byte (by omega)
    rw [a2bBase64_first (by omega), a2bBase64_second (by omega), a2bBase64_third (by omega),
      a2bBase64_fourth (by omega), ih, first, second, third]
    rfl
  | case2 a b n =>
    have ha := a.toNat_lt
    have hb := b.toNat_lt
    have first : UInt8.ofNat (n / 4096 * 4 + n / 64 % 64 / 16) = a := ofNat_byte (by omega)
    have second : UInt8.ofNat (n / 64 % 64 % 16 * 16 + n % 64 / 4) = b := ofNat_byte (by omega)
    rw [a2bBase64_first (by omega), a2bBase64_second (by omega), a2bBase64_third (by omega), first,
      second]
    rfl
  | case3 a n =>
    have ha := a.toNat_lt
    have first : UInt8.ofNat (n / 64 * 4 + n % 64 / 16) = a := ofNat_byte (by omega)
    rw [a2bBase64_first (by omega), a2bBase64_second (by omega), first]
    rfl
  | case4 => rfl

end Bytes

end Python
