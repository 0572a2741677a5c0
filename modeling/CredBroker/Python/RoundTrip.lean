import CredBroker.Python.Numerals

/-!
# What `json.loads` makes of `json.dumps`

`json.loads(json.dumps(value))` is `value`, for every value that `json.loads`
can itself have produced, with or without a space after the separators. A
serialised value is read back in front of whatever may follow it, so the proof
goes by recursion on the value.
-/

namespace Python

namespace Json

/-! ## How a serialised value begins -/

/-- The characters that a serialised value begins with. -/
def Opens (c : Char) : Prop :=
  c ∈ ['n', 't', 'f', 'N', 'I', '-', '"', '[', '{'] ∨ c.isDigit = true

instance (c : Char) : Decidable (Opens c) := inferInstanceAs (Decidable (_ ∨ _))

theorem isFloatText_opens {text : Str} (is : isFloatText text = true) :
    ∃ c more, text = c :: more ∧ Opens c := by
  rcases Bool.or_eq_true_iff.mp is with word | numeral
  · have words : text ∈ floatWords := List.contains_iff_mem.mp word
    unfold floatWords at words
    simp only [List.mem_cons, List.not_mem_nil, or_false] at words
    rcases words with rfl | rfl | rfl <;> exact ⟨_, _, rfl, by decide⟩
  · split at numeral
    · rename_i found
      obtain ⟨c, more, shown, begins⟩ := lexNumber_begins found
      refine ⟨c, more, shown, ?_⟩
      rcases begins with rfl | digit
      · decide
      · exact Or.inr digit
    · cases numeral

/-- A printed value begins with a character that no blank is. -/
theorem dumps_opens (style : Style) (value : Json) :
    ∃ c more, dumps style value = c :: more ∧ Opens c := by
  cases value with
  | null => exact ⟨_, _, rfl, by decide⟩
  | bool b => cases b <;> exact ⟨_, _, rfl, by decide⟩
  | int n =>
    cases n with
    | ofNat n =>
      obtain ⟨c, more, shown, digit, -⟩ := ofNat_begins n
      exact ⟨c, more, shown, Or.inr digit⟩
    | negSucc n => exact ⟨_, _, rfl, by decide⟩
  | float printed => exact isFloatText_opens printed.property
  | str s => exact ⟨_, _, rfl, by decide⟩
  | arr items => exact ⟨_, _, rfl, by decide⟩
  | obj members => exact ⟨_, _, rfl, by decide⟩

/-! ## Strings -/

theorem hexDigit_digitChar {d : Nat} (small : d < 16) :
    Str.hexDigit (Nat.digitChar d) = some d := by
  have table : ∀ d < 16, Str.hexDigit (Nat.digitChar d) = some d := by decide
  exact table d small

/-- Four hexadecimal digits are read back. -/
theorem hex4_append {n : Nat} (small : n < 0x10000) (rest : Str) :
    hex4 (Str.hex 4 n ++ rest) = some (n, rest) := by
  have low (m : Nat) : Str.hexDigit (Nat.digitChar (m % 16)) = some (m % 16) :=
    hexDigit_digitChar (Nat.mod_lt m (by decide))
  simp only [Str.hex, List.nil_append, List.cons_append, hex4, low, Option.bind_eq_bind,
    Option.bind_some, Option.some.injEq, Prod.mk.injEq, and_true]
  omega

/-- A code point of the basic plane is one escape. -/
theorem unicodeEscape_basic {c : Char} (basic : c.toNat < 0x10000) (rest : Str) :
    unicodeEscape (Str.hex 4 c.toNat ++ rest) = some (c, rest) := by
  unfold unicodeEscape
  rw [hex4_append basic]
  show (if _ then _ else _) = _
  rw [if_pos (show c.toNat.isValidChar from c.valid), Char.ofNat_toNat]

/-- A code point beyond it is a pair of surrogates. -/
theorem unicodeEscape_pair {c : Char} {high low : Nat} (rest : Str)
    (first : 0xd800 ≤ high ∧ high < 0xdc00) (second : 0xdc00 ≤ low ∧ low < 0xe000)
    (whole : 0x10000 + (high - 0xd800) * 0x400 + (low - 0xdc00) = c.toNat) :
    unicodeEscape (Str.hex 4 high ++ '\\' :: 'u' :: (Str.hex 4 low ++ rest)) =
      some (c, rest) := by
  have surrogate : ¬ high.isValidChar := by
    unfold Nat.isValidChar
    omega
  have pair : 0xd800 ≤ high ∧ high < 0xdc00 ∧ 0xdc00 ≤ low ∧ low < 0xe000 :=
    ⟨first.1, first.2, second⟩
  unfold unicodeEscape
  rw [hex4_append (by omega)]
  simp only [Option.bind_eq_bind, Option.bind_some, if_neg surrogate,
    hex4_append (show low < 0x10000 by omega), if_pos pair, whole, Char.ofNat_toNat]

theorem toNat_lt (c : Char) : c.toNat < 0x110000 := by
  have valid : c.toNat.isValidChar := c.valid
  unfold Nat.isValidChar at valid
  omega

/-- A plain character stands for itself. -/
theorem parseStr_plain (fuel : Nat) {c : Char} (quote : c ≠ '"') (slash : c ≠ '\\')
    (visible : 32 ≤ c.toNat) (text : Str) :
    parseStr (fuel + 1) (c :: text) = (parseStr fuel text).map fun parsed =>
      (c :: parsed.1, parsed.2) := by
  rw [parseStr]
  · rw [if_neg (by omega)]
    exact Option.map_eq_bind.symm
  · exact quote
  · intro _ is
    exact (slash is).elim
  · intro _ _ is
    exact (slash is).elim

/-- An escaped character is read back. -/
theorem parseStr_unicode (fuel : Nat) {c : Char} {text rest : Str}
    (escaped : unicodeEscape text = some (c, rest)) :
    parseStr (fuel + 1) ('\\' :: 'u' :: text) = (parseStr fuel rest).map fun parsed =>
      (c :: parsed.1, parsed.2) := by
  show (unicodeEscape text).bind _ = _
  rw [escaped]
  exact Option.map_eq_bind.symm

theorem unicodeMark (text : Str) : ("\\u" : Str) ++ text = '\\' :: 'u' :: text := rfl

/-- One character of a literal is read back. -/
theorem parseStr_escapeChar (fuel : Nat) (c : Char) (text : Str) :
    parseStr (fuel + 1) (escapeChar c ++ text) =
      (parseStr fuel text).map fun parsed => (c :: parsed.1, parsed.2) := by
  have control : ∀ {n : Nat}, (c.toNat == n) = true → c = Char.ofNat n := by
    intro n is
    rw [← eq_of_beq is, Char.ofNat_toNat]
  unfold escapeChar
  split
  · rename_i is
    obtain rfl := eq_of_beq is
    exact Option.map_eq_bind.symm
  rename_i quote
  split
  · rename_i is
    obtain rfl := eq_of_beq is
    exact Option.map_eq_bind.symm
  rename_i slash
  split
  · rename_i is
    obtain rfl := eq_of_beq is
    exact Option.map_eq_bind.symm
  split
  · rename_i is
    obtain rfl := eq_of_beq is
    exact Option.map_eq_bind.symm
  split
  · rename_i is
    obtain rfl := eq_of_beq is
    exact Option.map_eq_bind.symm
  split
  · rename_i is
    obtain rfl := control is
    exact Option.map_eq_bind.symm
  split
  · rename_i is
    obtain rfl := control is
    exact Option.map_eq_bind.symm
  split
  · rename_i visible
    exact parseStr_plain fuel (fun is => quote (beq_iff_eq.mpr is))
      (fun is => slash (beq_iff_eq.mpr is)) visible.1 text
  split
  · rename_i basic
    rw [List.append_assoc, unicodeMark]
    exact parseStr_unicode fuel (unicodeEscape_basic basic text)
  · rename_i beyond
    have bound := toNat_lt c
    have escaped : unicodeEscape (Str.hex 4 (0xd800 + (c.toNat - 0x10000) / 0x400) ++
        '\\' :: 'u' :: (Str.hex 4 (0xdc00 + (c.toNat - 0x10000) % 0x400) ++ text)) =
        some (c, text) :=
      unicodeEscape_pair text (by omega) (by omega) (by omega)
    rw [List.append_assoc, List.append_assoc, List.append_assoc, unicodeMark, unicodeMark]
    exact parseStr_unicode fuel escaped

/-- A literal is read back up to its closing quote. -/
theorem parseStr_dumpStr {fuel : Nat} (s rest : Str) (enough : s.length < fuel) :
    parseStr fuel (s.flatMap escapeChar ++ '"' :: rest) = some (s, rest) := by
  induction s generalizing fuel with
  | nil =>
    obtain ⟨fuel, rfl⟩ := Nat.exists_eq_succ_of_ne_zero (Nat.ne_of_gt enough)
    rfl
  | cons c s ih =>
    obtain ⟨fuel, rfl⟩ := Nat.exists_eq_succ_of_ne_zero (Nat.ne_of_gt (Nat.zero_lt_of_lt enough))
    rw [List.flatMap_cons, List.append_assoc, parseStr_escapeChar,
      ih (Nat.lt_of_succ_lt_succ enough)]
    rfl

theorem length_escapeChar (c : Char) : 0 < (escapeChar c).length := by
  unfold escapeChar
  split_ifs <;> simp

theorem length_flatMap_escapeChar (s : Str) : s.length ≤ (s.flatMap escapeChar).length := by
  induction s with
  | nil => exact Nat.le_refl _
  | cons c s ih =>
    have first := length_escapeChar c
    rw [List.flatMap_cons, List.length_append, List.length_cons]
    omega

theorem length_dumpStr (s : Str) : s.length + 2 ≤ (dumpStr s).length := by
  have inner := length_flatMap_escapeChar s
  unfold dumpStr
  rw [List.length_append, List.length_cons, List.length_singleton]
  omega

/-! ## One step of the parser -/

/-- Nothing is skipped before a value. -/
theorem skipSpace_opens {c : Char} (opens : Opens c) (text : Str) :
    skipSpace (c :: text) = c :: text := by
  have other : c ∉ [' ', '\t', '\n', '\r'] := by
    intro space
    simp only [List.mem_cons, List.not_mem_nil, or_false] at space
    rcases space with rfl | rfl | rfl | rfl <;> exact absurd opens (by decide)
  rw [skipSpace, if_neg other]

theorem skipSpace_gap {gap : Str} (blank : ∀ c ∈ gap, c = ' ') (text : Str) :
    skipSpace (gap ++ text) = skipSpace text := by
  induction gap with
  | nil => rfl
  | cons c gap ih =>
    obtain rfl := blank c List.mem_cons_self
    exact ih fun c member => blank c (List.mem_cons_of_mem _ member)

theorem literals_number {text : Str} {parts : Str × Str × Str × Str}
    (is : lexNumber text = some parts) :
    literals.find? (fun literal => literal.1.isPrefixOf text) = none := by
  rw [List.find?_eq_none]
  intro literal member isPrefix
  obtain ⟨more, rfl⟩ := List.isPrefixOf_iff_prefix.mp isPrefix
  have words : ∀ literal ∈ literals, lexNumber (literal.1 ++ more) = none := by
    intro literal member
    simp only [literals, List.mem_cons, List.not_mem_nil, or_false] at member
    rcases member with rfl | rfl | rfl | rfl | rfl | rfl <;> rfl
  rw [words literal member] at is
  cases is

section Steps

variable (floatRepr : Str → FloatText) (fuel : Nat)

theorem parseValue_number {text : Str} {parts : Str × Str × Str × Str}
    (is : lexNumber text = some parts) :
    parseValue floatRepr (fuel + 1) text = parseNumber floatRepr text := by
  obtain ⟨c, more, rfl, begins⟩ := lexNumber_begins is
  have other : ∀ d ∈ ['"', '[', '{'], c ≠ d := by
    rintro d member rfl
    simp only [List.mem_cons, List.not_mem_nil, or_false] at member
    rcases member with rfl | rfl | rfl <;> exact absurd begins (by decide)
  rw [parseValue, literals_number is]
  · intro _ same
    exact (other _ (by decide) (List.cons.inj same).1).elim
  · intro _ same
    exact (other _ (by decide) (List.cons.inj same).1).elim
  · intro _ same
    exact (other _ (by decide) (List.cons.inj same).1).elim

theorem parseValue_str (text : Str) : parseValue floatRepr (fuel + 1) ('"' :: text) =
    (parseStr fuel text).map fun parsed => (.str parsed.1, parsed.2) := by
  rw [parseValue]
  rfl

theorem parseValue_arr {c : Char} (opens : Opens c) (text : Str) :
    parseValue floatRepr (fuel + 1) ('[' :: c :: text) =
      (parseItems floatRepr fuel (c :: text)).map fun parsed => (.arr parsed.1, parsed.2) := by
  have none : literals.find? (fun literal => literal.1.isPrefixOf ('[' :: c :: text)) = none := rfl
  conv_lhs => unfold parseValue
  simp only [none, skipSpace_opens opens]
  split
  · rename_i same
    rw [(List.cons.inj same).1] at opens
    exact absurd opens (by decide)
  · rfl

theorem parseValue_obj (text : Str) :
    parseValue floatRepr (fuel + 1) ('{' :: '"' :: text) =
      (parseMembers floatRepr fuel [] ('"' :: text)).map fun parsed =>
        (.obj parsed.1, parsed.2) := by
  rw [parseValue]
  rfl

variable {floatRepr fuel}

theorem parseItems_gap {gap : Str} (blank : ∀ c ∈ gap, c = ' ') (text : Str) :
    parseItems floatRepr fuel (gap ++ text) = parseItems floatRepr fuel text := by
  cases fuel with
  | zero => rw [parseItems, parseItems]
  | succ fuel => rw [parseItems, parseItems, skipSpace_gap blank]

theorem parseItems_last {value : Json} {c : Char} {text rest : Str} (opens : Opens c)
    (parsed : parseValue floatRepr fuel (c :: text) = some (value, ']' :: rest)) :
    parseItems floatRepr (fuel + 1) (c :: text) = some ([value], rest) := by
  rw [parseItems, skipSpace_opens opens, parsed]
  rfl

/-- An item that is followed by another one. -/
theorem parseItems_more {value : Json} {c : Char} {text more : Str} (opens : Opens c)
    (parsed : parseValue floatRepr fuel (c :: text) = some (value, ',' :: more)) :
    parseItems floatRepr (fuel + 1) (c :: text) =
      (parseItems floatRepr fuel more).map fun parsed => (value :: parsed.1, parsed.2) := by
  rw [parseItems, skipSpace_opens opens, parsed]
  exact Option.map_eq_bind.symm

theorem parseMembers_gap {gap : Str} (blank : ∀ c ∈ gap, c = ' ') (members : List (Str × Json))
    (text : Str) :
    parseMembers floatRepr fuel members (gap ++ text) =
      parseMembers floatRepr fuel members text := by
  cases fuel with
  | zero => rw [parseMembers, parseMembers]
  | succ fuel => rw [parseMembers, parseMembers, skipSpace_gap blank]

theorem parseMembers_last {members : List (Str × Json)} {key : Str} {value : Json} {c : Char}
    {gap name text rest : Str} (blank : ∀ c ∈ gap, c = ' ') (opens : Opens c)
    (named : parseStr fuel name = some (key, ':' :: (gap ++ c :: text)))
    (parsed : parseValue floatRepr fuel (c :: text) = some (value, '}' :: rest)) :
    parseMembers floatRepr (fuel + 1) members ('"' :: name) =
      some (setItem members key value, rest) := by
  have after : skipSpace (gap ++ c :: text) = c :: text :=
    (skipSpace_gap blank _).trans (skipSpace_opens opens text)
  rw [parseMembers]
  show (parseStr fuel name).bind _ = _
  rw [named]
  show (parseValue floatRepr fuel (skipSpace (gap ++ c :: text))).bind _ = _
  rw [after, parsed]
  rfl

/-- A member that is followed by another one. -/
theorem parseMembers_more {members : List (Str × Json)} {key : Str} {value : Json} {c : Char}
    {gap name text more : Str} (blank : ∀ c ∈ gap, c = ' ') (opens : Opens c)
    (named : parseStr fuel name = some (key, ':' :: (gap ++ c :: text)))
    (parsed : parseValue floatRepr fuel (c :: text) = some (value, ',' :: more)) :
    parseMembers floatRepr (fuel + 1) members ('"' :: name) =
      parseMembers floatRepr fuel (setItem members key value) more := by
  have after : skipSpace (gap ++ c :: text) = c :: text :=
    (skipSpace_gap blank _).trans (skipSpace_opens opens text)
  rw [parseMembers]
  show (parseStr fuel name).bind _ = _
  rw [named]
  show (parseValue floatRepr fuel (skipSpace (gap ++ c :: text))).bind _ = _
  rw [after, parsed]
  rfl

end Steps

/-! ## Values are read back -/

mutual

/-- A value that `json.loads` can return: each float prints as its own `repr`,
and the keys of a dict are distinct. -/
def WellFormed (floatRepr : Str → FloatText) : Json → Prop
  | .float printed => printed.val ∈ floatWords ∨ floatRepr printed.val = printed
  | .arr items => WellFormedItems floatRepr items
  | .obj members => (members.map (·.1)).Nodup ∧ WellFormedMembers floatRepr members
  | _ => True

def WellFormedItems (floatRepr : Str → FloatText) : List Json → Prop
  | [] => True
  | value :: items => WellFormed floatRepr value ∧ WellFormedItems floatRepr items

def WellFormedMembers (floatRepr : Str → FloatText) : List (Str × Json) → Prop
  | [] => True
  | (_, value) :: members => WellFormed floatRepr value ∧ WellFormedMembers floatRepr members

end

/-- A new key goes to the end of the members. -/
theorem setItem_append {members : List (Str × Json)} {key : Str}
    (new : key ∉ members.map (·.1)) (value : Json) :
    setItem members key value = members ++ [(key, value)] := by
  unfold setItem
  rw [if_neg]
  intro found
  obtain ⟨member, is, same⟩ := List.any_eq_true.mp found
  exact new (eq_of_beq same ▸ List.mem_map_of_mem is)

/-- Members as they come, with `gap` after each separator. -/
def Style.spaced (gap : Str) : Style := ⟨',' :: gap, ':' :: gap, false⟩

section Spaced

variable (gap : Str)

/-- The serialised items of an array, joined. -/
abbrev joinItems (items : List Json) : Str :=
  (Style.spaced gap).itemSeparator.intercalate (dumpItems (.spaced gap) items)

theorem joinItems_single (value : Json) : joinItems gap [value] = dumps (.spaced gap) value :=
  List.intercalate_singleton

theorem joinItems_cons (value next : Json) (items : List Json) :
    joinItems gap (value :: next :: items) =
      dumps (.spaced gap) value ++ ',' :: (gap ++ joinItems gap (next :: items)) := by
  show List.intercalate _ (_ :: _ :: _) = _
  rw [List.intercalate_cons_cons, List.append_assoc]
  rfl

theorem joinItems_opens (value : Json) (items : List Json) :
    ∃ c more, joinItems gap (value :: items) = c :: more ∧ Opens c := by
  obtain ⟨c, more, shown, opens⟩ := dumps_opens (.spaced gap) value
  cases items with
  | nil => exact ⟨c, more, (joinItems_single gap value).trans shown, opens⟩
  | cons next items =>
    rw [joinItems_cons, shown]
    exact ⟨c, _, rfl, opens⟩

abbrev joinedMembers (members : List (Str × Json)) : Str :=
  joinMembers (.spaced gap) (dumpValues (.spaced gap) members)

theorem joinedMembers_single (key : Str) (value : Json) :
    joinedMembers gap [(key, value)] =
      dumpStr key ++ ':' :: (gap ++ dumps (.spaced gap) value) := by
  show List.intercalate _ [_] = _
  rw [List.intercalate_singleton]
  show dumpStr key ++ ':' :: gap ++ _ = _
  rw [List.append_assoc]
  rfl

theorem joinedMembers_cons (key : Str) (value : Json) (next : Str × Json)
    (members : List (Str × Json)) :
    joinedMembers gap ((key, value) :: next :: members) = dumpStr key ++ ':' :: (gap ++
      (dumps (.spaced gap) value ++ ',' :: (gap ++ joinedMembers gap (next :: members)))) := by
  show List.intercalate _ (_ :: _ :: _) = _
  rw [List.intercalate_cons_cons]
  show (dumpStr key ++ ':' :: gap ++ _) ++ ',' :: gap ++ joinedMembers gap (next :: members) = _
  rw [List.append_assoc, List.append_assoc, List.append_assoc]
  rfl

theorem joinedMembers_opens (key : Str) (value : Json) (members : List (Str × Json)) :
    ∃ more, joinedMembers gap ((key, value) :: members) = '"' :: more := by
  cases members with
  | nil => exact ⟨_, joinedMembers_single gap key value⟩
  | cons next members => exact ⟨_, joinedMembers_cons gap key value next members⟩

end Spaced

theorem dumpStr_append (key rest : Str) :
    dumpStr key ++ rest = '"' :: (key.flatMap escapeChar ++ '"' :: rest) := by
  show '"' :: _ ++ _ ++ _ = _
  rw [List.append_assoc]
  rfl

section RoundTrip

variable {floatRepr : Str → FloatText} {gap : Str}

theorem parseValue_float {printed : FloatText} (is : WellFormed floatRepr (.float printed))
    {fuel : Nat} {rest : Str} (ends : Ends rest) :
    parseValue floatRepr (fuel + 1) (printed.val ++ rest) = some (.float printed, rest) := by
  rw [WellFormed] at is
  by_cases word : printed.val ∈ floatWords
  · obtain ⟨text, valid⟩ := printed
    simp only [floatWords, List.mem_cons, List.not_mem_nil, or_false] at word
    rcases word with rfl | rfl | rfl <;> rfl
  · have shown : isFloatText printed.val = true := printed.property
    unfold isFloatText at shown
    rw [Bool.or_eq_true_iff, List.contains_iff_mem, or_iff_right word] at shown
    split at shown
    · rename_i whole fraction exponent lexed
      have text := lexNumber_text lexed
      have lexed' := lexNumber_append ends printed.val
      rw [lexed] at lexed'
      rw [List.append_nil] at text
      rw [parseValue_number floatRepr fuel lexed', parseNumber, lexed']
      have point : ¬ (fraction = [] ∧ exponent = []) := by
        rintro ⟨rfl, rfl⟩
        cases shown
      show (if fraction = [] ∧ exponent = [] then _ else _) = _
      rw [if_neg point, text, is.resolve_left word]
      rfl
    · cases shown

/-- An integer is read back. -/
theorem parseValue_int (n : Int) {fuel : Nat} {rest : Str} (ends : Ends rest) :
    parseValue floatRepr (fuel + 1) (Str.ofInt n ++ rest) = some (.int n, rest) := by
  have lexed := lexNumber_append ends (Str.ofInt n)
  rw [lexNumber_ofInt] at lexed
  rw [parseValue_number floatRepr fuel lexed, parseNumber, lexed]
  show (Str.int Str.decimalDigit (Str.ofInt n)).map _ = _
  rw [int_ofInt]
  rfl

mutual

/-- A serialised value is read back in front of what may follow it. -/
theorem parseValue_dumps (blank : ∀ c ∈ gap, c = ' ') (value : Json)
    (is : WellFormed floatRepr value) {fuel : Nat} {rest : Str}
    (enough : (dumps (.spaced gap) value).length ≤ fuel) (ends : Ends rest) :
    parseValue floatRepr fuel (dumps (.spaced gap) value ++ rest) = some (value, rest) := by
  obtain ⟨c, more, shown, -⟩ := dumps_opens (.spaced gap) value
  obtain ⟨fuel, rfl⟩ : ∃ less, fuel = less + 1 := by
    rw [shown, List.length_cons] at enough
    exact ⟨fuel - 1, by omega⟩
  cases value with
  | null => rfl
  | bool b => cases b <;> rfl
  | int n => exact parseValue_int n ends
  | float printed => exact parseValue_float is ends
  | str s =>
    have length := length_dumpStr s
    have enough : (dumpStr s).length ≤ fuel + 1 := enough
    show parseValue floatRepr (fuel + 1) (dumpStr s ++ rest) = _
    rw [dumpStr_append, parseValue_str, parseStr_dumpStr s rest (by omega)]
    rfl
  | arr items =>
    cases items with
    | nil => rfl
    | cons first items =>
      have text : dumps (.spaced gap) (.arr (first :: items)) ++ rest =
          '[' :: (joinItems gap (first :: items) ++ ']' :: rest) := by
        show '[' :: _ ++ _ ++ _ = _
        rw [List.append_assoc]
        rfl
      have enough : ('[' :: joinItems gap (first :: items) ++ [']']).length ≤ fuel + 1 := enough
      rw [List.length_append, List.length_cons, List.length_singleton] at enough
      have parsed : parseItems floatRepr fuel (joinItems gap (first :: items) ++ ']' :: rest) = _ :=
        parseItems_dumps blank first items is (by omega)
      obtain ⟨c, more, shown, opens⟩ := joinItems_opens gap first items
      rw [text]
      rw [shown] at parsed ⊢
      rw [List.cons_append] at parsed ⊢
      rw [parseValue_arr floatRepr fuel opens, parsed]
      rfl
  | obj members =>
    cases members with
    | nil => rfl
    | cons member members =>
      cases member with
      | mk key first =>
        have text : dumps (.spaced gap) (.obj ((key, first) :: members)) ++ rest =
            '{' :: (joinedMembers gap ((key, first) :: members) ++ '}' :: rest) := by
          show '{' :: _ ++ _ ++ _ = _
          rw [List.append_assoc]
          rfl
        have enough : ('{' :: joinedMembers gap ((key, first) :: members) ++ ['}']).length ≤
            fuel + 1 := enough
        rw [List.length_append, List.length_cons, List.length_singleton] at enough
        have parsed : parseMembers floatRepr fuel []
            (joinedMembers gap ((key, first) :: members) ++ '}' :: rest) = _ :=
          parseMembers_dumps blank [] key first members is.1 is.2 (by omega)
        obtain ⟨more, shown⟩ := joinedMembers_opens gap key first members
        rw [text]
        rw [shown, List.cons_append] at parsed ⊢
        rw [parseValue_obj floatRepr fuel, parsed]
        rfl
termination_by sizeOf value

/-- The items of an array are read back up to its bracket. -/
theorem parseItems_dumps (blank : ∀ c ∈ gap, c = ' ') (first : Json) (items : List Json)
    (is : WellFormedItems floatRepr (first :: items)) {fuel : Nat} {rest : Str}
    (enough : (joinItems gap (first :: items)).length + 1 ≤ fuel) :
    parseItems floatRepr fuel (joinItems gap (first :: items) ++ ']' :: rest) =
      some (first :: items, rest) := by
  obtain ⟨fuel, rfl⟩ : ∃ less, fuel = less + 1 := ⟨fuel - 1, by omega⟩
  obtain ⟨c, more, shown, opens⟩ := dumps_opens (.spaced gap) first
  cases items with
  | nil =>
    rw [joinItems_single] at enough ⊢
    have parsed := parseValue_dumps blank first is.1 (Nat.le_of_succ_le_succ enough)
      (ends_cons rest (show ']' = ',' ∨ ']' = ']' ∨ ']' = '}' by decide))
    rw [shown, List.cons_append] at parsed ⊢
    exact parseItems_last opens parsed
  | cons next items =>
    rw [joinItems_cons, List.length_append, List.length_cons, List.length_append] at enough
    have parsed := parseValue_dumps blank first is.1 (show _ ≤ fuel by omega)
      (ends_cons (gap ++ (joinItems gap (next :: items) ++ ']' :: rest))
        (show ',' = ',' ∨ ',' = ']' ∨ ',' = '}' by decide))
    have others : parseItems floatRepr fuel (joinItems gap (next :: items) ++ ']' :: rest) = _ :=
      parseItems_dumps blank next items is.2 (by omega)
    rw [joinItems_cons, List.append_assoc, List.cons_append, List.append_assoc]
    rw [shown, List.cons_append] at parsed ⊢
    rw [parseItems_more opens parsed, parseItems_gap blank, others]
    rfl
termination_by sizeOf (first :: items)

/-- The members of an object are read back up to its brace. -/
theorem parseMembers_dumps (blank : ∀ c ∈ gap, c = ' ') (read : List (Str × Json)) (key : Str)
    (first : Json) (members : List (Str × Json))
    (distinct : ((read ++ (key, first) :: members).map (·.1)).Nodup)
    (is : WellFormedMembers floatRepr ((key, first) :: members)) {fuel : Nat} {rest : Str}
    (enough : (joinedMembers gap ((key, first) :: members)).length + 1 ≤ fuel) :
    parseMembers floatRepr fuel read (joinedMembers gap ((key, first) :: members) ++ '}' :: rest) =
      some (read ++ (key, first) :: members, rest) := by
  obtain ⟨fuel, rfl⟩ : ∃ less, fuel = less + 1 := ⟨fuel - 1, by omega⟩
  obtain ⟨c, more, shown, opens⟩ := dumps_opens (.spaced gap) first
  have length := length_dumpStr key
  have new : key ∉ read.map (·.1) := by
    intro member
    rw [List.map_append, List.map_cons] at distinct
    exact (List.nodup_append.mp distinct).2.2 key member key List.mem_cons_self rfl
  cases members with
  | nil =>
    rw [joinedMembers_single, List.length_append, List.length_cons, List.length_append] at enough
    have parsed := parseValue_dumps blank first is.1 (show _ ≤ fuel by omega)
      (ends_cons rest (show '}' = ',' ∨ '}' = ']' ∨ '}' = '}' by decide))
    rw [joinedMembers_single, List.append_assoc, List.cons_append, List.append_assoc,
      dumpStr_append]
    rw [shown, List.cons_append] at parsed ⊢
    rw [parseMembers_last blank opens (parseStr_dumpStr key _ (by omega)) parsed,
      setItem_append new]
  | cons member members =>
    cases member with
    | mk next second =>
      rw [joinedMembers_cons, List.length_append, List.length_cons, List.length_append,
        List.length_append, List.length_cons, List.length_append] at enough
      have parsed := parseValue_dumps blank first is.1 (show _ ≤ fuel by omega)
        (ends_cons (gap ++ (joinedMembers gap ((next, second) :: members) ++ '}' :: rest))
          (show ',' = ',' ∨ ',' = ']' ∨ ',' = '}' by decide))
      have others : parseMembers floatRepr fuel (read ++ [(key, first)])
          (joinedMembers gap ((next, second) :: members) ++ '}' :: rest) = _ :=
        parseMembers_dumps blank (read ++ [(key, first)]) next second members
          (by rwa [List.append_assoc]) is.2 (by omega)
      rw [joinedMembers_cons, List.append_assoc, List.cons_append, List.append_assoc,
        List.append_assoc, List.cons_append, List.append_assoc, dumpStr_append]
      rw [shown, List.cons_append] at parsed ⊢
      rw [parseMembers_more blank opens (parseStr_dumpStr key _ (by omega)) parsed,
        parseMembers_gap blank, setItem_append new, others, List.append_assoc]
      rfl
termination_by sizeOf ((key, first) :: members)

end

/-- A value is read back from its serialisation with any such gap. -/
theorem loads_dumps_spaced (blank : ∀ c ∈ gap, c = ' ') {value : Json}
    (is : WellFormed floatRepr value) :
    loads floatRepr (dumps (.spaced gap) value) = some value := by
  obtain ⟨c, more, shown, opens⟩ := dumps_opens (.spaced gap) value
  have parsed := parseValue_dumps blank value is
    (show _ ≤ 2 * (dumps (.spaced gap) value).length + 1 by omega) ends_nil
  rw [List.append_nil] at parsed
  have here : skipSpace (dumps (.spaced gap) value) = dumps (.spaced gap) value := by
    rw [shown, skipSpace_opens opens]
  rw [loads, here, parsed]
  rfl

/-- `json.loads(json.dumps(value))` is the value. -/
theorem loads_dumps {value : Json} (is : WellFormed floatRepr value) :
    loads floatRepr (dumps .default value) = some value := by
  have blank : ∀ c ∈ (" " : Str), c = ' ' := fun _ space => List.mem_singleton.mp space
  exact loads_dumps_spaced blank is

end RoundTrip

/-! ## What `json.loads` returns -/

theorem wellFormed_setItem {floatRepr : Str → FloatText} {members : List (Str × Json)} (key : Str)
    {value : Json} (is : WellFormed floatRepr (.obj members)) (new : WellFormed floatRepr value) :
    WellFormed floatRepr (.obj (setItem members key value)) := by
  have replaced : ∀ members : List (Str × Json), WellFormedMembers floatRepr members →
      WellFormedMembers floatRepr
      (members.map fun m => if m.1 == key then (key, value) else m) := by
    intro members is
    induction members with
    | nil => trivial
    | cons member members ih =>
      rw [List.map_cons]
      split
      · exact ⟨new, ih is.2⟩
      · exact ⟨is.1, ih is.2⟩
  have extended : ∀ members : List (Str × Json), WellFormedMembers floatRepr members →
      WellFormedMembers floatRepr (members ++ [(key, value)]) := by
    intro members is
    induction members with
    | nil => exact ⟨new, trivial⟩
    | cons member members ih => exact ⟨is.1, ih is.2⟩
  by_cases known : key ∈ members.map (·.1)
  · have found : members.any (·.1 == key) = true := by
      obtain ⟨member, is, same⟩ := List.mem_map.mp known
      exact List.any_eq_true.mpr ⟨member, is, beq_iff_eq.mpr same⟩
    have keys : ((members.map fun m => if m.1 == key then (key, value) else m).map (·.1)) =
        members.map (·.1) := by
      rw [List.map_map]
      refine List.map_congr_left fun member _ => ?_
      show (if _ then _ else _ : Str × Json).1 = member.1
      split
      · rename_i same
        exact (eq_of_beq same).symm
      · rfl
    unfold setItem
    rw [if_pos found]
    exact ⟨keys ▸ is.1, replaced members is.2⟩
  · rw [setItem_append known]
    refine ⟨?_, extended members is.2⟩
    rw [List.map_append]
    refine List.nodup_append.mpr ⟨is.1, List.nodup_cons.mpr ⟨List.not_mem_nil, List.nodup_nil⟩, ?_⟩
    rintro a member b single rfl
    rw [List.mem_singleton.mp single] at member
    exact known member

section Loaded

variable {floatRepr : Str → FloatText}
  (printed : ∀ text, floatRepr (floatRepr text).val = floatRepr text)

include printed

theorem parseNumber_wellFormed {text rest : Str} {value : Json}
    (parsed : parseNumber floatRepr text = some (value, rest)) : WellFormed floatRepr value := by
  unfold parseNumber at parsed
  obtain ⟨⟨whole, fraction, exponent, more⟩, -, parsed⟩ := Option.bind_eq_some_iff.mp parsed
  dsimp only at parsed
  split at parsed
  · obtain ⟨n, -, same⟩ := Option.map_eq_some_iff.mp parsed
    cases same
    trivial
  · cases parsed
    exact Or.inr (printed _)

/-- What is read is well formed. -/
theorem parse_wellFormed (fuel : Nat) :
    (∀ text rest value, parseValue floatRepr fuel text = some (value, rest) →
      WellFormed floatRepr value) ∧
    (∀ text rest items, parseItems floatRepr fuel text = some (items, rest) →
      WellFormedItems floatRepr items) ∧
    (∀ text rest read members, WellFormed floatRepr (.obj read) →
      parseMembers floatRepr fuel read text = some (members, rest) →
      WellFormed floatRepr (.obj members)) := by
  induction fuel with
  | zero =>
    refine ⟨?_, ?_, ?_⟩
    · intro text rest value parsed
      rw [parseValue] at parsed
      cases parsed
    · intro text rest items parsed
      rw [parseItems] at parsed
      cases parsed
    · intro text rest read members _ parsed
      rw [parseMembers] at parsed
      cases parsed
  | succ fuel ih =>
    obtain ⟨ofValue, ofItems, ofMembers⟩ := ih
    refine ⟨?_, ?_, ?_⟩
    · intro text rest value parsed
      unfold parseValue at parsed
      split at parsed
      · rename_i word literal found
        cases parsed
        have words : ∀ literal ∈ literals, WellFormed floatRepr literal.2 := by
          intro literal member
          simp only [literals, List.mem_cons, List.not_mem_nil, or_false] at member
          rcases member with rfl | rfl | rfl | rfl | rfl | rfl
          · trivial
          · trivial
          · trivial
          all_goals exact Or.inl (by decide)
        exact words _ (List.mem_of_find?_eq_some found)
      · split at parsed
        · obtain ⟨⟨s, more⟩, -, same⟩ := Option.map_eq_some_iff.mp parsed
          cases same
          trivial
        · split at parsed
          · cases parsed
            trivial
          · obtain ⟨⟨items, more⟩, is, same⟩ := Option.map_eq_some_iff.mp parsed
            cases same
            exact ofItems _ _ _ is
        · split at parsed
          · cases parsed
            exact ⟨List.nodup_nil, trivial⟩
          · obtain ⟨⟨members, more⟩, is, same⟩ := Option.map_eq_some_iff.mp parsed
            cases same
            exact ofMembers _ _ [] _ ⟨List.nodup_nil, trivial⟩ is
        · exact parseNumber_wellFormed printed parsed
    · intro text rest items parsed
      unfold parseItems at parsed
      obtain ⟨⟨value, more⟩, is, parsed⟩ := Option.bind_eq_some_iff.mp parsed
      dsimp only at parsed
      split at parsed
      · cases parsed
        exact ⟨ofValue _ _ _ is, trivial⟩
      · obtain ⟨⟨others, more⟩, are, parsed⟩ := Option.bind_eq_some_iff.mp parsed
        cases parsed
        exact ⟨ofValue _ _ _ is, ofItems _ _ _ are⟩
      · cases parsed
    · intro text rest read members before parsed
      unfold parseMembers at parsed
      split at parsed
      · obtain ⟨⟨key, more⟩, -, parsed⟩ := Option.bind_eq_some_iff.mp parsed
        dsimp only at parsed
        split at parsed
        · obtain ⟨⟨value, more⟩, is, parsed⟩ := Option.bind_eq_some_iff.mp parsed
          have after := wellFormed_setItem key before (ofValue _ _ _ is)
          dsimp only at parsed
          split at parsed
          · cases parsed
            exact after
          · exact ofMembers _ _ _ _ after parsed
          · cases parsed
        · cases parsed
      · cases parsed

/-- Whatever `json.loads` returns is read back from its serialisation. -/
theorem loads_wellFormed {text : Str} {value : Json}
    (loaded : loads floatRepr text = some value) : WellFormed floatRepr value := by
  unfold loads at loaded
  split at loaded
  · rename_i parsed
    split at loaded
    · cases loaded
      exact (parse_wellFormed printed _).1 _ _ _ parsed
    · cases loaded
  · cases loaded

end Loaded

end Json

end Python
