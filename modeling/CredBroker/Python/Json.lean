import CredBroker.Python.Text

/-!
# JSON values and Python's `json` module

`Json` is what `json.loads` may return: the numbers are exact for `int` and the
printed form for `float`. `dumps` is `json.dumps` with `ensure_ascii`, in both
separator styles and with or without sorted keys; `loads` is `json.loads`;
`toStr` is `str(value)`.
-/

namespace Python

/-! ## Numerals -/

/-- The longest prefix of digits. -/
def spanDigits (text : Str) : Str × Str := text.span (·.isDigit)

/-- A fraction or an exponent, and what follows it. -/
def parseFraction : Str → Str × Str
  | '.' :: text =>
    match spanDigits text with
    | ([], _) => ([], '.' :: text)
    | (digits, rest) => ('.' :: digits, rest)
  | text => ([], text)

def parseExponent : Str → Str × Str
  | e :: text =>
    if e = 'e' ∨ e = 'E' then
      let (sign, unsigned) := match text with
        | '+' :: text => (['+'], text)
        | '-' :: text => (['-'], text)
        | text => ([], text)
      match spanDigits unsigned with
      | ([], _) => ([], e :: text)
      | (digits, rest) => (e :: sign ++ digits, rest)
    else ([], e :: text)
  | [] => ([], [])

/-- The numeral at the head of a text: its whole part with the sign, its
fraction, its exponent, and the rest of the text. -/
def lexNumber (text : Str) : Option (Str × Str × Str × Str) := do
  let (sign, unsigned) := match text with
    | '-' :: text => (['-'], text)
    | text => ([], text)
  let (whole, rest) ← match unsigned with
    | '0' :: text => some (['0'], text)
    | text => match spanDigits text with
      | ([], _) => none
      | parts => some parts
  let (fraction, rest) := parseFraction rest
  let (exponent, rest) := parseExponent rest
  some (sign ++ whole, fraction, exponent, rest)

/-- The words for the floats that have no numeral. -/
def floatWords : List Str := ["NaN", "Infinity", "-Infinity"]

/-- Whether `json.dumps` may print a float so. -/
def isFloatText (text : Str) : Bool :=
  floatWords.contains text ||
    match lexNumber text with
    | some (_, fraction, exponent, []) => fraction != [] || exponent != []
    | _ => false

/-- The printed form of a float. -/
abbrev FloatText : Type := { text : Str // isFloatText text = true }

/-- `float("nan")`. -/
def FloatText.nan : FloatText := ⟨"NaN", by decide⟩

/-! ## Values -/

inductive Json
  | null
  | bool (b : Bool)
  | int (n : Int)
  | float (printed : FloatText)
  | str (s : Str)
  | arr (items : List Json)
  | obj (members : List (Str × Json))

namespace Json

/-- `bool(value)`. A float is falsy when it prints as a zero. -/
def truthy : Json → Bool
  | .null => false
  | .bool b => b
  | .int n => n != 0
  | .float printed => printed.val != "0.0" && printed.val != "-0.0"
  | .str s => s != []
  | .arr items => !items.isEmpty
  | .obj members => !members.isEmpty

/-- `type(value).__name__`. -/
def typeName : Json → Str
  | .null => "NoneType"
  | .bool _ => "bool"
  | .int _ => "int"
  | .float _ => "float"
  | .str _ => "str"
  | .arr _ => "list"
  | .obj _ => "dict"

/-- `d.get(key, default)` for the members of a dict. -/
def getItemD (members : List (Str × Json)) (key : Str) (default : Json) : Json :=
  (members.lookup key).getD default

/-- `d.get(key)`. -/
def getItem (members : List (Str × Json)) (key : Str) : Json := getItemD members key .null

/-- `d[key] = value` for the members of a dict. -/
def setItem (members : List (Str × Json)) (key : Str) (value : Json) : List (Str × Json) :=
  if members.any (·.1 == key) then
    members.map fun m => if m.1 == key then (key, value) else m
  else members ++ [(key, value)]

/-! ## Serialisation -/

/-- The separators and key order of a serialisation. -/
structure Style where
  itemSeparator : Str
  keySeparator : Str
  sortKeys : Bool

/-- The defaults of `json.dumps`. -/
def Style.default : Style := ⟨", ", ": ", false⟩

/-- `sort_keys=True, separators=(",", ":")`. -/
def Style.canonical : Style := ⟨",", ":", true⟩

/-- One character of a string literal, with `ensure_ascii`. -/
def escapeChar (c : Char) : Str :=
  if c == '"' then "\\\""
  else if c == '\\' then "\\\\"
  else if c == '\n' then "\\n"
  else if c == '\r' then "\\r"
  else if c == '\t' then "\\t"
  else if c.toNat == 12 then "\\f"
  else if c.toNat == 8 then "\\b"
  else if 32 ≤ c.toNat ∧ c.toNat ≤ 126 then [c]
  else if c.toNat < 0x10000 then "\\u" ++ Str.hex 4 c.toNat
  else
    "\\u" ++ Str.hex 4 (0xd800 + (c.toNat - 0x10000) / 0x400) ++
      "\\u" ++ Str.hex 4 (0xdc00 + (c.toNat - 0x10000) % 0x400)

def dumpStr (s : Str) : Str := '"' :: s.flatMap escapeChar ++ ['"']

/-- Members in the order of their keys' code points. -/
def sortMembers (members : List (Str × Str)) : List (Str × Str) :=
  members.mergeSort fun a b => a.1.le b.1

/-- Serialised members, joined in the order of the style. -/
def joinMembers (style : Style) (members : List (Str × Str)) : Str :=
  let ordered := if style.sortKeys then sortMembers members else members
  style.itemSeparator.intercalate
    (ordered.map fun m => dumpStr m.1 ++ style.keySeparator ++ m.2)

mutual

/-- `json.dumps(value)` in a style. -/
def dumps (style : Style) : Json → Str
  | .null => "null"
  | .bool true => "true"
  | .bool false => "false"
  | .int n => Str.ofInt n
  | .float printed => printed.val
  | .str s => dumpStr s
  | .arr items => '[' :: style.itemSeparator.intercalate (dumpItems style items) ++ [']']
  | .obj members => '{' :: joinMembers style (dumpValues style members) ++ ['}']

/-- The serialised items of an array. -/
def dumpItems (style : Style) : List Json → List Str
  | [] => []
  | value :: items => dumps style value :: dumpItems style items

/-- The members of an object with their values serialised. -/
def dumpValues (style : Style) : List (Str × Json) → List (Str × Str)
  | [] => []
  | (key, value) :: members => (key, dumps style value) :: dumpValues style members

end

/-! ## `str` and `repr` -/

/-- `repr` of the float that JSON prints so. -/
def reprFloat (printed : FloatText) : Str :=
  if printed.val = "NaN" then "nan"
  else if printed.val = "Infinity" then "inf"
  else if printed.val = "-Infinity" then "-inf"
  else printed.val

mutual

/-- `repr(value)`. -/
def repr (isPrintable : Char → Bool) : Json → Str
  | .null => "None"
  | .bool true => "True"
  | .bool false => "False"
  | .int n => Str.ofInt n
  | .float printed => reprFloat printed
  | .str s => s.repr isPrintable
  | .arr items => '[' :: List.intercalate (", " : Str) (reprItems isPrintable items) ++ [']']
  | .obj members => '{' :: List.intercalate (", " : Str) (reprMembers isPrintable members) ++ ['}']

def reprItems (isPrintable : Char → Bool) : List Json → List Str
  | [] => []
  | value :: items => repr isPrintable value :: reprItems isPrintable items

def reprMembers (isPrintable : Char → Bool) : List (Str × Json) → List Str
  | [] => []
  | (key, value) :: members =>
    (key.repr isPrintable ++ ": " ++ repr isPrintable value) :: reprMembers isPrintable members

end

/-- `str(value)`. -/
def toStr (isPrintable : Char → Bool) : Json → Str
  | .str s => s
  | value => repr isPrintable value

/-! ## Parsing -/

/-- JSON's insignificant whitespace. -/
def skipSpace : Str → Str
  | c :: text => if c ∈ [' ', '\t', '\n', '\r'] then skipSpace text else c :: text
  | [] => []

/-- Four hexadecimal digits. -/
def hex4 : Str → Option (Nat × Str)
  | a :: b :: c :: d :: text => do
    let a ← Str.hexDigit a
    let b ← Str.hexDigit b
    let c ← Str.hexDigit c
    let d ← Str.hexDigit d
    some (((a * 16 + b) * 16 + c) * 16 + d, text)
  | _ => none

/-- The code point after `\u`; a pair of surrogates is one code point, and a
lone surrogate is no scalar value. -/
def unicodeEscape (text : Str) : Option (Char × Str) := do
  let (high, rest) ← hex4 text
  if high.isValidChar then some (Char.ofNat high, rest)
  else
    match rest with
    | '\\' :: 'u' :: rest => do
      let (low, rest) ← hex4 rest
      if 0xd800 ≤ high ∧ high < 0xdc00 ∧ 0xdc00 ≤ low ∧ low < 0xe000 then
        some (Char.ofNat (0x10000 + (high - 0xd800) * 0x400 + (low - 0xdc00)), rest)
      else none
    | _ => none

/-- The characters up to the closing quote. -/
def parseStr : (fuel : Nat) → Str → Option (Str × Str)
  | 0, _ => none
  | _, [] => none
  | _ + 1, '"' :: text => some ([], text)
  | fuel + 1, '\\' :: 'u' :: text => do
    let (c, text) ← unicodeEscape text
    let (s, text) ← parseStr fuel text
    some (c :: s, text)
  | fuel + 1, '\\' :: c :: text => do
    let c ← match c with
      | '"' => some '"'
      | '\\' => some '\\'
      | '/' => some '/'
      | 'b' => some (Char.ofNat 8)
      | 'f' => some (Char.ofNat 12)
      | 'n' => some '\n'
      | 'r' => some '\r'
      | 't' => some '\t'
      | _ => none
    let (s, text) ← parseStr fuel text
    some (c :: s, text)
  | fuel + 1, c :: text =>
    if c.toNat < 32 then none
    else do
      let (s, text) ← parseStr fuel text
      some (c :: s, text)

/-- A number: an `int` unless it has a fraction or an exponent. `floatRepr` is
the printed form of `float(text)`. -/
def parseNumber (floatRepr : Str → FloatText) (text : Str) : Option (Json × Str) := do
  let (whole, fraction, exponent, rest) ← lexNumber text
  if fraction = [] ∧ exponent = [] then (Str.int Str.decimalDigit whole).map fun n => (.int n, rest)
  else some (.float (floatRepr (whole ++ fraction ++ exponent)), rest)

/-- The literals of the grammar, Python's own `NaN` and infinities included. -/
def literals : List (Str × Json) :=
  [("null", .null), ("true", .bool true), ("false", .bool false), ("NaN", .float .nan),
    ("Infinity", .float ⟨"Infinity", by decide⟩), ("-Infinity", .float ⟨"-Infinity", by decide⟩)]

mutual

/-- One value, after its leading whitespace. -/
def parseValue (floatRepr : Str → FloatText) : (fuel : Nat) → Str → Option (Json × Str)
  | 0, _ => none
  | fuel + 1, text =>
    match literals.find? (·.1.isPrefixOf text) with
    | some (word, value) => some (value, text.drop word.length)
    | none =>
      match text with
      | '"' :: text => (parseStr fuel text).map fun (s, text) => (.str s, text)
      | '[' :: text =>
        match skipSpace text with
        | ']' :: text => some (.arr [], text)
        | text => (parseItems floatRepr fuel text).map fun (items, text) => (.arr items, text)
      | '{' :: text =>
        match skipSpace text with
        | '}' :: text => some (.obj [], text)
        | text =>
          (parseMembers floatRepr fuel [] text).map fun (members, text) => (.obj members, text)
      | text => parseNumber floatRepr text

/-- The items of an array up to its closing bracket. -/
def parseItems (floatRepr : Str → FloatText) : (fuel : Nat) → Str → Option (List Json × Str)
  | 0, _ => none
  | fuel + 1, text => do
    let (value, text) ← parseValue floatRepr fuel (skipSpace text)
    match skipSpace text with
    | ']' :: text => some ([value], text)
    | ',' :: text => do
      let (items, text) ← parseItems floatRepr fuel text
      some (value :: items, text)
    | _ => none

/-- The members of an object up to its closing brace; a repeated key keeps its
first place and takes its last value. -/
def parseMembers (floatRepr : Str → FloatText) : (fuel : Nat) → List (Str × Json) → Str →
    Option (List (Str × Json) × Str)
  | 0, _, _ => none
  | fuel + 1, members, text =>
    match skipSpace text with
    | '"' :: text => do
      let (key, text) ← parseStr fuel text
      match skipSpace text with
      | ':' :: text => do
        let (value, text) ← parseValue floatRepr fuel (skipSpace text)
        let members := setItem members key value
        match skipSpace text with
        | '}' :: text => some (members, text)
        | ',' :: text => parseMembers floatRepr fuel members text
        | _ => none
      | _ => none
    | _ => none

end

/-- `json.loads(text)`, `none` where it raises `JSONDecodeError`. -/
def loads (floatRepr : Str → FloatText) (text : Str) : Option Json :=
  match parseValue floatRepr (2 * text.length + 1) (skipSpace text) with
  | some (value, rest) => if skipSpace rest = [] then some value else none
  | none => none

end Json

end Python
