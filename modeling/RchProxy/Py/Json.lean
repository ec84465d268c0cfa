import Mathlib.Data.List.Sort
import RchProxy.Py.Text

/-!
# The `json` module

`json.dumps` with `ensure_ascii=False` and `sort_keys=True`, in the two layouts in use
(`separators=(",", ":")` and `indent=2`), and `json.loads`. A float is kept as the literal it is
written with. Lone surrogate escapes are rejected, since no `Text` holds one.
-/

namespace Py

/-- A value `json` writes and reads. An object keeps its pairs in order; the last pair with a key is
the one that counts. -/
inductive Json where
  | null
  | bool (b : Bool)
  | int (n : Int)
  | float (literal : Text)
  | str (s : Text)
  | arr (items : List Json)
  | obj (fields : List (Text × Json))
  deriving Repr

namespace Json

/-- A text or `None`. -/
def ofText? : Option Text → Json
  | none => null
  | some s => str s

/-- An integer or `None`. -/
def ofInt? : Option Int → Json
  | none => null
  | some n => int n

/-- A boolean or `None`. -/
def ofBool? : Option Bool → Json
  | none => null
  | some b => bool b

/-- `value.get(key)`, where `value` is a dictionary. -/
def get (key : Text) (fields : List (Text × Json)) : Option Json :=
  (fields.reverse.find? fun field => field.1 == key).map (·.2)

/-- The text of a value, if it is one (`isinstance(value, str)`). -/
def text? : Option Json → Option Text
  | some (str s) => some s
  | _ => none

/-- The number of a value, if it is one (`isinstance(value, int) and not isinstance(value, bool)`). -/
def int? : Option Json → Option Int
  | some (int n) => some n
  | _ => none

/-- The fields of a value, if it is a dictionary (`isinstance(value, dict)`). -/
def fields? : Option Json → Option (List (Text × Json))
  | some (obj fields) => some fields
  | _ => none

theorem fields?_eq_some {v : Json} {fields : List (Text × Json)} :
    fields? (some v) = some fields ↔ v = obj fields := by
  cases v <;> simp [fields?]

/-- The items of a value, if it is a list (`isinstance(value, list)`). -/
def items? : Option Json → Option (List Json)
  | some (arr items) => some items
  | _ => none

/-! ## Writing -/

/-- The layout of `json.dumps`: `separators=(",", ":")`, or `indent=k`. -/
inductive Style where
  | compact
  | indented (k : Nat)
  deriving DecidableEq, Repr

/-- What separates the items at a depth, beside the comma. -/
def Style.newline (depth : Nat) : Style → Text
  | .compact => []
  | .indented k => '\n' :: List.replicate (k * depth) ' '

/-- What separates a key from its value. -/
def Style.keySeparator : Style → Text
  | .compact => [':']
  | .indented _ => [':', ' ']

/-- `sys.get_int_max_str_digits()`. -/
def maxStrDigits : Nat := 4300

/-- `int.__repr__`. -/
def intRepr (n : Int) : Except Error Text :=
  if (decimal n.natAbs).length ≤ maxStrDigits then
    .ok (if n < 0 then '-' :: decimal n.natAbs else decimal n.natAbs)
  else .error (.valueError "Exceeds the limit (4300 digits) for integer string conversion; use sys.set_int_max_str_digits() to increase the limit")

/-- A lowercase hexadecimal digit. -/
def lowerHex (n : Nat) : Char := if n < 10 then Char.ofNat (48 + n) else Char.ofNat (87 + n)

/-- One code point between the quotes of a written string. -/
def escapeChar (c : Char) : Text :=
  if c = '"' then ['\\', '"']
  else if c = '\\' then ['\\', '\\']
  else if c = '\n' then ['\\', 'n']
  else if c = '\r' then ['\\', 'r']
  else if c = '\t' then ['\\', 't']
  else if c = Char.ofNat 12 then ['\\', 'f']
  else if c = Char.ofNat 8 then ['\\', 'b']
  else if c.toNat < 32 then ['\\', 'u', '0', '0', lowerHex (c.toNat / 16), lowerHex (c.toNat % 16)]
  else [c]

/-- A written string. -/
def quote (s : Text) : Text := '"' :: (s.flatMap escapeChar ++ ['"'])

mutual

/-- A value, written at a depth. -/
def print (style : Style) (depth : Nat) : Json → Except Error Text
  | .null => .ok "null".toList
  | .bool true => .ok "true".toList
  | .bool false => .ok "false".toList
  | .int n => intRepr n
  | .float literal => .ok literal
  | .str s => .ok (quote s)
  | .arr [] => .ok "[]".toList
  | .arr (x :: xs) => do
    let t ← print style (depth + 1) x
    let ts ← printItems style (depth + 1) xs
    return '[' :: (style.newline (depth + 1) ++ t ++ ts ++ style.newline depth ++ [']'])
  | .obj [] => .ok "\x7b\x7d".toList
  | .obj ((key, x) :: fields) => do
    let t ← print style (depth + 1) x
    let ts ← printFields style (depth + 1) fields
    return '{' :: (style.newline (depth + 1) ++ quote key ++ style.keySeparator ++ t ++ ts ++
      style.newline depth ++ ['}'])

/-- The items after the first. -/
def printItems (style : Style) (depth : Nat) : List Json → Except Error Text
  | [] => .ok []
  | x :: xs => do
    let t ← print style depth x
    let ts ← printItems style depth xs
    return ',' :: (style.newline depth ++ t ++ ts)

/-- The pairs after the first. -/
def printFields (style : Style) (depth : Nat) : List (Text × Json) → Except Error Text
  | [] => .ok []
  | (key, x) :: fields => do
    let t ← print style depth x
    let ts ← printFields style depth fields
    return ',' :: (style.newline depth ++ quote key ++ style.keySeparator ++ t ++ ts)

end

/-- The order of `str`, by code points. -/
def textLe : Text → Text → Bool
  | [], _ => true
  | _ :: _, [] => false
  | a :: s, b :: t => a.toNat < b.toNat || (a == b && textLe s t)

/-- `sort_keys=True`, for the pairs of one object. -/
def sortPairs (fields : List (Text × Json)) : List (Text × Json) :=
  fields.insertionSort fun a b => textLe a.1 b.1

mutual

/-- `sort_keys=True`, at every depth. -/
def sortKeys : Json → Json
  | .arr items => .arr (sortItems items)
  | .obj fields => .obj (sortPairs (sortFields fields))
  | v => v

/-- The items, each with its keys sorted. -/
def sortItems : List Json → List Json
  | [] => []
  | x :: xs => sortKeys x :: sortItems xs

/-- The pairs, each value with its keys sorted. -/
def sortFields : List (Text × Json) → List (Text × Json)
  | [] => []
  | (key, x) :: fields => (key, sortKeys x) :: sortFields fields

end

/-- `json.dumps(value, ensure_ascii=False, sort_keys=True, ...)`. -/
def dumps (style : Style) (v : Json) : Except Error Text := print style 0 v.sortKeys

/-! ## Reading -/

/-- A whitespace character of JSON. -/
def isSpace (c : Char) : Bool := c == ' ' || c == '\t' || c == '\n' || c == '\r'

/-- The text without the whitespace in front of it. -/
def skipSpace (s : Text) : Text := s.dropWhile isSpace

/-- The value of a hexadecimal digit. -/
def hexValue (c : Char) : Option Nat :=
  if '0' ≤ c ∧ c ≤ '9' then some (c.toNat - 48)
  else if 'a' ≤ c ∧ c ≤ 'f' then some (c.toNat - 87)
  else if 'A' ≤ c ∧ c ≤ 'F' then some (c.toNat - 55)
  else none

/-- The code unit of four hexadecimal digits. -/
def hex4 (a b c d : Char) : Option Nat := do
  return (((← hexValue a) * 16 + (← hexValue b)) * 16 + (← hexValue c)) * 16 + (← hexValue d)

/-- The character a backslash and one letter stand for. -/
def unescape : Char → Option Char
  | '"' => some '"'
  | '\\' => some '\\'
  | '/' => some '/'
  | 'b' => some (Char.ofNat 8)
  | 'f' => some (Char.ofNat 12)
  | 'n' => some '\n'
  | 'r' => some '\r'
  | 't' => some '\t'
  | _ => none

/-- A string after its opening quote, and what follows its closing one. -/
def scanString : Text → Option (Text × Text)
  | [] => none
  | '"' :: rest => some ([], rest)
  | '\\' :: 'u' :: a :: b :: c :: d :: rest => do
    let unit ← hex4 a b c d
    if 0xD800 ≤ unit && unit < 0xDC00 then
      -- a high surrogate takes the low one that follows
      match rest with
      | '\\' :: 'u' :: a' :: b' :: c' :: d' :: rest' =>
        let low ← hex4 a' b' c' d'
        if 0xDC00 ≤ low && low < 0xE000 then
          let (s, rest) ← scanString rest'
          return (Char.ofNat (0x10000 + (unit - 0xD800) * 0x400 + (low - 0xDC00)) :: s, rest)
        else none
      | _ => none
    else if 0xDC00 ≤ unit && unit < 0xE000 then none
    else
      let (s, rest) ← scanString rest
      return (Char.ofNat unit :: s, rest)
  | '\\' :: c :: rest => do
    let c ← unescape c
    let (s, rest) ← scanString rest
    return (c :: s, rest)
  | c :: rest =>
    if c.toNat < 32 || c == '\\' then none
    else do
      let (s, rest) ← scanString rest
      return (c :: s, rest)

/-- The digits of a number before its fraction, and what follows. -/
def scanWhole : Text → Option (Text × Text)
  | '0' :: rest => some (['0'], rest)
  | c :: rest => if c.isDigit then some ((c :: rest).span Char.isDigit) else none
  | [] => none

/-- A fraction, if a digit follows the point. -/
def scanFraction : Text → Text × Text
  | '.' :: rest =>
    if (rest.takeWhile Char.isDigit).isEmpty then ([], '.' :: rest)
    else ('.' :: rest.takeWhile Char.isDigit, rest.dropWhile Char.isDigit)
  | rest => ([], rest)

/-- An exponent, if a digit follows. -/
def scanExponent : Text → Text × Text
  | e :: rest =>
    if e == 'e' || e == 'E' then
      let sign := rest.takeWhile fun c => c == '+' || c == '-'
      let digits := (rest.drop sign.length).takeWhile Char.isDigit
      if sign.length ≤ 1 && !digits.isEmpty then
        (e :: (sign ++ digits), rest.drop (sign.length + digits.length))
      else ([], e :: rest)
    else ([], e :: rest)
  | [] => ([], [])

/-- `int(s)` on decimal digits with an optional minus sign. -/
def intOf (negative : Bool) (digits : Text) : Except Error Int :=
  if digits.length ≤ maxStrDigits then
    .ok (if negative then -(Nat.ofDigitChars 10 digits 0 : Int) else Nat.ofDigitChars 10 digits 0)
  else .error (.valueError "Exceeds the limit (4300 digits) for integer string conversion; use sys.set_int_max_str_digits() to increase the limit")

/-- A number that starts here. -/
def scanNumber (s : Text) : Option (Except Error (Json × Text)) := do
  let negative := s.head? == some '-'
  let (whole, rest) ← scanWhole (if negative then s.tail else s)
  let (fraction, rest) := scanFraction rest
  let (exponent, rest) := scanExponent rest
  if fraction.isEmpty && exponent.isEmpty then
    return (intOf negative whole).map fun n => (.int n, rest)
  else
    return .ok (.float ((if negative then ['-'] else []) ++ whole ++ fraction ++ exponent), rest)

/-- What is left after a word. -/
def afterWord (word : String) (s : Text) : Option Text :=
  if word.toList.isPrefixOf s then some (s.drop word.toList.length) else none

/-- A constant or a number. -/
def scanAtom (s : Text) : Except Error (Json × Text) :=
  match afterWord "null" s with
  | some rest => .ok (.null, rest)
  | none =>
    match afterWord "true" s with
    | some rest => .ok (.bool true, rest)
    | none =>
      match afterWord "false" s with
      | some rest => .ok (.bool false, rest)
      | none =>
        match scanNumber s with
        | some result => result
        | none =>
          match ["NaN", "Infinity", "-Infinity"].findSome? fun word =>
              (afterWord word s).map (word, ·) with
          | some (word, rest) => .ok (.float word.toList, rest)
          | none => .error .jsonDecodeError

mutual

/-- The value that starts here, and what follows it. -/
def parseValue : Nat → Text → Except Error (Json × Text)
  | 0, _ => .error .jsonDecodeError
  | fuel + 1, s =>
    match s with
    | '"' :: rest =>
      match scanString rest with
      | some (s, rest) => .ok (.str s, rest)
      | none => .error .jsonDecodeError
    | '{' :: rest =>
      match skipSpace rest with
      | '}' :: rest => .ok (.obj [], rest)
      | rest => do
        let (fields, rest) ← parseFields fuel rest
        return (.obj fields, rest)
    | '[' :: rest =>
      match skipSpace rest with
      | ']' :: rest => .ok (.arr [], rest)
      | rest => do
        let (items, rest) ← parseItems fuel rest
        return (.arr items, rest)
    | s => scanAtom s

/-- The items from here to the closing bracket. -/
def parseItems : Nat → Text → Except Error (List Json × Text)
  | 0, _ => .error .jsonDecodeError
  | fuel + 1, s => do
    let (x, rest) ← parseValue fuel s
    match skipSpace rest with
    | ',' :: rest =>
      let (xs, rest) ← parseItems fuel (skipSpace rest)
      return (x :: xs, rest)
    | ']' :: rest => return ([x], rest)
    | _ => .error .jsonDecodeError

/-- The pairs from here to the closing brace. -/
def parseFields : Nat → Text → Except Error (List (Text × Json) × Text)
  | 0, _ => .error .jsonDecodeError
  | fuel + 1, s =>
    match s with
    | '"' :: rest =>
      match scanString rest with
      | none => .error .jsonDecodeError
      | some (key, rest) =>
        match skipSpace rest with
        | ':' :: rest => do
          let (x, rest) ← parseValue fuel (skipSpace rest)
          match skipSpace rest with
          | ',' :: rest =>
            let (fields, rest) ← parseFields fuel (skipSpace rest)
            return ((key, x) :: fields, rest)
          | '}' :: rest => return ([(key, x)], rest)
          | _ => .error .jsonDecodeError
        | _ => .error .jsonDecodeError
    | _ => .error .jsonDecodeError

end

/-- `json.loads(s)`. Every call of the scanner reads a character, so the length is fuel enough. -/
def loads (s : Text) : Except Error Json :=
  if s.head? == some (Char.ofNat 0xFEFF) then .error .jsonDecodeError
  else do
    let (v, rest) ← parseValue (s.length + 1) (skipSpace s)
    if skipSpace rest == [] then return v else .error .jsonDecodeError

end Json

end Py
