import RchProxy.Py.Text
import RchProxy.Lib.Regex

/-!
# Python `str` methods and `re` patterns on one-byte text

The parser reads payloads through the latin-1 view, so every text it handles has code points below
256. On these the character classes of `str` and of `re` are written out: the whitespace of
`isspace`, the word characters of `\w` (letters, the superscripts and fractions `isalnum` accepts,
the underscore), the decimal digits (ASCII only: no other code point below 256 is one), and the case
mappings, of which `ß`, `µ` and `ÿ` leave the range.
-/

namespace Py

open Lib

/-- `c.isspace()`, also `\s`. -/
def isSpace (c : Char) : Bool :=
  let n := c.toNat
  (9 ≤ n && n ≤ 13) || (28 ≤ n && n ≤ 32) || n == 0x85 || n == 0xA0

/-- `c.isdecimal()`, also `\d`. -/
def isDecimal (c : Char) : Bool := 48 ≤ c.toNat && c.toNat ≤ 57

/-- A character of `\w`: `c.isalnum()` or the underscore. -/
def isWord (c : Char) : Bool :=
  let n := c.toNat
  isDecimal c || (65 ≤ n && n ≤ 90) || n == 95 || (97 ≤ n && n ≤ 122) || n == 0xAA || n == 0xB2 ||
    n == 0xB3 || n == 0xB5 || n == 0xB9 || n == 0xBA || (0xBC ≤ n && n ≤ 0xBE) ||
    (0xC0 ≤ n && n ≤ 0xD6) || (0xD8 ≤ n && n ≤ 0xF6) || 0xF8 ≤ n

/-- `c.upper()`. -/
def upperChar (c : Char) : Text :=
  let n := c.toNat
  if 97 ≤ n && n ≤ 122 then [Char.ofNat (n - 32)]
  else if n == 0xB5 then [Char.ofNat 0x39C]
  else if n == 0xDF then ['S', 'S']
  else if n == 0xFF then [Char.ofNat 0x178]
  else if 0xE0 ≤ n && n ≤ 0xFE && n != 0xF7 then [Char.ofNat (n - 32)]
  else [c]

/-- `s.upper()`. -/
def upper (s : Text) : Text := s.flatMap upperChar

/-- `c.casefold()`. -/
def casefoldChar (c : Char) : Text :=
  let n := c.toNat
  if 65 ≤ n && n ≤ 90 then [Char.ofNat (n + 32)]
  else if n == 0xB5 then [Char.ofNat 0x3BC]
  else if n == 0xDF then ['s', 's']
  else if 0xC0 ≤ n && n ≤ 0xDE && n != 0xD7 then [Char.ofNat (n + 32)]
  else [c]

/-- `s.casefold()`. -/
def casefold (s : Text) : Text := s.flatMap casefoldChar

/-- `s.strip()`. -/
def strip (s : Text) : Text := ((s.dropWhile isSpace).reverse.dropWhile isSpace).reverse

/-- `s.startswith(t)`. -/
def startsWith (s t : Text) : Bool := t.isPrefixOf s

/-- `t in s`. -/
def contains (s t : Text) : Bool := s.tails.any (startsWith · t)

/-- `s.split(maxsplit=1)[0]` on a text that is not blank: its first word. -/
def firstWord (s : Text) : Text := (s.dropWhile isSpace).takeWhile fun c => !isSpace c

/-- `int(s)` on digits with an optional sign. -/
def intOfText (s : Text) : Int :=
  let digits (t : Text) : Nat := t.foldl (fun n c => 10 * n + (c.toNat - 48)) 0
  match s with
  | '-' :: t => -(digits t : Int)
  | '+' :: t => digits t
  | t => digits t

/-! ## Pieces of patterns -/

/-- The groups the patterns name. -/
inductive Group where
  | text
  | style
  | code
  | amount
  | quantity
  | description
  | line
  | counter
  | value
  | taxClass
  | date
  | time
  | number
  deriving DecidableEq, Repr

/-- A pattern on Python text. -/
abbrev Pattern := Regex Char Group

/-- A match, at the position where it ends. -/
abbrev Match := Cursor Char Group

namespace Pattern

/-- `^`. -/
def start : Pattern := .look fun before _ => before.isEmpty

/-- `$`: the end, or before a final line feed. -/
def stop : Pattern := .look fun _ after => after == [] || after == ['\n']

/-- `.`. -/
def dot : Pattern := .one (· != '\n')

/-- `\d`. -/
def digit : Pattern := .one isDecimal

/-- `\s`. -/
def space : Pattern := .one isSpace

/-- `\S`. -/
def nonSpace : Pattern := .one fun c => !isSpace c

/-- `[+-]?`. -/
def sign : Pattern := .opt (.one fun c => c == '+' || c == '-')

/-- `[...]` of the given characters. -/
def oneOf (s : String) : Pattern := .one (s.toList.contains ·)

/-- `(?<!\d)`. -/
def notAfterDigit : Pattern := .look fun before _ => !(before.head?.any isDecimal)

/-- `(?!\d)`. -/
def notBeforeDigit : Pattern := .look fun _ after => !(after.head?.any isDecimal)

/-- `\b`. -/
def boundary : Pattern :=
  .look fun before after => before.head?.any isWord != after.head?.any isWord

/-- A literal, then `r`. -/
def lit (s : String) (r : Pattern) : Pattern := Regex.lit s.toList r

/-- A literal of any case under `re.IGNORECASE`, then `r`. Only ASCII letters of other cases occur
below code point 256. -/
def litIgnoreCase (s : String) (r : Pattern) : Pattern :=
  s.toList.foldr (fun x r => .seq (.one fun c => c.toLower == x.toLower) r) r

end Pattern

end Py
