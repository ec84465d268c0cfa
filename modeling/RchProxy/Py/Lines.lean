import RchProxy.Lib.Pieces
import RchProxy.Py.Text

/-!
# Lines, white space and numbers of Python text

The `str` methods that look at every code point: white space and line boundaries are written out,
and what a Unicode table settles is a parameter (`Unicode`).
-/

namespace Py

open Lib

/-- `c.isspace()`, on every code point. -/
def isWhitespace (c : Char) : Bool :=
  let n := c.toNat
  (9 ≤ n && n ≤ 13) || (28 ≤ n && n ≤ 32) || n == 0x85 || n == 0xA0 || n == 0x1680 ||
    (0x2000 ≤ n && n ≤ 0x200A) || n == 0x2028 || n == 0x2029 || n == 0x202F || n == 0x205F ||
    n == 0x3000

/-- A line boundary of `str.splitlines`. -/
def isLineBreak (c : Char) : Bool :=
  let n := c.toNat
  (10 ≤ n && n ≤ 13) || (28 ≤ n && n ≤ 30) || n == 0x85 || n == 0x2028 || n == 0x2029

/-- What text mode makes of line ends on reading (`newline=None`). -/
def universalNewlines : Text → Text
  | [] => []
  | ['\r'] => ['\n']
  | '\r' :: '\n' :: t => '\n' :: universalNewlines t
  | '\r' :: c :: t => '\n' :: universalNewlines (c :: t)
  | c :: t => c :: universalNewlines t

/-- `s.splitlines()`, of a text that text mode has read. -/
def splitlines (s : Text) : List Text :=
  let lines := s.splitOnP isLineBreak
  if lines.getLast? = some [] then lines.dropLast else lines

/-- What the Unicode database says about code points. -/
structure Unicode where
  isalnum : Char → Bool
  upper : Char → Text
  lower : Char → Text
  decimal : Char → Option Nat

/-- The database, of ASCII text. -/
def Unicode.ascii : Unicode where
  isalnum c := c.isAlphanum
  upper c := [c.toUpper]
  lower c := [c.toLower]
  decimal c := if c.isDigit then some (c.toNat - 48) else none

namespace Unicode

variable (u : Unicode)

/-- `s.isalnum()`. -/
def textIsalnum (s : Text) : Bool := s ≠ [] && s.all u.isalnum

/-- `s.upper()`. -/
def textUpper (s : Text) : Text := s.flatMap u.upper

/-- `s.lower()`. -/
def textLower (s : Text) : Text := s.flatMap u.lower

/-- The decimal digits of `int(s)`, in groups that underscores separate. -/
def digits (s : Text) : Option (List Nat) :=
  (s.splitOn '_').foldr (fun group rest => do
    if group = [] then none else return (← group.mapM u.decimal) ++ (← rest)) (some [])

/-- `int(s, 10)`, where it raises nothing. -/
def int (s : Text) : Option Int := do
  let (sign, t) := match stripBy isWhitespace s with
    | '-' :: t => ((-1 : Int), t)
    | '+' :: t => (1, t)
    | t => (1, t)
  let digits ← u.digits t
  if 4300 < digits.length then none else return sign * (digits.foldl (fun n d => 10 * n + d) 0 : Nat)

end Unicode

/-! ## Line ends -/

theorem isWhitespace_of_isLineBreak {c : Char} (h : isLineBreak c) : isWhitespace c := by
  simp only [isLineBreak, isWhitespace, Bool.or_eq_true, Bool.and_eq_true, decide_eq_true_eq,
    beq_iff_eq] at h ⊢
  omega

/-- Printable ASCII is no white space. -/
theorem isWhitespace_of_printable {c : Char} (h : 33 ≤ c.toNat) (h' : c.toNat ≤ 126) :
    isWhitespace c = false := by
  simp only [isWhitespace, Bool.or_eq_false_iff, Bool.and_eq_false_iff, decide_eq_false_iff_not,
    beq_eq_false_iff_ne]
  omega

/-- The ends of lines that text mode changes are line boundaries before and after. -/
theorem pieces_universalNewlines (x t : Text) :
    pieces isLineBreak (x ++ universalNewlines t) = pieces isLineBreak (x ++ t) := by
  have hn : isLineBreak '\n' := by decide
  have hr : isLineBreak '\r' := by decide
  fun_induction universalNewlines t generalizing x with
  | case1 => rfl
  | case2 => rw [pieces_append_cons hn, pieces_append_cons hr]
  | case3 t ih =>
    have hempty : pieces isLineBreak ('\n' :: t) = pieces isLineBreak t :=
      pieces_append_cons hn [] t
    rw [pieces_append_cons hn, pieces_append_cons hr, hempty]
    exact congrArg _ (ih [])
  | case4 c t hc ih =>
    rw [pieces_append_cons hn, pieces_append_cons hr]
    exact congrArg _ (ih [])
  | case5 c t hend hpair hbreak ih =>
    rw [List.append_cons x c t, List.append_cons x c]
    exact ih (x ++ [c])

/-- The lines that are not empty. -/
theorem filter_splitlines (s : Text) :
    (splitlines s).filter (!·.isEmpty) = pieces isLineBreak s := by
  simp only [splitlines, pieces]
  split
  next h =>
    rw [← List.dropLast_append_getLast? [] h]
    simp
  next => rfl

end Py
