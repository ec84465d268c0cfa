import RchProxy.Receipt.Model

/-!
# The commands of a payload

The patterns of `rch/receipt_parser.py`, in the notation of `Lib.Regex` and part by part in the order
of the source, with the texts and the numbers the parser takes from a match. A payload matches at
most one of the printable command patterns, since they differ in their first four characters.
-/

namespace RchProxy

open Py Lib

namespace Pattern

open Py.Pattern Regex

/-- `\d+`. -/
def digits : Pattern := plus digit

/-- `[+-]?\d+`. -/
def signedDigits : Pattern := seq sign digits

/-- `[+-]?\d{1,3}(?:\.\d{3})*,\d{2}`. -/
def printedAmount : Pattern :=
  seq sign <| seq (rep 1 3 digit) <| seq (star true (lit "." (rep 3 3 digit))) <|
    lit "," (rep 2 2 digit)

/-- `(?:/\*(?P<style>\d+))?$`. -/
def styleTail : Pattern := seq (opt (lit "/*" (group .style digits))) stop

/-- `_MANAGEMENT_LINE_RE`. -/
def managementLine : Pattern :=
  seq start <| lit "=\"/(" <| seq (group .text (star true dot)) <| lit ")" styleTail

/-- `_COMMERCIAL_TEXT_RE`. -/
def commercialText : Pattern :=
  seq start <| lit "=\"/?A/(" <| seq (group .text (star true dot)) <| lit ")" styleTail

/-- `_COMMERCIAL_ITEM_RE`. -/
def commercialItem : Pattern :=
  seq start <| lit "=R" <| seq (group .code (plus (one (· != '/')))) <| lit "/$" <|
    seq (group .amount signedDigits) <| seq (opt (lit "/*" (group .quantity signedDigits))) <|
    lit "/(" <| seq (group .description (star true dot)) <| lit ")" stop

/-- `_COMMERCIAL_TOTAL_RE`. -/
def commercialTotal : Pattern :=
  seq start <| lit "=T" <| seq (group .code (plus (one (· != '/')))) <| lit "/$" <|
    seq (group .amount signedDigits) stop

/-- `_DISPLAY_RE`. -/
def display : Pattern :=
  seq start <| lit "=D" <| seq (group .line digits) <| lit "/(" <|
    seq (group .text (star true dot)) <| lit ")" stop

/-- `_RESPONSE_COUNTER_RE`. -/
def responseCounter : Pattern :=
  seq start <| lit "s" <| seq (rep 6 6 digit) <| lit "RE" <|
    seq (group .counter (rep 4 4 digit)) stop

/-- `_ORDER_RE`, with `re.IGNORECASE`. -/
def order : Pattern :=
  seq start <| seq (star true space) <|
    seq (alt (litIgnoreCase "Ordine" empty) (litIgnoreCase "Order" empty)) <|
    seq (star true space) <| lit ":" <| seq (star true space) <|
    seq (group .value (star false dot)) <| seq (star true space) stop

/-- `_PRINTED_AMOUNT_RE`. -/
def printedAmountAnywhere : Pattern :=
  seq notAfterDigit <| seq (group .amount printedAmount) notBeforeDigit

/-- `_PRINTED_ITEM_RE`. -/
def printedItem : Pattern :=
  seq start <| seq (group .description (seq (star false dot) nonSpace)) <| seq (plus space) <|
    seq (group .amount printedAmount) <|
    seq (opt (seq (plus space) (group .taxClass (one fun c => 'A' ≤ c && c ≤ 'Z')))) <|
    seq (star true space) stop

/-- `_REFERENCE_RE`, with `re.IGNORECASE`. -/
def reference : Pattern :=
  seq (group .date <| seq (rep 2 2 digit) <| seq (oneOf "\\/-") <| seq (rep 2 2 digit) <|
      seq (oneOf "\\/-") (rep 2 4 digit)) <|
    seq (plus space) <| seq (group .time <| seq (rep 2 2 digit) <| lit ":" (rep 2 2 digit)) <|
    seq (star false dot) <| seq boundary <| litIgnoreCase "N" <| lit "." <|
    seq (star true space) (group .number (plus (oneOf "0123456789-")))

/-- `[+-]?\d+,\d{2}`, the whole of an amount without its dots. -/
def plainAmount : Pattern := seq sign <| seq digits <| lit "," (rep 2 2 digit)

/-- `<</\?\d`. -/
def closingControl : Pattern := lit "<</?" digit

end Pattern

/-! ## Texts and numbers of a match -/

/-- `match.group(g)`, for a group that takes part in every match. -/
def groupText (m : Match) (g : Group) : Text := (m.group g).getD []

/-- `parse_printed_amount`. -/
def parsePrintedAmount (value : Text) : Option Int :=
  let candidate := (strip value).filter (· != '.')
  if (Pattern.plainAmount.fullMatch candidate).isNone then none
  else
    let negative := startsWith candidate ['-']
    let unsigned := candidate.dropWhile fun c => c == '+' || c == '-'
    let whole := unsigned.takeWhile (· != ',')
    let fraction := (unsigned.dropWhile (· != ',')).drop 1
    let cents := intOfText whole * 100 + intOfText fraction
    some (if negative then -cents else cents)

/-- `_format_cents`. -/
def formatCents (cents : Int) : Text :=
  (if cents < 0 then ['-'] else []) ++ decimal (cents.natAbs / 100) ++ [','] ++
    zeroPad 2 (cents.natAbs % 100)

/-- An item command: what `_COMMERCIAL_ITEM_RE` takes from a payload. -/
structure ItemCommand where
  description : Text
  amountText : Text
  quantity : Option Int
  code : Text
  deriving DecidableEq, Repr

/-- `int(match.group("amount"))` of an item. -/
def ItemCommand.amountCents (c : ItemCommand) : Int := intOfText c.amountText

/-- `_COMMERCIAL_ITEM_RE.match`, with its groups. -/
def matchItem (dataText : Text) : Option ItemCommand :=
  (Pattern.commercialItem.matchStart dataText).map fun m =>
    { description := groupText m .description
      amountText := groupText m .amount
      quantity := (m.group .quantity).map intOfText
      code := groupText m .code }

/-- A total command: what `_COMMERCIAL_TOTAL_RE` takes from a payload. -/
structure TotalCommand where
  amountText : Text
  code : Text
  deriving DecidableEq, Repr

/-- `int(match.group("amount"))` of a total. -/
def TotalCommand.amountCents (c : TotalCommand) : Int := intOfText c.amountText

/-- `_COMMERCIAL_TOTAL_RE.match`, with its groups. -/
def matchTotal (dataText : Text) : Option TotalCommand :=
  (Pattern.commercialTotal.matchStart dataText).map fun m =>
    { amountText := groupText m .amount, code := groupText m .code }

/-- A printable text with its style: what the two text patterns take from a payload. -/
structure TextCommand where
  text : Text
  style : Option Text
  deriving DecidableEq, Repr

/-- The groups of a match of a text pattern. -/
def TextCommand.ofMatch (m : Match) : TextCommand where
  text := groupText m .text
  style := m.group .style

/-- `_MANAGEMENT_LINE_RE.match`, with its groups. -/
def matchManagementLine (dataText : Text) : Option TextCommand :=
  (Pattern.managementLine.matchStart dataText).map .ofMatch

/-- `_COMMERCIAL_TEXT_RE.match`, with its groups. -/
def matchCommercialText (dataText : Text) : Option TextCommand :=
  (Pattern.commercialText.matchStart dataText).map .ofMatch

/-- `_DISPLAY_RE.match`, with its groups: the display line and its text. -/
def matchDisplay (dataText : Text) : Option (Int × Text) :=
  (Pattern.display.matchStart dataText).map fun m => (intOfText (groupText m .line), groupText m .text)

/-- `_RESPONSE_COUNTER_RE.match`, with its group. -/
def matchResponseCounter (dataText : Text) : Option Text :=
  (Pattern.responseCounter.matchStart dataText).map (groupText · .counter)

/-! ## The patterns exclude each other -/

/-- A pattern that starts with a literal only matches texts that do. -/
theorem front_of_match {α : Type} {f : Match → α} {s : String} {r : Pattern} {t : Text}
    (h : ((Regex.seq Py.Pattern.start (Py.Pattern.lit s r)).matchStart t).map f ≠ none) :
    ∃ u, t = s.toList ++ u := by
  obtain ⟨m, hm⟩ := Option.ne_none_iff_exists'.mp fun h0 => h (congrArg (Option.map f) h0)
  obtain ⟨u, hu, -⟩ := Regex.run_lit (Regex.run_look (List.mem_of_head? hm))
  exact ⟨u, hu⟩

section
variable {t : Text}

theorem matchManagementLine_front (h : matchManagementLine t ≠ none) :
    ∃ u, t = "=\"/(".toList ++ u := front_of_match h

theorem matchCommercialText_front (h : matchCommercialText t ≠ none) :
    ∃ u, t = "=\"/?A/(".toList ++ u := front_of_match h

theorem matchItem_front (h : matchItem t ≠ none) : ∃ u, t = "=R".toList ++ u := front_of_match h

theorem matchTotal_front (h : matchTotal t ≠ none) : ∃ u, t = "=T".toList ++ u := front_of_match h

theorem matchDisplay_front (h : matchDisplay t ≠ none) : ∃ u, t = "=D".toList ++ u :=
  front_of_match h

end

end RchProxy
