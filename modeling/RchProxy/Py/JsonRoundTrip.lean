import Mathlib.Data.List.TakeDrop
import Mathlib.Data.List.TakeWhile
import RchProxy.Py.Json

/-!
# What `json.dumps` writes, `json.loads` reads

`parseValue_print` follows the writer: on the text of a value, whatever follows it, the scanner reads
that value and stops behind it. Numbers are the one case where what follows matters (`Stops`).
-/

namespace Py.Json

/-! ## Strings -/

theorem scanString_char {c : Char} (h : ¬ c.toNat < 32) (hq : c ≠ '"') (hb : c ≠ '\\')
    (rest : Text) :
    scanString (c :: rest) = (scanString rest).map fun p => (c :: p.1, p.2) := by
  rw [scanString.eq_def]
  split
  case h_1 heq => cases heq
  case h_2 heq => cases heq; exact absurd rfl hq
  case h_3 heq => cases heq; exact absurd rfl hb
  case h_4 heq => cases heq; exact absurd rfl hb
  case h_5 heq =>
    cases heq
    simp only [h, beq_eq_false_iff_ne.mpr hb, decide_false, Bool.or_self, Bool.false_eq_true,
      if_false]
    cases scanString rest <;> rfl

theorem hexValue_lowerHex : ∀ n < 16, hexValue (lowerHex n) = some n := by decide

theorem scanString_control {c : Char} (h : c.toNat < 32) (rest : Text) :
    scanString ('\\' :: 'u' :: '0' :: '0' :: lowerHex (c.toNat / 16) :: lowerHex (c.toNat % 16) ::
      rest) = (scanString rest).map fun p => (c :: p.1, p.2) := by
  have h0 : hexValue '0' = some 0 := by decide
  have h1 := hexValue_lowerHex (c.toNat / 16) (by omega)
  have h2 := hexValue_lowerHex (c.toNat % 16) (by omega)
  have h4 : hex4 '0' '0' (lowerHex (c.toNat / 16)) (lowerHex (c.toNat % 16)) = some c.toNat := by
    simp only [hex4, h0, h1, h2, Option.bind_eq_bind, Option.bind_some, Option.pure_def,
      Option.some.injEq]
    omega
  rw [scanString.eq_def]
  simp only [h4, Option.bind_eq_bind, Option.bind_some, show ¬ 0xD800 ≤ c.toNat by omega,
    show ¬ 0xDC00 ≤ c.toNat by omega, decide_false, Bool.false_and, Bool.false_eq_true, if_false,
    Char.ofNat_toNat]
  cases scanString rest <;> rfl

theorem scanString_escape {c d : Char} (h : unescape d = some c) (rest : Text) :
    scanString ('\\' :: d :: rest) = (scanString rest).map fun p => (c :: p.1, p.2) := by
  rw [scanString.eq_def]
  split
  case h_1 heq => cases heq
  case h_2 heq => cases heq
  case h_3 heq => cases heq; exact absurd h nofun
  case h_4 heq =>
    cases heq
    simp only [h, Option.bind_eq_bind, Option.bind_some]
    cases scanString rest <;> rfl
  case h_5 hne heq => cases heq; exact absurd rfl (hne d rest rfl)

/-- An escaped character is read as one. -/
theorem scanString_escapeChar (c : Char) (rest : Text) :
    scanString (escapeChar c ++ rest) = (scanString rest).map fun p => (c :: p.1, p.2) := by
  unfold escapeChar
  split
  · next h => subst h; exact scanString_escape rfl rest
  split
  · next h => subst h; exact scanString_escape rfl rest
  split
  · next h => subst h; exact scanString_escape rfl rest
  split
  · next h => subst h; exact scanString_escape rfl rest
  split
  · next h => subst h; exact scanString_escape rfl rest
  split
  · next h => subst h; exact scanString_escape rfl rest
  split
  · next h => subst h; exact scanString_escape rfl rest
  split
  · next h => exact scanString_control h rest
  · next hq hb _ _ _ _ _ h => exact scanString_char h hq hb rest

theorem scanString_quote (s rest : Text) :
    scanString (s.flatMap escapeChar ++ '"' :: rest) = some (s, rest) := by
  induction s with
  | nil => rfl
  | cons c s ih =>
    rw [List.flatMap_cons, List.append_assoc, scanString_escapeChar, ih]
    rfl

/-! ## Numbers -/

/-- The text does not go on with the number before it. -/
def Stops (rest : Text) : Prop :=
  ∀ c, rest.head? = some c → c.isDigit = false ∧ c ≠ '.' ∧ c ≠ 'e' ∧ c ≠ 'E'

theorem Stops.nil : Stops [] := nofun

theorem Stops.cons {c : Char} (h : c.isDigit = false) (hp : c ≠ '.') (he : c ≠ 'e') (hE : c ≠ 'E')
    (rest : Text) : Stops (c :: rest) := by
  intro d hd
  cases hd
  exact ⟨h, hp, he, hE⟩

theorem span_isDigit {digits rest : Text} (h : ∀ c ∈ digits, c.isDigit)
    (hrest : ∀ c, rest.head? = some c → c.isDigit = false) :
    (digits ++ rest).span Char.isDigit = (digits, rest) := by
  rw [List.span_eq_takeWhile_dropWhile]
  have ht : rest.takeWhile Char.isDigit = [] ∧ rest.dropWhile Char.isDigit = rest := by
    cases rest with
    | nil => exact ⟨rfl, rfl⟩
    | cons c rest => simp [hrest c rfl]
  rw [List.takeWhile_append_of_pos h, List.dropWhile_append_of_pos h, ht.1, ht.2, List.append_nil]

theorem ofDigitChars_decimal (n : Nat) : Nat.ofDigitChars 10 (decimal n) 0 = n :=
  Nat.ofDigitChars_ten_toDigits

theorem decimal_isDigit {n : Nat} {c : Char} (h : c ∈ decimal n) : c.isDigit :=
  Nat.isDigit_of_mem_toDigits (by decide) (by decide) h

/-- A number starts with a zero only when it is one. -/
theorem decimal_head (n : Nat) : ∃ c cs, decimal n = c :: cs ∧ (c = '0' → cs = []) := by
  induction n using Nat.strong_induction_on with
  | _ n ih =>
    unfold decimal at ih ⊢
    by_cases hn : n < 10
    · exact ⟨n.digitChar, [], Nat.toDigits_of_lt_base hn, fun _ => rfl⟩
    · rw [Nat.toDigits_of_base_le (by decide) (by omega)]
      obtain ⟨c, cs, heq, hz⟩ := ih (n / 10) (by omega)
      refine ⟨c, cs ++ [(n % 10).digitChar], by rw [heq]; rfl, fun hc => ?_⟩
      -- a leading zero would make the front of `n` zero
      subst hc
      have hn' : Nat.ofDigitChars 10 (Nat.toDigits 10 (n / 10)) 0 = n / 10 :=
        ofDigitChars_decimal (n / 10)
      rw [heq, hz rfl, show Nat.ofDigitChars 10 ['0'] 0 = 0 from rfl] at hn'
      omega

theorem scanWhole_decimal (n : Nat) {rest : Text}
    (hrest : ∀ c, rest.head? = some c → c.isDigit = false) :
    scanWhole (decimal n ++ rest) = some (decimal n, rest) := by
  obtain ⟨c, cs, heq, hz⟩ := decimal_head n
  have hd : ∀ d ∈ c :: cs, d.isDigit := fun d hd => decimal_isDigit (heq ▸ hd)
  rw [heq, List.cons_append]
  by_cases hc : c = '0'
  · rw [hc, hz hc]; rfl
  · rw [scanWhole]
    · rw [if_pos (hd c (by simp)), ← List.cons_append, span_isDigit hd hrest]
    · intro h; exact absurd h hc

theorem scanExponent_stops {rest : Text} (h : Stops rest) : scanExponent rest = ([], rest) := by
  cases rest with
  | nil => rfl
  | cons c rest =>
    obtain ⟨-, -, he, hE⟩ := h c rfl
    simp [scanExponent, he, hE]

theorem scanFraction_stops {rest : Text} (h : Stops rest) : scanFraction rest = ([], rest) := by
  cases rest with
  | nil => rfl
  | cons c rest =>
    rw [scanFraction]
    rintro r ⟨⟩
    exact absurd rfl (h '.' rfl).2.1

/-- A literal of digits around a point. -/
def IsDecimal (literal : Text) : Prop :=
  ∃ whole fraction, literal = decimal whole ++ '.' :: fraction ∧ fraction ≠ [] ∧
    ∀ c ∈ fraction, c.isDigit

theorem head_decimal (n : Nat) (rest : Text) :
    ∃ c cs, decimal n ++ rest = c :: cs ∧ c.isDigit := by
  obtain ⟨c, cs, heq, -⟩ := decimal_head n
  exact ⟨c, cs ++ rest, by rw [heq]; rfl, decimal_isDigit (n := n) (by rw [heq]; simp)⟩

theorem afterWord_eq_none {word : String} {c : Char} {s : Text} (h : word.toList.head? ≠ some c)
    (hw : word.toList ≠ []) : afterWord word (c :: s) = none := by
  unfold afterWord
  cases hword : word.toList with
  | nil => exact absurd hword hw
  | cons d ds =>
    rw [hword] at h
    have : (d == c) = false := by simpa using h
    simp [List.isPrefixOf, this]

/-- A text that starts like a number is no constant. -/
theorem scanAtom_eq {c : Char} {s : Text} {result : Except Error (Json × Text)}
    (hc : c.isDigit ∨ c = '-') (h : scanNumber (c :: s) = some result) :
    scanAtom (c :: s) = result := by
  have hne : c ≠ 'n' ∧ c ≠ 't' ∧ c ≠ 'f' := by
    refine ⟨?_, ?_, ?_⟩ <;> rintro rfl <;> revert hc <;> decide
  rw [scanAtom, afterWord_eq_none (by simpa using hne.1.symm) (by decide)]
  simp only
  rw [afterWord_eq_none (by simpa using hne.2.1.symm) (by decide)]
  simp only
  rw [afterWord_eq_none (by simpa using hne.2.2.symm) (by decide)]
  simp only [h]

theorem scanNumber_intRepr {n : Int} {t : Text} (ht : intRepr n = .ok t) {rest : Text}
    (h : Stops rest) : scanNumber (t ++ rest) = some (.ok (.int n, rest)) := by
  have hw := scanWhole_decimal n.natAbs fun c hc => (h c hc).1
  unfold intRepr at ht
  split at ht
  case isFalse => cases ht
  case isTrue hlen =>
    cases ht
    split
    · next hn =>
      have hv : -((n.natAbs : Nat) : Int) = n := by omega
      simp only [scanNumber, List.cons_append, List.head?_cons, beq_self_eq_true, if_true,
        List.tail_cons, hw, Option.bind_eq_bind, Option.bind_some, scanFraction_stops h,
        scanExponent_stops h, List.isEmpty_nil, Bool.and_self, intOf, hlen, Except.map,
        ofDigitChars_decimal, hv]
      rfl
    · next hn =>
      have hv : ((n.natAbs : Nat) : Int) = n := by omega
      obtain ⟨c, cs, heq, hc⟩ := head_decimal n.natAbs rest
      have hneg : ((decimal n.natAbs ++ rest).head? == some '-') = false := by
        rw [heq]
        simp only [List.head?_cons, beq_eq_false_iff_ne, ne_eq, Option.some.injEq]
        rintro rfl
        revert hc; decide
      simp only [scanNumber, hneg, Bool.false_eq_true, if_false, hw, Option.bind_eq_bind,
        Option.bind_some, scanFraction_stops h, scanExponent_stops h, List.isEmpty_nil,
        Bool.and_self, if_true, intOf, hlen, Except.map, ofDigitChars_decimal, hv]
      rfl

theorem scanNumber_float {literal : Text} (hl : IsDecimal literal) {rest : Text} (h : Stops rest) :
    scanNumber (literal ++ rest) = some (.ok (.float literal, rest)) := by
  obtain ⟨whole, fraction, rfl, hne, hd⟩ := hl
  have hw : scanWhole (decimal whole ++ ('.' :: fraction ++ rest)) =
      some (decimal whole, '.' :: fraction ++ rest) := scanWhole_decimal whole (by simp)
  have hs := span_isDigit hd fun c hc => (h c hc).1
  rw [List.span_eq_takeWhile_dropWhile, Prod.mk.injEq] at hs
  have hf : scanFraction ('.' :: fraction ++ rest) = ('.' :: fraction, rest) := by
    simp [scanFraction, hs.1, hs.2, hne]
  obtain ⟨c, cs, heq, hc⟩ := head_decimal whole ('.' :: fraction ++ rest)
  have hneg : ((decimal whole ++ ('.' :: fraction ++ rest)).head? == some '-') = false := by
    rw [heq]
    simp only [List.head?_cons, beq_eq_false_iff_ne, ne_eq, Option.some.injEq]
    rintro rfl
    revert hc; decide
  rw [List.append_assoc]
  simp only [scanNumber, hneg, Bool.false_eq_true, if_false, hw, Option.bind_eq_bind,
    Option.bind_some, hf, scanExponent_stops h, List.isEmpty_cons, Bool.false_and, List.nil_append,
    List.append_nil]
  rfl

/-! ## Layout -/

@[simp] theorem skipSpace_newline (style : Style) (depth : Nat) (s : Text) :
    skipSpace (style.newline depth ++ s) = skipSpace s := by
  cases style with
  | compact => rfl
  | indented k =>
    have h : ∀ c ∈ '\n' :: List.replicate (k * depth) ' ', isSpace c = true := by
      intro c hc
      rcases List.mem_cons.mp hc with rfl | hc
      · rfl
      · rw [List.eq_of_mem_replicate hc]; rfl
    exact List.dropWhile_append_of_pos h

theorem skipSpace_cons {c : Char} (h : isSpace c = false) (s : Text) :
    skipSpace (c :: s) = c :: s := by
  simp [skipSpace, h]

/-- How the text of a value starts. -/
def Starts (t : Text) : Prop :=
  ∃ c cs, t = c :: cs ∧ isSpace c = false ∧ c.toNat < 128 ∧ c ≠ ']' ∧ c ≠ '}'

theorem Starts.skipSpace {t : Text} (h : Starts t) (s : Text) :
    Json.skipSpace (t ++ s) = t ++ s := by
  obtain ⟨c, cs, rfl, hc, -⟩ := h
  exact skipSpace_cons hc _

theorem Starts.pos {t : Text} (h : Starts t) : 0 < t.length := by
  obtain ⟨c, cs, rfl, -⟩ := h
  simp

theorem starts_of_isDigit {c : Char} {cs : Text} (h : c.isDigit) : Starts (c :: cs) := by
  refine ⟨c, cs, rfl, ?_, ?_, ?_, ?_⟩
  · rcases hs : isSpace c with _ | _
    · rfl
    · simp only [isSpace, Bool.or_eq_true, beq_iff_eq] at hs
      rcases hs with ((rfl | rfl) | rfl) | rfl <;> revert h <;> decide
  · simp only [Char.isDigit, Bool.and_eq_true, decide_eq_true_eq, UInt32.le_iff_toNat_le] at h
    exact lt_of_le_of_lt h.2 (by decide)
  · rintro rfl; revert h; decide
  · rintro rfl; revert h; decide

mutual

/-- Every float of the value is written with digits around a point. -/
def Plain : Json → Prop
  | .float literal => IsDecimal literal
  | .arr items => PlainItems items
  | .obj fields => PlainFields fields
  | _ => True

/-- `Plain`, for the items of an array. -/
def PlainItems : List Json → Prop
  | [] => True
  | x :: xs => Plain x ∧ PlainItems xs

/-- `Plain`, for the values of an object. -/
def PlainFields : List (Text × Json) → Prop
  | [] => True
  | (_, x) :: fields => Plain x ∧ PlainFields fields

end

variable {style : Style} {depth : Nat}

theorem print_starts {v : Json} {t : Text} (h : print style depth v = .ok t) (hv : Plain v) :
    Starts t := by
  cases v with
  | null => cases h; exact ⟨'n', _, rfl, rfl, by decide, by decide, by decide⟩
  | bool b => cases b <;> cases h <;> exact ⟨_, _, rfl, rfl, by decide, by decide, by decide⟩
  | int n =>
    simp only [print, intRepr] at h
    split at h
    · cases h
      split
      · exact ⟨'-', _, rfl, rfl, by decide, by decide, by decide⟩
      · obtain ⟨c, cs, heq, hc⟩ := head_decimal n.natAbs []
        rw [List.append_nil] at heq
        exact heq ▸ starts_of_isDigit hc
    · cases h
  | float literal =>
    cases h
    obtain ⟨whole, fraction, rfl, -⟩ := hv
    obtain ⟨c, cs, heq, hc⟩ := head_decimal whole ('.' :: fraction)
    exact heq ▸ starts_of_isDigit hc
  | str s => cases h; exact ⟨'"', _, rfl, rfl, by decide, by decide, by decide⟩
  | arr items =>
    cases items with
    | nil => cases h; exact ⟨'[', _, rfl, rfl, by decide, by decide, by decide⟩
    | cons x xs =>
      simp only [print, bind_eq_ok] at h
      obtain ⟨u, -, us, -, h⟩ := h
      cases h
      exact ⟨'[', _, rfl, rfl, by decide, by decide, by decide⟩
  | obj fields =>
    cases fields with
    | nil => cases h; exact ⟨'{', _, rfl, rfl, by decide, by decide, by decide⟩
    | cons field fields =>
      simp only [print, bind_eq_ok] at h
      obtain ⟨u, -, us, -, h⟩ := h
      cases h
      exact ⟨'{', _, rfl, rfl, by decide, by decide, by decide⟩

/-! ## The scanner reads what was written -/

/-- What `parseItems` does after an item. -/
def moreItems (fuel : Nat) (s : Text) : Except Error (List Json × Text) :=
  match skipSpace s with
  | ',' :: rest => parseItems fuel (skipSpace rest)
  | ']' :: rest => .ok ([], rest)
  | _ => .error .jsonDecodeError

/-- What `parseFields` does after a pair. -/
def moreFields (fuel : Nat) (s : Text) : Except Error (List (Text × Json) × Text) :=
  match skipSpace s with
  | ',' :: rest => parseFields fuel (skipSpace rest)
  | '}' :: rest => .ok ([], rest)
  | _ => .error .jsonDecodeError

theorem parseItems_eq_ok {fuel : Nat} {s rest rest' : Text} {x : Json} {xs : List Json}
    (hx : parseValue fuel s = .ok (x, rest)) (hxs : moreItems fuel rest = .ok (xs, rest')) :
    parseItems (fuel + 1) s = .ok (x :: xs, rest') := by
  rw [parseItems, hx]
  simp only [bind, Except.bind]
  unfold moreItems at hxs
  split at hxs
  · next heq => simp only [heq, hxs]; rfl
  · next heq => cases hxs; try rw [heq]
                rfl
  · cases hxs

theorem parseFields_eq_ok {fuel : Nat} (key : Text) {s rest rest' : Text} {x : Json}
    {fields : List (Text × Json)} (hx : parseValue fuel (skipSpace s) = .ok (x, rest))
    (hfields : moreFields fuel rest = .ok (fields, rest')) :
    parseFields (fuel + 1) (quote key ++ ':' :: s) = .ok ((key, x) :: fields, rest') := by
  have hq : quote key ++ ':' :: s = '"' :: (key.flatMap escapeChar ++ '"' :: ':' :: s) := by
    simp [quote]
  rw [hq, parseFields]
  simp only [scanString_quote, skipSpace_cons (show isSpace ':' = false from rfl), hx, bind,
    Except.bind]
  unfold moreFields at hfields
  split at hfields
  · next heq => simp only [heq, hfields]; rfl
  · next heq => cases hfields; try rw [heq]
                rfl
  · cases hfields

theorem keySeparator_eq (style : Style) : ∃ gap, style.keySeparator = ':' :: gap ∧
    ∀ s, skipSpace (gap ++ s) = skipSpace s := by
  cases style with
  | compact => exact ⟨[], rfl, fun _ => rfl⟩
  | indented k => exact ⟨[' '], rfl, fun _ => rfl⟩

theorem stops_newline {c : Char} (h : c = ']' ∨ c = '}') (style : Style) (depth : Nat)
    (rest : Text) : Stops (style.newline depth ++ c :: rest) := by
  cases style with
  | compact => rcases h with rfl | rfl <;> exact Stops.cons rfl (by decide) (by decide) (by decide) _
  | indented k => exact Stops.cons rfl (by decide) (by decide) (by decide) _

theorem stops_printItems {xs : List Json} {ts close : Text}
    (h : printItems style depth xs = .ok ts) (hclose : Stops close) : Stops (ts ++ close) := by
  cases xs with
  | nil => cases h; exact hclose
  | cons x xs =>
    simp only [printItems, bind_eq_ok] at h
    obtain ⟨t, -, us, -, h⟩ := h
    cases h
    exact Stops.cons rfl (by decide) (by decide) (by decide) _

theorem stops_printFields {fields : List (Text × Json)} {ts close : Text}
    (h : printFields style depth fields = .ok ts) (hclose : Stops close) : Stops (ts ++ close) := by
  cases fields with
  | nil => cases h; exact hclose
  | cons field fields =>
    simp only [printFields, bind_eq_ok] at h
    obtain ⟨t, -, us, -, h⟩ := h
    cases h
    exact Stops.cons rfl (by decide) (by decide) (by decide) _

/-- A text that starts like a number goes to `scanAtom`. -/
theorem parseValue_number {fuel : Nat} {t rest : Text} {v : Json}
    (ht : ∃ c cs, t = c :: cs ∧ (c.isDigit ∨ c = '-'))
    (h : scanNumber (t ++ rest) = some (.ok (v, rest))) :
    parseValue (fuel + 1) (t ++ rest) = .ok (v, rest) := by
  obtain ⟨c, cs, rfl, hc⟩ := ht
  rw [List.cons_append] at h ⊢
  rw [parseValue, scanAtom_eq hc h]
  all_goals rintro r ⟨⟩; revert hc; decide

theorem intRepr_head {n : Int} {t : Text} (h : intRepr n = .ok t) :
    ∃ c cs, t = c :: cs ∧ (c.isDigit ∨ c = '-') := by
  unfold intRepr at h
  split at h
  · cases h
    split
    · exact ⟨'-', _, rfl, .inr rfl⟩
    · obtain ⟨c, cs, heq, hc⟩ := head_decimal n.natAbs []
      exact ⟨c, cs, by rwa [List.append_nil] at heq, .inl hc⟩
  · cases h

theorem parseValue_arr {fuel : Nat} {s u rest : Text} {xs : List Json} (hs : skipSpace s = u)
    (hu : Starts u) (h : parseItems fuel u = .ok (xs, rest)) :
    parseValue (fuel + 1) ('[' :: s) = .ok (.arr xs, rest) := by
  obtain ⟨c, cs, rfl, -, -, hc, -⟩ := hu
  rw [parseValue, hs]
  split
  · next heq => cases heq; exact absurd rfl hc
  · rw [h]; rfl

theorem parseValue_obj {fuel : Nat} {s u rest : Text} {fields : List (Text × Json)}
    (hs : skipSpace s = u) (hu : Starts u) (h : parseFields fuel u = .ok (fields, rest)) :
    parseValue (fuel + 1) ('{' :: s) = .ok (.obj fields, rest) := by
  obtain ⟨c, cs, rfl, -, -, -, hc⟩ := hu
  rw [parseValue, hs]
  split
  · next heq => cases heq; exact absurd rfl hc
  · rw [h]; rfl

theorem starts_quote (key s : Text) : Starts (quote key ++ s) :=
  ⟨'"', _, rfl, rfl, by decide, by decide, by decide⟩

mutual

/-- The scanner reads the text of a value as that value, whatever follows it. -/
theorem parseValue_print : ∀ (v : Json) (depth fuel : Nat) (t rest : Text),
    print style depth v = .ok t → Plain v → Stops rest → t.length ≤ fuel →
    parseValue fuel (t ++ rest) = .ok (v, rest)
  | v, depth, 0, t, rest, h, hv, _, hfuel => by
    have := (print_starts h hv).pos
    omega
  | .null, _, fuel + 1, t, rest, h, _, _, _ => by
    cases h
    rfl
  | .bool b, _, fuel + 1, t, rest, h, _, _, _ => by
    cases b <;> cases h <;> rfl
  | .int n, _, fuel + 1, t, rest, h, _, hrest, _ =>
    parseValue_number (intRepr_head h) (scanNumber_intRepr h hrest)
  | .float literal, _, fuel + 1, t, rest, h, hv, hrest, _ => by
    cases h
    refine parseValue_number ?_ (scanNumber_float hv hrest)
    obtain ⟨whole, fraction, rfl, -⟩ := hv
    obtain ⟨c, cs, heq, hc⟩ := head_decimal whole ('.' :: fraction)
    exact ⟨c, cs, heq, .inl hc⟩
  | .str s, _, fuel + 1, t, rest, h, _, _, _ => by
    cases h
    have hq : quote s ++ rest = '"' :: (s.flatMap escapeChar ++ '"' :: rest) := by simp [quote]
    rw [hq, parseValue, scanString_quote]
  | .arr [], _, fuel + 1, t, rest, h, _, _, _ => by
    cases h
    rfl
  | .obj [], _, fuel + 1, t, rest, h, _, _, _ => by
    cases h
    rfl
  | .arr (x :: xs), depth, fuel + 1, t, rest, h, hv, hrest, hfuel => by
    simp only [print, bind_eq_ok] at h
    obtain ⟨u, hu, us, hus, h⟩ := h
    cases h
    have hpos := (print_starts hu hv.1).pos
    simp only [List.length_cons, List.length_append, List.length_nil] at hfuel
    obtain ⟨fuel, rfl⟩ : ∃ n, fuel = n + 1 := ⟨fuel - 1, by omega⟩
    have hclose := stops_newline (.inl rfl) style depth rest
    have hx := parseValue_print x (depth + 1) fuel u _ hu hv.1 (stops_printItems hus hclose)
      (by omega)
    have hxs := moreItems_print xs (depth + 1) depth fuel us rest hus hv.2 (by omega)
    rw [List.cons_append]
    refine parseValue_arr ?_ ?_ (parseItems_eq_ok hx hxs)
    · simp only [List.append_assoc, skipSpace_newline, List.cons_append, List.nil_append]
      exact (print_starts hu hv.1).skipSpace _
    · obtain ⟨c, cs, rfl, hc⟩ := print_starts hu hv.1
      exact ⟨c, _, rfl, hc⟩
  | .obj ((key, x) :: fields), depth, fuel + 1, t, rest, h, hv, hrest, hfuel => by
    simp only [print, bind_eq_ok] at h
    obtain ⟨u, hu, us, hus, h⟩ := h
    cases h
    have hpos := (print_starts hu hv.1).pos
    simp only [List.length_cons, List.length_append, List.length_nil] at hfuel
    obtain ⟨fuel, rfl⟩ : ∃ n, fuel = n + 1 := ⟨fuel - 1, by omega⟩
    obtain ⟨gap, hgap, hskip⟩ := keySeparator_eq style
    have hclose := stops_newline (.inr rfl) style depth rest
    have hx := parseValue_print x (depth + 1) fuel u _ hu hv.1 (stops_printFields hus hclose)
      (by omega)
    have hxs := moreFields_print fields (depth + 1) depth fuel us rest hus hv.2 (by omega)
    rw [← (print_starts hu hv.1).skipSpace, ← hskip] at hx
    rw [List.cons_append]
    refine parseValue_obj ?_ (starts_quote key _) (parseFields_eq_ok _ hx hxs)
    simp only [List.append_assoc, skipSpace_newline, List.cons_append, List.nil_append, hgap]
    rfl

/-- The items that follow one are read up to the closing bracket. -/
theorem moreItems_print : ∀ (xs : List Json) (depth outer fuel : Nat) (ts rest : Text),
    printItems style depth xs = .ok ts → PlainItems xs → ts.length ≤ fuel →
    moreItems fuel (ts ++ (style.newline outer ++ ']' :: rest)) = .ok (xs, rest)
  | [], _, outer, fuel, ts, rest, h, _, _ => by
    cases h
    rw [List.nil_append, moreItems, skipSpace_newline]
    rfl
  | x :: xs, depth, outer, fuel, ts, rest, h, hv, hfuel => by
    simp only [printItems, bind_eq_ok] at h
    obtain ⟨u, hu, us, hus, h⟩ := h
    cases h
    have hpos := (print_starts hu hv.1).pos
    simp only [List.length_cons, List.length_append] at hfuel
    obtain ⟨fuel, rfl⟩ : ∃ n, fuel = n + 1 := ⟨fuel - 1, by omega⟩
    have hclose := stops_newline (.inl rfl) style outer rest
    have hx := parseValue_print x depth fuel u _ hu hv.1 (stops_printItems hus hclose) (by omega)
    have hxs := moreItems_print xs depth outer fuel us rest hus hv.2 (by omega)
    have hmore := parseItems_eq_ok hx hxs
    rw [← (print_starts hu hv.1).skipSpace, ← skipSpace_newline style depth] at hmore
    rw [moreItems, List.cons_append, skipSpace_cons rfl]
    simpa using hmore

/-- The pairs that follow one are read up to the closing brace. -/
theorem moreFields_print : ∀ (fields : List (Text × Json)) (depth outer fuel : Nat)
    (ts rest : Text), printFields style depth fields = .ok ts → PlainFields fields →
    ts.length ≤ fuel →
    moreFields fuel (ts ++ (style.newline outer ++ '}' :: rest)) = .ok (fields, rest)
  | [], _, outer, fuel, ts, rest, h, _, _ => by
    cases h
    rw [List.nil_append, moreFields, skipSpace_newline]
    rfl
  | (key, x) :: fields, depth, outer, fuel, ts, rest, h, hv, hfuel => by
    simp only [printFields, bind_eq_ok] at h
    obtain ⟨u, hu, us, hus, h⟩ := h
    cases h
    have hpos := (print_starts hu hv.1).pos
    simp only [List.length_cons, List.length_append] at hfuel
    obtain ⟨fuel, rfl⟩ : ∃ n, fuel = n + 1 := ⟨fuel - 1, by omega⟩
    obtain ⟨gap, hgap, hskip⟩ := keySeparator_eq style
    have hclose := stops_newline (.inr rfl) style outer rest
    have hx := parseValue_print x depth fuel u _ hu hv.1 (stops_printFields hus hclose) (by omega)
    have hxs := moreFields_print fields depth outer fuel us rest hus hv.2 (by omega)
    rw [← (print_starts hu hv.1).skipSpace, ← hskip] at hx
    have hmore := parseFields_eq_ok key hx hxs
    rw [moreFields, List.cons_append, skipSpace_cons rfl]
    simp only [List.append_assoc, skipSpace_newline, hgap, List.cons_append]
    rw [show skipSpace (quote key ++ _) = quote key ++ _ from rfl]
    simpa using hmore

end

/-! ## Sorted keys -/

theorem plainFields_iff {fields : List (Text × Json)} :
    PlainFields fields ↔ ∀ field ∈ fields, Plain field.2 := by
  induction fields with
  | nil => exact iff_of_true trivial (by simp)
  | cons field fields ih =>
    obtain ⟨key, x⟩ := field
    rw [PlainFields, ih]
    simp

theorem sortPairs_perm (fields : List (Text × Json)) : (sortPairs fields).Perm fields :=
  List.perm_insertionSort _ _

mutual

theorem plain_sortKeys : ∀ v : Json, Plain v → Plain v.sortKeys
  | .null, _ => trivial
  | .bool _, _ => trivial
  | .int _, _ => trivial
  | .float _, h => h
  | .str _, _ => trivial
  | .arr items, h => plain_sortItems items h
  | .obj fields, h => by
    have hf := plainFields_iff.mp (plain_sortFields fields h)
    exact plainFields_iff.mpr fun field hfield => hf field ((sortPairs_perm _).mem_iff.mp hfield)

theorem plain_sortItems : ∀ items : List Json, PlainItems items → PlainItems (sortItems items)
  | [], _ => trivial
  | x :: xs, h => ⟨plain_sortKeys x h.1, plain_sortItems xs h.2⟩

theorem plain_sortFields : ∀ fields : List (Text × Json), PlainFields fields →
    PlainFields (sortFields fields)
  | [], _ => trivial
  | (_, x) :: fields, h => ⟨plain_sortKeys x h.1, plain_sortFields fields h.2⟩

end

theorem sortFields_eq_map (fields : List (Text × Json)) :
    sortFields fields = fields.map fun field => (field.1, field.2.sortKeys) := by
  induction fields with
  | nil => rfl
  | cons field fields ih => obtain ⟨key, x⟩ := field; rw [sortFields, ih]; rfl

/-- Where no key occurs twice, the pair with a key is the value of that key. -/
theorem get_eq_some {fields : List (Text × Json)} (h : (fields.map (·.1)).Nodup) {key : Text}
    {v : Json} (hv : (key, v) ∈ fields) : get key fields = some v := by
  have hfind : fields.reverse.find? (fun field => field.1 == key) = some (key, v) := by
    rw [List.find?_eq_some_iff_append]
    obtain ⟨front, back, rfl⟩ := List.append_of_mem hv
    refine ⟨by simp, back.reverse, front.reverse, by simp, ?_⟩
    intro field hfield
    rw [List.map_append, List.map_cons, List.nodup_append] at h
    have hne := (List.nodup_cons.mp h.2.1).1
    simp only [Bool.not_eq_true', beq_eq_false_iff_ne]
    intro hkey
    exact hne (List.mem_map.mpr ⟨field, List.mem_reverse.mp hfield, hkey⟩)
  rw [get, hfind]
  rfl

/-- Sorting the keys of an object leaves what each of them maps to. -/
theorem get_sortKeys {fields : List (Text × Json)} (h : (fields.map (·.1)).Nodup) {key : Text}
    {v : Json} (hv : (key, v) ∈ fields) :
    get key (sortPairs (sortFields fields)) = some v.sortKeys := by
  have hperm := sortPairs_perm (sortFields fields)
  rw [sortFields_eq_map] at hperm ⊢
  refine get_eq_some ?_ (hperm.mem_iff.mpr (List.mem_map.mpr ⟨(key, v), hv, rfl⟩))
  rw [(hperm.map _).nodup_iff, List.map_map]
  exact h

/-- `json.loads` reads back what `json.dumps` wrote, with whitespace behind it. -/
theorem loads_dumps {v : Json} {t space : Text} (h : dumps style v = .ok t) (hv : Plain v)
    (hspace : ∀ c ∈ space, isSpace c) : loads (t ++ space) = .ok v.sortKeys := by
  have hplain := plain_sortKeys v hv
  have hstarts := print_starts h hplain
  have hstops : Stops space := by
    intro c hc
    have hs := hspace c (List.mem_of_mem_head? hc)
    simp only [isSpace, Bool.or_eq_true, beq_iff_eq] at hs
    rcases hs with ((rfl | rfl) | rfl) | rfl <;> decide
  have hparse := parseValue_print v.sortKeys 0 ((t ++ space).length + 1) t space h hplain hstops
    (by simp; omega)
  have hbom : ((t ++ space).head? == some (Char.ofNat 0xFEFF)) = false := by
    obtain ⟨c, cs, rfl, -, hc, -⟩ := hstarts
    simp only [List.cons_append, List.head?_cons, beq_eq_false_iff_ne, ne_eq, Option.some.injEq]
    rintro rfl
    revert hc; decide
  have hrest : skipSpace space = [] := List.dropWhile_eq_nil_iff.mpr hspace
  rw [loads, hbom, hstarts.skipSpace, hparse]
  simp only [Bool.false_eq_true, if_false, bind, Except.bind, hrest, beq_self_eq_true, if_true]
  rfl

end Py.Json
