import RchProxy.Lib.RegexRuns
import RchProxy.Framing.Refine
import RchProxy.Py.Decimal
import RchProxy.Receipt.Assembler

/-!
# Printed amounts

Three readings of one notation: the texts `_format_cents` writes, the full match of
`parse_printed_amount`, and the pattern `_amount_fields` looks for in a line. The last one groups the
whole euros by threes, with a dot between the groups; `_format_cents` writes no dots, so the pattern
finds its amounts below a thousand euros only (`amounts_read_back_iff`).
-/

namespace RchProxy

open Py Lib Lib.Regex

/-! ## Amounts without dots -/

/-- A sign of `[+-]?`. -/
def IsSign (s : Text) : Prop := s = [] ∨ s = ['+'] ∨ s = ['-']

/-- Decimal digits. -/
def IsDigits (s : Text) : Prop := ∀ c ∈ s, isDecimal c = true

/-- A sign, euros, and cents. -/
structure IsAmount (sign whole fraction : Text) : Prop where
  isSign : IsSign sign
  isWhole : IsDigits whole
  whole_ne_nil : whole ≠ []
  isFraction : IsDigits fraction
  fraction_length : fraction.length = 2

/-- The text of an amount. -/
def amountText (sign whole fraction : Text) : Text := sign ++ whole ++ ',' :: fraction

theorem formatCents_isAmount (cents : Int) :
    IsAmount (if cents < 0 then ['-'] else []) (decimal (cents.natAbs / 100))
      (zeroPad 2 (cents.natAbs % 100)) where
  isSign := by
    split
    · exact .inr (.inr rfl)
    · exact .inl rfl
  isWhole _ := decimal_isDecimal
  whole_ne_nil := decimal_ne_nil _
  isFraction _ := zeroPad_isDecimal
  fraction_length := zeroPad_length (by decide) (Nat.mod_lt _ (by decide))

theorem formatCents_eq (cents : Int) :
    formatCents cents = amountText (if cents < 0 then ['-'] else []) (decimal (cents.natAbs / 100))
      (zeroPad 2 (cents.natAbs % 100)) := by
  simp [formatCents, amountText]

section
variable {s : Text}

theorem IsSign.not_digit (h : IsSign s) : ∀ c ∈ s, isDecimal c = false := by
  rcases h with rfl | rfl | rfl
  · simp
  · exact fun c hc => by rw [List.mem_singleton.mp hc]; decide
  · exact fun c hc => by rw [List.mem_singleton.mp hc]; decide

theorem isDecimal_ne {c d : Char} (h : isDecimal c = true) (hd : isDecimal d = false) : c ≠ d := by
  rintro rfl
  rw [h] at hd
  cases hd

theorem IsDigits.not_mem (h : IsDigits s) {d : Char} (hd : isDecimal d = false) : d ∉ s :=
  fun hmem => isDecimal_ne (h d hmem) hd rfl

theorem isDecimal_not_space {c : Char} (h : isDecimal c = true) : isSpace c = false := by
  simp only [isDecimal, Bool.and_eq_true, decide_eq_true_eq] at h
  simp only [isSpace, Bool.or_eq_false_iff, Bool.and_eq_false_iff, decide_eq_false_iff_not,
    beq_eq_false_iff_ne]
  omega

/-- A text between characters that are no white space is not stripped. -/
theorem strip_of_ends (hfirst : ∀ c, s.head? = some c → isSpace c = false)
    (hlast : ∀ c, s.getLast? = some c → isSpace c = false) : strip s = s := by
  have hdrop : ∀ t : Text, (∀ c, t.head? = some c → isSpace c = false) → t.dropWhile isSpace = t := by
    intro t ht
    cases t with
    | nil => rfl
    | cons c t => rw [List.dropWhile_cons_of_neg (by rw [ht c rfl]; decide)]
  rw [strip, hdrop s hfirst, hdrop s.reverse (by rw [List.head?_reverse]; exact hlast),
    List.reverse_reverse]

/-- Where no white space stands, none is stripped. -/
theorem strip_of_no_space (h : ∀ c ∈ s, isSpace c = false) : strip s = s :=
  strip_of_ends (fun c hc => h c (List.mem_of_head? hc)) fun c hc => h c (List.mem_of_getLast? hc)

end

namespace IsAmount

variable {sign whole fraction : Text} (h : IsAmount sign whole fraction)
include h

/-- The characters of an amount. -/
theorem mem {c : Char} (hc : c ∈ amountText sign whole fraction) :
    isDecimal c = true ∨ c = '+' ∨ c = '-' ∨ c = ',' := by
  simp only [amountText, List.mem_append, List.mem_cons] at hc
  rcases hc with (hc | hc) | rfl | hc
  · rcases h.isSign with rfl | rfl | rfl
    · cases hc
    · exact .inr (.inl (List.mem_singleton.mp hc))
    · exact .inr (.inr (.inl (List.mem_singleton.mp hc)))
  · exact .inl (h.isWhole c hc)
  · exact .inr (.inr (.inr rfl))
  · exact .inl (h.isFraction c hc)

theorem not_space {c : Char} (hc : c ∈ amountText sign whole fraction) : isSpace c = false := by
  rcases h.mem hc with hc | rfl | rfl | rfl
  · exact isDecimal_not_space hc
  all_goals decide

theorem not_dot {c : Char} (hc : c ∈ amountText sign whole fraction) : c ≠ '.' := by
  rcases h.mem hc with hc | rfl | rfl | rfl
  · exact isDecimal_ne hc (by decide)
  all_goals decide

/-- `[+-]?\d+,\d{2}` matches the whole of an amount. -/
theorem plainAmount_fullMatch :
    (Pattern.plainAmount.fullMatch (amountText sign whole fraction)).isSome = true := by
  rw [fullMatch, List.find?_isSome]
  refine ⟨Cursor.past ⟨[], amountText sign whole fraction, []⟩ (amountText sign whole fraction) [],
    ?_, rfl⟩
  refine mem_run_seq.mpr ⟨Cursor.past ⟨[], amountText sign whole fraction, []⟩ sign
    (whole ++ ',' :: fraction), ?_, mem_run_seq.mpr ⟨Cursor.past ⟨[], amountText sign whole fraction, []⟩
      (sign ++ whole) (',' :: fraction), ?_, mem_run_lit.mpr ⟨fraction, rfl, ?_⟩⟩⟩
  · refine mem_run_opt.mpr ?_
    rcases h.isSign with rfl | rfl | rfl
    · exact .inr rfl
    · exact .inl (mem_run_one.mpr ⟨'+', _, rfl, by decide, rfl⟩)
    · exact .inl (mem_run_one.mpr ⟨'-', _, rfl, by decide, rfl⟩)
  · exact mem_run_plus_one.mpr ⟨whole, _, rfl, h.whole_ne_nil, h.isWhole, by simp⟩
  · refine (mem_run_rep_one (Nat.le_refl 2)).mpr ⟨fraction, [], by simp, ?_, h.isFraction, ?_⟩
    · rw [h.fraction_length]
      exact ⟨Nat.le_refl 2, Nat.le_refl 2⟩
    · simp [amountText]

/-- The full match reads an amount as its euros and cents, with its sign. -/
theorem parsePrintedAmount_eq :
    parsePrintedAmount (amountText sign whole fraction) =
      some ((if sign = ['-'] then -1 else 1) * (intOfText whole * 100 + intOfText fraction)) := by
  obtain ⟨d, ds, rfl⟩ := List.exists_cons_of_ne_nil h.whole_ne_nil
  have hd : isDecimal d = true := h.isWhole d List.mem_cons_self
  have hfilter : (amountText sign (d :: ds) fraction).filter (· != '.') =
      amountText sign (d :: ds) fraction :=
    List.filter_eq_self.mpr fun c hc => by simpa using h.not_dot hc
  have hstrip := strip_of_no_space fun c => h.not_space (c := c)
  have hunsigned : (amountText sign (d :: ds) fraction).dropWhile (fun c => c == '+' || c == '-') =
      d :: ds ++ ',' :: fraction := by
    have hstop : ((d :: ds ++ ',' :: fraction).dropWhile fun c => c == '+' || c == '-') =
        d :: ds ++ ',' :: fraction := by
      rw [List.cons_append, List.dropWhile_cons_of_neg]
      simp [isDecimal_ne hd (show isDecimal '+' = false by decide),
        isDecimal_ne hd (show isDecimal '-' = false by decide)]
    rw [amountText, List.append_assoc]
    rcases h.isSign with rfl | rfl | rfl
    · exact hstop
    · rw [List.singleton_append, List.dropWhile_cons_of_pos (by decide)]; exact hstop
    · rw [List.singleton_append, List.dropWhile_cons_of_pos (by decide)]; exact hstop
  have hcomma : ∀ c ∈ d :: ds, (c != ',') = true := fun c hc =>
    bne_iff_ne.mpr (isDecimal_ne (h.isWhole c hc) (by decide))
  have hneg : startsWith (amountText sign (d :: ds) fraction) ['-'] = decide (sign = ['-']) := by
    rcases h.isSign with rfl | rfl | rfl
    · have hminus : ('-' == d) = false := beq_false_of_ne (isDecimal_ne hd (by decide)).symm
      rw [startsWith, amountText, List.nil_append, List.cons_append, List.isPrefixOf_cons_cons, hminus]
      rfl
    · rfl
    · rfl
  have hmatch : (Pattern.plainAmount.fullMatch (amountText sign (d :: ds) fraction)).isNone = false := by
    rw [← Option.not_isSome, h.plainAmount_fullMatch]
    rfl
  unfold parsePrintedAmount
  simp only [hstrip, hfilter, hmatch, hunsigned, hneg]
  rw [List.takeWhile_append_of_pos hcomma, List.dropWhile_append_of_pos hcomma]
  by_cases hs : sign = ['-']
  · simp [hs]
  · simp [hs]

end IsAmount

/-- `parse_printed_amount` reads what `_format_cents` writes. -/
theorem parsePrintedAmount_formatCents (cents : Int) :
    parsePrintedAmount (formatCents cents) = some cents := by
  rw [formatCents_eq, (formatCents_isAmount cents).parsePrintedAmount_eq, intOfText_decimal,
    intOfText_zeroPad]
  congr 1
  by_cases hneg : cents < 0
  · rw [if_pos hneg, if_pos rfl]
    omega
  · rw [if_neg hneg, if_neg (by decide)]
    omega

/-! ## Amounts in a line -/

/-- What a match of a printed amount reads: a sign, one to three digits, and a dot or the cents. -/
theorem mem_run_printedAmount {c e : Match} (h : e ∈ Pattern.printedAmount.run c) :
    ∃ sign digits rest, c.after = sign ++ (digits ++ rest) ∧ IsSign sign ∧
      (1 ≤ digits.length ∧ digits.length ≤ 3) ∧ IsDigits digits ∧
      ((∃ t, rest = '.' :: t) ∨ ∃ cents t, rest = ',' :: (cents ++ t) ∧ cents.length = 2 ∧
        IsDigits cents ∧ e = c.past (amountText sign digits cents) t) := by
  obtain ⟨c₁, h₁, h⟩ := mem_run_seq.mp h
  obtain ⟨c₂, h₂, h⟩ := mem_run_seq.mp h
  obtain ⟨c₃, h₃, h⟩ := mem_run_seq.mp h
  have hsign : ∃ sign t, c.after = sign ++ t ∧ IsSign sign ∧ c₁ = c.past sign t := by
    rcases mem_run_opt.mp h₁ with h₁ | rfl
    · obtain ⟨x, t, hx, hp, rfl⟩ := mem_run_one.mp h₁
      refine ⟨[x], t, hx, ?_, rfl⟩
      rcases Bool.or_eq_true_iff.mp hp with hp | hp
      · exact .inr (.inl (by rw [eq_of_beq hp]))
      · exact .inr (.inr (by rw [eq_of_beq hp]))
    · exact ⟨[], _, rfl, .inl rfl, (Cursor.past_nil rfl).symm⟩
  obtain ⟨sign, t, hsign, his, rfl⟩ := hsign
  obtain ⟨digits, rest, hdigits, hlen, hdig, rfl⟩ := (mem_run_rep_one (by decide)).mp h₂
  rw [Cursor.past_after] at hdigits
  subst hdigits
  refine ⟨sign, digits, rest, hsign, his, hlen, hdig, ?_⟩
  rw [Cursor.past_past] at h₃
  by_cases hdot : ∃ t, rest = '.' :: t
  · exact .inl hdot
  · -- without a dot there are no groups
    have hnil : (Py.Pattern.lit "." (rep 3 3 Py.Pattern.digit)).run (c.past (sign ++ digits) rest) = [] := by
      refine List.eq_nil_iff_forall_not_mem.mpr fun d hd => ?_
      obtain ⟨u, hu, -⟩ := mem_run_lit.mp hd
      exact hdot ⟨u, hu⟩
    obtain rfl := (mem_run_star_of_nil hnil).mp h₃
    obtain ⟨u, hu, h⟩ := mem_run_lit.mp h
    obtain ⟨cents, t, ht, hlen₂, hcents, rfl⟩ := (mem_run_rep_one (Nat.le_refl 2)).mp h
    refine .inr ⟨cents, t, ?_, by omega, hcents, ?_⟩
    · rw [← ht]; exact hu
    · rw [Cursor.past_past, Cursor.past_past]
      simp [amountText]

/-- Up to three digits of euros and the cents are a printed amount. -/
theorem run_printedAmount {sign whole fraction : Text} (h : IsAmount sign whole fraction)
    (hlen : whole.length ≤ 3) {c : Match} {t : Text}
    (hafter : c.after = amountText sign whole fraction ++ t) :
    c.past (amountText sign whole fraction) t ∈ Pattern.printedAmount.run c := by
  have hafter' : c.after = sign ++ (whole ++ ',' :: (fraction ++ t)) := by
    rw [hafter]
    simp [amountText]
  refine mem_run_seq.mpr ⟨c.past sign (whole ++ ',' :: (fraction ++ t)), ?_,
    mem_run_seq.mpr ⟨c.past (sign ++ whole) (',' :: (fraction ++ t)), ?_, mem_run_seq.mpr
      ⟨c.past (sign ++ whole) (',' :: (fraction ++ t)), ?_, mem_run_lit.mpr ⟨fraction ++ t, rfl, ?_⟩⟩⟩⟩
  · refine mem_run_opt.mpr ?_
    rcases h.isSign with rfl | rfl | rfl
    · exact .inr (Cursor.past_nil hafter')
    · exact .inl (mem_run_one.mpr ⟨'+', _, hafter', by decide, rfl⟩)
    · exact .inl (mem_run_one.mpr ⟨'-', _, hafter', by decide, rfl⟩)
  · exact (mem_run_rep_one (by decide)).mpr ⟨whole, _, rfl,
      ⟨List.length_pos_iff.mpr h.whole_ne_nil, hlen⟩, h.isWhole, (Cursor.past_past ..).symm⟩
  · refine (mem_run_star_of_nil (List.eq_nil_iff_forall_not_mem.mpr fun d hd => ?_)).mpr rfl
    obtain ⟨u, hu, -⟩ := mem_run_lit.mp hd
    exact absurd hu (by simp)
  · refine (mem_run_rep_one (Nat.le_refl 2)).mpr ⟨fraction, t, rfl, ?_, h.isFraction, ?_⟩
    · rw [h.fraction_length]
      exact ⟨Nat.le_refl 2, Nat.le_refl 2⟩
    · rw [Cursor.past_past, Cursor.past_past]
      simp [amountText]

/-- Where an amount stands, a printed amount can only read the whole of it. -/
theorem mem_run_printedAmount_amount {sign whole fraction : Text} (h : IsAmount sign whole fraction)
    {c e : Match} (hafter : c.after = amountText sign whole fraction)
    (he : e ∈ Pattern.printedAmount.run c) :
    whole.length ≤ 3 ∧ e = c.past (amountText sign whole fraction) [] := by
  obtain ⟨sign', digits, rest, heq, his, ⟨hpos, hlen⟩, hdig, hrest⟩ := mem_run_printedAmount he
  obtain ⟨w, ws, rfl⟩ := List.exists_cons_of_ne_nil h.whole_ne_nil
  obtain ⟨d, ds, rfl⟩ := List.exists_cons_of_ne_nil (List.length_pos_iff.mp hpos)
  have hw : isDecimal w = true := h.isWhole w List.mem_cons_self
  have hd : isDecimal d = true := hdig d List.mem_cons_self
  have hplus : isDecimal '+' = false := by decide
  have hminus : isDecimal '-' = false := by decide
  rw [hafter, amountText, List.append_assoc] at heq
  -- the signs agree, since a digit is no sign
  obtain ⟨rfl, hcore⟩ : sign' = sign ∧ w :: ws ++ ',' :: fraction = d :: ds ++ rest := by
    rcases h.isSign with rfl | rfl | rfl <;> rcases his with rfl | rfl | rfl
    all_goals simp only [List.nil_append, List.cons_append, List.cons.injEq] at heq
    · exact ⟨rfl, by simpa using heq⟩
    · exact absurd heq.1 (isDecimal_ne hw hplus)
    · exact absurd heq.1 (isDecimal_ne hw hminus)
    · exact absurd heq.1.symm (isDecimal_ne hd hplus)
    · exact ⟨rfl, by simpa using heq.2⟩
    · exact absurd heq.1 (by decide)
    · exact absurd heq.1.symm (isDecimal_ne hd hminus)
    · exact absurd heq.1 (by decide)
    · exact ⟨rfl, by simpa using heq.2⟩
  -- the digits end where the cents start
  obtain ⟨hwhole, rfl⟩ : d :: ds = w :: ws ∧ rest = ',' :: fraction := by
    rcases List.append_eq_append_iff.mp hcore with ⟨u, hu, hv⟩ | ⟨u, hu, hv⟩
    · cases u with
      | nil => exact ⟨by rw [hu, List.append_nil], hv.symm⟩
      | cons x u =>
        have hx : x ∈ d :: ds := by rw [hu]; simp
        exact absurd (List.cons.inj hv).1.symm (isDecimal_ne (hdig x hx) (by decide))
    · cases u with
      | nil => exact ⟨by rw [hu, List.append_nil], hv⟩
      | cons x u =>
        have hx : isDecimal x = true := h.isWhole x (by rw [hu]; simp)
        rcases hrest with ⟨t, rfl⟩ | ⟨cents, t, rfl, -⟩
        · exact absurd (List.cons.inj hv).1.symm (isDecimal_ne hx (by decide))
        · exact absurd (List.cons.inj hv).1.symm (isDecimal_ne hx (by decide))
  rw [hwhole] at hlen hrest
  refine ⟨hlen, ?_⟩
  rcases hrest with ⟨t, ht⟩ | ⟨cents, t, ht, hlen₂, -, rfl⟩
  · exact absurd (List.cons.inj ht).1 (by decide)
  · have hcents := (List.cons.inj ht).2
    have hlength := congrArg List.length hcents
    rw [List.length_append, h.fraction_length, hlen₂] at hlength
    obtain rfl : t = [] := List.length_eq_zero_iff.mp (by omega)
    rw [List.append_nil] at hcents
    rw [hcents]

/-- A printed amount in a line stands between characters that are no digits. -/
theorem mem_run_anywhere {c e : Match} : e ∈ Pattern.printedAmountAnywhere.run c ↔
    c.before.head?.any isDecimal = false ∧ ∃ f ∈ Pattern.printedAmount.run c,
      f.after.head?.any isDecimal = false ∧
        e = { f with groups := (.amount, c.textTo f) :: f.groups } := by
  constructor
  · intro h
    obtain ⟨_, hstart, hread⟩ := mem_run_seq.mp h
    obtain ⟨hbefore, rfl⟩ := mem_run_look.mp hstart
    obtain ⟨_, hgroup, hstop⟩ := mem_run_seq.mp hread
    obtain ⟨f, hf, rfl⟩ := mem_run_group.mp hgroup
    obtain ⟨hafter, rfl⟩ := mem_run_look.mp hstop
    exact ⟨by simpa using hbefore, f, hf, by simpa using hafter, rfl⟩
  · rintro ⟨hbefore, f, hf, hafter, rfl⟩
    exact mem_run_seq.mpr ⟨c, mem_run_look.mpr ⟨by simp [hbefore], rfl⟩, mem_run_seq.mpr
      ⟨_, mem_run_group.mpr ⟨f, hf, rfl⟩, mem_run_look.mpr ⟨by simp [hafter], rfl⟩⟩⟩

section
variable {front sign whole fraction : Text}

/-- No amount starts in a text without digits that does not end in a sign. -/
theorem run_anywhere_front (hfront : ∀ c ∈ front, isDecimal c = false)
    (hlast : ∀ c, front.getLast? = some c → c ≠ '+' ∧ c ≠ '-') (t : Text) {u v : Text} {x : Char}
    (huv : front = u ++ x :: v) (before : Text) :
    Pattern.printedAmountAnywhere.run ⟨before, x :: v ++ t, []⟩ = [] := by
  refine List.eq_nil_iff_forall_not_mem.mpr fun e he => ?_
  obtain ⟨-, f, hf, -⟩ := mem_run_anywhere.mp he
  obtain ⟨sign, digits, rest, heq, his, ⟨hpos, -⟩, hdig, -⟩ := mem_run_printedAmount hf
  obtain ⟨d, ds, rfl⟩ := List.exists_cons_of_ne_nil (List.length_pos_iff.mp hpos)
  have hd : isDecimal d = true := hdig d List.mem_cons_self
  -- the digit is the next character, or the one after a sign
  have hcases : x = d ∨ (x = '+' ∨ x = '-') ∧ v ++ t = d :: ds ++ rest := by
    rcases his with rfl | rfl | rfl
    · exact .inl (List.cons.inj heq).1
    · exact .inr ⟨.inl (List.cons.inj heq).1, (List.cons.inj heq).2⟩
    · exact .inr ⟨.inr (List.cons.inj heq).1, (List.cons.inj heq).2⟩
  rcases hcases with rfl | ⟨hx, heq⟩
  · exact absurd hd (by rw [hfront x (by rw [huv]; simp)]; decide)
  · cases v with
    | nil =>
      have hends := hlast x (by rw [huv]; simp)
      exact hx.elim hends.1 hends.2
    | cons y v =>
      have hy : isDecimal y = false := hfront y (by rw [huv]; simp)
      exact absurd hd (by rw [← (List.cons.inj heq).1, hy]; decide)

/-- An amount of four or more digits is not found, from any of its positions. -/
theorem run_anywhere_long (h : IsAmount sign whole fraction) (hlong : 3 < whole.length)
    {u v : Text} {x : Char} (huv : amountText sign whole fraction = u ++ x :: v) (before : Text) :
    Pattern.printedAmountAnywhere.run ⟨u.reverse ++ before, x :: v, []⟩ = [] := by
  refine List.eq_nil_iff_forall_not_mem.mpr fun e he => ?_
  obtain ⟨hbefore, f, hf, -⟩ := mem_run_anywhere.mp he
  obtain ⟨sign', digits, rest, heq, his, ⟨-, hlen⟩, hdig, hrest⟩ := mem_run_printedAmount hf
  dsimp only at heq
  have htext : amountText sign whole fraction = u ++ sign' ++ digits ++ rest := by
    rw [huv, heq]
    simp
  -- the rest starts at the only comma
  obtain ⟨t, rfl⟩ : ∃ t, rest = ',' :: t := by
    rcases hrest with ⟨t, rfl⟩ | ⟨cents, t, rfl, -⟩
    · exact absurd rfl (h.not_dot (c := '.') (by rw [htext]; simp))
    · exact ⟨_, rfl⟩
  have hsplit : sign ++ whole = u ++ sign' ++ digits := by
    have hnot : ',' ∉ sign ++ whole := by
      rw [List.mem_append, not_or]
      exact ⟨by rcases h.isSign with rfl | rfl | rfl <;> decide, h.isWhole.not_mem (by decide)⟩
    have hnot' : ',' ∉ fraction := h.isFraction.not_mem (by decide)
    rcases List.append_eq_append_iff.mp htext with ⟨w, hw, hv⟩ | ⟨w, hw, hv⟩
    · cases w with
      | nil => rw [hw, List.append_nil]
      | cons y w => exact absurd (by rw [(List.cons.inj hv).2]; simp) hnot'
    · cases w with
      | nil => rw [hw, List.append_nil]
      | cons y w =>
        obtain ⟨rfl, -⟩ := List.cons.inj hv
        exact absurd (by rw [hw]; simp) hnot
  -- so a digit of the euros stands before the digits that were read
  have hcut : whole = whole.take (whole.length - digits.length) ++
      whole.drop (whole.length - digits.length) := (List.take_append_drop ..).symm
  rw [hcut, ← List.append_assoc] at hsplit
  obtain ⟨hfront, -⟩ := List.append_inj' hsplit (by rw [List.length_drop]; omega)
  obtain ⟨w, ws, hws⟩ : ∃ w ws, whole.take (whole.length - digits.length) = ws ++ [w] := by
    rcases List.eq_nil_or_concat (whole.take (whole.length - digits.length)) with hnil | ⟨ws, w, hws⟩
    · exact absurd (congrArg List.length hnil) (by rw [List.length_take, List.length_nil]; omega)
    · exact ⟨w, ws, by rw [hws, List.concat_eq_append]⟩
  have hw : isDecimal w = true := h.isWhole w (List.mem_of_mem_take (by rw [hws]; simp))
  rw [hws, ← List.append_assoc] at hfront
  rcases List.eq_nil_or_concat sign' with rfl | ⟨s, y, hy⟩
  · rw [List.append_nil] at hfront
    rw [← hfront, List.reverse_append] at hbefore
    simp [hw] at hbefore
  · rw [List.concat_eq_append] at hy
    rw [hy, ← List.append_assoc] at hfront
    have hwy := List.append_inj_right' hfront rfl
    have hsign : isDecimal y = false := his.not_digit y (by rw [hy]; simp)
    rw [← (List.cons.inj hwy).1, hw] at hsign
    cases hsign

/-- The only amount of a line that ends in one. -/
theorem findAll_short (hfront : ∀ c ∈ front, isDecimal c = false)
    (hlast : ∀ c, front.getLast? = some c → c ≠ '+' ∧ c ≠ '-') (h : IsAmount sign whole fraction)
    (hlen : whole.length ≤ 3) : ∃ m : Match,
      Pattern.printedAmountAnywhere.findAll (front ++ amountText sign whole fraction) = [m] ∧
      groupText m .amount = amountText sign whole fraction := by
  let c : Match := ⟨front.reverse ++ [], amountText sign whole fraction, []⟩
  let f : Match := c.past (amountText sign whole fraction) []
  let m : Match := { f with groups := (.amount, amountText sign whole fraction) :: f.groups }
  have htext : c.textTo f = amountText sign whole fraction :=
    Cursor.textTo_of_after (List.append_nil _).symm rfl
  have hbefore : c.before.head?.any isDecimal = false := by
    change (front.reverse ++ []).head?.any isDecimal = false
    rw [List.append_nil, List.head?_reverse]
    cases hl : front.getLast? with
    | none => rfl
    | some x => exact hfront x (List.mem_of_getLast? hl)
  have hmem : m ∈ Pattern.printedAmountAnywhere.run c :=
    mem_run_anywhere.mpr ⟨hbefore, f, run_printedAmount h hlen (List.append_nil _).symm, rfl,
      by rw [htext]⟩
  have honly : ∀ e ∈ Pattern.printedAmountAnywhere.run c, e = m := by
    intro e he
    obtain ⟨-, g, hg, -, rfl⟩ := mem_run_anywhere.mp he
    obtain ⟨-, rfl⟩ := mem_run_printedAmount_amount h rfl hg
    change { f with groups := (Group.amount, c.textTo f) :: f.groups } = m
    rw [htext]
  have hsearch : Pattern.printedAmountAnywhere.searchFrom [] (front ++ amountText sign whole fraction) =
      Pattern.printedAmountAnywhere.searchFrom (front.reverse ++ []) (amountText sign whole fraction) :=
    searchFrom_skip fun u x v huv => run_anywhere_front hfront hlast _ huv _
  rw [searchFrom_of_head (head?_eq_of_only hmem honly)] at hsearch
  refine ⟨m, findAll_eq_singleton hsearch ?_ rfl ?_, rfl⟩
  · simp [amountText]
  · -- nothing is left to read
    refine List.eq_nil_iff_forall_not_mem.mpr fun e he => ?_
    obtain ⟨-, g, hg, -⟩ := mem_run_anywhere.mp he
    obtain ⟨_, digits, _, heq, -, ⟨hpos, -⟩, -⟩ := mem_run_printedAmount hg
    have hlength := congrArg List.length heq
    simp only [List.length_append, List.length_nil] at hlength
    omega

/-- An amount of four or more digits is no amount of the line. -/
theorem findAll_long (h : IsAmount sign whole fraction) (hlong : 3 < whole.length) :
    Pattern.printedAmountAnywhere.findAll (amountText sign whole fraction) = [] := by
  have hsearch : Pattern.printedAmountAnywhere.searchFrom [] (amountText sign whole fraction ++ []) =
      Pattern.printedAmountAnywhere.searchFrom ((amountText sign whole fraction).reverse ++ []) [] :=
    searchFrom_skip fun u x v huv => by simpa using run_anywhere_long h hlong huv []
  rw [List.append_nil] at hsearch
  refine findAll_eq_nil (hsearch.trans (searchFrom_nil ?_))
  refine List.eq_nil_iff_forall_not_mem.mpr fun e he => ?_
  obtain ⟨-, g, hg, -⟩ := mem_run_anywhere.mp he
  obtain ⟨_, digits, _, heq, -, ⟨hpos, -⟩, -⟩ := mem_run_printedAmount hg
  have hlength := congrArg List.length heq
  simp only [List.length_append, List.length_nil] at hlength
  omega

end

/-! ## Reading amounts back -/

/-- The euros of an amount have at most three digits. -/
theorem euros_length_le_iff (cents : Int) :
    (decimal (cents.natAbs / 100)).length ≤ 3 ↔ cents.natAbs < 100000 := by
  rw [decimal_length_le_iff (by decide)]
  omega

/-- The amount of a line that ends in a text of `_format_cents`, below a thousand euros. -/
theorem amountFields_formatCents {front : Text} (hfront : ∀ c ∈ front, isDecimal c = false)
    (hlast : ∀ c, front.getLast? = some c → c ≠ '+' ∧ c ≠ '-') {cents : Int}
    (hcents : cents.natAbs < 100000) (frame : RCHFrame) (budget : SemanticBudget)
    (hroom : budget.used + 1 ≤ budget.limit) :
    (amountFields (front ++ formatCents cents) frame).run budget =
      ([{ raw := formatCents cents, cents := cents, source := frame.source }],
        budget.spend 1 hroom) := by
  obtain ⟨m, hm, hgroup⟩ := findAll_short hfront hlast (formatCents_isAmount cents)
    ((euros_length_le_iff cents).mpr hcents)
  rw [← formatCents_eq] at hm hgroup
  rw [amountFields, hm, amountFieldsLoop]
  change StateT.run (if budget.limit ≤ budget.used then _ else _) budget = _
  rw [if_neg (by omega), hgroup, parsePrintedAmount_formatCents]
  change StateT.run (do
    if ← reserve 1 frame then
      let rest ← amountFieldsLoop frame []
      return { raw := formatCents cents, cents := cents, source := frame.source } :: rest
    else amountFieldsLoop frame []) budget = _
  have hreserve : (reserve 1 frame).run budget = (true, budget.spend 1 hroom) := by
    simp only [reserve, Spend.reserve, StateT.run, dif_pos hroom]
  rw [StateT.run_bind, hreserve]
  rfl

/-- **Amounts are read back below a thousand euros, and only there.** -/
theorem amounts_read_back_iff (cents : Int) :
    (parsePrintedAmount (formatCents cents) = some cents ∧
      ∀ (frame : RCHFrame) (budget : SemanticBudget), budget.used < budget.limit →
        ∃ amount, ((amountFields (formatCents cents) frame).run budget).1 = [amount] ∧
          amount.cents = cents) ↔ cents.natAbs < 100000 := by
  constructor
  · rintro ⟨-, hall⟩
    by_contra hlarge
    have hlong : 3 < (decimal (cents.natAbs / 100)).length :=
      Nat.not_le.mp (mt (euros_length_le_iff cents).mp hlarge)
    obtain ⟨amount, hamount, -⟩ := hall (.ofRaw 1 1 0 []) (.new 1) Nat.zero_lt_one
    rw [amountFields, formatCents_eq, findAll_long (formatCents_isAmount cents) hlong] at hamount
    exact absurd hamount (List.cons_ne_nil _ _).symm
  · intro hcents
    refine ⟨parsePrintedAmount_formatCents cents, fun frame budget hroom => ?_⟩
    have hnone : ∀ c ∈ ([] : Text), isDecimal c = false := fun _ hc => absurd hc List.not_mem_nil
    rw [← List.nil_append (formatCents cents),
      amountFields_formatCents hnone nofun hcents frame budget hroom]
    exact ⟨_, rfl, rfl⟩

/-- A thousand euros are written without a dot and not found again. -/
theorem amounts_not_read_back :
    ¬ ∀ cents : Int, parsePrintedAmount (formatCents cents) = some cents ∧
      ∀ (frame : RCHFrame) (budget : SemanticBudget), budget.used < budget.limit →
        ∃ amount, ((amountFields (formatCents cents) frame).run budget).1 = [amount] ∧
          amount.cents = cents := by
  intro hall
  obtain ⟨amount, hamount, -⟩ := (hall 100000).2 (.ofRaw 1 1 0 []) (.new 1) Nat.zero_lt_one
  have hnone : ((amountFields (formatCents 100000) (.ofRaw 1 1 0 [])).run (.new 1)).1 = [] := by
    decide +kernel
  exact absurd (hamount.symm.trans hnone) (List.cons_ne_nil _ _)

end RchProxy
