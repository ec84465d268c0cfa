import RchProxy.Py.Str

/-!
# Decimal numbers

The digits `str(n)` and `f"{n:02d}"` write, and the number `int` reads off them.
-/

namespace Py

theorem isDecimal_of_isDigit {c : Char} (h : c.isDigit = true) : isDecimal c = true := by
  simp only [Char.isDigit, Bool.and_eq_true, decide_eq_true_eq, ge_iff_le] at h
  simp only [isDecimal, Bool.and_eq_true, decide_eq_true_eq]
  exact ⟨UInt32.le_iff_toNat_le.mp h.1, UInt32.le_iff_toNat_le.mp h.2⟩

theorem decimal_isDecimal {n : Nat} {c : Char} (h : c ∈ decimal n) : isDecimal c = true :=
  isDecimal_of_isDigit (Nat.isDigit_of_mem_toDigits (by decide) (by decide) h)

theorem zeroPad_isDigit {width n : Nat} {c : Char} (h : c ∈ zeroPad width n) :
    c.isDigit = true := by
  unfold zeroPad at h
  rcases List.mem_append.mp h with h | h
  · rw [List.eq_of_mem_replicate h]
    decide
  · exact Nat.isDigit_of_mem_toDigits (by decide) (by decide) h

theorem zeroPad_isDecimal {width n : Nat} {c : Char} (h : c ∈ zeroPad width n) :
    isDecimal c = true :=
  isDecimal_of_isDigit (zeroPad_isDigit h)

theorem decimal_ne_nil (n : Nat) : decimal n ≠ [] :=
  List.length_pos_iff.mp Nat.length_toDigits_pos

/-- A number with few digits is small. -/
theorem decimal_length_le_iff {n k : Nat} (hk : 0 < k) : (decimal n).length ≤ k ↔ n < 10 ^ k :=
  Nat.length_toDigits_le_iff (by decide) hk

theorem zeroPad_length {width n : Nat} (hwidth : 0 < width) (h : n < 10 ^ width) :
    (zeroPad width n).length = width := by
  have := (decimal_length_le_iff hwidth).mpr h
  rw [zeroPad, List.length_append, List.length_replicate]
  omega

theorem le_zeroPad_length (width n : Nat) : width ≤ (zeroPad width n).length := by
  rw [zeroPad, List.length_append, List.length_replicate]
  omega

/-- The number that digits stand for. -/
theorem intOfText_digits {t : Text} (h : ∀ c ∈ t, isDecimal c = true) :
    intOfText t = Nat.ofDigitChars 10 t 0 := by
  rw [Nat.ofDigitChars_eq_foldl]
  unfold intOfText
  split
  · exact absurd (h '-' List.mem_cons_self) (by decide)
  · exact absurd (h '+' List.mem_cons_self) (by decide)
  · rfl

theorem ofDigitChars_zeroPad (width n : Nat) : Nat.ofDigitChars 10 (zeroPad width n) 0 = n := by
  rw [zeroPad, Nat.ofDigitChars_append, Nat.ofDigitChars_replicate_zero, Nat.mul_zero]
  exact Nat.ofDigitChars_ten_toDigits

theorem intOfText_decimal (n : Nat) : intOfText (decimal n) = n := by
  rw [intOfText_digits fun _ => decimal_isDecimal]
  exact congrArg _ Nat.ofDigitChars_ten_toDigits

theorem intOfText_zeroPad (width n : Nat) : intOfText (zeroPad width n) = n := by
  rw [intOfText_digits fun _ => zeroPad_isDecimal, ofDigitChars_zeroPad]

/-- Padded numbers are read back, so they differ where the numbers do. -/
theorem zeroPad_injective (width : Nat) : Function.Injective (zeroPad width) := by
  intro m n h
  rw [← ofDigitChars_zeroPad width m, h, ofDigitChars_zeroPad]

/-- Two digits, the first of them below a bound. -/
theorem zeroPad_two {n k : Nat} (h : n < 10 * k) (hk : k ≤ 10) :
    ∃ a b, zeroPad 2 n = [a, b] ∧ a.isDigit = true ∧ b.isDigit = true ∧ a.toNat < 48 + k := by
  have hlength : (zeroPad 2 n).length = 2 := zeroPad_length (by decide) (by omega)
  obtain ⟨a, b, hab⟩ := List.length_eq_two.mp hlength
  have hdigit : ∀ c ∈ [a, b], c.isDigit = true := by
    rw [← hab]
    exact fun c => zeroPad_isDigit
  have ha := hdigit a List.mem_cons_self
  have hb := hdigit b (List.mem_cons_of_mem _ List.mem_cons_self)
  refine ⟨a, b, hab, ha, hb, ?_⟩
  have hvalue := ofDigitChars_zeroPad 2 n
  rw [hab, Nat.ofDigitChars_eq_foldl] at hvalue
  have hzero : '0'.toNat = 48 := rfl
  simp only [List.foldl_cons, List.foldl_nil, hzero] at hvalue
  omega

end Py
