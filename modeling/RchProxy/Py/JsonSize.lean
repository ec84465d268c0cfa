import RchProxy.Py.Decimal
import RchProxy.Py.JsonRoundTrip

/-!
# The texts `json.dumps` writes

Which characters they hold, and how long their UTF-8 encoding is at most (`weight`): a text takes six
bytes for each of its characters, an integer what the digit limit of `int.__repr__` allows.
-/

namespace Py.Json

variable {style : Style} {depth : Nat}

/-! ## Characters -/

/-- A character of a layout, or one that needs no escape. -/
def Written (style : Style) (c : Char) : Prop := 32 ≤ c.toNat ∨ c = '\n' ∧ style ≠ .compact

theorem lowerHex_ge : ∀ n < 16, 32 ≤ (lowerHex n).toNat := by decide

theorem escapeChar_ge (c : Char) : ∀ d ∈ escapeChar c, 32 ≤ d.toNat := by
  intro d hd
  unfold escapeChar at hd
  iterate 7
    split at hd
    · rcases List.mem_pair.mp hd with rfl | rfl <;> decide
  split at hd
  · next h =>
    simp only [List.mem_cons, List.not_mem_nil, or_false] at hd
    rcases hd with rfl | rfl | rfl | rfl | rfl | rfl
    · decide
    · decide
    · decide
    · decide
    · exact lowerHex_ge _ (by omega)
    · exact lowerHex_ge _ (by omega)
  · next h =>
    rw [List.mem_singleton.mp hd]
    omega

theorem quote_ge (s : Text) : ∀ c ∈ quote s, 32 ≤ c.toNat := by
  intro c hc
  simp only [quote, List.mem_cons, List.mem_append, List.mem_flatMap, List.not_mem_nil,
    or_false] at hc
  rcases hc with rfl | ⟨d, -, hd⟩ | rfl
  · decide
  · exact escapeChar_ge d c hd
  · decide

theorem newline_written (style : Style) (depth : Nat) : ∀ c ∈ style.newline depth, Written style c := by
  cases style with
  | compact => simp [Style.newline]
  | indented k =>
    intro c hc
    rcases List.mem_cons.mp hc with rfl | hc
    · exact .inr ⟨rfl, by simp⟩
    · rw [List.eq_of_mem_replicate hc]; exact .inl (by decide)

theorem keySeparator_written (style : Style) : ∀ c ∈ style.keySeparator, Written style c := by
  cases style with
  | compact => intro c hc; rw [List.mem_singleton.mp hc]; exact .inl (by decide)
  | indented k => intro c hc; rcases List.mem_pair.mp hc with rfl | rfl <;> exact .inl (by decide)

theorem isDigit_ge {c : Char} (h : c.isDigit) : 32 ≤ c.toNat := by
  simp only [Char.isDigit, Bool.and_eq_true, decide_eq_true_eq, UInt32.le_iff_toNat_le] at h
  exact le_trans (by decide) h.1

theorem intRepr_written {n : Int} {t : Text} (h : intRepr n = .ok t) : ∀ c ∈ t, Written style c := by
  unfold intRepr at h
  split at h
  · cases h
    intro c hc
    have hc : c = '-' ∨ c ∈ decimal n.natAbs := by
      split at hc
      · exact List.mem_cons.mp hc
      · exact .inr hc
    rcases hc with rfl | hc
    · exact .inl (by decide)
    · exact .inl (isDigit_ge (decimal_isDigit hc))
  · cases h

theorem isDecimal_written {literal : Text} (h : IsDecimal literal) :
    ∀ c ∈ literal, Written style c := by
  obtain ⟨whole, fraction, rfl, -, hd⟩ := h
  intro c hc
  rcases List.mem_append.mp hc with hc | hc
  · exact .inl (isDigit_ge (decimal_isDigit hc))
  · rcases List.mem_cons.mp hc with rfl | hc
    · exact .inl (by decide)
    · exact .inl (isDigit_ge (hd c hc))

/-- A character below 32 is written by the layout only. -/
theorem Written.append {a b : Text} (ha : ∀ c ∈ a, Written style c) (hb : ∀ c ∈ b, Written style c) :
    ∀ c ∈ a ++ b, Written style c := fun c hc =>
  (List.mem_append.mp hc).elim (ha c) (hb c)

theorem Written.cons {c : Char} {a : Text} (hc : 32 ≤ c.toNat) (ha : ∀ c ∈ a, Written style c) :
    ∀ d ∈ c :: a, Written style d := by
  intro d hd
  rcases List.mem_cons.mp hd with rfl | hd
  · exact .inl hc
  · exact ha d hd

theorem quote_written (s : Text) : ∀ c ∈ quote s, Written style c := fun c hc =>
  .inl (quote_ge s c hc)

mutual

theorem print_written : ∀ (v : Json) (depth : Nat) (t : Text), print style depth v = .ok t →
    Plain v → ∀ c ∈ t, Written style c
  | .null, _, _, h, _ => by
    cases h
    exact .cons (by decide) (.cons (by decide) (.cons (by decide) (.cons (by decide) nofun)))
  | .bool true, _, _, h, _ => by
    cases h
    exact .cons (by decide) (.cons (by decide) (.cons (by decide) (.cons (by decide) nofun)))
  | .bool false, _, _, h, _ => by
    cases h
    exact .cons (by decide) (.cons (by decide) (.cons (by decide) (.cons (by decide)
      (.cons (by decide) nofun))))
  | .int _, _, _, h, _ => intRepr_written h
  | .float _, _, _, h, hv => by
    cases h
    exact isDecimal_written hv
  | .str s, _, _, h, _ => by
    cases h
    exact quote_written s
  | .arr [], _, _, h, _ => by
    cases h
    exact .cons (by decide) (.cons (by decide) nofun)
  | .obj [], _, _, h, _ => by
    cases h
    exact .cons (by decide) (.cons (by decide) nofun)
  | .arr (x :: xs), depth, t, h, hv => by
    simp only [print, bind_eq_ok] at h
    obtain ⟨u, hu, us, hus, h⟩ := h
    cases h
    exact .cons (by decide) (.append (.append (.append (.append (newline_written _ _)
      (print_written x _ u hu hv.1)) (printItems_written xs _ us hus hv.2)) (newline_written _ _))
      (.cons (by decide) nofun))
  | .obj ((key, x) :: fields), depth, t, h, hv => by
    simp only [print, bind_eq_ok] at h
    obtain ⟨u, hu, us, hus, h⟩ := h
    cases h
    exact .cons (by decide) (.append (.append (.append (.append (.append (.append
      (newline_written _ _) (quote_written key)) (keySeparator_written _))
      (print_written x _ u hu hv.1)) (printFields_written fields _ us hus hv.2))
      (newline_written _ _)) (.cons (by decide) nofun))

theorem printItems_written : ∀ (xs : List Json) (depth : Nat) (t : Text),
    printItems style depth xs = .ok t → PlainItems xs → ∀ c ∈ t, Written style c
  | [], _, _, h, _ => by
    cases h
    exact nofun
  | x :: xs, depth, t, h, hv => by
    simp only [printItems, bind_eq_ok] at h
    obtain ⟨u, hu, us, hus, h⟩ := h
    cases h
    exact .cons (by decide) (.append (.append (newline_written _ _)
      (print_written x _ u hu hv.1)) (printItems_written xs _ us hus hv.2))

theorem printFields_written : ∀ (fields : List (Text × Json)) (depth : Nat) (t : Text),
    printFields style depth fields = .ok t → PlainFields fields → ∀ c ∈ t, Written style c
  | [], _, _, h, _ => by
    cases h
    exact nofun
  | (key, x) :: fields, depth, t, h, hv => by
    simp only [printFields, bind_eq_ok] at h
    obtain ⟨u, hu, us, hus, h⟩ := h
    cases h
    exact .cons (by decide) (.append (.append (.append (.append (newline_written _ _)
      (quote_written key)) (keySeparator_written _)) (print_written x _ u hu hv.1))
      (printFields_written fields _ us hus hv.2))

end

/-- A compact text is one line. -/
theorem newline_not_mem_dumps {v : Json} {t : Text} (h : dumps .compact v = .ok t) (hv : Plain v) :
    '\n' ∉ t := by
  intro hn
  rcases print_written v.sortKeys 0 t h (plain_sortKeys v hv) _ hn with hge | ⟨-, hne⟩
  · exact absurd hge (by decide)
  · exact hne rfl

/-- No text has a carriage return, so reading it back as a text file leaves it as it is. -/
theorem return_not_mem_dumps {v : Json} {t : Text} (h : dumps style v = .ok t) (hv : Plain v) :
    '\r' ∉ t := by
  intro hn
  rcases print_written v.sortKeys 0 t h (plain_sortKeys v hv) _ hn with hge | ⟨heq, -⟩
  · exact absurd hge (by decide)
  · exact absurd heq (by decide)

/-! ## Sizes -/

theorem encodeUtf8_length_ascii {t : Text} (h : ∀ c ∈ t, c.toNat < 128) :
    (encodeUtf8 t).length = t.length := by
  induction t with
  | nil => rfl
  | cons c t ih =>
    have hc : c.utf8Size = 1 :=
      Char.utf8Size_eq_one_iff.mpr (UInt32.le_iff_toNat_le.mpr
        (Nat.le_of_lt_succ (h c List.mem_cons_self)))
    have := ih fun d hd => h d (List.mem_cons_of_mem c hd)
    simp only [encodeUtf8, List.flatMap_cons, List.length_append, String.length_utf8EncodeChar,
      List.length_cons] at this ⊢
    omega

theorem lowerHex_lt : ∀ n < 16, (lowerHex n).toNat < 128 := by decide

theorem escapeChar_length (c : Char) : (encodeUtf8 (escapeChar c)).length ≤ 6 := by
  unfold escapeChar
  iterate 7
    split
    · decide
  split
  · next h =>
    rw [encodeUtf8_length_ascii]
    · exact le_rfl
    · intro d hd
      simp only [List.mem_cons, List.not_mem_nil, or_false] at hd
      rcases hd with rfl | rfl | rfl | rfl | rfl | rfl
      · decide
      · decide
      · decide
      · decide
      · exact lowerHex_lt _ (by omega)
      · exact lowerHex_lt _ (by omega)
  · exact (encodeUtf8_length_le [c]).trans (by simp)

theorem quote_length (s : Text) : (encodeUtf8 (quote s)).length ≤ 6 * s.length + 2 := by
  have h : (encodeUtf8 (s.flatMap escapeChar)).length ≤ 6 * s.length := by
    induction s with
    | nil => exact le_rfl
    | cons c s ih =>
      have := escapeChar_length c
      rw [List.flatMap_cons, encodeUtf8_append, List.length_append, List.length_cons]
      omega
  have hq : quote s = ['"'] ++ s.flatMap escapeChar ++ ['"'] := by simp [quote]
  have h1 : (encodeUtf8 ['"']).length = 1 := by decide
  rw [hq, encodeUtf8_append, encodeUtf8_append, List.length_append, List.length_append]
  omega

theorem newline_length (style : Style) (depth : Nat) :
    (encodeUtf8 (style.newline depth)).length = (style.newline depth).length := by
  refine encodeUtf8_length_ascii ?_
  cases style with
  | compact => simp [Style.newline]
  | indented k =>
    intro c hc
    rcases List.mem_cons.mp hc with rfl | hc
    · decide
    · rw [List.eq_of_mem_replicate hc]; decide

theorem keySeparator_length (style : Style) : (encodeUtf8 style.keySeparator).length ≤ 2 := by
  cases style with
  | compact => decide
  | indented k => exact show (encodeUtf8 [':', ' ']).length ≤ 2 by decide

theorem intRepr_length {n : Int} {t : Text} (h : intRepr n = .ok t) :
    (encodeUtf8 t).length ≤ maxStrDigits + 1 := by
  have hascii : ∀ c ∈ decimal n.natAbs, c.toNat < 128 := by
    intro c hc
    have hd := decimal_isDigit hc
    simp only [Char.isDigit, Bool.and_eq_true, decide_eq_true_eq, UInt32.le_iff_toNat_le] at hd
    exact lt_of_le_of_lt hd.2 (by decide)
  unfold intRepr at h
  split at h
  · next hlen =>
    cases h
    split
    · rw [encodeUtf8_length_ascii, List.length_cons]
      · omega
      · intro c hc
        rcases List.mem_cons.mp hc with rfl | hc
        · decide
        · exact hascii c hc
    · rw [encodeUtf8_length_ascii hascii]
      omega
  · cases h

mutual

/-- How many bytes a written value takes at most. -/
def weight (style : Style) (depth : Nat) : Json → Nat
  | .null => 4
  | .bool _ => 5
  | .int _ => maxStrDigits + 1
  | .float literal => 4 * literal.length
  | .str s => 6 * s.length + 2
  | .arr items => 2 + (style.newline depth).length + weightItems style (depth + 1) items
  | .obj fields => 2 + (style.newline depth).length + weightFields style (depth + 1) fields

/-- `weight`, for the items of an array. -/
def weightItems (style : Style) (depth : Nat) : List Json → Nat
  | [] => 0
  | x :: xs => 1 + (style.newline depth).length + weight style depth x + weightItems style depth xs

/-- `weight`, for the pairs of an object. -/
def weightFields (style : Style) (depth : Nat) : List (Text × Json) → Nat
  | [] => 0
  | (key, x) :: fields => 1 + (style.newline depth).length + (6 * key.length + 2) + 2 +
      weight style depth x + weightFields style depth fields

end

theorem encodeUtf8_cons_length (c : Char) (t : Text) (h : c.toNat < 128) :
    (encodeUtf8 (c :: t)).length = 1 + (encodeUtf8 t).length := by
  rw [← List.singleton_append, encodeUtf8_append, List.length_append,
    encodeUtf8_length_ascii (by simpa using h)]
  rfl

mutual

theorem print_length : ∀ (v : Json) (depth : Nat) (t : Text), print style depth v = .ok t →
    (encodeUtf8 t).length ≤ weight style depth v
  | .null, _, _, h => by cases h; exact show (encodeUtf8 "null".toList).length ≤ 4 by decide
  | .bool true, _, _, h => by
    cases h
    exact show (encodeUtf8 "true".toList).length ≤ 5 by decide
  | .bool false, _, _, h => by
    cases h
    exact show (encodeUtf8 "false".toList).length ≤ 5 by decide
  | .int _, _, _, h => intRepr_length h
  | .float literal, _, _, h => by cases h; exact encodeUtf8_length_le literal
  | .str s, _, _, h => by cases h; exact quote_length s
  | .arr [], _, _, h => by
    cases h
    have h2 : (encodeUtf8 "[]".toList).length = 2 := by decide
    simp only [weight, weightItems, h2]
    omega
  | .obj [], _, _, h => by
    cases h
    have h2 : (encodeUtf8 "\x7b\x7d".toList).length = 2 := by decide
    simp only [weight, weightFields, h2]
    omega
  | .arr (x :: xs), depth, t, h => by
    simp only [print, bind_eq_ok] at h
    obtain ⟨u, hu, us, hus, h⟩ := h
    cases h
    have hx := print_length x (depth + 1) u hu
    have hxs := printItems_length xs (depth + 1) us hus
    have h1 : (encodeUtf8 [']']).length = 1 := by decide
    rw [encodeUtf8_cons_length _ _ (by decide)]
    simp only [encodeUtf8_append, List.length_append, newline_length, weight, weightItems, h1]
    omega
  | .obj ((key, x) :: fields), depth, t, h => by
    simp only [print, bind_eq_ok] at h
    obtain ⟨u, hu, us, hus, h⟩ := h
    cases h
    have hx := print_length x (depth + 1) u hu
    have hxs := printFields_length fields (depth + 1) us hus
    have hkey := quote_length key
    have hsep := keySeparator_length style
    have h1 : (encodeUtf8 ['}']).length = 1 := by decide
    rw [encodeUtf8_cons_length _ _ (by decide)]
    simp only [encodeUtf8_append, List.length_append, newline_length, weight, weightFields, h1]
    omega

theorem printItems_length : ∀ (xs : List Json) (depth : Nat) (t : Text),
    printItems style depth xs = .ok t → (encodeUtf8 t).length ≤ weightItems style depth xs
  | [], _, _, h => by cases h; exact le_rfl
  | x :: xs, depth, t, h => by
    simp only [printItems, bind_eq_ok] at h
    obtain ⟨u, hu, us, hus, h⟩ := h
    cases h
    have hx := print_length x depth u hu
    have hxs := printItems_length xs depth us hus
    rw [encodeUtf8_cons_length _ _ (by decide)]
    simp only [encodeUtf8_append, List.length_append, newline_length, weightItems]
    omega

theorem printFields_length : ∀ (fields : List (Text × Json)) (depth : Nat) (t : Text),
    printFields style depth fields = .ok t → (encodeUtf8 t).length ≤ weightFields style depth fields
  | [], _, _, h => by cases h; exact le_rfl
  | (key, x) :: fields, depth, t, h => by
    simp only [printFields, bind_eq_ok] at h
    obtain ⟨u, hu, us, hus, h⟩ := h
    cases h
    have hx := print_length x depth u hu
    have hxs := printFields_length fields depth us hus
    have hkey := quote_length key
    have hsep := keySeparator_length style
    rw [encodeUtf8_cons_length _ _ (by decide)]
    simp only [encodeUtf8_append, List.length_append, newline_length, weightFields]
    omega

end

theorem weightFields_eq_sum (fields : List (Text × Json)) :
    weightFields style depth fields = (fields.map fun field => 1 + (style.newline depth).length +
      (6 * field.1.length + 2) + 2 + weight style depth field.2).sum := by
  induction fields with
  | nil => rfl
  | cons field fields ih =>
    obtain ⟨key, x⟩ := field
    rw [weightFields, ih, List.map_cons, List.sum_cons]

mutual

theorem weight_sortKeys : ∀ (v : Json) (depth : Nat),
    weight style depth v.sortKeys = weight style depth v
  | .null, _ => rfl
  | .bool _, _ => rfl
  | .int _, _ => rfl
  | .float _, _ => rfl
  | .str _, _ => rfl
  | .arr items, depth => by
    rw [sortKeys, weight, weight, weightItems_sortItems items (depth + 1)]
  | .obj fields, depth => by
    rw [sortKeys, weight, weight, weightFields_eq_sum,
      ((sortPairs_perm (sortFields fields)).map _).sum_nat, ← weightFields_eq_sum,
      weightFields_sortFields fields (depth + 1)]

theorem weightItems_sortItems : ∀ (items : List Json) (depth : Nat),
    weightItems style depth (sortItems items) = weightItems style depth items
  | [], _ => rfl
  | x :: xs, depth => by
    rw [sortItems, weightItems, weightItems, weight_sortKeys x depth,
      weightItems_sortItems xs depth]

theorem weightFields_sortFields : ∀ (fields : List (Text × Json)) (depth : Nat),
    weightFields style depth (sortFields fields) = weightFields style depth fields
  | [], _ => rfl
  | (key, x) :: fields, depth => by
    rw [sortFields, weightFields, weightFields, weight_sortKeys x depth,
      weightFields_sortFields fields depth]

end

/-- A written text is as long as its weight at most. -/
theorem dumps_length {v : Json} {t : Text} (h : dumps style v = .ok t) :
    (encodeUtf8 t).length ≤ weight style 0 v := by
  rw [← weight_sortKeys]
  exact print_length v.sortKeys 0 t h

/-! ## What can be written -/

mutual

/-- No integer of the value is too long for `str`. -/
def Writable : Json → Bool
  | .int n => (decimal n.natAbs).length ≤ maxStrDigits
  | .arr items => WritableItems items
  | .obj fields => WritableFields fields
  | _ => true

/-- `Writable`, for the items of an array. -/
def WritableItems : List Json → Bool
  | [] => true
  | x :: xs => Writable x && WritableItems xs

/-- `Writable`, for the values of an object. -/
def WritableFields : List (Text × Json) → Bool
  | [] => true
  | (_, x) :: fields => Writable x && WritableFields fields

end

mutual

theorem print_ok : ∀ (v : Json) (depth : Nat), v.Writable = true → ∃ t, print style depth v = .ok t
  | .null, _, _ => ⟨_, rfl⟩
  | .bool b, _, _ => by cases b <;> exact ⟨_, rfl⟩
  | .int n, _, h => by
    rw [Writable, decide_eq_true_eq] at h
    rw [print, intRepr, if_pos h]
    exact ⟨_, rfl⟩
  | .float _, _, _ => ⟨_, rfl⟩
  | .str _, _, _ => ⟨_, rfl⟩
  | .arr [], _, _ => ⟨_, rfl⟩
  | .arr (x :: xs), depth, h => by
    rw [Writable, WritableItems, Bool.and_eq_true] at h
    obtain ⟨t, ht⟩ := print_ok x (depth + 1) h.1
    obtain ⟨ts, hts⟩ := printItems_ok xs (depth + 1) h.2
    rw [print, ht, hts]
    exact ⟨_, rfl⟩
  | .obj [], _, _ => ⟨_, rfl⟩
  | .obj ((_, x) :: fields), depth, h => by
    rw [Writable, WritableFields, Bool.and_eq_true] at h
    obtain ⟨t, ht⟩ := print_ok x (depth + 1) h.1
    obtain ⟨ts, hts⟩ := printFields_ok fields (depth + 1) h.2
    rw [print, ht, hts]
    exact ⟨_, rfl⟩

theorem printItems_ok : ∀ (items : List Json) (depth : Nat), WritableItems items = true →
    ∃ ts, printItems style depth items = .ok ts
  | [], _, _ => ⟨_, rfl⟩
  | x :: xs, depth, h => by
    rw [WritableItems, Bool.and_eq_true] at h
    obtain ⟨t, ht⟩ := print_ok x depth h.1
    obtain ⟨ts, hts⟩ := printItems_ok xs depth h.2
    rw [printItems, ht, hts]
    exact ⟨_, rfl⟩

theorem printFields_ok : ∀ (fields : List (Text × Json)) (depth : Nat), WritableFields fields = true →
    ∃ ts, printFields style depth fields = .ok ts
  | [], _, _ => ⟨_, rfl⟩
  | (_, x) :: fields, depth, h => by
    rw [WritableFields, Bool.and_eq_true] at h
    obtain ⟨t, ht⟩ := print_ok x depth h.1
    obtain ⟨ts, hts⟩ := printFields_ok fields depth h.2
    rw [printFields, ht, hts]
    exact ⟨_, rfl⟩

end

theorem writableFields_eq_all (fields : List (Text × Json)) :
    WritableFields fields = fields.all fun field => field.2.Writable := by
  induction fields with
  | nil => rfl
  | cons field fields ih => rw [WritableFields, ih, List.all_cons]

mutual

theorem writable_sortKeys : ∀ v : Json, v.sortKeys.Writable = v.Writable
  | .null => rfl
  | .bool _ => rfl
  | .int _ => rfl
  | .float _ => rfl
  | .str _ => rfl
  | .arr items => by rw [sortKeys, Writable, Writable, writableItems_sortItems items]
  | .obj fields => by
    rw [sortKeys, Writable, Writable, writableFields_eq_all,
      (sortPairs_perm (sortFields fields)).all_eq, ← writableFields_eq_all,
      writableFields_sortFields fields]

theorem writableItems_sortItems : ∀ items : List Json,
    WritableItems (sortItems items) = WritableItems items
  | [] => rfl
  | x :: xs => by
    rw [sortItems, WritableItems, WritableItems, writable_sortKeys x, writableItems_sortItems xs]

theorem writableFields_sortFields : ∀ fields : List (Text × Json),
    WritableFields (sortFields fields) = WritableFields fields
  | [] => rfl
  | (_, x) :: fields => by
    rw [sortFields, WritableFields, WritableFields, writable_sortKeys x,
      writableFields_sortFields fields]

end

mutual

theorem writable_of_print : ∀ (v : Json) (depth : Nat) (t : Text), print style depth v = .ok t →
    v.Writable = true
  | .null, _, _, _ => rfl
  | .bool _, _, _, _ => rfl
  | .int n, _, _, h => by
    rw [Writable, decide_eq_true_eq]
    by_contra hlong
    rw [print, intRepr, if_neg hlong] at h
    cases h
  | .float _, _, _, _ => rfl
  | .str _, _, _, _ => rfl
  | .arr [], _, _, _ => rfl
  | .obj [], _, _, _ => rfl
  | .arr (x :: xs), depth, t, h => by
    simp only [print, bind_eq_ok] at h
    obtain ⟨u, hu, us, hus, -⟩ := h
    rw [Writable, WritableItems, writable_of_print x _ u hu, writableItems_of_print xs _ us hus]
    rfl
  | .obj ((key, x) :: fields), depth, t, h => by
    simp only [print, bind_eq_ok] at h
    obtain ⟨u, hu, us, hus, -⟩ := h
    rw [Writable, WritableFields, writable_of_print x _ u hu,
      writableFields_of_print fields _ us hus]
    rfl

theorem writableItems_of_print : ∀ (xs : List Json) (depth : Nat) (t : Text),
    printItems style depth xs = .ok t → WritableItems xs = true
  | [], _, _, _ => rfl
  | x :: xs, depth, t, h => by
    simp only [printItems, bind_eq_ok] at h
    obtain ⟨u, hu, us, hus, -⟩ := h
    rw [WritableItems, writable_of_print x _ u hu, writableItems_of_print xs _ us hus]
    rfl

theorem writableFields_of_print : ∀ (fields : List (Text × Json)) (depth : Nat) (t : Text),
    printFields style depth fields = .ok t → WritableFields fields = true
  | [], _, _, _ => rfl
  | (key, x) :: fields, depth, t, h => by
    simp only [printFields, bind_eq_ok] at h
    obtain ⟨u, hu, us, hus, -⟩ := h
    rw [WritableFields, writable_of_print x _ u hu, writableFields_of_print fields _ us hus]
    rfl

end

/-- What was written had no integer that is too long. -/
theorem writable_of_dumps {v : Json} {t : Text} (h : dumps style v = .ok t) : v.Writable = true :=
  (writable_sortKeys v).symm.trans (writable_of_print v.sortKeys 0 t h)

theorem writable_nat {n : Nat} (h : n < 10 ^ 10) : (int n).Writable = true := by
  rw [Writable, decide_eq_true_eq, Int.natAbs_natCast]
  exact ((decimal_length_le_iff (by decide)).mpr h).trans (by decide)

/-- A value is written unless one of its integers is too long. -/
theorem dumps_ok {v : Json} (h : v.Writable = true) : ∃ t, dumps style v = .ok t :=
  print_ok v.sortKeys 0 ((writable_sortKeys v).trans h)

end Py.Json
