import RchProxy.Py.Str
import Mathlib.Data.List.Infix

/-!
# What a text contains

`t in s`, through line ends, `strip` and `upper`: a marker without line ends, that neither starts nor
ends with white space, is found in joined lines exactly where it is found in one of them.
-/

namespace Py

theorem contains_iff (s t : Text) : contains s t = true ↔ t <:+: s := by
  simp only [contains, startsWith, List.any_eq_true, List.mem_tails, List.isPrefixOf_iff_prefix]
  constructor
  · rintro ⟨u, hu, ht⟩
    exact List.infix_iff_prefix_suffix.mpr ⟨u, ht, hu⟩
  · intro h
    obtain ⟨u, ht, hu⟩ := List.infix_iff_prefix_suffix.mp h
    exact ⟨u, hu, ht⟩

/-! ## Separators -/

/-- A marker at the front ends before a separator that is not in it. -/
theorem prefix_of_append_cons {α : Type} {m a b : List α} {c : α} (hc : c ∉ m)
    (h : m <+: a ++ c :: b) : m <+: a := by
  induction a generalizing m with
  | nil =>
    cases m with
    | nil => exact List.nil_prefix
    | cons x m =>
      obtain ⟨rfl, -⟩ := List.cons_prefix_cons.mp h
      exact absurd List.mem_cons_self hc
  | cons y a ih =>
    cases m with
    | nil => exact List.nil_prefix
    | cons x m =>
      obtain ⟨rfl, hm⟩ := List.cons_prefix_cons.mp h
      exact List.cons_prefix_cons.mpr ⟨rfl, ih (fun hc' => hc (List.mem_cons_of_mem _ hc')) hm⟩

/-- A separator that is not in the marker keeps the two sides apart. -/
theorem infix_append_cons {α : Type} {m a b : List α} {c : α} (hc : c ∉ m) :
    m <:+: a ++ c :: b ↔ m <:+: a ∨ m <:+: b := by
  constructor
  · induction a with
    | nil =>
      intro h
      rcases List.infix_cons_iff.mp h with h | h
      · exact .inl (prefix_of_append_cons hc h).isInfix
      · exact .inr h
    | cons x a ih =>
      intro h
      rcases List.infix_cons_iff.mp h with h | h
      · exact .inl (prefix_of_append_cons hc h).isInfix
      · exact (ih h).imp_left fun h => h.trans (List.suffix_cons x a).isInfix
  · rintro (h | h)
    · exact h.trans (List.prefix_append a _).isInfix
    · exact h.trans ((List.suffix_cons c b).trans (List.suffix_append a _)).isInfix

theorem infix_intercalate {α : Type} {m : List α} {c : α} (hc : c ∉ m) (hm : m ≠ [])
    (ts : List (List α)) : m <:+: [c].intercalate ts ↔ ∃ t ∈ ts, m <:+: t := by
  induction ts with
  | nil => simp [hm]
  | cons t ts ih =>
    cases ts with
    | nil => simp
    | cons u ts =>
      have hcons : [c].intercalate (t :: u :: ts) = t ++ c :: [c].intercalate (u :: ts) := by
        simp [List.intercalate]
      rw [hcons, infix_append_cons hc, ih]
      simp

/-! ## Margins -/

/-- A margin without the first element of the marker does not matter. -/
theorem infix_margin_left {α : Type} {m l u : List α} {x : α} (hx : x ∉ l) :
    x :: m <:+: l ++ u ↔ x :: m <:+: u := by
  induction l with
  | nil => rfl
  | cons y l ih =>
    have hy : x ≠ y := fun h => hx (h ▸ List.mem_cons_self)
    rw [List.cons_append, List.infix_cons_iff, ih fun h => hx (List.mem_cons_of_mem y h),
      List.cons_prefix_cons]
    simp [hy]

theorem infix_margin_right {α : Type} {m r u : List α} {x : α} (hx : x ∉ r) :
    m ++ [x] <:+: u ++ r ↔ m ++ [x] <:+: u := by
  have h : x :: m.reverse <:+: r.reverse ++ u.reverse ↔ x :: m.reverse <:+: u.reverse :=
    infix_margin_left (by simpa using hx)
  calc m ++ [x] <:+: u ++ r ↔ (m ++ [x]).reverse <:+: (u ++ r).reverse := List.reverse_infix.symm
    _ ↔ (m ++ [x]).reverse <:+: u.reverse := by simpa using h
    _ ↔ m ++ [x] <:+: u := List.reverse_infix

/-! ## Lines -/

theorem upper_append (s t : Text) : upper (s ++ t) = upper s ++ upper t := List.flatMap_append

/-- Upper case leaves line ends where they are. -/
theorem upper_intercalate (ts : List Text) :
    upper (['\n'].intercalate ts) = ['\n'].intercalate (ts.map upper) := by
  induction ts with
  | nil => rfl
  | cons t ts ih =>
    cases ts with
    | nil => simp
    | cons u ts =>
      have hcons : ∀ v w : Text, ∀ l, ['\n'].intercalate (v :: w :: l) =
          v ++ '\n' :: ['\n'].intercalate (w :: l) := fun v w l => by simp [List.intercalate]
      rw [hcons, List.map_cons, List.map_cons, hcons, ← List.map_cons, ← ih, upper_append]
      rfl

theorem upperChar_of_isSpace {c : Char} (h : isSpace c = true) : upperChar c = [c] := by
  have hn : c.toNat ≤ 0xA0 ∧ ¬ (97 ≤ c.toNat ∧ c.toNat ≤ 122) := by
    simp only [isSpace, Bool.or_eq_true, Bool.and_eq_true, decide_eq_true_eq, beq_iff_eq] at h
    omega
  unfold upperChar
  simp only [Bool.and_eq_true, decide_eq_true_eq, beq_iff_eq, bne_iff_ne]
  rw [if_neg hn.2, if_neg (by omega), if_neg (by omega), if_neg (by omega), if_neg (by omega)]

theorem upper_of_spaces {s : Text} (h : ∀ c ∈ s, isSpace c = true) : upper s = s := by
  induction s with
  | nil => rfl
  | cons c s ih =>
    have hc := upperChar_of_isSpace (h c List.mem_cons_self)
    rw [upper, List.flatMap_cons, hc]
    exact congrArg _ (ih fun d hd => h d (List.mem_cons_of_mem c hd))

/-- A text is its stripped text between two margins. -/
theorem strip_spec (s : Text) :
    ∃ l r, s = l ++ strip s ++ r ∧ (∀ c ∈ l, isSpace c = true) ∧ ∀ c ∈ r, isSpace c = true := by
  refine ⟨s.takeWhile isSpace, ((s.dropWhile isSpace).reverse.takeWhile isSpace).reverse, ?_, ?_, ?_⟩
  · have h := List.takeWhile_append_dropWhile (p := isSpace) (l := (s.dropWhile isSpace).reverse)
    have h' := congrArg List.reverse h
    rw [List.reverse_append, List.reverse_reverse] at h'
    rw [strip, List.append_assoc, h', List.takeWhile_append_dropWhile]
  · exact fun c hc => List.all_eq_true.mp List.all_takeWhile c hc
  · exact fun c hc => List.all_eq_true.mp List.all_takeWhile c (List.mem_reverse.mp hc)

/-- A marker: no line end, and no white space at either end. -/
structure IsMarker (m : Text) : Prop where
  line : '\n' ∉ m
  first : ∃ x t, m = x :: t ∧ isSpace x = false
  last : ∃ t x, m = t ++ [x] ∧ isSpace x = false

theorem infix_upper_strip {m : Text} (hm : IsMarker m) (s : Text) :
    m <:+: upper (strip s) ↔ m <:+: upper s := by
  obtain ⟨l, r, hs, hl, hr⟩ := strip_spec s
  obtain ⟨x, t, hx, hsx⟩ := hm.first
  obtain ⟨u, y, hy, hsy⟩ := hm.last
  have houter : upper s = l ++ (upper (strip s) ++ r) := by
    conv_lhs => rw [hs]
    rw [upper_append, upper_append, upper_of_spaces hl, upper_of_spaces hr, List.append_assoc]
  have hxl : x ∉ l := fun h => by rw [hl x h] at hsx; cases hsx
  have hyr : y ∉ r := fun h => by rw [hr y h] at hsy; cases hsy
  calc m <:+: upper (strip s) ↔ m <:+: upper (strip s) ++ r := by
        rw [hy]; exact (infix_margin_right hyr).symm
    _ ↔ m <:+: upper s := by rw [houter, hx]; exact (infix_margin_left hxl).symm

/-- A marker stands in the joined lines where it stands in one of the stripped lines. -/
theorem contains_upper_lines {m : Text} (hm : IsMarker m) (ts : List Text) :
    contains (upper (['\n'].intercalate ts)) m = (ts.map fun t => upper (strip t)).any (contains · m) := by
  have hne : m ≠ [] := by
    obtain ⟨x, t, rfl, -⟩ := hm.first
    simp
  rw [Bool.eq_iff_iff, contains_iff, upper_intercalate, infix_intercalate hm.line hne]
  simp only [List.mem_map, exists_exists_and_eq_and, List.any_map, List.any_eq_true,
    Function.comp_apply, contains_iff, infix_upper_strip hm]

end Py
