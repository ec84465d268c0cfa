import Mathlib.Data.List.Basic

/-!
# Tilings of an interval

A list of ranges tiles `[a, c)` when they follow one another from `a` to `c` and none is empty. A
tiling is recovered from its ranges in any order, by sorting them on where they start.
-/

namespace Lib

/-- The ranges follow one another from the first bound to the second, none of them empty. -/
inductive Tiles : Nat → List (Nat × Nat) → Nat → Prop
  | nil (a : Nat) : Tiles a [] a
  | cons {a b c : Nat} {rs : List (Nat × Nat)} : a < b → Tiles b rs c → Tiles a ((a, b) :: rs) c

namespace Tiles

variable {a b c : Nat} {rs ss : List (Nat × Nat)}

theorem le (h : Tiles a rs c) : a ≤ c := by
  induction h with
  | nil => exact Nat.le_refl _
  | cons hlt _ ih => exact Nat.le_trans (Nat.le_of_lt hlt) ih

/-- A tiling grows at its end. -/
theorem snoc (h : Tiles a rs b) (hlt : b < c) : Tiles a (rs ++ [(b, c)]) c := by
  induction h with
  | nil => exact .cons hlt (.nil c)
  | cons hlt' _ ih => exact .cons hlt' (ih hlt)

/-- Every range of a tiling lies within it, and is not empty. -/
theorem bounds (h : Tiles a rs c) : ∀ r ∈ rs, a ≤ r.1 ∧ r.1 < r.2 ∧ r.2 ≤ c := by
  induction h with
  | nil => simp
  | cons hlt ht ih =>
    intro r hr
    rcases List.mem_cons.mp hr with rfl | hr
    · exact ⟨Nat.le_refl _, hlt, ht.le⟩
    · obtain ⟨h1, h2, h3⟩ := ih r hr
      exact ⟨by omega, h2, h3⟩

/-- The ranges of a tiling are disjoint, in the order of the list. -/
theorem disjoint (h : Tiles a rs c) : rs.Pairwise fun r s => r.2 ≤ s.1 := by
  induction h with
  | nil => exact .nil
  | cons _ ht ih => exact .cons (fun s hs => (ht.bounds s hs).1) ih

/-- The ranges of a tiling cover the interval and nothing else. -/
theorem covers (h : Tiles a rs c) (i : Nat) :
    (∃ r ∈ rs, r.1 ≤ i ∧ i < r.2) ↔ a ≤ i ∧ i < c := by
  induction h with
  | nil => simp
  | @cons a b c rs hlt ht ih =>
    have := ht.le
    simp only [List.mem_cons, exists_eq_or_imp, ih]
    omega

/-- Two ranges of a tiling that start together are one. -/
theorem eq_of_start (h : Tiles a rs c) {r s : Nat × Nat} (hr : r ∈ rs) (hs : s ∈ rs)
    (hrs : r.1 = s.1) : r = s := by
  induction h with
  | nil => cases hr
  | cons hlt ht ih =>
    rcases List.mem_cons.mp hr with rfl | hr <;> rcases List.mem_cons.mp hs with rfl | hs
    · rfl
    · have := (ht.bounds s hs).1; simp only at hrs; omega
    · have := (ht.bounds r hr).1; simp only at hrs; omega
    · exact ih hr hs

/-- A tiling is what sorting its ranges by where they start gives. -/
theorem mergeSort_eq (h : Tiles a rs c) (hp : ss.Perm rs) :
    ss.mergeSort (fun r s => r.1 ≤ s.1) = rs := by
  have hsorted : (ss.mergeSort fun r s => r.1 ≤ s.1).Pairwise
      fun r s => decide (r.1 ≤ s.1) = true := by
    refine List.pairwise_mergeSort (fun r s t h1 h2 => ?_) (fun r s => ?_) ss
    · simp only [decide_eq_true_eq] at *; exact Nat.le_trans h1 h2
    · simp only [Bool.or_eq_true, decide_eq_true_eq]; exact Nat.le_total _ _
  simp only [decide_eq_true_eq] at hsorted
  have hrs : rs.Pairwise fun r s => r.1 ≤ s.1 :=
    h.disjoint.imp_of_mem fun {r s} hr _ hrs =>
      Nat.le_trans (Nat.le_of_lt (h.bounds r hr).2.1) hrs
  refine List.Perm.eq_of_pairwise (fun r s hr hs h1 h2 => ?_) hsorted hrs
    ((List.mergeSort_perm ss _).trans hp)
  exact h.eq_of_start (hp.subset (List.mem_mergeSort.mp hr)) hs (Nat.le_antisymm h1 h2)

end Tiles

end Lib
