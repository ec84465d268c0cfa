import Mathlib.Data.List.Sort
import RchProxy.Receipt.Copies

/-!
# The bounded list of issues

`_bounded_result_issues` keeps entries by their position: the first limit crossings, as many as there
are places, and in the places left the earliest of the others (`Selection`). The positions are
sorted again, so the kept entries stand in their order.
-/

namespace RchProxy

/-- Of an increasing list, the entries in front are the smaller ones. -/
theorem mem_take_of_earlier {l : List Nat} (hl : l.Pairwise (· < ·)) {i j k : Nat} (hi : i ∈ l.take k)
    (hj : j ∈ l) (hlt : j < i) : j ∈ l.take k := by
  rw [← List.take_append_drop k l] at hl hj
  rcases List.mem_append.mp hj with hj | hj
  · exact hj
  · have := (List.pairwise_append.mp hl).2.2 i hi j hj
    omega

/-- Sorted again, positions that differ are increasing. -/
theorem pairwise_lt_mergeSort {l : List Nat} (hl : l.Nodup) :
    (l.mergeSort (· ≤ ·)).Pairwise (· < ·) := by
  have hsorted : (l.mergeSort (· ≤ ·)).Pairwise (· ≤ ·) := List.pairwise_mergeSort' (· ≤ ·) l
  have hnodup : (l.mergeSort (· ≤ ·)).Nodup := (List.mergeSort_perm l _).nodup_iff.mpr hl
  exact (hsorted.and hnodup).imp fun h => Nat.lt_of_le_of_ne h.1 h.2

/-! ## The loop -/

/-- The positions of the limit crossings. -/
def limitIndexes (issues : List ReceiptIssue) : List Nat :=
  (List.range issues.length).filter fun index =>
    (issues[index]?.map (·.code.isLimit)).getD false

/-- The loop of `_bounded_result_issues` that fills the places left. -/
def fillIndexes (capacity : Nat) : (indexes selected : List Nat) → List Nat
  | [], selected => selected
  | index :: indexes, selected =>
    if capacity ≤ selected.length then selected
    else if index ∈ selected then fillIndexes capacity indexes selected
    else fillIndexes capacity indexes (selected ++ [index])

/-- The loop adds the positions not selected before it, as many as there are places. -/
theorem fillIndexes_eq {capacity : Nat} {indexes : List Nat} (hnodup : indexes.Nodup)
    (selected : List Nat) : fillIndexes capacity indexes selected = selected ++
      (indexes.filter (!selected.contains ·)).take (capacity - selected.length) := by
  induction indexes generalizing selected with
  | nil => simp [fillIndexes]
  | cons index indexes ih =>
    obtain ⟨hindex, hnodup⟩ := List.nodup_cons.mp hnodup
    rw [fillIndexes]
    split
    · next hfull => rw [Nat.sub_eq_zero_of_le hfull, List.take_zero, List.append_nil]
    · next hplace =>
      split
      · next hmem =>
        rw [ih hnodup, List.filter_cons_of_neg (by simpa using hmem)]
      · next hnew =>
        have hsame : indexes.filter (!(selected ++ [index]).contains ·) =
            indexes.filter (!selected.contains ·) := by
          refine List.filter_congr fun i hi => ?_
          have hne : i ≠ index := fun h => hindex (h ▸ hi)
          simp [hne]
        obtain ⟨n, hn⟩ : ∃ n, capacity - selected.length = n + 1 :=
          ⟨capacity - selected.length - 1, by omega⟩
        have hn' : capacity - (selected ++ [index]).length = n := by
          rw [List.length_append, List.length_singleton]
          omega
        rw [ih hnodup, hsame, hn', hn, List.filter_cons_of_pos (by simpa using hnew),
          List.take_succ_cons, List.append_assoc, List.singleton_append]

section
variable (issues : List ReceiptIssue) (capacity : Nat)

/-- The limit crossings first, then the others in order. -/
theorem selectedIndexes_eq : selectedIndexes issues capacity =
    (limitIndexes issues).take capacity ++
      ((List.range issues.length).filter (!((limitIndexes issues).take capacity).contains ·)).take
        (capacity - ((limitIndexes issues).take capacity).length) := rfl

/-- The selection is what the loop leaves. -/
theorem selectedIndexes_eq_fillIndexes : selectedIndexes issues capacity =
    fillIndexes capacity (List.range issues.length) ((limitIndexes issues).take capacity) := by
  rw [fillIndexes_eq List.nodup_range, selectedIndexes_eq]

end

/-! ## What is selected -/

/-- The positions a bounded list keeps. -/
structure Selection (issues : List ReceiptIssue) (capacity : Nat) (kept : List Nat) : Prop where
  increasing : kept.Pairwise (· < ·)
  below : ∀ i ∈ kept, i < issues.length
  length : kept.length = capacity
  /-- The first limit crossings are kept, as many as there are places. -/
  limits : ∀ i ∈ (limitIndexes issues).take capacity, i ∈ kept
  /-- Of the other positions the earliest are kept. -/
  earliest : ∀ i ∈ kept, i ∉ (limitIndexes issues).take capacity → ∀ j < i, j ∈ kept

section
variable {issues : List ReceiptIssue} {capacity : Nat}

theorem limitIndexes_pairwise : (limitIndexes issues).Pairwise (· < ·) :=
  List.pairwise_lt_range.filter _

theorem mem_limitIndexes {i : Nat} (h : i ∈ limitIndexes issues) : i < issues.length :=
  List.mem_range.mp (List.mem_filter.mp h).1

theorem selectedIndexes_nodup : (selectedIndexes issues capacity).Nodup := by
  rw [selectedIndexes_eq]
  refine List.nodup_append.mpr ⟨?_, ?_, ?_⟩
  · exact (limitIndexes_pairwise.imp Nat.ne_of_lt).sublist (List.take_sublist _ _)
  · exact (List.nodup_range.filter _).sublist (List.take_sublist _ _)
  · rintro i hi j hj rfl
    have hnot := (List.mem_filter.mp (List.mem_of_mem_take hj)).2
    rw [Bool.not_eq_true', ← Bool.not_eq_true, List.contains_iff_mem] at hnot
    exact hnot hi

/-- With as many entries as places, every place is taken. -/
theorem selectedIndexes_length (h : capacity ≤ issues.length) :
    (selectedIndexes issues capacity).length = capacity := by
  rw [selectedIndexes_eq]
  generalize hfirst : (limitIndexes issues).take capacity = first
  have hnodup : first.Nodup := by
    rw [← hfirst]
    exact (limitIndexes_pairwise.imp Nat.ne_of_lt).sublist (List.take_sublist _ _)
  have hbelow : ∀ i ∈ first, i < issues.length := by
    rw [← hfirst]
    exact fun i hi => mem_limitIndexes (List.mem_of_mem_take hi)
  have hle : first.length ≤ capacity := by
    rw [← hfirst]
    exact List.length_take_le _ _
  have hcontained : ((List.range issues.length).filter (first.contains ·)).Perm first := by
    refine (List.perm_ext_iff_of_nodup (List.nodup_range.filter _) hnodup).mpr fun i => ?_
    rw [List.mem_filter, List.contains_iff_mem, List.mem_range]
    exact ⟨fun hi => hi.2, fun hi => ⟨hbelow i hi, hi⟩⟩
  have hsplit := List.length_eq_length_filter_add (l := List.range issues.length) (first.contains ·)
  rw [List.length_range, hcontained.length_eq] at hsplit
  rw [List.length_append, List.length_take]
  omega

/-- The selection of the function is a selection in this sense. -/
theorem selection_selectedIndexes (h : capacity ≤ issues.length) :
    Selection issues capacity ((selectedIndexes issues capacity).mergeSort (· ≤ ·)) where
  increasing := pairwise_lt_mergeSort selectedIndexes_nodup
  below := fun i hi => by
    rw [List.mem_mergeSort, selectedIndexes_eq] at hi
    rcases List.mem_append.mp hi with hi | hi
    · exact mem_limitIndexes (List.mem_of_mem_take hi)
    · exact List.mem_range.mp (List.mem_filter.mp (List.mem_of_mem_take hi)).1
  length := by rw [List.length_mergeSort, selectedIndexes_length h]
  limits := fun i hi => List.mem_mergeSort.mpr (List.mem_append_left _ hi)
  earliest := fun i hi hother j hlt => by
    rw [List.mem_mergeSort, selectedIndexes_eq] at hi ⊢
    have hfill := (List.mem_append.mp hi).resolve_left hother
    by_cases hj : j ∈ (limitIndexes issues).take capacity
    · exact List.mem_append_left _ hj
    · refine List.mem_append_right _ (mem_take_of_earlier (List.pairwise_lt_range.filter _) hfill ?_ hlt)
      have hi' := List.mem_range.mp (List.mem_filter.mp (List.mem_of_mem_take hfill)).1
      exact List.mem_filter.mpr ⟨List.mem_range.mpr (Nat.lt_trans hlt hi'), by simpa using hj⟩

end

/-- The entries at positions below the length, one for each. -/
theorem forall₂_filterMap_getElem? {α : Type} {l : List α} {indexes : List Nat}
    (h : ∀ i ∈ indexes, i < l.length) :
    List.Forall₂ (fun i x => l[i]? = some x) indexes (indexes.filterMap (l[·]?)) := by
  induction indexes with
  | nil => exact .nil
  | cons i indexes ih =>
    have hlt : i < l.length := h i List.mem_cons_self
    have hi : l[i]? = some l[i] := List.getElem?_eq_getElem hlt
    rw [List.filterMap_cons_some hi]
    exact .cons hi (ih fun j hj => h j (List.mem_cons_of_mem i hj))

/--
A bounded list has at most `maxIssues` entries. It is the whole list where that fits, and otherwise
keeps all but one place for a selection of the entries and ends in the number of those left out.
-/
theorem boundedResultIssues_spec (issues : List ReceiptIssue) {maxIssues : Nat} (h : 1 ≤ maxIssues) :
    (boundedResultIssues issues maxIssues).length ≤ maxIssues ∧
      (issues.length ≤ maxIssues → boundedResultIssues issues maxIssues = issues) ∧
      (maxIssues < issues.length → ∃ kept retained,
        Selection issues (maxIssues - 1) kept ∧
        List.Forall₂ (fun i issue => issues[i]? = some issue) kept retained ∧
        boundedResultIssues issues maxIssues = retained ++
          [{ code := .resultIssueLimitExceeded
             detail := s!"{issues.length - (maxIssues - 1)} additional parser issue(s) omitted" }]) := by
  by_cases hfits : issues.length ≤ maxIssues
  · have heq : boundedResultIssues issues maxIssues = issues := if_pos hfits
    exact ⟨by rw [heq]; exact hfits, fun _ => heq, fun hlt => absurd hfits (Nat.not_le.mpr hlt)⟩
  · have hselection : Selection issues (maxIssues - 1)
        ((selectedIndexes issues (maxIssues - 1)).mergeSort (· ≤ ·)) :=
      selection_selectedIndexes (by omega)
    have hretained := forall₂_filterMap_getElem? hselection.below
    have hlength := hretained.length_eq.symm.trans hselection.length
    rw [boundedResultIssues, if_neg hfits]
    dsimp only
    rw [hlength]
    refine ⟨?_, fun hle => absurd hle hfits, fun _ => ⟨_, _, hselection, hretained, rfl⟩⟩
    rw [List.length_append, hlength, List.length_singleton]
    omega

/-- A limit crossing between two other issues. -/
def sampleFlood : List ReceiptIssue :=
  [{ code := .missingAckCandidate, detail := "first" },
   { code := .semanticFieldLimitExceeded, detail := "second" },
   { code := .missingAckCandidate, detail := "third" }]

theorem boundedResultIssues_spec_flood : ∃ kept retained, Selection sampleFlood 1 kept ∧
    List.Forall₂ (fun i issue => sampleFlood[i]? = some issue) kept retained ∧
    boundedResultIssues sampleFlood 2 = retained ++
      [{ code := .resultIssueLimitExceeded
         detail := s!"{3 - 1} additional parser issue(s) omitted" }] :=
  (boundedResultIssues_spec sampleFlood (show 1 ≤ 2 by decide)).2.2 (by decide)

end RchProxy
