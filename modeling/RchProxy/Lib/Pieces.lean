import Mathlib.Data.List.TakeWhile

/-!
# The pieces of a list between separators

The nonempty runs of a list between the elements that separate (`pieces`), and a list without its
ends (`stripBy`). A separator cuts wherever it stands (`pieces_append_cons`), so that a finer
separator cuts the pieces of a coarser one (`pieces_refine`).
-/

namespace Lib

variable {α : Type} {p q : α → Bool} {t w x y : List α}

/-! ## Runs -/

/-- A list is a run up to the first separator, and what follows it. -/
theorem exists_first_run (p : α → Bool) (t : List α) :
    ∃ w, (∀ c ∈ w, p c = false) ∧ (t = w ∨ ∃ a y, p a ∧ t = w ++ a :: y) := by
  induction t with
  | nil => exact ⟨[], nofun, .inl rfl⟩
  | cons c t ih =>
    cases hc : p c with
    | true => exact ⟨[], nofun, .inr ⟨c, t, hc, rfl⟩⟩
    | false =>
      obtain ⟨w, hw, ht⟩ := ih
      refine ⟨c :: w, List.forall_mem_cons.mpr ⟨hc, hw⟩, ?_⟩
      rcases ht with rfl | ⟨a, y, ha, rfl⟩
      · exact .inl rfl
      · exact .inr ⟨a, y, ha, rfl⟩

/-- A list is a run after the last separator, and what precedes it. -/
theorem exists_last_run (p : α → Bool) (t : List α) :
    ∃ w, (∀ c ∈ w, p c = false) ∧ (t = w ∨ ∃ x a, p a ∧ t = x ++ a :: w) := by
  induction t with
  | nil => exact ⟨[], nofun, .inl rfl⟩
  | cons c t ih =>
    obtain ⟨w, hw, ht⟩ := ih
    rcases ht with rfl | ⟨x, a, ha, rfl⟩
    · cases hc : p c with
      | true => exact ⟨t, hw, .inr ⟨[], c, hc, rfl⟩⟩
      | false => exact ⟨c :: t, List.forall_mem_cons.mpr ⟨hc, hw⟩, .inl rfl⟩
    · exact ⟨w, hw, .inr ⟨c :: x, a, ha, rfl⟩⟩

/-! ## Pieces -/

/-- The nonempty runs between the separators. -/
def pieces (p : α → Bool) (t : List α) : List (List α) := (t.splitOnP p).filter (!·.isEmpty)

@[simp] theorem pieces_nil : pieces p [] = [] := rfl

/-- A separator cuts. -/
theorem pieces_append_cons {a : α} (h : p a) (x y : List α) :
    pieces p (x ++ a :: y) = pieces p x ++ pieces p y := by
  unfold pieces
  rw [List.splitOnP_append_cons x y h, List.filter_append]

theorem pieces_of_free (hne : w ≠ []) (h : ∀ c ∈ w, p c = false) : pieces p w = [w] := by
  unfold pieces
  rw [List.splitOnP_eq_singleton h]
  cases w with
  | nil => exact absurd rfl hne
  | cons c w => rfl

/-- The pieces, from the first one on. -/
theorem pieces_induction {motive : List α → Prop} (run : ∀ w, (∀ c ∈ w, p c = false) → motive w)
    (cut : ∀ w a y, (∀ c ∈ w, p c = false) → p a → motive y → motive (w ++ a :: y)) (t : List α) :
    motive t := by
  obtain ⟨w, hw, ht | ⟨a, y, ha, ht⟩⟩ := exists_first_run p t
  · exact ht ▸ run w hw
  · exact ht ▸ cut w a y hw ha (pieces_induction run cut y)
termination_by t.length
decreasing_by
  rw [ht, List.length_append, List.length_cons]
  omega

/-- A piece consists of elements of the list. -/
theorem mem_of_mem_pieces {c : α} (hw : w ∈ pieces p t) (hc : c ∈ w) : c ∈ t := by
  induction t using pieces_induction (p := p) with
  | run v hv =>
    by_cases hne : v = []
    · subst hne
      cases hw
    · rw [pieces_of_free hne hv, List.mem_singleton] at hw
      exact hw ▸ hc
  | cut v a y hv ha ih =>
    rw [pieces_append_cons ha, List.mem_append] at hw
    rcases hw with hw | hw
    · by_cases hne : v = []
      · subst hne
        cases hw
      · rw [pieces_of_free hne hv, List.mem_singleton] at hw
        exact List.mem_append_left _ (hw ▸ hc)
    · exact List.mem_append_right _ (List.mem_cons_of_mem _ (ih hw))

theorem exists_piece {c : α} (hc : c ∈ t) (hfree : p c = false) : ∃ w ∈ pieces p t, c ∈ w := by
  have hrun : ∀ v, (∀ c ∈ v, p c = false) → c ∈ v → v ∈ pieces p v := by
    intro v hv hmem
    rw [pieces_of_free (List.ne_nil_of_mem hmem) hv]
    exact List.mem_singleton_self v
  induction t using pieces_induction (p := p) with
  | run v hv => exact ⟨v, hrun v hv hc, hc⟩
  | cut v a y hv ha ih =>
    simp only [pieces_append_cons ha, List.mem_append]
    rcases List.mem_append.mp hc with hc | hc
    · exact ⟨v, .inl (hrun v hv hc), hc⟩
    · rcases List.mem_cons.mp hc with rfl | hc
      · rw [ha] at hfree
        cases hfree
      · obtain ⟨w, hw, hcw⟩ := ih hc
        exact ⟨w, .inr hw, hcw⟩

/-- A finer separator cuts the pieces of a coarser one. -/
theorem pieces_refine (h : ∀ c, p c → q c) (t : List α) :
    pieces q t = (pieces p t).flatMap (pieces q) := by
  have hrun : ∀ w, (∀ c ∈ w, p c = false) → pieces q w = (pieces p w).flatMap (pieces q) := by
    intro w hw
    by_cases hne : w = []
    · subst hne
      rfl
    · rw [pieces_of_free hne hw, List.flatMap_singleton]
  induction t using pieces_induction (p := p) with
  | run w hw => exact hrun w hw
  | cut w a y hw ha ih =>
    rw [pieces_append_cons ha, pieces_append_cons (h a ha), List.flatMap_append, ← hrun w hw, ih]

/-! ## Lists without their ends -/

/-- The list without the elements at its ends that satisfy `p`. -/
def stripBy (p : α → Bool) (t : List α) : List α := ((t.dropWhile p).reverse.dropWhile p).reverse

/-- A list with nothing to take off its ends. -/
def Bare (p : α → Bool) (t : List α) : Prop :=
  (∀ c ∈ t.head?, p c = false) ∧ ∀ c ∈ t.getLast?, p c = false

theorem bare_nil : Bare p ([] : List α) := ⟨nofun, nofun⟩

theorem dropWhile_append_of_all {s : List α} (hs : ∀ c ∈ s, p c) (t : List α) :
    (s ++ t).dropWhile p = t.dropWhile p := by
  rw [List.dropWhile_append_of_pos hs]

theorem dropWhile_of_head {t : List α} (h : ∀ c ∈ t.head?, p c = false) : t.dropWhile p = t := by
  cases t with
  | nil => rfl
  | cons c t => exact List.dropWhile_cons_of_neg (by simp [h c rfl])

/-- What is between two ends that are taken off. -/
theorem stripBy_eq {s₁ s₂ : List α} (hs₁ : ∀ c ∈ s₁, p c) (hs₂ : ∀ c ∈ s₂, p c) (hw : Bare p w) :
    stripBy p (s₁ ++ w ++ s₂) = w := by
  unfold stripBy
  rw [List.append_assoc, dropWhile_append_of_all hs₁]
  cases w with
  | nil =>
    rw [List.nil_append, List.dropWhile_eq_nil_iff.mpr hs₂]
    rfl
  | cons c w =>
    rw [dropWhile_of_head (t := c :: w ++ s₂) (by simpa using hw.1), List.reverse_append,
      dropWhile_append_of_all (by simpa using hs₂), dropWhile_of_head, List.reverse_reverse]
    rw [List.head?_reverse]
    exact hw.2

theorem stripBy_spec (p : α → Bool) (t : List α) : ∃ s₁ s₂, (∀ c ∈ s₁, p c) ∧ (∀ c ∈ s₂, p c) ∧
    Bare p (stripBy p t) ∧ t = s₁ ++ stripBy p t ++ s₂ := by
  obtain ⟨s₁, hs₁, h⟩ := exists_first_run (fun c => !p c) t
  have hs₁ : ∀ c ∈ s₁, p c := by simpa using hs₁
  rcases h with rfl | ⟨a, y, ha, rfl⟩
  · have hstrip : stripBy p t = [] := by
      simpa using stripBy_eq hs₁ (by simp : ∀ c ∈ ([] : List α), p c) bare_nil
    exact ⟨t, [], hs₁, nofun, hstrip ▸ bare_nil, by simp [hstrip]⟩
  · obtain ⟨s₂, hs₂, h⟩ := exists_last_run (fun c => !p c) (a :: y)
    have hs₂ : ∀ c ∈ s₂, p c := by simpa using hs₂
    rcases h with rfl | ⟨x, b, hb, h⟩
    · simp [hs₂ a List.mem_cons_self] at ha
    · have hbare : Bare p (x ++ [b]) := by
        refine ⟨fun c hc => ?_, by simpa using hb⟩
        have hhead : (x ++ [b]).head? = some a := by
          cases x with
          | nil => cases h; rfl
          | cons d x => cases h; rfl
        rw [hhead, Option.mem_some_iff] at hc
        simpa [hc] using ha
      have hstrip : stripBy p (s₁ ++ (x ++ [b]) ++ s₂) = x ++ [b] := stripBy_eq hs₁ hs₂ hbare
      have ht : s₁ ++ a :: y = s₁ ++ (x ++ [b]) ++ s₂ := by simp [h]
      rw [ht, hstrip]
      exact ⟨s₁, s₂, hs₁, hs₂, hbare, rfl⟩

theorem stripBy_append {s₁ s₂ : List α} (hs₁ : ∀ c ∈ s₁, p c) (hs₂ : ∀ c ∈ s₂, p c) (t : List α) :
    stripBy p (s₁ ++ t ++ s₂) = stripBy p t := by
  obtain ⟨r₁, r₂, hr₁, hr₂, hbare, ht⟩ := stripBy_spec p t
  have hmid : s₁ ++ t ++ s₂ = (s₁ ++ r₁) ++ stripBy p t ++ (r₂ ++ s₂) := calc
    s₁ ++ t ++ s₂ = s₁ ++ (r₁ ++ stripBy p t ++ r₂) ++ s₂ := by rw [← ht]
    _ = _ := by simp only [List.append_assoc]
  rw [hmid]
  refine stripBy_eq ?_ ?_ hbare
  · exact fun c hc => (List.mem_append.mp hc).elim (hs₁ c) (hr₁ c)
  · exact fun c hc => (List.mem_append.mp hc).elim (hr₂ c) (hs₂ c)

theorem stripBy_append_left {s₁ : List α} (hs₁ : ∀ c ∈ s₁, p c) (t : List α) :
    stripBy p (s₁ ++ t) = stripBy p t := by
  have h := stripBy_append hs₁ (by simp : ∀ c ∈ ([] : List α), p c) t
  rwa [List.append_nil] at h

theorem stripBy_append_right {s₂ : List α} (hs₂ : ∀ c ∈ s₂, p c) (t : List α) :
    stripBy p (t ++ s₂) = stripBy p t :=
  stripBy_append (by simp : ∀ c ∈ ([] : List α), p c) hs₂ t

/-- Ends that a coarser predicate takes off as well may be taken off first. -/
theorem stripBy_stripBy (h : ∀ c, p c → q c) (t : List α) :
    stripBy q (stripBy p t) = stripBy q t := by
  obtain ⟨s₁, s₂, hs₁, hs₂, -, ht⟩ := stripBy_spec p t
  have hends := stripBy_append (fun c hc => h c (hs₁ c hc)) (fun c hc => h c (hs₂ c hc))
    (stripBy p t)
  rw [← ht] at hends
  exact hends.symm

theorem stripBy_of_bare (h : Bare p t) : stripBy p t = t := by
  simpa using stripBy_eq (by simp : ∀ c ∈ ([] : List α), p c) (by simp : ∀ c ∈ ([] : List α), p c) h

/-- An element that is not taken off stays first. -/
theorem head?_stripBy {c : α} (hhead : t.head? = some c) (hc : p c = false) :
    (stripBy p t).head? = some c := by
  obtain ⟨s₁, s₂, hs₁, hs₂, -, ht⟩ := stripBy_spec p t
  have hblank : ∀ s : List α, (∀ c ∈ s, p c) → s.head? ≠ some c := by
    intro s hs hmem
    rw [hs c (List.mem_of_head? hmem)] at hc
    cases hc
  rw [ht, List.append_assoc, List.head?_append] at hhead
  cases s₁ with
  | cons d s₁ => exact absurd hhead (hblank _ hs₁)
  | nil =>
    rw [List.head?_nil, Option.none_or, List.head?_append] at hhead
    cases hmid : stripBy p t with
    | nil =>
      rw [hmid] at hhead
      exact absurd hhead (hblank _ hs₂)
    | cons d w =>
      rw [hmid] at hhead
      exact hhead

theorem stripBy_of_all (h : ∀ c ∈ t, p c) : stripBy p t = [] := by
  simpa using stripBy_eq h (by simp : ∀ c ∈ ([] : List α), p c) bare_nil

end Lib
