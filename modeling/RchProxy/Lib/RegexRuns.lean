import RchProxy.Lib.Regex

/-!
# What a pattern reads

The positions a pattern reaches (`Regex.run`), construct by construct, as the texts it reads on the
way (`Cursor.past`). The order of the positions only matters where there are several: a position
that is the only one is the preferred one (`head?_eq_of_only`).
-/

namespace Lib

variable {α γ : Type}

namespace Cursor

/-- The position after `s`, where `t` is left. -/
def past (c : Cursor α γ) (s t : List α) : Cursor α γ :=
  { c with before := s.reverse ++ c.before, after := t }

variable (c : Cursor α γ) (s t : List α)

@[simp] theorem past_before : (c.past s t).before = s.reverse ++ c.before := rfl

@[simp] theorem past_after : (c.past s t).after = t := rfl

@[simp] theorem past_groups : (c.past s t).groups = c.groups := rfl

@[simp] theorem past_past (s' t' : List α) : (c.past s t).past s' t' = c.past (s ++ s') t' := by
  simp [past]

/-- Nothing read. -/
theorem past_nil {c : Cursor α γ} {t : List α} (h : c.after = t) : c.past [] t = c := by
  subst h
  rfl

/-- The text read on the way is what stands between the two positions. -/
theorem textTo_of_after {c d : Cursor α γ} {s t : List α} (h : c.after = s ++ t) (hd : d.after = t) :
    c.textTo d = s := by
  rw [textTo, h, hd, List.length_append, Nat.add_sub_cancel, List.take_left]

end Cursor

open Cursor

namespace Regex

/-- A position that is the only one is the preferred one. -/
theorem head?_eq_of_only {β : Type} {l : List β} {d : β} (h : d ∈ l) (honly : ∀ e ∈ l, e = d) :
    l.head? = some d := by
  cases l with
  | nil => cases h
  | cons e l => rw [List.head?_cons, honly e List.mem_cons_self]

variable {a b r : Regex α γ} {c d : Cursor α γ} {p : α → Bool}

theorem mem_run_empty : d ∈ (empty : Regex α γ).run c ↔ d = c := List.mem_singleton

theorem mem_run_one : d ∈ (one p).run c ↔ ∃ x t, c.after = x :: t ∧ p x = true ∧ d = c.past [x] t := by
  simp only [run, Cursor.step]
  cases h : c.after with
  | nil => simp
  | cons x xs =>
    simp only [List.cons.injEq]
    constructor
    · intro hd
      split at hd
      · next hp => exact ⟨x, xs, ⟨rfl, rfl⟩, hp, List.mem_singleton.mp hd⟩
      · cases hd
    · rintro ⟨_, _, ⟨rfl, rfl⟩, hp, rfl⟩
      rw [if_pos hp]
      exact List.mem_singleton.mpr rfl

theorem mem_run_look {q : List α → List α → Bool} :
    d ∈ (look q : Regex α γ).run c ↔ q c.before c.after = true ∧ d = c := by
  rw [run]
  split
  · next h => rw [List.mem_singleton]; exact ⟨fun hd => ⟨h, hd⟩, fun hd => hd.2⟩
  · next h => exact ⟨fun hd => absurd hd List.not_mem_nil, fun hd => absurd hd.1 h⟩

theorem mem_run_seq : d ∈ (seq a b).run c ↔ ∃ e ∈ a.run c, d ∈ b.run e := List.mem_flatMap

theorem mem_run_alt : d ∈ (alt a b).run c ↔ d ∈ a.run c ∨ d ∈ b.run c := List.mem_append

theorem mem_run_opt : d ∈ (opt a).run c ↔ d ∈ a.run c ∨ d = c := by
  rw [opt, mem_run_alt, mem_run_empty]

theorem mem_run_group {g : γ} : d ∈ (group g a).run c ↔
    ∃ e ∈ a.run c, d = { e with groups := (g, c.textTo e) :: e.groups } := by
  rw [run, List.mem_map]
  exact ⟨fun ⟨e, he, h⟩ => ⟨e, he, h.symm⟩, fun ⟨e, he, h⟩ => ⟨e, he, h.symm⟩⟩

theorem mem_run_lit [BEq α] [LawfulBEq α] {s : List α} :
    d ∈ (lit s r).run c ↔ ∃ t, c.after = s ++ t ∧ d ∈ r.run (c.past s t) := by
  refine ⟨run_lit, ?_⟩
  rintro ⟨t, ht, hd⟩
  induction s generalizing c with
  | nil =>
    rw [List.nil_append] at ht
    subst ht
    exact hd
  | cons x s ih =>
    refine mem_run_seq.mpr ⟨c.past [x] (s ++ t), mem_run_one.mpr ⟨x, s ++ t, ht, beq_self_eq_true x, rfl⟩,
      ih rfl ?_⟩
    rw [past_past]
    exact hd

/-- A pattern that does not match is repeated no time. -/
theorem mem_run_star_of_nil {greedy : Bool} (h : a.run c = []) :
    d ∈ (star greedy a).run c ↔ d = c := by
  rw [run]
  cases c.after.length with
  | zero => exact List.mem_singleton
  | succ n => rw [iterate, h]; cases greedy <;> simp

/-- Repeated single characters read a text of them. -/
theorem mem_run_star_one {greedy : Bool} : d ∈ (star greedy (one p)).run c ↔
    ∃ s t, c.after = s ++ t ∧ (∀ x ∈ s, p x = true) ∧ d = c.past s t := by
  suffices hiter : ∀ n, ∀ c : Cursor α γ, c.after.length ≤ n →
      (d ∈ iterate greedy (one p).run n c ↔
        ∃ s t, c.after = s ++ t ∧ (∀ x ∈ s, p x = true) ∧ d = c.past s t) from
    hiter _ c (Nat.le_refl _)
  intro n
  induction n with
  | zero =>
    intro c hn
    have hnil : c.after = [] := List.length_eq_zero_iff.mp (Nat.le_zero.mp hn)
    rw [iterate, List.mem_singleton]
    constructor
    · rintro rfl
      exact ⟨[], d.after, rfl, nofun, rfl⟩
    · rintro ⟨s, t, hst, -, rfl⟩
      obtain ⟨rfl, rfl⟩ := List.append_eq_nil_iff.mp (hst.symm.trans hnil)
      exact past_nil hnil
  | succ n ih =>
    intro c hn
    have hmore : d ∈ (((one p).run c).filter fun e => e.after.length < c.after.length).flatMap
        (iterate greedy (one p).run n) ↔ ∃ x s t, c.after = x :: s ++ t ∧
          (∀ y ∈ x :: s, p y = true) ∧ d = c.past (x :: s) t := by
      rw [List.mem_flatMap]
      constructor
      · rintro ⟨e, he, hd⟩
        obtain ⟨x, rest, hx, hp, rfl⟩ := mem_run_one.mp (List.mem_filter.mp he).1
        obtain ⟨s, t, hst, hs, rfl⟩ := (ih _ (by rw [hx] at hn; exact Nat.le_of_succ_le_succ hn)).mp hd
        refine ⟨x, s, t, hx.trans (congrArg (x :: ·) hst), ?_, by rw [past_past]; rfl⟩
        intro y hy
        rcases List.mem_cons.mp hy with rfl | hy
        · exact hp
        · exact hs y hy
      · rintro ⟨x, s, t, hst, hs, rfl⟩
        refine ⟨c.past [x] (s ++ t), List.mem_filter.mpr
          ⟨mem_run_one.mpr ⟨x, s ++ t, hst, hs x List.mem_cons_self, rfl⟩, ?_⟩, ?_⟩
        · rw [hst, past_after]
          exact decide_eq_true (Nat.lt_succ_self _)
        · refine (ih _ (by rw [hst] at hn; exact Nat.le_of_succ_le_succ hn)).mpr
            ⟨s, t, rfl, fun y hy => hs y (List.mem_cons_of_mem x hy), ?_⟩
          rw [past_past]
          rfl
    have hsplit : d ∈ iterate greedy (one p).run (n + 1) c ↔
        d ∈ (((one p).run c).filter fun e => e.after.length < c.after.length).flatMap
          (iterate greedy (one p).run n) ∨ d = c := by
      rw [iterate]
      cases greedy
      · exact List.mem_cons.trans or_comm
      · exact List.mem_append.trans (or_congr_right List.mem_singleton)
    rw [hsplit, hmore]
    constructor
    · rintro (⟨x, s, t, hst, hs, rfl⟩ | rfl)
      · exact ⟨x :: s, t, hst, hs, rfl⟩
      · exact ⟨[], d.after, rfl, nofun, rfl⟩
    · rintro ⟨s, t, hst, hs, rfl⟩
      cases s with
      | nil =>
        exact .inr (past_nil hst)
      | cons x s => exact .inl ⟨x, s, t, hst, hs, rfl⟩

theorem mem_run_plus_one : d ∈ (plus (one p)).run c ↔
    ∃ s t, c.after = s ++ t ∧ s ≠ [] ∧ (∀ x ∈ s, p x = true) ∧ d = c.past s t := by
  rw [plus, mem_run_seq]
  constructor
  · rintro ⟨e, he, hd⟩
    obtain ⟨x, rest, hx, hp, rfl⟩ := mem_run_one.mp he
    obtain ⟨s, t, hst, hs, rfl⟩ := mem_run_star_one.mp hd
    refine ⟨x :: s, t, hx.trans (congrArg (x :: ·) hst), List.cons_ne_nil x s, ?_, past_past ..⟩
    intro y hy
    rcases List.mem_cons.mp hy with rfl | hy
    · exact hp
    · exact hs y hy
  · rintro ⟨s, t, hst, hne, hs, rfl⟩
    obtain ⟨x, s, rfl⟩ := List.exists_cons_of_ne_nil hne
    refine ⟨c.past [x] (s ++ t), mem_run_one.mpr ⟨x, s ++ t, hst, hs x List.mem_cons_self, rfl⟩,
      mem_run_star_one.mpr ⟨s, t, rfl, fun y hy => hs y (List.mem_cons_of_mem x hy), ?_⟩⟩
    rw [past_past]
    rfl

/-- A bounded number of single characters. -/
theorem mem_run_rep_one {lo hi : Nat} (hle : lo ≤ hi) : d ∈ (rep lo hi (one p)).run c ↔
    ∃ s t, c.after = s ++ t ∧ (lo ≤ s.length ∧ s.length ≤ hi) ∧ (∀ x ∈ s, p x = true) ∧
      d = c.past s t := by
  rw [run]
  -- one character more, then the rest of the repetition
  have hcons : ∀ (n lo : Nat) (c : Cursor α γ), (∀ c : Cursor α γ, d ∈ times (one p).run lo n c ↔
      ∃ s t, c.after = s ++ t ∧ (lo ≤ s.length ∧ s.length ≤ n) ∧ (∀ x ∈ s, p x = true) ∧
        d = c.past s t) →
      (d ∈ ((one p).run c).flatMap (times (one p).run lo n) ↔
        ∃ x s t, c.after = x :: s ++ t ∧ (lo ≤ s.length ∧ s.length ≤ n) ∧
          (∀ y ∈ x :: s, p y = true) ∧ d = c.past (x :: s) t) := by
    intro n lo c ih
    rw [List.mem_flatMap]
    constructor
    · rintro ⟨e, he, hd⟩
      obtain ⟨x, rest, hx, hp, rfl⟩ := mem_run_one.mp he
      obtain ⟨s, t, hst, hlen, hs, rfl⟩ := (ih _).mp hd
      refine ⟨x, s, t, hx.trans (congrArg (x :: ·) hst), hlen, ?_, by rw [past_past]; rfl⟩
      intro y hy
      rcases List.mem_cons.mp hy with rfl | hy
      · exact hp
      · exact hs y hy
    · rintro ⟨x, s, t, hst, hlen, hs, rfl⟩
      refine ⟨c.past [x] (s ++ t), mem_run_one.mpr ⟨x, s ++ t, hst, hs x List.mem_cons_self, rfl⟩,
        (ih _).mpr ⟨s, t, rfl, hlen, fun y hy => hs y (List.mem_cons_of_mem x hy), ?_⟩⟩
      rw [past_past]
      rfl
  induction hi generalizing lo c with
  | zero =>
    obtain rfl := Nat.le_zero.mp hle
    rw [times, List.mem_singleton]
    constructor
    · rintro rfl
      exact ⟨[], d.after, rfl, ⟨Nat.le_refl 0, Nat.le_refl 0⟩, nofun, rfl⟩
    · rintro ⟨s, t, hst, ⟨-, hlen⟩, -, rfl⟩
      obtain rfl := List.length_eq_zero_iff.mp (Nat.le_zero.mp hlen)
      exact past_nil hst
  | succ n ih =>
    cases lo with
    | zero =>
      rw [times, List.mem_append, List.mem_singleton, hcons n 0 c fun c => ih (Nat.zero_le n)]
      constructor
      · rintro (⟨x, s, t, hst, ⟨-, hlen⟩, hs, rfl⟩ | rfl)
        · exact ⟨x :: s, t, hst, ⟨Nat.zero_le _, Nat.succ_le_succ hlen⟩, hs, rfl⟩
        · exact ⟨[], d.after, rfl, ⟨Nat.le_refl 0, Nat.zero_le _⟩, nofun, rfl⟩
      · rintro ⟨s, t, hst, ⟨-, hlen⟩, hs, rfl⟩
        cases s with
        | nil =>
          exact .inr (past_nil hst)
        | cons x s => exact .inl ⟨x, s, t, hst, ⟨Nat.zero_le _, Nat.le_of_succ_le_succ hlen⟩, hs, rfl⟩
    | succ lo =>
      rw [times, hcons n lo c fun c => ih (Nat.le_of_succ_le_succ hle)]
      constructor
      · rintro ⟨x, s, t, hst, ⟨h1, h2⟩, hs, rfl⟩
        exact ⟨x :: s, t, hst, ⟨Nat.succ_le_succ h1, Nat.succ_le_succ h2⟩, hs, rfl⟩
      · rintro ⟨s, t, hst, ⟨h1, h2⟩, hs, rfl⟩
        cases s with
        | nil => exact absurd h1 (Nat.not_succ_le_zero lo)
        | cons x s =>
          exact ⟨x, s, t, hst, ⟨Nat.le_of_succ_le_succ h1, Nat.le_of_succ_le_succ h2⟩, hs, rfl⟩

/-- What all matches agree on is what the preferred one says. -/
theorem map_matchStart_eq {β : Type} {f : Cursor α γ → β} {x : β} {s : List α}
    (h : d ∈ r.run ⟨[], s, []⟩) (hall : ∀ e ∈ r.run ⟨[], s, []⟩, f e = x) :
    (r.matchStart s).map f = some x := by
  rw [matchStart]
  cases hrun : r.run ⟨[], s, []⟩ with
  | nil => rw [hrun] at h; cases h
  | cons e l => rw [List.head?_cons, Option.map_some, hall e (by rw [hrun]; exact List.mem_cons_self)]

/-! ## Searching -/

/-- A search passes over the positions at which the pattern does not match. -/
theorem searchFrom_skip {before s t : List α}
    (h : ∀ u x v, s = u ++ x :: v → r.run ⟨u.reverse ++ before, x :: v ++ t, []⟩ = []) :
    r.searchFrom before (s ++ t) = r.searchFrom (s.reverse ++ before) t := by
  induction s generalizing before with
  | nil => rfl
  | cons x s ih =>
    have hx : r.run ⟨before, x :: (s ++ t), []⟩ = [] := h [] x s rfl
    rw [List.cons_append, searchFrom, hx, List.head?_nil]
    dsimp only
    rw [ih fun u y v huv => by simpa using h (x :: u) y v (congrArg (x :: ·) huv)]
    simp

theorem searchFrom_nil {before : List α} (h : r.run ⟨before, [], []⟩ = []) :
    r.searchFrom before [] = none := by
  rw [searchFrom, h]
  rfl

theorem searchFrom_of_head {before after : List α} (h : (r.run ⟨before, after, []⟩).head? = some d) :
    r.searchFrom before after = some (⟨before, after, []⟩, d) := by
  cases after with
  | nil => rw [searchFrom, h]; rfl
  | cons x xs => rw [searchFrom, h]

/-- A text with one match, which reads up to its end. -/
theorem findAll_eq_singleton {before after : List α} {s : List α}
    (hsearch : r.searchFrom [] s = some (⟨before, after, []⟩, d)) (hafter : after ≠ [])
    (hd : d.after = []) (hend : r.run ⟨d.before, [], []⟩ = []) : r.findAll s = [d] := by
  have hlt : d.after.length < after.length := by
    rw [hd]
    exact List.length_pos_iff.mpr hafter
  have hrest : ∀ n, r.findFrom n d.before [] = [] := by
    intro n
    cases n with
    | zero => rfl
    | succ n => rw [findFrom, searchFrom_nil hend]
  rw [findAll, findFrom, hsearch]
  dsimp only
  rw [if_pos hlt, hd, hrest]

/-- A text without a match. -/
theorem findAll_eq_nil {s : List α} (h : r.searchFrom [] s = none) : r.findAll s = [] := by
  rw [findAll, findFrom, h]

end Regex

end Lib
