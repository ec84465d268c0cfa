import Mathlib.Data.List.Basic

/-!
# Metered computations

A meter grants reservations up to a limit and keeps a report of the first one it refused. A
computation is metered (`Metered`) when a single number, its need, decides how it runs: from a meter
with that much left it spends its cost and returns its value, from any other it leaves a report. A
run that leaves no report therefore returned the value it returns from every roomy enough meter
(`Synced.runs`, for two computations that run in step).
-/

namespace Lib

/-- A budget of `limit` units, of which `used` are spent, with the report of the first refusal. -/
structure Meter (ι : Type) where
  limit : Nat
  used : Nat
  issue : Option ι
  used_le : used ≤ limit
  deriving DecidableEq, Repr

namespace Meter

variable {ι : Type}

/-- A fresh meter. -/
def new (limit : Nat) : Meter ι := ⟨limit, 0, none, Nat.zero_le _⟩

/-- The meter with `count` more units spent. -/
def spend (m : Meter ι) (count : Nat) (h : m.used + count ≤ m.limit) : Meter ι :=
  { m with used := m.used + count, used_le := h }

/-- The meter with a report, unless it has one. The report may name the limit. -/
def refuse (m : Meter ι) (report : Nat → ι) : Meter ι :=
  { m with issue := m.issue.or (some (report m.limit)) }

theorem refuse_issue (m : Meter ι) (report : Nat → ι) : (m.refuse report).issue ≠ none := by
  cases h : m.issue <;> simp [refuse, h]

end Meter

/-- A computation that spends from a meter. -/
abbrev Spend (ι α : Type) := StateM (Meter ι) α

namespace Spend

variable {ι α β α' β' : Type}

/-- Take `count` units; where they are not left, take none and keep the first report. -/
def reserve (count : Nat) (report : Nat → ι) : Spend ι Bool := fun m =>
  if h : m.used + count ≤ m.limit then (true, m.spend count h) else (false, m.refuse report)

/-- Run `f`, unless nothing is left: then a unit is asked for, which is refused, and `a` returned. -/
def unlessFull (report : Nat → ι) (a : α) (f : Spend ι α) : Spend ι α := do
  let m ← get
  if m.limit ≤ m.used then
    let _ ← reserve 1 report
    return a
  else f

/-! ## Reports are kept -/

/-- A report is never dropped. -/
def Sticky (f : Spend ι α) : Prop := ∀ m, m.issue ≠ none → (f.run m).2.issue ≠ none

namespace Sticky

theorem pure (a : α) : Sticky (pure a : Spend ι α) := fun _ h => h

theorem bind {f : Spend ι α} {g : α → Spend ι β} (hf : Sticky f) (hg : ∀ a, Sticky (g a)) :
    Sticky (f >>= g) := fun m h => hg _ _ (hf m h)

theorem ite {p : Prop} [Decidable p] {f g : Spend ι α} (hf : Sticky f) (hg : Sticky g) :
    Sticky (if p then f else g) := by
  split
  · exact hf
  · exact hg

theorem reserve (count : Nat) (report : Nat → ι) : Sticky (reserve count report) := by
  intro m h
  simp only [StateT.run, Spend.reserve]
  split
  · exact h
  · exact m.refuse_issue report

theorem unlessFull {report : Nat → ι} {a : α} {f : Spend ι α} (hf : Sticky f) :
    Sticky (unlessFull report a f) := by
  intro m h
  change (StateT.run (if m.limit ≤ m.used then _ else f) m).2.issue ≠ none
  exact Sticky.ite (Sticky.bind (Sticky.reserve 1 report) fun _ => Sticky.pure a) hf m h

theorem foldlM {f : β → α → Spend ι β} (hf : ∀ b a, Sticky (f b a)) (l : List α) (b : β) :
    Sticky (l.foldlM f b) := by
  induction l generalizing b with
  | nil => exact pure b
  | cons a l ih => exact bind (hf b a) ih

end Sticky

/-! ## Need and cost -/

/-- `f` returns `a` and spends `cost` where `need` units are left, and leaves a report elsewhere. -/
structure Metered (f : Spend ι α) (need cost : Nat) (a : α) : Prop where
  cost_le : cost ≤ need
  within : ∀ m (h : m.used + need ≤ m.limit),
    f.run m = (a, m.spend cost (Nat.le_trans (Nat.add_le_add_left cost_le _) h))
  beyond : ∀ m, m.limit < m.used + need → (f.run m).2.issue ≠ none
  sticky : Sticky f

namespace Metered

theorem pure (a : α) : Metered (pure a : Spend ι α) 0 0 a where
  cost_le := Nat.le_refl _
  within _ _ := rfl
  beyond m h := absurd m.used_le (Nat.not_le.mpr h)
  sticky := Sticky.pure a

theorem reserve (count : Nat) (report : Nat → ι) : Metered (reserve count report) count count true where
  cost_le := Nat.le_refl _
  within m h := by
    simp only [StateT.run, Spend.reserve, dif_pos h]
  beyond m h := by
    simp only [StateT.run, Spend.reserve, dif_neg (Nat.not_le.mpr h)]
    exact m.refuse_issue report
  sticky := Sticky.reserve count report

theorem bind {f : Spend ι α} {g : α → Spend ι β} {n c n' c' : Nat} {a : α} {b : β}
    (hf : Metered f n c a) (hg : Metered (g a) n' c' b) (hs : ∀ x, Sticky (g x)) :
    Metered (f >>= g) (max n (c + n')) (c + c') b where
  cost_le := by
    have := hg.cost_le
    omega
  within m h := by
    have hrun := hf.within m (by omega)
    have hle : m.used + c ≤ m.limit := by omega
    have hrun' := hg.within (m.spend c hle) (by simp only [Meter.spend]; omega)
    rw [StateT.run_bind]
    change (g (f.run m).1).run (f.run m).2 = _
    rw [hrun, hrun']
    simp only [Meter.spend, Nat.add_assoc]
  beyond m h := by
    rw [StateT.run_bind]
    change ((g (f.run m).1).run (f.run m).2).2.issue ≠ none
    by_cases hn : m.used + n ≤ m.limit
    · rw [hf.within m hn]
      refine hg.beyond _ ?_
      simp only [Meter.spend]
      omega
    · exact hs _ _ (hf.beyond m (Nat.not_le.mp hn))
  sticky := Sticky.bind hf.sticky hs

/-- A test that something is left needs one unit. -/
theorem unlessFull {report : Nat → ι} {a b : α} {f : Spend ι α} {n c : Nat} (hf : Metered f n c b) :
    Metered (unlessFull report a f) (max 1 n) c b where
  cost_le := Nat.le_trans hf.cost_le (Nat.le_max_right _ _)
  within m h := by
    change StateT.run (if m.limit ≤ m.used then _ else f) m = _
    rw [if_neg (by omega)]
    exact hf.within m (by omega)
  beyond m h := by
    change (StateT.run (if m.limit ≤ m.used then _ else f) m).2.issue ≠ none
    by_cases hfull : m.limit ≤ m.used
    · rw [if_pos hfull, StateT.run_bind]
      exact (Metered.reserve 1 report).beyond m (by omega)
    · rw [if_neg hfull]
      exact hf.beyond m (by omega)
  sticky := Sticky.unlessFull hf.sticky

/-- A run that leaves no report returned the value of the computation. -/
theorem of_issue_none {f : Spend ι α} {n c : Nat} {a : α} {m : Meter ι} (h : Metered f n c a)
    (hm : (f.run m).2.issue = none) :
    ∃ hle : m.used + n ≤ m.limit,
      f.run m = (a, m.spend c (Nat.le_trans (Nat.add_le_add_left h.cost_le _) hle)) := by
  by_cases hle : m.used + n ≤ m.limit
  · exact ⟨hle, h.within m hle⟩
  · exact absurd hm (h.beyond m (Nat.not_le.mp hle))

end Metered

/-! ## What a computation returns when nothing is refused -/

/-- The computation is metered, and its value satisfies `P`. -/
def Yields (f : Spend ι α) (P : α → Prop) : Prop := ∃ n c a, Metered f n c a ∧ P a

namespace Yields

variable {P Q : α → Prop}

theorem pure {a : α} (h : P a) : Yields (pure a : Spend ι α) P := ⟨0, 0, a, Metered.pure a, h⟩

theorem reserve (count : Nat) (report : Nat → ι) :
    Yields (Spend.reserve count report) (· = true) :=
  ⟨count, count, true, Metered.reserve count report, rfl⟩

theorem sticky {f : Spend ι α} (h : Yields f P) : Sticky f := by
  obtain ⟨_, _, _, hf, -⟩ := h
  exact hf.sticky

theorem mono {f : Spend ι α} (h : Yields f P) (hPQ : ∀ a, P a → Q a) : Yields f Q := by
  obtain ⟨n, c, a, hf, ha⟩ := h
  exact ⟨n, c, a, hf, hPQ a ha⟩

theorem bind {f : Spend ι α} {g : α → Spend ι β} {S : β → Prop} (h : Yields f P)
    (hg : ∀ a, P a → Yields (g a) S) (hs : ∀ a, Sticky (g a)) : Yields (f >>= g) S := by
  obtain ⟨n, c, a, hf, ha⟩ := h
  obtain ⟨n', c', b, hb, hS⟩ := hg a ha
  exact ⟨_, _, b, hf.bind hb hs, hS⟩

theorem unlessFull {report : Nat → ι} {a : α} {f : Spend ι α} (h : Yields f P) :
    Yields (unlessFull report a f) P := by
  obtain ⟨n, c, b, hf, hb⟩ := h
  exact ⟨_, c, b, hf.unlessFull, hb⟩

/-- A reservation that is granted, with a way out where it is not. -/
theorem reserve_ite {count : Nat} {report : Nat → ι} {f g : Spend ι α} (hf : Yields f P)
    (hg : Sticky g) :
    Yields (do if ← Spend.reserve count report then f else g) P := by
  refine (reserve count report).bind (fun granted h => ?_) fun granted => ?_
  · subst h
    exact hf
  · exact Sticky.ite hf.sticky hg

/-- A loop keeps what each turn keeps. -/
theorem foldlM {f : β → α → Spend ι β} {I : β → Prop} (hf : ∀ b a, I b → Yields (f b a) I)
    (hs : ∀ b a, Sticky (f b a)) {b : β} (l : List α) (h : I b) : Yields (l.foldlM f b) I := by
  induction l generalizing b with
  | nil => exact pure h
  | cons a l ih =>
    refine (hf b a h).bind (fun b' h' => ih h') fun b' => ?_
    exact Sticky.foldlM hs l b'

/-- A run that leaves no report returned a value that satisfies `P`. -/
theorem of_issue_none {f : Spend ι α} {m : Meter ι} (h : Yields f P)
    (hm : (f.run m).2.issue = none) : P (f.run m).1 := by
  obtain ⟨n, c, a, hf, ha⟩ := h
  obtain ⟨_, hrun⟩ := hf.of_issue_none hm
  rw [hrun]
  exact ha

end Yields

/-! ## What a computation returns in any case -/

/-- Whatever is refused, the value satisfies `P`. -/
def Always (f : Spend ι α) (P : α → Prop) : Prop := ∀ m, P (f.run m).1

namespace Always

variable {P Q : α → Prop}

theorem pure {a : α} (h : P a) : Always (pure a : Spend ι α) P := fun _ => h

theorem mono {f : Spend ι α} (h : Always f P) (hPQ : ∀ a, P a → Q a) : Always f Q :=
  fun m => hPQ _ (h m)

theorem any (f : Spend ι α) : Always f fun _ => True := fun _ => trivial

theorem bind {f : Spend ι α} {g : α → Spend ι β} {S : β → Prop} (hf : Always f P)
    (hg : ∀ a, P a → Always (g a) S) : Always (f >>= g) S := fun m => hg _ (hf m) _

/-- Both ways out of a reservation. -/
theorem reserve_ite {count : Nat} {report : Nat → ι} {f g : Spend ι α} (hf : Always f P)
    (hg : Always g P) : Always (do if ← Spend.reserve count report then f else g) P := by
  refine (any _).bind fun granted _ => ?_
  cases granted
  · exact hg
  · exact hf

theorem foldlM {f : β → α → Spend ι β} {I : β → Prop} (hf : ∀ b a, I b → Always (f b a) I) {b : β}
    (l : List α) (h : I b) : Always (l.foldlM f b) I := by
  induction l generalizing b with
  | nil => exact pure h
  | cons a l ih => exact (hf b a h).bind fun b' h' => ih h'

end Always

/-! ## What a computation spends -/

/-- From every meter the computation spends some `n`, leaves the limit, and returns a value that
satisfies `P` with `n`. -/
def Pays (f : Spend ι α) (P : α → Nat → Prop) : Prop :=
  ∀ m, (f.run m).2.limit = m.limit ∧ ∃ n, (f.run m).2.used = m.used + n ∧ P (f.run m).1 n

namespace Pays

variable {P Q : α → Nat → Prop}

theorem pure {a : α} (h : P a 0) : Pays (pure a : Spend ι α) P := fun _ => ⟨rfl, 0, rfl, h⟩

theorem mono {f : Spend ι α} (h : Pays f P) (hPQ : ∀ a n, P a n → Q a n) : Pays f Q := by
  intro m
  obtain ⟨hlimit, n, hused, hP⟩ := h m
  exact ⟨hlimit, n, hused, hPQ _ n hP⟩

/-- The two parts pay one after the other. -/
theorem bind {f : Spend ι α} {g : α → Spend ι β} {S : β → Nat → Prop} (hf : Pays f P)
    (hg : ∀ a n, P a n → Pays (g a) fun b n' => S b (n + n')) : Pays (f >>= g) S := by
  intro m
  obtain ⟨hlimit, n, hused, hP⟩ := hf m
  obtain ⟨hlimit', n', hused', hS⟩ := hg _ n hP (f.run m).2
  refine ⟨hlimit'.trans hlimit, n + n', ?_, hS⟩
  rw [← Nat.add_assoc, ← hused]
  exact hused'

theorem reserve (count : Nat) (report : Nat → ι) :
    Pays (Spend.reserve count report) fun granted n => n = if granted then count else 0 := by
  intro m
  simp only [StateT.run, Spend.reserve]
  split
  · exact ⟨rfl, count, rfl, rfl⟩
  · exact ⟨rfl, 0, rfl, rfl⟩

/-- Both ways out of a reservation; only the first one pays for it. -/
theorem reserve_ite {count : Nat} {report : Nat → ι} {f g : Spend ι α}
    (hf : Pays f fun a n => P a (count + n)) (hg : Pays g P) :
    Pays (do if ← Spend.reserve count report then f else g) P := by
  refine (reserve count report).bind fun granted n hn => ?_
  subst hn
  cases granted with
  | true => exact hf
  | false => exact hg.mono fun a n h => by simpa using h

theorem unlessFull {report : Nat → ι} {a : α} {f : Spend ι α} (hf : Pays f P) (h : P a 0) :
    Pays (unlessFull report a f) P := by
  intro m
  by_cases hfull : m.limit ≤ m.used
  · have hrefused : (Spend.reserve 1 report).run m = (false, m.refuse report) := by
      simp only [StateT.run, Spend.reserve, dif_neg (Nat.not_le.mpr (Nat.lt_succ_of_le hfull))]
    have hrun : (Spend.unlessFull report a f).run m = (a, m.refuse report) := by
      change StateT.run (if m.limit ≤ m.used then _ else f) m = _
      rw [if_pos hfull, StateT.run_bind, hrefused]
      rfl
    rw [hrun]
    exact ⟨rfl, 0, rfl, h⟩
  · have hrun : (Spend.unlessFull report a f).run m = f.run m := by
      change StateT.run (if m.limit ≤ m.used then _ else f) m = _
      rw [if_neg hfull]
    rw [hrun]
    exact hf m

/-- A loop whose turns pay for what they add. -/
theorem foldlM {f : β → α → Spend ι β} (I : β → Nat → Prop)
    (hf : ∀ b a n, I b n → Pays (f b a) fun b' n' => I b' (n + n')) (l : List α) {b : β} {n : Nat}
    (h : I b n) : Pays (l.foldlM f b) fun b' n' => I b' (n + n') := by
  induction l generalizing b n with
  | nil => exact pure h
  | cons a l ih =>
    refine (hf b a n h).bind fun b' n' h' => (ih h').mono fun b'' n'' h'' => ?_
    rwa [← Nat.add_assoc]

end Pays

/-! ## Granted runs -/

/-- The computation returns `a` and spends `n` wherever so many units are left. -/
def Spends (f : Spend ι α) (n : Nat) (a : α) : Prop :=
  ∀ m (h : m.used + n ≤ m.limit), f.run m = (a, m.spend n h)

namespace Spends

theorem pure (a : α) : Spends (pure a : Spend ι α) 0 a := fun _ _ => rfl

theorem bind {f : Spend ι α} {g : α → Spend ι β} {n k : Nat} {a : α} {b : β} (hf : Spends f n a)
    (hg : Spends (g a) k b) : Spends (f >>= g) (n + k) b := by
  intro m h
  have hrun := hf m (by omega)
  have hrun' := hg (m.spend n (by omega)) (by simp only [Meter.spend]; omega)
  rw [StateT.run_bind, hrun]
  refine hrun'.trans ?_
  simp only [Meter.spend, Nat.add_assoc]

theorem reserve (count : Nat) (report : Nat → ι) : Spends (Spend.reserve count report) count true := by
  intro m h
  simp only [StateT.run, Spend.reserve, dif_pos h]

/-- A reservation that is granted. -/
theorem reserve_ite {count n : Nat} {report : Nat → ι} {f g : Spend ι α} {a : α}
    (hf : Spends f n a) :
    Spends (do if ← Spend.reserve count report then f else g) (count + n) a :=
  (reserve count report).bind hf

end Spends

/-! ## Two computations in step -/

/-- The two computations need and cost the same, and their values are related. -/
def Synced (R : α → β → Prop) (f : Spend ι α) (g : Spend ι β) : Prop :=
  ∃ n c a b, Metered f n c a ∧ Metered g n c b ∧ R a b

namespace Synced

theorem pure {R : α → β → Prop} {a : α} {b : β} (h : R a b) :
    Synced R (pure a : Spend ι α) (pure b) :=
  ⟨0, 0, a, b, Metered.pure a, Metered.pure b, h⟩

theorem bind {R : α → β → Prop} {S : α' → β' → Prop} {f : Spend ι α} {g : Spend ι β}
    {f' : α → Spend ι α'} {g' : β → Spend ι β'} (h : Synced R f g)
    (h' : ∀ a b, R a b → Synced S (f' a) (g' b)) (hf : ∀ a, Sticky (f' a))
    (hg : ∀ b, Sticky (g' b)) : Synced S (f >>= f') (g >>= g') := by
  obtain ⟨n, c, a, b, ha, hb, hab⟩ := h
  obtain ⟨n', c', a', b', ha', hb', hab'⟩ := h' a b hab
  exact ⟨_, _, a', b', ha.bind ha' hf, hb.bind hb' hg, hab'⟩

/-- A computation runs in step with itself. -/
theorem of_yields {P : α → Prop} {f : Spend ι α} (h : Yields f P) :
    Synced (fun a b => a = b ∧ P a) f f := by
  obtain ⟨n, c, a, hf, ha⟩ := h
  exact ⟨n, c, a, a, hf, hf, rfl, ha⟩

/-- A run without a report, and a run of the other from a meter with no less left. -/
theorem runs {R : α → β → Prop} {f : Spend ι α} {g : Spend ι β} (h : Synced R f g)
    {m m' : Meter ι} (hm : (f.run m).2.issue = none) (hlimit : m'.limit = m.limit)
    (hused : m'.used ≤ m.used) : R (f.run m).1 (g.run m').1 ∧ (f.run m).2.limit = m.limit := by
  obtain ⟨n, c, a, b, ha, hb, hab⟩ := h
  obtain ⟨hle, hrun⟩ := ha.of_issue_none hm
  rw [hrun, hb.within m' (by omega)]
  exact ⟨hab, rfl⟩

end Synced

/-! ## Two computations in lockstep -/

/-- From every meter the two computations leave the same meter, and their values are related. -/
def Alike (R : α → β → Prop) (f : Spend ι α) (g : Spend ι β) : Prop :=
  ∀ m, R (f.run m).1 (g.run m).1 ∧ (f.run m).2 = (g.run m).2

namespace Alike

theorem pure {R : α → β → Prop} {a : α} {b : β} (h : R a b) :
    Alike R (pure a : Spend ι α) (pure b) := fun _ => ⟨h, rfl⟩

theorem refl (f : Spend ι α) : Alike Eq f f := fun _ => ⟨rfl, rfl⟩

theorem bind {R : α → β → Prop} {S : α' → β' → Prop} {f : Spend ι α} {g : Spend ι β}
    {f' : α → Spend ι α'} {g' : β → Spend ι β'} (h : Alike R f g)
    (h' : ∀ a b, R a b → Alike S (f' a) (g' b)) : Alike S (f >>= f') (g >>= g') := by
  intro m
  obtain ⟨hR, hm⟩ := h m
  have hS := h' _ _ hR (f.run m).2
  change S ((f' (f.run m).1).run (f.run m).2).1 ((g' (g.run m).1).run (g.run m).2).1 ∧
    ((f' (f.run m).1).run (f.run m).2).2 = ((g' (g.run m).1).run (g.run m).2).2
  rw [← hm]
  exact hS

theorem foldlM {γ : Type} {R : α → β → Prop} {f : α → γ → Spend ι α} {g : β → γ → Spend ι β}
    (h : ∀ a b c, R a b → Alike R (f a c) (g b c)) (l : List γ) {a : α} {b : β} (hab : R a b) :
    Alike R (l.foldlM f a) (l.foldlM g b) := by
  induction l generalizing a b with
  | nil => exact pure hab
  | cons c l ih => exact (h a b c hab).bind fun a' b' h' => ih h'

end Alike

end Spend

end Lib
