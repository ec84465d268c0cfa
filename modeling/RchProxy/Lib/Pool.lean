import Mathlib.Data.List.Nodup
import Mathlib.Logic.Function.Basic
import Mathlib.Logic.Relation
import RchProxy.Lib.Prog

/-!
# A pool of workers

Tasks that are taken in their order by a number of workers and carried out side by side, one
operation of one of them at a time (`Pool.Step`). Every task has a part of the state to itself. So it
ends as it would have on its own, whatever the others do meanwhile, and what the pool comes to does
not depend on the number of workers (`Pool.reaches_iff`).
-/

namespace Lib

/-- What is left to do, the tasks at work, and what came of the others. -/
structure Pool (Op : Type) (Res : Op → Type) (ε α T V : Type) where
  state : T → V
  waiting : List (T × Prog Op Res ε α)
  running : List (T × Prog Op Res ε α)
  results : T → Option (Except ε α)

namespace Pool

variable {Op : Type} {Res : Op → Type} {ε α T V C : Type}

section
variable (exec : C → (op : Op) → V → Res op × V)

/-- Every task has ended as a run of it alone, and nothing else has changed. -/
structure Done (s : T → V) (results : T → Option (Except ε α)) (tasks : List (T × Prog Op Res ε α))
    (s' : T → V) (results' : T → Option (Except ε α)) : Prop where
  alone : ∀ p ∈ tasks, ∃ x cs, results' p.1 = some x ∧ Prog.run exec cs p.2 (s p.1) = some (x, s' p.1)
  other : ∀ t, t ∉ tasks.map Prod.fst → s' t = s t ∧ results' t = results t

/-- Where a task is. -/
inductive Progress (s : T → V) (results : T → Option (Except ε α)) (b : Pool Op Res ε α T V) (t : T)
    (m : Prog Op Res ε α) : Prop where
  | waiting (hmem : (t, m) ∈ b.waiting) (hstate : b.state t = s t) (hnew : b.results t = results t)
  | running {m' : Prog Op Res ε α} (cs : List C) (hmem : (t, m') ∈ b.running)
    (hrun : ∀ rest, Prog.run exec (cs ++ rest) m (s t) = Prog.run exec rest m' (b.state t))
    (hnew : b.results t = results t)
  | done {x : Except ε α} (cs : List C) (hmem : t ∉ (b.waiting ++ b.running).map Prod.fst)
    (hresult : b.results t = some x) (hrun : Prog.run exec cs m (s t) = some (x, b.state t))

/-- A pool on its way through the tasks. -/
structure OnTheWay (s : T → V) (results : T → Option (Except ε α))
    (tasks : List (T × Prog Op Res ε α)) (b : Pool Op Res ε α T V) : Prop where
  parties : ((b.waiting ++ b.running).map Prod.fst).Nodup
  known : ∀ t ∈ (b.waiting ++ b.running).map Prod.fst, t ∈ tasks.map Prod.fst
  progress : ∀ p ∈ tasks, Progress exec s results b p.1 p.2
  other : ∀ t, t ∉ tasks.map Prod.fst → b.state t = s t ∧ b.results t = results t

end

variable {exec : C → (op : Op) → V → Res op × V} {s s' : T → V}
  {results results' : T → Option (Except ε α)} {tasks : List (T × Prog Op Res ε α)}

/-- A task that a step is not about is where it was. -/
theorem Progress.keep {b b' : Pool Op Res ε α T V} {t : T} {m : Prog Op Res ε α}
    (h : Progress exec s results b t m) (hwaiting : ∀ m, (t, m) ∈ b.waiting → (t, m) ∈ b'.waiting)
    (hrunning : ∀ m, (t, m) ∈ b.running → (t, m) ∈ b'.running)
    (hfree : t ∉ (b.waiting ++ b.running).map Prod.fst →
      t ∉ (b'.waiting ++ b'.running).map Prod.fst)
    (hstate : b'.state t = b.state t) (hresults : b'.results t = b.results t) :
    Progress exec s results b' t m := by
  cases h with
  | waiting hmem hsame hnew =>
    exact .waiting (hwaiting _ hmem) (hstate.trans hsame) (hresults.trans hnew)
  | running cs hmem hrun hnew =>
    exact .running cs (hrunning _ hmem) (fun rest => by rw [hrun, hstate]) (hresults.trans hnew)
  | done cs hmem hresult hrun =>
    exact .done cs (hfree hmem) (hresults.trans hresult) (by rw [hstate]; exact hrun)

namespace OnTheWay

variable {b : Pool Op Res ε α T V}

/-- How far a task at work has come. -/
theorem atWork (h : OnTheWay exec s results tasks b) {t : T} {m m' : Prog Op Res ε α}
    (hmem : (t, m') ∈ b.running) (htask : (t, m) ∈ tasks) :
    b.results t = results t ∧
      ∃ cs, ∀ rest, Prog.run exec (cs ++ rest) m (s t) = Prog.run exec rest m' (b.state t) := by
  have hparties := h.parties
  rw [List.map_append] at hparties
  cases h.progress (t, m) htask with
  | waiting hwaiting hstate =>
    exact absurd (List.mem_map_of_mem (f := Prod.fst) hmem)
      (List.disjoint_of_nodup_append hparties (List.mem_map.mpr ⟨_, hwaiting, rfl⟩))
  | running cs hrunning hrun hnew =>
    have heq := List.inj_on_of_nodup_map (List.Nodup.of_append_right hparties) hrunning hmem rfl
    cases heq
    exact ⟨hnew, cs, hrun⟩
  | done cs hfree hresult hrun =>
    exact absurd (List.mem_map_of_mem (f := Prod.fst) (List.mem_append_right _ hmem)) hfree

end OnTheWay

variable [DecidableEq T]

section
variable (exec) (workers : Nat)

/-- What happens at one moment: a worker that is free takes a task, a task goes on, or it ends. -/
inductive Step : Pool Op Res ε α T V → Pool Op Res ε α T V → Prop where
  | take {s : T → V} {task : T × Prog Op Res ε α} {waiting running : List (T × Prog Op Res ε α)}
    {results : T → Option (Except ε α)} (h : running.length < workers) :
    Step ⟨s, task :: waiting, running, results⟩ ⟨s, waiting, task :: running, results⟩
  | turn {s : T → V} {waiting before after : List (T × Prog Op Res ε α)}
    {results : T → Option (Except ε α)} {t : T} {op : Op} {next : Res op → Prog Op Res ε α} (c : C) :
    Step ⟨s, waiting, before ++ (t, .call op next) :: after, results⟩
      ⟨Function.update s t (exec c op (s t)).2, waiting,
        before ++ (t, next (exec c op (s t)).1) :: after, results⟩
  | finish {s : T → V} {waiting before after : List (T × Prog Op Res ε α)}
    {results : T → Option (Except ε α)} {t : T} {m : Prog Op Res ε α} {x : Except ε α}
    (h : Prog.run exec [] m (s t) = some (x, s t)) :
    Step ⟨s, waiting, before ++ (t, m) :: after, results⟩
      ⟨s, waiting, before ++ after, Function.update results t (some x)⟩

/-- What happens in any number of moments. -/
abbrev Reaches : Pool Op Res ε α T V → Pool Op Res ε α T V → Prop :=
  Relation.ReflTransGen (Step exec workers)

end

variable {workers : Nat} {b b' : Pool Op Res ε α T V}

theorem OnTheWay.step (h : OnTheWay exec s results tasks b) (hstep : Step exec workers b b') :
    OnTheWay exec s results tasks b' := by
  cases hstep with
  | @take s₁ task waiting running results₁ hfree =>
    have hperm : (waiting ++ task :: running).Perm (task :: waiting ++ running) := List.perm_middle
    refine ⟨(hperm.map _).nodup_iff.mpr h.parties, fun t ht => h.known t ((hperm.map _).mem_iff.mp ht),
      fun p hp => ?_, h.other⟩
    cases h.progress p hp with
    | waiting hmem hstate hnew =>
      rcases List.mem_cons.mp hmem with heq | hmem
      · exact .running [] (List.mem_cons.mpr (.inl heq)) (fun rest => by rw [hstate]; rfl) hnew
      · exact .waiting hmem hstate hnew
    | running cs hmem hrun hnew => exact .running cs (List.mem_cons_of_mem _ hmem) hrun hnew
    | done cs hmem hresult hrun =>
      exact .done cs (fun hp => hmem ((hperm.map _).mem_iff.mp hp)) hresult hrun
  | @turn s₁ waiting before after results₁ t op next c =>
    have hkeys : ∀ m : Prog Op Res ε α, (waiting ++ (before ++ (t, m) :: after)).map Prod.fst =
        (waiting ++ before).map Prod.fst ++ t :: after.map Prod.fst := by
      intro m
      simp
    have hsame := (hkeys (next (exec c op (s₁ t)).1)).trans (hkeys (.call op next)).symm
    refine ⟨hsame ▸ h.parties, hsame ▸ h.known, fun p hp => ?_, fun u hu => ?_⟩
    · obtain ⟨u, m⟩ := p
      by_cases hu : u = t
      · subst hu
        obtain ⟨hnew, cs, hrun⟩ := h.atWork (List.mem_append_right _ List.mem_cons_self) hp
        refine .running (cs ++ [c]) (List.mem_append_right _ List.mem_cons_self) (fun rest => ?_) hnew
        rw [List.append_assoc, hrun]
        change _ = Prog.run exec rest _ (Function.update s₁ u _ u)
        rw [Function.update_self]
        rfl
      · refine (h.progress _ hp).keep (fun _ hm => hm) (fun m' hm => ?_) (fun hfree => ?_)
          (Function.update_of_ne hu _ _) rfl
        · simpa [hu] using hm
        · exact hsame ▸ hfree
    · have hne : u ≠ t := by
        rintro rfl
        exact hu (h.known u (by simp))
      exact ⟨(Function.update_of_ne hne _ _).trans (h.other u hu).1, (h.other u hu).2⟩
  | @finish s₁ waiting before after results₁ t m' x hend =>
    have hsub : (waiting ++ (before ++ after)).Sublist (waiting ++ (before ++ (t, m') :: after)) :=
      ((List.sublist_cons_self _ _).append_left before).append_left waiting
    have hleft : t ∉ (waiting ++ (before ++ after)).map Prod.fst := by
      have hparties := h.parties
      have hperm : ((waiting ++ (before ++ (t, m') :: after)).map Prod.fst).Perm
          (t :: (waiting ++ (before ++ after)).map Prod.fst) := by
        rw [← List.append_assoc, ← List.append_assoc]
        exact List.perm_middle.map Prod.fst
      exact (List.nodup_cons.mp (hperm.nodup_iff.mp hparties)).1
    refine ⟨h.parties.sublist (hsub.map _), fun u hu => h.known u ((hsub.map _).subset hu),
      fun p hp => ?_, fun u hu => ?_⟩
    · obtain ⟨u, m⟩ := p
      by_cases hu : u = t
      · subst hu
        obtain ⟨-, cs, hrun⟩ := h.atWork (List.mem_append_right _ List.mem_cons_self) hp
        refine .done cs hleft (Function.update_self ..) ?_
        have hwhole := hrun []
        rw [List.append_nil] at hwhole
        exact hwhole.trans hend
      · refine (h.progress _ hp).keep (fun _ hm => hm) (fun m' hm => ?_)
          (fun hfree hmem => hfree ((hsub.map _).subset hmem)) rfl (Function.update_of_ne hu _ _)
        simpa [hu] using hm
    · have hne : u ≠ t := by
        rintro rfl
        exact hu (h.known u (by simp))
      exact ⟨(h.other u hu).1, (Function.update_of_ne hne _ _).trans (h.other u hu).2⟩

theorem Reaches.onTheWay (hparties : (tasks.map Prod.fst).Nodup)
    (h : Reaches exec workers ⟨s, tasks, [], results⟩ b) : OnTheWay exec s results tasks b := by
  induction h with
  | refl =>
    exact ⟨by simpa using hparties, by simp, fun p hp => .waiting hp rfl rfl, fun t _ => ⟨rfl, rfl⟩⟩
  | tail _ hstep ih => exact ih.step hstep

/-- A result that is new is one of a task, run alone. -/
theorem Reaches.result (hparties : (tasks.map Prod.fst).Nodup)
    (h : Reaches exec workers ⟨s, tasks, [], results⟩ b) {t : T} {x : Except ε α}
    (hnew : results t = none) (hresult : b.results t = some x) :
    ∃ m cs v, (t, m) ∈ tasks ∧ Prog.run exec cs m (s t) = some (x, v) := by
  have hway := h.onTheWay hparties
  by_cases ht : t ∈ tasks.map Prod.fst
  · obtain ⟨⟨u, m⟩, hp, rfl⟩ := List.mem_map.mp ht
    cases hway.progress _ hp with
    | waiting _ _ hsame =>
      rw [hsame, hnew] at hresult
      cases hresult
    | running _ _ _ hsame =>
      rw [hsame, hnew] at hresult
      cases hresult
    | done cs _ hresult' hrun =>
      rw [hresult] at hresult'
      cases hresult'
      exact ⟨m, cs, _, hp, hrun⟩
  · rw [(hway.other t ht).2, hnew] at hresult
    cases hresult

/-- A pool that is through with its tasks. -/
theorem Reaches.done (hparties : (tasks.map Prod.fst).Nodup)
    (h : Reaches exec workers ⟨s, tasks, [], results⟩ ⟨s', [], [], results'⟩) :
    Done exec s results tasks s' results' := by
  have hend := h.onTheWay hparties
  refine ⟨fun p hp => ?_, hend.other⟩
  cases hend.progress p hp with
  | waiting hmem => cases hmem
  | running cs hmem => cases hmem
  | done cs hmem hresult hrun => exact ⟨_, cs, hresult, hrun⟩

/-- A worker carries a task out from its start to its end. -/
theorem reaches_run {waiting : List (T × Prog Op Res ε α)} {t : T} {x : Except ε α} {v : V}
    {cs : List C} {m : Prog Op Res ε α} (h : Prog.run exec cs m (s t) = some (x, v)) :
    Reaches exec workers ⟨s, waiting, [(t, m)], results⟩
      ⟨Function.update s t v, waiting, [], Function.update results t (some x)⟩ := by
  have hfinish : ∀ (s : T → V) (m : Prog Op Res ε α), Prog.run exec [] m (s t) = some (x, v) →
      v = s t → Reaches exec workers ⟨s, waiting, [(t, m)], results⟩
        ⟨Function.update s t v, waiting, [], Function.update results t (some x)⟩ := by
    rintro s m hrun rfl
    rw [Function.update_eq_self]
    exact .single (@Step.finish _ _ _ _ _ _ _ exec _ workers s waiting [] [] results t m x hrun)
  induction m generalizing s cs with
  | ret a =>
    have hrun : some (.ok a, s t) = some (x, v) := by
      cases cs <;> exact h
    exact hfinish s _ hrun (by cases hrun; rfl)
  | raise e =>
    have hrun : some (.error e, s t) = some (x, v) := by
      cases cs <;> exact h
    exact hfinish s _ hrun (by cases hrun; rfl)
  | call op next ih =>
    cases cs with
    | nil => cases h
    | cons c cs =>
      have hturn : Step exec workers ⟨s, waiting, [(t, .call op next)], results⟩
          ⟨Function.update s t (exec c op (s t)).2, waiting, [(t, next (exec c op (s t)).1)], results⟩ :=
        @Step.turn _ _ _ _ _ _ _ exec _ workers s waiting [] [] results t op next c
      have hrest := @ih (exec c op (s t)).1 (Function.update s t (exec c op (s t)).2) cs
        (by rw [Function.update_self]; exact h)
      rw [Function.update_idem] at hrest
      exact .head hturn hrest

/-- A pool comes to just what its tasks come to one by one. -/
theorem reaches_iff (hworkers : 0 < workers) (hparties : (tasks.map Prod.fst).Nodup) :
    Reaches exec workers ⟨s, tasks, [], results⟩ ⟨s', [], [], results'⟩ ↔
      Done exec s results tasks s' results' := by
  refine ⟨fun h => h.done hparties, fun h => ?_⟩
  induction tasks generalizing s results with
  | nil =>
    have hstate : s' = s := funext fun t => (h.other t List.not_mem_nil).1
    have hresults : results' = results := funext fun t => (h.other t List.not_mem_nil).2
    rw [hstate, hresults]
  | cons task tasks ih =>
    obtain ⟨t, m⟩ := task
    obtain ⟨hfresh, hparties'⟩ := List.nodup_cons.mp hparties
    obtain ⟨x, cs, hresult, hrun⟩ := h.alone (t, m) List.mem_cons_self
    refine .head (.take hworkers) ((reaches_run hrun).trans ?_)
    refine ih hparties' ⟨fun p hp => ?_, fun u hu => ?_⟩
    · obtain ⟨y, cs', hy, hrun'⟩ := h.alone p (List.mem_cons_of_mem _ hp)
      have hne : p.1 ≠ t := by
        rintro rfl
        exact hfresh (List.mem_map.mpr ⟨p, hp, rfl⟩)
      exact ⟨y, cs', hy, by rw [Function.update_of_ne hne]; exact hrun'⟩
    · by_cases hut : u = t
      · subst hut
        rw [Function.update_self, Function.update_self]
        exact ⟨rfl, hresult⟩
      · rw [Function.update_of_ne hut, Function.update_of_ne hut]
        exact h.other u (by simp [hut, hu])

end Pool

end Lib
