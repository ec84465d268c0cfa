import Mathlib.Data.List.Nodup
import RchProxy.Lib.Threads

/-!
# Programs with parts of their own

Programs side by side, where every party has a part of the state to itself: what its program does, it
does to this part, as a machine on the part alone says (`Threads.Local`). What a program keeps while
it runs on its own (`Prog.Safe`) it then keeps of its part whatever the others do, and wherever they
stop (`Threads.Apart.parts`).
-/

namespace Lib

namespace Threads

variable {Op : Type} {Res : Op → Type} {ε α T S V C : Type}

section
variable (view : T → S → V) (exec : C → (op : Op) → V → Res op × V) (May : T → Op → Prop)
  (Exec : T → (op : Op) → S → Res op → S → Prop)

/-- What a party may do it does to its part, and to no other. -/
structure Local : Prop where
  own : ∀ {t op s r s'}, May t op → Exec t op s r s' → ∃ c, exec c op (view t s) = (r, view t s')
  other : ∀ {t op s r s' u}, May t op → Exec t op s r s' → u ≠ t → view u s' = view u s

end

section
variable (view : T → S → V) (exec : C → (op : Op) → V → Res op × V) (May : T → Op → Prop)
  (I : T → V → Prop)

/-- A program of a party: it does what the party may, and keeps the invariant of its part. -/
structure Keeps (t : T) (m : Prog Op Res ε α) (v : V) : Prop where
  calls : m.Calls (May t) (fun _ _ => True) (fun _ => True)
  safe : m.Safe exec (I t) (fun _ _ => True) (fun _ _ => True) v

/-- Every part is in order, and every program at work goes on to keep its own so. -/
structure InParts (a : Threads Op Res ε α T S) : Prop where
  parties : (a.running.map Prod.fst).Nodup
  parts : ∀ t, I t (view t a.state)
  keeps : ∀ p ∈ a.running, Keeps exec May I p.1 p.2 (view p.1 a.state)

end

section
variable (Start : T → Prog Op Res ε α → Prop) (Exec : T → (op : Op) → S → Res op → S → Prop)

/-- What happens at one moment, where a party starts no program while it has one at work. -/
def Apart (a b : Threads Op Res ε α T S) : Prop :=
  Step Start Exec a b ∧ (b.running.map Prod.fst).Nodup

end

variable {view : T → S → V} {exec : C → (op : Op) → V → Res op × V} {May : T → Op → Prop}
  {I : T → V → Prop} {Start : T → Prog Op Res ε α → Prop}
  {Exec : T → (op : Op) → S → Res op → S → Prop}

theorem Apart.inParts (hlocal : Local view exec May Exec)
    (hstart : ∀ t m, Start t m → ∀ v, I t v → Keeps exec May I t m v)
    {a b : Threads Op Res ε α T S} (h : Apart Start Exec a b) (ha : InParts view exec May I a) :
    InParts view exec May I b := by
  obtain ⟨hstep, hparties⟩ := h
  cases hstep with
  | start hm =>
    refine ⟨hparties, ha.parts, fun p hp => ?_⟩
    rcases List.mem_cons.mp hp with rfl | hp
    · exact hstart _ _ hm _ (ha.parts _)
    · exact ha.keeps p hp
  | @turn s s' before after t op next r hexec =>
    obtain ⟨⟨hmay, hcalls⟩, hsafe⟩ := ha.keeps (t, .call op next) (by simp)
    obtain ⟨c, hown⟩ := hlocal.own hmay hexec
    have hnext := hsafe.2 c
    rw [hown] at hnext
    have hother : ∀ p ∈ before ++ after, p.1 ≠ t := by
      intro p hp heq
      have hnodup := ha.parties
      rw [List.map_append, List.map_cons] at hnodup
      have hnot := (List.nodup_cons.mp (List.nodup_middle.mp hnodup)).1
      rw [← List.map_append] at hnot
      exact hnot (List.mem_map.mpr ⟨p, hp, heq⟩)
    refine ⟨hparties, fun u => ?_, fun p hp => ?_⟩
    · by_cases hu : u = t
      · subst hu
        exact hnext.inv
      · rw [hlocal.other hmay hexec hu]
        exact ha.parts u
    · have hkept : p ∈ before ++ after → Keeps exec May I p.1 p.2 (view p.1 s') := by
        intro hp
        rw [hlocal.other hmay hexec (hother p hp)]
        exact ha.keeps p (by
          rcases List.mem_append.mp hp with hp | hp
          · exact List.mem_append_left _ hp
          · exact List.mem_append_right _ (List.mem_cons_of_mem _ hp))
      rcases List.mem_append.mp hp with hp | hp
      · exact hkept (List.mem_append_left _ hp)
      · rcases List.mem_cons.mp hp with rfl | hp
        · exact ⟨hcalls r trivial, hnext⟩
        · exact hkept (List.mem_append_right _ hp)
  | @stop s before after p =>
    refine ⟨hparties, ha.parts, fun q hq => ha.keeps q ?_⟩
    rcases List.mem_append.mp hq with hq | hq
    · exact List.mem_append_left _ hq
    · exact List.mem_append_right _ (List.mem_cons_of_mem _ hq)

/-- What every program keeps of its own part holds of all the parts, in every state that is
reached. -/
theorem Apart.parts (hlocal : Local view exec May Exec)
    (hstart : ∀ t m, Start t m → ∀ v, I t v → Keeps exec May I t m v)
    {a b : Threads Op Res ε α T S} (h : Relation.ReflTransGen (Apart Start Exec) a b)
    (ha : InParts view exec May I a) : ∀ t, I t (view t b.state) := by
  have hb : InParts view exec May I b := by
    induction h with
    | refl => exact ha
    | tail _ hstep ih => exact hstep.inParts hlocal hstart ih
  exact hb.parts

/-- A program that is at work alone, on its way to its end. -/
theorem apart_run {exec : C → (op : Op) → S → Res op × S} {t : T}
    (hexec : ∀ c op s, Exec t op s (exec c op s).1 (exec c op s).2) {cs : List C}
    {m : Prog Op Res ε α} {s s' : S} {x : Except ε α} (h : m.run exec cs s = some (x, s')) :
    ∃ m', Relation.ReflTransGen (Apart Start Exec) ⟨s, [(t, m)]⟩ ⟨s', [(t, m')]⟩ := by
  induction m generalizing s cs with
  | ret a =>
    cases cs <;> cases h <;> exact ⟨_, .refl⟩
  | raise e =>
    cases cs <;> cases h <;> exact ⟨_, .refl⟩
  | call op next ih =>
    cases cs with
    | nil => cases h
    | cons c cs =>
      obtain ⟨m', hreaches⟩ := ih _ h
      have hturn : Apart Start Exec ⟨s, [(t, .call op next)]⟩
          ⟨(exec c op s).2, [(t, next (exec c op s).1)]⟩ :=
        ⟨@Step.turn _ _ _ _ _ _ _ _ _ _ [] [] t op next _ (hexec c op s), List.nodup_singleton t⟩
      exact ⟨m', .head hturn hreaches⟩

end Threads

end Lib
