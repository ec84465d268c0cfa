import Mathlib.Data.List.Nodup
import RchProxy.Lib.Notes
import RchProxy.Lib.Threads

/-!
# Programs that share a lock

Programs side by side, where a part of the state is changed by the holder of a lock only (`Fence`).
A program is followed from one side of the fence to the other (`Prog.Fenced`): outside it knows no
more than what its party left there itself, inside it has the part to itself and makes allowed
changes, and where it gives the lock back it has restored the invariant. What each program keeps on
its own, all of them keep in whatever order they take their turns (`Threads.Turns.fenced`).
-/

namespace Lib

/-- What a lock protects: the holder of the lock, the part of the state only the holder changes with
its invariant and the changes that are allowed, and what of this part is a party's own. -/
structure Fence (T S V L : Type) where
  holder : S → Option T
  view : S → V
  own : T → V → L
  Inv : V → Prop
  Allowed : V → V → Prop

/-- Where a party stands. -/
inductive Side (V L : Type) where
  | outside (mine : L)
  | inside (v : V)

namespace Fence

variable {T S V L : Type} (F : Fence T S V L)

/-- The party stands there. -/
def At (t : T) (s : S) : Side V L → Prop
  | .outside mine => F.holder s ≠ some t ∧ F.own t (F.view s) = mine
  | .inside v => F.holder s = some t ∧ F.view s = v

/-- How an operation moves the party. -/
inductive Moves (t : T) (s s' : S) : Side V L → Side V L → Prop where
  | stay {side : Side V L} (hholder : F.holder s' = F.holder s) (hview : F.view s' = F.view s) :
    Moves t s s' side side
  | enter {mine : L} (hfree : F.holder s = none) (hholder : F.holder s' = some t)
    (hview : F.view s' = F.view s) : Moves t s s' (.outside mine) (.inside (F.view s))
  | act {v : V} (hholder : F.holder s' = some t) (hallowed : F.Allowed v (F.view s'))
    (hown : ∀ u, u ≠ t → F.own u (F.view s') = F.own u v) :
    Moves t s s' (.inside v) (.inside (F.view s'))
  | leave {v : V} (hholder : F.holder s' = none) (hview : F.view s' = v) (hinv : F.Inv v) :
    Moves t s s' (.inside v) (.outside (F.own t v))

/-- Inside, with the part in order again for a program that goes on outside. -/
def Restored {α : Type} (t : T) (Q : α → Side V L → Prop) (a : α) (side : Side V L) : Prop :=
  ∃ v, side = .inside v ∧ F.Inv v ∧ Q a (.outside (F.own t v))

end Fence

namespace Prog

variable {Op : Type} {Res : Op → Type} {ε α β T S V L : Type} (F : Fence T S V L)
  (Exec : T → (op : Op) → S → Res op → S → Prop) (t : T)

/-- The program of the party moves by the rules of the fence, and ends where `Q` holds, or raises
where `E` does. -/
def Fenced (Q : α → Side V L → Prop) (E : ε → Side V L → Prop) :
    Prog Op Res ε α → Side V L → Prop
  | ret a, side => Q a side
  | raise e, side => E e side
  | call op next, side => ∀ s r s', F.At t s side → (F.holder s = none → F.Inv (F.view s)) →
      Exec t op s r s' → ∃ side', F.Moves t s s' side side' ∧ Fenced Q E (next r) side'

variable {F Exec t} {Q Q' : α → Side V L → Prop} {E E' : ε → Side V L → Prop} {side : Side V L}

theorem Fenced.mono {m : Prog Op Res ε α} (h : Fenced F Exec t Q E m side)
    (hQ : ∀ a side, Q a side → Q' a side) (hE : ∀ e side, E e side → E' e side) :
    Fenced F Exec t Q' E' m side := by
  induction m generalizing side with
  | ret a => exact hQ a side h
  | raise e => exact hE e side h
  | call op next ih =>
    intro s r s' hat hinv hexec
    obtain ⟨side', hmoves, hnext⟩ := h s r s' hat hinv hexec
    exact ⟨side', hmoves, ih r hnext⟩

theorem Fenced.bind {m : Prog Op Res ε α} {f : α → Prog Op Res ε β} {R : β → Side V L → Prop}
    (h : Fenced F Exec t (fun a side => Fenced F Exec t R E (f a) side) E m side) :
    Fenced F Exec t R E (m >>= f) side := by
  change Fenced F Exec t R E (m.bind f) side
  induction m generalizing side with
  | ret a => exact h
  | raise e => exact h
  | call op next ih =>
    intro s r s' hat hinv hexec
    obtain ⟨side', hmoves, hnext⟩ := h s r s' hat hinv hexec
    exact ⟨side', hmoves, ih r hnext⟩

theorem Fenced.map {m : Prog Op Res ε α} {f : α → β} {R : β → Side V L → Prop}
    (h : Fenced F Exec t (fun a side => R (f a) side) E m side) :
    Fenced F Exec t R E (f <$> m) side := by
  rw [map_eq_pure_bind]
  exact Fenced.bind h

theorem Fenced.tryCatch {m : Prog Op Res ε α} {handle : ε → Prog Op Res ε α}
    (h : Fenced F Exec t Q (fun e side => Fenced F Exec t Q E (handle e) side) m side) :
    Fenced F Exec t Q E (tryCatch m handle) side := by
  induction m generalizing side with
  | ret a => exact h
  | raise e => exact h
  | call op next ih =>
    intro s r s' hat hinv hexec
    obtain ⟨side', hmoves, hnext⟩ := h s r s' hat hinv hexec
    exact ⟨side', hmoves, ih r hnext⟩

theorem Fenced.tryFinally {m : Prog Op Res ε α} {cleanup : Prog Op Res ε Unit}
    (h : Fenced F Exec t
      (fun a side => Fenced F Exec t (fun _ side => Q a side) E cleanup side)
      (fun e side => Fenced F Exec t (fun _ side => E e side) E cleanup side) m side) :
    Fenced F Exec t Q E (tryFinally m cleanup) side := by
  induction m generalizing side with
  | ret a => exact Fenced.bind (m := cleanup) h
  | raise e => exact Fenced.bind (m := cleanup) h
  | call op next ih =>
    intro s r s' hat hinv hexec
    obtain ⟨side', hmoves, hnext⟩ := h s r s' hat hinv hexec
    exact ⟨side', hmoves, ih r hnext⟩

theorem Fenced.result {m : Prog Op Res ε α} {R : Except ε α → Side V L → Prop}
    (h : Fenced F Exec t (fun a side => R (.ok a) side) (fun e side => R (.error e) side) m side) :
    Fenced F Exec t R E m.result side := by
  induction m generalizing side with
  | ret a => exact h
  | raise e => exact h
  | call op next ih =>
    intro s r s' hat hinv hexec
    obtain ⟨side', hmoves, hnext⟩ := h s r s' hat hinv hexec
    exact ⟨side', hmoves, ih r hnext⟩

theorem Fenced.pure {a : α} (h : Q a side) :
    Fenced F Exec t Q E (Pure.pure a : Prog Op Res ε α) side := h

theorem Fenced.throw {e : ε} (h : E e side) :
    Fenced F Exec t Q E (throw e : Prog Op Res ε α) side := h

theorem Fenced.ofExcept {x : Except ε α} (hok : ∀ a, x = .ok a → Q a side)
    (herr : ∀ e, x = .error e → E e side) : Fenced F Exec t Q E (ofExcept x) side := by
  cases x with
  | ok a => exact hok a rfl
  | error e => exact herr e rfl

/-- A section of a program between taking the lock and giving it back. -/
theorem Fenced.section {m : Prog Op Res ε α} {release : Prog Op Res ε Unit}
    (hrelease : ∀ v, F.Inv v → ∀ R : Unit → Side V L → Prop, R () (.outside (F.own t v)) →
      Fenced F Exec t R E release (.inside v))
    (h : Fenced F Exec t (F.Restored t Q) (F.Restored t E) m side) :
    Fenced F Exec t Q E (Prog.tryFinally m release) side := by
  refine Fenced.tryFinally (h.mono ?_ ?_)
  · rintro a side ⟨v, rfl, hinv, hQ⟩
    exact hrelease v hinv _ hQ
  · rintro e side ⟨v, rfl, hinv, hE⟩
    exact hrelease v hinv _ hE

/-- A program that takes no note moves as it does where no note can be taken. -/
theorem Fenced.silent {Note : Type} {Exec : T → (a : Act Op Note) → S → Act.Res Res a → S → Prop}
    {m : Prog Op Res ε α} (h : Fenced F (fun t op => Exec t (.op op)) t Q E m side) :
    Fenced F Exec t Q E m.silent side := by
  induction m generalizing side with
  | ret a => exact h
  | raise e => exact h
  | call op next ih =>
    intro s r s' hat hinv hexec
    obtain ⟨side', hmoves, hnext⟩ := h s r s' hat hinv hexec
    exact ⟨side', hmoves, ih r hnext⟩

end Prog

namespace Threads

variable {Op : Type} {Res : Op → Type} {ε α T S V L : Type} (F : Fence T S V L)
  (Exec : T → (op : Op) → S → Res op → S → Prop)

/-- One of the programs at work performs its next operation; none stops before its end. -/
inductive Turn : Threads Op Res ε α T S → Threads Op Res ε α T S → Prop where
  | turn {s s' : S} {before after : List (T × Prog Op Res ε α)} {t : T} {op : Op}
    {next : Res op → Prog Op Res ε α} {r : Res op} (h : Exec t op s r s') :
    Turn ⟨s, before ++ (t, .call op next) :: after⟩ ⟨s', before ++ (t, next r) :: after⟩

/-- Any number of turns. -/
def Turns : Threads Op Res ε α T S → Threads Op Res ε α T S → Prop :=
  Relation.ReflTransGen (Turn Exec)

/-- Parties that keep to the fence: the part it protects is in order while the lock is free, and
every program goes on by the rules from where its party stands. -/
structure Fenced (Q : T → α → Side V L → Prop) (E : T → ε → Side V L → Prop)
    (a : Threads Op Res ε α T S) : Prop where
  parties : (a.running.map Prod.fst).Nodup
  inv : F.holder a.state = none → F.Inv (F.view a.state)
  stands : ∀ p ∈ a.running, ∃ side, F.At p.1 a.state side ∧
    p.2.Fenced F Exec p.1 (Q p.1) (E p.1) side

variable {F Exec} {Q : T → α → Side V L → Prop} {E : T → ε → Side V L → Prop}

/-- A move leaves the other parties where they stand. -/
theorem at_of_moves {s s' : S} {t u : T} {side side' other : Side V L} (hut : u ≠ t)
    (ht : F.At t s side) (hu : F.At u s other) (h : F.Moves t s s' side side') :
    F.At u s' other := by
  have hown : F.own u (F.view s') = F.own u (F.view s) := by
    cases h with
    | stay _ hview => rw [hview]
    | enter _ _ hview => rw [hview]
    | act _ _ hown => rw [hown u hut, ht.2]
    | leave _ hview _ => rw [hview, ht.2]
  cases other with
  | outside mine =>
    refine ⟨?_, hown.trans hu.2⟩
    cases h with
    | stay hholder _ => exact hholder ▸ hu.1
    | enter _ hholder _ => rw [hholder]; exact fun heq => hut (Option.some.inj heq).symm
    | act hholder _ _ => rw [hholder]; exact fun heq => hut (Option.some.inj heq).symm
    | leave hholder _ _ => rw [hholder]; exact nofun
  | inside v =>
    -- Only one party is inside.
    cases h with
    | stay hholder hview => exact ⟨hholder.trans hu.1, hview.trans hu.2⟩
    | enter hfree _ _ => exact absurd (hfree.symm.trans hu.1) nofun
    | act _ _ _ => exact absurd (Option.some.inj (hu.1.symm.trans ht.1)) hut
    | leave _ _ _ => exact absurd (Option.some.inj (hu.1.symm.trans ht.1)) hut

/-- A move leaves the part in order, or to the party that stands inside. -/
theorem inv_of_moves {s s' : S} {t : T} {side side' : Side V L} (h : F.Moves t s s' side side')
    (hinv : F.holder s = none → F.Inv (F.view s)) (hfree : F.holder s' = none) :
    F.Inv (F.view s') := by
  cases h with
  | stay hholder hview => rw [hview]; exact hinv (hholder.symm.trans hfree)
  | enter _ hholder _ => exact absurd (hholder.symm.trans hfree) nofun
  | act hholder _ _ => exact absurd (hholder.symm.trans hfree) nofun
  | leave _ hview hinv => rw [hview]; exact hinv

/-- A move ends where the party then stands. -/
theorem at_self_of_moves {s s' : S} {t : T} {side side' : Side V L} (hat : F.At t s side)
    (h : F.Moves t s s' side side') : F.At t s' side' := by
  cases h with
  | stay hholder hview =>
    cases side with
    | outside mine => exact ⟨hholder ▸ hat.1, by rw [hview]; exact hat.2⟩
    | inside v => exact ⟨hholder ▸ hat.1, hview.trans hat.2⟩
  | enter _ hholder hview => exact ⟨hholder, hview⟩
  | act hholder _ _ => exact ⟨hholder, rfl⟩
  | leave hholder hview _ => exact ⟨by rw [hholder]; exact nofun, by rw [hview]⟩

/-- A move changes the part in an allowed way, if at all. -/
theorem allowed_of_moves {s s' : S} {t : T} {side side' : Side V L} (hat : F.At t s side)
    (h : F.Moves t s s' side side') :
    F.view s' = F.view s ∨ F.Allowed (F.view s) (F.view s') := by
  cases h with
  | stay _ hview | enter _ _ hview => exact .inl hview
  | act _ hallowed _ =>
    rw [← hat.2] at hallowed
    exact .inr hallowed
  | leave _ hview _ => exact .inl (hview.trans hat.2.symm)

theorem Turn.allowed {a b : Threads Op Res ε α T S} (h : Turn Exec a b) (ha : a.Fenced F Exec Q E) :
    F.view b.state = F.view a.state ∨ F.Allowed (F.view a.state) (F.view b.state) := by
  cases h with
  | @turn s s' before after t op next r hexec =>
    obtain ⟨side, hat, hprog⟩ := ha.stands (t, .call op next) (by simp)
    obtain ⟨side', hmoves, -⟩ := hprog s r s' hat ha.inv hexec
    exact allowed_of_moves hat hmoves

theorem Turn.fenced {a b : Threads Op Res ε α T S} (h : Turn Exec a b) (ha : a.Fenced F Exec Q E) :
    b.Fenced F Exec Q E := by
  cases h with
  | @turn s s' before after t op next r hexec =>
    obtain ⟨side, hat, hprog⟩ := ha.stands (t, .call op next) (by simp)
    obtain ⟨side', hmoves, hnext⟩ := hprog s r s' hat ha.inv hexec
    refine ⟨by simpa using ha.parties, inv_of_moves hmoves ha.inv, fun p hp => ?_⟩
    have hother : p ∈ before ++ after → p.1 ≠ t := by
      intro hmem
      have hnodup := ha.parties
      simp only [List.map_append, List.map_cons] at hnodup
      have hnot := (List.nodup_cons.mp (List.nodup_middle.mp hnodup)).1
      rintro rfl
      exact hnot (List.map_append ▸ List.mem_map_of_mem hmem)
    have hkeeps : p ∈ before ++ after → ∃ side, F.At p.1 s' side ∧
        p.2.Fenced F Exec p.1 (Q p.1) (E p.1) side := by
      intro hmem
      obtain ⟨other, hu, hprog⟩ := ha.stands p (by
        rcases List.mem_append.mp hmem with hp | hp
        · exact List.mem_append_left _ hp
        · exact List.mem_append_right _ (List.mem_cons_of_mem _ hp))
      exact ⟨other, at_of_moves (hother hmem) hat hu hmoves, hprog⟩
    rcases List.mem_append.mp hp with hp | hp
    · exact hkeeps (List.mem_append_left _ hp)
    · rcases List.mem_cons.mp hp with rfl | hp
      · exact ⟨side', at_self_of_moves hat hmoves, hnext⟩
      · exact hkeeps (List.mem_append_right _ hp)

/-- Parties that keep to the fence keep to it in whatever order they take their turns. -/
theorem Turns.fenced {a b : Threads Op Res ε α T S} (h : Turns Exec a b)
    (ha : a.Fenced F Exec Q E) : b.Fenced F Exec Q E := by
  induction h with
  | refl => exact ha
  | tail _ hturn ih => exact hturn.fenced ih

end Threads

end Lib
