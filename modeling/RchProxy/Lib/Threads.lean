import Mathlib.Logic.Relation
import RchProxy.Lib.Prog

/-!
# Programs side by side

Any number of programs at work on one state, each on its own behalf: at every moment a program is
started, one of them performs its next operation, or one stops, for good or because it crashed. What
a program may call is a predicate on the tree (`Prog.Calls`), so an invariant that every such
operation keeps holds in every state that is reached, whatever the order (`Threads.invariant`).
-/

namespace Lib

variable {Op : Type} {Res : Op → Type} {ε α β : Type}

namespace Prog

/-- Every operation the program performs satisfies `P` and every value it returns `Q`, as long as the
answers satisfy `L`. -/
def Calls (P : Op → Prop) (L : (op : Op) → Res op → Prop) (Q : α → Prop) :
    Prog Op Res ε α → Prop
  | ret a => Q a
  | raise _ => True
  | call op next => P op ∧ ∀ r, L op r → Calls P L Q (next r)

variable {P : Op → Prop} {L : (op : Op) → Res op → Prop} {Q Q' : α → Prop}

theorem Calls.mono {m : Prog Op Res ε α} (h : Calls P L Q m) (hQ : ∀ a, Q a → Q' a) :
    Calls P L Q' m := by
  induction m with
  | ret a => exact hQ a h
  | raise e => trivial
  | call op next ih => exact ⟨h.1, fun r hr => ih r (h.2 r hr)⟩

theorem Calls.weaken {P' : Op → Prop} {m : Prog Op Res ε α} (h : Calls P L Q m)
    (hP : ∀ op, P op → P' op) : Calls P' L Q m := by
  induction m with
  | ret a => exact h
  | raise e => trivial
  | call op next ih => exact ⟨hP op h.1, fun r hr => ih r (h.2 r hr)⟩

theorem Calls.bind {m : Prog Op Res ε α} {f : α → Prog Op Res ε β} {R : β → Prop}
    (h : Calls P L (fun a => Calls P L R (f a)) m) : Calls P L R (m >>= f) := by
  change Calls P L R (m.bind f)
  induction m with
  | ret a => exact h
  | raise e => trivial
  | call op next ih => exact ⟨h.1, fun r hr => ih r (h.2 r hr)⟩

theorem Calls.map {m : Prog Op Res ε α} {f : α → β} {R : β → Prop}
    (h : Calls P L (fun a => R (f a)) m) : Calls P L R (f <$> m) := by
  rw [map_eq_pure_bind]
  exact Calls.bind h

theorem Calls.tryCatch {m : Prog Op Res ε α} {handle : ε → Prog Op Res ε α} (h : Calls P L Q m)
    (hhandle : ∀ e, Calls P L Q (handle e)) : Calls P L Q (tryCatch m handle) := by
  induction m with
  | ret a => exact h
  | raise e => exact hhandle e
  | call op next ih => exact ⟨h.1, fun r hr => ih r (h.2 r hr)⟩

theorem Calls.tryFinally {m : Prog Op Res ε α} {cleanup : Prog Op Res ε Unit} (h : Calls P L Q m)
    (hcleanup : Calls P L (fun _ => True) cleanup) : Calls P L Q (tryFinally m cleanup) := by
  induction m with
  | ret a => exact Calls.bind (m := cleanup) (hcleanup.mono fun _ _ => h)
  | raise e => exact Calls.bind (m := cleanup) (hcleanup.mono fun _ _ => trivial)
  | call op next ih => exact ⟨h.1, fun r hr => ih r (h.2 r hr)⟩

theorem Calls.result {m : Prog Op Res ε α} {R : Except ε α → Prop}
    (h : Calls P L (fun a => R (.ok a)) m) (herr : ∀ e, R (.error e)) : Calls P L R m.result := by
  induction m with
  | ret a => exact h
  | raise e => exact herr e
  | call op next ih => exact ⟨h.1, fun r hr => ih r (h.2 r hr)⟩

theorem Calls.pure {a : α} (h : Q a) : Calls P L Q (Pure.pure a : Prog Op Res ε α) := h

theorem Calls.ite {c : Prop} [Decidable c] {m m' : Prog Op Res ε α} (h : c → Calls P L Q m)
    (h' : ¬ c → Calls P L Q m') : Calls P L Q (if c then m else m') := by
  split
  · next hc => exact h hc
  · next hc => exact h' hc

theorem Calls.throw {e : ε} : Calls P L Q (throw e : Prog Op Res ε α) := trivial

theorem Calls.perform {op : Op} {Q : Res op → Prop} (h : P op) (hQ : ∀ r, L op r → Q r) :
    Calls P L Q (perform op : Prog Op Res ε (Res op)) := ⟨h, hQ⟩

theorem Calls.ofExcept {x : Except ε α} (h : ∀ a, x = .ok a → Q a) :
    Calls P L Q (ofExcept x : Prog Op Res ε α) := by
  cases x with
  | ok a => exact h a rfl
  | error e => trivial

end Prog

/-- A state, and the programs at work on it with the parties they work for. -/
structure Threads (Op : Type) (Res : Op → Type) (ε α T S : Type) where
  state : S
  running : List (T × Prog Op Res ε α)

namespace Threads

variable {T S : Type} (Start : T → Prog Op Res ε α → Prop)
  (Exec : T → (op : Op) → S → Res op → S → Prop)

/-- What happens at one moment. -/
inductive Step : Threads Op Res ε α T S → Threads Op Res ε α T S → Prop where
  | start {s : S} {running : List (T × Prog Op Res ε α)} {t : T} {m : Prog Op Res ε α}
    (h : Start t m) : Step ⟨s, running⟩ ⟨s, (t, m) :: running⟩
  | turn {s s' : S} {before after : List (T × Prog Op Res ε α)} {t : T} {op : Op}
    {next : Res op → Prog Op Res ε α} {r : Res op} (h : Exec t op s r s') :
    Step ⟨s, before ++ (t, .call op next) :: after⟩ ⟨s', before ++ (t, next r) :: after⟩
  | stop {s : S} {before after : List (T × Prog Op Res ε α)} {p : T × Prog Op Res ε α} :
    Step ⟨s, before ++ p :: after⟩ ⟨s, before ++ after⟩

/-- What happens in any number of moments. -/
def Reaches : Threads Op Res ε α T S → Threads Op Res ε α T S → Prop :=
  Relation.ReflTransGen (Step Start Exec)

variable {Start} {Exec} {P : T → Op → Prop} {L : (op : Op) → Res op → Prop} {I : S → Prop}

/-- The programs at work perform nothing but what they may. -/
def Confined (P : T → Op → Prop) (L : (op : Op) → Res op → Prop)
    (a : Threads Op Res ε α T S) : Prop :=
  ∀ p ∈ a.running, Prog.Calls (P p.1) L (fun _ => True) p.2

theorem Step.invariant (hstart : ∀ t m, Start t m → Prog.Calls (P t) L (fun _ => True) m)
    (hexec : ∀ t op s r s', I s → P t op → Exec t op s r s' → I s' ∧ L op r)
    {a b : Threads Op Res ε α T S} (h : Step Start Exec a b) (hI : I a.state) (ha : a.Confined P L) :
    I b.state ∧ b.Confined P L := by
  cases h with
  | start hm =>
    refine ⟨hI, fun p hp => ?_⟩
    rcases List.mem_cons.mp hp with rfl | hp
    · exact hstart _ _ hm
    · exact ha p hp
  | @turn s s' before after t op next r hop =>
    obtain ⟨hP, hnext⟩ := ha (t, .call op next) (by simp)
    obtain ⟨hI', hL⟩ := hexec t op s r s' hI hP hop
    refine ⟨hI', fun p hp => ?_⟩
    rcases List.mem_append.mp hp with hp | hp
    · exact ha p (List.mem_append_left _ hp)
    · rcases List.mem_cons.mp hp with rfl | hp
      · exact hnext r hL
      · exact ha p (List.mem_append_right _ (List.mem_cons_of_mem _ hp))
  | @stop s before after p =>
    refine ⟨hI, fun q hq => ha q ?_⟩
    rcases List.mem_append.mp hq with hq | hq
    · exact List.mem_append_left _ hq
    · exact List.mem_append_right _ (List.mem_cons_of_mem _ hq)

/-- What every permitted operation keeps holds in every state that is reached. -/
theorem invariant (hstart : ∀ t m, Start t m → Prog.Calls (P t) L (fun _ => True) m)
    (hexec : ∀ t op s r s', I s → P t op → Exec t op s r s' → I s' ∧ L op r)
    {a b : Threads Op Res ε α T S} (h : Reaches Start Exec a b) (hI : I a.state)
    (ha : a.Confined P L) : I b.state := by
  have hboth : I b.state ∧ b.Confined P L := by
    induction h with
    | refl => exact ⟨hI, ha⟩
    | tail _ hstep ih => exact hstep.invariant hstart hexec ih.1 ih.2
  exact hboth.1

end Threads

end Lib
