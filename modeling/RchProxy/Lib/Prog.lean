import Mathlib.Logic.Basic

/-!
# Programs that call operations

A program is a tree of calls (`Prog`): it returns, it raises, or it performs an operation and goes on
with the answer. A machine says what an operation does to a state, where a choice settles what the
program does not determine (a clock, a random name, a fault). A program may stop after any of its
calls: `Visits` relates it to every state it can stop in, and `Safe` is the invariant rule for those
states, with a postcondition for each of the two ways to end.
-/

namespace Lib

/-- A program over the operations `Op`. -/
inductive Prog (Op : Type) (Res : Op → Type) (ε α : Type) : Type where
  | ret (a : α)
  | raise (e : ε)
  | call (op : Op) (next : Res op → Prog Op Res ε α)

namespace Prog

variable {Op : Type} {Res : Op → Type} {ε α β : Type}

/-- One program after the other. -/
def bind (m : Prog Op Res ε α) (f : α → Prog Op Res ε β) : Prog Op Res ε β :=
  match m with
  | ret a => f a
  | raise e => raise e
  | call op next => call op fun r => (next r).bind f

instance : Monad (Prog Op Res ε) where
  pure := ret
  bind := bind

/-- `try: m except: handle`. -/
def tryCatch (m : Prog Op Res ε α) (handle : ε → Prog Op Res ε α) : Prog Op Res ε α :=
  match m with
  | ret a => ret a
  | raise e => handle e
  | call op next => call op fun r => (next r).tryCatch handle

instance : MonadExcept ε (Prog Op Res ε) where
  throw := raise
  tryCatch := tryCatch

/-- `try: m finally: cleanup`. -/
def tryFinally (m : Prog Op Res ε α) (cleanup : Prog Op Res ε Unit) : Prog Op Res ε α :=
  match m with
  | ret a => cleanup.bind fun _ => ret a
  | raise e => cleanup.bind fun _ => raise e
  | call op next => call op fun r => (next r).tryFinally cleanup

/-- The program, with what it raises as a value. -/
def result (m : Prog Op Res ε α) : Prog Op Res ε (Except ε α) :=
  match m with
  | ret a => ret (.ok a)
  | raise e => ret (.error e)
  | call op next => call op fun r => (next r).result

/-- A single operation. -/
def perform (op : Op) : Prog Op Res ε (Res op) := call op ret

/-- A fallible value. -/
def ofExcept : Except ε α → Prog Op Res ε α
  | .ok a => ret a
  | .error e => raise e

variable {S C : Type} (exec : C → (op : Op) → S → Res op × S)

/-- The states in which the program can stop, the first one included. -/
inductive Visits : Prog Op Res ε α → S → S → Prop where
  | here (m : Prog Op Res ε α) (s : S) : Visits m s s
  | step {op : Op} {next : Res op → Prog Op Res ε α} {s s' : S} (c : C) :
    Visits (next (exec c op s).1) (exec c op s).2 s' → Visits (call op next) s s'

/-- The program, run to its end under a list of choices. -/
def run : List C → Prog Op Res ε α → S → Option (Except ε α × S)
  | _, ret a, s => some (.ok a, s)
  | _, raise e, s => some (.error e, s)
  | [], call _ _, _ => none
  | c :: cs, call op next, s => run cs (next (exec c op s).1) (exec c op s).2

/-- Wherever the program stops `I` holds; where it returns, `Q` does, and where it raises, `E`. -/
def Safe (I : S → Prop) (Q : α → S → Prop) (E : ε → S → Prop) : Prog Op Res ε α → S → Prop
  | ret a, s => I s ∧ Q a s
  | raise e, s => I s ∧ E e s
  | call op next, s => I s ∧ ∀ c, Safe I Q E (next (exec c op s).1) (exec c op s).2

theorem bind_ret (m : Prog Op Res ε α) : m.bind ret = m := by
  induction m with
  | ret a => rfl
  | raise e => rfl
  | call op next ih => exact congrArg (call op) (funext ih)

theorem bind_bind {γ : Type} (m : Prog Op Res ε α) (f : α → Prog Op Res ε β)
    (g : β → Prog Op Res ε γ) : (m.bind f).bind g = m.bind fun a => (f a).bind g := by
  induction m with
  | ret a => rfl
  | raise e => rfl
  | call op next ih => exact congrArg (call op) (funext ih)

instance : LawfulMonad (Prog Op Res ε) := LawfulMonad.mk' _ bind_ret (fun _ _ => rfl) bind_bind

@[simp] theorem throw_bind (e : ε) (f : α → Prog Op Res ε β) :
    (throw e : Prog Op Res ε α) >>= f = throw e := rfl

@[simp] theorem ofExcept_ok_bind (a : α) (f : α → Prog Op Res ε β) :
    (ofExcept (.ok a) : Prog Op Res ε α) >>= f = f a := rfl

/-! ## Runs that return -/

section
variable {exec : C → (op : Op) → S → Res op × S} {cs : List C} {s s' : S} {b : β}

/-- A run that returns has a choice for its next operation. -/
theorem run_perform_bind {op : Op} {f : Res op → Prog Op Res ε β}
    (h : run exec cs (perform op >>= f) s = some (.ok b, s')) :
    ∃ c rest, cs = c :: rest ∧
      run exec rest (f (exec c op s).1) (exec c op s).2 = some (.ok b, s') := by
  cases cs with
  | nil => cases h
  | cons c rest => exact ⟨c, rest, rfl, h⟩

theorem run_perform_cons {op : Op} {f : Res op → Prog Op Res ε β} {c : C} :
    run exec (c :: cs) (perform op >>= f) s = run exec cs (f (exec c op s).1) (exec c op s).2 := rfl

theorem run_ofExcept_bind {x : Except ε α} {f : α → Prog Op Res ε β}
    (h : run exec cs (ofExcept x >>= f) s = some (.ok b, s')) :
    ∃ a, x = .ok a ∧ run exec cs (f a) s = some (.ok b, s') := by
  cases x with
  | ok a => exact ⟨a, rfl, h⟩
  | error e => cases cs <;> cases h

theorem run_throw {e : ε} (h : run exec cs (throw e : Prog Op Res ε β) s = some (.ok b, s')) :
    False := by
  cases cs <;> cases h

theorem run_pure {b' : β} (h : run exec cs (Pure.pure b' : Prog Op Res ε β) s = some (.ok b, s')) :
    b' = b ∧ s = s' := by
  cases cs <;> cases h <;> exact ⟨rfl, rfl⟩

end

/-- A run ends in a state the program can stop in. -/
theorem Visits.of_run {exec : C → (op : Op) → S → Res op × S} {m : Prog Op Res ε α} {cs : List C}
    {outcome : Except ε α} {s s' : S} (h : run exec cs m s = some (outcome, s')) :
    Visits exec m s s' := by
  induction m generalizing cs s with
  | ret a => cases cs <;> cases h <;> exact .here _ _
  | raise e => cases cs <;> cases h <;> exact .here _ _
  | call op next ih =>
    cases cs with
    | nil => cases h
    | cons c rest => exact .step c (ih _ h)

/-! ## The invariant rule -/

variable {exec} {I : S → Prop} {Q Q' : α → S → Prop} {E E' : ε → S → Prop} {s : S}

theorem Safe.inv {m : Prog Op Res ε α} (h : Safe exec I Q E m s) : I s := by
  cases m <;> exact h.1

/-- A safe program stops in states of the invariant only. -/
theorem Safe.visits {m : Prog Op Res ε α} {s' : S} (h : Safe exec I Q E m s)
    (hv : Visits exec m s s') : I s' := by
  induction hv with
  | here m s => exact h.inv
  | step c _ ih => exact ih (h.2 c)

theorem Safe.mono {m : Prog Op Res ε α} (h : Safe exec I Q E m s) (hQ : ∀ a s, I s → Q a s → Q' a s)
    (hE : ∀ e s, I s → E e s → E' e s) : Safe exec I Q' E' m s := by
  induction m generalizing s with
  | ret a => exact ⟨h.1, hQ a s h.1 h.2⟩
  | raise e => exact ⟨h.1, hE e s h.1 h.2⟩
  | call op next ih => exact ⟨h.1, fun c => ih _ (h.2 c)⟩

theorem Safe.weaken {I' : S → Prop} {m : Prog Op Res ε α} (h : Safe exec I Q E m s)
    (hI : ∀ s, I s → I' s) : Safe exec I' Q E m s := by
  induction m generalizing s with
  | ret a => exact ⟨hI s h.1, h.2⟩
  | raise e => exact ⟨hI s h.1, h.2⟩
  | call op next ih => exact ⟨hI s h.1, fun c => ih _ (h.2 c)⟩

theorem Safe.and {I' : S → Prop} {m : Prog Op Res ε α} (h : Safe exec I Q E m s)
    (h' : Safe exec I' Q' E' m s) : Safe exec (fun s => I s ∧ I' s) (fun a s => Q a s ∧ Q' a s)
      (fun e s => E e s ∧ E' e s) m s := by
  induction m generalizing s with
  | ret a => exact ⟨⟨h.1, h'.1⟩, h.2, h'.2⟩
  | raise e => exact ⟨⟨h.1, h'.1⟩, h.2, h'.2⟩
  | call op next ih => exact ⟨⟨h.1, h'.1⟩, fun c => ih _ (h.2 c) (h'.2 c)⟩

/-- Fewer choices. -/
theorem Safe.restrict {C' : Type} (f : C' → C) {m : Prog Op Res ε α} (h : Safe exec I Q E m s) :
    Safe (fun c => exec (f c)) I Q E m s := by
  induction m generalizing s with
  | ret a => exact h
  | raise e => exact h
  | call op next ih => exact ⟨h.1, fun c => ih _ (h.2 (f c))⟩

theorem Safe.bind {m : Prog Op Res ε α} {f : α → Prog Op Res ε β} {R : β → S → Prop}
    (h : Safe exec I (fun a s => Safe exec I R E (f a) s) E m s) :
    Safe exec I R E (m >>= f) s := by
  change Safe exec I R E (m.bind f) s
  induction m generalizing s with
  | ret a => exact h.2
  | raise e => exact h
  | call op next ih => exact ⟨h.1, fun c => ih _ (h.2 c)⟩

theorem Safe.tryCatch {m : Prog Op Res ε α} {handle : ε → Prog Op Res ε α}
    (h : Safe exec I Q (fun e s => Safe exec I Q E (handle e) s) m s) :
    Safe exec I Q E (tryCatch m handle) s := by
  induction m generalizing s with
  | ret a => exact h
  | raise e => exact h.2
  | call op next ih => exact ⟨h.1, fun c => ih _ (h.2 c)⟩

theorem Safe.tryFinally {m : Prog Op Res ε α} {cleanup : Prog Op Res ε Unit}
    (h : Safe exec I (fun a s => Safe exec I (fun _ s => Q a s) E cleanup s)
      (fun e s => Safe exec I (fun _ s => E e s) E cleanup s) m s) :
    Safe exec I Q E (tryFinally m cleanup) s := by
  induction m generalizing s with
  | ret a => exact Safe.bind (m := cleanup) (h.2.mono (fun _ _ hI hQ => ⟨hI, hQ⟩) fun _ _ _ hE => hE)
  | raise e => exact Safe.bind (m := cleanup) (h.2.mono (fun _ _ hI hE => ⟨hI, hE⟩) fun _ _ _ hE => hE)
  | call op next ih => exact ⟨h.1, fun c => ih _ (h.2 c)⟩

theorem Safe.result {m : Prog Op Res ε α} {Q : Except ε α → S → Prop}
    (h : Safe exec I (fun a s => Q (.ok a) s) (fun e s => Q (.error e) s) m s) :
    Safe exec I Q E m.result s := by
  induction m generalizing s with
  | ret a => exact h
  | raise e => exact h
  | call op next ih => exact ⟨h.1, fun c => ih _ (h.2 c)⟩

/-- What a program that may raise tells where it returns. -/
theorem Safe.result_ok {m : Prog Op Res ε α} (h : Safe exec I Q E' m s) :
    Safe exec I (fun outcome s => ∀ a, outcome = .ok a → Q a s) E m.result s := by
  refine Safe.result (h.mono ?_ ?_)
  · rintro a s - hQ _ ⟨⟩
    exact hQ
  · rintro e s - - _ ⟨⟩

theorem Safe.perform {op : Op} {Q : Res op → S → Prop} (hI : I s)
    (h : ∀ c, I (exec c op s).2 ∧ Q (exec c op s).1 (exec c op s).2) :
    Safe exec I Q E (perform op) s := ⟨hI, h⟩

theorem Safe.pure {a : α} (hI : I s) (h : Q a s) :
    Safe exec I Q E (Pure.pure a : Prog Op Res ε α) s := ⟨hI, h⟩

theorem Safe.throw {e : ε} (hI : I s) (h : E e s) :
    Safe exec I Q E (throw e : Prog Op Res ε α) s := ⟨hI, h⟩

theorem Safe.ofExcept {x : Except ε α} (hI : I s) (hok : ∀ a, x = .ok a → Q a s)
    (herr : ∀ e, x = .error e → E e s) : Safe exec I Q E (ofExcept x) s := by
  cases x with
  | ok a => exact ⟨hI, hok a rfl⟩
  | error e => exact ⟨hI, herr e rfl⟩

/-! ## Runs to the end -/

theorem Safe.trivial (m : Prog Op Res ε α) (s : S) :
    Safe exec (fun _ => True) (fun _ _ => True) (fun _ _ => True) m s := by
  induction m generalizing s with
  | ret a => exact ⟨.intro, .intro⟩
  | raise e => exact ⟨.intro, .intro⟩
  | call op next ih => exact ⟨.intro, fun c => ih _ _⟩

/-- How a run of a safe program ends. -/
theorem Safe.run {m : Prog Op Res ε α} {cs : List C} {outcome : Except ε α} {s' : S}
    (h : Safe exec I Q E m s) (hrun : run exec cs m s = some (outcome, s')) :
    (∃ a, outcome = .ok a ∧ Q a s') ∨ ∃ e, outcome = .error e ∧ E e s' := by
  induction m generalizing s cs with
  | ret a =>
    cases cs <;> cases hrun <;> exact .inl ⟨a, rfl, h.2⟩
  | raise e =>
    cases cs <;> cases hrun <;> exact .inr ⟨e, rfl, h.2⟩
  | call op next ih =>
    cases cs with
    | nil => cases hrun
    | cons c cs => exact ih _ (h.2 c) hrun

/-- Some run of a program comes to its end. -/
theorem exists_run [Inhabited C] (m : Prog Op Res ε α) (s : S) :
    ∃ cs result, run exec cs m s = some result := by
  induction m generalizing s with
  | ret a => exact ⟨[], _, rfl⟩
  | raise e => exact ⟨[], _, rfl⟩
  | call op next ih =>
    obtain ⟨cs, result, hrun⟩ := ih (exec default op s).1 (exec default op s).2
    exact ⟨default :: cs, result, hrun⟩

/-- The program returns, and it returns `a` and leaves the state, whatever is chosen. -/
def Succeeds (exec : C → (op : Op) → S → Res op × S) (m : Prog Op Res ε α) (s : S) (a : α) : Prop :=
  (∃ cs result, run exec cs m s = some result) ∧
    ∀ cs result, run exec cs m s = some result → result = (.ok a, s)

theorem Safe.succeeds [Inhabited C] {m : Prog Op Res ε α} {a : α}
    (h : Safe exec (· = s) (fun b _ => b = a) (fun _ _ => False) m s) : Succeeds exec m s a := by
  refine ⟨exists_run m s, fun cs result hrun => ?_⟩
  have hsafe : Safe exec (· = s) (fun b s' => b = a ∧ s' = s) (fun _ _ => False) m s :=
    h.mono (fun _ _ hI hQ => ⟨hQ, hI⟩) fun _ _ _ hE => hE
  obtain ⟨outcome, s'⟩ := result
  rcases hsafe.run hrun with ⟨b, rfl, rfl, rfl⟩ | ⟨e, -, hE⟩
  · rfl
  · exact hE.elim

theorem Safe.not_succeeds {m : Prog Op Res ε α} {a : α}
    (h : Safe exec I (fun _ _ => False) E m s) : ¬ Succeeds exec m s a := by
  rintro ⟨⟨cs, result, hrun⟩, hall⟩
  rw [hall cs result hrun] at hrun
  rcases h.run hrun with ⟨b, -, hQ⟩ | ⟨e, herr, -⟩
  · exact hQ
  · cases herr

/-- A program that only looks, where one condition decides whether it returns. -/
theorem Safe.succeeds_iff [Inhabited C] {m : Prog Op Res ε α} {a : α} {P : Prop}
    (h : Safe exec (· = s) (fun b _ => P ∧ b = a) (fun _ _ => ¬ P) m s) (b : α) :
    Succeeds exec m s b ↔ P ∧ b = a := by
  by_cases hP : P
  · have hsucceeds : Succeeds exec m s a :=
      Safe.succeeds (h.mono (fun _ _ _ hQ => hQ.2) fun _ _ _ hE => hE hP)
    constructor
    · rintro ⟨⟨cs, result, hrun⟩, hall⟩
      have heq := (hall cs result hrun).symm.trans (hsucceeds.2 cs result hrun)
      cases heq
      exact ⟨hP, rfl⟩
    · rintro ⟨-, rfl⟩
      exact hsucceeds
  · have hnot : ¬ Succeeds exec m s b :=
      Safe.not_succeeds (h.mono (fun _ _ _ hQ => hP hQ.1) fun _ _ _ hE => hE)
    exact ⟨fun hb => absurd hb hnot, fun hb => absurd hb.1 hP⟩

end Prog

end Lib
