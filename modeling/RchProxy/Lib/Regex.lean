import Mathlib.Data.List.Basic

/-!
# Backtracking regular expressions

A pattern runs at a position of a text and yields every way it matches there, the preferred way
first: alternatives from left to right, greedy repetitions longest first, lazy ones shortest first.
A backtracking matcher returns the first of them. Groups record the text they matched; zero-width
tests see what stands before and after the position.
-/

namespace Lib

/-- A pattern over characters `α`, with groups named by `γ`. -/
inductive Regex (α γ : Type) where
  | empty
  | one (p : α → Bool)
  | look (p : (before after : List α) → Bool)
  | seq (a b : Regex α γ)
  | alt (a b : Regex α γ)
  | star (greedy : Bool) (a : Regex α γ)
  | rep (lo hi : Nat) (a : Regex α γ)
  | group (g : γ) (a : Regex α γ)

/-- A position in a text, with the groups closed so far. `before` is reversed: the nearest character
comes first. -/
structure Cursor (α γ : Type) where
  before : List α
  after : List α
  groups : List (γ × List α) := []
  deriving DecidableEq, Repr

namespace Cursor

variable {α γ : Type}

/-- Step over the next character. -/
def step (c : Cursor α γ) : Option (α × Cursor α γ) :=
  match c.after with
  | [] => none
  | x :: xs => some (x, { c with before := x :: c.before, after := xs })

/-- The text between two positions. -/
def textTo (c d : Cursor α γ) : List α := c.after.take (c.after.length - d.after.length)

/-- What a group matched last. -/
def group [DecidableEq γ] (c : Cursor α γ) (g : γ) : Option (List α) := c.groups.lookup g

end Cursor

namespace Regex

variable {α γ : Type}

/-- `(...)*` of a step that consumes something, for at most `n` rounds. -/
def iterate (greedy : Bool) (f : Cursor α γ → List (Cursor α γ)) :
    Nat → Cursor α γ → List (Cursor α γ)
  | 0, c => [c]
  | n + 1, c =>
    let more := ((f c).filter fun d => d.after.length < c.after.length).flatMap
      (iterate greedy f n)
    if greedy then more ++ [c] else c :: more

/-- `(...){lo,hi}`, greedy. -/
def times (f : Cursor α γ → List (Cursor α γ)) : (lo hi : Nat) → Cursor α γ → List (Cursor α γ)
  | 0, 0, c => [c]
  | _ + 1, 0, _ => []
  | lo + 1, hi + 1, c => (f c).flatMap (times f lo hi)
  | 0, hi + 1, c => (f c).flatMap (times f 0 hi) ++ [c]

/-- Every way a pattern matches at a position, the preferred way first. -/
@[simp] def run : Regex α γ → Cursor α γ → List (Cursor α γ)
  | empty, c => [c]
  | one p, c =>
    match c.step with
    | none => []
    | some (x, d) => if p x then [d] else []
  | look p, c => if p c.before c.after then [c] else []
  | seq a b, c => (a.run c).flatMap b.run
  | alt a b, c => a.run c ++ b.run c
  | star greedy a, c => iterate greedy a.run c.after.length c
  | rep lo hi a, c => times a.run lo hi c
  | group g a, c => (a.run c).map fun d => { d with groups := (g, c.textTo d) :: d.groups }

/-- The characters of a text, one after the other, and then `r`. -/
def lit [BEq α] (s : List α) (r : Regex α γ) : Regex α γ :=
  s.foldr (fun x r => seq (one (· == x)) r) r

/-- `(...)+`. -/
def plus (a : Regex α γ) : Regex α γ := seq a (star true a)

/-- `(...)?`. -/
def opt (a : Regex α γ) : Regex α γ := alt a empty

/-! ## Searching -/

/-- The preferred match at the start of a text. -/
def matchStart (r : Regex α γ) (s : List α) : Option (Cursor α γ) :=
  (r.run { before := [], after := s }).head?

/-- The preferred match of the whole text. -/
def fullMatch (r : Regex α γ) (s : List α) : Option (Cursor α γ) :=
  (r.run { before := [], after := s }).find? (·.after.isEmpty)

/-- The first match from a position on: where it starts and where it ends. -/
def searchFrom (r : Regex α γ) : (before after : List α) → Option (Cursor α γ × Cursor α γ)
  | before, [] => ((r.run { before := before, after := [] }).head?).map
      ({ before := before, after := [] }, ·)
  | before, x :: xs =>
    match (r.run { before := before, after := x :: xs }).head? with
    | some d => some ({ before := before, after := x :: xs }, d)
    | none => searchFrom r (x :: before) xs

/-- The first match in a text. -/
def search (r : Regex α γ) (s : List α) : Option (Cursor α γ) := (r.searchFrom [] s).map (·.2)

/-- The matches from a position on that do not overlap, for at most `n` of them. An empty match is
followed by a step. -/
def findFrom (r : Regex α γ) : Nat → (before after : List α) → List (Cursor α γ)
  | 0, _, _ => []
  | n + 1, before, after =>
    match r.searchFrom before after with
    | none => []
    | some (c, d) =>
      if d.after.length < c.after.length then d :: findFrom r n d.before d.after
      else d :: match d.after with
        | [] => []
        | x :: xs => findFrom r n (x :: d.before) xs

/-- The matches in a text that do not overlap, from left to right. -/
def findAll (r : Regex α γ) (s : List α) : List (Cursor α γ) := r.findFrom (s.length + 1) [] s

/-! ## Fronts of a match -/

/-- A match of a literal and more starts with the literal. -/
theorem run_lit [BEq α] [LawfulBEq α] {s : List α} {r : Regex α γ} {c d : Cursor α γ}
    (h : d ∈ (lit s r).run c) :
    ∃ t, c.after = s ++ t ∧
      d ∈ r.run { c with before := s.reverse ++ c.before, after := t } := by
  induction s generalizing c with
  | nil => exact ⟨c.after, rfl, h⟩
  | cons x s ih =>
    obtain ⟨e, he, hd⟩ := List.mem_flatMap.mp h
    cases hc : c.after with
    | nil => simp [run, Cursor.step, hc] at he
    | cons y ys =>
      simp only [run, Cursor.step, hc] at he
      split at he
      · next hxy =>
        obtain rfl : y = x := by simpa using hxy
        obtain rfl := List.mem_singleton.mp he
        obtain ⟨t, ht, hd⟩ := ih hd
        refine ⟨t, congrArg (y :: ·) ht, ?_⟩
        simpa using hd
      · cases he

/-- A zero-width test before a pattern only filters. -/
theorem run_look {p : List α → List α → Bool} {r : Regex α γ} {c d : Cursor α γ}
    (h : d ∈ (seq (look p) r).run c) : d ∈ r.run c := by
  obtain ⟨e, he, hd⟩ := List.mem_flatMap.mp h
  simp only [run] at he
  split at he
  · obtain rfl := List.mem_singleton.mp he; exact hd
  · cases he

end Regex

end Lib
