import RchProxy.Lib.Prog

/-!
# Programs that take notes

A history variable of a program: at some of its points it takes a note (`Prog.note`), which no
operation sees and which answers nothing. Without its notes (`Prog.erase`) it is the program it was.
-/

namespace Lib

/-- An operation, or a note. -/
inductive Act (Op Note : Type) where
  | op (op : Op)
  | note (note : Note)

/-- What an operation answers; a note answers nothing. -/
abbrev Act.Res {Op Note : Type} (Res : Op → Type) : Act Op Note → Type
  | .op o => Res o
  | .note _ => Unit

namespace Prog

variable {Op Note : Type} {Res : Op → Type} {ε α β : Type}

/-- The program, where it takes no note. -/
def silent : Prog Op Res ε α → Prog (Act Op Note) (Act.Res Res) ε α
  | ret a => ret a
  | raise e => raise e
  | call op next => call (.op op) fun r => (next r).silent

/-- A note. -/
def note (n : Note) : Prog (Act Op Note) (Act.Res Res) ε Unit := call (.note n) ret

/-- The program without its notes. -/
def erase : Prog (Act Op Note) (Act.Res Res) ε α → Prog Op Res ε α
  | ret a => ret a
  | raise e => raise e
  | call (.op op) next => call op fun r => (next r).erase
  | call (.note _) next => (next ()).erase

@[simp] theorem erase_silent (m : Prog Op Res ε α) :
    (m.silent : Prog (Act Op Note) (Act.Res Res) ε α).erase = m := by
  induction m with
  | ret a => rfl
  | raise e => rfl
  | call op next ih => exact congrArg (call op) (funext ih)

@[simp] theorem erase_pure (a : α) :
    (Pure.pure a : Prog (Act Op Note) (Act.Res Res) ε α).erase = Pure.pure a := rfl

@[simp] theorem erase_throw (e : ε) :
    (throw e : Prog (Act Op Note) (Act.Res Res) ε α).erase = throw e := rfl

@[simp] theorem erase_note (n : Note) :
    (note n : Prog (Act Op Note) (Act.Res Res) ε Unit).erase = Pure.pure () := rfl

@[simp] theorem erase_bind (m : Prog (Act Op Note) (Act.Res Res) ε α)
    (f : α → Prog (Act Op Note) (Act.Res Res) ε β) :
    (m >>= f).erase = m.erase >>= fun a => (f a).erase := by
  change (m.bind f).erase = m.erase.bind fun a => (f a).erase
  induction m with
  | ret a => rfl
  | raise e => rfl
  | call act next ih =>
    cases act with
    | op op => exact congrArg (call op) (funext ih)
    | note n => exact ih ()

@[simp] theorem erase_tryFinally (m : Prog (Act Op Note) (Act.Res Res) ε α)
    (cleanup : Prog (Act Op Note) (Act.Res Res) ε Unit) :
    (m.tryFinally cleanup).erase = m.erase.tryFinally cleanup.erase := by
  induction m with
  | ret a => exact erase_bind cleanup _
  | raise e => exact erase_bind cleanup _
  | call act next ih =>
    cases act with
    | op op => exact congrArg (call op) (funext ih)
    | note n => exact ih ()

@[simp] theorem erase_result (m : Prog (Act Op Note) (Act.Res Res) ε α) :
    m.result.erase = m.erase.result := by
  induction m with
  | ret a => rfl
  | raise e => rfl
  | call act next ih =>
    cases act with
    | op op => exact congrArg (call op) (funext ih)
    | note n => exact ih ()

end Prog

end Lib
