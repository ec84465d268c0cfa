import RchProxy.Receipt.Fill

/-!
# What a commercial command writes

The records an item, a total or a text command brings to a commercial document (`Command.entries`).
Whatever the budget, a command writes all of them or none (`applyCommercialItem_writes` and the
lemmas after it).
-/

namespace RchProxy

open Py Lib Lib.Spend

/-- The lists of a document that commercial commands fill. -/
structure Entries where
  items : List Item := []
  descriptions : List Text := []
  amounts : List Amount := []
  quantities : List Int := []
  lines : List DocumentLine := []
  totals : List Total := []
  payments : List Payment := []
  deriving DecidableEq, Repr

namespace Entries

/-- The records of `e`, then those of `e'`. -/
def append (e e' : Entries) : Entries where
  items := e.items ++ e'.items
  descriptions := e.descriptions ++ e'.descriptions
  amounts := e.amounts ++ e'.amounts
  quantities := e.quantities ++ e'.quantities
  lines := e.lines ++ e'.lines
  totals := e.totals ++ e'.totals
  payments := e.payments ++ e'.payments

instance : Append Entries := ⟨append⟩

@[simp] theorem append_empty (e : Entries) : e ++ ({} : Entries) = e := by
  change append e {} = e
  simp [append]

@[simp] theorem empty_append (e : Entries) : ({} : Entries) ++ e = e := by
  change append {} e = e
  simp [append]

theorem append_assoc (e e' e'' : Entries) : e ++ e' ++ e'' = e ++ (e' ++ e'') := by
  change append (append e e') e'' = append e (append e' e'')
  simp [append]

/-- The records of some frames, those of each present or not. -/
def concat (l : List Entries) : Entries := l.foldr (· ++ ·) {}

theorem concat_append (l l' : List Entries) : concat (l ++ l') = concat l ++ concat l' := by
  induction l with
  | nil => simp [concat]
  | cons e l ih =>
    change e ++ concat (l ++ l') = e ++ concat l ++ concat l'
    rw [ih, append_assoc]

end Entries

/-- The records of a document that commercial commands bring. -/
def DocumentModel.entries (model : DocumentModel) : Entries where
  items := model.items
  descriptions := model.descriptions
  amounts := model.amounts
  quantities := model.quantities
  lines := model.lines
  totals := model.totals
  payments := model.payments

/-- The records of an item command: item, description, amount and line, with a quantity if there is
one. -/
def ItemCommand.entries (c : ItemCommand) (frame : RCHFrame) : Entries where
  items := [c.item frame]
  descriptions := [c.description]
  amounts := [{ raw := c.amountText, cents := c.amountCents, source := frame.source }]
  quantities := c.quantity.toList
  lines :=
    [{ text := if c.description = [] then formatCents c.amountCents
        else c.description ++ [' '] ++ formatCents c.amountCents
       trace := frame.trace }]

/-- The records of a total command: total, payment, amount and two lines. -/
def TotalCommand.entries (c : TotalCommand) (frame : RCHFrame) : Entries where
  totals := [c.total frame]
  payments :=
    [{ amountCents := c.amountCents, sourceCode := some ('T' :: c.code), source := frame.source }]
  amounts := [{ raw := c.amountText, cents := c.amountCents, source := frame.source }]
  lines :=
    [{ text := "TOTALE ".toList ++ formatCents c.amountCents, trace := frame.trace, bold := true },
     { text := "IMPORTO PAGAMENTO ".toList ++ formatCents c.amountCents, trace := frame.trace }]

/-- The record of a text command: its line. -/
def TextCommand.entries (c : TextCommand) (frame : RCHFrame) : Entries where
  lines :=
    [{ text := '#' :: c.text
       trace := frame.trace
       bold := c.style = some ['2']
       doubleWidth := c.style = some ['2']
       doubleHeight := c.style = some ['2'] }]

/-- The records a command brings to a commercial document. -/
def Command.entries (frame : RCHFrame) : Command → Entries
  | .item c => c.entries frame
  | .total c => c.entries frame
  | .text c => c.entries frame
  | _ => {}

/-- The records a frame brings to the commercial document that takes it. -/
def RCHFrame.entries (frame : RCHFrame) : Entries := (command frame.dataText).entries frame

/-- The command is an item or a total. -/
def Command.charges : Command → Bool
  | .item _ | .total _ => true
  | _ => false

/-- The frame holds an item or a total. -/
def RCHFrame.charges (frame : RCHFrame) : Bool := (command frame.dataText).charges

/-- The records of a frame, all of them or none. -/
def RCHFrame.granted (frame : RCHFrame) (granted : Bool) : Entries :=
  if granted then frame.entries else {}

/-- The new model has the records of the old one, and all or none of some new ones. -/
def Writes (old new : DocumentModel) (entries : Entries) : Prop :=
  ∃ granted : Bool, new.entries = old.entries ++ if granted then entries else {}

theorem Writes.none {old new : DocumentModel} (h : new.entries = old.entries) (entries : Entries) :
    Writes old new entries := ⟨false, by simp [h]⟩

theorem applyCommercialItem_writes (model : DocumentModel) (frame : RCHFrame) (c : ItemCommand) :
    Always (applyCommercialItem model frame c) fun m => Writes model m (c.entries frame) := by
  refine .reserve_ite (.pure ⟨true, ?_⟩) (.pure (.none rfl _))
  change _ = Entries.append model.entries (c.entries frame)
  simp [DocumentModel.entries, Entries.append, ItemCommand.entries]

theorem applyCommercialTotal_writes (model : DocumentModel) (frame : RCHFrame) (c : TotalCommand) :
    Always (applyCommercialTotal model frame c) fun m => Writes model m (c.entries frame) := by
  refine (Always.any _).bind fun granted _ => .pure ?_
  cases granted with
  | false => exact .none rfl _
  | true =>
    refine ⟨true, ?_⟩
    change _ = Entries.append model.entries (c.entries frame)
    simp [DocumentModel.entries, Entries.append, TotalCommand.entries]

theorem applyCommercialText_writes (model : DocumentModel) (frame : RCHFrame) (c : TextCommand) :
    Always (applyCommercialText model frame c) fun m => Writes model m (c.entries frame) := by
  refine (Always.any _).bind fun granted _ => ?_
  have hgranted : Writes model (if granted then { model with lines := model.lines ++
      (c.entries frame).lines } else model) (c.entries frame) := by
    cases granted with
    | false => exact .none rfl _
    | true =>
      refine ⟨true, ?_⟩
      change _ = Entries.append model.entries (c.entries frame)
      simp [DocumentModel.entries, Entries.append, TextCommand.entries]
  cases Pattern.order.matchStart c.text with
  | none => exact .pure hgranted
  | some m => exact .pure hgranted

end RchProxy
