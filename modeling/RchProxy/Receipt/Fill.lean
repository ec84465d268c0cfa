import RchProxy.Receipt.Dispatch

/-!
# What a command writes into a document

The functions that fill a document, when no reservation is refused: the records of the command are
at the end of their lists, and the lists that other commands fill are left as they are. Nothing but
the reservations depends on the budget (`Yields`).
-/

namespace RchProxy

open Py Lib Lib.Spend

section
variable {α : Type} {count : Nat} {frame : RCHFrame} {P : α → Prop}

theorem reserve_then {f g : Semantic α} (hf : Yields f P) (hg : Sticky g) :
    Yields (do if ← reserve count frame then f else g) P :=
  Yields.reserve_ite hf hg

/-- A record that is written where the reservation is granted. -/
theorem reserve_write {a b : α} (h : P a) :
    Yields (do if ← reserve count frame then return a else return b) P :=
  reserve_then (.pure h) (.pure b)

end

theorem amountFieldsLoop_yields (frame : RCHFrame) (ms : List Match) :
    Yields (amountFieldsLoop frame ms) fun _ => True := by
  induction ms with
  | nil => exact .pure trivial
  | cons m ms ih =>
    refine .unlessFull ?_
    cases parsePrintedAmount (groupText m .amount) with
    | none => exact ih
    | some cents => exact reserve_then (ih.bind (fun _ _ => .pure trivial) fun _ => .pure _) ih.sticky

theorem amountFields_yields (line : Text) (frame : RCHFrame) :
    Yields (amountFields line frame) fun _ => True :=
  amountFieldsLoop_yields frame _

@[simp] theorem managementMarks_lines (model : DocumentModel) (frame : RCHFrame) (stripped : Text) :
    (managementMarks model frame stripped).lines = model.lines := by
  unfold managementMarks
  cases Pattern.reference.search stripped <;> cases Pattern.order.matchStart stripped <;>
    simp only <;> split <;> rfl

/-- Change, payments, totals, taxes and items leave the lines as they are. -/
theorem managementFields_yields (model : DocumentModel) (seen : Bool) (frame : RCHFrame)
    (stripped : Text) (amounts : List Amount) :
    Yields (managementFields model seen frame stripped amounts) fun r => r.1.lines = model.lines := by
  unfold managementFields
  simp only
  split
  · exact .pure rfl
  split
  · exact reserve_write rfl
  split
  · exact reserve_write rfl
  split
  · exact reserve_write rfl
  · split
    · exact .pure rfl
    · split
      · exact .pure rfl
      · exact reserve_write rfl

/-- A management line is the last line of its document. -/
theorem applyManagementLine_yields (model : DocumentModel) (seen : Bool) (frame : RCHFrame)
    (c : TextCommand) :
    Yields (applyManagementLine model seen frame c) fun r =>
      ∃ line, r.1.lines = model.lines ++ [line] ∧ line.text = c.text ∧ line.trace = frame.trace := by
  unfold applyManagementLine
  simp only
  have hfields : ∀ (m : DocumentModel) (seen : Bool) (amounts : List Amount),
      Yields (managementFields (managementMarks { m with amounts := m.amounts ++ amounts } frame
        (strip c.text)) seen frame (strip c.text) amounts) fun r => r.1.lines = m.lines := by
    intro m seen amounts
    exact (managementFields_yields _ _ _ _ _).mono fun r h => by rw [h, managementMarks_lines]
  refine (Yields.reserve 1 _).bind (fun granted hg => ?_) fun granted => ?_
  · subst hg
    refine (amountFields_yields _ _).bind (fun amounts _ => ?_) fun amounts =>
      (hfields _ _ _).sticky
    exact (hfields _ _ _).mono fun r h => ⟨_, h, rfl, rfl⟩
  · exact (amountFields_yields _ _).sticky.bind fun amounts => (hfields _ _ _).sticky

/-- An item is the last item of its document. -/
theorem applyCommercialItem_yields (model : DocumentModel) (frame : RCHFrame) (c : ItemCommand) :
    Yields (applyCommercialItem model frame c) fun m =>
      m.items = model.items ++ [c.item frame] ∧ m.totals = model.totals := by
  unfold applyCommercialItem
  exact reserve_write ⟨rfl, rfl⟩

/-- A total is the last total of its document. -/
theorem applyCommercialTotal_yields (model : DocumentModel) (frame : RCHFrame) (c : TotalCommand) :
    Yields (applyCommercialTotal model frame c) fun m =>
      m.items = model.items ∧ m.totals = model.totals ++ [c.total frame] := by
  unfold applyCommercialTotal
  refine (Yields.reserve 5 _).bind (fun granted hg => ?_) fun granted => .pure _
  subst hg
  exact .pure ⟨rfl, rfl⟩

theorem applyCommercialText_yields (model : DocumentModel) (frame : RCHFrame) (c : TextCommand) :
    Yields (applyCommercialText model frame c) fun m =>
      m.items = model.items ∧ m.totals = model.totals := by
  unfold applyCommercialText
  refine (Yields.reserve 1 _).bind (fun granted hg => ?_) fun granted => ?_
  · subst hg
    cases Pattern.order.matchStart c.text with
    | none => exact .pure ⟨rfl, rfl⟩
    | some m => exact .pure ⟨rfl, rfl⟩
  · simp only
    cases Pattern.order.matchStart c.text with
    | none => exact .pure _
    | some m => exact .pure _

/-! ## Reports are kept -/

section
variable (maxDocuments : Nat) (a : Assembler) (frame : RCHFrame)

theorem stepCommand_sticky (c : Command) : Sticky (stepCommand maxDocuments a frame c) := by
  cases c with
  | line c => exact (applyManagementLine_yields _ _ _ _).sticky.bind fun _ => .pure _
  | item c => exact (applyCommercialItem_yields _ _ _).sticky.bind fun _ => .pure _
  | total c => exact (applyCommercialTotal_yields _ _ _).sticky.bind fun _ => .pure _
  | text c =>
    simp only [stepCommand]
    split
    · exact (applyCommercialText_yields _ _ _).sticky.bind fun _ => .pure _
    · exact .pure _
  | control | start | boundary | display | unknown => exact .pure _

theorem parseStep_sticky : Sticky (parseStep maxDocuments a frame) := by
  rw [parseStep_eq]
  exact .ite (stepCommand_sticky maxDocuments a frame _) (.pure _)

theorem parseFrames_sticky (frames : List RCHFrame) : Sticky (parseFrames maxDocuments a frames) :=
  Sticky.foldlM (parseStep_sticky maxDocuments) frames a

end

end RchProxy
