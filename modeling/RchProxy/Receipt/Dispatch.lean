import RchProxy.Receipt.Assembler

/-!
# The assembler as a machine over commands

`parseStep` tests a payload pattern by pattern, with tests of the active document in between.
`Command` names what the tests find, whatever the state, and `stepCommand` is the step for each
command (`parseStep_eq`): the patterns exclude each other, so the order of the tests and the state
in which they are made do not matter.
-/

namespace RchProxy

open Py Lib

/-- What a payload says. -/
inductive Command where
  | control (dataText : Text)
  | start
  | boundary
  | line (c : TextCommand)
  | item (c : ItemCommand)
  | text (c : TextCommand)
  | total (c : TotalCommand)
  | display
  | unknown
  deriving DecidableEq, Repr

/-- The command of a payload. -/
def command (dataText : Text) : Command :=
  if startsWith dataText "<</?".toList then .control dataText
  else if dataText = "=K".toList then .start
  else if dataText = "=o".toList then .boundary
  else
    match matchManagementLine dataText with
    | some c => .line c
    | none =>
    match matchItem dataText with
    | some c => .item c
    | none =>
    match matchCommercialText dataText with
    | some c => .text c
    | none =>
    match matchTotal dataText with
    | some c => .total c
    | none => if (matchDisplay dataText).isSome then .display else .unknown

namespace Assembler

variable (maxDocuments : Nat) (a : Assembler) (frame : RCHFrame)

/-- A control frame: one more frame of a commercial document, its last one, or a start to remember. -/
def onControl (dataText : Text) : Assembler :=
  match a.activeOf .commerciale with
  | some b =>
    let b := b.addFrame frame
    if isClosingControl dataText then { a with active := some b }.finishActive maxDocuments true
    else if b.state = .commercialPayment then
      { a with active := some (b.transition .commercialPostlude frame) }
    else { a with active := some b }
  | none => { a with pendingStart := if dataText = "<</?s".toList then some frame else none }

/-- `=K`: a commercial document starts. -/
def onStart : Assembler :=
  let a := a.finishActive maxDocuments false
  { a with
    active := some ((ReceiptBuilder.new .commerciale (a.pendingStart.getD frame)).addFrame frame)
    pendingStart := none }

/-- `=o`: a management document ends or starts. -/
def onBoundary : Assembler :=
  match a.activeOf .gestionale with
  | some b =>
    { { a with active := some (b.addFrame frame) }.finishActive maxDocuments true with
      pendingStart := none }
  | none =>
    { a.finishActive maxDocuments false with
      active := some (.new .gestionale frame), pendingStart := none }

/-- A frame that the active document, if any, takes without reading it. -/
def onOther : Assembler :=
  match a.active with
  | some b => { a with active := some (b.addFrame frame) }
  | none => a

end Assembler

/-- The step of the assembler for a command. -/
def stepCommand (maxDocuments : Nat) (a : Assembler) (frame : RCHFrame) :
    Command → Semantic Assembler
  | .control dataText => return a.onControl maxDocuments frame dataText
  | .start => return a.onStart maxDocuments frame
  | .boundary => return a.onBoundary maxDocuments frame
  | .line c => do
    let (a, b) := managementFor maxDocuments a frame
    let b := b.addFrame frame
    let (model, seen) ← applyManagementLine b.model b.seenPrimaryTotal frame c
    return { a with active := some { b with model := model, seenPrimaryTotal := seen } }
  | .item c => do
    let (a, b) := commercialFor maxDocuments a frame
      "item command observed without a preceding inferred =K start command"
    let b := b.addFrame frame
    let model ← applyCommercialItem b.model frame c
    return { a with active := some { b with model := model } }
  | .text c => do
    match a.activeOf .commerciale with
    | some b =>
      let b := b.addFrame frame
      let model ← applyCommercialText b.model frame c
      return { a with active := some { b with model := model } }
    | none => return a.onOther frame
  | .total c => do
    let (a, b) := commercialFor maxDocuments a frame
      "total command observed without a preceding inferred =K start command"
    let b := b.addFrame frame
    let model ← applyCommercialTotal b.model frame c
    return { a with active := some ({ b with model := model }.transition .commercialPayment frame) }
  | .display => return a
  | .unknown => return a.onOther frame

/-! ## Payloads that match a pattern -/

section
variable {t : Text}

theorem matchTotal_of_text {c : TextCommand} (h : matchCommercialText t = some c) :
    matchTotal t = none := by
  by_contra hne
  obtain ⟨u, rfl⟩ := matchCommercialText_front (by rw [h]; simp)
  obtain ⟨v, hv⟩ := matchTotal_front hne
  simp at hv

theorem matchDisplay_of_text {c : TextCommand} (h : matchCommercialText t = some c) :
    matchDisplay t = none := by
  by_contra hne
  obtain ⟨u, rfl⟩ := matchCommercialText_front (by rw [h]; simp)
  obtain ⟨v, hv⟩ := matchDisplay_front hne
  simp at hv

end

/-- One turn of the loop is the step for the command of the frame. -/
theorem parseStep_eq (maxDocuments : Nat) (a : Assembler) (frame : RCHFrame) :
    parseStep maxDocuments a frame =
      if frame.expectedRequest then stepCommand maxDocuments a frame (command frame.dataText)
      else return a := by
  unfold parseStep
  cases he : frame.expectedRequest with
  | false => rfl
  | true =>
    simp only [Bool.not_true, Bool.false_eq_true, if_false, if_true]
    unfold command
    by_cases hc : startsWith frame.dataText "<</?".toList = true
    · simp only [if_pos hc, stepCommand, Assembler.onControl]
      cases a.activeOf .commerciale with
      | none => rfl
      | some b => simp only; split <;> [rfl; split <;> rfl]
    simp only [if_neg hc]
    by_cases hk : frame.dataText = "=K".toList
    · simp only [if_pos hk, stepCommand]; rfl
    simp only [if_neg hk]
    by_cases ho : frame.dataText = "=o".toList
    · simp only [if_pos ho, stepCommand, Assembler.onBoundary]
      cases a.activeOf .gestionale <;> rfl
    simp only [if_neg ho]
    cases hm : matchManagementLine frame.dataText with
    | some c => rfl
    | none =>
    cases hi : matchItem frame.dataText with
    | some c => rfl
    | none =>
    cases ht : matchCommercialText frame.dataText with
    | some c =>
      simp only [stepCommand]
      cases a.activeOf .commerciale with
      | some b => rfl
      | none =>
        -- a text outside a commercial document falls through every later test
        simp only [matchTotal_of_text ht, matchDisplay_of_text ht, Assembler.onOther]
        cases a.active <;> rfl
    | none =>
    cases hg : matchTotal frame.dataText with
    | some c => rfl
    | none =>
    cases hd : matchDisplay frame.dataText with
    | some c =>
      simp only [Option.isSome_some, if_true, stepCommand]
      cases a.active <;> rfl
    | none =>
      simp only [Option.isSome_none, Bool.false_eq_true, if_false, stepCommand, Assembler.onOther]
      cases a.active <;> rfl

end RchProxy
