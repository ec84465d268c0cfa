import RchProxy.Receipt.Commands

/-!
# `_parse_documents`

The document assembler: a loop over the request frames with an active builder, a remembered start
frame and a budget of semantic fields. `frames` of a builder always starts with its start frame, so
only the later ones are stored. The functions that fill a document take the parts of the builder
they read and write.
-/

namespace RchProxy

open Py Lib

/-- `_ReceiptBuilder`. -/
structure ReceiptBuilder where
  kind : DocKind
  startFrame : RCHFrame
  laterFrames : List RCHFrame := []
  model : DocumentModel
  issues : List ReceiptIssue := []
  seenPrimaryTotal : Bool := false
  state : AssemblyState := .idle
  stateTransitions : List StateTransition := []
  deriving DecidableEq, Repr

namespace ReceiptBuilder

/-- `builder.frames`. -/
def frames (b : ReceiptBuilder) : List RCHFrame := b.startFrame :: b.laterFrames

/-- `builder.frames[-1]`. -/
def lastFrame (b : ReceiptBuilder) : RCHFrame := b.laterFrames.getLastD b.startFrame

/-- `add_frame`. -/
def addFrame (b : ReceiptBuilder) (frame : RCHFrame) : ReceiptBuilder :=
  if b.lastFrame.frameId = frame.frameId then b
  else { b with laterFrames := b.laterFrames ++ [frame] }

/-- `_transition`. -/
def transition (b : ReceiptBuilder) (target : AssemblyState) (frame : RCHFrame) : ReceiptBuilder :=
  if b.state = target then b
  else
    { b with
      stateTransitions := b.stateTransitions ++
        [{ source := b.state
           target := target
           frameId := frame.frameId
           streamOffset := frame.streamOffset }]
      state := target }

/-- `_new_builder`. -/
def new (kind : DocKind) (frame : RCHFrame) : ReceiptBuilder :=
  { kind := kind, startFrame := frame, model := { kind := kind } : ReceiptBuilder }.transition
    (match kind with
      | .commerciale => .commercialBody
      | .gestionale => .managementBody) frame

/-- `builder.issues.append(...)`, for an issue about a frame of the request. -/
def addIssue (b : ReceiptBuilder) (code : IssueCode) (detail : String) (frame : RCHFrame) :
    ReceiptBuilder :=
  { b with
    issues := b.issues ++
      [{ code := code
         detail := detail
         direction := some .request
         streamOffset := some frame.streamOffset
         frameId := some frame.frameId
         evidence := .inferred }] }

/-- `_finish_builder`. -/
def finish (b : ReceiptBuilder) (documentNumber : Nat) (complete : Bool) : ParsedReceipt :=
  let b :=
    if complete then b
    else
      { b with
        issues := b.issues ++
          [{ code := .incompleteDocument
             detail := "capture ended before the inferred closing command"
             direction := some .request
             streamOffset := some b.lastFrame.endOffset
             frameId := some b.lastFrame.frameId
             evidence := .inferred }] }
  let b := b.transition (if complete then .complete else .incomplete) b.lastFrame
  let metadata :=
    { b.model.metadata with
      complete := some complete
      documentStateTransitions := b.stateTransitions
      finalDocumentState := some b.state
      sourceFrameIds := b.frames.map (·.frameId) }
  { documentId := "document-" ++ String.ofList (zeroPad 4 documentNumber)
    documentType := b.kind
    complete := complete
    model := { b.model with metadata := metadata }
    frameIds := b.frames.map (·.frameId)
    startOffset := b.startFrame.streamOffset
    endOffset := b.lastFrame.endOffset
    issues := b.issues }

end ReceiptBuilder

/-! ## Filling a document -/

/-- The loop of `_amount_fields`. -/
def amountFieldsLoop (frame : RCHFrame) : List Match → Semantic (List Amount)
  | [] => return []
  | m :: ms =>
    Spend.unlessFull (semanticLimitIssue frame .request) [] do
      match parsePrintedAmount (groupText m .amount) with
      | none => amountFieldsLoop frame ms
      | some cents =>
        if ← reserve 1 frame then
          let rest ← amountFieldsLoop frame ms
          return { raw := groupText m .amount, cents := cents, source := frame.source } :: rest
        else amountFieldsLoop frame ms

/-- `_amount_fields`. -/
def amountFields (line : Text) (frame : RCHFrame) : Semantic (List Amount) :=
  amountFieldsLoop frame (Pattern.printedAmountAnywhere.findAll line)

/-- The part of `_apply_management_line` that reserves nothing: the currency label, the order and
the printed reference of a line. -/
def managementMarks (model : DocumentModel) (frame : RCHFrame) (stripped : Text) : DocumentModel :=
  let model :=
    if upper stripped = "EURO".toList then
      { model with metadata.observedCurrencyLabel := true }
    else model
  let model :=
    match Pattern.order.matchStart stripped with
    | none => model
    | some m =>
      { model with
        metadata.orderText := some stripped
        metadata.orderValue := if groupText m .value = [] then none else some (groupText m .value)
        metadata.orderSource := some frame.source }
  match Pattern.reference.search stripped with
  | none => model
  | some m =>
    { model with
      date := some (groupText m .date)
      time := some (groupText m .time)
      documentNumber := some (groupText m .number)
      metadata.printedReferenceSource := some frame.source }

/-- The last part of `_apply_management_line`: change, payment, total, tax or item. -/
def managementFields (model : DocumentModel) (seenPrimaryTotal : Bool) (frame : RCHFrame)
    (stripped : Text) (amounts : List Amount) : Semantic (DocumentModel × Bool) := do
  let up := upper stripped
  if h : startsWith up "RESTO".toList = true ∧ amounts ≠ [] then
    return ({ model with metadata.change := some (amounts.getLast h.2) }, seenPrimaryTotal)
  else if h : startsWith up "CONTANTI".toList = true ∧ amounts ≠ [] then
    let last := amounts.getLast h.2
    let payment : Payment :=
      { methodText := some (firstWord stripped)
        amountCents := last.cents
        amount := some last
        source := frame.source }
    if ← reserve 1 frame then
      return ({ model with payments := model.payments ++ [payment] }, seenPrimaryTotal)
    else return (model, seenPrimaryTotal)
  else if h : startsWith up "TOT".toList = true ∧ amounts ≠ [] then
    let total : Total :=
      { label := some (stripped.take 3)
        amountCents := if amounts.length = 1 then some (amounts.getLast h.2).cents else none
        amounts := amounts
        source := frame.source }
    if ← reserve 1 frame then
      return ({ model with totals := model.totals ++ [total] }, true)
    else return (model, true)
  else if h : contains stripped ['%'] = true ∧ 2 ≤ amounts.length then
    let tax : Tax :=
      { rawText := stripped
        taxableAmount := amounts.get ⟨amounts.length - 2, by omega⟩
        taxAmount := amounts.get ⟨amounts.length - 1, by omega⟩
        source := frame.source }
    if ← reserve 1 frame then
      return ({ model with taxes := model.taxes ++ [tax] }, seenPrimaryTotal)
    else return (model, seenPrimaryTotal)
  else
    match Pattern.printedItem.matchStart stripped with
    | none => return (model, seenPrimaryTotal)
    | some m =>
      if seenPrimaryTotal then return (model, seenPrimaryTotal)
      else
        let description := groupText m .description
        let item : Item :=
          { description := description
            amountCents := parsePrintedAmount (groupText m .amount)
            amountRaw := some (groupText m .amount)
            taxClass := m.group .taxClass
            source := frame.source }
        if ← reserve 2 frame then
          return ({ model with
            items := model.items ++ [item]
            descriptions := model.descriptions ++ [description] }, seenPrimaryTotal)
        else return (model, seenPrimaryTotal)

/-- `_apply_management_line`, on the model and the `seen_primary_total` of the builder. -/
def applyManagementLine (model : DocumentModel) (seenPrimaryTotal : Bool) (frame : RCHFrame)
    (c : TextCommand) : Semantic (DocumentModel × Bool) := do
  let inferredStyle : Bool := c.style = some ['2']
  let line : DocumentLine :=
    { text := c.text
      trace := frame.trace
      bold := inferredStyle
      doubleWidth := inferredStyle
      doubleHeight := inferredStyle }
  let granted ← reserve 1 frame
  let model := if granted then { model with lines := model.lines ++ [line] } else model
  let amounts ← amountFields c.text frame
  let model := { model with amounts := model.amounts ++ amounts }
  let stripped := strip c.text
  managementFields (managementMarks model frame stripped) seenPrimaryTotal frame stripped amounts

/-- The item record of an item command. -/
def ItemCommand.item (c : ItemCommand) (frame : RCHFrame) : Item where
  description := c.description
  amountCents := some c.amountCents
  quantity := c.quantity
  commandCode := some c.code
  source := frame.source

/-- `_apply_commercial_item`, on the model of the builder. -/
def applyCommercialItem (model : DocumentModel) (frame : RCHFrame) (c : ItemCommand) :
    Semantic DocumentModel := do
  let fieldCount := 4 + (if c.quantity.isSome then 1 else 0)
  let text := formatCents c.amountCents
  if ← reserve fieldCount frame then
    return { model with
      items := model.items ++ [c.item frame]
      descriptions := model.descriptions ++ [c.description]
      amounts := model.amounts ++
        [{ raw := c.amountText, cents := c.amountCents, source := frame.source }]
      quantities := model.quantities ++ c.quantity.toList
      lines := model.lines ++
        [{ text := if c.description = [] then text else c.description ++ [' '] ++ text
           trace := frame.trace }] }
  else return model

/-- The total record of a total command. -/
def TotalCommand.total (c : TotalCommand) (frame : RCHFrame) : Total where
  amountCents := some c.amountCents
  commandCode := some c.code
  source := frame.source

/-- `_apply_commercial_total`, on the model of the builder; the transition follows in `parseStep`. -/
def applyCommercialTotal (model : DocumentModel) (frame : RCHFrame) (c : TotalCommand) :
    Semantic DocumentModel := do
  let text := formatCents c.amountCents
  let granted ← reserve 5 frame
  let model :=
    if granted then
      { model with
        totals := model.totals ++ [c.total frame]
        payments := model.payments ++
          [{ amountCents := c.amountCents, sourceCode := some ('T' :: c.code)
             source := frame.source }]
        amounts := model.amounts ++
          [{ raw := c.amountText, cents := c.amountCents, source := frame.source }]
        lines := model.lines ++
          [{ text := "TOTALE ".toList ++ text, trace := frame.trace, bold := true },
           { text := "IMPORTO PAGAMENTO ".toList ++ text, trace := frame.trace }] }
    else model
  return { model with metadata.closeCandidateFrameId := some frame.frameId }

/-- The branch of `_parse_documents` for a commercial text line, on the model of the builder. -/
def applyCommercialText (model : DocumentModel) (frame : RCHFrame) (c : TextCommand) :
    Semantic DocumentModel := do
  let styleIsDouble : Bool := c.style = some ['2']
  let line : DocumentLine :=
    { text := '#' :: c.text
      trace := frame.trace
      bold := styleIsDouble
      doubleWidth := styleIsDouble
      doubleHeight := styleIsDouble }
  let granted ← reserve 1 frame
  let model := if granted then { model with lines := model.lines ++ [line] } else model
  match Pattern.order.matchStart c.text with
  | none => return model
  | some m =>
    return { model with
      metadata.orderText := some c.text
      metadata.renderedOrderText := some ('#' :: c.text)
      metadata.orderValue := if groupText m .value = [] then none else some (groupText m .value)
      metadata.orderSource := some frame.source }

/-! ## Assembling -/

/-- The variables of `_parse_documents`. -/
structure Assembler where
  documents : List ParsedReceipt := []
  issues : List ReceiptIssue := []
  active : Option ReceiptBuilder := none
  pendingStart : Option RCHFrame := none
  documentLimitReported : Bool := false
  deriving DecidableEq, Repr

namespace Assembler

/-- `finish_active`. -/
def finishActive (maxDocuments : Nat) (complete : Bool) (a : Assembler) : Assembler :=
  match a.active with
  | none => a
  | some b =>
    if a.documents.length < maxDocuments then
      let document := b.finish (a.documents.length + 1) complete
      { a with
        documents := a.documents ++ [document]
        issues := a.issues ++ document.issues
        active := none }
    else if a.documentLimitReported then { a with active := none }
    else
      { a with
        documentLimitReported := true
        issues := a.issues ++
          [{ code := .documentLimitExceeded
             detail := s!"more than {maxDocuments} candidate documents observed; " ++
               "additional documents omitted"
             direction := some .request
             streamOffset := some b.startFrame.streamOffset
             frameId := some b.startFrame.frameId }]
        active := none }

/-- The active builder, if it is of the given kind. -/
def activeOf (a : Assembler) (kind : DocKind) : Option ReceiptBuilder :=
  a.active.filter (·.kind = kind)

end Assembler

/-- The frames `_parse_documents` and `_message_from_frame` read as commands. -/
def RCHFrame.expectedRequest (f : RCHFrame) : Bool :=
  f.bccValid && f.address == "00".toList && f.frameClass == 'z'

/-- The payload closes a commercial document. -/
def isClosingControl (dataText : Text) : Bool :=
  dataText == "<</?".toList || (Pattern.closingControl.fullMatch dataText).isSome

/-- The commercial builder an item or total command goes to: the active one, or a new one that says
its start is missing. -/
def commercialFor (maxDocuments : Nat) (a : Assembler) (frame : RCHFrame) (detail : String) :
    Assembler × ReceiptBuilder :=
  match a.activeOf .commerciale with
  | some b => (a, b)
  | none =>
    (a.finishActive maxDocuments false,
      (ReceiptBuilder.new .commerciale frame).addIssue .missingCommercialStart detail frame)

/-- The management builder a printable line goes to. -/
def managementFor (maxDocuments : Nat) (a : Assembler) (frame : RCHFrame) :
    Assembler × ReceiptBuilder :=
  match a.active with
  | none =>
    (a, (ReceiptBuilder.new .gestionale frame).addIssue .missingOpenBoundary
      "printable management line observed before an inferred =o opening boundary" frame)
  | some b =>
    match b.kind with
    | .gestionale => (a, b)
    | .commerciale => (a.finishActive maxDocuments false, .new .gestionale frame)

/-- One turn of the loop of `_parse_documents`. -/
def parseStep (maxDocuments : Nat) (a : Assembler) (frame : RCHFrame) : Semantic Assembler := do
  if !frame.expectedRequest then return a
  let dataText := frame.dataText
  if startsWith dataText "<</?".toList then
    match a.activeOf .commerciale with
    | some b =>
      let b := b.addFrame frame
      if isClosingControl dataText then
        return { a with active := some b }.finishActive maxDocuments true
      else if b.state = .commercialPayment then
        return { a with active := some (b.transition .commercialPostlude frame) }
      else return { a with active := some b }
    | none =>
      return { a with pendingStart := if dataText = "<</?s".toList then some frame else none }
  else if dataText = "=K".toList then
    let a := a.finishActive maxDocuments false
    let b := (ReceiptBuilder.new .commerciale (a.pendingStart.getD frame)).addFrame frame
    return { a with active := some b, pendingStart := none }
  else if dataText = "=o".toList then
    match a.activeOf .gestionale with
    | some b =>
      let a := { a with active := some (b.addFrame frame) }.finishActive maxDocuments true
      return { a with pendingStart := none }
    | none =>
      let a := a.finishActive maxDocuments false
      return { a with active := some (.new .gestionale frame), pendingStart := none }
  else
    match matchManagementLine dataText with
    | some c =>
      let (a, b) := managementFor maxDocuments a frame
      let b := b.addFrame frame
      let (model, seen) ← applyManagementLine b.model b.seenPrimaryTotal frame c
      return { a with active := some { b with model := model, seenPrimaryTotal := seen } }
    | none =>
    match matchItem dataText with
    | some c =>
      let (a, b) := commercialFor maxDocuments a frame
        "item command observed without a preceding inferred =K start command"
      let b := b.addFrame frame
      let model ← applyCommercialItem b.model frame c
      return { a with active := some { b with model := model } }
    | none =>
    match matchCommercialText dataText, a.activeOf .commerciale with
    | some c, some b =>
      let b := b.addFrame frame
      let model ← applyCommercialText b.model frame c
      return { a with active := some { b with model := model } }
    | _, _ =>
    match matchTotal dataText with
    | some c =>
      let (a, b) := commercialFor maxDocuments a frame
        "total command observed without a preceding inferred =K start command"
      let b := b.addFrame frame
      let model ← applyCommercialTotal b.model frame c
      let b := { b with model := model }.transition .commercialPayment frame
      return { a with active := some b }
    | none =>
    match a.active with
    | some b =>
      if (matchDisplay dataText).isSome then return a
      else return { a with active := some (b.addFrame frame) }
    | none => return a

/-- The loop of `_parse_documents`, from a state on. -/
def parseFrames (maxDocuments : Nat) (a : Assembler) (frames : List RCHFrame) :
    Semantic Assembler :=
  frames.foldlM (parseStep maxDocuments) a

/-- `_parse_documents`: the documents and the issues. -/
def parseDocuments (maxDocuments : Nat) (frames : List RCHFrame) :
    Semantic (List ParsedReceipt × List ReceiptIssue) := do
  let a ← parseFrames maxDocuments {} frames
  let a := a.finishActive maxDocuments false
  return (a.documents, a.issues)

end RchProxy
