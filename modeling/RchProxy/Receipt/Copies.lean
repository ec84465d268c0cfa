import RchProxy.Framing.Framer
import RchProxy.Receipt.Dispatch

/-!
# `parse_protocol_copies`

The parse of the two directions of a capture: messages, correlations, the counters that responses
add to documents, subtypes, and the bounded list of issues.
-/

namespace RchProxy

open Py Lib

/-! ## Messages -/

/-- The `role` of a message, with the fields that belong to it. -/
inductive MessageRole where
  | managementBoundary
  | managementPrintableLine (text : Text) (style : Option Text)
  | commercialPrintableText (text : Text) (style : Option Text)
  | commercialItem (description : Text) (amountCents : Int) (quantity : Option Int)
      (commandCode : Text)
  | commercialTotal (amountCents : Int) (commandCode : Text)
  | auxiliaryDisplay (displayLine : Int) (text : Text)
  | commercialStartCandidate
  | commercialControlCandidate (command : Text)
  | unknownRequestCommand
  | unexpectedRequestProfile
  | responseCounterCandidate (counterRaw : Text) (counter : Int)
  | responseFrame
  | unexpectedResponseProfile
  | standaloneAck
  deriving DecidableEq, Repr

/-- The fields every frame message has. -/
structure FrameFields where
  address : Text
  sequence : Char
  bccValid : Bool
  deriving DecidableEq, Repr

/-- `ProtocolMessage`. A frame message has the `frame` fields, an ACK has none. -/
structure ProtocolMessage where
  messageId : Nat
  direction : Direction
  role : MessageRole
  evidence : Evidence
  streamOffset : Nat
  endOffset : Nat
  frameId : Option Nat := none
  frameClass : Option Char := none
  data : Bytes := []
  raw : Bytes := []
  frame : Option FrameFields := none
  deriving DecidableEq, Repr

/-- `_framing_issue`. -/
def FramingIssue.receiptIssue (i : FramingIssue) (direction : Direction) : ReceiptIssue where
  code := i.code
  detail := i.detail
  direction := some direction
  streamOffset := some i.streamOffset
  raw := i.raw

/-- `_request_role`. -/
def requestRole (dataText : Text) : MessageRole :=
  if dataText = "=o".toList then .managementBoundary
  else
    match matchManagementLine dataText with
    | some c => .managementPrintableLine c.text c.style
    | none =>
    match matchCommercialText dataText with
    | some c => .commercialPrintableText c.text c.style
    | none =>
    match matchItem dataText with
    | some c => .commercialItem c.description c.amountCents c.quantity c.code
    | none =>
    match matchTotal dataText with
    | some c => .commercialTotal c.amountCents c.code
    | none =>
    match matchDisplay dataText with
    | some (line, text) => .auxiliaryDisplay line text
    | none =>
      if dataText = "=K".toList then .commercialStartCandidate
      else if startsWith dataText "<</?".toList then .commercialControlCandidate dataText
      else .unknownRequestCommand

/-- The response frames that are read. -/
def RCHFrame.expectedResponse (f : RCHFrame) : Bool :=
  f.bccValid && f.address == "01".toList && f.frameClass == 'N'

/-- The role and the evidence `_message_from_frame` finds. -/
def frameRole (direction : Direction) (frame : RCHFrame) : MessageRole × Evidence :=
  if direction = .request then
    if frame.expectedRequest then
      let role := requestRole frame.dataText
      (role, if role ≠ .unknownRequestCommand then .inferred else .unknown)
    else (.unexpectedRequestProfile, .unknown)
  else if frame.expectedResponse then
    match matchResponseCounter frame.dataText with
    | some counter => (.responseCounterCandidate counter (intOfText counter), .inferred)
    | none => (.responseFrame, .unknown)
  else (.unexpectedResponseProfile, .unknown)

/-- `_message_from_frame`. -/
def messageFromFrame (messageId : Nat) (direction : Direction) (frame : RCHFrame) :
    ProtocolMessage where
  messageId := messageId
  direction := direction
  role := (frameRole direction frame).1
  evidence := (frameRole direction frame).2
  streamOffset := frame.streamOffset
  endOffset := frame.endOffset
  frameId := some frame.frameId
  frameClass := some frame.frameClass
  data := frame.data
  raw := frame.raw
  frame := some ⟨frame.address, frame.sequence, frame.bccValid⟩

/-- `_message_from_ack`. -/
def messageFromAck (messageId : Nat) (direction : Direction) (ack : AckEvent) :
    ProtocolMessage where
  messageId := messageId
  direction := direction
  role := .standaloneAck
  evidence := .confirmed
  streamOffset := ack.streamOffset
  endOffset := ack.endOffset
  raw := ack.raw

/-- The message of an event. -/
def StreamEvent.message (messageId : Nat) (direction : Direction) : StreamEvent → ProtocolMessage
  | .frame f => messageFromFrame messageId direction f
  | .ack a => messageFromAck messageId direction a

/-- The variables of the message loop of `_parse_framed_copies`. -/
structure MessageLog where
  messages : List ProtocolMessage := []
  limitIssue : Option ReceiptIssue := none
  deriving DecidableEq, Repr

/-- One turn of the message loop. -/
def MessageLog.add (maxMessages : Nat) (direction : Direction) (log : MessageLog)
    (event : StreamEvent) : MessageLog :=
  if maxMessages ≤ log.messages.length then
    { log with
      limitIssue := log.limitIssue.or (some
        { code := .messageLimitExceeded
          detail := s!"more than {maxMessages} protocol messages observed; " ++
            "additional messages omitted"
          direction := some direction
          streamOffset := some event.streamOffset }) }
  else
    { log with
      messages := log.messages ++ [event.message (log.messages.length + 1) direction] }

/-- The message loop of `_parse_framed_copies`. -/
def collectMessages (maxMessages : Nat) (request response : FramingResult) : MessageLog :=
  response.events.foldl (MessageLog.add maxMessages .response)
    (request.events.foldl (MessageLog.add maxMessages .request) {})

/-! ## Correlations -/

/-- `RequestResponseCorrelation`. -/
structure RequestResponseCorrelation where
  requestFrameId : Nat
  requestStreamOffset : Nat
  requestSequence : Char
  ackEventId : Option Nat
  ackStreamOffset : Option Nat
  responseFrameId : Option Nat
  responseStreamOffset : Option Nat
  expectedResponseSequence : Option Char
  observedResponseSequence : Option Char
  sequenceMatches : Option Bool
  deriving DecidableEq, Repr

/-- `_expected_response_sequence`; a sequence has one character here. -/
def expectedResponseSequence (requestSequence : Char) : Option Char :=
  if isDecimal requestSequence then
    some (Char.ofNat (48 + (requestSequence.toNat - 48 + 8) % 10))
  else none

/-- `expected == observed if expected is not None and observed is not None else None`. -/
def sequenceMatches : Option Char → Option Char → Option Bool
  | some expected, some observed => some (expected == observed)
  | _, _ => none

/-- The correlation of a request frame with the ACK and the response at its position. -/
def correlation (request : RCHFrame) (ack : Option AckEvent) (response : Option RCHFrame) :
    RequestResponseCorrelation where
  requestFrameId := request.frameId
  requestStreamOffset := request.streamOffset
  requestSequence := request.sequence
  ackEventId := ack.map (·.eventId)
  ackStreamOffset := ack.map (·.streamOffset)
  responseFrameId := response.map (·.frameId)
  responseStreamOffset := response.map (·.streamOffset)
  expectedResponseSequence := expectedResponseSequence request.sequence
  observedResponseSequence := response.map (·.sequence)
  sequenceMatches :=
    sequenceMatches (expectedResponseSequence request.sequence) (response.map (·.sequence))

/-- An optional character as an f-string shows it. -/
def showChar : Option Char → String
  | none => "None"
  | some c => String.singleton c

/-- The issues of one correlation, before they are bounded. -/
def correlationIssues (request : RCHFrame) (ack : Option AckEvent) (response : Option RCHFrame) :
    List ReceiptIssue :=
  (if ack.isSome then []
    else
      [{ code := .missingAckCandidate
         detail := "no standalone ACK was available at the same ordinal position as this request"
         direction := some .requestResponse
         streamOffset := some request.streamOffset
         frameId := some request.frameId
         evidence := .inferred }]) ++
  match response with
  | none =>
    [{ code := .missingResponseFrameCandidate
       detail := "no response frame was available at the same ordinal position as this request"
       direction := some .requestResponse
       streamOffset := some request.streamOffset
       frameId := some request.frameId
       evidence := .inferred }]
  | some frame =>
    let c := correlation request ack response
    if c.sequenceMatches = some false then
      [{ code := .responseSequenceMismatch
         detail := s!"expected response sequence {showChar c.expectedResponseSequence}, " ++
           s!"observed {showChar c.observedResponseSequence}"
         direction := some .requestResponse
         streamOffset := some frame.streamOffset
         frameId := some frame.frameId
         evidence := .inferred }]
    else []

/-- `add_issue` of `_correlate_directions`. -/
def addBounded (maxIssues : Nat) (issues : List ReceiptIssue) (i : ReceiptIssue) :
    List ReceiptIssue :=
  if issues.length < maxIssues then issues ++ [i] else issues

/-- The issue of a response frame without a request. -/
def unmatchedResponse (f : RCHFrame) : ReceiptIssue where
  code := .unmatchedResponseFrame
  detail := "response frame has no request frame at the same ordinal position"
  direction := some .response
  streamOffset := some f.streamOffset
  frameId := some f.frameId
  evidence := .inferred

/-- The issue of an ACK without a request. -/
def unmatchedAck (a : AckEvent) : ReceiptIssue where
  code := .unmatchedAck
  detail := "standalone ACK has no request frame at the same ordinal position"
  direction := some .response
  streamOffset := some a.streamOffset
  evidence := .inferred

/-- The request frames with the ACK and the response frame at the same position. -/
def paired (requests : List RCHFrame) (acks : List AckEvent) (responses : List RCHFrame) :
    List (RCHFrame × Option AckEvent × Option RCHFrame) :=
  requests.zipIdx.map fun (f, index) => (f, acks[index]?, responses[index]?)

/-- `_correlate_directions`. -/
def correlateDirections (maxIssues : Nat) (request response : FramingResult) :
    List RequestResponseCorrelation × List ReceiptIssue :=
  let pairs := paired request.frames response.acks response.frames
  let count := request.frames.length
  let found := pairs.flatMap (fun (f, ack, frame) => correlationIssues f ack frame) ++
    (response.frames.drop count).map unmatchedResponse ++
    (response.acks.drop count).map unmatchedAck
  (pairs.map fun (f, ack, frame) => correlation f ack frame, found.foldl (addBounded maxIssues) [])

/-! ## Counters of responses -/

/-- A dictionary made from a list: the last entry of a key counts. -/
def lookup {α : Type} (key : α → Nat) (l : List α) (k : Nat) : Option α :=
  l.reverse.find? fun x => key x == k

/-- The response of a counter query, with its counter. -/
def counterOf (correlations : List RequestResponseCorrelation) (response : FramingResult)
    (requestFrameId : Nat) : Option (RCHFrame × Text) := do
  let c ← lookup (·.requestFrameId) correlations requestFrameId
  let id ← c.responseFrameId
  if c.sequenceMatches ≠ some true then none
  let frame ← lookup (·.frameId) response.frames id
  if !frame.expectedResponse then none
  let counter ← matchResponseCounter frame.dataText
  return (frame, counter)

/-- One turn of the loop over the frames of a document in `_attach_response_counters`. -/
def counterStep (correlations : List RequestResponseCorrelation) (request response : FramingResult)
    (st : Bool × List (RCHFrame × Text)) (requestFrameId : Nat) : Bool × List (RCHFrame × Text) :=
  match lookup (·.frameId) request.frames requestFrameId with
  | none => st
  | some frame =>
    if !frame.expectedRequest then st
    else if (Pattern.commercialTotal.fullMatch frame.dataText).isSome then (true, st.2)
    -- `b"<</?s"`: only a counter query after the payment counts
    else if !st.1 || frame.data ≠ [0x3C, 0x3C, 0x2F, 0x3F, 0x73] then st
    else (st.1, st.2 ++ (counterOf correlations response requestFrameId).toList)

/-- The document with a counter. -/
def DocumentModel.attachCounter (model : DocumentModel) (frame : RCHFrame) (suffix : Text) :
    DocumentModel :=
  { model with
    documentNumber := some suffix
    responseCounterSuffix := some suffix
    metadata.documentNumberSource := some { frame.source with direction := .response }
    footer := model.footer ++
      [{ text := [], trace := frame.trace },
       { text := "DOCUMENTO N. (solo suffisso) ".toList ++ suffix, trace := frame.trace }] }

/-- One turn of the loop of `_attach_response_counters`. -/
def attachResponseCounter (correlations : List RequestResponseCorrelation)
    (request response : FramingResult) (document : ParsedReceipt) : Semantic ParsedReceipt := do
  if document.documentType ≠ .commerciale ∨ document.complete = false then return document
  match (document.frameIds.foldl (counterStep correlations request response) (false, [])).2.getLast?
    with
  | none => return document
  | some (frame, suffix) =>
    let granted ← reserve 4 frame .response
    return if granted then { document with model := document.model.attachCounter frame suffix }
      else document

/-- `_attach_response_counters`. -/
def attachResponseCounters (correlations : List RequestResponseCorrelation)
    (request response : FramingResult) (documents : List ParsedReceipt) :
    Semantic (List ParsedReceipt) :=
  documents.mapM (attachResponseCounter correlations request response)

/-! ## Subtypes -/

/-- `_item_signature`. -/
def itemSignature (document : ParsedReceipt) : List (Text × Option Int) :=
  document.model.items.map fun item => (strip (casefold item.description), item.amountCents)

/-- The amount `_primary_total` takes from a total. -/
def Total.primary (total : Total) : Option Int :=
  match total.amountCents with
  | some cents => some cents
  | none =>
    match total.amounts with
    | [amount] => some amount.cents
    | _ => none

/-- `_primary_total`. -/
def primaryTotal (document : ParsedReceipt) : Option Int :=
  document.model.totals.findSome? Total.primary

/-- The commercial document a management document copies, the last one first. -/
def copiedFrom (document : ParsedReceipt) (priorCommercial : List ParsedReceipt) :
    Option ParsedReceipt :=
  let signature := itemSignature document
  let total := primaryTotal document
  priorCommercial.reverse.find? fun commercial =>
    signature ≠ [] && signature = itemSignature commercial && total.isSome &&
      total = primaryTotal commercial &&
      (document.model.payments ≠ [] || document.model.taxes ≠ [])

/-- The subtype of a management document, its evidence and the document it copies. -/
def managementSubtype (document : ParsedReceipt) (priorCommercial : List ParsedReceipt) :
    DocumentSubtype × Evidence × Option ParsedReceipt :=
  let model := document.model
  let up := model.lines.map fun line => upper (strip line.text)
  if up.any (contains · "COPIA CONFORME".toList) then (.copiaConforme, .inferred, none)
  else if up.any (startsWith · "PORTATA:".toList) && up.any (startsWith · "COPERTI:".toList) &&
      model.totals = [] then (.comanda, .inferred, none)
  else if up.any (contains · "PRECONTO".toList) then (.preconto, .inferred, none)
  else
    match copiedFrom document priorCommercial with
    | some commercial => (.copiaConforme, .inferred, some commercial)
    | none =>
      if model.items ≠ [] ∧ model.totals ≠ [] ∧ model.payments = [] ∧ model.taxes = [] then
        (.preconto, .inferred, none)
      else (.documentoGestionaleGenerico, .unknown, none)

/-- The document with a subtype. -/
def ParsedReceipt.assignSubtype (document : ParsedReceipt) (subtype : DocumentSubtype) (evidence : Evidence)
    (relation : Option ParsedReceipt) : ParsedReceipt :=
  { document with
    model.metadata.subtype := some subtype
    model.metadata.subtypeEvidence := some evidence
    model.metadata.copyOf := relation.map (·.documentId) }

/-- `_assign_document_subtypes`, with the commercial documents before. -/
def assignDocumentSubtypes (priorCommercial : List ParsedReceipt) :
    List ParsedReceipt → List ParsedReceipt
  | [] => []
  | document :: documents =>
    match document.documentType with
    | .commerciale =>
      let document := document.assignSubtype .documentoCommerciale .inferred none
      document :: assignDocumentSubtypes (priorCommercial ++ [document]) documents
    | .gestionale =>
      let (subtype, evidence, relation) := managementSubtype document priorCommercial
      document.assignSubtype subtype evidence relation ::
        assignDocumentSubtypes priorCommercial documents

/-! ## The result -/

/-- `ProtocolCopiesResult`. -/
structure ProtocolCopiesResult where
  requestFraming : FramingResult
  responseFraming : FramingResult
  documents : List ParsedReceipt
  messages : List ProtocolMessage
  correlations : List RequestResponseCorrelation
  issues : List ReceiptIssue

/-- The indexes `_bounded_result_issues` selects: limit crossings first, then the others in order. -/
def selectedIndexes (issues : List ReceiptIssue) (capacity : Nat) : List Nat :=
  let indexes := List.range issues.length
  let limits := (indexes.filter fun index =>
    (issues[index]?.map (·.code.isLimit)).getD false).take capacity
  limits ++ (indexes.filter (!limits.contains ·)).take (capacity - limits.length)

/-- `_bounded_result_issues`. -/
def boundedResultIssues (issues : List ReceiptIssue) (maxIssues : Nat) : List ReceiptIssue :=
  if issues.length ≤ maxIssues then issues
  else
    let retained := ((selectedIndexes issues (maxIssues - 1)).mergeSort (· ≤ ·)).filterMap (issues[·]?)
    retained ++
      [{ code := .resultIssueLimitExceeded
         detail := s!"{issues.length - retained.length} additional parser issue(s) omitted" }]

/-- The arguments of `parse_protocol_copies` its checks and those of the framer accept. -/
structure ParserLimits where
  framer : FramerLimits
  maxDocuments : Nat
  maxMessages : Nat
  maxAnalyzedBytes : Nat
  maxSemanticFields : Nat
  documents_pos : 1 ≤ maxDocuments
  messages_pos : 1 ≤ maxMessages
  bytes_pos : 1 ≤ maxAnalyzedBytes
  fields_pos : 1 ≤ maxSemanticFields

/-- The default arguments of `parse_protocol_copies`. -/
def ParserLimits.default : ParserLimits where
  framer := { FramerLimits.default with maxIssues := 1024, issues_pos := by decide }
  maxDocuments := 256
  maxMessages := 8192
  maxAnalyzedBytes := 8 * 1024 * 1024
  maxSemanticFields := 32768
  documents_pos := FramerLimits.default.issues_pos
  messages_pos := by decide
  bytes_pos := by decide
  fields_pos := by decide

/-- The documents of `_parse_framed_copies` and their issues, with their counters attached, and the
correlations. -/
def reconstruct (lim : ParserLimits) (request response : FramingResult) :
    Semantic (List ParsedReceipt × List ReceiptIssue) := do
  let (documents, issues) ← parseDocuments lim.maxDocuments request.frames
  let (correlations, found) := correlateDirections lim.framer.maxIssues request response
  let documents ← attachResponseCounters correlations request response documents
  return (assignDocumentSubtypes [] documents, issues ++ found)

/-- `_parse_framed_copies`. -/
def parseFramedCopies (lim : ParserLimits) (initialIssues : List ReceiptIssue)
    (request response : FramingResult) : ProtocolCopiesResult :=
  let ((documents, issues), budget) :=
    (reconstruct lim request response).run (.new lim.maxSemanticFields)
  let log := collectMessages lim.maxMessages request response
  { requestFraming := request
    responseFraming := response
    documents := documents
    messages := log.messages
    correlations := (correlateDirections lim.framer.maxIssues request response).1
    issues := boundedResultIssues
      (initialIssues ++ request.issues.map (·.receiptIssue .request) ++
        response.issues.map (·.receiptIssue .response) ++ issues ++
        budget.issue.toList.map Subtype.val ++ log.limitIssue.toList) lim.framer.maxIssues }

/-- The issue of bytes that are not analyzed. -/
def analysisIssue (maxAnalyzedBytes : Nat) (direction : Direction) (original : Bytes) :
    List ReceiptIssue :=
  if original.length = (original.take maxAnalyzedBytes).length then []
  else
    [{ code := .analysisByteLimitExceeded
       detail := s!"{direction.text} contains {original.length} bytes; semantic analysis was " ++
         s!"limited to the first {maxAnalyzedBytes}; authoritative RAW is unchanged"
       direction := some direction
       streamOffset := some maxAnalyzedBytes }]

/-- `parse_protocol_copies`. -/
def parseProtocolCopies (lim : ParserLimits) (request response : Bytes) :
    Except Error ProtocolCopiesResult := do
  let requestFraming ← frameStream lim.framer (request.take lim.maxAnalyzedBytes)
  let responseFraming ← frameStream lim.framer (response.take lim.maxAnalyzedBytes)
  return parseFramedCopies lim
    (analysisIssue lim.maxAnalyzedBytes .request request ++
      analysisIssue lim.maxAnalyzedBytes .response response) requestFraming responseFraming

end RchProxy
