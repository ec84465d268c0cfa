import RchProxy.Lib.Meter
import RchProxy.Framing.Basic
import RchProxy.Py.Str

/-!
# Receipts and their diagnostics

The data of `rch/receipt_parser.py` and of the `DocumentModel` it fills. A Python dictionary with
fixed keys is a record here; a key that is only set on some paths is an optional field. Values that
are the same in every record (`direction` of a source in a document, `align`, the constant metadata
of `_new_builder`) are left out.
-/

namespace RchProxy

open Py Lib

/-- `CONFIRMED`, `INFERRED` and `UNKNOWN`. -/
inductive Evidence where
  | confirmed
  | inferred
  | unknown
  deriving DecidableEq, Repr

/-- The `direction` of an issue, a message or a source. -/
inductive Direction where
  | request
  | response
  | requestResponse
  deriving DecidableEq, Repr

/-- The literal a `Direction` is written as. -/
def Direction.text : Direction → String
  | request => "request"
  | response => "response"
  | requestResponse => "request_response"

/-- `ReceiptIssue`. -/
structure ReceiptIssue where
  code : IssueCode
  detail : String
  direction : Option Direction := none
  streamOffset : Option Nat := none
  frameId : Option Nat := none
  raw : Bytes := []
  evidence : Evidence := .confirmed
  deriving DecidableEq, Repr

/-- `DocumentAssemblyState`. -/
inductive AssemblyState where
  | idle
  | commercialBody
  | commercialPayment
  | commercialPostlude
  | managementBody
  | complete
  | incomplete
  deriving DecidableEq, Repr

/-- The kind of a document: `documento_commerciale` or `documento_gestionale`. -/
inductive DocKind where
  | commerciale
  | gestionale
  deriving DecidableEq, Repr

/-- `_source`: where a field was read. -/
structure Source where
  direction : Direction
  frameId : Nat
  streamOffset : Nat
  endOffset : Nat
  evidence : Evidence
  deriving DecidableEq, Repr

/-- `_source(frame, evidence=INFERRED)`. -/
def RCHFrame.source (f : RCHFrame) : Source where
  direction := .request
  frameId := f.frameId
  streamOffset := f.streamOffset
  endOffset := f.endOffset
  evidence := .inferred

/-- `SourceTrace`, without the path into an XML document. -/
structure SourceTrace where
  sourceOffset : Nat
  sourceFrame : Nat
  evidence : Evidence
  deriving DecidableEq, Repr

/-- `_trace(frame, evidence=INFERRED)`. -/
def RCHFrame.trace (f : RCHFrame) : SourceTrace where
  sourceOffset := f.streamOffset
  sourceFrame := f.frameId
  evidence := .inferred

/-- `DocumentLine`. -/
structure DocumentLine where
  text : Text
  trace : SourceTrace
  bold : Bool := false
  doubleWidth : Bool := false
  doubleHeight : Bool := false
  deriving DecidableEq, Repr

/-- An entry of `amounts`. -/
structure Amount where
  raw : Text
  cents : Int
  source : Source
  deriving DecidableEq, Repr

/-- An entry of `items`: a printed line of a management document, or an item command. -/
structure Item where
  description : Text
  amountCents : Option Int
  quantity : Option Int := none
  commandCode : Option Text := none
  amountRaw : Option Text := none
  taxClass : Option Text := none
  source : Source
  deriving DecidableEq, Repr

/-- An entry of `payments`. -/
structure Payment where
  methodText : Option Text := none
  amountCents : Int
  amount : Option Amount := none
  sourceCode : Option Text := none
  source : Source
  deriving DecidableEq, Repr

/-- An entry of `totals`. -/
structure Total where
  label : Option Text := none
  amountCents : Option Int
  amounts : List Amount := []
  commandCode : Option Text := none
  source : Source
  deriving DecidableEq, Repr

/-- An entry of `taxes`. -/
structure Tax where
  rawText : Text
  taxableAmount : Amount
  taxAmount : Amount
  source : Source
  deriving DecidableEq, Repr

/-- An entry of `document_state_transitions`. -/
structure StateTransition where
  source : AssemblyState
  target : AssemblyState
  frameId : Nat
  streamOffset : Nat
  deriving DecidableEq, Repr

/-- The subtype labels of `_assign_document_subtypes`. -/
inductive DocumentSubtype where
  | documentoCommerciale
  | documentoGestionaleGenerico
  | copiaConforme
  | comanda
  | preconto
  deriving DecidableEq, Repr

/-- The metadata of a document that vary with its contents. -/
structure Metadata where
  observedCurrencyLabel : Bool := false
  orderText : Option Text := none
  renderedOrderText : Option Text := none
  orderValue : Option Text := none
  orderSource : Option Source := none
  printedReferenceSource : Option Source := none
  change : Option Amount := none
  closeCandidateFrameId : Option Nat := none
  complete : Option Bool := none
  documentStateTransitions : List StateTransition := []
  finalDocumentState : Option AssemblyState := none
  sourceFrameIds : List Nat := []
  documentNumberSource : Option Source := none
  subtype : Option DocumentSubtype := none
  subtypeEvidence : Option Evidence := none
  copyOf : Option String := none
  deriving DecidableEq, Repr

/-- `DocumentModel`. -/
structure DocumentModel where
  kind : DocKind
  lines : List DocumentLine := []
  footer : List DocumentLine := []
  items : List Item := []
  quantities : List Int := []
  descriptions : List Text := []
  amounts : List Amount := []
  taxes : List Tax := []
  payments : List Payment := []
  totals : List Total := []
  metadata : Metadata := {}
  date : Option Text := none
  time : Option Text := none
  documentNumber : Option Text := none
  responseCounterSuffix : Option Text := none
  deriving DecidableEq, Repr

/-- `ParsedReceipt`. -/
structure ParsedReceipt where
  documentId : String
  documentType : DocKind
  complete : Bool
  model : DocumentModel
  frameIds : List Nat
  startOffset : Nat
  endOffset : Nat
  issues : List ReceiptIssue
  deriving DecidableEq, Repr

/-- The issue a budget keeps of its first refusal. -/
abbrev SemanticIssue := { i : ReceiptIssue // i.code = .semanticFieldLimitExceeded }

/-- `_SemanticBudget`. -/
abbrev SemanticBudget := Meter SemanticIssue

/-- A computation that reserves semantic fields. -/
abbrev Semantic (α : Type) := Spend SemanticIssue α

/-- The issue of `_SemanticBudget.reserve`. -/
def semanticLimitIssue (frame : RCHFrame) (direction : Direction) (limit : Nat) : SemanticIssue :=
  ⟨{ code := .semanticFieldLimitExceeded
     detail := s!"derived semantic records exceeded the global {limit}-field limit; " ++
       "additional human-readable fields were omitted while RAW and framed messages remain available"
     direction := some direction
     streamOffset := some frame.streamOffset
     frameId := some frame.frameId }, rfl⟩

/-- `_SemanticBudget.reserve`. -/
def reserve (count : Nat) (frame : RCHFrame) (direction : Direction := .request) : Semantic Bool :=
  Spend.reserve count (semanticLimitIssue frame direction)

end RchProxy
