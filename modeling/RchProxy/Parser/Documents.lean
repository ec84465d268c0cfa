import RchProxy.Parser.Outputs
import RchProxy.Parser.Subtype
import RchProxy.Parser.Timeline
import RchProxy.Receipt.Analysis

/-!
# Writing the documents

`_write_documents` of `parser/worker.py`: every reconstructed document is dated, named and rendered
into the staging directory of the worker, and `parsed.json` describes them all. The renderers, the
time-zone database and the dictionaries of the semantic results are parameters (`Rendering`).
-/

namespace RchProxy

open Py Lib

/-- What `value.astimezone(timezone)` shows of an instant: the date and the offset as they are
written, and the clock. -/
structure LocalTime where
  date : Text
  hour : Fin 24
  minute : Fin 60
  second : Fin 60
  microsecond : Fin 1000000
  offset : Text

/-- A JSON value Python wrote itself. -/
abbrev PlainJson := { v : Json // v.Plain }

/-- The parts of a parse that are not modelled. -/
structure Rendering where
  fromisoformat : Text → Option IsoTime
  astimezone : Int → Except Error LocalTime
  /-- `render_clean_text`, of a document behind a header. -/
  renderCleanText : List Text → DocumentModel → Text
  /-- `render_pdf`, of a document behind a header. -/
  renderPdf : List Text → DocumentModel → Except Error Bytes
  receiptToDict : ParsedReceipt → PlainJson
  issueToDict : ReceiptIssue → PlainJson
  correlationToDict : RequestResponseCorrelation → PlainJson

/-- `_human_capture_time`: the clock of a file name, and the time for a reader. -/
def humanCaptureTime (t : LocalTime) : Text × Text :=
  let milliseconds := zeroPad 3 (t.microsecond / 1000)
  let clock (separator : Char) := zeroPad 2 t.hour ++ separator :: zeroPad 2 t.minute ++
    separator :: zeroPad 2 t.second ++ '.' :: milliseconds
  (clock '.', t.date ++ 'T' :: clock ':' ++ t.offset)

/-- The letter of a document in the name of its files. -/
def DocKind.letter : DocKind → Char
  | .commerciale => 'C'
  | .gestionale => 'G'

/-- The `canonical_type` of a document. -/
def DocKind.canonical : DocKind → Text
  | .commerciale => "commerciale".toList
  | .gestionale => "gestionale".toList

/-- The literal of a subtype. -/
def DocumentSubtype.text : DocumentSubtype → Text
  | .documentoCommerciale => "DOCUMENTO COMMERCIALE".toList
  | .documentoGestionaleGenerico => "DOCUMENTO GESTIONALE GENERICO".toList
  | .copiaConforme => "COPIA CONFORME".toList
  | .comanda => "COMANDA".toList
  | .preconto => "PRECONTO".toList

/-- `CONFIRMED`, `INFERRED` or `UNKNOWN`. -/
def Evidence.text : Evidence → Text
  | .confirmed => "CONFIRMED".toList
  | .inferred => "INFERRED".toList
  | .unknown => "UNKNOWN".toList

/-- The literal of the worker's evidence. -/
def ParserEvidence.text : ParserEvidence → Text
  | .inferredFromObservedRchCommandSequence =>
    "INFERRED_FROM_OBSERVED_RCH_COMMAND_SEQUENCE".toList
  | .observedLiteralMarker => "OBSERVED_LITERAL_MARKER".toList
  | .semantic evidence => evidence.text
  | .conservativeDefault => "CONSERVATIVE_DEFAULT".toList

/-- The header of `_render_model_with_metadata`, after `_annotate_parser_classification`. -/
def metadataHeader (kind : DocKind) (subtype : DocumentSubtype) (evidence : ParserEvidence)
    (complete : Bool) : List Text :=
  ["=== METADATI PARSER ===".toList, "(NON PARTE DEL DOCUMENTO)".toList,
    "TIPO: ".toList ++ [kind.letter], "SOTTOTIPO: ".toList ++ subtype.text,
    "STATO: ".toList ++ (if complete then "COMPLETO".toList else "INCOMPLETO".toList),
    "EVIDENZA: ".toList ++ evidence.text, "=== DOCUMENTO RICOSTRUITO ===".toList,
    "(DA DATI CATTURATI)".toList, []]

/-- `_unique_stem`: the stem, and the bases used so far. -/
def uniqueStem (code : Text) (kind : DocKind) (clock : Text) (seen : List Text) :
    Text × List Text :=
  let base := code ++ '_' :: kind.letter :: '_' :: clock
  let occurrence := seen.count base + 1
  (if occurrence = 1 then base else base ++ '_' :: zeroPad 2 occurrence, base :: seen)

/-- A stem is the base, or the base and its occurrence. -/
theorem uniqueStem_eq (code : Text) (kind : DocKind) (clock : Text) (seen : List Text) :
    ∃ occurrence, (occurrence = [] ∨ ∃ n, 2 ≤ n ∧ occurrence = '_' :: zeroPad 2 n) ∧
      (uniqueStem code kind clock seen).1 =
        code ++ '_' :: kind.letter :: '_' :: (clock ++ occurrence) := by
  let base := code ++ '_' :: kind.letter :: '_' :: clock
  by_cases hfirst : seen.count base + 1 = 1
  · refine ⟨[], .inl rfl, ?_⟩
    rw [uniqueStem, if_pos hfirst, List.append_nil]
  · refine ⟨'_' :: zeroPad 2 (seen.count base + 1), .inr ⟨_, ?_, rfl⟩, ?_⟩
    · exact Nat.lt_of_le_of_ne (Nat.succ_le_succ (Nat.zero_le _)) (Ne.symm hfirst)
    · rw [uniqueStem, if_neg hfirst]
      simp only [List.append_assoc, List.cons_append, base]

/-- A file that was written, and its digest. -/
structure Written where
  name : Text
  sha256 : Text
  deriving DecidableEq, Repr

/-- The reference to a file in `parsed.json`. -/
def Written.json : Option Written → Json
  | none => .null
  | some w => .obj [("name".toList, .str w.name), ("sha256".toList, .str w.sha256)]

/-- The entry of a document in `parsed.json`. -/
def documentEntry (r : Rendering) (config : Config) (index : Nat) (parsed : ParsedReceipt)
    (event : TimelineEvent) (display : Text) (txt pdf : Option Written) : Json :=
  let (subtype, evidence) := documentSubtype parsed.model parsed.model.kind
  .obj [("ordinal".toList, .int (index + 1)),
    ("document_id".toList, .str parsed.documentId.toList),
    ("type".toList, .str [parsed.model.kind.letter]),
    ("canonical_type".toList, .str parsed.model.kind.canonical),
    ("subtype".toList, .str subtype.text),
    ("subtype_evidence".toList, .str evidence.text),
    ("complete".toList, .bool parsed.complete),
    ("classification_evidence".toList, .str Evidence.inferred.text),
    ("capture_time_local".toList, .str display),
    ("timezone".toList, .str config.timezone.val),
    ("source".toList, .obj [("start_offset".toList, .int parsed.startOffset),
      ("end_offset".toList, .int parsed.endOffset),
      ("frame_ids".toList, .arr (parsed.frameIds.map fun n => .int n)),
      ("timeline_request_offset".toList, .int event.startOffset),
      ("timeline_received_unix_ns".toList, Json.ofInt? event.receivedUnixNs)]),
    ("outputs".toList, .obj [("txt".toList, Written.json txt), ("pdf".toList, Written.json pdf)]),
    ("semantic".toList, (r.receiptToDict parsed).val)]

/-- `parsed.json`. -/
def parsedMetadata (r : Rendering) (code manifestHash : Text) (analysis : ProtocolAnalysis)
    (documents : List Json) : Json :=
  .obj [("schema".toList, .str parsedSchema), ("project".toList, .str "commercialRCHproxy".toList),
    ("parser_version".toList, .str version), ("codice_doc".toList, .str code),
    ("capture_manifest".toList, .str "../manifest.json".toList),
    ("capture_manifest_sha256".toList, .str manifestHash),
    ("parser_status".toList, .str analysis.parserStatus.text.toList),
    ("document_count".toList, .int documents.length), ("documents".toList, .arr documents),
    ("protocol_issues".toList, .arr (analysis.protocol.issues.map fun i => (r.issueToDict i).val)),
    ("correlations".toList,
      .arr (analysis.protocol.correlations.map fun c => (r.correlationToDict c).val)),
    ("evidence_policy".toList, .obj [
      ("framing_and_literal_payload".toList, .str Evidence.confirmed.text),
      ("command_semantics".toList, .str Evidence.inferred.text),
      ("unobserved_fields".toList, .str Evidence.unknown.text)])]

namespace Job

/-- A text in the staging directory, and its digest. -/
def writeText (staging name : Text) (text : Text) : Job Written := do
  atomicWriteBytes ⟨some staging, name⟩ (encodeUtf8 text)
  return { name, sha256 := ← sha256File ⟨some staging, name⟩ }

/-- A PDF in the staging directory, and its digest. -/
def writePdf (staging name : Text) (pdf : Except Error Bytes) : Job Written := do
  atomicGenerate staging name pdf
  return { name, sha256 := ← sha256File ⟨some staging, name⟩ }

/-- An output the configuration asks for. -/
def whenSaved (save : Bool) (m : Job Written) : Job (Option Written) :=
  if save then some <$> m else return none

/-- What `_write_documents` has written so far. -/
structure Progress where
  seen : List Text := []
  expectedFiles : List Text := []
  documents : List Json := []

/-- One document of `_write_documents`. -/
def writeDocument (r : Rendering) (config : Config) (code : Text) (token : LeaseToken)
    (timeline : List TimelineEvent) (progress : Progress) (parsed : ParsedReceipt) :
    Job Progress := do
  refreshClaim token
  let kind := parsed.model.kind
  let (subtype, evidence) := documentSubtype parsed.model kind
  let event ← Prog.ofExcept (eventForOffset timeline parsed.startOffset)
  let (clock, display) := humanCaptureTime (← Prog.ofExcept (r.astimezone event.receivedAt))
  let (stem, seen) := uniqueStem code kind clock progress.seen
  let header := metadataHeader kind subtype evidence parsed.complete
  let text := r.renderCleanText header parsed.model
  let index := progress.documents.length
  if text = [] then
    throw (.parserJobError s!"semantic document {index + 1} has no human-readable captured fields")
  let txt ← whenSaved config.saveCleanTxt
    (writeText (stagingName token) (stem ++ ".txt".toList) text)
  let pdf ← whenSaved config.savePdf
    (writePdf (stagingName token) (stem ++ ".pdf".toList) (r.renderPdf header parsed.model))
  return { seen
           expectedFiles := (txt.toList ++ pdf.toList).map (·.name) ++ progress.expectedFiles
           documents := progress.documents ++
             [documentEntry r config index parsed event display txt pdf] }

/-- The documents of `_write_documents`, one by one. -/
def writeAll (r : Rendering) (config : Config) (code : Text) (token : LeaseToken)
    (timeline : List TimelineEvent) : List ParsedReceipt → Progress → Job Progress
  | [], progress => return progress
  | parsed :: rest, progress => do
    writeAll r config code token timeline rest
      (← writeDocument r config code token timeline progress parsed)

/-- The loop of `_remove_unreferenced_outputs`. -/
def removeUnreferenced (outputDir : Text) (expected : List Text) : List Text → Job Unit
  | [] => return ()
  | name :: names => do
    if ← isFile ⟨some outputDir, name⟩ then
      if isParserOutput name && !expected.contains name then unlink ⟨some outputDir, name⟩
    removeUnreferenced outputDir expected names

/-- `_remove_unreferenced_outputs`. -/
def removeUnreferencedOutputs (outputDir : Text) (expected : List Text) : Job Unit := do
  removeUnreferenced outputDir expected (← iterdir (some outputDir))
  fsync

/-- `_write_documents`, into the staging directory of the token. -/
def writeDocuments (r : Rendering) (config : Config) (loaded : LoadedSpoolJob) (token : LeaseToken) :
    Job (Nat × Text) := do
  let analysis ← Prog.ofExcept (analyzeCopies loaded.request loaded.response)
  if analysis.protocol.documents = [] then
    throw (.parserJobError
      s!"no semantic document reconstructed ({analysis.parserStatus.text})")
  let data ← read { name := loaded.timelinePath }
  let timeline ← Prog.ofExcept (loadRequestTimeline r.fromisoformat data config.maxCaptureEvents
    (Json.get "timeline_event_count".toList loaded.manifest))
  let staging := stagingName token
  ensureDirectory staging
  let progress ← writeAll r config loaded.jobDir token timeline analysis.protocol.documents {}
  removeUnreferencedOutputs staging progress.expectedFiles
  let manifestHash ← sha256File { name := "manifest.json".toList }
  let metadata := parsedMetadata r loaded.jobDir manifestHash analysis progress.documents
  let data ← Prog.ofExcept (jsonBytes metadata)
  atomicWriteBytes ⟨some staging, "parsed.json".toList⟩ data
  return (progress.documents.length, ← sha256File ⟨some staging, "parsed.json".toList⟩)

end Job

end RchProxy
