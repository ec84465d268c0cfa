import RchProxy.Parser.Claim
import RchProxy.Py.Str

/-!
# What a parse has to show

`_validate_parser_outputs` and `_validate_parsed_marker` of `parser/worker.py`: a directory of output
is taken when `parsed.json` is bound to the capture manifest and names every output in it, each with
its digest.
-/

namespace RchProxy

open Py Lib

/-- The end of a name of `_PARSER_OUTPUT_RE`, behind the clock. -/
def isOutputSuffix (rest : Text) : Bool :=
  rest = ".txt".toList || rest = ".pdf".toList ||
    match rest with
    | '_' :: rest =>
      let occurrence := rest.takeWhile Char.isDigit
      let suffix := rest.dropWhile Char.isDigit
      2 ≤ occurrence.length && (suffix = ".txt".toList || suffix = ".pdf".toList)
    | _ => false

/-- `[0-2][0-9]\.[0-5][0-9]\.[0-5][0-9]\.[0-9]{3}`, and the end of the name. -/
def isClockSuffix : Text → Bool
  | h₁ :: h₂ :: '.' :: m₁ :: m₂ :: '.' :: s₁ :: s₂ :: '.' :: f₁ :: f₂ :: f₃ :: rest =>
    '0' ≤ h₁ && h₁ ≤ '2' && h₂.isDigit && '0' ≤ m₁ && m₁ ≤ '5' && m₂.isDigit &&
      '0' ≤ s₁ && s₁ ≤ '5' && s₂.isDigit && f₁.isDigit && f₂.isDigit && f₃.isDigit &&
      isOutputSuffix rest
  | _ => false

/-- `_PARSER_OUTPUT_RE.fullmatch`. -/
def isParserOutput (name : Text) : Bool :=
  isJobCode (name.takeWhile Char.isDigit) &&
    match name.dropWhile Char.isDigit with
    | '_' :: kind :: '_' :: rest => (kind = 'C' || kind = 'G') && isClockSuffix rest
    | _ => false

/-- `name.endswith(suffix)`. -/
def endsWith (name suffix : Text) : Bool := suffix.isSuffixOf name

/-- `marker.get("document_count") == count`; a float of JSON is no count. -/
def countIs (value : Option Json) (count : Nat) : Bool :=
  match value with
  | some (.int n) => n = count
  | some (.bool b) => b.toNat = count
  | _ => false

namespace Job

/-- `_read_parser_metadata`. -/
def readParserMetadata (p : Loc) (maxBytes : Nat) : Job (List (Text × Json)) := do
  if !(← isFile p) then throw (.parserJobError "unsafe parser metadata")
  let n ← size p
  if n = 0 ∨ maxBytes < n then throw (.parserJobError "parser metadata has an unsafe size")
  match ← Prog.tryCatch (readJson p) fun
    | .osError _ | .unicodeDecodeError _ | .jsonDecodeError =>
      throw (.parserJobError "parser metadata is malformed")
    | e => throw e with
  | .obj fields => return fields
  | _ => throw (.parserJobError "parser metadata is not an object")

/-- One output of a document in `_validate_parser_outputs`; `referenced` are the names so far. -/
def validateReference (jobDir outputDir documentType suffix : Text) (output : Option Json)
    (referenced : List Text) : Job (List Text) := do
  match output with
  | none | some .null => return referenced
  | some (.obj output) =>
    match Json.text? (Json.get "name".toList output), Json.text? (Json.get "sha256".toList output) with
    | some name, some expected =>
      if !(isPlainName name && isParserOutput name &&
          startsWith name (jobDir ++ '_' :: documentType ++ ['_']) && endsWith name suffix &&
          isSha256 expected && !referenced.contains name) then
        throw (.parserJobError "parser metadata contains an unsafe output reference")
      if !(← isFile ⟨some outputDir, name⟩) then
        throw (.parserJobError "parser output is missing or has changed")
      if (← sha256File ⟨some outputDir, name⟩) ≠ expected then
        throw (.parserJobError "parser output is missing or has changed")
      return name :: referenced
    | _, _ => throw (.parserJobError "parser metadata contains an unsafe output reference")
  | _ => throw (.parserJobError "parser metadata contains a malformed output reference")

/-- One document of `_validate_parser_outputs`. -/
def validateDocument (jobDir outputDir : Text) (document : Json) (referenced : List Text) :
    Job (List Text) := do
  match document with
  | .obj document =>
    match Json.text? (Json.get "type".toList document),
        Json.fields? (Json.get "outputs".toList document) with
    | some documentType, some outputs =>
      if ¬ (documentType = ['C'] ∨ documentType = ['G']) then
        throw (.parserJobError "parser metadata contains invalid document outputs")
      let referenced ← validateReference jobDir outputDir documentType ".txt".toList
        (Json.get "txt".toList outputs) referenced
      validateReference jobDir outputDir documentType ".pdf".toList
        (Json.get "pdf".toList outputs) referenced
    | _, _ => throw (.parserJobError "parser metadata contains invalid document outputs")
  | _ => throw (.parserJobError "parser metadata contains a malformed document")

/-- The documents of `_validate_parser_outputs`: the names they reference. -/
def validateDocuments (jobDir outputDir : Text) : List Json → List Text → Job (List Text)
  | [], referenced => return referenced
  | document :: documents, referenced => do
    validateDocuments jobDir outputDir documents
      (← validateDocument jobDir outputDir document referenced)

/-- The outputs in a directory. -/
def actualOutputs (outputDir : Text) : List Text → Job (List Text)
  | [] => return []
  | name :: names => do
    let file ← isFile ⟨some outputDir, name⟩
    let rest ← actualOutputs outputDir names
    return if file && isParserOutput name then name :: rest else rest

/-- The part of `_validate_parser_outputs` that binds the metadata to the capture. -/
def validateBinding (metadata : List (Text × Json)) : Job Unit := do
  match Json.text? (Json.get "capture_manifest_sha256".toList metadata) with
  | none => throw (.parserJobError "parser metadata is not bound to the current capture manifest")
  | some captureHash =>
    if ¬ (Json.text? (Json.get "capture_manifest".toList metadata) = some "../manifest.json".toList ∧
        isSha256 captureHash) then
      throw (.parserJobError "parser metadata is not bound to the current capture manifest")
    if (← sha256File { name := "manifest.json".toList }) ≠ captureHash then
      throw (.parserJobError "parser metadata is not bound to the current capture manifest")

/-- The part of `_validate_parser_outputs` that compares the documents with the directory: how many
there are. -/
def validateListing (jobDir outputDir : Text) (expectedDocumentCount : Option Nat)
    (metadata : List (Text × Json)) : Job Nat := do
  match Json.items? (Json.get "documents".toList metadata) with
  | none => throw (.parserJobError "parser metadata has an invalid document count")
  | some documents =>
    if Json.int? (Json.get "document_count".toList metadata) ≠ some (documents.length : Int) then
      throw (.parserJobError "parser metadata has an invalid document count")
    if expectedDocumentCount.any (· ≠ documents.length) then
      throw (.parserJobError "parser output document count changed before commit")
    let referenced ← validateDocuments jobDir outputDir documents []
    let actual ← actualOutputs outputDir (← iterdir (some outputDir))
    if !(actual.all referenced.contains && referenced.all actual.contains) then
      throw (.parserJobError "PHARSED contains uncommitted or unreferenced parser outputs")
    return documents.length

/-- `_validate_parser_outputs`. -/
def validateParserOutputs (config : Config) (jobDir outputDir : Text)
    (expectedMetadataHash : Option Text) (expectedDocumentCount : Option Nat) :
    Job (Nat × Text) := do
  if !(← isDir { name := outputDir }) then
    throw (.parserJobError "parser output directory is missing or unsafe")
  let metadataPath : Loc := ⟨some outputDir, "parsed.json".toList⟩
  if !(← isFile metadataPath) then throw (.parserJobError "unsafe parser metadata")
  let metadataHash ← sha256File metadataPath
  if expectedMetadataHash.any (· ≠ metadataHash) then
    throw (.parserJobError "parser metadata hash does not match the completion state")
  let metadata ← readParserMetadata metadataPath config.maxPayloadBytes
  if ¬ (Json.text? (Json.get "schema".toList metadata) = some parsedSchema ∧
      Json.text? (Json.get "codice_doc".toList metadata) = some jobDir) then
    throw (.parserJobError "parser metadata does not identify this job")
  validateBinding metadata
  let count ← validateListing jobDir outputDir expectedDocumentCount metadata
  return (count, metadataHash)

/-- `_validate_parsed_marker`. -/
def validateParsedMarker (config : Config) (jobDir : Text) : Job Unit := do
  let marker ← readSmallJson StateFile.parsed.name
  match Json.text? (Json.get "metadata_sha256".toList marker) with
  | none => throw (.parserJobError "invalid parser completion marker")
  | some expectedHash =>
    if ¬ (Json.text? (Json.get "schema".toList marker) = some parsedSchema ∧
        Json.text? (Json.get "status".toList marker) = some "parsed".toList ∧
        Json.text? (Json.get "codice_doc".toList marker) = some jobDir ∧
        Json.text? (Json.get "metadata".toList marker) =
          some (pharsedDirname ++ "/parsed.json".toList) ∧
        isSha256 expectedHash) then
      throw (.parserJobError "invalid parser completion marker")
    let (count, _) ← validateParserOutputs config jobDir pharsedDirname (some expectedHash) none
    if !countIs (Json.get "document_count".toList marker) count then
      throw (.parserJobError "completion marker document count does not match parser metadata")

end Job

end RchProxy
