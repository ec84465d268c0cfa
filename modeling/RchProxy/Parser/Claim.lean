import RchProxy.Storage.Counter
import RchProxy.Storage.Load

/-!
# The claim of a worker

The marker files of the parser in a job directory, and the lease on it (`_claim_job`,
`_refresh_claim` and `_release_claim` of `parser/worker.py`). A worker owns the job while
`.processing` holds its token; everything it publishes is fenced by that marker, under the lock.
-/

namespace RchProxy

open Py Lib

/-- `PARSED_SCHEMA`. -/
def parsedSchema : Text := "commercialrchproxy.pharsed.v1".toList

/-- `PROCESSING_SCHEMA`. -/
def processingSchema : Text := "commercialrchproxy.parser-processing.v1".toList

/-- `__version__`. -/
def version : Text := "0.3.0".toList

/-- The parser's own files in a job directory. -/
inductive StateFile where
  | processing
  | processingStale
  | parsed
  | parseFailed
  | parseAttempts
  deriving DecidableEq, Repr

/-- The name of a state file. -/
def StateFile.name : StateFile → Text
  | .processing => ".processing".toList
  | .processingStale => ".processing.stale".toList
  | .parsed => ".parsed".toList
  | .parseFailed => ".parse_failed".toList
  | .parseAttempts => ".parse_attempts.json".toList

/-- `config.pharsed_dirname`. -/
def pharsedDirname : Text := "PHARSED".toList

/-- `[0-9a-f]`. -/
def isHexDigit (c : Char) : Bool := c.isDigit || ('a' ≤ c && c ≤ 'f')

/-- `[0-9a-f]{64}`. -/
def isSha256 (t : Text) : Bool := t.length = 64 && t.all isHexDigit

/-- The staging directory of a worker. -/
def stagingName (token : LeaseToken) : Text :=
  '.' :: pharsedDirname ++ '.' :: token.val ++ ".partial".toList

/-- Where a worker puts the output it replaces. -/
def supersededName (token : LeaseToken) : Text :=
  '.' :: pharsedDirname ++ '.' :: token.val ++ ".superseded".toList

/-- The token of `_PARSER_STAGING_RE`, where the name matches. -/
def parserStaging? (name : Text) : Option LeaseToken :=
  let token := (name.drop 9).take 32
  if h : token.length = 32 ∧ token.all isHexDigit then
    if name = stagingName ⟨token, h⟩ then some ⟨token, h⟩ else none
  else none

/-- `name.endswith(".partial")`. -/
def isPartial (name : Text) : Bool := ".partial".toList.isSuffixOf name

/-- A parser: the settings it runs with, and the process it is. -/
structure Parser where
  config : Config
  pid : Nat
  hostname : Label

namespace Job

/-- `_unlink_parser_state`. -/
def unlinkParserState (file : StateFile) : Job Unit := do
  match (← Prog.perform (.unlink { name := file.name }) : Except Error Unit) with
  | .ok () => fsync
  | .error (.osError .fileNotFound) => return ()
  | .error e => throw e

/-- `_read_small_json`. -/
def readSmallJson (name : Text) : Job (List (Text × Json)) := do
  if !(← isFile { name }) then throw (.parserJobError "unsafe parser state file")
  if 65536 < (← size { name }) then throw (.parserJobError "parser state file is too large")
  match ← readJson { name } with
  | .obj fields => return fields
  | _ => throw (.parserJobError "parser state file is malformed")

/-- `_validate_capture_commit`. -/
def validateCaptureCommit (jobDir : Text) : Job Unit := do
  let ready ← readSmallJson ".ready".toList
  match Json.text? (Json.get "manifest_sha256".toList ready) with
  | none => throw (.parserJobError "ready marker has no valid capture-manifest hash")
  | some expected =>
    if !isSha256 expected then
      throw (.parserJobError "ready marker has no valid capture-manifest hash")
    if Json.text? (Json.get "codice_doc".toList ready) ≠ some jobDir then
      throw (.parserJobError "ready marker CODICE_DOC does not match its directory")
    if !(← isFile { name := "manifest.json".toList }) then
      throw (.parserJobError "unsafe capture manifest")
    if (← sha256File { name := "manifest.json".toList }) ≠ expected then
      throw (.parserJobError "capture manifest does not match the ready marker")

/-- One capture file of `_revalidate_loaded_inputs`. -/
def revalidateArtifact (files hashes : List (Text × Json)) (key : Artifact) : Job Unit := do
  match Json.text? (Json.get key.key files), Json.text? (Json.get key.key hashes) with
  | some name, some expected =>
    if !isPlainName name then
      throw (.parserJobError s!"invalid capture artifact metadata for {String.ofList key.key}")
    if !(← isFile { name }) then
      throw (.parserJobError s!"capture artifact changed during parsing: {String.ofList key.key}")
    if (← sha256File { name }) ≠ expected then
      throw (.parserJobError s!"capture artifact changed during parsing: {String.ofList key.key}")
  | _, _ => throw (.parserJobError s!"invalid capture artifact metadata for {String.ofList key.key}")

/-- `_revalidate_loaded_inputs`. -/
def revalidateLoadedInputs (loaded : LoadedSpoolJob) : Job Unit := do
  match Json.fields? (Json.get "files".toList loaded.manifest),
      Json.fields? (Json.get "sha256".toList loaded.manifest) with
  | some files, some hashes => do
    revalidateArtifact files hashes .requestRaw
    revalidateArtifact files hashes .responseRaw
    revalidateArtifact files hashes .timeline
  | _, _ => throw (.parserJobError "capture manifest file maps changed during parsing")

/-- `_require_current_claim`. -/
def requireCurrentClaim (token : LeaseToken) : Job Unit := do
  if !(← isFile { name := StateFile.processing.name }) then
    throw (.parserClaimLost "processing claim is missing or unsafe")
  let state ← Prog.tryCatch (readSmallJson StateFile.processing.name) fun _ =>
    throw (.parserClaimLost "processing claim cannot be verified")
  if ¬ (Json.text? (Json.get "schema".toList state) = some processingSchema ∧
      Json.text? (Json.get "token".toList state) = some token.val) then
    throw (.parserClaimLost "processing claim was replaced")

/-- The marker of a claim. -/
def processingMarker (p : Parser) (token : LeaseToken) (startedAt : Text) : Json :=
  .obj [("schema".toList, .str processingSchema), ("token".toList, .str token.val),
    ("pid".toList, .int p.pid), ("host".toList, .str p.hostname.val),
    ("started_at".toList, .str startedAt), ("parser_version".toList, .str version)]

/-- `_create_processing_marker`. -/
def createProcessingMarker (p : Parser) (token : LeaseToken) : Job Unit := do
  let payload ← Prog.ofExcept (jsonBytes (processingMarker p token (← Prog.perform .now)))
  create { name := StateFile.processing.name }
  write { name := StateFile.processing.name } payload
  fsync
  fsync

/-- `_clear_parser_outputs`. -/
def clearParserOutputs : Job Unit := do
  if ← exist { name := pharsedDirname } then
    if !(← isDir { name := pharsedDirname }) then
      throw (.parserJobError "PHARSED path is not a directory")
  unlinkParserState .parsed
  unlinkParserState .parseFailed
  unlinkParserState .parseAttempts

/-- The loop of `_cleanup_orphan_parser_staging`: whether anything was removed. -/
def cleanupLoop (currentToken : Option LeaseToken) : List Text → Bool → Job Bool
  | [], removed => return removed
  | name :: names, removed => do
    match parserStaging? name with
    | none => cleanupLoop currentToken names removed
    | some token =>
      if some token = currentToken then cleanupLoop currentToken names removed
      else if !(← isDir { name }) then
        throw (.parserJobError "unsafe orphan parser staging artifact")
      else
        rmtree name
        cleanupLoop currentToken names true

/-- `_cleanup_orphan_parser_staging`. -/
def cleanupOrphanParserStaging (currentToken : Option LeaseToken) : Job Unit := do
  if ← cleanupLoop currentToken (← iterdir none) false then fsync

/-- The scan of a ready job for partial artifacts: only staging directories of the parser may be
there. -/
def checkPartials (unsafeStaging unfinished : Error) : List Text → Job Unit
  | [] => return ()
  | name :: names => do
    if isPartial name then
      if (parserStaging? name).isNone then throw unfinished
      if !(← isDir { name }) then throw unsafeStaging
    checkPartials unsafeStaging unfinished names

/-- Whether the claim is older than `parser_stale_lock_sec`. -/
def isStale : Job Bool := do
  match ← kind { name := StateFile.processing.name } with
  | none => throw (.osError .fileNotFound)
  | some _ => Prog.perform Op.stale

end Job

/-- What `_claim_job` returns: a token, or why there is none. -/
inductive Claim where
  | claimed (token : LeaseToken)
  | busy
  | alreadyParsed
  | parseFailed
  deriving DecidableEq, Repr

namespace Job

/-- The claim `_claim_job` finds: a stale one is put aside, a fresh one stays. -/
def displaceStale : Job Bool := do
  if !(← exist { name := StateFile.processing.name }) then return true
  else
    if !(← isFile { name := StateFile.processing.name }) then
      throw (.parserJobError "unsafe processing marker")
    if !(← isStale) then return false
    else
      rename none StateFile.processing.name StateFile.processingStale.name
      fsync
      return true

/-- A new token, in the marker. -/
def takeClaim (p : Parser) : Job Claim := do
  let token ← Prog.perform .uuid4
  createProcessingMarker p token
  return .claimed token

/-- `_refresh_claim`. -/
def refreshClaim (token : LeaseToken) : Job Unit :=
  withLock do
    requireCurrentClaim token
    utime { name := StateFile.processing.name }

/-- `_release_claim`. -/
def releaseClaim (token : LeaseToken) : Job Unit :=
  withLock do
    if !(← exist { name := StateFile.processing.name }) then return ()
    else
      match ← Prog.result (requireCurrentClaim token) with
      | .ok () => unlinkParserState .processing
      | .error (.parserClaimLost _) => return ()
      | .error e => throw e

end Job

end RchProxy
