import RchProxy.Parser.Documents

/-!
# The parser worker

`process_job` of `parser/worker.py`: a ready job is claimed, parsed into a staging directory, and
committed under the lock by a worker whose claim is still current. A failure is counted under the
same fence.
-/

namespace RchProxy

open Py Lib

/-- `FAILURE_SCHEMA`. -/
def failureSchema : Text := "commercialrchproxy.parser-failure.v1".toList

/-- The `status` of a `ProcessResult`. -/
inductive ProcessStatus where
  | claimError
  | busy
  | alreadyParsed
  | parseFailed
  | parsed
  | retryPending
  | claimLost
  | failureStateError
  deriving DecidableEq, Repr

/-- `ProcessResult`. -/
structure ProcessResult where
  jobDir : Text
  status : ProcessStatus
  documentCount : Nat := 0
  error : Option Text := none
  deriving DecidableEq, Repr

/-- The state of `_record_failure`. -/
def failureState (config : Config) (attempts : Nat) (error : Error) (now : Text) :
    List (Text × Json) :=
  [("schema".toList, .str failureSchema), ("attempts".toList, .int attempts),
    ("retry_count".toList, .int config.parserRetryCount),
    ("last_error".toList, .str (error.describe.take 2000)), ("last_failed_at".toList, .str now)]

/-- The marker of a committed parse. -/
def parsedMarker (code : Text) (count : Nat) (metadataHash now : Text) : Json :=
  .obj [("schema".toList, .str parsedSchema), ("status".toList, .str "parsed".toList),
    ("codice_doc".toList, .str code), ("document_count".toList, .int count),
    ("metadata".toList, .str (pharsedDirname ++ "/parsed.json".toList)),
    ("metadata_sha256".toList, .str metadataHash), ("completed_at".toList, .str now),
    ("parser_version".toList, .str version)]

namespace Job

/-! ## Claims -/

/-- What `_claim_job` does under the lock once no claim is active. -/
def claimIdle (p : Parser) (jobDir : Text) (force : Bool) : Job Claim := do
  cleanupOrphanParserStaging none
  if force then
    clearParserOutputs
    takeClaim p
  else if ← isFile { name := StateFile.parsed.name } then
    validateCaptureCommit jobDir
    validateParsedMarker p.config jobDir
    return .alreadyParsed
  else if ← isFile { name := StateFile.parseFailed.name } then
    return .parseFailed
  else takeClaim p

/-- `_claim_job`. -/
def claimJob (p : Parser) (jobDir : Text) (force : Bool) : Job Claim := do
  if !isJobCode jobDir then throw (.parserJobError "unsafe job directory")
  if !(← isFile { name := ".ready".toList }) then
    throw (.parserJobError "job is not atomically ready")
  checkPartials (.parserJobError "unsafe parser staging artifact")
    (.parserJobError "ready job contains a partial artifact") (← iterdir none)
  withLock do
    if ← displaceStale then claimIdle p jobDir force else return .busy

/-! ## Failures -/

/-- `_failure_count`. -/
def failureCount : Job Nat := do
  if !(← exist { name := StateFile.parseAttempts.name }) then return 0
  else
    match Json.int? (Json.get "attempts".toList (← readSmallJson StateFile.parseAttempts.name)) with
    | some (.ofNat attempts) => return attempts
    | _ => throw (.parserJobError "invalid parser attempt counter")

/-- `_record_failure`: whether the retries are exhausted. -/
def recordFailure (config : Config) (error : Error) : Job Bool := do
  let attempts := (← failureCount) + 1
  let state := failureState config attempts error (← Prog.perform .now)
  atomicWriteBytes { name := StateFile.parseAttempts.name } (← Prog.ofExcept (jsonBytes (.obj state)))
  let exhausted := config.parserRetryCount < attempts
  if exhausted then
    atomicWriteBytes { name := StateFile.parseFailed.name } (← Prog.ofExcept (jsonBytes (.obj
      (state ++ [("status".toList, .str "parse_failed_retries_exhausted".toList)]))))
  return exhausted

/-- `_record_failure_if_owned`. -/
def recordFailureIfOwned (config : Config) (token : LeaseToken) (error : Error) : Job Bool :=
  withLock do
    requireCurrentClaim token
    recordFailure config error

/-! ## Commits -/

/-- The output of an earlier parse is put aside. -/
def supersede (token : LeaseToken) : Job Unit := do
  if ← exist { name := supersededName token } then
    throw (.parserJobError "parser superseded-output path already exists")
  if ← exist { name := pharsedDirname } then
    if !(← isDir { name := pharsedDirname }) then
      throw (.parserJobError "unsafe existing parser output")
    rename none pharsedDirname (supersededName token)
    fsync

/-- The staging directory takes the place of the output; where that fails, the output put aside
comes back. -/
def swapOutputs (token : LeaseToken) : Job Unit :=
  Prog.tryCatch
    (do
      rename none (stagingName token) pharsedDirname
      fsync)
    fun e => do
      if ← isDir { name := supersededName token } then
        if !(← exist { name := pharsedDirname }) then
          rename none (supersededName token) pharsedDirname
          fsync
      throw e

/-- The output put aside is removed; a failure is only logged. -/
def removeSuperseded (token : LeaseToken) : Job Unit := do
  if ← isDir { name := supersededName token } then
    Prog.tryCatch
      (do
        rmtree (supersededName token)
        fsync)
      fun
        | .osError _ => return ()
        | e => throw e

/-- `_commit_success`. -/
def commitSuccess (config : Config) (jobDir : Text) (token : LeaseToken) (loaded : LoadedSpoolJob)
    (count : Nat) (metadataHash : Text) : Job Unit :=
  withLock do
    requireCurrentClaim token
    cleanupOrphanParserStaging (some token)
    validateCaptureCommit jobDir
    revalidateLoadedInputs loaded
    let _ ← validateParserOutputs config jobDir (stagingName token) (some metadataHash) (some count)
    supersede token
    swapOutputs token
    let _ ← validateParserOutputs config jobDir pharsedDirname (some metadataHash) (some count)
    unlinkParserState .parseAttempts
    unlinkParserState .parseFailed
    let marker := parsedMarker loaded.jobDir count metadataHash (← Prog.perform .now)
    atomicWriteBytes { name := StateFile.parsed.name } (← Prog.ofExcept (jsonBytes marker))
    removeSuperseded token

/-! ## A job -/

/-- The body of `process_job`, under a claim. -/
def parseClaimed (r : Rendering) (p : Parser) (jobDir : Text) (token : LeaseToken) : Job Nat := do
  validateCaptureCommit jobDir
  let loaded ← loadSpoolJob jobDir p.config.maxPayloadBytes
  refreshClaim token
  if ← exist { name := stagingName token } then
    throw (.parserJobError "parser staging path already exists")
  mkdir (stagingName token)
  fsync
  let (count, metadataHash) ← writeDocuments r p.config loaded token
  commitSuccess p.config jobDir token loaded count metadataHash
  return count

/-- The `except` clause of `process_job`. -/
def reportFailure (p : Parser) (jobDir : Text) (token : LeaseToken) (error : Error) :
    Job ProcessResult := do
  match ← Prog.result (recordFailureIfOwned p.config token error) with
  | .ok exhausted =>
    return { jobDir, status := if exhausted then .parseFailed else .retryPending,
             error := some error.describe }
  | .error (.parserClaimLost message) =>
    return { jobDir, status := .claimLost,
             error := some (error.describe ++ "; lease: ".toList ++ message.toList) }
  | .error e =>
    return { jobDir, status := .failureStateError,
             error := some (error.describe ++ "; state: ".toList ++ e.describe) }

/-- The `finally` clause of `process_job`: the staging directory and the claim are given up, and what
fails is only logged. -/
def giveUp (token : LeaseToken) : Job Unit := do
  if ← isDir { name := stagingName token } then
    Prog.tryCatch
      (do
        rmtree (stagingName token)
        fsync)
      fun
        | .osError _ => return ()
        | e => throw e
  let _ ← Prog.result (releaseClaim token)

/-- `process_job` of a worker with a claim. -/
def processClaimed (r : Rendering) (p : Parser) (jobDir : Text) (token : LeaseToken) :
    Job ProcessResult :=
  Prog.tryFinally
    (do
      match ← Prog.result (parseClaimed r p jobDir token) with
      | .ok count => return { jobDir, status := .parsed, documentCount := count }
      | .error e => reportFailure p jobDir token e)
    (giveUp token)

/-- `process_job`. -/
def processJob (r : Rendering) (p : Parser) (jobDir : Text) (force : Bool) : Job ProcessResult := do
  match ← Prog.result (claimJob p jobDir force) with
  | .ok (.claimed token) => processClaimed r p jobDir token
  | .ok .busy => return { jobDir, status := .busy }
  | .ok .alreadyParsed => return { jobDir, status := .alreadyParsed }
  | .ok .parseFailed => return { jobDir, status := .parseFailed }
  | .error e => return { jobDir, status := .claimError, error := some e.describe }

end Job

end RchProxy
