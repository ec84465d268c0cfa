import RchProxy.Parser.Worker

/-!
# Parsing a job again

`reparse_ready_job` of `tools/reparse.py`: an operator has a published job parsed once more. Existing
output is refused or moved to a backup first, and the capture evidence is compared before and after.
-/

namespace RchProxy

open Py Lib

/-- `[0-9]{4}-[0-9]{2}-[0-9]{2}`. -/
def isDate : Text → Bool
  | [y₁, y₂, y₃, y₄, '-', m₁, m₂, '-', d₁, d₂] =>
    [y₁, y₂, y₃, y₄, m₁, m₂, d₁, d₂].all Char.isDigit
  | _ => false

/-- The name of `_backup_destination`. -/
def backupName (t : LocalTime) : Text :=
  "PHARSED.backup-".toList ++ t.date ++ '_' :: (humanCaptureTime t).1

/-- `ReparseResult`. -/
structure ReparseResult where
  jobDir : Text
  dryRun : Bool
  backupPath : Option Text
  parserResult : Option ProcessResult

namespace Job

/-- `_contained_ready_job`, of a directory in the spool. -/
def containedReadyJob (jobDir : Text) : Job Unit := do
  if !(← isFile { name := ".ready".toList }) then throw (.valueError "Job is not atomically ready")
  if 65536 < (← size { name := ".ready".toList }) then
    throw (.valueError "Ready marker is too large")
  let ready ← Prog.tryCatch (readJson { name := ".ready".toList }) fun
    | .osError _ | .unicodeDecodeError _ | .jsonDecodeError =>
      throw (.valueError "Ready marker is malformed")
    | e => throw e
  let some ready := Json.fields? (some ready)
    | throw (.valueError "Ready marker does not identify this capture job")
  if ¬ (Json.text? (Json.get "schema".toList ready) = some captureSchema ∧
      Json.text? (Json.get "codice_doc".toList ready) = some jobDir) then
    throw (.valueError "Ready marker does not identify this capture job")
  if !(← isFile { name := "manifest.json".toList }) then
    throw (.valueError "Capture manifest is missing or unsafe")
  match Json.text? (Json.get "manifest_sha256".toList ready) with
  | none => throw (.valueError "Ready marker manifest hash does not match")
  | some expected =>
    if (← sha256File { name := "manifest.json".toList }) ≠ expected then
      throw (.valueError "Ready marker manifest hash does not match")
  checkPartials (.valueError "Unsafe parser staging artifact")
    (.valueError "Ready job still contains a partial artifact") (← iterdir none)

/-- The digests of `_capture_snapshot`. -/
def snapshotOf : List Text → Job (List (Text × Text))
  | [] => return []
  | name :: names => do
    if !(← isFile { name }) then
      throw (.valueError "Missing or unsafe immutable capture artifact")
    let digest ← sha256File { name }
    return (name, digest) :: (← snapshotOf names)

/-- The name of a capture file in `_capture_snapshot`. -/
def snapshotName (files : List (Text × Json)) (key : Artifact) : Except Error Text :=
  match Json.text? (Json.get key.key files) with
  | some name =>
    if isPlainName name then .ok name
    else .error (.valueError s!"capture manifest has an unsafe {String.ofList key.key} name")
  | none => .error (.valueError s!"capture manifest has an unsafe {String.ofList key.key} name")

/-- `_capture_snapshot`. -/
def captureSnapshot (loaded : LoadedSpoolJob) : Job (List (Text × Text)) := do
  match Json.fields? (Json.get "files".toList loaded.manifest) with
  | none => throw (.valueError "capture manifest files map is malformed")
  | some files => do
    let request ← Prog.ofExcept (snapshotName files .requestRaw)
    let response ← Prog.ofExcept (snapshotName files .responseRaw)
    let timeline ← Prog.ofExcept (snapshotName files .timeline)
    snapshotOf ["manifest.json".toList, ".ready".toList, request, response, timeline]

/-- `_backup_destination`. -/
def backupDestination (r : Rendering) (now : Int) : Job Text := do
  let t ← Prog.ofExcept (r.astimezone now)
  if isDate t.date then return backupName t
  else throw (.runtimeError "internal backup naming error")

/-- `_validate_parser_paths`. -/
def validateParserPaths : Job Unit := do
  if ← exist { name := StateFile.processing.name } then
    if !(← isFile { name := StateFile.processing.name }) then
      throw (.valueError "Parser state is not a regular file")
    if !(← isStale) then throw (.runtimeError "Job is currently marked as processing")
  if ← exist { name := pharsedDirname } then
    if !(← isDir { name := pharsedDirname }) then
      throw (.valueError "Parser output is not a directory")
  if ← exist { name := StateFile.parsed.name } then
    if !(← isFile { name := StateFile.parsed.name }) then
      throw (.valueError "Parser state is not a regular file")

/-- `_invalidate_parsed_commit`. -/
def invalidateParsedCommit : Job Unit := unlinkParserState .parsed

/-- The existing output is moved to a backup, under the lock of the workers. -/
def backUp (name : Text) : Job Unit :=
  withLock do
    validateParserPaths
    if ← exist { name } then throw (.osError .fileExists)
    invalidateParsedCommit
    rename none pharsedDirname name
    fsync

/-- The check of `reparse_ready_job` that the evidence is what it was. -/
def checkEvidence (config : Config) (jobDir : Text) (before : List (Text × Text)) : Job Unit := do
  let reloaded ← loadSpoolJob jobDir config.maxPayloadBytes
  let after ← captureSnapshot reloaded
  if !(after.all before.contains && before.all after.contains) then
    throw (.runtimeError "parser modified immutable capture evidence")

/-- Where the existing output goes, if there is any. -/
def planBackup (r : Rendering) (backupExisting : Bool) (now : Int) : Job (Option Text) := do
  if (← exist { name := pharsedDirname }) && !backupExisting then throw (.osError .fileExists)
  if ← exist { name := pharsedDirname } then
    let name ← backupDestination r now
    if ← exist { name } then throw (.osError .fileExists)
    return some name
  else return none

/-- `reparse_ready_job`, at the instant `now`. -/
def reparseReadyJob (r : Rendering) (p : Parser) (jobDir : Text) (dryRun backupExisting : Bool)
    (codeFilter : Option Text) (now : Int) : Job ReparseResult := do
  containedReadyJob jobDir
  let expected ← Prog.ofExcept (validateJobCode (codeFilter.getD jobDir) p.config.jobCodeWidth)
  if jobDir ≠ expected then throw (.valueError "CODICE_DOC filter does not match target")
  let loaded ← loadSpoolJob jobDir p.config.maxPayloadBytes
  let before ← captureSnapshot loaded
  validateParserPaths
  let backupPath ← planBackup r backupExisting now
  if dryRun then return { jobDir, dryRun := true, backupPath, parserResult := none }
  else
    if let some name := backupPath then backUp name
    let result ← Prog.tryFinally (processJob r p jobDir true) (checkEvidence p.config jobDir before)
    return { jobDir, dryRun := false, backupPath, parserResult := some result }

end Job

end RchProxy
