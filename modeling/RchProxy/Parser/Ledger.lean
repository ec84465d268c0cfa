import RchProxy.Lib.Fence
import RchProxy.Parser.Evidence

/-!
# The ledger of a job

Calls of `process_job` side by side on one job, without faults: the lock waits for its holder, a claim
may look stale whenever it is looked at. What happens to the job is kept in a log (`Ledger`). A change
of the two files of the retry accounting is seen in the directory; that a call claims, fails or
commits, the call says itself. It does so in notes, and without them it is the call it was
(`erase_processJob`).
-/

namespace RchProxy

open Py Lib

/-! ## The log -/

/-- What happens to a job. -/
inductive Entry where
  | claimed (call : Nat) (token : LeaseToken) (force : Bool)
  | failed (call : Nat)
  | committed (call : Nat)
  | changed (call : Nat)
  deriving DecidableEq

/-- The call whose doing it is. -/
def Entry.call : Entry → Nat
  | .claimed call _ _ | .failed call | .committed call | .changed call => call

/-- The attempts that failed on their lease since the last commit or forced claim, in a log with the
newest entry first. -/
def failures : List Entry → Nat
  | [] => 0
  | .failed _ :: log => failures log + 1
  | .changed _ :: log | .claimed _ _ false :: log => failures log
  | .claimed _ _ true :: _ | .committed _ :: _ => 0

@[simp] theorem failures_failed (call : Nat) (log : List Entry) :
    failures (.failed call :: log) = failures log + 1 := rfl

@[simp] theorem failures_changed (call : Nat) (log : List Entry) :
    failures (.changed call :: log) = failures log := rfl

@[simp] theorem failures_claimed (call : Nat) (token : LeaseToken) (log : List Entry) :
    failures (.claimed call token false :: log) = failures log := rfl

@[simp] theorem failures_forced (call : Nat) (token : LeaseToken) (log : List Entry) :
    failures (.claimed call token true :: log) = 0 := rfl

@[simp] theorem failures_committed (call : Nat) (log : List Entry) :
    failures (.committed call :: log) = 0 := rfl

/-- What a call says about itself. -/
inductive Note where
  /-- The call has claimed the job. -/
  | claimed (token : LeaseToken) (force : Bool)
  /-- The attempt of the call has failed. -/
  | failing (token : LeaseToken)
  /-- The call has published its output. -/
  | committed

/-! ## The state files -/

/-- What `_read_small_json` reads from a file. -/
def smallJson : Option Node → Except Error (List (Text × Json))
  | some (.file data) =>
    if 65536 < data.length then .error (.parserJobError "parser state file is too large")
    else
      match loadsBytes data with
      | .ok (.obj fields) => .ok fields
      | .ok _ => .error (.parserJobError "parser state file is malformed")
      | .error e => .error e
  | _ => .error (.parserJobError "unsafe parser state file")

/-- Whether a processing marker is the token's. -/
def leases (marker : Option Node) (token : LeaseToken) : Bool :=
  match smallJson marker with
  | .ok state => Json.text? (Json.get "schema".toList state) = some processingSchema &&
      Json.text? (Json.get "token".toList state) = some token.val
  | .error _ => false

/-- The number of attempts in a `.parse_attempts.json`, which is 0 where there is none. -/
def attemptsOf : Option Node → Option Nat
  | none => some 0
  | node =>
    match smallJson node with
    | .ok state =>
      match Json.int? (Json.get "attempts".toList state) with
      | some (.ofNat attempts) => some attempts
      | _ => none
    | .error _ => none

namespace JobDir

variable (d : JobDir)

/-- A state file. -/
def state (file : StateFile) : Option Node := d.lookup file.name

/-- The two files of the retry accounting. -/
def accounts : Option Node × Option Node := (d.state .parseAttempts, d.state .parseFailed)

end JobDir

/-! ## Calls side by side -/

/-- A job, the call that holds its lock, and what has happened to it. -/
structure Ledger where
  dir : JobDir
  holder : Option Nat
  log : List Entry

/-- What a call does to the job. Nothing fails but for the state of the directory, which lists names a
directory can hold; `uuid4` gives no token of an earlier claim again, and a time is no longer than
`isoformat` writes it. -/
inductive Ledger.Exec (call : Nat) :
    (a : Act Op Note) → Ledger → Act.Res Op.Res a → Ledger → Prop where
  | lock {s : Ledger} (hfree : s.holder = none) :
    Exec call (.op .lock) s true
      { s with dir := (s.dir.execShared .quiet .lock).2, holder := some call }
  | unlock {s : Ledger} (hheld : s.holder = some call) :
    Exec call (.op .unlock) s () { s with holder := none }
  | op {op : Op} {s : Ledger} (c : Choice) (hlock : op ≠ .lock) (hunlock : op ≠ .unlock)
    (hquiet : c.fault = none) (hfresh : ∀ u force, .claimed u c.uuid force ∉ s.log)
    (hnow : c.now.length ≤ 32) (hlegal : op.Legal (s.dir.exec c op).1) :
    Exec call (.op op) s (s.dir.exec c op).1
      { s with
        dir := (s.dir.exec c op).2
        log := if (s.dir.exec c op).2.accounts = s.dir.accounts then s.log
               else .changed call :: s.log }
  | claimed {s : Ledger} (token : LeaseToken) (force : Bool) :
    Exec call (.note (.claimed token force)) s () { s with log := .claimed call token force :: s.log }
  | failing {s : Ledger} (token : LeaseToken) :
    Exec call (.note (.failing token)) s ()
      { s with log := if leases (s.dir.state .processing) token then .failed call :: s.log else s.log }
  | committed {s : Ledger} :
    Exec call (.note .committed) s () { s with log := .committed call :: s.log }

/-! ## Calls that take notes -/

/-- A program on a job that takes notes. -/
abbrev Noted := Prog (Act Op Note) (Act.Res Op.Res) Error

namespace Noted

open Job

/-- A section under the lock. -/
def withLock {α : Type} (m : Noted α) : Noted α := do
  if ← Prog.silent (Prog.perform .lock) then
    Prog.tryFinally m (Prog.silent (Prog.perform Op.unlock))
  else throw .fileLockTimeout

/-- `_claim_job`. -/
def claimJob (p : Parser) (jobDir : Text) (force : Bool) : Noted Claim := do
  if !isJobCode jobDir then throw (.parserJobError "unsafe job directory")
  if !(← Prog.silent (isFile { name := ".ready".toList })) then
    throw (.parserJobError "job is not atomically ready")
  Prog.silent (checkPartials (.parserJobError "unsafe parser staging artifact")
    (.parserJobError "ready job contains a partial artifact") (← Prog.silent (iterdir none)))
  withLock do
    match ← Prog.silent (do
      if ← displaceStale then claimIdle p jobDir force else return Claim.busy) with
    | .claimed token =>
      Prog.note (.claimed token force)
      return .claimed token
    | claim => return claim

/-- `_record_failure_if_owned`. -/
def recordFailureIfOwned (config : Config) (token : LeaseToken) (error : Error) : Noted Bool :=
  withLock do
    Prog.note (.failing token)
    Prog.silent (do
      requireCurrentClaim token
      recordFailure config error)

/-- `_commit_success`. -/
def commitSuccess (config : Config) (jobDir : Text) (token : LeaseToken) (loaded : LoadedSpoolJob)
    (count : Nat) (metadataHash : Text) : Noted Unit :=
  withLock do
    Prog.silent (do
      requireCurrentClaim token
      cleanupOrphanParserStaging (some token)
      validateCaptureCommit jobDir
      revalidateLoadedInputs loaded
      let _ ← validateParserOutputs config jobDir (stagingName token) (some metadataHash) (some count)
      supersede token
      swapOutputs token
      let _ ← validateParserOutputs config jobDir pharsedDirname (some metadataHash) (some count)
      unlinkParserState .parseAttempts
      unlinkParserState .parseFailed
      let marker := parsedMarker loaded.jobDir count metadataHash (← Prog.perform .now)
      atomicWriteBytes { name := StateFile.parsed.name } (← Prog.ofExcept (jsonBytes marker)))
    Prog.note .committed
    Prog.silent (removeSuperseded token)

/-- The body of `process_job`, under a claim. -/
def parseClaimed (r : Rendering) (p : Parser) (jobDir : Text) (token : LeaseToken) : Noted Nat := do
  let (loaded, count, metadataHash) ← Prog.silent (do
    validateCaptureCommit jobDir
    let loaded ← loadSpoolJob jobDir p.config.maxPayloadBytes
    refreshClaim token
    if ← exist { name := stagingName token } then
      throw (.parserJobError "parser staging path already exists")
    mkdir (stagingName token)
    fsync
    let (count, metadataHash) ← writeDocuments r p.config loaded token
    return (loaded, count, metadataHash))
  commitSuccess p.config jobDir token loaded count metadataHash
  return count

/-- The `except` clause of `process_job`. -/
def reportFailure (p : Parser) (jobDir : Text) (token : LeaseToken) (error : Error) :
    Noted ProcessResult := do
  match ← Prog.result (recordFailureIfOwned p.config token error) with
  | .ok exhausted =>
    return { jobDir, status := if exhausted then .parseFailed else .retryPending,
             error := some error.describe }
  | .error (.parserClaimLost message) =>
    return { jobDir, status := .claimLost,
             error := some (error.describe ++ "; lease: ".toList ++ message.toList) }
  | .error e =>
    return { jobDir, status := .failureStateError,
             error := some (error.describe ++ "; state: ".toList ++ e.describe) }

/-- `process_job` of a worker with a claim. -/
def processClaimed (r : Rendering) (p : Parser) (jobDir : Text) (token : LeaseToken) :
    Noted ProcessResult :=
  Prog.tryFinally
    (do
      match ← Prog.result (parseClaimed r p jobDir token) with
      | .ok count => return { jobDir, status := .parsed, documentCount := count }
      | .error e => reportFailure p jobDir token e)
    (Prog.silent (giveUp token))

/-- `process_job`. -/
def processJob (r : Rendering) (p : Parser) (jobDir : Text) (force : Bool) : Noted ProcessResult := do
  match ← Prog.result (claimJob p jobDir force) with
  | .ok (.claimed token) => processClaimed r p jobDir token
  | .ok .busy => return { jobDir, status := .busy }
  | .ok .alreadyParsed => return { jobDir, status := .alreadyParsed }
  | .ok .parseFailed => return { jobDir, status := .parseFailed }
  | .error e => return { jobDir, status := .claimError, error := some e.describe }

/-! ### Without the notes -/

variable (r : Rendering) (p : Parser) (jobDir : Text) (token : LeaseToken) (force : Bool)

theorem erase_withLock {α : Type} (m : Noted α) : (withLock m).erase = Job.withLock m.erase := by
  unfold withLock Job.withLock
  rw [Prog.erase_bind, Prog.erase_silent]
  congr 1
  funext locked
  cases locked
  · rfl
  · simp

theorem erase_claimJob : (claimJob p jobDir force).erase = Job.claimJob p jobDir force := by
  unfold claimJob Job.claimJob
  split
  · rfl
  simp only [Prog.erase_bind, Prog.erase_silent]
  congr 1
  funext ready
  split
  · rfl
  simp only [Prog.erase_bind, Prog.erase_silent, erase_withLock]
  congr 1
  funext names
  congr 1
  funext _
  congr 1
  refine Eq.trans ?_ (bind_pure _)
  congr 1
  funext claim
  cases claim <;> rfl

theorem erase_recordFailureIfOwned (config : Config) (error : Error) :
    (recordFailureIfOwned config token error).erase =
      Job.recordFailureIfOwned config token error := by
  simp [recordFailureIfOwned, Job.recordFailureIfOwned, erase_withLock]

theorem erase_commitSuccess (config : Config) (loaded : LoadedSpoolJob) (count : Nat)
    (metadataHash : Text) : (commitSuccess config jobDir token loaded count metadataHash).erase =
      Job.commitSuccess config jobDir token loaded count metadataHash := by
  simp [commitSuccess, Job.commitSuccess, erase_withLock]

theorem erase_parseClaimed : (parseClaimed r p jobDir token).erase =
    Job.parseClaimed r p jobDir token := by
  simp only [parseClaimed, Job.parseClaimed, Prog.erase_bind, Prog.erase_silent, bind_assoc,
    erase_commitSuccess]
  congr 1; funext _
  congr 1; funext loaded
  congr 1; funext _
  congr 1; funext leftover
  split
  · rfl
  · simp [bind_assoc]

theorem erase_reportFailure (error : Error) : (reportFailure p jobDir token error).erase =
    Job.reportFailure p jobDir token error := by
  unfold reportFailure Job.reportFailure
  rw [Prog.erase_bind, Prog.erase_result, erase_recordFailureIfOwned]
  congr 1
  funext outcome
  cases outcome with
  | ok exhausted => rfl
  | error e => cases e <;> rfl

theorem erase_processClaimed : (processClaimed r p jobDir token).erase =
    Job.processClaimed r p jobDir token := by
  unfold processClaimed Job.processClaimed
  rw [Prog.erase_tryFinally, Prog.erase_bind, Prog.erase_result, erase_parseClaimed,
    Prog.erase_silent]
  congr 2
  funext outcome
  split
  · rfl
  · exact erase_reportFailure p jobDir token _

/-- Without the notes, it is `process_job`. -/
theorem erase_processJob : (processJob r p jobDir force).erase =
    Job.processJob r p jobDir force := by
  unfold processJob Job.processJob
  rw [Prog.erase_bind, Prog.erase_result, erase_claimJob]
  congr 1
  funext outcome
  split
  · exact erase_processClaimed r p jobDir _
  · rfl
  · rfl
  · rfl
  · rfl

end Noted

end RchProxy
