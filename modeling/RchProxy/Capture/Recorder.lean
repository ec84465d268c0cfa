import RchProxy.Storage.Live

/-!
# One connection

The two pumps of a session, the capture manager they share and the worker that writes the live
capture (`proxy/streams.py`, `capture/recorder.py`), as one state machine. A step runs a task from
one suspension to the next: a pump is suspended where it reads, where it waits for the manager's lock
or for room in the bounded queue, and where it drains its writer; the worker where one of its calls
runs in a thread and where it waits for a command. Locks and queues are first in, first out.
-/

namespace RchProxy

open Py Lib

/-- What the clocks say at a step. -/
structure Clock where
  unixNs : Int
  monotonicNs : Int
  now : DateTime

/-- What a session knows of its connection, with the `job_id` its job will draw. -/
structure Session where
  config : Config
  sessionId : Label
  connectionId : Label
  jobId : Label
  clientIp : Label
  clientPort : Option Nat

/-- The commands of the live worker. A receive event is passed by reference: the index of the chunk
in the job. -/
inductive StreamCommand where
  | append (sequence : Nat) (direction : StreamDirection) (data : Bytes) (chunk : Option Nat)
  | drain (sequence : Nat) (completed : Bool) (drainUnixNs : Int) (error : Option Text)
  deriving DecidableEq, Repr

/-- Where a pump is suspended. -/
inductive Pump where
  | reading
  | recordWait (data : Bytes) (receivedUnixNs forwardedUnixNs : Int)
  | recordPut (command : StreamCommand) (token : CaptureToken)
  | draining (token : Option CaptureToken)
  | markWait (token : CaptureToken) (completed : Bool) (error : Option Text)
  | markPut (command : StreamCommand) (completed : Bool)
  | ended
  deriving DecidableEq, Repr

/-- Where the live worker is suspended. -/
inductive LiveWorker where
  | absent
  | starting
  | idle (live : LiveSpoolCapture)
  | executing (live : LiveSpoolCapture) (command : StreamCommand)
  | finalizing (live : LiveSpoolCapture)
  /-- `close_incomplete`, of a degraded capture or after a failure. -/
  | closing
  | stopped

/-- The `status` of a published job. -/
inductive SpoolStatus where
  | ready
  | readyCaptureIncomplete
  deriving DecidableEq, Repr

/-- A published job: its manifest's status and the contents of its files. -/
structure Publication where
  status : SpoolStatus
  rawComplete : Bool
  files : Artifact → Bytes

/-- The state of a connection. -/
structure Connection where
  -- the capture manager
  job : Option CapturedJob := none
  active : Bool := false
  closed : Bool := false
  eventSequence : Nat := 0
  sessionOffsets : StreamDirection → Nat := fun _ => 0
  persistErrors : List Error := []
  captureDegraded : Bool := false
  captureDegradeReason : Option Text := none
  finalizeRequested : Bool := false
  queue : List StreamCommand := []
  -- its lock
  holder : Option StreamDirection := none
  waiters : List StreamDirection := []
  -- the pumps, and what each has written to its peer
  pumps : StreamDirection → Pump := fun _ => .reading
  written : StreamDirection → Bytes := fun _ => []
  -- the live worker, the partial files and the published job
  worker : LiveWorker := .absent
  disk : Artifact → Bytes := fun _ => []
  published : Option Publication := none

namespace Connection

variable (session : Session)

/-- The capacity of the command queue. -/
def queueItems : Nat := max 1 (min 256 (8 * 1024 * 1024 / session.config.bufferSize))

/-- `_new_job`. -/
def newJob (startedUnixNs : Int) (clock : Clock) : CapturedJob where
  sessionId := session.sessionId
  connectionId := session.connectionId
  jobId := session.jobId
  clientIp := session.clientIp
  clientPort := session.clientPort
  proxyIp := session.config.listenIp
  proxyPort := session.config.listenPort
  printerIp := session.config.printerIp
  printerPort := session.config.printerPort
  maxPayloadBytes := session.config.maxPayloadBytes
  maxCaptureEvents := session.config.maxCaptureEvents
  startedAt := clock.now
  startedUnixNs := startedUnixNs

/-- A pump in a new place. -/
def goes (s : Connection) (d : StreamDirection) (pump : Pump) : Connection :=
  { s with pumps := Function.update s.pumps d pump }

/-- A job whose evidence has a gap, for a reason added to the reasons before it. -/
def incomplete (job : CapturedJob) (reason : Text) : CapturedJob :=
  let add : Option Text → Text
    | some before => before ++ "; ".toList ++ reason
    | none => reason
  { job with
    captureComplete := false
    timelineComplete := false
    captureError := some (add job.captureError)
    timelineError := some (add job.timelineError) }

/-- Why a full queue degrades the capture. -/
def queueFullReason : Text :=
  ("live spool queue capacity exhausted; RAW/timeline evidence is partial " ++
    "from this point while relay traffic continued").toList

/-- `_mark_capture_degraded`. -/
def markCaptureDegraded (s : Connection) (reason : Text) : Connection :=
  if s.captureDegraded then s
  else
    { s with
      captureDegraded := true
      captureDegradeReason := some reason
      job := s.job.map (incomplete · reason) }

/-- `_enqueue_stream`; nothing where the call waits for room. -/
def enqueueStream (s : Connection) (command : StreamCommand) : Option Connection :=
  if s.queue.length < queueItems session then some { s with queue := s.queue ++ [command] }
  else
    match session.config.storageFailurePolicy with
    | .abort => none
    | .continue => some (s.markCaptureDegraded queueFullReason)

/-- Whether the failure of the worker stops the session. -/
def aborts (s : Connection) : Bool :=
  !s.persistErrors.isEmpty && session.config.storageFailurePolicy = .abort

/-- The job, started with its worker by the first chunk. -/
def withJob (s : Connection) (receivedUnixNs : Int) (clock : Clock) : Connection :=
  match s.job with
  | some _ => s
  | none =>
    { s with
      job := some (newJob session receivedUnixNs clock)
      active := true
      worker := .starting }

/-- `record`, of a job, with the lock held. -/
def recordJob (s : Connection) (job : CapturedJob) (d : StreamDirection) (data : Bytes)
    (receivedUnixNs forwardedUnixNs : Int) (clock : Clock) : Connection :=
  let sequence := s.eventSequence + 1
  let observed : Observed :=
    { timestamp := clock.now.isoformat
      monotonicNs := clock.monotonicNs
      receivedUnixNs := some receivedUnixNs
      forwardedUnixNs := some forwardedUnixNs }
  let (job', index) := job.append d data (some sequence) (some (s.sessionOffsets d)) observed false
  let stored := data.take (job'.bytesStored d - job.bytesStored d)
  let token : CaptureToken :=
    { jobId := job.jobId
      chunkIndex := index
      direction := d
      byteCount := data.length
      sequence := some sequence }
  let s :=
    { s with
      job := some job'
      eventSequence := sequence
      sessionOffsets := Function.update s.sessionOffsets d (s.sessionOffsets d + data.length) }
  if s.persistErrors = [] ∧ s.captureDegraded = false then
    let command := .append sequence d stored index
    match enqueueStream session s command with
    | some s => s.goes d (.draining (some token))
    | none => { s.goes d (.recordPut command token) with holder := some d }
  else s.goes d (.draining (some token))

/-- `record`, with the lock held. A raised failure ends the pump: it is re-raised under `abort`. -/
def recordLocked (s : Connection) (d : StreamDirection) (data : Bytes)
    (receivedUnixNs forwardedUnixNs : Int) (clock : Clock) : Connection :=
  if s.closed then s.goes d (.draining none)
  else
    let s := withJob session s receivedUnixNs clock
    if aborts session s then s.goes d .ended
    else
      match s.job with
      | some job => recordJob session s job d data receivedUnixNs forwardedUnixNs clock
      | none => s

/-- The end of `mark_local_write_drain`, and where the pump goes on. -/
def markDone (s : Connection) (d : StreamDirection) (completed : Bool) : Connection :=
  if aborts session s then s.goes d .ended
  else s.goes d (if completed then .reading else .ended)

/-- `mark_local_write_drain`, with the lock held. -/
def markLocked (s : Connection) (d : StreamDirection) (token : CaptureToken) (completed : Bool)
    (error : Option Text) (clock : Clock) : Connection :=
  match s.job with
  | none => s.goes d (if completed then .reading else .ended)
  | some job =>
    if s.active = false ∨ job.jobId ≠ token.jobId then
      s.goes d (if completed then .reading else .ended)
    else
      let s := { s with job := some (job.markLocalWriteDrain token completed clock.unixNs error) }
      match token.sequence with
      | none => markDone session s d completed
      | some sequence =>
        if s.persistErrors = [] ∧ s.captureDegraded = false then
          let command := .drain sequence completed clock.unixNs error
          match enqueueStream session s command with
          | some s => markDone session s d completed
          | none => { s.goes d (.markPut command completed) with holder := some d }
        else markDone session s d completed

/-- Nobody holds the lock or waits for it. -/
def lockFree (s : Connection) : Bool := s.holder.isNone && s.waiters.isEmpty

/-- `record`. -/
def record (s : Connection) (d : StreamDirection) (data : Bytes)
    (receivedUnixNs forwardedUnixNs : Int) (clock : Clock) : Connection :=
  if s.lockFree then recordLocked session s d data receivedUnixNs forwardedUnixNs clock
  else
    { s.goes d (.recordWait data receivedUnixNs forwardedUnixNs) with waiters := s.waiters ++ [d] }

/-- `mark_local_write_drain`. -/
def markLocalWriteDrain (s : Connection) (d : StreamDirection) (token : CaptureToken)
    (completed : Bool) (error : Option Text) (clock : Clock) : Connection :=
  if s.lockFree then markLocked session s d token completed error clock
  else { s.goes d (.markWait token completed error) with waiters := s.waiters ++ [d] }

/-- The end of `writer.drain()`: the `finally` of the pump marks the outcome, if there is a token. -/
def drainDone (s : Connection) (d : StreamDirection) (token : Option CaptureToken)
    (completed : Bool) (error : Option Text) (clock : Clock) : Connection :=
  match token with
  | some token => markLocalWriteDrain session s d token completed error clock
  | none => s.goes d (if completed then .reading else .ended)

/-- `_record_storage_failure`. -/
def recordStorageFailure (s : Connection) (error : Error) : Connection :=
  { s with
    persistErrors := s.persistErrors ++ [error]
    job := s.job.map (incomplete · ("live spool failure: ".toList ++ error.describe))
    worker := .closing }

/-- A command of the worker, on the capture. -/
def execute (s : Connection) (live : LiveSpoolCapture) : StreamCommand → LiveCall
  | .append sequence direction data chunk =>
    live.append sequence direction data
      (chunk.bind fun index => s.job.bind fun job => job.chunks[index]?)
  | .drain sequence completed drainUnixNs error =>
    live.markLocalWriteDrain sequence completed drainUnixNs error

/-- The partial files after some writes. -/
def writeDisk (s : Connection) (writes : List (Artifact × Bytes)) : Connection :=
  { s with disk := fun key => s.disk key ++ output writes key }

/-- The status of a job that is published. -/
def spoolStatus (job : CapturedJob) : SpoolStatus :=
  if job.captureComplete && job.timelineComplete then .ready else .readyCaptureIncomplete

/-- The last rename of `LiveSpoolCapture.finalize`. -/
def publish (s : Connection) : Connection :=
  { s with
    published := s.job.map fun job =>
      { status := spoolStatus job
        rawComplete := job.captureComplete
        files := s.disk } }

/-- A cancelled pump: inside `record` and `mark_local_write_drain` it lets go of the lock, while
draining it still marks the drain as failed. -/
def cancel (s : Connection) (d : StreamDirection) (clock : Clock) : Option Connection :=
  match s.pumps d with
  | .reading => some (s.goes d .ended)
  | .recordWait .. | .markWait .. =>
    some { s.goes d .ended with waiters := s.waiters.filter (· ≠ d) }
  | .recordPut .. | .markPut .. => some { s.goes d .ended with holder := none }
  | .draining token => some (drainDone session s d token false none clock)
  | .ended => none

/-- What can happen next. -/
inductive Event where
  | receive (d : StreamDirection) (data : Bytes) (receivedUnixNs forwardedUnixNs : Int)
  | grant (d : StreamDirection)
  | putResume (d : StreamDirection)
  | drained (d : StreamDirection)
  | drainFails (d : StreamDirection) (error : Text)
  | readEnds (d : StreamDirection)
  | cancel (d : StreamDirection)
  | begun (code : Text) (parent partialDir finalDir : Path)
  | beginFails (error : Error)
  | take
  | executed
  | executeFails (writes : Nat) (error : Error)
  | finalized
  | finalizeFails (writes : Nat) (error : Error)
  | publishFails (error : Error)
  | workerClosed
  | finalize (status : TransportStatus)

/-- One step, where it is possible. -/
def step (s : Connection) (clock : Clock) : Event → Option Connection
  | .receive d data receivedUnixNs forwardedUnixNs =>
    match s.pumps d with
    | .reading =>
      if data = [] then none
      else
        let s := { s with written := Function.update s.written d (s.written d ++ data) }
        some (record session s d data receivedUnixNs forwardedUnixNs clock)
    | _ => none
  | .grant d =>
    match s.holder, s.waiters with
    | none, w :: waiters =>
      if w = d then
        match s.pumps d with
        | .recordWait data receivedUnixNs forwardedUnixNs =>
          some (recordLocked session { s with waiters := waiters } d data receivedUnixNs
            forwardedUnixNs clock)
        | .markWait token completed error =>
          some (markLocked session { s with waiters := waiters } d token completed error clock)
        | _ => none
      else none
    | _, _ => none
  | .putResume d =>
    if s.queue.length < queueItems session then
      match s.pumps d with
      | .recordPut command token =>
        some { s.goes d (.draining (some token)) with queue := s.queue ++ [command], holder := none }
      | .markPut command completed =>
        some (markDone session { s with queue := s.queue ++ [command], holder := none } d completed)
      | _ => none
    else none
  | .drained d =>
    match s.pumps d with
    | .draining token => some (drainDone session s d token true none clock)
    | _ => none
  | .drainFails d error =>
    match s.pumps d with
    | .draining token => some (drainDone session s d token false (some error) clock)
    | _ => none
  | .readEnds d => if s.pumps d = .reading then some (s.goes d .ended) else none
  | .cancel d => cancel session s d clock
  | .begun code parent partialDir finalDir =>
    match s.worker with
    | .starting =>
      some
        { s with
          worker := .idle
            { code := code
              parent := parent
              partialDir := partialDir
              finalDir := finalDir
              sessionId := session.sessionId
              connectionId := session.connectionId } }
    | _ => none
  | .beginFails error =>
    match s.worker with
    | .starting => some (s.recordStorageFailure error)
    | _ => none
  | .take =>
    match s.worker with
    | .idle live =>
      match s.queue with
      | command :: queue => some { s with queue := queue, worker := .executing live command }
      | [] =>
        if s.finalizeRequested then
          some { s with worker := if s.captureDegraded then .closing else .finalizing live }
        else none
    | _ => none
  | .executed =>
    match s.worker with
    | .executing live command =>
      let call := s.execute live command
      let s := s.writeDisk call.writes
      match call.error with
      | none => some { s with worker := .idle call.live }
      | some error => some (s.recordStorageFailure error)
    | _ => none
  | .executeFails writes error =>
    match s.worker with
    | .executing live command =>
      some ((s.writeDisk ((s.execute live command).writes.take writes)).recordStorageFailure error)
    | _ => none
  | .finalized =>
    match s.worker with
    | .finalizing live =>
      let s := s.writeDisk live.syncAndClose.writes
      match live.syncAndClose.error with
      | none => some { s.publish with worker := .stopped }
      | some error => some (s.recordStorageFailure error)
    | _ => none
  | .finalizeFails writes error =>
    match s.worker with
    | .finalizing live =>
      some ((s.writeDisk (live.syncAndClose.writes.take writes)).recordStorageFailure error)
    | _ => none
  | .publishFails error =>
    -- the rename was done, and what follows it raised
    match s.worker with
    | .finalizing live =>
      if live.syncAndClose.error.isNone then
        some ((s.writeDisk live.syncAndClose.writes).publish.recordStorageFailure error)
      else none
    | _ => none
  | .workerClosed =>
    match s.worker with
    | .closing => some { s with worker := .stopped }
    | _ => none
  | .finalize status =>
    -- the session finalizes the capture once both pumps have ended
    if s.pumps .clientToRch = .ended ∧ s.pumps .rchToClient = .ended ∧ s.closed = false then
      some
        { s with
          closed := true
          active := false
          job := s.job.map (·.finish clock.now (some status))
          finalizeRequested := s.job.isSome }
    else none

/-- A run, from one state through a list of events. -/
def run (s : Connection) : List (Event × Clock) → Option Connection
  | [] => some s
  | (event, clock) :: rest =>
    match step session s clock event with
    | some s => run s rest
    | none => none

/-- A session and a clock, for runs on fixed inputs. -/
def sampleSession (policy : StorageFailurePolicy) : Session where
  config := .sample policy
  sessionId := ⟨"s".toList, by decide⟩
  connectionId := ⟨"c".toList, by decide⟩
  jobId := ⟨"j".toList, by decide⟩
  clientIp := ⟨"10.0.0.3".toList, by decide⟩
  clientPort := none

def sampleClock : Clock where
  unixNs := 0
  monotonicNs := 0
  now :=
    { isoformat := "2024-01-01T00:00:00+00:00".toList
      year := "2024".toList
      month := "01".toList
      day := "01".toList
      isoformat_length := by decide
      date_digits := List.all_eq_true.mp (by decide) }

/-- A run of a sample session, its clock standing still. -/
def sampleRun (policy : StorageFailurePolicy) (events : List Event) : Option Connection :=
  run (sampleSession policy) {} (events.map (·, sampleClock))

end Connection

end RchProxy
