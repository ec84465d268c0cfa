import RchProxy.Storage.Counter
import RchProxy.Storage.Load

/-!
# Publishing a capture

A capture is written into a hidden directory beside its place and renamed there in one step when it
is whole: `RawSpoolStorage.archive` writes a job it is given, a live capture (`begin_live`, and the
calls of its worker up to `finalize` or `close_incomplete`) writes the bytes as they arrive. Here are
both, as programs on a date directory of the spool. That the code is free was settled when it was
allocated; permissions are left out.
-/

namespace RchProxy

open Py Lib

/-- A date directory of the spool, by the names in it. -/
abbrev Day := Text → Option JobDir

/-- The operations of the programs on a date directory: those on a directory in it among them. -/
inductive DayOp where
  | exist (name : Text)
  | mkdir (name : Text)
  | within (name : Text) (op : Op)
  | replace (src dst : Text)
  | fsync
  deriving DecidableEq, Repr

/-- What an operation answers. -/
abbrev DayOp.Res : DayOp → Type
  | .exist _ => Bool
  | .within _ op => op.Res
  | _ => Except Error Unit

/-- What an operation answers in a directory that is not there. -/
def Op.missing (c : Choice) : (op : Op) → op.Res
  | .kind _ => none
  | .read _ => .error (.osError .fileNotFound)
  | .iterdir _ => .error (.osError .fileNotFound)
  | .lock => true
  | .unlock => ()
  | .uuid4 => c.uuid
  | .now => c.now
  | .stale => c.stale
  | .mkdir _ => .error (.osError .fileNotFound)
  | .create _ => .error (.osError .fileNotFound)
  | .write _ _ => .error (.osError .fileNotFound)
  | .store _ _ _ => .error (.osError .fileNotFound)
  | .fsync => .error (.osError .fileNotFound)
  | .rename _ _ _ => .error (.osError .fileNotFound)
  | .unlink _ => .error (.osError .fileNotFound)
  | .rmdir _ => .error (.osError .fileNotFound)
  | .utime _ => .error (.osError .fileNotFound)

namespace Day

variable (s : Day)

/-- `path.mkdir()`. -/
def mkdir (name : Text) : Except Error Day :=
  match s name with
  | some _ => .error (.osError .fileExists)
  | none => .ok (Function.update s name (some ∅))

/-- `os.replace`, of a directory: it takes the place of nothing or of an empty one. -/
def replace (src dst : Text) : Except Error Day :=
  match s src with
  | none => .error (.osError .fileNotFound)
  | some dir =>
    if (s dst).all (·.keys = []) then
      .ok (Function.update (Function.update s src none) dst (some dir))
    else .error (.osError .notEmpty)

/-- A change of the directory, unless it fails. -/
def attempt (fault : Option Errno) (result : Except Error Day) : Except Error Unit × Day :=
  match fault with
  | some e => (.error (.osError e), s)
  | none =>
    match result with
    | .ok s' => (.ok (), s')
    | .error e => (.error e, s)

/-- One operation. -/
def exec (c : Choice) : (op : DayOp) → Day → op.Res × Day
  | .exist name, s => ((s name).isSome, s)
  | .mkdir name, s => s.attempt c.fault (s.mkdir name)
  | .within name op, s =>
    match s name with
    | some dir => ((dir.exec c op).1, Function.update s name (some (dir.exec c op).2))
    | none => (op.missing c, s)
  | .replace src dst, s => s.attempt c.fault (s.replace src dst)
  | .fsync, s => s.attempt c.fault (.ok s)

end Day

/-- A program on a date directory. -/
abbrev DayJob := Prog DayOp DayOp.Res Error

namespace DayJob

/-- A program on a directory in the date directory. -/
def inside {α : Type} (name : Text) : Job α → DayJob α
  | .ret a => .ret a
  | .raise e => .raise e
  | .call op next => .call (.within name op) fun r => inside name (next r)

/-- `path.exists()`. -/
def exist (name : Text) : DayJob Bool := Prog.perform (DayOp.exist name)

/-- The operation, with its error raised. -/
def mkdir (name : Text) : DayJob Unit := do Prog.ofExcept (← Prog.perform (.mkdir name))

@[inherit_doc mkdir]
def replace (src dst : Text) : DayJob Unit := do
  Prog.ofExcept (← Prog.perform (.replace src dst))

@[inherit_doc mkdir]
def fsync : DayJob Unit := do Prog.ofExcept (← Prog.perform .fsync)

end DayJob

/-! ## What both captures do -/

/-- The directory a capture is written to. -/
def partialDirName (code : Text) (jobId : Label) : Text :=
  '.' :: code ++ '.' :: jobId.val ++ ".partial".toList

/-- The file that describes a capture until its manifest does. -/
def captureMetaName : Text := "capture-meta.json.partial".toList

/-- The content of `.ready`. -/
def readyMarker (code manifestSha256 publishedAt : Text) : List (Text × Json) :=
  [("schema".toList, .str captureSchema), ("codice_doc".toList, .str code),
   ("manifest_sha256".toList, .str manifestSha256), ("published_at".toList, .str publishedAt)]

/-- The end of `_prepare_capture`: the code is taken. -/
def prepareCapture (code : Text) (jobId : Label) : DayJob Unit := do
  if ← DayJob.exist code then throw (.osError .fileExists)
  if ← DayJob.exist (partialDirName code jobId) then throw (.osError .fileExists)
  DayJob.mkdir (partialDirName code jobId)
  DayJob.fsync

namespace Job

/-- The partial files get their final names. -/
def promote (src : Artifact → Text) (names : FileNames) : Job Unit := do
  rename none (src .requestRaw) names.requestRaw
  rename none (src .responseRaw) names.responseRaw
  rename none (src .timeline) names.timeline

/-- The two markers of a capture, the manifest first. -/
def publishMarkers (config : Config) (job : CapturedJob) (code : Text) (names : FileNames)
    (figures : Figures) : Job Unit := do
  let manifest ← Prog.ofExcept
    (jsonBytes (.obj (captureManifest config job code names (publishedStatus job) figures)))
  atomicWriteBytes { name := "manifest.json".toList } manifest
  unlink { name := captureMetaName }
  let digest ← sha256File { name := "manifest.json".toList }
  let now ← Prog.perform .now
  let ready ← Prog.ofExcept (jsonBytes (.obj (readyMarker code digest now)))
  atomicWriteBytes { name := ".ready".toList } ready
  fsync

/-- `capture-meta.json.partial`, with what it has over a manifest. -/
def writeCaptureMeta (config : Config) (job : CapturedJob) (code : Text) (names : FileNames)
    (status : ManifestStatus) (figures : Figures) (more : List (Text × Json)) : Job Unit := do
  let data ← Prog.ofExcept
    (jsonBytes (.obj (captureManifest config job code names status figures ++ more)))
  atomicWriteBytes { name := captureMetaName } data

/-! ## Archives -/

/-- The digests `archive` takes of the files it has written. -/
def hashFiles (names : FileNames) : Job Figures := do
  let request ← sha256File { name := names.requestRaw }
  let response ← sha256File { name := names.responseRaw }
  let timeline ← sha256File { name := names.timeline }
  let digest : Artifact → Text
    | .requestRaw => request
    | .responseRaw => response
    | .timeline => timeline
  return { sha256 := some digest }

/-- The name of a file before it is renamed. -/
def archivePartial (names : FileNames) (key : Artifact) : Text := names.get key ++ ".partial".toList

/-- `archive`, in the directory it was given. -/
def archiveStaged (config : Config) (job : CapturedJob) (code : Text) : Job Unit := do
  let names ← Prog.ofExcept (finalNames job)
  writeCaptureMeta config job code names .publicationInProgress {} []
  atomicWriteBytes { name := archivePartial names .requestRaw } (job.payload .clientToRch)
  atomicWriteBytes { name := archivePartial names .responseRaw } (job.payload .rchToClient)
  let timeline ← Prog.ofExcept (renderTimelineJsonl job.chunks job.sessionId job.connectionId)
  atomicWriteBytes { name := archivePartial names .timeline } (encodeUtf8 timeline)
  promote (archivePartial names) names
  let figures ← hashFiles names
  publishMarkers config job code names figures

end Job

/-- `archive`. -/
def archive (config : Config) (job : CapturedJob) (code : Text) : DayJob Unit := do
  let dir := partialDirName code job.jobId
  prepareCapture code job.jobId
  DayJob.inside dir (Job.archiveStaged config job code)
  DayJob.replace dir code
  DayJob.fsync

/-! ## Live captures -/

/-- `_PARTIAL_NAMES`. -/
def Artifact.partialName : Artifact → Text
  | .requestRaw => "request.raw.partial".toList
  | .responseRaw => "response.raw.partial".toList
  | .timeline => "timeline.jsonl.partial".toList

/-- `partial_files`. -/
def partialFiles : Text × Json := ("partial_files".toList, artifactMap Artifact.partialName)

/-- A call of the worker on a live capture. -/
inductive LiveCommand where
  | append (sequence : Nat) (direction : StreamDirection) (data : Bytes)
      (chunk : Option CapturedChunk)
  | markLocalWriteDrain (sequence : Nat) (completed : Bool) (drainUnixNs : Int)
      (error : Option Text)

/-- The call, on the state of the capture. -/
def LiveCommand.call : LiveCommand → LiveSpoolCapture → LiveCall
  | .append sequence direction data chunk, live => live.append sequence direction data chunk
  | .markLocalWriteDrain sequence completed drainUnixNs error, live =>
    live.markLocalWriteDrain sequence completed drainUnixNs error

namespace Job

/-- `_write_all`: a write to an unbuffered file can stop at any byte. -/
def appendAll (p : Loc) (data : Bytes) : Job Unit := data.forM fun b => write p [b]

/-- What a call writes to the partial files, block by block, and the events that are in the timeline
where it stops. -/
def performWrites : List (Artifact × Bytes) → Nat → Job (Nat × Option Error)
  | [], events => return (events, none)
  | (key, data) :: writes, events => do
    match ← Prog.result (appendAll { name := key.partialName } data) with
    | .error e => return (events, some e)
    | .ok () => performWrites writes (if key = .timeline then events + 1 else events)

/-- A call, with what it writes: the state it leaves, and the exception it raises, if any. -/
def performCall (live : LiveSpoolCapture) (call : LiveCall) :
    Job (LiveSpoolCapture × Option Error) := do
  match ← performWrites call.writes live.timelineEvents with
  | (events, some e) => return ({ call.live with timelineEvents := events }, some e)
  | (_, none) => return (call.live, call.error)

/-- An operation, whose `OSError` is dropped. -/
def ignoreOsError (m : Job Unit) : Job Unit :=
  Prog.tryCatch m fun
    | .osError _ => return ()
    | e => throw e

/-- The size and the digest of a partial file, if it is there. -/
def partialFigures (key : Artifact) : Job (List (Text × Json) × List (Text × Json)) := do
  if ← isFile { name := key.partialName } then
    let n ← size { name := key.partialName }
    let digest ← sha256File { name := key.partialName }
    return ([(key.key, .int n)], [(key.key, .str digest)])
  else return ([], [])

/-- `close_incomplete`. -/
def closeIncomplete (config : Config) (live : LiveSpoolCapture) (job : Option CapturedJob)
    (reason : Option Text) : Job Unit := do
  if live.closed then return ()
  ignoreOsError fsync
  ignoreOsError fsync
  ignoreOsError fsync
  match job with
  | some job =>
    Prog.tryCatch
      (do
        let names ← Prog.ofExcept (finalNames job)
        let request ← partialFigures .requestRaw
        let response ← partialFigures .responseRaw
        let timeline ← partialFigures .timeline
        let sizes := request.1 ++ response.1 ++ timeline.1
        let sizeOf (key : Artifact) : Nat := ((Json.int? (Json.get key.key sizes)).getD 0).toNat
        writeCaptureMeta config job live.code names .liveCaptureIncomplete
          { requestSize := some (sizeOf .requestRaw)
            responseSize := some (sizeOf .responseRaw)
            timelineEventCount := some live.timelineEvents }
          [partialFiles, ("partial_sizes".toList, .obj sizes),
           ("partial_sha256".toList, .obj (request.2 ++ response.2 ++ timeline.2)),
           ("incomplete_reason".toList,
             Json.ofText? ((reason.filter (· ≠ [])).or job.captureError))])
      fun _ => return ()
  | none => return ()
  ignoreOsError fsync

/-- `LiveSpoolCapture.__init__`. -/
def openLive (config : Config) (live : LiveSpoolCapture) (job : CapturedJob) : Job Unit := do
  let names ← Prog.ofExcept (finalNames job)
  writeCaptureMeta config job live.code names .liveCaptureInProgress
    { requestSize := some 0, responseSize := some 0, timelineEventCount := some 0 } [partialFiles]
  Prog.tryCatch
    (do
      create { name := Artifact.partialName .requestRaw }
      create { name := Artifact.partialName .responseRaw }
      create { name := Artifact.partialName .timeline })
    fun e => do
      closeIncomplete config live none none
      throw e

/-- `_sync_and_close`, up to where the capture is closed. -/
def flushAndSync (live : LiveSpoolCapture) : Job (LiveSpoolCapture × Option Error) := do
  match ← performCall live (live.flushReadyTimeline true) with
  | (live, some e) => return (live, some e)
  | (live, none) =>
    match ← Prog.result (do fsync; fsync; fsync) with
    | .error e => return (live, some e)
    | .ok () => return ({ live with closed := true }, none)

end Job

/-- `finalize`, of a capture that was just closed. -/
def finalizeClosed (config : Config) (live : LiveSpoolCapture) (job : CapturedJob) (dir : Text) :
    DayJob Unit := do
  DayJob.inside dir Job.fsync
  if ← DayJob.exist live.code then throw (.osError .fileExists)
  DayJob.inside dir do
    let names ← Prog.ofExcept (finalNames job)
    Job.promote Artifact.partialName names
    Job.publishMarkers config job live.code names live.figures
  DayJob.replace dir live.code
  DayJob.fsync

/-- What the recorder gives to the worker of a live capture: the job when the last command is done,
why the capture is degraded, if it is, and for an exception the job and the reason it records. -/
structure LiveTask where
  final : CapturedJob
  degraded : Option Text
  failed : Error → CapturedJob × Text

namespace LiveTask

variable (task : LiveTask) (config : Config) (dir : Text)

/-- An exception in the worker: `_record_storage_failure`. -/
def fail (live : LiveSpoolCapture) (e : Error) : DayJob Unit :=
  DayJob.inside dir
    (Job.closeIncomplete config live (some (task.failed e).1) (some (task.failed e).2))

/-- The worker when the commands are done: `finalize`, unless something was lost. -/
def finish (live : LiveSpoolCapture) : DayJob Unit :=
  match task.degraded with
  | some reason =>
    DayJob.inside dir (Job.closeIncomplete config live (some task.final) (some reason))
  | none => do
    match ← DayJob.inside dir (Job.flushAndSync live) with
    | (live, some e) => task.fail config dir live e
    | (live, none) =>
      match ← Prog.result (finalizeClosed config live task.final dir) with
      | .error e => task.fail config dir live e
      | .ok () => return ()

/-- `_live_worker`, after `begin_live`: the commands in their order. -/
def run : List LiveCommand → LiveSpoolCapture → DayJob Unit
  | [], live => task.finish config dir live
  | command :: commands, live => do
    match ← DayJob.inside dir (Job.performCall live (command.call live)) with
    | (live, some e) => task.fail config dir live e
    | (live, none) => run commands live

end LiveTask

/-- The state of a live capture that was just opened. -/
def LiveSpoolCapture.opened (job : CapturedJob) (code : Text) (parent : Path) : LiveSpoolCapture where
  code := code
  parent := parent
  partialDir := partialDirName code job.jobId :: parent
  finalDir := code :: parent
  sessionId := job.sessionId
  connectionId := job.connectionId

/-- A live capture, from `begin_live` on. -/
def liveCapture (config : Config) (job : CapturedJob) (code : Text) (parent : Path) (task : LiveTask)
    (commands : List LiveCommand) : DayJob Unit := do
  let dir := partialDirName code job.jobId
  let live := LiveSpoolCapture.opened job code parent
  prepareCapture code job.jobId
  DayJob.inside dir (Job.openLive config live job)
  task.run config dir commands live

end RchProxy
