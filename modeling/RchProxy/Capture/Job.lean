import Mathlib.Logic.Function.Basic
import RchProxy.Py.Hashlib
import RchProxy.Config

/-!
# Captured jobs

The copy of one transport connection (`capture/jobs.py`): the bytes of both directions up to the
payload limit, the receive events up to the event limit, and the counters the manifest reports. What
the source keeps in two fields, one for each direction, is a function of the direction here: `payload
.clientToRch` is `request`, `bytesStored .rchToClient` is `bytes_stored_from_printer`.
-/

namespace RchProxy

open Py

/-- `CLIENT_TO_RCH` and `RCH_TO_CLIENT`. -/
inductive StreamDirection where
  | clientToRch
  | rchToClient
  deriving DecidableEq, Repr

/-- The text of a direction. -/
def StreamDirection.text : StreamDirection → Text
  | .clientToRch => "CLIENT -> RCH".toList
  | .rchToClient => "RCH -> CLIENT".toList

/-- An aware `datetime`, by what the spool reads off it: its ISO text, and its date in the configured
time zone. -/
structure DateTime where
  isoformat : Text
  year : Text
  month : Text
  day : Text
  isoformat_length : isoformat.length ≤ 32
  date_digits : ∀ c ∈ year ++ month ++ day, c.isDigit
  deriving DecidableEq, Repr

/-- One receive event. -/
structure CapturedChunk where
  sequence : Nat
  direction : StreamDirection
  timestamp : Text
  monotonicNs : Int
  offset : Nat
  sessionOffset : Nat
  data : Bytes
  byteCount : Option Nat := none
  dataSha256 : Option Text := none
  receivedUnixNs : Option Int := none
  forwardedUnixNs : Option Int := none
  drainUnixNs : Option Int := none
  localWriteDrainCompleted : Option Bool := none
  forwardError : Option Text := none
  deriving DecidableEq, Repr

/-- What `record` hands back to the pump. -/
structure CaptureToken where
  jobId : Label
  chunkIndex : Option Nat
  direction : StreamDirection
  byteCount : Nat
  sequence : Option Nat := none
  deriving DecidableEq, Repr

/-- How a job was cut out of the traffic, with the confidence in it. -/
inductive BoundarySource where
  | connectionLifecycle
  | offlineSuppliedDirectionalFiles
  deriving DecidableEq, Repr

/-- `boundary_source`. -/
def BoundarySource.text : BoundarySource → Text
  | .connectionLifecycle => "connection_lifecycle".toList
  | .offlineSuppliedDirectionalFiles => "offline_supplied_directional_files".toList

/-- `boundary_confidence`, as `repr` writes it. -/
def BoundarySource.confidence : BoundarySource → Text
  | .connectionLifecycle => "0.8".toList
  | .offlineSuppliedDirectionalFiles => "1.0".toList

/-- The outcomes of a connection that the session and the job name. -/
inductive TransportStatus where
  | capturedDeliveryUnconfirmed
  | localWriteFailedOrCancelled
  | allLocalWriteDrainsCompleted
  | connectionClosed
  | streamClosedApplicationStatusUnknown
  | streamClosedDeliveryAndApplicationStatusUnknown
  | printerUnreachable
  | tailTimeoutTransportIncomplete
  | transportErrorApplicationStatusUnknown
  | serviceShutdownApplicationStatusUnknown
  | offlineReplayNoNetworkDelivery
  deriving DecidableEq, Repr

/-- `transport_status`. -/
def TransportStatus.text : TransportStatus → Text
  | .capturedDeliveryUnconfirmed => "captured_delivery_unconfirmed".toList
  | .localWriteFailedOrCancelled => "local_write_failed_or_cancelled_delivery_unknown".toList
  | .allLocalWriteDrainsCompleted =>
    "all_local_write_drains_completed_delivery_and_application_status_unknown".toList
  | .connectionClosed => "connection_closed".toList
  | .streamClosedApplicationStatusUnknown => "stream_closed_application_status_unknown".toList
  | .streamClosedDeliveryAndApplicationStatusUnknown =>
    "stream_closed_delivery_and_application_status_unknown".toList
  | .printerUnreachable => "printer_unreachable".toList
  | .tailTimeoutTransportIncomplete =>
    "tail_timeout_transport_incomplete_application_status_unknown".toList
  | .transportErrorApplicationStatusUnknown =>
    "transport_error_application_status_unknown".toList
  | .serviceShutdownApplicationStatusUnknown =>
    "service_shutdown_application_status_unknown".toList
  | .offlineReplayNoNetworkDelivery => "offline_replay_no_network_delivery".toList

/-- The copy of one connection. -/
structure CapturedJob where
  sessionId : Label
  connectionId : Label
  jobId : Label
  clientIp : Label
  clientPort : Option Nat
  proxyIp : Ipv4
  proxyPort : Nat
  printerIp : Ipv4
  printerPort : Nat
  maxPayloadBytes : Nat
  maxCaptureEvents : Nat := 65536
  startedAt : DateTime
  startedUnixNs : Int
  endedAt : Option DateTime := none
  payload : StreamDirection → Bytes := fun _ => []
  chunks : List CapturedChunk := []
  bytesCaptured : StreamDirection → Nat := fun _ => 0
  bytesStored : StreamDirection → Nat := fun _ => 0
  bytesLocalWriteDrain : StreamDirection → Nat := fun _ => 0
  captureComplete : Bool := true
  captureError : Option Text := none
  captureEventCountObserved : Nat := 0
  timelineComplete : Bool := true
  timelineError : Option Text := none
  boundarySource : BoundarySource := .connectionLifecycle
  transportStatus : TransportStatus := .capturedDeliveryUnconfirmed
  firstUnixNs : StreamDirection → Option Int := fun _ => none

/-- What the clocks said about one receive event. -/
structure Observed where
  timestamp : Text
  monotonicNs : Int
  receivedUnixNs : Option Int
  forwardedUnixNs : Option Int
  deriving DecidableEq, Repr

/-- A chunk with the outcome of its local write drain. -/
def CapturedChunk.drained (chunk : CapturedChunk) (completed : Bool) (drainUnixNs : Int)
    (error : Option Text) : CapturedChunk :=
  { chunk with
    localWriteDrainCompleted := some completed
    drainUnixNs := some drainUnixNs
    forwardError := error }

namespace CapturedJob

/-- `MAX_PAYLOAD_BYTES exceeded`. -/
def payloadLimitError : Text :=
  "MAX_PAYLOAD_BYTES exceeded; stream copy remained active but capture is partial".toList

/-- The event limit, exceeded. -/
def eventLimitError (limit : Nat) : Text :=
  "capture event limit ".toList ++ decimal limit ++
    " exceeded; directional RAW remains authoritative but the receive timeline is partial".toList

/-- The bytes that still fit below the payload limit. -/
def room (job : CapturedJob) : Nat :=
  job.maxPayloadBytes - (job.bytesStored .clientToRch + job.bytesStored .rchToClient)

/-- The counters of `append`, which count what the limits drop too. -/
def observe (job : CapturedJob) (direction : StreamDirection) (data : Bytes)
    (receivedUnixNs : Option Int) : CapturedJob :=
  { job with
    captureEventCountObserved := job.captureEventCountObserved + 1
    firstUnixNs := Function.update job.firstUnixNs direction
      ((job.firstUnixNs direction).or receivedUnixNs)
    bytesCaptured := Function.update job.bytesCaptured direction
      (job.bytesCaptured direction + data.length) }

/-- The bytes of `append` that fit, if any, with a receive event as long as there is room for one;
the index of that event. -/
def store (job : CapturedJob) (direction : StreamDirection) (stored : Bytes) (sequence : Option Nat)
    (sessionOffset : Option Nat) (observed : Observed) (retainPayload : Bool) :
    CapturedJob × Option Nat :=
  if stored = [] then (job, none)
  else
    let offset := job.bytesStored direction
    let job :=
      { job with
        bytesStored := Function.update job.bytesStored direction (offset + stored.length)
        payload :=
          if retainPayload then
            Function.update job.payload direction (job.payload direction ++ stored)
          else job.payload }
    if job.chunks.length < job.maxCaptureEvents then
      ({ job with
          chunks := job.chunks ++
            [{ sequence := sequence.getD (job.chunks.length + 1)
               direction := direction
               timestamp := observed.timestamp
               monotonicNs := observed.monotonicNs
               offset := offset
               sessionOffset := sessionOffset.getD offset
               data := if retainPayload then stored else []
               byteCount := some stored.length
               dataSha256 := some (sha256 stored)
               receivedUnixNs := observed.receivedUnixNs
               forwardedUnixNs := observed.forwardedUnixNs }] }, some job.chunks.length)
    else
      ({ job with
          timelineComplete := false
          timelineError := some (eventLimitError job.maxCaptureEvents) }, none)

/-- `append`. -/
def append (job : CapturedJob) (direction : StreamDirection) (data : Bytes) (sequence : Option Nat)
    (sessionOffset : Option Nat) (observed : Observed) (retainPayload : Bool) :
    CapturedJob × Option Nat :=
  if data = [] then (job, none)
  else
    let stored := data.take job.room
    let (job, index) := (job.observe direction data observed.receivedUnixNs).store direction stored
      sequence sessionOffset observed retainPayload
    if stored.length = data.length then (job, index)
    else ({ job with captureComplete := false, captureError := some payloadLimitError }, index)

/-- `mark_local_write_drain`. -/
def markLocalWriteDrain (job : CapturedJob) (token : CaptureToken) (completed : Bool)
    (drainUnixNs : Int) (error : Option Text) : CapturedJob :=
  let job :=
    match token.chunkIndex with
    | some index =>
      { job with chunks := job.chunks.modify index (·.drained completed drainUnixNs error) }
    | none => job
  if completed then
    { job with
      bytesLocalWriteDrain := Function.update job.bytesLocalWriteDrain token.direction
        (job.bytesLocalWriteDrain token.direction + token.byteCount) }
  else { job with transportStatus := .localWriteFailedOrCancelled }

/-- `finish`. -/
def finish (job : CapturedJob) (now : DateTime) (status : Option TransportStatus) : CapturedJob :=
  let job := { job with endedAt := some now }
  match status with
  | some status => { job with transportStatus := status }
  | none =>
    if job.transportStatus = .localWriteFailedOrCancelled then job
    else if job.bytesCaptured .clientToRch = job.bytesLocalWriteDrain .clientToRch ∧
        job.bytesCaptured .rchToClient = job.bytesLocalWriteDrain .rchToClient then
      { job with transportStatus := .allLocalWriteDrainsCompleted }
    else { job with transportStatus := .capturedDeliveryUnconfirmed }

/-- `request_started_unix_ns` and `response_started_unix_ns`: a first event at time zero counts as
none. -/
def startedUnixNsOf (job : CapturedJob) (direction : StreamDirection) : Int :=
  match job.firstUnixNs direction with
  | some n => if n = 0 then job.startedUnixNs else n
  | none => job.startedUnixNs

/-! ## What `append` changes -/

section

variable (job : CapturedJob) (d : StreamDirection) (data : Bytes) (sequence sessionOffset : Option Nat)
  (observed : Observed) (retain : Bool)

theorem store_bytesStored :
    (job.store d data sequence sessionOffset observed retain).1.bytesStored =
      Function.update job.bytesStored d (job.bytesStored d + data.length) := by
  unfold store
  split
  · next h => subst h; simp
  · dsimp only
    split <;> rfl

/-- Storing bytes changes neither who the job is nor whether its RAW is complete. -/
theorem store_eq :
    (job.store d data sequence sessionOffset observed retain).1.jobId = job.jobId ∧
    (job.store d data sequence sessionOffset observed retain).1.captureComplete =
      job.captureComplete := by
  unfold store
  split
  · exact ⟨rfl, rfl⟩
  · dsimp only
    split <;> exact ⟨rfl, rfl⟩

theorem append_bytesStored :
    (job.append d data sequence sessionOffset observed retain).1.bytesStored =
      Function.update job.bytesStored d (job.bytesStored d + (data.take job.room).length) := by
  unfold append
  split
  · next h => subst h; simp
  · dsimp only
    split <;> exact store_bytesStored ..

theorem append_jobId :
    (job.append d data sequence sessionOffset observed retain).1.jobId = job.jobId := by
  unfold append
  split
  · rfl
  · dsimp only
    split <;> exact (store_eq ..).1

theorem append_captureComplete (hd : data ≠ []) :
    (job.append d data sequence sessionOffset observed retain).1.captureComplete =
      (job.captureComplete && decide (data.length ≤ job.room)) := by
  have hlen : (data.take job.room).length = data.length ↔ data.length ≤ job.room := by
    rw [List.length_take]; omega
  unfold append
  rw [if_neg hd]
  dsimp only
  split
  · next h =>
    rw [(store_eq ..).2, decide_eq_true (hlen.mp h), Bool.and_true]
    rfl
  · next h => rw [decide_eq_false (mt hlen.mpr h), Bool.and_false]

end

theorem markLocalWriteDrain_captureComplete (job : CapturedJob) (token : CaptureToken)
    (completed : Bool) (drainUnixNs : Int) (error : Option Text) :
    (job.markLocalWriteDrain token completed drainUnixNs error).captureComplete =
      job.captureComplete := by
  unfold markLocalWriteDrain
  cases token.chunkIndex <;> cases completed <;> rfl

theorem finish_captureComplete (job : CapturedJob) (now : DateTime)
    (status : Option TransportStatus) :
    (job.finish now status).captureComplete = job.captureComplete := by
  unfold finish
  cases status with
  | some status => rfl
  | none =>
    dsimp only
    split
    · rfl
    · split <;> rfl

end CapturedJob

end RchProxy
