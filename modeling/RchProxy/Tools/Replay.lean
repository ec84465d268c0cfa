import RchProxy.Capture.Arrivals

/-!
# Offline replay

The job `replay_raw_to_spool` builds from the bytes of two RAW files and archives
(`tools/replay.py`). Unlike `_new_job`, it leaves `max_capture_events` at the default of the job.
-/

namespace RchProxy

open Py

/-- `"offline-" + identity`. -/
def offlineIdentity (request response : Bytes) : Label :=
  ⟨"offline-".toList ++
      (sha256 (request ++ 0 :: encodeUtf8 "RCH-OFFLINE-DIRECTION".toList ++ 0 :: response)).take 32, by
    rw [List.length_append, List.length_take, sha256_length]
    decide⟩

/-- The job of a replay, before anything is appended to it. -/
def offlineJob (config : Config) (request response : Bytes) (jobId : Label) (capturedAt : DateTime)
    (captureNs : Int) : CapturedJob where
  sessionId := offlineIdentity request response
  connectionId := offlineIdentity request response
  jobId := jobId
  clientIp := ⟨"127.0.0.1".toList, by decide⟩
  clientPort := none
  proxyIp := config.listenIp
  proxyPort := config.listenPort
  printerIp := config.printerIp
  printerPort := config.printerPort
  maxPayloadBytes := config.maxPayloadBytes
  startedAt := capturedAt
  startedUnixNs := captureNs
  boundarySource := .offlineSuppliedDirectionalFiles
  transportStatus := .offlineReplayNoNetworkDelivery

/-- What a replay says about a chunk. -/
def offlineObserved (capturedAt : DateTime) (unixNs monotonicNs : Int) : Observed where
  timestamp := capturedAt.isoformat
  monotonicNs := monotonicNs
  receivedUnixNs := some unixNs
  forwardedUnixNs := none

/-- The calls of a replay: the request, the response if there is one, and the end. -/
def offlineCalls (request response : Bytes) (capturedAt : DateTime) (captureNs monotonicNs : Int)
    (now : DateTime) : List JobCall :=
  [.append ⟨.clientToRch, request, offlineObserved capturedAt captureNs monotonicNs⟩ none none] ++
  (if response ≠ [] then
    [.append ⟨.rchToClient, response, offlineObserved capturedAt (captureNs + 1) monotonicNs⟩ none
      none]
   else []) ++
  [.finish now (some .offlineReplayNoNetworkDelivery)]

/-- The job `replay_raw_to_spool` archives. -/
def replayJob (config : Config) (request response : Bytes) (jobId : Label) (capturedAt : DateTime)
    (captureNs monotonicNs : Int) (now : DateTime) : Except Error CapturedJob :=
  if config.maxPayloadBytes < request.length then
    .error (.valueError s!"RAW input exceeds the remaining {config.maxPayloadBytes}-byte limit")
  else if request = [] then .error (.valueError "request RAW input must not be empty")
  else if config.maxPayloadBytes - request.length < response.length then
    .error (.valueError
      s!"RAW input exceeds the remaining {config.maxPayloadBytes - request.length}-byte limit")
  else if captureNs < 0 then .error (.valueError "started_unix_ns cannot be negative")
  else
    .ok (JobCall.run (offlineJob config request response jobId capturedAt captureNs)
      (offlineCalls request response capturedAt captureNs monotonicNs now))

theorem offlineJob_fresh (config : Config) (request response : Bytes) (jobId : Label)
    (capturedAt : DateTime) (captureNs : Int) :
    (offlineJob config request response jobId capturedAt captureNs).Fresh :=
  ⟨rfl, fun _ => rfl, rfl⟩

/-- What a replay archives is built by its calls. -/
theorem replayJob_eq_ok {config : Config} {request response : Bytes} {jobId : Label}
    {capturedAt : DateTime} {captureNs monotonicNs : Int} {now : DateTime} {job : CapturedJob}
    (h : replayJob config request response jobId capturedAt captureNs monotonicNs now = .ok job) :
    job = JobCall.run (offlineJob config request response jobId capturedAt captureNs)
      (offlineCalls request response capturedAt captureNs monotonicNs now) := by
  unfold replayJob at h
  split at h
  · cases h
  split at h
  · cases h
  split at h
  · cases h
  split at h
  · cases h
  · exact (Except.ok.inj h).symm

end RchProxy
