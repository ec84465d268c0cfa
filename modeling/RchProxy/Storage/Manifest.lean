import RchProxy.Storage.Live

/-!
# The capture manifest

The names of the files of a capture, and the manifest that describes it (`_capture_manifest` in
`storage/spool.py`). A live capture passes the sizes it counted, a batch capture takes them from the
job.
-/

namespace RchProxy

open Py Lib

/-- `CAPTURE_SCHEMA`. -/
def captureSchema : Text := "commercialrchproxy.capture.v1".toList

/-- `epoch_stamp`. -/
def epochStamp (unixNs : Int) : Except Error Text :=
  if unixNs < 0 then .error (.valueError "Unix timestamp cannot be negative")
  else
    let n := unixNs.toNat
    .ok (decimal (n / 1000000000) ++ ['.'] ++ zeroPad 9 (n % 1000000000))

/-- The keys of the `files` and `sha256` maps. -/
def Artifact.key : Artifact → Text
  | .requestRaw => "request_raw".toList
  | .responseRaw => "response_raw".toList
  | .timeline => "timeline".toList

/-- The files of a capture, by their final names. -/
structure FileNames where
  requestRaw : Text
  responseRaw : Text
  timeline : Text
  deriving DecidableEq, Repr

/-- The name of one file. -/
def FileNames.get (names : FileNames) : Artifact → Text
  | .requestRaw => names.requestRaw
  | .responseRaw => names.responseRaw
  | .timeline => names.timeline

/-- `_final_names`. -/
def finalNames (job : CapturedJob) : Except Error FileNames := do
  let request ← epochStamp (job.startedUnixNsOf .clientToRch)
  let response ← epochStamp (job.startedUnixNsOf .rchToClient)
  return { requestRaw := "file_".toList ++ request ++ ".raw".toList
           responseRaw := "response_".toList ++ response ++ ".raw".toList
           timeline := "timeline_".toList ++ request ++ ".jsonl".toList }

/-- A map with one text for each file. -/
def artifactMap (value : Artifact → Text) : Json :=
  .obj [(Artifact.key .requestRaw, .str (value .requestRaw)),
    (Artifact.key .responseRaw, .str (value .responseRaw)),
    (Artifact.key .timeline, .str (value .timeline))]

/-- The `status` of a manifest. -/
inductive ManifestStatus where
  | publicationInProgress
  | liveCaptureInProgress
  | liveCaptureIncomplete
  | ready
  | readyCaptureIncomplete
  deriving DecidableEq, Repr

/-- The text of a status. -/
def ManifestStatus.text : ManifestStatus → Text
  | .publicationInProgress => "publication_in_progress".toList
  | .liveCaptureInProgress => "live_capture_in_progress".toList
  | .liveCaptureIncomplete => "live_capture_incomplete".toList
  | .ready => "ready".toList
  | .readyCaptureIncomplete => "ready_capture_incomplete".toList

/-- The status of a job that is published. -/
def publishedStatus (job : CapturedJob) : ManifestStatus :=
  if job.captureComplete && job.timelineComplete then .ready else .readyCaptureIncomplete

/-- What a manifest says about the files: their digests, and the figures a live capture counted. -/
structure Figures where
  sha256 : Option (Artifact → Text) := none
  requestSize : Option Nat := none
  responseSize : Option Nat := none
  timelineEventCount : Option Nat := none

/-- `_capture_manifest`. -/
def captureManifest (config : Config) (job : CapturedJob) (code : Text) (names : FileNames)
    (status : ManifestStatus) (figures : Figures) : List (Text × Json) :=
  [("schema".toList, .str captureSchema),
   ("project".toList, .str "commercialRCHproxy".toList),
   ("codice_doc".toList, .str code),
   ("job_id".toList, .str job.jobId.val),
   ("session_id".toList, .str job.sessionId.val),
   ("connection_id".toList, .str job.connectionId.val),
   ("printer_ip".toList, .str job.printerIp.val),
   ("printer_port".toList, .int job.printerPort),
   ("listen_ip".toList, .str job.proxyIp.val),
   ("listen_port".toList, .int job.proxyPort),
   ("client_ip".toList, .str job.clientIp.val),
   ("client_port".toList, Json.ofInt? (job.clientPort.map Int.ofNat)),
   ("opened_at".toList, .str job.startedAt.isoformat),
   ("closed_at".toList, .str (job.endedAt.getD job.startedAt).isoformat),
   ("opened_unix_ns".toList, .int job.startedUnixNs),
   ("request_first_unix_ns".toList, .int (job.startedUnixNsOf .clientToRch)),
   ("response_first_unix_ns".toList, .int (job.startedUnixNsOf .rchToClient)),
   ("timestamp_representation".toList, .str "integer_unix_nanoseconds".toList),
   ("timestamp_resolution".toList, .str "platform_runtime_clock_resolution_unverified".toList),
   ("close_reason".toList, .str job.transportStatus.text),
   ("request_size".toList, .int (figures.requestSize.getD (job.payload .clientToRch).length)),
   ("response_size".toList, .int (figures.responseSize.getD (job.payload .rchToClient).length)),
   ("bytes_read_from_client".toList, .int (job.bytesCaptured .clientToRch)),
   ("bytes_read_from_printer".toList, .int (job.bytesCaptured .rchToClient)),
   ("bytes_local_write_drain_to_printer".toList, .int (job.bytesLocalWriteDrain .clientToRch)),
   ("bytes_local_write_drain_to_client".toList, .int (job.bytesLocalWriteDrain .rchToClient)),
   ("bytes_arrived_at_printer".toList, .null),
   ("bytes_arrived_at_client".toList, .null),
   ("remote_delivery".toList, .null),
   ("delivery_evidence".toList, .str "UNCONFIRMED_WITHOUT_PCAP".toList),
   ("files".toList, artifactMap names.get),
   ("sha256".toList, (figures.sha256.map artifactMap).getD (.obj [])),
   ("raw_complete".toList, .bool job.captureComplete),
   ("capture_error".toList, Json.ofText? job.captureError),
   ("timeline_complete".toList, .bool job.timelineComplete),
   ("timeline_error".toList, Json.ofText? job.timelineError),
   ("timeline_event_count".toList, .int (figures.timelineEventCount.getD job.chunks.length)),
   ("timeline_event_count_observed".toList, .int job.captureEventCountObserved),
   ("job_boundary_source".toList, .str job.boundarySource.text),
   ("job_boundary_confidence".toList, .float job.boundarySource.confidence),
   ("status".toList, .str status.text),
   ("dumper_version".toList, .str "0.3.0".toList),
   ("config_version".toList, .str "1".toList),
   ("timezone".toList, .str config.timezone.val)]

/-- `_json_bytes`. -/
def jsonBytes (value : Json) : Except Error Bytes := do
  return encodeUtf8 ((← Json.dumps (.indented 2) value) ++ ['\n'])

/-- `json.loads(data)`, of UTF-8 bytes. -/
def loadsBytes (data : Bytes) : Except Error Json := do Json.loads (← decodeUtf8 data)

/-- What `_json_bytes` writes is read back, with its keys sorted. -/
theorem loadsBytes_jsonBytes {v : Json} {data : Bytes} (h : jsonBytes v = .ok data) (hv : v.Plain) :
    loadsBytes data = .ok v.sortKeys := by
  simp only [jsonBytes, bind_eq_ok] at h
  obtain ⟨t, ht, h⟩ := h
  cases h
  have hspace : ∀ c ∈ ['\n'], Json.isSpace c := by
    intro c hc
    rw [List.mem_singleton.mp hc]
    decide
  rw [loadsBytes, decodeUtf8_encodeUtf8, ← Json.loads_dumps ht hv hspace]
  rfl

/-- The bytes are written unless an integer is too long. -/
theorem jsonBytes_ok {v : Json} (h : v.Writable = true) : ∃ data, jsonBytes v = .ok data := by
  obtain ⟨t, ht⟩ : ∃ t, Json.dumps (.indented 2) v = .ok t := Json.dumps_ok h
  exact ⟨_, by rw [jsonBytes, ht]; rfl⟩

/-- What was written had no integer that is too long. -/
theorem writable_of_jsonBytes {v : Json} {data : Bytes} (h : jsonBytes v = .ok data) :
    v.Writable = true := by
  simp only [jsonBytes, bind_eq_ok] at h
  obtain ⟨t, ht, -⟩ := h
  exact Json.writable_of_dumps ht

/-- What is written is as long as its weight at most. -/
theorem jsonBytes_length {v : Json} {data : Bytes} (h : jsonBytes v = .ok data) :
    data.length ≤ Json.weight (.indented 2) 0 v + 1 := by
  simp only [jsonBytes, bind_eq_ok] at h
  obtain ⟨t, ht, h⟩ := h
  cases h
  rw [encodeUtf8_append, List.length_append]
  exact Nat.add_le_add_right (Json.dumps_length ht) 1

section
variable (config : Config) (job : CapturedJob) (code : Text) (names : FileNames)
  (status : ManifestStatus) (figures : Figures)

theorem plain_artifactMap (value : Artifact → Text) : (artifactMap value).Plain :=
  ⟨trivial, trivial, trivial, trivial⟩

theorem plain_captureManifest :
    (Json.obj (captureManifest config job code names status figures)).Plain := by
  have hdigests : ((figures.sha256.map artifactMap).getD (.obj [])).Plain := by
    cases figures.sha256 with
    | none => exact trivial
    | some value => exact plain_artifactMap value
  have hconfidence : (Json.float job.boundarySource.confidence).Plain := by
    cases job.boundarySource with
    | connectionLifecycle =>
      exact ⟨0, "8".toList, by decide, by decide, List.all_eq_true.mp (by decide)⟩
    | offlineSuppliedDirectionalFiles =>
      exact ⟨1, "0".toList, by decide, by decide, List.all_eq_true.mp (by decide)⟩
  exact ⟨trivial, trivial, trivial, trivial, trivial, trivial, trivial, trivial, trivial, trivial,
    trivial, plain_ofInt? _, trivial, trivial, trivial, trivial, trivial, trivial, trivial,
    trivial, trivial, trivial, trivial, trivial, trivial, trivial, trivial, trivial, trivial,
    trivial, plain_artifactMap _, hdigests, trivial, plain_ofText? _, trivial, plain_ofText? _,
    trivial, trivial, trivial, hconfidence, trivial, trivial, trivial, trivial, trivial⟩

theorem captureManifest_nodup :
    ((captureManifest config job code names status figures).map (·.1)).Nodup := by
  refine List.Nodup.of_map String.ofList ?_
  simp only [captureManifest, List.map_cons, List.map_nil, String.ofList_toList, List.nodup_cons,
    List.mem_cons, List.not_mem_nil, String.reduceEq, or_false, not_false_eq_true, List.nodup_nil,
    and_self]

end

/-! ## The two captures -/

/-- The files `archive` writes. -/
def archiveFiles (job : CapturedJob) : Except Error (Artifact → Bytes) := do
  let timeline ← renderTimelineJsonl job.chunks job.sessionId job.connectionId
  return fun
    | .requestRaw => job.payload .clientToRch
    | .responseRaw => job.payload .rchToClient
    | .timeline => encodeUtf8 timeline

/-- The figures of the manifest `archive` publishes. -/
def archiveFigures (files : Artifact → Bytes) : Figures where
  sha256 := some fun key => sha256 (files key)

/-- The figures of the manifest `LiveSpoolCapture.finalize` publishes. -/
def LiveSpoolCapture.figures (live : LiveSpoolCapture) : Figures where
  sha256 := some fun key => Py.sha256 (live.hashers key)
  requestSize := some (live.sizes .requestRaw)
  responseSize := some (live.sizes .responseRaw)
  timelineEventCount := some live.timelineEvents

end RchProxy
