import RchProxy.Capture.Stream
import RchProxy.Parser.Timeline
import RchProxy.Receipt.Analysis
import RchProxy.Tools.Replay

/-!
# Dating a document

The parser dates a document by the receive event that brought its first byte. The events come from
the timeline the dumper wrote, whichever way the job was published (`Published`). A document is dated
exactly when its first byte is among those of the events the job kept, and the parser, with the
limits of its own configuration, takes that many events and every line of theirs
(`document_dated_iff`).
-/

namespace RchProxy

open Py Lib

/-- The receive events of a stream. -/
def recorded (events : List (CaptureEvent × Clock)) : List Arrival :=
  events.filterMap fun
    | (.record d data receivedUnixNs forwardedUnixNs, clock) =>
      some ⟨d, data, Stream.observedAt receivedUnixNs forwardedUnixNs clock⟩
    | _ => none

/-- The jobs the dumper publishes: what they received, the job, its files and its manifest. A job is
archived as a whole, streamed while it is captured, or imported from RAW files. -/
inductive Published (config : Config) :
    List Arrival → CapturedJob → (Artifact → Bytes) → Bytes → Prop
  | archive {job : CapturedJob} {calls : List JobCall} {files : Artifact → Bytes} {code : Text}
      {names : FileNames} {status : ManifestStatus} {manifest : Bytes} (hfresh : job.Fresh)
      (hfiles : archiveFiles (JobCall.run job calls) = .ok files)
      (hmanifest : jsonBytes (.obj (captureManifest config (JobCall.run job calls) code names status
        (archiveFigures files))) = .ok manifest) :
      Published config (received calls) (JobCall.run job calls) files manifest
  | live {session : Session} {startedUnixNs : Int} {clock : Clock} {code : Text}
      {parent partialDir finalDir : Path} {events : List (CaptureEvent × Clock)} {s : Stream}
      {now : DateTime} {transport : Option TransportStatus} {names : FileNames}
      {status : ManifestStatus} {manifest : Bytes} (hconfig : session.config = config)
      (hrun : (Stream.start session startedUnixNs clock code parent partialDir finalDir).run events =
        some s)
      (hqueue : s.queue = []) (herror : s.live.syncAndClose.error = none)
      (hmanifest : jsonBytes (.obj (captureManifest config (s.job.finish now transport) code names
        status s.live.syncAndClose.live.figures)) = .ok manifest) :
      Published config (recorded events) (s.job.finish now transport)
        (fun key => s.disk key ++ output s.live.syncAndClose.writes key) manifest
  | replay {request response : Bytes} {jobId : Label} {capturedAt : DateTime}
      {captureNs monotonicNs : Int} {now : DateTime} {job : CapturedJob} {files : Artifact → Bytes}
      {code : Text} {names : FileNames} {status : ManifestStatus} {manifest : Bytes}
      (hjob : replayJob config request response jobId capturedAt captureNs monotonicNs now = .ok job)
      (hfiles : archiveFiles job = .ok files)
      (hmanifest : jsonBytes (.obj (captureManifest config job code names status
        (archiveFigures files))) = .ok manifest) :
      Published config
        (received (offlineCalls request response capturedAt captureNs monotonicNs now)) job files
        manifest

/-- What `_write_documents` does to date a document: the manifest and the timeline are read, and the
event for where the document starts is looked up. -/
def dateDocument (fromisoformat : Text → Option IsoTime) (config : Config) (manifest timeline : Bytes)
    (startOffset : Nat) : Except Error TimelineEvent := do
  match ← loadsBytes manifest with
  | .obj fields =>
    let events ← loadRequestTimeline fromisoformat timeline config.maxCaptureEvents
      (Json.get "timeline_event_count".toList fields)
    eventForOffset events startOffset
  | _ => throw (.parserJobError "capture manifest is not a JSON object")

/-! ## What is published -/

/-- What a stream does to the twin of its job are calls of the job. -/
theorem Stream.step_calls {s s' : Stream} {clock : Clock} {event : CaptureEvent}
    (h : s.step clock event = some s') :
    ∃ calls, s'.batch = JobCall.run s.batch calls ∧ received calls = recorded [(event, clock)] := by
  cases event with
  | record d data receivedUnixNs forwardedUnixNs =>
    rw [step] at h
    split at h
    · cases h
    · next hdata =>
      cases h
      refine ⟨[.append ⟨d, data, observedAt receivedUnixNs forwardedUnixNs clock⟩
        (some (s.eventSequence + 1)) (some (s.sessionOffsets d))], rfl, ?_⟩
      simp [received, recorded, JobCall.arrival?, hdata]
  | drain token completed error =>
    rw [step] at h
    split at h
    · cases h
      exact ⟨[.markLocalWriteDrain token completed clock.unixNs error], rfl, rfl⟩
    · cases h
  | execute =>
    rw [step] at h
    split at h
    · cases h
    dsimp only at h
    split at h
    · cases h
    · cases h
      exact ⟨[], rfl, rfl⟩

theorem Stream.run_calls {events : List (CaptureEvent × Clock)} {s s' : Stream}
    (h : s.run events = some s') :
    ∃ calls, s'.batch = JobCall.run s.batch calls ∧ received calls = recorded events := by
  induction events generalizing s with
  | nil =>
    cases h
    exact ⟨[], rfl, rfl⟩
  | cons event events ih =>
    obtain ⟨event, clock⟩ := event
    rw [run] at h
    split at h
    · next s₁ hstep =>
      obtain ⟨calls, hbatch, hcalls⟩ := step_calls hstep
      obtain ⟨calls', hbatch', hcalls'⟩ := ih h
      refine ⟨calls ++ calls', ?_, ?_⟩
      · rw [hbatch', hbatch, JobCall.run, JobCall.run, JobCall.run, List.foldl_append]
      · have hcons : recorded ((event, clock) :: events) =
            recorded [(event, clock)] ++ recorded events := by
          rw [recorded, ← List.singleton_append, List.filterMap_append]
          rfl
        rw [hcons, ← hcalls, ← hcalls', received, List.filterMap_append]
        rfl
    · cases h

/-- What the parser reads of a publication: a line for each event the job kept, and how many there
are. -/
structure Readable (job : CapturedJob) (timeline manifest : Bytes) : Prop where
  lines : ∃ texts, job.chunks.mapM (renderTimelineEvent · job.sessionId job.connectionId) =
    .ok texts ∧ timeline = encodeUtf8 texts.flatten
  count : ∃ fields, loadsBytes manifest = .ok (.obj fields) ∧
    Json.get "timeline_event_count".toList fields = some (.int job.chunks.length)

theorem get_timelineEventCount {config : Config} {job : CapturedJob} {code : Text} {names : FileNames}
    {status : ManifestStatus} {figures : Figures} {manifest : Bytes}
    (h : jsonBytes (.obj (captureManifest config job code names status figures)) = .ok manifest)
    (hcount : figures.timelineEventCount.getD job.chunks.length = job.chunks.length) :
    ∃ fields, loadsBytes manifest = .ok (.obj fields) ∧
      Json.get "timeline_event_count".toList fields = some (.int job.chunks.length) := by
  refine ⟨_, loadsBytes_jsonBytes h (plain_captureManifest ..), ?_⟩
  have hmem : ("timeline_event_count".toList, Json.int job.chunks.length) ∈
      captureManifest config job code names status figures := by
    refine List.mem_of_getElem? (i := 36) ?_
    rw [← hcount]
    rfl
  exact Json.get_sortKeys (captureManifest_nodup ..) hmem

theorem archive_readable {config : Config} {job : CapturedJob} {files : Artifact → Bytes}
    {code : Text} {names : FileNames} {status : ManifestStatus} {manifest : Bytes}
    (hfiles : archiveFiles job = .ok files)
    (hmanifest : jsonBytes (.obj (captureManifest config job code names status
      (archiveFigures files))) = .ok manifest) :
    Readable job (files .timeline) manifest := by
  refine ⟨?_, get_timelineEventCount hmanifest rfl⟩
  simp only [archiveFiles, renderTimelineJsonl, bind_eq_ok] at hfiles
  obtain ⟨text, ⟨texts, htexts, htext⟩, hfiles⟩ := hfiles
  cases htext
  cases hfiles
  exact ⟨texts, htexts, rfl⟩

theorem live_readable {config : Config} {s : Stream} (h : s.Linked) (hqueue : s.queue = [])
    (herror : s.live.syncAndClose.error = none) {now : DateTime} {transport : Option TransportStatus}
    {code : Text} {names : FileNames} {status : ManifestStatus} {manifest : Bytes}
    (hmanifest : jsonBytes (.obj (captureManifest config (s.job.finish now transport) code names
      status s.live.syncAndClose.live.figures)) = .ok manifest) :
    Readable (s.job.finish now transport)
      (s.disk .timeline ++ output s.live.syncAndClose.writes .timeline) manifest := by
  obtain ⟨⟨text, htext, htimeline⟩, -⟩ := h.finalized hqueue herror
  obtain ⟨hchunks, -, hsession, hconnection⟩ := s.job.finish_eq now transport
  have hcount : s.live.syncAndClose.live.timelineEvents = s.job.chunks.length := by
    rw [s.live.syncAndClose_follows.events, h.events, ← lineCount_append, htimeline,
      lineCount_renderTimelineJsonl htext]
  refine ⟨?_, get_timelineEventCount hmanifest (hcount.trans (congrArg List.length hchunks.symm))⟩
  rw [hchunks, hsession, hconnection]
  simp only [renderTimelineJsonl, bind_eq_ok] at htext
  obtain ⟨texts, htexts, htext⟩ := htext
  cases htext
  exact ⟨texts, htexts, htimeline⟩

theorem newJob_fresh (session : Session) (startedUnixNs : Int) (clock : Clock) :
    (Connection.newJob session startedUnixNs clock).Fresh :=
  ⟨rfl, fun _ => rfl, rfl⟩

/-- The job of a stream has received what its twin has. -/
theorem Stream.Linked.received {s : Stream} (h : s.Linked) {arrivals : List Arrival}
    (hbatch : s.batch.Received arrivals) : s.job.Received arrivals := by
  refine hbatch.congr (by rw [h.twin]; rfl) (by rw [h.twin]; rfl) ?_
  rw [h.twin, CapturedJob.bare, List.map_map]
  rfl

namespace Published

variable {config : Config} {arrivals : List Arrival} {job : CapturedJob} {files : Artifact → Bytes}
  {manifest : Bytes}

theorem readable (h : Published config arrivals job files manifest) :
    Readable job (files .timeline) manifest := by
  cases h with
  | archive hfresh hfiles hmanifest => exact archive_readable hfiles hmanifest
  | live hconfig hrun hqueue herror hmanifest =>
    exact live_readable (Stream.run_linked (Stream.start_linked ..) hrun) hqueue herror hmanifest
  | replay hjob hfiles hmanifest => exact archive_readable hfiles hmanifest

theorem received (h : Published config arrivals job files manifest)
    (hcomplete : job.captureComplete = true) : job.Received arrivals := by
  cases h with
  | archive hfresh hfiles hmanifest => exact JobCall.run_received hfresh _ hcomplete
  | @live session startedUnixNs clock _ _ _ _ events s now transport _ _ _ hconfig hrun =>
    obtain ⟨calls, hbatch, hcalls⟩ := Stream.run_calls hrun
    have hlinked := Stream.run_linked (Stream.start_linked ..) hrun
    have hbefore : s.batch.captureComplete = true := by
      rw [s.job.finish_captureComplete now transport, hlinked.twin] at hcomplete
      exact hcomplete
    have htwin : s.batch.Received (recorded events) := by
      rw [hbatch, ← hcalls]
      rw [hbatch] at hbefore
      exact JobCall.run_received (newJob_fresh session startedUnixNs clock) calls hbefore
    have hfinish := JobCall.apply_received (fun _ => hlinked.received htwin) (.finish now transport)
      hcomplete
    exact (List.append_nil (recorded events)) ▸ hfinish
  | replay hjob hfiles hmanifest =>
    have hjob := replayJob_eq_ok hjob
    subst hjob
    exact JobCall.run_received (offlineJob_fresh ..) _ hcomplete

end Published

/-! ## The events the parser has -/

section
variable {fromisoformat : Text → Option IsoTime}

/-- The event of a chunk has the bytes of the chunk. -/
theorem requestRange_of_chunkEvent {c : CapturedChunk} {a : Arrival} (h : c.Of a)
    {e : Option TimelineEvent} (he : chunkEvent fromisoformat c = .ok e) :
    requestRange c = e.map fun e => (e.startOffset, e.endOffset) := by
  unfold chunkEvent at he
  split at he
  · next hd =>
    rw [bind_eq_ok] at he
    obtain ⟨time, -, he⟩ := he
    cases he
    rw [requestRange, if_pos hd, h.byteCount]
    rfl
  · next hd =>
    cases he
    exact if_neg hd

/-- A chunk has an event, or none, when its time can be read. -/
theorem chunkEvent_ok {c : CapturedChunk} {a : Arrival} (h : c.Of a) :
    (∃ e, chunkEvent fromisoformat c = .ok e) ↔
      (a.direction = .clientToRch → ∃ time, timelineDatetime fromisoformat
        (some (Json.ofInt? a.observed.receivedUnixNs)) (some (.str a.observed.timestamp)) =
          .ok time) := by
  have hdated : c.dated fromisoformat = timelineDatetime fromisoformat
      (some (Json.ofInt? a.observed.receivedUnixNs)) (some (.str a.observed.timestamp)) := by
    rw [CapturedChunk.dated, h.receivedUnixNs, h.timestamp]
  unfold chunkEvent
  rw [h.direction, hdated]
  by_cases hd : a.direction = .clientToRch
  · simp only [hd, if_true, forall_const, bind_eq_ok]
    constructor
    · rintro ⟨_, time, htime, _⟩
      exact ⟨time, htime⟩
    · rintro ⟨time, htime⟩
      exact ⟨_, time, htime, rfl⟩
  · simp [hd]

variable {chunks : List CapturedChunk} {kept : List Arrival}

/-- The chunks have their events when the times of the request can be read. -/
theorem exists_events (h : List.Forall₂ CapturedChunk.Of chunks kept) :
    (∃ found, chunks.mapM (chunkEvent fromisoformat) = .ok found) ↔
      ∀ a ∈ kept, a.direction = .clientToRch →
        ∃ time, timelineDatetime fromisoformat (some (Json.ofInt? a.observed.receivedUnixNs))
          (some (.str a.observed.timestamp)) = .ok time := by
  simp only [mapM_eq_ok]
  induction h with
  | nil => exact ⟨fun _ a ha => absurd ha List.not_mem_nil, fun _ => ⟨[], .nil⟩⟩
  | cons hof _ ih =>
    rw [List.forall_mem_cons, ← chunkEvent_ok hof, ← ih]
    constructor
    · rintro ⟨found, hfound⟩
      cases hfound with
      | cons he hrest => exact ⟨⟨_, he⟩, _, hrest⟩
    · rintro ⟨⟨e, he⟩, found, hrest⟩
      exact ⟨e :: found, .cons he hrest⟩

/-- The events have the ranges of the request chunks. -/
theorem requestRanges_eq (h : List.Forall₂ CapturedChunk.Of chunks kept)
    {found : List (Option TimelineEvent)}
    (hfound : chunks.mapM (chunkEvent fromisoformat) = .ok found) :
    requestRanges chunks =
      (found.flatMap Option.toList).map fun e => (e.startOffset, e.endOffset) := by
  rw [mapM_eq_ok] at hfound
  induction h generalizing found with
  | nil =>
    cases hfound
    rfl
  | cons hof _ ih =>
    cases hfound with
    | @cons _ e _ found he hrest =>
      have ih := ih hrest
      rw [requestRanges] at ih
      rw [requestRanges, List.filterMap_cons, requestRange_of_chunkEvent hof he, List.flatMap_cons,
        List.map_append, ← ih]
      cases e <;> rfl

/-- Every event is that of a chunk. -/
theorem exists_chunk {found : List (Option TimelineEvent)}
    (hfound : chunks.mapM (chunkEvent fromisoformat) = .ok found) {e : TimelineEvent}
    (he : e ∈ found.flatMap Option.toList) :
    ∃ c ∈ chunks, chunkEvent fromisoformat c = .ok (some e) := by
  obtain ⟨e', he', he⟩ := List.mem_flatMap.mp he
  obtain ⟨c, hc, h⟩ := exists_of_forall₂ (mapM_eq_ok.mp hfound).flip he'
  rw [Option.mem_toList.mp he] at h
  exact ⟨c, hc, h⟩

section
variable {events : List TimelineEvent} {n offset : Nat}
  (h : Tiles 0 (events.map fun e => (e.startOffset, e.endOffset)) n) {sorted : List TimelineEvent}
  (hsorted : ∀ e, e ∈ sorted ↔ e ∈ events)
include h hsorted

/-- Where the events tile the front of the request, a byte of it is dated by the event that covers
it. -/
theorem eventForOffset_of_lt (hlt : offset < n) :
    ∃ e ∈ events, eventForOffset sorted offset = .ok e ∧ e.startOffset ≤ offset ∧
      offset < e.endOffset := by
  obtain ⟨r, hr, hcover⟩ := (h.covers offset).mpr ⟨Nat.zero_le _, hlt⟩
  obtain ⟨e, he, rfl⟩ := List.mem_map.mp hr
  have hsome : (sorted.find? fun e => e.startOffset ≤ offset ∧ offset < e.endOffset).isSome :=
    List.find?_isSome.mpr ⟨e, (hsorted e).mpr he, decide_eq_true hcover⟩
  obtain ⟨e', he'⟩ := Option.isSome_iff_exists.mp hsome
  have hcover' := List.find?_some he'
  rw [decide_eq_true_eq] at hcover'
  refine ⟨e', (hsorted e').mp (List.mem_of_find?_eq_some he'), ?_, hcover'⟩
  rw [eventForOffset, he']

/-- Behind the last event, no byte is dated. -/
theorem eventForOffset_of_le (hle : n ≤ offset) (e : TimelineEvent) :
    eventForOffset sorted offset ≠ .ok e := by
  have hbounds : ∀ e ∈ sorted, e.startOffset < e.endOffset ∧ e.endOffset ≤ n := by
    intro e he
    exact (h.bounds _ (List.mem_map.mpr ⟨e, (hsorted e).mp he, rfl⟩)).2
  have hcover : (sorted.find? fun e => e.startOffset ≤ offset ∧ offset < e.endOffset) = none := by
    refine List.find?_eq_none.mpr fun e he => ?_
    have := hbounds e he
    simp only [decide_eq_true_eq]
    omega
  have hlater : (sorted.find? fun e => offset ≤ e.startOffset) = none := by
    refine List.find?_eq_none.mpr fun e he => ?_
    have := hbounds e he
    simp only [decide_eq_true_eq]
    omega
  rw [eventForOffset, hcover, hlater]
  exact nofun

end

/-- The timeline of a job is read, sorted, exactly when it has events of the request, not too many,
and none that cannot be read. -/
theorem loadRequestTimeline_iff {config : Config} {job : CapturedJob} {texts : List Text}
    (h : job.chunks.mapM (renderTimelineEvent · job.sessionId job.connectionId) = .ok texts)
    (hcount : ∀ c ∈ job.chunks, 0 < c.byteCount.getD c.data.length) {events : List TimelineEvent} :
    loadRequestTimeline fromisoformat (encodeUtf8 texts.flatten) config.maxCaptureEvents
        (some (.int job.chunks.length)) = .ok events ↔
      job.chunks.length ≤ config.maxCaptureEvents ∧
      (∀ t ∈ texts, (encodeUtf8 t).length ≤ maxTimelineLineBytes) ∧
      ∃ found, job.chunks.mapM (chunkEvent fromisoformat) = .ok found ∧
        found.flatMap Option.toList ≠ [] ∧
        events = (found.flatMap Option.toList).mergeSort fun e e' =>
          e.startOffset < e'.startOffset ∨
            e.startOffset = e'.startOffset ∧ e.endOffset ≤ e'.endOffset := by
  have hloop := fun {total events} => @loadLoop_iff fromisoformat job.chunks _ _ texts h hcount
    config.maxCaptureEvents ((encodeUtf8 texts.flatten).length + 1) 0 (Nat.lt_succ_self _) total
    events
  have hconfig := config.maxCaptureEvents_range
  unfold loadRequestTimeline
  rw [if_neg (by simpa using hconfig)]
  simp only [Json.int?]
  rw [if_neg (by omega)]
  split
  · next hlt => exact ⟨by rintro ⟨⟩, fun h => absurd h.1 (by omega)⟩
  · next hlt =>
    simp only [bind_eq_ok]
    constructor
    · rintro ⟨⟨total, found⟩, hok, h⟩
      obtain ⟨rfl, -, hshort, found, hfound, rfl⟩ := hloop.mp hok
      dsimp only at h
      rw [Nat.zero_add, if_neg (not_not.mpr rfl)] at h
      by_cases hnil : found.flatMap Option.toList = []
      · rw [if_pos hnil] at h
        cases h
      · rw [if_neg hnil] at h
        cases h
        exact ⟨by omega, hshort, found, hfound, hnil, rfl⟩
    · rintro ⟨hle, hshort, found, hfound, hnil, rfl⟩
      refine ⟨(0 + job.chunks.length, found.flatMap Option.toList),
        hloop.mpr ⟨rfl, .inr (by omega), hshort, found, hfound, rfl⟩, ?_⟩
      dsimp only
      rw [Nat.zero_add, if_neg (not_not.mpr rfl), if_neg hnil]
      rfl

end

/-! ## Documents -/

/-- A document is dated by the request chunk that brought its first byte. -/
def DatedBy (fromisoformat : Text → Option IsoTime) (chunks : List CapturedChunk) (startOffset : Nat)
    (event : TimelineEvent) : Prop :=
  ∃ c ∈ chunks, chunkEvent fromisoformat c = .ok (some event) ∧ c.offset ≤ startOffset ∧
    startOffset < c.offset + c.byteCount.getD c.data.length

/-- The parser dates a document of a published job exactly when the job kept no more events than the
parser's configuration allows, every line of them is short enough, the times of the request events
can be read, and the document starts within the request bytes of these events. -/
theorem document_dated_iff (fromisoformat : Text → Option IsoTime) (config : Config)
    (arrivals : List Arrival) (job : CapturedJob) (files : Artifact → Bytes) (manifest : Bytes)
    (h : Published config arrivals job files manifest) (hcomplete : job.captureComplete = true) :
    ∀ analysis, analyzeCopies (files .requestRaw) (files .responseRaw) = .ok analysis →
    ∀ document ∈ analysis.protocol.documents,
    (∃ event, dateDocument fromisoformat config manifest (files .timeline) document.startOffset =
        .ok event ∧
      (job.timelineComplete = true →
        DatedBy fromisoformat job.chunks document.startOffset event)) ↔
      (arrivals.take job.maxCaptureEvents).length ≤ config.maxCaptureEvents ∧
      (∀ c ∈ job.chunks, ∀ line, renderTimelineEvent c job.sessionId job.connectionId = .ok line →
        (encodeUtf8 line).length ≤ maxTimelineLineBytes) ∧
      (∀ a ∈ arrivals.take job.maxCaptureEvents, a.direction = .clientToRch →
        ∃ time, timelineDatetime fromisoformat (some (Json.ofInt? a.observed.receivedUnixNs))
          (some (.str a.observed.timestamp)) = .ok time) ∧
      document.startOffset <
        bytesFrom .clientToRch (arrivals.take job.maxCaptureEvents) := by
  intro analysis _ document _
  have hreceived := h.received hcomplete
  obtain ⟨⟨texts, htexts, htimeline⟩, fields, hfields, hcount⟩ := h.readable
  have hpos : ∀ c ∈ job.chunks, 0 < c.byteCount.getD c.data.length := by
    intro c hc
    obtain ⟨a, -, hof⟩ := exists_of_forall₂ hreceived.chunks hc
    rw [hof.byteCount]
    exact List.length_pos_iff.mpr hof.data
  have hload := fun {events} => @loadRequestTimeline_iff fromisoformat config job texts htexts hpos
    events
  have hlines : (∀ c ∈ job.chunks, ∀ line,
      renderTimelineEvent c job.sessionId job.connectionId = .ok line →
        (encodeUtf8 line).length ≤ maxTimelineLineBytes) ↔
      ∀ t ∈ texts, (encodeUtf8 t).length ≤ maxTimelineLineBytes := by
    have hall := mapM_eq_ok.mp htexts
    constructor
    · intro hshort t ht
      obtain ⟨c, hc, hline⟩ := exists_of_forall₂ hall.flip ht
      exact hshort c hc t hline
    · intro hshort c hc line hline
      obtain ⟨t, ht, hline'⟩ := exists_of_forall₂ hall hc
      rw [hline] at hline'
      exact Except.ok.inj hline' ▸ hshort t ht
  rw [hlines, ← exists_events hreceived.chunks, ← hreceived.chunks.length_eq]
  simp only [dateDocument, bind_eq_ok, hfields, Except.ok.injEq, exists_eq_left', hcount, htimeline,
    hload]
  constructor
  · rintro ⟨event, ⟨events, ⟨hle, hshort, found, hfound, hnil, rfl⟩, hevent⟩, -⟩
    refine ⟨hle, hshort, ⟨found, hfound⟩, ?_⟩
    have htiles := hreceived.tiles
    rw [requestRanges_eq hreceived.chunks hfound] at htiles
    by_contra hge
    exact eventForOffset_of_le htiles (fun e => List.mem_mergeSort) (Nat.le_of_not_lt hge) event
      hevent
  · rintro ⟨hle, hshort, ⟨found, hfound⟩, hlt⟩
    have htiles := hreceived.tiles
    rw [requestRanges_eq hreceived.chunks hfound] at htiles
    have hsorted : ∀ e, e ∈ (found.flatMap Option.toList).mergeSort (fun e e' =>
        e.startOffset < e'.startOffset ∨
          e.startOffset = e'.startOffset ∧ e.endOffset ≤ e'.endOffset) ↔
        e ∈ found.flatMap Option.toList := fun e => List.mem_mergeSort
    obtain ⟨event, hmem, hevent, hcover⟩ := eventForOffset_of_lt htiles hsorted hlt
    refine ⟨event, ⟨_, ⟨hle, hshort, found, hfound, List.ne_nil_of_mem hmem, rfl⟩, hevent⟩,
      fun _ => ?_⟩
    obtain ⟨c, hc, hchunk⟩ := exists_chunk hfound hmem
    obtain ⟨a, -, hof⟩ := exists_of_forall₂ hreceived.chunks hc
    have hrange := requestRange_of_chunkEvent hof hchunk
    refine ⟨c, hc, hchunk, ?_⟩
    rw [requestRange] at hrange
    split at hrange
    · rw [hof.byteCount] at hrange ⊢
      obtain ⟨hstart, hend⟩ := Prod.mk.inj (Option.some.inj hrange)
      rw [← hstart, ← hend] at hcover
      exact hcover
    · cases hrange

namespace Published

/-- A management document that opens and closes. -/
def sampleRequest : Bytes :=
  [2, 48, 48, 48, 48, 50, 122, 61, 111, 48, 50, 56, 3] ++
    [2, 48, 48, 48, 48, 50, 122, 61, 111, 49, 50, 57, 3]

/-- The job of the sample request, replayed with a one-byte response. -/
def sampleReplay (config : Config) : Except Error CapturedJob :=
  replayJob config sampleRequest [6] (Connection.sampleSession .abort).jobId
    Connection.sampleClock.now 5 7 Connection.sampleClock.now

/-- The manifest of a sample replay. -/
def sampleManifest (config : Config) (job : CapturedJob) (files : Artifact → Bytes) : Json :=
  .obj (captureManifest config job "0001".toList ⟨[], [], []⟩ .ready (archiveFigures files))

/-- The sample replay with its files, where its manifest can be written. -/
def sampleArchive (config : Config) : Except Error (CapturedJob × (Artifact → Bytes)) := do
  let job ← sampleReplay config
  let files ← archiveFiles job
  return (job, files)

/-- A check of a sample replay that is archived. -/
theorem sampleArchive_of_check {config : Config} {check : CapturedJob → (Artifact → Bytes) → Bool}
    (h : (sampleArchive config).map (fun (job, files) =>
      (sampleManifest config job files).Writable && check job files) = .ok true) :
    ∃ job files manifest, sampleReplay config = .ok job ∧ archiveFiles job = .ok files ∧
      jsonBytes (.obj (captureManifest config job "0001".toList ⟨[], [], []⟩ .ready
        (archiveFigures files))) = .ok manifest ∧ check job files = true := by
  cases harchive : sampleArchive config with
  | error e =>
    rw [harchive] at h
    cases h
  | ok archive =>
    obtain ⟨job, files⟩ := archive
    rw [harchive] at h
    obtain ⟨hwritable, hcheck⟩ := (Bool.and_eq_true _ _).mp (Except.ok.inj h)
    simp only [sampleArchive, bind_eq_ok] at harchive
    obtain ⟨job', hjob, files', hfiles, heq⟩ := harchive
    cases heq
    obtain ⟨manifest, hmanifest⟩ := jsonBytes_ok hwritable
    exact ⟨job, files, manifest, hjob, hfiles, hmanifest, hcheck⟩

theorem sampleAnalysis : ∃ analysis document, analyzeCopies sampleRequest [6] = .ok analysis ∧
    document ∈ analysis.protocol.documents ∧ document.startOffset = 0 := by
  have hrun : (analyzeCopies sampleRequest [6]).map
      (fun a => a.protocol.documents.map (·.startOffset)) = .ok [0] := by
    decide +kernel
  cases hanalysis : analyzeCopies sampleRequest [6] with
  | error e =>
    rw [hanalysis] at hrun
    cases hrun
  | ok analysis =>
    rw [hanalysis] at hrun
    have hmap := Except.ok.inj hrun
    obtain ⟨document, hmem, hstart⟩ := List.mem_map.mp (hmap.symm ▸ List.mem_singleton_self 0)
    exact ⟨analysis, document, rfl, hmem, hstart⟩

end Published

/-- A parser that allows 16 events dates the document of the sample replay. -/
theorem document_dated_iff_sample :
    ∃ job files manifest event, Published.sampleReplay (Config.sample .abort) = .ok job ∧
      archiveFiles job = .ok files ∧
      dateDocument (fun _ => none) (Config.sample .abort) manifest (files .timeline) 0 = .ok event ∧
      DatedBy (fun _ => none) job.chunks 0 event := by
  obtain ⟨job, files, manifest, hjob, hfiles, hmanifest, hcheck⟩ :=
    @Published.sampleArchive_of_check (Config.sample .abort)
      (fun job files => decide (job.captureComplete = true ∧ job.timelineComplete = true ∧
        job.maxCaptureEvents = 65536 ∧ files .requestRaw = Published.sampleRequest ∧
        files .responseRaw = [6]) && job.chunks.all fun c =>
          (renderTimelineEvent c job.sessionId job.connectionId).toOption.all fun line =>
            decide ((encodeUtf8 line).length ≤ maxTimelineLineBytes)) (by decide +kernel)
  obtain ⟨hjobcheck, hlines⟩ := (Bool.and_eq_true _ _).mp hcheck
  obtain ⟨hcomplete, htimeline, hmax, hrequest, hresponse⟩ := of_decide_eq_true hjobcheck
  obtain ⟨analysis, document, hanalysis, hdocument, hstart⟩ := Published.sampleAnalysis
  have hiff := document_dated_iff (fun _ => none) _ _ _ _ _ (.replay hjob hfiles hmanifest) hcomplete
    analysis (by rw [hrequest, hresponse, hanalysis]) document hdocument
  rw [hmax, hstart] at hiff
  have hshort : ∀ c ∈ job.chunks, ∀ line,
      renderTimelineEvent c job.sessionId job.connectionId = .ok line →
      (encodeUtf8 line).length ≤ maxTimelineLineBytes := by
    intro c hc line hline
    have hshort := List.all_eq_true.mp hlines c hc
    rw [hline] at hshort
    exact of_decide_eq_true hshort
  obtain ⟨event, hevent, hdated⟩ := hiff.mpr ⟨by decide, hshort, by
    intro a ha _
    have harrivals : (received (offlineCalls Published.sampleRequest [6] Connection.sampleClock.now 5 7
        Connection.sampleClock.now)).take 65536 =
        [⟨.clientToRch, Published.sampleRequest, offlineObserved Connection.sampleClock.now 5 7⟩,
          ⟨.rchToClient, [6], offlineObserved Connection.sampleClock.now 6 7⟩] := rfl
    rw [harrivals] at ha
    rcases List.mem_pair.mp ha with rfl | rfl
    · exact ⟨(0, some 5), rfl⟩
    · exact ⟨(0, some 6), rfl⟩, by decide⟩
  exact ⟨job, files, manifest, event, hjob, hfiles, hevent, hdated htimeline⟩

/-- A replay keeps both directions as events of its job, whatever the limit of the parser is. -/
theorem replay_undated :
    let config := { Config.sample .abort with
      maxCaptureEvents := 1
      maxCaptureEvents_range := by decide }
    ∃ job files manifest analysis document, Published.sampleReplay config = .ok job ∧
      archiveFiles job = .ok files ∧
      jsonBytes (.obj (captureManifest config job "0001".toList ⟨[], [], []⟩ .ready
        (archiveFigures files))) = .ok manifest ∧
      job.captureComplete = true ∧ job.timelineComplete = true ∧
      analyzeCopies (files .requestRaw) (files .responseRaw) = .ok analysis ∧
      document ∈ analysis.protocol.documents ∧
      ∀ fromisoformat event, dateDocument fromisoformat config manifest (files .timeline)
        document.startOffset ≠ .ok event := by
  intro config
  obtain ⟨job, files, manifest, hjob, hfiles, hmanifest, hcheck⟩ :=
    @Published.sampleArchive_of_check config
      (fun job files => decide (job.captureComplete = true ∧ job.timelineComplete = true ∧
        job.chunks.length = 2 ∧ files .requestRaw = Published.sampleRequest ∧
        files .responseRaw = [6])) (by decide +kernel)
  obtain ⟨hcomplete, htimeline, hlength, hrequest, hresponse⟩ := of_decide_eq_true hcheck
  obtain ⟨analysis, document, hanalysis, hdocument, -⟩ := Published.sampleAnalysis
  refine ⟨job, files, manifest, analysis, document, hjob, hfiles, hmanifest, hcomplete, htimeline,
    by rw [hrequest, hresponse, hanalysis], hdocument, fun fromisoformat event => ?_⟩
  obtain ⟨fields, hfields, hcount⟩ := get_timelineEventCount hmanifest rfl
  obtain ⟨e, hload⟩ : ∃ e, loadRequestTimeline fromisoformat (files .timeline)
      config.maxCaptureEvents (some (.int job.chunks.length)) = .error e := by
    have hmax : config.maxCaptureEvents = 1 := rfl
    rw [hlength, hmax, loadRequestTimeline, if_neg (by decide)]
    simp only [Json.int?]
    rw [if_neg (by decide), if_pos (by decide)]
    exact ⟨_, rfl⟩
  rw [dateDocument, hfields]
  simp only [bind, Except.bind, hcount, hload]
  rintro ⟨⟩

end RchProxy
