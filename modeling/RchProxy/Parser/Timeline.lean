import RchProxy.Storage.Manifest

/-!
# Reading the timeline

How the parser worker reads a receive timeline back (`_load_request_timeline`) and dates a document
by it (`_event_for_offset`). What the dumper writes for a chunk is read back as that chunk's event
(`timelineEvent_render`), so a timeline is accepted exactly when it has at most as many events as the
configuration allows, no line is too long and every request event can be dated
(`loadLoop_iff`).
-/

namespace RchProxy

open Py Lib

/-- `_TimelineEvent`. The time of reception is in microseconds since the epoch. -/
structure TimelineEvent where
  startOffset : Nat
  endOffset : Nat
  receivedAt : Int
  receivedUnixNs : Option Int
  deriving DecidableEq, Repr

/-- What `datetime.fromisoformat` reads: an instant, in microseconds since the epoch, and whether the
text names a time zone. -/
structure IsoTime where
  instant : Int
  aware : Bool
  deriving DecidableEq, Repr

/-- `_MAX_TIMELINE_LINE_BYTES`. -/
abbrev maxTimelineLineBytes : Nat := 64 * 1024

/-- `MAX_CAPTURE_EVENTS_UPPER_BOUND`. -/
abbrev maxCaptureEventsUpperBound : Nat := 100000

/-- The last second `datetime` knows, at the end of the year 9999. -/
abbrev maxTimestamp : Int := 253402300799

/-- `stream.readline(limit)`: the line, and what follows it. -/
def readline (limit : Nat) (data : Bytes) : Bytes × Bytes :=
  let n := min limit ((data.takeWhile (· != 10)).length + 1)
  (data.take n, data.drop n)

/-- `value.replace("Z", "+00:00")`. -/
def withOffset (value : Text) : Text :=
  value.flatMap fun c => if c = 'Z' then "+00:00".toList else [c]

section
variable (fromisoformat : Text → Option IsoTime)

/-- `_timeline_datetime`, for `value.get("received_unix_ns")` and `value.get("received_at")`. -/
def timelineDatetime (unixNs receivedAt : Option Json) : Except Error (Int × Option Int) :=
  let byText : Except Error (Int × Option Int) :=
    match Json.text? receivedAt with
    | none => .error (.parserJobError "request timeline event has no capture timestamp")
    | some text =>
      match fromisoformat (withOffset text) with
      | none => .error (.parserJobError "request timeline event has an invalid capture timestamp")
      | some time =>
        if time.aware then .ok (time.instant, none)
        else .error (.parserJobError "request timeline timestamp has no timezone")
  match Json.int? unixNs with
  | some n =>
    if 0 ≤ n then
      if n / 1000000000 ≤ maxTimestamp then .ok (n / 1000, some n)
      else .error (.valueError "year is out of range")
    else byText
  | none => byText

/-- The request event of a parsed line, if it is one. -/
def eventOfFields (lineNumber : Nat) (value : List (Text × Json)) :
    Except Error (Option TimelineEvent) :=
  if Json.text? (Json.get "direction".toList value) ≠ some (StreamDirection.text .clientToRch) then
    .ok none
  else
    let offset := (Json.get "job_offset".toList value).or (Json.get "session_offset".toList value)
    match Json.int? offset, Json.int? (Json.get "byte_count".toList value) with
    | some offset, some length =>
      if offset < 0 ∨ length ≤ 0 then
        .error (.parserJobError s!"invalid request offset in timeline line {lineNumber}")
      else do
        let (receivedAt, unixNs) ← timelineDatetime fromisoformat
          (Json.get "received_unix_ns".toList value) (Json.get "received_at".toList value)
        return some
          { startOffset := offset.toNat
            endOffset := (offset + length).toNat
            receivedAt := receivedAt
            receivedUnixNs := unixNs }
    | _, _ => .error (.parserJobError s!"invalid request offset in timeline line {lineNumber}")

/-- One line of `_load_request_timeline`: its request event, if it is one. -/
def timelineEvent (lineNumber : Nat) (rawLine : Bytes) : Except Error (Option TimelineEvent) :=
  match loadsBytes rawLine with
  | .ok (.obj value) => eventOfFields fromisoformat lineNumber value
  | .ok _ => .error (.parserJobError s!"timeline line {lineNumber} is not a JSON object")
  | .error (.unicodeDecodeError _) | .error .jsonDecodeError =>
    .error (.parserJobError s!"malformed timeline JSON at line {lineNumber}")
  | .error e => .error e

/-- The loop of `_load_request_timeline`: how many lines there are, and their request events. Every
line takes a byte, so the length of the file is fuel enough. -/
def loadLoop (maxEvents : Nat) : Nat → Nat → Bytes → Except Error (Nat × List TimelineEvent)
  | 0, eventCount, _ => .ok (eventCount, [])
  | fuel + 1, eventCount, data =>
    let (rawLine, rest) := readline (maxTimelineLineBytes + 1) data
    if rawLine = [] then .ok (eventCount, [])
    else if maxEvents < eventCount + 1 then
      .error (.parserJobError s!"timeline event limit {maxEvents} exceeded")
    else if maxTimelineLineBytes < rawLine.length then
      .error (.parserJobError
        s!"timeline line {eventCount + 1} exceeds {maxTimelineLineBytes} bytes")
    else do
      let event ← timelineEvent fromisoformat (eventCount + 1) rawLine
      let (total, events) ← loadLoop maxEvents fuel (eventCount + 1) rest
      return (total, event.toList ++ events)

/-- `_load_request_timeline`, of the contents of the file. -/
def loadRequestTimeline (data : Bytes) (maxEvents : Nat) (expectedEventCount : Option Json) :
    Except Error (List TimelineEvent) :=
  if ¬ (1 ≤ maxEvents ∧ maxEvents ≤ maxCaptureEventsUpperBound) then
    .error (.parserJobError (s!"invalid configured timeline event limit {maxEvents}; " ++
      s!"expected 1-{maxCaptureEventsUpperBound}"))
  else
    match Json.int? expectedEventCount with
    | none => .error (.parserJobError "capture manifest has an invalid timeline_event_count")
    | some expected =>
      if expected < 0 then
        .error (.parserJobError "capture manifest has an invalid timeline_event_count")
      else if (maxEvents : Int) < expected then
        .error (.parserJobError (s!"capture manifest declares {expected} timeline events, " ++
          s!"exceeding configured limit {maxEvents}"))
      else do
        let (eventCount, events) ← loadLoop fromisoformat maxEvents (data.length + 1) 0 data
        if (eventCount : Int) ≠ expected then
          throw (.parserJobError
            s!"timeline event count mismatch: manifest={expected}, file={eventCount}")
        if events = [] then
          throw (.parserJobError "timeline contains no timestamped request event")
        return events.mergeSort fun e e' =>
          e.startOffset < e'.startOffset ∨
            e.startOffset = e'.startOffset ∧ e.endOffset ≤ e'.endOffset

end

/-- `_event_for_offset`. A document can open exactly where a chunk was received: the first later
request event is taken then. -/
def eventForOffset (events : List TimelineEvent) (offset : Nat) : Except Error TimelineEvent :=
  match events.find? fun e => e.startOffset ≤ offset ∧ offset < e.endOffset with
  | some event => .ok event
  | none =>
    match events.find? fun e => offset ≤ e.startOffset with
    | some event => .ok event
    | none =>
      .error (.parserJobError s!"no request timeline event covers document offset {offset}")

/-! ## Reading back what the dumper wrote -/

/-- The keys of a timeline line are distinct. -/
theorem timelineFields_nodup (chunk : CapturedChunk) (sessionId connectionId : Label) :
    ((timelineFields chunk sessionId connectionId).map (·.1)).Nodup := by
  simp only [timelineFields, List.map_cons, List.map_nil]
  decide

section
variable (fromisoformat : Text → Option IsoTime)

/-- When a chunk was received, as the parser dates it. -/
def CapturedChunk.dated (chunk : CapturedChunk) : Except Error (Int × Option Int) :=
  timelineDatetime fromisoformat (some (Json.ofInt? chunk.receivedUnixNs))
    (some (.str chunk.timestamp))

/-- The event of a chunk. -/
def chunkEvent (chunk : CapturedChunk) : Except Error (Option TimelineEvent) :=
  if chunk.direction = .clientToRch then do
    let (receivedAt, unixNs) ← chunk.dated fromisoformat
    return some
      { startOffset := chunk.offset
        endOffset := chunk.offset + chunk.byteCount.getD chunk.data.length
        receivedAt := receivedAt
        receivedUnixNs := unixNs }
  else .ok none

theorem sortKeys_ofInt? (n : Option Int) : (Json.ofInt? n).sortKeys = Json.ofInt? n := by
  cases n <;> rfl

/-- What the parser finds under the key of a field. -/
theorem get_timelineFields (chunk : CapturedChunk) (sessionId connectionId : Label) {key : Text}
    {v : Json} (i : Nat) (h : (timelineFields chunk sessionId connectionId)[i]? = some (key, v)) :
    Json.get key (Json.sortPairs (Json.sortFields (timelineFields chunk sessionId connectionId))) =
      some v.sortKeys :=
  Json.get_sortKeys (timelineFields_nodup chunk sessionId connectionId) (List.mem_of_getElem? h)

theorem eventOfFields_timelineFields {chunk : CapturedChunk} (sessionId connectionId : Label)
    (hcount : 0 < chunk.byteCount.getD chunk.data.length) (lineNumber : Nat) :
    eventOfFields fromisoformat lineNumber
        (Json.sortPairs (Json.sortFields (timelineFields chunk sessionId connectionId))) =
      chunkEvent fromisoformat chunk := by
  have hdirection := get_timelineFields chunk sessionId connectionId 6 rfl
  have hoffset := get_timelineFields chunk sessionId connectionId 7 rfl
  have hbytes := get_timelineFields chunk sessionId connectionId 9 rfl
  have hunixNs := get_timelineFields chunk sessionId connectionId 2 rfl
  have hreceived := get_timelineFields chunk sessionId connectionId 1 rfl
  rw [sortKeys_ofInt?] at hunixNs
  unfold eventOfFields
  rw [hdirection, hoffset, hbytes, hunixNs, hreceived]
  simp only [Json.sortKeys, Json.text?, Json.int?, Option.some_or, chunkEvent]
  cases hd : chunk.direction with
  | rchToClient => rfl
  | clientToRch =>
    have hpos : ¬ ((chunk.offset : Int) < 0 ∨
        ((chunk.byteCount.getD chunk.data.length : Nat) : Int) ≤ 0) := by omega
    simp only [ne_eq, not_true_eq_false, if_false, if_true, hpos]
    rfl

/-- A line of the dumper is read as the event of its chunk. -/
theorem timelineEvent_render {chunk : CapturedChunk} {sessionId connectionId : Label} {line : Text}
    (h : renderTimelineEvent chunk sessionId connectionId = .ok line)
    (hcount : 0 < chunk.byteCount.getD chunk.data.length) (lineNumber : Nat) :
    timelineEvent fromisoformat lineNumber (encodeUtf8 line) = chunkEvent fromisoformat chunk := by
  simp only [renderTimelineEvent, bind_eq_ok] at h
  obtain ⟨t, ht, h⟩ := h
  cases h
  have hspace : ∀ c ∈ ['\n'], Json.isSpace c := by
    intro c hc
    rw [List.mem_singleton.mp hc]
    decide
  have hloads := Json.loads_dumps ht (plain_timelineFields chunk sessionId connectionId) hspace
  have hbytes : loadsBytes (encodeUtf8 (t ++ ['\n'])) =
      .ok (Json.obj (timelineFields chunk sessionId connectionId)).sortKeys := by
    rw [loadsBytes, decodeUtf8_encodeUtf8, ← hloads]
    rfl
  unfold timelineEvent
  rw [hbytes]
  exact eventOfFields_timelineFields fromisoformat sessionId connectionId hcount lineNumber

/-- An event is rendered as one line: the newline is its last byte, and no other. -/
theorem renderTimelineEvent_line {chunk : CapturedChunk} {sessionId connectionId : Label}
    {line : Text} (h : renderTimelineEvent chunk sessionId connectionId = .ok line) :
    ∃ front, encodeUtf8 line = front ++ [10] ∧ (10 : UInt8) ∉ front := by
  have hcount := lineCount_renderTimelineEvent h
  simp only [renderTimelineEvent, bind_eq_ok] at h
  obtain ⟨t, -, h⟩ := h
  cases h
  have hnewline : encodeUtf8 ['\n'] = [10] := by decide
  rw [encodeUtf8_append, hnewline] at hcount ⊢
  refine ⟨encodeUtf8 t, rfl, fun hmem => ?_⟩
  have hpos := List.count_pos_iff.mpr hmem
  rw [lineCount_append] at hcount
  simp only [lineCount, List.count_singleton_self] at hcount
  omega

theorem takeWhile_line {front : Bytes} (h : (10 : UInt8) ∉ front) (rest : Bytes) :
    (front ++ [10] ++ rest).takeWhile (· != 10) = front := by
  rw [List.append_assoc, List.takeWhile_append_of_pos, List.singleton_append,
    List.takeWhile_cons_of_neg (by decide), List.append_nil]
  intro b hb
  exact bne_iff_ne.mpr fun heq => h (heq ▸ hb)

theorem readline_line {front rest : Bytes} (h : (10 : UInt8) ∉ front) {limit : Nat}
    (hlimit : front.length + 1 ≤ limit) :
    readline limit (front ++ [10] ++ rest) = (front ++ [10], rest) := by
  have hn : min limit (front.length + 1) = (front ++ [10]).length := by
    rw [List.length_append, List.length_singleton]
    omega
  unfold readline
  rw [takeWhile_line h, hn]
  dsimp only
  rw [List.take_left, List.drop_left]

theorem readline_long {front rest : Bytes} (h : (10 : UInt8) ∉ front) {limit : Nat}
    (hlimit : limit ≤ front.length + 1) :
    (readline limit (front ++ [10] ++ rest)).1.length = limit := by
  unfold readline
  rw [takeWhile_line h]
  simp only [List.length_take, List.length_append, List.length_singleton]
  omega

/-- One round of the loop, on a line. -/
theorem loadLoop_line {front rest : Bytes} (h : (10 : UInt8) ∉ front) {maxEvents fuel eventCount : Nat}
    {total : Nat} {events : List TimelineEvent} :
    loadLoop fromisoformat maxEvents (fuel + 1) eventCount (front ++ [10] ++ rest) =
        .ok (total, events) ↔
      eventCount + 1 ≤ maxEvents ∧ (front ++ [10]).length ≤ maxTimelineLineBytes ∧
      ∃ event more, timelineEvent fromisoformat (eventCount + 1) (front ++ [10]) = .ok event ∧
        loadLoop fromisoformat maxEvents fuel (eventCount + 1) rest = .ok (total, more) ∧
        events = event.toList ++ more := by
  rw [loadLoop]
  by_cases hlong : maxTimelineLineBytes < (front ++ [10]).length
  · -- the bounded `readline` stops one byte behind the limit
    have hlimit : maxTimelineLineBytes + 1 ≤ front.length + 1 := by
      rw [List.length_append, List.length_singleton] at hlong
      exact hlong
    have hread := @readline_long front rest h _ hlimit
    generalize readline (maxTimelineLineBytes + 1) (front ++ [10] ++ rest) = read at hread ⊢
    have hne : read.1 ≠ [] := by
      intro hnil
      rw [hnil] at hread
      cases hread
    dsimp only
    rw [if_neg hne]
    refine ⟨fun hok => ?_, fun ⟨_, hle, _⟩ => absurd hle (by omega)⟩
    split at hok
    · cases hok
    · rw [if_pos (by omega)] at hok
      cases hok
  · rw [readline_line h (by simp at hlong; omega)]
    dsimp only
    rw [if_neg (by simp), if_neg hlong]
    split
    · next hmax => exact ⟨nofun, fun ⟨hle, _⟩ => absurd hle (by omega)⟩
    · next hmax =>
      simp only [bind_eq_ok]
      constructor
      · rintro ⟨event, hevent, ⟨total', more⟩, hmore, heq⟩
        cases heq
        exact ⟨by omega, by omega, event, more, hevent, hmore, rfl⟩
      · rintro ⟨-, -, event, more, hevent, hmore, rfl⟩
        exact ⟨event, hevent, _, hmore, rfl⟩

/-- The loop accepts the lines of some chunks exactly when they are not too many, none is too long
and every request event among them can be dated; it has their events then. -/
theorem loadLoop_iff {chunks : List CapturedChunk} {sessionId connectionId : Label}
    {texts : List Text} (h : chunks.mapM (renderTimelineEvent · sessionId connectionId) = .ok texts)
    (hcount : ∀ c ∈ chunks, 0 < c.byteCount.getD c.data.length) {maxEvents fuel eventCount : Nat}
    (hfuel : (encodeUtf8 texts.flatten).length < fuel) {total : Nat} {events : List TimelineEvent} :
    loadLoop fromisoformat maxEvents fuel eventCount (encodeUtf8 texts.flatten) =
        .ok (total, events) ↔
      total = eventCount + chunks.length ∧ (chunks = [] ∨ total ≤ maxEvents) ∧
      (∀ t ∈ texts, (encodeUtf8 t).length ≤ maxTimelineLineBytes) ∧
      ∃ found, chunks.mapM (chunkEvent fromisoformat) = .ok found ∧
        events = found.flatMap Option.toList := by
  induction chunks generalizing texts fuel eventCount events with
  | nil =>
    cases h
    obtain ⟨fuel, rfl⟩ : ∃ n, fuel = n + 1 := ⟨fuel - 1, by simp at hfuel; omega⟩
    simp [encodeUtf8, loadLoop, readline, pure, Except.pure, eq_comm]
  | cons c chunks ih =>
    rw [List.mapM_cons, bind_eq_ok] at h
    obtain ⟨t, ht, h⟩ := h
    rw [bind_eq_ok] at h
    obtain ⟨ts, hts, h⟩ := h
    cases h
    obtain ⟨front, hfront, hnewline⟩ := renderTimelineEvent_line ht
    have hevent := timelineEvent_render fromisoformat ht (hcount c List.mem_cons_self)
      (eventCount + 1)
    rw [List.flatten_cons, encodeUtf8_append] at hfuel ⊢
    obtain ⟨fuel, rfl⟩ : ∃ n, fuel = n + 1 := ⟨fuel - 1, by omega⟩
    have hrest : (encodeUtf8 ts.flatten).length < fuel := by
      rw [List.length_append, hfront, List.length_append, List.length_singleton] at hfuel
      omega
    have ih' := fun {events} => @ih ts hts (fun c hc => hcount c (List.mem_cons_of_mem _ hc)) fuel
      (eventCount + 1) hrest events
    rw [hfront, loadLoop_line fromisoformat hnewline, ← hfront, hevent, List.mapM_cons]
    simp only [ih', List.mem_cons, forall_eq_or_imp, List.length_cons, bind_eq_ok]
    constructor
    · rintro ⟨hle, hshort, event, more, hok, ⟨rfl, hmax, hmore, found, hfound, rfl⟩, rfl⟩
      refine ⟨by omega, .inr ?_, ⟨hshort, hmore⟩, event :: found, ⟨event, hok, found, hfound, rfl⟩, ?_⟩
      · rcases hmax with rfl | hmax
        · exact hle
        · exact hmax
      · rw [List.flatMap_cons]
    · rintro ⟨rfl, hmax, ⟨hshort, hmore⟩, found, ⟨event, hok, found', hfound, heq⟩, rfl⟩
      cases heq
      have hmax := hmax.resolve_left (List.cons_ne_nil _ _)
      refine ⟨by omega, hshort, event, _, hok, ⟨by omega, .inr hmax, hmore, found', hfound, rfl⟩, ?_⟩
      rw [List.flatMap_cons]

end

end RchProxy
