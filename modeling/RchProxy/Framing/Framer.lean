import RchProxy.Framing.Basic

/-!
# `RCHStreamFramer`

The incremental framer, method by method. Its attributes are split in two: what the framer has
recorded so far (`FramerLog`) and the buffer it reads from (`Framer`). `_process` reads the buffer
only at `_cursor + i`, so its reads go through `buffered` (`buffered_bytes` in the source).
-/

namespace RchProxy

open Py

/-- What a framer has recorded: its counters, its events and its diagnostics. -/
structure FramerLog where
  bufferOffset : Nat := 0
  eventCount : Nat := 0
  frameCount : Nat := 0
  ackCount : Nat := 0
  events : List StreamEvent := []
  issues : List FramingIssue := []
  eventsTruncated : Bool := false
  omittedIssueCount : Nat := 0
  deriving DecidableEq, Repr

/-- The mutable attributes of `RCHStreamFramer`. -/
structure Framer extends FramerLog where
  buffer : Bytes := []
  cursor : Nat := 0
  bytesSeen : Nat := 0
  finished : Bool := false
  deriving DecidableEq, Repr

/-! ## Recording -/

namespace FramerLog

variable (lim : FramerLimits)

/-- `_append_issue`. -/
def appendIssue (l : FramerLog) (i : FramingIssue) : FramerLog :=
  if l.issues.length < lim.maxIssues then { l with issues := l.issues ++ [i] }
  else { l with omittedIssueCount := l.omittedIssueCount + 1 }

/-- `_note_event_limit`. -/
def noteEventLimit (l : FramerLog) (streamOffset : Nat) : FramerLog :=
  if l.eventsTruncated then l
  else
    { l with eventsTruncated := true }.appendIssue lim
      { code := .eventLimitExceeded
        streamOffset := streamOffset
        raw := []
        detail := s!"more than {lim.maxEvents} stream events observed; " ++
          "additional parsed events were not retained"
        spanLength := 0 }

/-- `_append_event`. -/
def appendEvent (l : FramerLog) (e : StreamEvent) : FramerLog :=
  if l.events.length < lim.maxEvents then { l with events := l.events ++ [e] }
  else l.noteEventLimit lim e.streamOffset

/-- `_finalize_omitted_issues`, with `bytes_seen` for the offset of the summary. -/
def finalizeOmittedIssues (l : FramerLog) (bytesSeen : Nat) : FramerLog :=
  if l.omittedIssueCount = 0 then l
  else
    let summary : FramingIssue :=
      { code := .issueLimitExceeded
        streamOffset := bytesSeen
        raw := []
        detail := s!"{l.omittedIssueCount} additional framing issue(s) omitted " ++
          "by the diagnostic limit"
        spanLength := 0 }
    if lim.maxIssues ≤ l.issues.length then
      { l with issues := l.issues.dropLast ++ [summary] }
    else { l with issues := l.issues ++ [summary] }

end FramerLog

/-! ## Reading the buffer -/

namespace Framer

/-- `buffered_bytes`. -/
def buffered (f : Framer) : Bytes := f.buffer.drop f.cursor

/-- `_available`. -/
def available (f : Framer) : Nat := f.buffer.length - f.cursor

/-- The common end of `_consume` and `_issue`: step over `count` bytes, and drop a buffer that has
been read to its end. -/
def advance (f : Framer) (count : Nat) : Framer :=
  if f.cursor + count = f.buffer.length then
    { f with buffer := [], cursor := 0, bufferOffset := f.bufferOffset + count }
  else { f with cursor := f.cursor + count, bufferOffset := f.bufferOffset + count }

/-- `_consume`. -/
def consume (f : Framer) (count : Nat) : Bytes × Framer :=
  (f.buffered.take count, f.advance count)

/-- `_issue`. -/
def issue (lim : FramerLimits) (f : Framer) (code : IssueCode) (count : Nat) (detail : String) :
    Framer :=
  let log :=
    if f.issues.length < lim.maxIssues then
      f.toFramerLog.appendIssue lim
        { code := code
          streamOffset := f.bufferOffset
          raw := f.buffered.take (min count lim.maxIssueRawBytes)
          detail := detail
          spanLength := count }
    else { f.toFramerLog with omittedIssueCount := f.omittedIssueCount + 1 }
  { f with toFramerLog := log }.advance count

end Framer

/-- The byte opens a unit: `STX` or `ACK`. -/
def isControl (b : UInt8) : Bool := b == STX || b == ACK

/-- `_next_control`: the first control byte at or after `start`. -/
def nextControl (w : Bytes) (start : Nat) : Option Nat :=
  ((w.drop start).findIdx? isControl).map (start + ·)

/-- `_PLAUSIBLE_CONTROL_RE` at the start of `w`: an `ACK`, or an `STX` and five digits. -/
def plausibleHere : Bytes → Bool
  | [] => false
  | b :: w => b == ACK || (b == STX && 5 ≤ w.length && (w.take 5).all isDigit)

/-- `_PLAUSIBLE_CONTROL_RE.search`: the first position the pattern matches at. -/
def plausibleSearch : Bytes → Option Nat
  | [] => none
  | b :: w => if plausibleHere (b :: w) then some 0 else (plausibleSearch w).map (· + 1)

/-- `w.rfind(bytes((STX,)), start)`. -/
def rfindStx : Bytes → Nat → Option Nat
  | [], _ => none
  | b :: w, start =>
    match rfindStx w (start - 1) with
    | some i => some (i + 1)
    | none => if start = 0 && b == STX then some 0 else none

/-- `_next_plausible_control`: the first `ACK` or `STX` with a decimal header at or after `start`,
else the last `STX` of the final five bytes, whose header may still arrive. -/
def nextPlausibleControl (w : Bytes) (start : Nat) : Option Nat :=
  match plausibleSearch (w.drop start) with
  | some i => some (start + i)
  | none => rfindStx w (max start (w.length - 5))

namespace Framer

/-- `_reject_candidate`. -/
def rejectCandidate (lim : FramerLimits) (f : Framer) (code : IssueCode) (detail : String)
    (plausibleOnly : Bool) : Framer :=
  let next := if plausibleOnly then nextPlausibleControl f.buffered 1 else nextControl f.buffered 1
  f.issue lim code (next.getD f.available) detail

/-- `bcc_syntax_valid`. -/
def bccSyntaxValid (bcc : Bytes) : Bool :=
  bcc.length == 2 && bcc.all fun b => "0123456789abcdefABCDEF".toList.contains (Char.ofNat b.toNat)

/-- `bcc_valid`. -/
def bccMatches (bcc : Bytes) (expected : Text) : Bool :=
  bccSyntaxValid bcc && (asciiReplace bcc).map Char.toUpper == expected

/-- The `detail` of an `invalid_bcc` issue. -/
def bccDetail (bcc : Bytes) (expected : Text) : String :=
  if !bccSyntaxValid bcc then
    "BCC field " ++ String.ofList (Py.repr (asciiReplace bcc)) ++ " is not two hexadecimal digits"
  else
    "observed BCC " ++ String.ofList ((asciiReplace bcc).map Char.toUpper) ++
      " does not match calculated " ++ String.ofList expected

/-- The branch of `_process` for a complete frame of `dataLength` data bytes at the cursor. -/
def acceptFrame (lim : FramerLimits) (f : Framer) (dataLength : Nat) : Framer :=
  let w := f.buffered
  let expectedSize := dataLength + frameOverhead
  let bccBytes := (w.drop (expectedSize - 3)).take 2
  let expectedBcc := hex2 (calculateBcc (w.take (expectedSize - 3)))
  let bccValid := bccMatches bccBytes expectedBcc
  let offset := f.bufferOffset
  let f := { f with eventCount := f.eventCount + 1, frameCount := f.frameCount + 1 }
  let retainEvent := f.events.length < lim.maxEvents
  let raw := if retainEvent || !bccValid then w.take expectedSize else []
  let f := f.advance expectedSize
  let log :=
    if retainEvent then
      f.toFramerLog.appendEvent lim <| .frame
        { eventId := f.eventCount
          frameId := f.frameCount
          streamOffset := offset
          raw := raw
          address := asciiReplace ((w.drop 1).take 2)
          dataLength := dataLength
          frameClass := Char.ofNat (w.getD 6 0).toNat
          data := (raw.drop 7).take dataLength
          sequence := Char.ofNat (w.getD (7 + dataLength) 0).toNat
          bcc := asciiReplace bccBytes
          expectedBcc := expectedBcc
          bccValid := bccValid }
    else f.toFramerLog.noteEventLimit lim offset
  let log :=
    if bccValid then log
    else log.appendIssue lim
      { code := .invalidBcc
        streamOffset := offset
        raw := raw.take lim.maxIssueRawBytes
        detail := bccDetail bccBytes expectedBcc
        spanLength := expectedSize }
  { f with toFramerLog := log }

/-- The branch of `_process` for an `ACK` at the cursor. Past the event limit a whole run of `ACK`
bytes is consumed at once. -/
def acceptAck (lim : FramerLimits) (f : Framer) : Framer :=
  let offset := f.bufferOffset
  if lim.maxEvents ≤ f.events.length then
    let runLength := (f.buffered.takeWhile (· == ACK)).length
    let f := f.advance runLength
    let f := { f with eventCount := f.eventCount + runLength, ackCount := f.ackCount + runLength }
    { f with toFramerLog := f.toFramerLog.noteEventLimit lim offset }
  else
    let (raw, f) := f.consume 1
    let f := { f with eventCount := f.eventCount + 1, ackCount := f.ackCount + 1 }
    { f with
      toFramerLog := f.toFramerLog.appendEvent lim
        (.ack { eventId := f.eventCount, streamOffset := offset, raw := raw }) }

/-- One turn of the loop of `_process` on a buffer that is not empty: the new state, and whether the
loop goes on (`continue`) or ends (`break`). -/
def processStep (lim : FramerLimits) (final : Bool) (f : Framer) : Framer × Bool :=
  let w := f.buffered
  let first := w.headD 0
  if first == ACK then (f.acceptAck lim, true)
  else if first != STX then
    let count := (nextControl w 1).getD f.available
    (f.issue lim .unframedBytes count "bytes outside an STX frame or standalone ACK", true)
  else if f.available < 6 then
    (if final then
      f.issue lim .truncatedFrame f.available "stream ended inside the fixed frame header"
     else f, false)
  else
    let addressBytes := (w.drop 1).take 2
    let lengthBytes := (w.drop 3).take 3
    if !(bytesIsDigit addressBytes && bytesIsDigit lengthBytes) then
      (f.rejectCandidate lim .malformedHeader "AA and LLL must be ASCII decimal digits" true, true)
    else
      let dataLength := intOfDigits lengthBytes
      let expectedSize := dataLength + frameOverhead
      if lim.maxDataLength < dataLength then
        (f.rejectCandidate lim .oversizeFrame
          (s!"declared data length {dataLength} exceeds configured limit {lim.maxDataLength}")
          false, true)
      else if f.available < expectedSize then
        (if final then
          f.issue lim .truncatedFrame f.available
            (s!"declared frame size {expectedSize} bytes but only {f.available} remain")
         else f, false)
      else if w.getD (expectedSize - 1) 0 != ETX then
        (f.rejectCandidate lim .invalidTerminator
          (s!"expected ETX at relative offset {expectedSize - 1}") false, true)
      else (f.acceptFrame lim dataLength, true)

/-- `while self._available: ...`, for at most `fuel` turns. -/
def processLoop (lim : FramerLimits) (final : Bool) : Nat → Framer → Framer
  | 0, f => f
  | fuel + 1, f =>
    if f.available = 0 then f
    else
      let (f', continues) := f.processStep lim final
      if continues then processLoop lim final fuel f' else f'

/-- `_process`. A turn that goes on consumes a byte, so `available` turns are enough
(`process_eq`). -/
def process (lim : FramerLimits) (final : Bool) (f : Framer) : Framer :=
  processLoop lim final f.available f

/-! ## Feeding -/

/-- One turn of the loop of `feed`: make room, take a slice of `view` and process it. The result is
the new state and the number of bytes taken. -/
def feedSlice (lim : FramerLimits) (f : Framer) (view : Bytes) : Framer × Nat :=
  let f :=
    if f.available = 0 then { f with buffer := [], cursor := 0, bufferOffset := f.bytesSeen }
    else if f.cursor ≠ 0 then { f with buffer := f.buffer.drop f.cursor, cursor := 0 }
    else f
  let capacity := lim.maxBufferBytes - f.available
  let (f, capacity) :=
    if capacity = 0 then
      (f.issue lim .bufferLimitExceeded f.available "framing buffer made no progress",
        lim.maxBufferBytes)
    else (f, capacity)
  let count := min capacity view.length
  let f := { f with buffer := f.buffer ++ view.take count, bytesSeen := f.bytesSeen + count }
  (f.process lim false, count)

/-- `while position < len(view): ...`, on what is left of `view`. -/
def feedLoop (lim : FramerLimits) : Nat → Framer → Bytes → Framer
  | 0, f, _ => f
  | fuel + 1, f, view =>
    if view = [] then f
    else
      let (f', count) := f.feedSlice lim view
      feedLoop lim fuel f' (view.drop count)

/-- `feed`: the events it returns and the new state. -/
def feed (lim : FramerLimits) (retainHistory : Bool) (f : Framer) (chunk : Bytes) :
    Except Error (List StreamEvent × Framer) :=
  if f.finished then .error (.runtimeError "cannot feed a finished framer")
  else if chunk = [] then .ok ([], f)
  else
    let before := f.events.length
    let f := f.feedLoop lim chunk.length chunk
    let emitted := f.events.drop before
    if retainHistory then .ok (emitted, f)
    else .ok (emitted,
      { f with events := [], issues := [], eventsTruncated := false, omittedIssueCount := 0 })

/-- `finish`: the result and the new state. -/
def finish (lim : FramerLimits) (f : Framer) : FramingResult × Framer :=
  let f := if f.finished then f else { f.process lim true with finished := true }
  let f := { f with toFramerLog := f.toFramerLog.finalizeOmittedIssues lim f.bytesSeen }
  ({ events := f.events
     issues := f.issues
     bytesSeen := f.bytesSeen
     totalFrameCount := f.frameCount
     totalAckCount := f.ackCount
     eventsTruncated := f.eventsTruncated
     omittedIssueCount := f.omittedIssueCount }, f)

/-- Feeding the chunks of a segmentation in order. -/
def feedAll (lim : FramerLimits) (retainHistory : Bool) (f : Framer) (chunks : List Bytes) :
    Except Error Framer :=
  chunks.foldlM (fun f chunk => (f.feed lim retainHistory chunk).map (·.2)) f

end Framer

/-- A fresh framer fed the chunks in order, then finished. -/
def frameChunks (lim : FramerLimits) (retainHistory : Bool) (chunks : List Bytes) :
    Except Error FramingResult :=
  (Framer.feedAll lim retainHistory {} chunks).map fun f => (f.finish lim).1

/-- `frame_stream`. -/
def frameStream (lim : FramerLimits) (payload : Bytes) : Except Error FramingResult :=
  frameChunks lim true [payload]

end RchProxy
