import RchProxy.Py.Text

/-!
# Frames, stream events and framing diagnostics

The data of `rch/framing.py`. A frame on the wire is

    STX | AA | LLL | class | DATA | seq | BCC | ETX

with `AA` two decimal digits, `LLL` the three-digit length of `DATA` and `BCC` the two hexadecimal
digits of the XOR of every byte from `STX` through `seq`; `ACK` is an event of one byte of its own.
`kind` and `evidence`, constant in every record the framer builds, are left out.
-/

namespace RchProxy

open Py

/-- `STX`. -/
abbrev STX : UInt8 := 0x02
/-- `ETX`. -/
abbrev ETX : UInt8 := 0x03
/-- `ACK`. -/
abbrev ACK : UInt8 := 0x06

@[simp] theorem stx_ne_ack : ¬ STX = ACK := by decide

@[simp] theorem ack_ne_stx : ¬ ACK = STX := by decide

/-- `_FRAME_OVERHEAD`. -/
abbrev frameOverhead : Nat := 11

/-- The `code` of an issue, of a framing issue or of a receipt issue. -/
inductive IssueCode where
  | unframedBytes
  | malformedHeader
  | oversizeFrame
  | invalidTerminator
  | truncatedFrame
  | invalidBcc
  | bufferLimitExceeded
  | eventLimitExceeded
  | issueLimitExceeded
  | incompleteDocument
  | missingOpenBoundary
  | missingCommercialStart
  | documentLimitExceeded
  | semanticFieldLimitExceeded
  | missingAckCandidate
  | missingResponseFrameCandidate
  | responseSequenceMismatch
  | unmatchedResponseFrame
  | unmatchedAck
  | messageLimitExceeded
  | analysisByteLimitExceeded
  | resultIssueLimitExceeded
  deriving DecidableEq, Repr

/-- The literal an `IssueCode` is written as. -/
def IssueCode.text : IssueCode → String
  | unframedBytes => "unframed_bytes"
  | malformedHeader => "malformed_header"
  | oversizeFrame => "oversize_frame"
  | invalidTerminator => "invalid_terminator"
  | truncatedFrame => "truncated_frame"
  | invalidBcc => "invalid_bcc"
  | bufferLimitExceeded => "buffer_limit_exceeded"
  | eventLimitExceeded => "event_limit_exceeded"
  | issueLimitExceeded => "issue_limit_exceeded"
  | incompleteDocument => "incomplete_document"
  | missingOpenBoundary => "missing_open_boundary"
  | missingCommercialStart => "missing_commercial_start"
  | documentLimitExceeded => "document_limit_exceeded"
  | semanticFieldLimitExceeded => "semantic_field_limit_exceeded"
  | missingAckCandidate => "missing_ack_candidate"
  | missingResponseFrameCandidate => "missing_response_frame_candidate"
  | responseSequenceMismatch => "response_sequence_mismatch"
  | unmatchedResponseFrame => "unmatched_response_frame"
  | unmatchedAck => "unmatched_ack"
  | messageLimitExceeded => "message_limit_exceeded"
  | analysisByteLimitExceeded => "analysis_byte_limit_exceeded"
  | resultIssueLimitExceeded => "result_issue_limit_exceeded"

/-- `code.endswith("_limit_exceeded")`. -/
def IssueCode.isLimit (c : IssueCode) : Bool :=
  "_limit_exceeded".toList.isSuffixOf c.text.toList

/-- `FramingIssue`. The framer always passes `span_length`. -/
structure FramingIssue where
  code : IssueCode
  streamOffset : Nat
  raw : Bytes
  detail : String
  spanLength : Nat
  deriving DecidableEq, Repr

/-- `FramingIssue.end_offset`. -/
def FramingIssue.endOffset (i : FramingIssue) : Nat := i.streamOffset + i.spanLength

/-- `AckEvent`. -/
structure AckEvent where
  eventId : Nat
  streamOffset : Nat
  raw : Bytes
  deriving DecidableEq, Repr

/-- `AckEvent.end_offset`. -/
def AckEvent.endOffset (a : AckEvent) : Nat := a.streamOffset + 1

/-- `RCHFrame`: one structurally complete frame, kept also when its BCC is wrong. -/
structure RCHFrame where
  eventId : Nat
  frameId : Nat
  streamOffset : Nat
  raw : Bytes
  address : Text
  dataLength : Nat
  frameClass : Char
  data : Bytes
  sequence : Char
  bcc : Text
  expectedBcc : Text
  bccValid : Bool
  deriving DecidableEq, Repr

/-- `RCHFrame.end_offset`. -/
def RCHFrame.endOffset (f : RCHFrame) : Nat := f.streamOffset + f.raw.length

/-- `RCHFrame.data_text`. -/
def RCHFrame.dataText (f : RCHFrame) : Text := latin1 f.data

/-- `StreamEvent`. -/
inductive StreamEvent where
  | ack (a : AckEvent)
  | frame (f : RCHFrame)
  deriving DecidableEq, Repr

namespace StreamEvent

/-- `stream_offset` of an event. -/
def streamOffset : StreamEvent → Nat
  | ack a => a.streamOffset
  | frame f => f.streamOffset

/-- `end_offset` of an event. -/
def endOffset : StreamEvent → Nat
  | ack a => a.endOffset
  | frame f => f.endOffset

/-- `raw` of an event. -/
def raw : StreamEvent → Bytes
  | ack a => a.raw
  | frame f => f.raw

/-- `event_id` of an event. -/
def eventId : StreamEvent → Nat
  | ack a => a.eventId
  | frame f => f.eventId

/-- The frame of an event, if it is one. -/
def frame? : StreamEvent → Option RCHFrame
  | ack _ => none
  | frame f => some f

/-- The ACK of an event, if it is one. -/
def ack? : StreamEvent → Option AckEvent
  | ack a => some a
  | frame _ => none

end StreamEvent

/-- `FramingResult`. -/
structure FramingResult where
  events : List StreamEvent
  issues : List FramingIssue
  bytesSeen : Nat
  totalFrameCount : Nat
  totalAckCount : Nat
  eventsTruncated : Bool
  omittedIssueCount : Nat
  deriving DecidableEq, Repr

namespace FramingResult

/-- `FramingResult.frames`. -/
def frames (r : FramingResult) : List RCHFrame := r.events.filterMap StreamEvent.frame?

/-- `FramingResult.acks`. -/
def acks (r : FramingResult) : List AckEvent := r.events.filterMap StreamEvent.ack?

/-- `FramingResult.valid`. -/
def valid (r : FramingResult) : Bool :=
  !r.frames.isEmpty && r.issues.isEmpty && !r.eventsTruncated && r.omittedIssueCount == 0
    && r.frames.all (·.bccValid)

end FramingResult

/-- `calculate_bcc`. -/
def calculateBcc (prefixThroughSequence : Bytes) : UInt8 :=
  prefixThroughSequence.foldl (· ^^^ ·) 0

/-- A `bytes | str` argument of `build_frame`. -/
inductive BytesOrStr where
  | bytes (b : Bytes)
  | str (s : Text)
  deriving DecidableEq, Repr

/-- `value.encode(codec) if isinstance(value, str) else bytes(value)`. -/
def BytesOrStr.encode (codec : Text → Except Error Bytes) : BytesOrStr → Except Error Bytes
  | bytes b => .ok b
  | str s => codec s

/-- `len(address) != 2 or not address.isascii() or not address.isdecimal()`, negated. -/
def addressOk (address : Text) : Bool :=
  address.length == 2 && address.all fun c => 48 ≤ c.toNat && c.toNat ≤ 57

/-- `build_frame`. -/
def buildFrame (data : BytesOrStr) (address : Text) (frameClass sequence : BytesOrStr) :
    Except Error Bytes := do
  let encodedData ← data.encode encodeLatin1
  let encodedClass ← frameClass.encode encodeAscii
  let encodedSequence ← sequence.encode encodeAscii
  if !addressOk address then
    throw (.valueError "address must contain exactly two ASCII decimal digits")
  if encodedClass.length ≠ 1 then
    throw (.valueError "frame_class must be exactly one byte")
  if encodedSequence.length ≠ 1 then
    throw (.valueError "sequence must be exactly one byte")
  if 999 < encodedData.length then
    throw (.valueError "data is too long for the three-digit frame length")
  let encodedAddress ← encodeAscii address
  let encodedLength ← encodeAscii (zeroPad 3 encodedData.length)
  let head :=
    [STX] ++ encodedAddress ++ encodedLength ++ encodedClass ++ encodedData ++ encodedSequence
  let bcc ← encodeAscii (hex2 (calculateBcc head))
  return head ++ bcc ++ [ETX]

/-- The arguments of `RCHStreamFramer.__init__` its checks accept, `retain_history` apart: a value
of this type is a configuration that passed them. -/
structure FramerLimits where
  maxDataLength : Nat
  maxBufferBytes : Nat
  maxEvents : Nat
  maxIssues : Nat
  maxIssueRawBytes : Nat
  dataLength_le : maxDataLength ≤ 999
  frame_fits : maxDataLength + frameOverhead ≤ maxBufferBytes
  events_pos : 1 ≤ maxEvents
  issues_pos : 1 ≤ maxIssues

/-- The checks of `RCHStreamFramer.__init__`, in their order. -/
def FramerLimits.check (maxDataLength maxBufferBytes maxEvents maxIssues maxIssueRawBytes : Int) :
    Except Error FramerLimits :=
  if h1 : ¬ (0 ≤ maxDataLength ∧ maxDataLength ≤ 999) then
    .error (.valueError "max_data_length must be between 0 and 999")
  else if maxBufferBytes < frameOverhead then
    .error (.valueError s!"max_buffer_bytes must be at least {frameOverhead}")
  else if h3 : maxBufferBytes < maxDataLength + frameOverhead then
    .error (.valueError "max_buffer_bytes must hold the largest accepted frame")
  else if h4 : maxEvents < 1 then
    .error (.valueError "max_events must be positive")
  else if h5 : maxIssues < 1 then
    .error (.valueError "max_issues must be positive")
  else if maxIssueRawBytes < 0 then
    .error (.valueError "max_issue_raw_bytes cannot be negative")
  else .ok
    { maxDataLength := maxDataLength.toNat
      maxBufferBytes := maxBufferBytes.toNat
      maxEvents := maxEvents.toNat
      maxIssues := maxIssues.toNat
      maxIssueRawBytes := maxIssueRawBytes.toNat
      dataLength_le := by omega
      frame_fits := by omega
      events_pos := by omega
      issues_pos := by omega }

/-- The constructor accepts exactly the limits of `FramerLimits`. -/
theorem FramerLimits.check_ok (lim : FramerLimits) :
    FramerLimits.check lim.maxDataLength lim.maxBufferBytes lim.maxEvents lim.maxIssues
      lim.maxIssueRawBytes = .ok lim := by
  obtain ⟨d, b, e, i, r, hd, hf, he, hi⟩ := lim
  have h2 : ¬ ((b : Int) < (frameOverhead : Nat)) := by omega
  unfold FramerLimits.check
  simp only
  rw [dif_neg (by omega), if_neg h2, dif_neg (by omega), dif_neg (by omega), dif_neg (by omega),
    if_neg (by omega)]
  simp

/-- `_DEFAULT_MAX_EVENTS`. -/
abbrev defaultMaxEvents : Nat := 8192

/-- The default arguments of `RCHStreamFramer` and `frame_stream`. -/
def FramerLimits.default : FramerLimits where
  maxDataLength := 999
  maxBufferBytes := 4096
  maxEvents := defaultMaxEvents
  maxIssues := 256
  maxIssueRawBytes := 1024
  dataLength_le := by decide
  frame_fits := by decide
  events_pos := by decide
  issues_pos := by decide

end RchProxy
