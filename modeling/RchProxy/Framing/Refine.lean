import RchProxy.Framing.Scan

/-!
# The framer reads tokens

`RCHStreamFramer` refines the scan of `RchProxy.Framing.Scan`: `_process` records, one after the
other, the tokens of its buffer and keeps the carry (`process_spec`), and `feed` cuts a chunk into
slices and processes each (`feed_spec`). So a run of the framer over any chunks of a stream is a run
of `runTokens` over some slices of it (`frameChunks_eq`), and what is proved of every list of slices
holds for every segmentation and every buffer size.
-/

namespace RchProxy

open Py

/-! ## Recording a token -/

/-- The `RCHFrame` of a structurally complete frame. -/
def RCHFrame.ofRaw (eventId frameId offset : Nat) (raw : Bytes) : RCHFrame :=
  let bccBytes := (raw.drop (raw.length - 3)).take 2
  let expected := hex2 (calculateBcc (raw.take (raw.length - 3)))
  { eventId := eventId
    frameId := frameId
    streamOffset := offset
    raw := raw
    address := asciiReplace ((raw.drop 1).take 2)
    dataLength := raw.length - frameOverhead
    frameClass := Char.ofNat (raw.getD 6 0).toNat
    data := (raw.drop 7).take (raw.length - frameOverhead)
    sequence := Char.ofNat (raw.getD (raw.length - 4) 0).toNat
    bcc := asciiReplace bccBytes
    expectedBcc := expected
    bccValid := Framer.bccMatches bccBytes expected }

/-- The `invalid_bcc` issue of a frame. -/
def bccIssue (lim : FramerLimits) (offset : Nat) (raw : Bytes) : FramingIssue :=
  { code := .invalidBcc
    streamOffset := offset
    raw := raw.take lim.maxIssueRawBytes
    detail := Framer.bccDetail ((raw.drop (raw.length - 3)).take 2)
      (hex2 (calculateBcc (raw.take (raw.length - 3))))
    spanLength := raw.length }

/-- The issue of rejected bytes. -/
def skipIssue (lim : FramerLimits) (offset : Nat) (code : IssueCode) (raw : Bytes)
    (detail : String) : FramingIssue :=
  { code := code
    streamOffset := offset
    raw := raw.take lim.maxIssueRawBytes
    detail := detail
    spanLength := raw.length }

/-- What the framer records for a token. -/
def FramerLog.record (lim : FramerLimits) (l : FramerLog) : Token → FramerLog
  | .ack =>
    { l with
      bufferOffset := l.bufferOffset + 1
      eventCount := l.eventCount + 1
      ackCount := l.ackCount + 1 }.appendEvent lim
        (.ack { eventId := l.eventCount + 1, streamOffset := l.bufferOffset, raw := [ACK] })
  | .frame raw =>
    let frame := RCHFrame.ofRaw (l.eventCount + 1) (l.frameCount + 1) l.bufferOffset raw
    let l' := { l with
      bufferOffset := l.bufferOffset + raw.length
      eventCount := l.eventCount + 1
      frameCount := l.frameCount + 1 }.appendEvent lim (.frame frame)
    if frame.bccValid then l' else l'.appendIssue lim (bccIssue lim l.bufferOffset raw)
  | .skip code raw detail =>
    { l with bufferOffset := l.bufferOffset + raw.length }.appendIssue lim
      (skipIssue lim l.bufferOffset code raw detail)

/-- What the framer records for a list of tokens. -/
def FramerLog.recordAll (lim : FramerLimits) (l : FramerLog) (ts : List Token) : FramerLog :=
  ts.foldl (FramerLog.record lim) l

@[simp] theorem FramerLog.recordAll_nil (lim : FramerLimits) (l : FramerLog) :
    l.recordAll lim [] = l := rfl

@[simp] theorem FramerLog.recordAll_cons (lim : FramerLimits) (l : FramerLog) (t : Token)
    (ts : List Token) : l.recordAll lim (t :: ts) = (l.record lim t).recordAll lim ts := rfl

theorem FramerLog.recordAll_append (lim : FramerLimits) (l : FramerLog) (ts us : List Token) :
    l.recordAll lim (ts ++ us) = (l.recordAll lim ts).recordAll lim us := List.foldl_append

section
variable (lim : FramerLimits) (l : FramerLog)

@[simp] theorem FramerLog.appendIssue_bufferOffset (i : FramingIssue) :
    (l.appendIssue lim i).bufferOffset = l.bufferOffset := by
  unfold appendIssue; split <;> rfl

@[simp] theorem FramerLog.appendIssue_events (i : FramingIssue) :
    (l.appendIssue lim i).events = l.events := by
  unfold appendIssue; split <;> rfl

@[simp] theorem FramerLog.noteEventLimit_bufferOffset (o : Nat) :
    (l.noteEventLimit lim o).bufferOffset = l.bufferOffset := by
  unfold noteEventLimit; split <;> simp

@[simp] theorem FramerLog.appendEvent_bufferOffset (e : StreamEvent) :
    (l.appendEvent lim e).bufferOffset = l.bufferOffset := by
  unfold appendEvent; split <;> simp

/-- A token moves the offset by its length. -/
@[simp] theorem FramerLog.record_bufferOffset (t : Token) :
    (l.record lim t).bufferOffset = l.bufferOffset + t.raw.length := by
  cases t with
  | ack => simp [record, Token.raw]
  | frame raw => simp only [record, Token.raw]; split <;> simp
  | skip code raw detail => simp [record, Token.raw]

theorem FramerLog.recordAll_bufferOffset (ts : List Token) :
    (l.recordAll lim ts).bufferOffset = l.bufferOffset + (ts.map Token.raw).flatten.length := by
  induction ts generalizing l with
  | nil => simp
  | cons t ts ih => simp [ih, Nat.add_assoc]

end

/-! ## Stepping over bytes -/

namespace Framer

variable {lim : FramerLimits} {f : Framer}

/-- The cursor is inside the buffer. -/
def Within (f : Framer) : Prop := f.cursor ≤ f.buffer.length

theorem buffered_length (f : Framer) : f.buffered.length = f.available := by
  simp [buffered, available]

@[simp] theorem advance_log (f : Framer) (n : Nat) :
    (f.advance n).toFramerLog = { f.toFramerLog with bufferOffset := f.bufferOffset + n } := by
  unfold advance; split <;> rfl

@[simp] theorem advance_bytesSeen (f : Framer) (n : Nat) :
    (f.advance n).bytesSeen = f.bytesSeen := by
  unfold advance; split <;> rfl

@[simp] theorem advance_finished (f : Framer) (n : Nat) : (f.advance n).finished = f.finished := by
  unfold advance; split <;> rfl

theorem advance_buffered (f : Framer) (n : Nat) :
    (f.advance n).buffered = f.buffered.drop n := by
  unfold advance
  split
  · next h => simp [buffered, List.drop_drop, h]
  · simp [buffered, List.drop_drop]

theorem advance_within {n : Nat} (hw : f.Within) (hn : n ≤ f.available) :
    (f.advance n).Within := by
  unfold advance Within available at *
  split
  · simp
  · simp only; omega

/-- `f'` is `f` after the tokens `ts`, with `rest` left in the buffer. -/
structure Took (lim : FramerLimits) (f : Framer) (ts : List Token) (rest : Bytes)
    (f' : Framer) : Prop where
  buffered : f'.buffered = rest
  log : f'.toFramerLog = f.toFramerLog.recordAll lim ts
  bytesSeen : f'.bytesSeen = f.bytesSeen
  finished : f'.finished = f.finished
  within : f'.Within

theorem Took.trans {f f' f'' : Framer} {ts us : List Token} {r r' : Bytes}
    (h : Took lim f ts r f') (h' : Took lim f' us r' f'') : Took lim f (ts ++ us) r' f'' :=
  ⟨h'.buffered, by rw [h'.log, h.log, FramerLog.recordAll_append], h'.bytesSeen.trans h.bytesSeen,
    h'.finished.trans h.finished, h'.within⟩

/-- Stepping over `n` bytes and recording `ts` for them. `g` is `f` up to what is recorded. -/
theorem Took.of_advance {f g : Framer} {n : Nat} {ts : List Token} {log : FramerLog}
    (hg : g = { f with toFramerLog := g.toFramerLog }) (hw : f.Within) (hn : n ≤ f.available)
    (hlog : log = f.toFramerLog.recordAll lim ts) :
    Took lim f ts (f.buffered.drop n) { g.advance n with toFramerLog := log } where
  buffered := by
    have := advance_buffered g n
    rw [hg] at this ⊢
    exact this
  log := hlog
  bytesSeen := by rw [hg]; simp
  finished := by rw [hg]; simp
  within := by
    have : g.Within := by rw [hg]; exact hw
    have := advance_within (n := n) this (by rw [hg]; exact hn)
    rw [hg] at this ⊢
    exact this

/-- `_issue` records the rejected bytes as one token. -/
theorem issue_took {code : IssueCode} {detail : String} {n : Nat} (hw : f.Within)
    (hn : n ≤ f.available) :
    Took lim f [.skip code (f.buffered.take n) detail] (f.buffered.drop n)
      (f.issue lim code n detail) := by
  have hlen : (f.buffered.take n).length = n := by
    rw [List.length_take, buffered_length, Nat.min_eq_left hn]
  have hraw : (f.buffered.take n).take lim.maxIssueRawBytes =
      f.buffered.take (min n lim.maxIssueRawBytes) := by
    rw [List.take_take, Nat.min_comm]
  refine ⟨?_, ?_, ?_, ?_, ?_⟩
  · rw [issue]; exact advance_buffered _ n
  · simp only [issue, advance_log, FramerLog.recordAll_cons, FramerLog.recordAll_nil,
      FramerLog.record, skipIssue, hlen, hraw]
    unfold FramerLog.appendIssue
    split <;> simp
  · simp [issue]
  · simp [issue]
  · rw [issue]; exact advance_within hw hn

/-- The log after `k` more ACKs, the event limit aside. -/
def countAcks (l : FramerLog) (k : Nat) : FramerLog :=
  { l with
    bufferOffset := l.bufferOffset + k
    eventCount := l.eventCount + k
    ackCount := l.ackCount + k }

theorem countAcks_noteEventLimit (l : FramerLog) (k o : Nat) :
    countAcks (l.noteEventLimit lim o) k = (countAcks l k).noteEventLimit lim o := by
  by_cases ht : l.eventsTruncated = true
  · simp [FramerLog.noteEventLimit, countAcks, ht]
  · by_cases hi : l.issues.length < lim.maxIssues <;>
      simp [FramerLog.noteEventLimit, FramerLog.appendIssue, countAcks, ht, hi]

/-- The event limit is noted once. -/
theorem noteEventLimit_again (l : FramerLog) (o o' : Nat) :
    (l.noteEventLimit lim o).noteEventLimit lim o' = l.noteEventLimit lim o := by
  have h : (l.noteEventLimit lim o).eventsTruncated = true := by
    unfold FramerLog.noteEventLimit FramerLog.appendIssue
    split
    · assumption
    · split <;> rfl
  rw [FramerLog.noteEventLimit, if_pos h]

@[simp] theorem noteEventLimit_events (l : FramerLog) (o : Nat) :
    (l.noteEventLimit lim o).events = l.events := by
  unfold FramerLog.noteEventLimit; split <;> simp

theorem record_ack_full {l : FramerLog} (h : lim.maxEvents ≤ l.events.length) :
    l.record lim .ack = (countAcks l 1).noteEventLimit lim l.bufferOffset := by
  rw [FramerLog.record, FramerLog.appendEvent, if_neg (by simpa using h)]
  rfl

/-- A run of ACK tokens past the event limit only counts: the limit is noted once, at its first
byte. -/
theorem recordAll_acks {l : FramerLog} (h : lim.maxEvents ≤ l.events.length) (k : Nat) :
    l.recordAll lim (List.replicate (k + 1) .ack) =
      (countAcks l (k + 1)).noteEventLimit lim l.bufferOffset := by
  induction k with
  | zero => simp [record_ack_full h]
  | succ k ih =>
    rw [List.replicate_succ', FramerLog.recordAll_append, ih, FramerLog.recordAll_cons,
      FramerLog.recordAll_nil, record_ack_full (by simpa [countAcks] using h),
      countAcks_noteEventLimit, noteEventLimit_again]
    simp [countAcks, Nat.add_assoc]

/-- The bytes of a front of the buffer can be read off the front alone. -/
theorem take_drop_take {α : Type _} (w : List α) {s i j : Nat} (h : i + j ≤ s) :
    ((w.take s).drop i).take j = (w.drop i).take j := by
  rw [List.drop_take, List.take_take, Nat.min_eq_left (by omega)]

theorem getD_take (w : Bytes) {s i : Nat} (h : i < s) : (w.take s).getD i 0 = w.getD i 0 := by
  simp [List.getD_eq_getElem?_getD, List.getElem?_take_of_lt h]

/-- The fields of a frame, read off a buffer it is a front of. -/
theorem ofRaw_take (w : Bytes) {n : Nat} (hn : n + 11 ≤ w.length) (ev fr o : Nat) :
    RCHFrame.ofRaw ev fr o (w.take (n + 11)) =
      { eventId := ev
        frameId := fr
        streamOffset := o
        raw := w.take (n + 11)
        address := asciiReplace ((w.drop 1).take 2)
        dataLength := n
        frameClass := Char.ofNat (w.getD 6 0).toNat
        data := ((w.take (n + 11)).drop 7).take n
        sequence := Char.ofNat (w.getD (7 + n) 0).toNat
        bcc := asciiReplace ((w.drop (n + 8)).take 2)
        expectedBcc := hex2 (calculateBcc (w.take (n + 8)))
        bccValid := bccMatches ((w.drop (n + 8)).take 2) (hex2 (calculateBcc (w.take (n + 8)))) }
    := by
  have hlen : (w.take (n + 11)).length = n + 11 := by rw [List.length_take, Nat.min_eq_left hn]
  simp only [RCHFrame.ofRaw, hlen, frameOverhead]
  rw [take_drop_take w (show 1 + 2 ≤ n + 11 by omega),
    take_drop_take w (show n + 11 - 3 + 2 ≤ n + 11 by omega), List.take_take,
    Nat.min_eq_left (by omega), getD_take w (by omega), getD_take w (by omega),
    show n + 11 - 11 = n by omega, show n + 11 - 4 = 7 + n by omega,
    show n + 11 - 3 = n + 8 by omega]

/-- The frame branch of `_process` records the frame as one token. -/
theorem acceptFrame_took {n : Nat} (hw : f.Within) (hn : n + 11 ≤ f.available) :
    Took lim f [.frame (f.buffered.take (n + 11))] (f.buffered.drop (n + 11))
      (f.acceptFrame lim n) := by
  have hlen : (f.buffered.take (n + 11)).length = n + 11 := by
    rw [List.length_take, buffered_length, Nat.min_eq_left hn]
  rw [acceptFrame]
  refine Took.of_advance (g := { f with
    eventCount := f.eventCount + 1, frameCount := f.frameCount + 1 }) rfl hw hn ?_
  simp only [advance_log, FramerLog.recordAll_cons, FramerLog.recordAll_nil, FramerLog.record,
    ofRaw_take f.buffered (by rw [buffered_length]; exact hn), bccIssue, hlen, frameOverhead,
    show n + 11 - 3 = n + 8 by omega]
  have htake : (f.buffered.take (n + 11)).take (n + 8) = f.buffered.take (n + 8) := by
    rw [List.take_take, Nat.min_eq_left (by omega)]
  rw [take_drop_take f.buffered (show n + 8 + 2 ≤ n + 11 by omega), htake]
  generalize bccMatches ((f.buffered.drop (n + 8)).take 2)
    (hex2 (calculateBcc (f.buffered.take (n + 8)))) = valid
  by_cases hr : f.events.length < lim.maxEvents
  · cases valid <;> simp [hr, FramerLog.appendEvent]
  · cases valid <;> simp [hr, FramerLog.appendEvent, StreamEvent.streamOffset]

/-- A run of ACK bytes is a run of ACK tokens. -/
theorem scan_acks (m : Nat) (final : Bool) (w : Bytes) :
    scan m final w =
      (List.replicate (w.takeWhile (· == ACK)).length .ack ++
          (scan m final (w.drop (w.takeWhile (· == ACK)).length)).1,
        (scan m final (w.drop (w.takeWhile (· == ACK)).length)).2) := by
  induction w with
  | nil => simp
  | cons b w ih =>
    by_cases hb : b = ACK
    · subst hb
      have hn : Token.next m final (ACK :: w) = some .ack := by simp [Token.next]
      rw [scan_some hn]
      simp only [Token.raw, List.length_cons, List.length_nil, List.drop_succ_cons, List.drop_zero,
        List.takeWhile_cons, beq_self_eq_true, if_true, List.replicate_succ, List.cons_append]
      rw [congrArg Prod.fst ih, congrArg Prod.snd ih]
    · simp [hb]

/-- A turn of `_process` took the tokens `ts` off the buffer of `f`, leaving `r`, and goes on unless
nothing is left. -/
structure Turn (lim : FramerLimits) (final : Bool) (f : Framer) (out : Framer × Bool) : Prop where
  intro ::
  took : ∃ ts r, Took lim f ts r out.1 ∧ r.length < f.buffered.length ∧
    scan lim.maxDataLength final f.buffered =
      (ts ++ (scan lim.maxDataLength final r).1, (scan lim.maxDataLength final r).2) ∧
    (out.2 = false → r = [])

/-- A turn that rejects `n` bytes as one token. -/
theorem Turn.of_issue {final : Bool} {code : IssueCode} {detail : String} {n : Nat}
    {continues : Bool} (hw : f.Within) (hn : n ≤ f.available)
    (hnext : Token.next lim.maxDataLength final f.buffered =
      some (.skip code (f.buffered.take n) detail))
    (hc : continues = false → n = f.available) :
    Turn lim final f (f.issue lim code n detail, continues) := by
  have hlen : (Token.skip code (f.buffered.take n) detail).raw.length = n := by
    rw [Token.raw, List.length_take, buffered_length, Nat.min_eq_left hn]
  refine ⟨_, _, issue_took hw hn, ?_, ?_, fun h => ?_⟩
  · have := Token.next_drop_lt hnext
    rwa [hlen] at this
  · rw [scan_some hnext, hlen]; rfl
  · rw [hc h, ← buffered_length]; simp

theorem Turn.of_ack {final : Bool} {t : Bytes} (hw : f.Within) (hb : f.buffered = ACK :: t) :
    Turn lim final f (f.acceptAck lim, true) := by
  have hav : f.available = t.length + 1 := by rw [← buffered_length, hb]; rfl
  by_cases hmax : lim.maxEvents ≤ f.events.length
  · have hk : f.buffered.takeWhile (· == ACK) = ACK :: t.takeWhile (· == ACK) := by simp [hb]
    have hle : (f.buffered.takeWhile (· == ACK)).length ≤ f.available := by
      rw [← buffered_length]; exact (List.takeWhile_sublist _).length_le
    refine ⟨List.replicate (f.buffered.takeWhile (· == ACK)).length .ack,
      f.buffered.drop (f.buffered.takeWhile (· == ACK)).length, ?_, ?_,
      scan_acks lim.maxDataLength final f.buffered, fun h => by cases h⟩
    · rw [acceptAck, if_pos hmax]
      refine Took.of_advance rfl hw hle ?_
      simp only [advance_log, hk, List.length_cons]
      exact (recordAll_acks hmax _).symm
    · rw [List.length_drop, hk, hb, List.length_cons, List.length_cons]
      omega
  · have hnext : Token.next lim.maxDataLength final f.buffered = some .ack := by
      simp [hb, Token.next]
    refine ⟨[.ack], f.buffered.drop 1, ?_, by simp [hb], ?_, fun h => by cases h⟩
    · rw [acceptAck, if_neg hmax, consume]
      refine Took.of_advance rfl hw (by omega) ?_
      simp only [advance_log, FramerLog.recordAll_cons, FramerLog.recordAll_nil, FramerLog.record,
        hb, List.take_succ_cons, List.take_zero]
    · rw [scan_some hnext]; rfl

theorem Turn.of_frame {final : Bool} {n : Nat} (hw : f.Within) (hn : n + 11 ≤ f.available)
    (hnext : Token.next lim.maxDataLength final f.buffered =
      some (.frame (f.buffered.take (n + 11)))) :
    Turn lim final f (f.acceptFrame lim n, true) := by
  have hlen : (Token.frame (f.buffered.take (n + 11))).raw.length = n + 11 := by
    rw [Token.raw, List.length_take, buffered_length, Nat.min_eq_left hn]
  refine ⟨_, _, acceptFrame_took hw hn, ?_, ?_, fun h => by cases h⟩
  · have := Token.next_drop_lt hnext
    rwa [hlen] at this
  · rw [scan_some hnext, hlen]; rfl

/-- The decimal test of the source on `AA` and `LLL` is the test on the five bytes together. -/
theorem headerDigits_eq {t : Bytes} (h : 5 ≤ t.length) :
    (bytesIsDigit (t.take 2) && bytesIsDigit ((t.drop 2).take 3)) = headerDigits t := by
  obtain ⟨a, b, c, d, e, u, rfl⟩ : ∃ a b c d e u, t = a :: b :: c :: d :: e :: u := by
    match t, h with
    | a :: b :: c :: d :: e :: u, _ => exact ⟨a, b, c, d, e, u, rfl⟩
  simp [bytesIsDigit, headerDigits, Bool.and_assoc]

/-- One turn of `_process` is one decision of `Token.next`, or waits where that is `none`. -/
theorem processStep_spec (lim : FramerLimits) (final : Bool) (hw : f.Within) (hne : f.available ≠ 0) :
    (Token.next lim.maxDataLength final f.buffered = none ∧ f.processStep lim final = (f, false)) ∨
      Turn lim final f (f.processStep lim final) := by
  obtain ⟨b, t, hb⟩ : ∃ b t, f.buffered = b :: t := by
    cases h : f.buffered with
    | nil => rw [← buffered_length, h] at hne; simp at hne
    | cons b t => exact ⟨b, t, rfl⟩
  have hav : f.available = t.length + 1 := by rw [← buffered_length, hb]; rfl
  have hall : f.buffered.take (t.length + 1) = b :: t := by simp [hb]
  have hbc : f.buffered.take ((beforeControl t).length + 1) = b :: beforeControl t := by
    rw [hb, List.take_succ_cons, take_beforeControl]
  have hbcle : (beforeControl t).length + 1 ≤ f.available := by
    rw [hav]; exact Nat.succ_le_succ (beforeControl_length_le t)
  simp only [processStep, hb, List.headD_cons, List.drop_succ_cons, List.drop_zero, hav]
  split
  · next h =>
    have h : b = ACK := by simpa using h
    exact .inr (.of_ack hw (hb.trans (by rw [h])))
  next hack =>
  split
  · next hstx =>
    rw [nextControl_one]
    refine .inr (.of_issue hw hbcle ?_ (fun h => by cases h))
    rw [hbc, hb]
    exact Token.next_other _ _ (by simp_all [isControl, bne]) t
  next hstx =>
  obtain rfl : b = STX := by simpa using hstx
  split
  · next hshort =>
    have hshort' : t.length < 5 := by omega
    cases final with
    | false => exact .inl ⟨Token.next_short _ _ hshort', rfl⟩
    | true =>
      refine .inr (.of_issue hw (by omega) ?_ (fun _ => hav.symm))
      rw [hall, hb]
      exact Token.next_short _ _ hshort'
  next hshort =>
  have hlong : 5 ≤ t.length := by omega
  rw [headerDigits_eq hlong]
  split
  · next hdig =>
    simp only [rejectCandidate, hb, hav, if_true, nextPlausibleControl_one]
    refine .inr (.of_issue hw (by have := resync_le t; omega) ?_ (fun h => by cases h))
    rw [hb]
    exact Token.next_malformed _ _ hlong (by simpa using hdig)
  next hdig =>
  have hdig : headerDigits t = true := by simpa using hdig
  rw [show intOfDigits ((t.drop 2).take 3) = declaredLength t from rfl]
  split
  · next hover =>
    simp only [rejectCandidate, hb, hav, Bool.false_eq_true, if_false, nextControl_one]
    refine .inr (.of_issue hw hbcle ?_ (fun h => by cases h))
    rw [hbc, hb]
    exact Token.next_oversize _ _ hlong hdig hover
  next hover =>
  have hover : declaredLength t ≤ lim.maxDataLength := Nat.not_lt.mp hover
  split
  · next hsize =>
    cases final with
    | false => exact .inl ⟨Token.next_partial _ _ hlong hdig hover hsize, rfl⟩
    | true =>
      refine .inr (.of_issue hw (by omega) ?_ (fun _ => hav.symm))
      rw [hall, hb]
      exact Token.next_partial _ _ hlong hdig hover hsize
  next hsize =>
  have hsize : declaredLength t + 11 ≤ t.length + 1 := Nat.not_lt.mp hsize
  rw [show (STX :: t).getD (declaredLength t + frameOverhead - 1) 0 =
    t.getD (declaredLength t + 9) 0 from rfl]
  split
  · next hetx =>
    simp only [rejectCandidate, hb, hav, Bool.false_eq_true, if_false, nextControl_one]
    refine .inr (.of_issue hw hbcle ?_ (fun h => by cases h))
    rw [hbc, hb]
    exact Token.next_unterminated _ _ hlong hdig hsize hover (by simpa [bne] using hetx)
  next hetx =>
  refine .inr (.of_frame hw (by omega) ?_)
  rw [hb]
  exact Token.next_frame _ _ hlong hdig hsize hover (by simpa [bne] using hetx)

/-- `_process` records the tokens of its buffer and keeps their carry. -/
theorem processLoop_spec (lim : FramerLimits) (final : Bool) (fuel : Nat) (hw : f.Within) (hf : f.available ≤ fuel) :
    Took lim f (scan lim.maxDataLength final f.buffered).1
      (scan lim.maxDataLength final f.buffered).2 (processLoop lim final fuel f) := by
  induction fuel generalizing f with
  | zero =>
    have hnil : f.buffered = [] := by
      rw [← List.length_eq_zero_iff, buffered_length]; omega
    have hs : scan lim.maxDataLength final [] = ([], []) := scan_none rfl
    rw [hnil, hs]
    exact ⟨hnil, rfl, rfl, rfl, hw⟩
  | succ fuel ih =>
    rw [processLoop]
    by_cases hz : f.available = 0
    · have hnil : f.buffered = [] := by rw [← List.length_eq_zero_iff, buffered_length, hz]
      have hs : scan lim.maxDataLength final [] = ([], []) := scan_none rfl
      rw [if_pos hz, hnil, hs]
      exact ⟨hnil, rfl, rfl, rfl, hw⟩
    rw [if_neg hz]
    rcases processStep_spec lim final hw hz with ⟨hn, hp⟩ | ⟨ts, r, htook, hlt, hscan, hstop⟩
    · simp only [hp, Bool.false_eq_true, if_false, scan_none hn]
      exact ⟨rfl, rfl, rfl, rfl, hw⟩
    · rw [hscan]
      simp only
      split
      · have hav : (f.processStep lim final).1.available = r.length := by
          rw [← buffered_length, htook.buffered]
        have := ih htook.within (by rw [hav]; rw [buffered_length] at hlt; omega)
        rw [htook.buffered] at this
        exact htook.trans this
      · next hc =>
        have hr : r = [] := hstop (by simpa using hc)
        have hs : scan lim.maxDataLength final [] = ([], []) := scan_none rfl
        subst hr
        simpa [hs] using htook

theorem process_spec (lim : FramerLimits) (final : Bool) (hw : f.Within) :
    Took lim f (scan lim.maxDataLength final f.buffered).1
      (scan lim.maxDataLength final f.buffered).2 (f.process lim final) :=
  processLoop_spec lim final _ hw (Nat.le_refl _)

/-! ## Feeding -/

/-- Between two slices: the offset of the carry is what has been recorded, the rest of what was fed
is buffered, and the carry leaves room in the buffer. -/
structure Ready (lim : FramerLimits) (f : Framer) : Prop where
  within : f.Within
  seen : f.bufferOffset + f.available = f.bytesSeen
  carry : f.available ≤ lim.maxDataLength + 10
  open_ : f.finished = false

/-- `f'` is `f` after the slices `ss`. -/
structure Fed (lim : FramerLimits) (f : Framer) (ss : List Bytes) (f' : Framer) : Prop where
  ready : Ready lim f'
  buffered : f'.buffered = (scanSlices lim.maxDataLength f.buffered ss).2
  log : f'.toFramerLog =
    f.toFramerLog.recordAll lim (scanSlices lim.maxDataLength f.buffered ss).1

theorem Fed.nil (h : Ready lim f) : Fed lim f [] f := ⟨h, rfl, rfl⟩

theorem Fed.trans {f f' f'' : Framer} {ss ss' : List Bytes} (h : Fed lim f ss f')
    (h' : Fed lim f' ss' f'') : Fed lim f (ss ++ ss') f'' where
  ready := h'.ready
  buffered := by rw [h'.buffered, h.buffered, scanSlices_append]
  log := by rw [h'.log, h.log, h.buffered, scanSlices_append, FramerLog.recordAll_append]

/-- The first step of a turn of `feed`: drop what has been read. -/
def makeRoom (f : Framer) : Framer :=
  if f.available = 0 then { f with buffer := [], cursor := 0, bufferOffset := f.bytesSeen }
  else if f.cursor ≠ 0 then { f with buffer := f.buffer.drop f.cursor, cursor := 0 }
  else f

/-- The buffer with a slice of `view` in it, before `_process`, and the length of the slice. -/
def fill (lim : FramerLimits) (f : Framer) (view : Bytes) : Framer × Nat :=
  let f := f.makeRoom
  let capacity := lim.maxBufferBytes - f.available
  let (f, capacity) :=
    if capacity = 0 then
      (f.issue lim .bufferLimitExceeded f.available "framing buffer made no progress",
        lim.maxBufferBytes)
    else (f, capacity)
  let count := min capacity view.length
  ({ f with buffer := f.buffer ++ view.take count, bytesSeen := f.bytesSeen + count }, count)

theorem feedSlice_fill (f : Framer) (view : Bytes) :
    f.feedSlice lim view = ((f.fill lim view).1.process lim false, (f.fill lim view).2) := rfl

/-- Room is made by moving what is buffered to the front. -/
theorem makeRoom_spec (h : Ready lim f) :
    f.makeRoom.buffer = f.buffered ∧ f.makeRoom.cursor = 0 ∧
      f.makeRoom.toFramerLog = f.toFramerLog ∧ f.makeRoom.bytesSeen = f.bytesSeen ∧
      f.makeRoom.finished = f.finished := by
  have hseen := h.seen
  unfold makeRoom
  split
  · next h0 =>
    have hnil : f.buffered = [] := by rw [← List.length_eq_zero_iff, buffered_length, h0]
    have hoff : f.bytesSeen = f.bufferOffset := by omega
    exact ⟨hnil.symm, rfl, by simp [hoff], rfl, rfl⟩
  · split
    · exact ⟨rfl, rfl, rfl, rfl, rfl⟩
    · next hc =>
      have hc : f.cursor = 0 := by simpa using hc
      exact ⟨by simp [buffered, hc], hc, rfl, rfl, rfl⟩

theorem makeRoom_available (h : Ready lim f) : f.makeRoom.available = f.available := by
  obtain ⟨hbuf, hcur, -⟩ := makeRoom_spec h
  rw [available, hbuf, hcur, buffered_length, Nat.sub_zero]

/-- There is room for a slice: the fail-safe of `feed` is not reached. -/
theorem fill_eq (h : Ready lim f) (view : Bytes) :
    f.fill lim view =
      let count := min (lim.maxBufferBytes - f.available) view.length
      ({ f.makeRoom with
          buffer := f.makeRoom.buffer ++ view.take count
          bytesSeen := f.makeRoom.bytesSeen + count }, count) := by
  have hroom : lim.maxBufferBytes - f.available ≠ 0 := by
    have := lim.frame_fits; have := h.carry; simp only [frameOverhead] at *; omega
  simp only [fill, makeRoom_available h, if_neg hroom]

/-- One turn of `feed` absorbs one slice. -/
theorem feedSlice_spec (h : Ready lim f) (view : Bytes) :
    (f.feedSlice lim view).2 = min (lim.maxBufferBytes - f.available) view.length ∧
      Fed lim f [view.take (f.feedSlice lim view).2] (f.feedSlice lim view).1 := by
  obtain ⟨hbuf, hcur, hlog, hseen, hfin⟩ := makeRoom_spec h
  rw [feedSlice_fill, fill_eq h]
  refine ⟨rfl, ?_⟩
  generalize f.makeRoom = g at *
  generalize hcount : min (lim.maxBufferBytes - f.available) view.length = count
  simp only
  have hle : count ≤ view.length := by omega
  let g' : Framer := { g with buffer := g.buffer ++ view.take count
                              bytesSeen := g.bytesSeen + count }
  have hg' : g'.buffered = f.buffered ++ view.take count := by
    simp [g', Framer.buffered, hcur, hbuf]
  have hwithin : g'.Within := by simp [g', Within, hcur]
  have hp := process_spec lim false hwithin
  rw [hg'] at hp
  have hlog' : g'.toFramerLog = f.toFramerLog := hlog
  have hscan := scan_flatten lim.maxDataLength false (f.buffered ++ view.take count)
  refine ⟨⟨hp.within, ?_, ?_, ?_⟩, ?_, ?_⟩
  · -- what was recorded and what is left are all that was fed
    have hflat := congrArg List.length hscan
    have hoff := congrArg FramerLog.bufferOffset hp.log
    rw [FramerLog.recordAll_bufferOffset, hlog'] at hoff
    have hs : (g'.process lim false).bytesSeen = f.bytesSeen + count := by
      rw [hp.bytesSeen]; simp [g', hseen]
    have hr := h.seen
    simp only [List.length_append, List.length_take, buffered_length] at hflat
    rw [← buffered_length, hp.buffered, hs]
    show (g'.process lim false).toFramerLog.bufferOffset + _ = _
    rw [hoff]
    omega
  · rw [← buffered_length, hp.buffered]
    rcases Token.next_eq_none (scan_carry lim.maxDataLength false
      (f.buffered ++ view.take count)) with h0 | ⟨_, hlen⟩
    · rw [h0]; exact Nat.zero_le _
    · exact hlen
  · rw [hp.finished]; simp [g', hfin, h.open_]
  · rw [hp.buffered]; rfl
  · rw [hp.log, hlog']; simp [scanSlices]

/-- The slices `feed` cuts a chunk into, behind what is buffered. -/
def cut (lim : FramerLimits) : Nat → Bytes → Bytes → List Bytes
  | 0, _, _ => []
  | fuel + 1, carry, view =>
    if view = [] then []
    else
      let count := min (lim.maxBufferBytes - carry.length) view.length
      view.take count ::
        cut lim fuel (scan lim.maxDataLength false (carry ++ view.take count)).2 (view.drop count)

/-- `feed` cuts a chunk into slices and absorbs them in order. -/
theorem feedLoop_spec (fuel : Nat) (view : Bytes) (h : Ready lim f) (hf : view.length ≤ fuel) :
    (cut lim fuel f.buffered view).flatten = view ∧
      Fed lim f (cut lim fuel f.buffered view) (feedLoop lim fuel f view) := by
  induction fuel generalizing f view with
  | zero =>
    have hv : view = [] := List.length_eq_zero_iff.mp (by omega)
    exact ⟨by simp [cut, hv], Fed.nil h⟩
  | succ fuel ih =>
    rw [feedLoop, cut]
    by_cases hv : view = []
    · rw [if_pos hv, if_pos hv]; exact ⟨by simp [hv], Fed.nil h⟩
    rw [if_neg hv, if_neg hv]
    obtain ⟨hcount, hfed⟩ := feedSlice_spec h view
    have hpos : 0 < view.length := List.length_pos_iff.mpr hv
    have hroom := lim.frame_fits
    have hcarry := h.carry
    simp only [frameOverhead] at hroom
    obtain ⟨hss, hfed'⟩ := ih (view.drop (f.feedSlice lim view).2) hfed.ready
      (by rw [List.length_drop]; omega)
    -- what is left in the buffer is the carry of the scan
    have hbuf : (f.feedSlice lim view).1.buffered = (scan lim.maxDataLength false
        (f.buffered ++ view.take (f.feedSlice lim view).2)).2 := hfed.buffered
    rw [hbuf] at hss hfed'
    simp only [buffered_length, ← hcount]
    exact ⟨by rw [List.flatten_cons, hss]; simp, hfed.trans hfed'⟩

/-- A chunk that fits the room left in the buffer is one slice. -/
theorem feedLoop_fits {view : Bytes} (h : Ready lim f) (hne : view ≠ [])
    (hfit : f.available + view.length ≤ lim.maxBufferBytes) :
    Fed lim f [view] (feedLoop lim view.length f view) := by
  obtain ⟨hcount, hfed⟩ := feedSlice_spec h view
  have hc : (f.feedSlice lim view).2 = view.length := by omega
  obtain ⟨k, hk⟩ : ∃ k, view.length = k + 1 :=
    ⟨view.length - 1, by have := List.length_pos_iff.mpr hne; omega⟩
  rw [hk, feedLoop, if_neg hne]
  rw [hc, List.take_length] at hfed
  simp only [hc, List.drop_length]
  cases k with
  | zero => exact hfed
  | succ k => rw [feedLoop, if_pos rfl]; exact hfed

/-- `feed` of a framer that keeps its history. -/
theorem feed_spec (h : Ready lim f) (chunk : Bytes) :
    ∃ out ss, f.feed lim true chunk = .ok out ∧ ss.flatten = chunk ∧ Fed lim f ss out.2 := by
  rw [feed, if_neg (by simp [h.open_])]
  by_cases hc : chunk = []
  · rw [if_pos hc]
    exact ⟨_, [], rfl, by simp [hc], Fed.nil h⟩
  · rw [if_neg hc]
    obtain ⟨hss, hfed⟩ := feedLoop_spec chunk.length chunk h (Nat.le_refl _)
    exact ⟨_, _, rfl, hss, hfed⟩

/-- Feeding a segmentation absorbs some slices of the stream. -/
theorem feedAll_spec (chunks : List Bytes) (h : Ready lim f) :
    ∃ f' ss, f.feedAll lim true chunks = .ok f' ∧ ss.flatten = chunks.flatten ∧ Fed lim f ss f' := by
  induction chunks generalizing f with
  | nil => exact ⟨f, [], rfl, rfl, Fed.nil h⟩
  | cons c cs ih =>
    obtain ⟨out, ss, hout, hss, hfed⟩ := feed_spec h c
    obtain ⟨f', ss', hf', hss', hfed'⟩ := ih hfed.ready
    refine ⟨f', ss ++ ss', ?_, by simp [hss, hss'], hfed.trans hfed'⟩
    rw [feedAll, List.foldlM_cons, hout]
    exact hf'

/-- Chunks that fit the buffer behind any carry are taken as they are. -/
theorem feedAll_fits (chunks : List Bytes) (h : Ready lim f)
    (hfit : ∀ c ∈ chunks, c ≠ [] ∧ lim.maxDataLength + 10 + c.length ≤ lim.maxBufferBytes) :
    ∃ f', f.feedAll lim true chunks = .ok f' ∧ Fed lim f chunks f' := by
  induction chunks generalizing f with
  | nil => exact ⟨f, rfl, Fed.nil h⟩
  | cons c cs ih =>
    obtain ⟨hne, hlen⟩ := hfit c (by simp)
    have hcarry := h.carry
    have hfed := feedLoop_fits h hne (by omega)
    obtain ⟨f', hf', hfed'⟩ := ih hfed.ready fun d hd => hfit d (by simp [hd])
    refine ⟨f', ?_, hfed.trans hfed'⟩
    rw [feedAll, List.foldlM_cons, feed, if_neg (by simp [h.open_]), if_neg hne]
    exact hf'

theorem ready_new (lim : FramerLimits) : Ready lim {} := ⟨by simp [Within], rfl, by simp [available], rfl⟩

end Framer

/-! ## Whole runs -/

/-- The result of a run that recorded `ts` over a stream of `n` bytes. -/
def resultOf (lim : FramerLimits) (n : Nat) (ts : List Token) : FramingResult :=
  let l := (FramerLog.recordAll lim {} ts).finalizeOmittedIssues lim n
  { events := l.events
    issues := l.issues
    bytesSeen := n
    totalFrameCount := l.frameCount
    totalAckCount := l.ackCount
    eventsTruncated := l.eventsTruncated
    omittedIssueCount := l.omittedIssueCount }

/-- `finish` records the tokens of the carry and packs the log. -/
theorem Framer.finish_spec {lim : FramerLimits} {f : Framer} {ss : List Bytes}
    (h : Fed lim {} ss f) :
    (f.finish lim).1 = resultOf lim ss.flatten.length (runTokens lim.maxDataLength ss) := by
  have hp := process_spec lim true h.ready.within
  have hlog : (f.process lim true).toFramerLog =
      FramerLog.recordAll lim {} (runTokens lim.maxDataLength ss) := by
    have hbuf : f.buffered = (scanSlices lim.maxDataLength [] ss).2 := h.buffered
    have hl : f.toFramerLog = FramerLog.recordAll lim {} (scanSlices lim.maxDataLength [] ss).1 :=
      h.log
    rw [hp.log, hl, hbuf, runTokens, FramerLog.recordAll_append]
  have hseen : (f.process lim true).bytesSeen = ss.flatten.length := by
    have hoff := congrArg FramerLog.bufferOffset h.log
    have hflat := congrArg List.length (scanSlices_flatten lim.maxDataLength [] ss)
    have hav := h.ready.seen
    have hbuf : f.buffered = (scanSlices lim.maxDataLength [] ss).2 := h.buffered
    rw [FramerLog.recordAll_bufferOffset] at hoff
    rw [← buffered_length, hbuf] at hav
    rw [hp.bytesSeen, ← hav]
    show f.toFramerLog.bufferOffset + _ = _
    rw [hoff]
    simp only [List.length_append, List.nil_append] at hflat
    rw [← hflat]
    exact congrArg (· + _) (Nat.zero_add _)
  simp only [finish, h.ready.open_, Bool.false_eq_true, if_false, resultOf, hlog, hseen]

/-- **A run of the framer is a run over slices.** Whatever the segmentation, the result is the one
recorded for the tokens of some slices of the stream. -/
theorem frameChunks_eq (lim : FramerLimits) (chunks : List Bytes) :
    ∃ ss : List Bytes, ss.flatten = chunks.flatten ∧
      frameChunks lim true chunks =
        .ok (resultOf lim chunks.flatten.length (runTokens lim.maxDataLength ss)) := by
  obtain ⟨f, ss, hf, hss, hfed⟩ := Framer.feedAll_spec chunks (Framer.ready_new lim)
  refine ⟨ss, hss, ?_⟩
  rw [frameChunks, hf, ← hss]
  exact congrArg Except.ok (Framer.finish_spec hfed)

/-- The tokens of a stream that is framed at once. -/
def streamTokens (lim : FramerLimits) (payload : Bytes) : List Token :=
  runTokens lim.maxDataLength (Framer.cut lim payload.length [] payload)

theorem frameStream_eq (lim : FramerLimits) (payload : Bytes) :
    frameStream lim payload = .ok (resultOf lim payload.length (streamTokens lim payload)) := by
  obtain ⟨hss, hfed⟩ :=
    Framer.feedLoop_spec payload.length payload (Framer.ready_new lim) (Nat.le_refl _)
  have hfinish := Framer.finish_spec hfed
  rw [hss] at hfinish
  rw [frameStream, frameChunks, Framer.feedAll, List.foldlM_cons, Framer.feed]
  by_cases hp : payload = []
  · subst hp
    exact congrArg Except.ok hfinish
  · rw [if_neg (by simp), if_neg hp]
    exact congrArg Except.ok hfinish

theorem frameChunks_fits (lim : FramerLimits) (chunks : List Bytes)
    (hfit : ∀ c ∈ chunks, c ≠ [] ∧ lim.maxDataLength + 10 + c.length ≤ lim.maxBufferBytes) :
    frameChunks lim true chunks =
      .ok (resultOf lim chunks.flatten.length (runTokens lim.maxDataLength chunks)) := by
  obtain ⟨f, hf, hfed⟩ := Framer.feedAll_fits chunks (Framer.ready_new lim) hfit
  rw [frameChunks, hf]
  exact congrArg Except.ok (Framer.finish_spec hfed)

end RchProxy
