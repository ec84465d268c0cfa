import RchProxy.Framing.Refine

/-!
# What a run records, in closed form

The events and the issues of a list of tokens, without limits (`eventsOf`, `issuesOf`), and the
result of a run in terms of them: the first `max_events` events, the first `max_issues` issues, and
the counters of all of them (`resultOf_eq`).
-/

namespace RchProxy

open Py

/-- A token that is an event, an ACK or a frame. -/
def Token.isEvent : Token → Bool
  | ack => true
  | frame _ => true
  | skip _ _ _ => false

/-- The number of events. -/
def eventCountOf (ts : List Token) : Nat := ts.countP Token.isEvent

/-- The number of ACKs. -/
def ackCountOf (ts : List Token) : Nat := ts.countP (· == .ack)

/-- The number of frames. -/
def frameCountOf (ts : List Token) : Nat :=
  ts.countP fun t => match t with | .frame _ => true | _ => false

section
variable (ts us : List Token) (raw : Bytes) (code : IssueCode) (detail : String)

@[simp] theorem eventCountOf_nil : eventCountOf [] = 0 := rfl
@[simp] theorem ackCountOf_nil : ackCountOf [] = 0 := rfl
@[simp] theorem frameCountOf_nil : frameCountOf [] = 0 := rfl

@[simp] theorem eventCountOf_ack : eventCountOf (.ack :: ts) = eventCountOf ts + 1 := by
  simp [eventCountOf, List.countP_cons, Token.isEvent]
@[simp] theorem eventCountOf_frame : eventCountOf (.frame raw :: ts) = eventCountOf ts + 1 := by
  simp [eventCountOf, List.countP_cons, Token.isEvent]
@[simp] theorem eventCountOf_skip :
    eventCountOf (.skip code raw detail :: ts) = eventCountOf ts := by
  simp [eventCountOf, Token.isEvent]

@[simp] theorem ackCountOf_ack : ackCountOf (.ack :: ts) = ackCountOf ts + 1 := by
  simp [ackCountOf]
@[simp] theorem ackCountOf_frame : ackCountOf (.frame raw :: ts) = ackCountOf ts := by
  simp [ackCountOf]
@[simp] theorem ackCountOf_skip : ackCountOf (.skip code raw detail :: ts) = ackCountOf ts := by
  simp [ackCountOf]

@[simp] theorem frameCountOf_ack : frameCountOf (.ack :: ts) = frameCountOf ts := by
  simp [frameCountOf]
@[simp] theorem frameCountOf_frame : frameCountOf (.frame raw :: ts) = frameCountOf ts + 1 := by
  simp [frameCountOf]
@[simp] theorem frameCountOf_skip :
    frameCountOf (.skip code raw detail :: ts) = frameCountOf ts := by
  simp [frameCountOf]

@[simp] theorem eventCountOf_append :
    eventCountOf (ts ++ us) = eventCountOf ts + eventCountOf us := by simp [eventCountOf]
@[simp] theorem ackCountOf_append :
    ackCountOf (ts ++ us) = ackCountOf ts + ackCountOf us := by simp [ackCountOf]
@[simp] theorem frameCountOf_append :
    frameCountOf (ts ++ us) = frameCountOf ts + frameCountOf us := by simp [frameCountOf]

end

/-- The events of a list of tokens, from the counters `ec`, `fc` and the offset `o` on. -/
def eventsOf : (ec fc o : Nat) → List Token → List StreamEvent
  | _, _, _, [] => []
  | ec, fc, o, .ack :: ts =>
    .ack { eventId := ec + 1, streamOffset := o, raw := [ACK] } :: eventsOf (ec + 1) fc (o + 1) ts
  | ec, fc, o, .frame raw :: ts =>
    .frame (RCHFrame.ofRaw (ec + 1) (fc + 1) o raw) ::
      eventsOf (ec + 1) (fc + 1) (o + raw.length) ts
  | ec, fc, o, .skip _ raw _ :: ts => eventsOf ec fc (o + raw.length) ts

/-- The BCC of a frame is right. -/
def rawBccValid (raw : Bytes) : Bool := (RCHFrame.ofRaw 0 0 0 raw).bccValid

@[simp] theorem ofRaw_bccValid (ec fc o : Nat) (raw : Bytes) :
    (RCHFrame.ofRaw ec fc o raw).bccValid = rawBccValid raw := rfl

/-- The issue of the first event past the limit. -/
def eventLimitIssue (lim : FramerLimits) (o : Nat) : FramingIssue :=
  { code := .eventLimitExceeded
    streamOffset := o
    raw := []
    detail := s!"more than {lim.maxEvents} stream events observed; " ++
      "additional parsed events were not retained"
    spanLength := 0 }

/-- The issues of a list of tokens, from the event counter `ec` and the offset `o` on. -/
def issuesOf (lim : FramerLimits) : (ec o : Nat) → List Token → List FramingIssue
  | _, _, [] => []
  | ec, o, .ack :: ts =>
    (if ec = lim.maxEvents then [eventLimitIssue lim o] else []) ++ issuesOf lim (ec + 1) (o + 1) ts
  | ec, o, .frame raw :: ts =>
    (if ec = lim.maxEvents then [eventLimitIssue lim o] else []) ++
      (if rawBccValid raw then [] else [bccIssue lim o raw]) ++
      issuesOf lim (ec + 1) (o + raw.length) ts
  | ec, o, .skip code raw detail :: ts =>
    skipIssue lim o code raw detail :: issuesOf lim ec (o + raw.length) ts

/-! ## Keeping the limits -/

/-- A log that keeps its limits: the events are the first of all that were counted, and issues are
omitted only once the list is full. -/
structure FramerLog.Tallied (lim : FramerLimits) (l : FramerLog) : Prop where
  events : l.events.length = min l.eventCount lim.maxEvents
  truncated : l.eventsTruncated = decide (lim.maxEvents < l.eventCount)
  issues : l.issues.length ≤ lim.maxIssues
  omitted : l.omittedIssueCount ≠ 0 → l.issues.length = lim.maxIssues

/-- The log with the issues `is` after it, as far as they fit. -/
def FramerLog.addIssues (lim : FramerLimits) (l : FramerLog) (is : List FramingIssue) : FramerLog :=
  { l with
    issues := l.issues ++ is.take (lim.maxIssues - l.issues.length)
    omittedIssueCount := l.omittedIssueCount + (is.length - (lim.maxIssues - l.issues.length)) }

section
variable {lim : FramerLimits} {l : FramerLog}

@[simp] theorem FramerLog.addIssues_nil : l.addIssues lim [] = l := by
  simp [addIssues]

theorem FramerLog.appendIssue_eq (i : FramingIssue) :
    l.appendIssue lim i = l.addIssues lim [i] := by
  unfold appendIssue addIssues
  split
  · next h =>
    obtain ⟨k, hk⟩ : ∃ k, lim.maxIssues - l.issues.length = k + 1 :=
      ⟨lim.maxIssues - l.issues.length - 1, by omega⟩
    simp [hk]
  · next h =>
    have hk : lim.maxIssues - l.issues.length = 0 := by omega
    simp [hk]

theorem FramerLog.addIssues_append (is js : List FramingIssue) :
    (l.addIssues lim is).addIssues lim js = l.addIssues lim (is ++ js) := by
  simp only [addIssues, List.length_append, List.length_take, List.append_assoc]
  have hroom : lim.maxIssues - (l.issues.length +
      min (lim.maxIssues - l.issues.length) is.length) =
        lim.maxIssues - l.issues.length - is.length := by omega
  rw [hroom, List.take_append]
  congr 1
  omega

/-- What a list of tokens adds to a log. -/
def FramerLog.after (lim : FramerLimits) (l : FramerLog) (ts : List Token) : FramerLog :=
  { l with
    bufferOffset := l.bufferOffset + (ts.map Token.raw).flatten.length
    eventCount := l.eventCount + eventCountOf ts
    frameCount := l.frameCount + frameCountOf ts
    ackCount := l.ackCount + ackCountOf ts
    events := l.events ++ (eventsOf l.eventCount l.frameCount l.bufferOffset ts).take
      (lim.maxEvents - l.events.length)
    eventsTruncated := decide (lim.maxEvents < l.eventCount + eventCountOf ts)
  }.addIssues lim (issuesOf lim l.eventCount l.bufferOffset ts)

/-- An event past the limit is only noted, the first one with an issue. -/
theorem FramerLog.appendEvent_eq (e : StreamEvent) (h : l.Tallied lim) :
    { l with eventCount := l.eventCount + 1 }.appendEvent lim e =
      { l with
        eventCount := l.eventCount + 1
        events := l.events ++ [e].take (lim.maxEvents - l.events.length)
        eventsTruncated := decide (lim.maxEvents < l.eventCount + 1) }.addIssues lim
          (if l.eventCount = lim.maxEvents then [eventLimitIssue lim e.streamOffset] else []) := by
  have hev := h.events
  have htr := h.truncated
  unfold appendEvent
  by_cases hlt : l.events.length < lim.maxEvents
  · obtain ⟨k, hk⟩ : ∃ k, lim.maxEvents - l.events.length = k + 1 :=
      ⟨lim.maxEvents - l.events.length - 1, by omega⟩
    have h1 : ¬ l.eventCount = lim.maxEvents := by omega
    have h2 : ¬ lim.maxEvents < l.eventCount + 1 := by omega
    have h3 : l.eventsTruncated = false := by rw [htr]; simp; omega
    simp [hlt, hk, h1, h2, h3]
  · have h0 : lim.maxEvents - l.events.length = 0 := by omega
    have h2 : lim.maxEvents < l.eventCount + 1 := by omega
    simp only [if_neg hlt, h0, List.take_zero, List.append_nil, decide_eq_true h2]
    by_cases h1 : l.eventCount = lim.maxEvents
    · have h3 : l.eventsTruncated = false := by rw [htr]; simp; omega
      simp only [noteEventLimit, h3, Bool.false_eq_true, if_false, if_pos h1, appendIssue_eq]
      rfl
    · have h3 : l.eventsTruncated = true := by rw [htr]; simp; omega
      simp [noteEventLimit, h3, if_neg h1]

theorem FramerLog.record_eq (t : Token) (h : l.Tallied lim) :
    l.record lim t = l.after lim [t] := by
  have htr := h.truncated
  cases t with
  | ack =>
    have h' : FramerLog.Tallied lim { l with
      bufferOffset := l.bufferOffset + 1, ackCount := l.ackCount + 1 } := ⟨h.1, h.2, h.3, h.4⟩
    have := appendEvent_eq (.ack ⟨l.eventCount + 1, l.bufferOffset, [ACK]⟩) h'
    simpa [record, after, Token.raw, eventsOf, issuesOf, StreamEvent.streamOffset] using this
  | frame raw =>
    have h' : FramerLog.Tallied lim { l with
      bufferOffset := l.bufferOffset + raw.length, frameCount := l.frameCount + 1 } :=
        ⟨h.1, h.2, h.3, h.4⟩
    have := appendEvent_eq
      (.frame (RCHFrame.ofRaw (l.eventCount + 1) (l.frameCount + 1) l.bufferOffset raw)) h'
    by_cases hb : rawBccValid raw = true
    · simp only [record, ofRaw_bccValid, hb, if_true]
      rw [this]
      simp [after, Token.raw, eventsOf, issuesOf, StreamEvent.streamOffset, RCHFrame.ofRaw, hb]
    · simp only [record, ofRaw_bccValid, hb]
      rw [this, appendIssue_eq, addIssues_append]
      simp [after, Token.raw, eventsOf, issuesOf, StreamEvent.streamOffset, RCHFrame.ofRaw, hb]
  | skip code raw detail =>
    simp [record, after, appendIssue_eq, Token.raw, eventsOf, issuesOf, ← htr]

theorem eventsOf_length (ec fc o : Nat) (ts : List Token) :
    (eventsOf ec fc o ts).length = eventCountOf ts := by
  induction ts generalizing ec fc o with
  | nil => rfl
  | cons t ts ih => cases t <;> simp [eventsOf, ih]

theorem FramerLog.after_tallied (ts : List Token) (h : l.Tallied lim) :
    (l.after lim ts).Tallied lim := by
  have hev := h.events
  have his := h.issues
  have hom := h.omitted
  refine ⟨?_, rfl, ?_, fun h0 => ?_⟩
  · simp only [after, addIssues, List.length_append, List.length_take, eventsOf_length]
    omega
  · simp only [after, addIssues, List.length_append, List.length_take]
    omega
  · simp only [after, addIssues, List.length_append, List.length_take] at h0 ⊢
    by_cases h1 : l.omittedIssueCount = 0
    · omega
    · have := hom h1; omega

theorem eventsOf_append (ec fc o : Nat) (ts us : List Token) :
    eventsOf ec fc o (ts ++ us) = eventsOf ec fc o ts ++
      eventsOf (ec + eventCountOf ts) (fc + frameCountOf ts)
        (o + (ts.map Token.raw).flatten.length) us := by
  induction ts generalizing ec fc o with
  | nil => simp [eventsOf]
  | cons t ts ih =>
    cases t <;> simp [eventsOf, ih, Token.raw] <;> congr 1 <;> omega

theorem issuesOf_append (lim : FramerLimits) (ec o : Nat) (ts us : List Token) :
    issuesOf lim ec o (ts ++ us) = issuesOf lim ec o ts ++
      issuesOf lim (ec + eventCountOf ts) (o + (ts.map Token.raw).flatten.length) us := by
  induction ts generalizing ec o with
  | nil => simp [issuesOf]
  | cons t ts ih =>
    cases t <;> simp [issuesOf, ih, Token.raw] <;> congr 1 <;> omega

theorem FramerLog.after_after (ts us : List Token) (h : l.Tallied lim) :
    (l.after lim ts).after lim us = l.after lim (ts ++ us) := by
  have hev := h.events
  have hroom : lim.maxEvents - (l.events ++ (eventsOf l.eventCount l.frameCount l.bufferOffset
      ts).take (lim.maxEvents - l.events.length)).length =
        lim.maxEvents - l.events.length - eventCountOf ts := by
    simp only [List.length_append, List.length_take, eventsOf_length]
    omega
  have hrec : l.after lim (ts ++ us) =
      ({ l with
        bufferOffset := l.bufferOffset + ((ts ++ us).map Token.raw).flatten.length
        eventCount := l.eventCount + eventCountOf (ts ++ us)
        frameCount := l.frameCount + frameCountOf (ts ++ us)
        ackCount := l.ackCount + ackCountOf (ts ++ us)
        events := l.events ++ (eventsOf l.eventCount l.frameCount l.bufferOffset (ts ++ us)).take
          (lim.maxEvents - l.events.length)
        eventsTruncated :=
          decide (lim.maxEvents < l.eventCount + eventCountOf (ts ++ us)) }.addIssues lim
          (issuesOf lim l.eventCount l.bufferOffset ts)).addIssues lim
            (issuesOf lim (l.eventCount + eventCountOf ts)
              (l.bufferOffset + (ts.map Token.raw).flatten.length) us) := by
    rw [addIssues_append, after, issuesOf_append]
  rw [hrec]
  -- the limit on the issues acts through `addIssues`, on both sides twice
  rw [after, after]
  simp only [hroom, addIssues]
  simp only [eventsOf_append, List.take_append, eventsOf_length, List.map_append,
    List.flatten_append, List.length_append, eventCountOf_append, frameCountOf_append,
    ackCountOf_append, List.append_assoc, Nat.add_assoc]

/-- Recording a list of tokens, in closed form. -/
theorem FramerLog.recordAll_eq (ts : List Token) (h : l.Tallied lim) :
    l.recordAll lim ts = l.after lim ts := by
  induction ts generalizing l with
  | nil =>
    have := h.truncated
    obtain ⟨o, ec, fc, ac, ev, is, tr, om⟩ := l
    have htr : tr = decide (lim.maxEvents < ec) := this
    subst htr
    simp only [after, eventsOf, issuesOf, List.take_nil, List.append_nil, addIssues_nil]
    rfl
  | cons t ts ih =>
    rw [recordAll_cons, record_eq t h, ih (after_tallied [t] h), after_after [t] ts h]
    rfl

end

theorem tallied_new (lim : FramerLimits) : FramerLog.Tallied lim {} :=
  ⟨by simp, by simp, by simp, by simp⟩

/-! ## The result of a run -/

/-- The summary issue of `_finalize_omitted_issues`. -/
def omittedSummary (n omitted : Nat) : FramingIssue :=
  { code := .issueLimitExceeded
    streamOffset := n
    raw := []
    detail := s!"{omitted} additional framing issue(s) omitted " ++ "by the diagnostic limit"
    spanLength := 0 }

section
variable (lim : FramerLimits) (n : Nat) (ts : List Token)

theorem finalize_events (l : FramerLog) :
    (l.finalizeOmittedIssues lim n).events = l.events ∧
      (l.finalizeOmittedIssues lim n).frameCount = l.frameCount ∧
      (l.finalizeOmittedIssues lim n).ackCount = l.ackCount ∧
      (l.finalizeOmittedIssues lim n).eventsTruncated = l.eventsTruncated ∧
      (l.finalizeOmittedIssues lim n).omittedIssueCount = l.omittedIssueCount := by
  unfold FramerLog.finalizeOmittedIssues
  split
  · simp
  · simp only; split <;> simp

theorem resultOf_events :
    (resultOf lim n ts).events = (eventsOf 0 0 0 ts).take lim.maxEvents := by
  rw [resultOf, FramerLog.recordAll_eq ts (tallied_new lim)]
  simp only [(finalize_events lim n _).1]
  simp [FramerLog.after, FramerLog.addIssues]

theorem resultOf_totals :
    (resultOf lim n ts).totalFrameCount = frameCountOf ts ∧
      (resultOf lim n ts).totalAckCount = ackCountOf ts ∧
      (resultOf lim n ts).eventsTruncated = decide (lim.maxEvents < eventCountOf ts) ∧
      (resultOf lim n ts).omittedIssueCount = (issuesOf lim 0 0 ts).length - lim.maxIssues := by
  rw [resultOf, FramerLog.recordAll_eq ts (tallied_new lim)]
  obtain ⟨-, h2, h3, h4, h5⟩ := finalize_events lim n (FramerLog.after lim {} ts)
  simp only [h2, h3, h4, h5]
  simp [FramerLog.after, FramerLog.addIssues]

/-- The issues of a run: all of them, or the first ones and the summary. -/
theorem resultOf_issues :
    (resultOf lim n ts).issues =
      if (issuesOf lim 0 0 ts).length ≤ lim.maxIssues then issuesOf lim 0 0 ts
      else (issuesOf lim 0 0 ts).take (lim.maxIssues - 1) ++
        [omittedSummary n ((issuesOf lim 0 0 ts).length - lim.maxIssues)] := by
  rw [resultOf, FramerLog.recordAll_eq ts (tallied_new lim)]
  have hi : (FramerLog.after lim {} ts).issues = (issuesOf lim 0 0 ts).take lim.maxIssues := by
    simp [FramerLog.after, FramerLog.addIssues]
  have ho : (FramerLog.after lim {} ts).omittedIssueCount =
      (issuesOf lim 0 0 ts).length - lim.maxIssues := by
    simp [FramerLog.after, FramerLog.addIssues]
  simp only [FramerLog.finalizeOmittedIssues, ho]
  split
  · next h0 => rw [if_pos (by omega), hi, List.take_of_length_le (by omega)]
  · next h0 =>
    have hp := lim.issues_pos
    rw [if_pos (by rw [hi, List.length_take]; omega), if_neg (by omega), hi, List.dropLast_take]
    · rfl
    · omega

/-- An issue of a result is one of its tokens, or the summary. -/
theorem mem_resultOf_issues {lim : FramerLimits} {n : Nat} {ts : List Token} {i : FramingIssue}
    (h : i ∈ (resultOf lim n ts).issues) :
    i ∈ issuesOf lim 0 0 ts ∨ i.code = .issueLimitExceeded := by
  rw [resultOf_issues] at h
  split at h
  · exact .inl h
  · rcases List.mem_append.mp h with h | h
    · exact .inl (List.mem_of_mem_take h)
    · exact .inr (by rw [List.mem_singleton.mp h]; rfl)

end

end RchProxy
