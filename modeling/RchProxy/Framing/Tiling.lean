import RchProxy.Lib.Tiles
import RchProxy.Framing.Log

/-!
# Every byte is accounted for

The ranges of the events and of the rejected bytes of a finished run tile the stream, and each
record shows the bytes of its own range (`ExactlyTiled`). The run is first described by the ranges
of its tokens, which tile the stream since the tokens are its bytes in order.
-/

namespace RchProxy

open Py Lib

/-- The codes of rejected bytes, the diagnostics that stand for bytes outside every event. -/
def IssueCode.isGap : IssueCode → Bool
  | unframedBytes | malformedHeader | oversizeFrame | invalidTerminator | truncatedFrame => true
  | _ => false

/-- `[stream_offset, end_offset)` of an event. -/
def StreamEvent.range (e : StreamEvent) : Nat × Nat := (e.streamOffset, e.endOffset)

/-- `[stream_offset, end_offset)` of a frame. -/
def RCHFrame.range (f : RCHFrame) : Nat × Nat := (f.streamOffset, f.endOffset)

/-- `[stream_offset, end_offset)` of an issue. -/
def FramingIssue.range (i : FramingIssue) : Nat × Nat := (i.streamOffset, i.endOffset)

/-- The ranges of the events of a result and of its rejected bytes. -/
def FramingResult.ranges (r : FramingResult) : List (Nat × Nat) :=
  r.events.map StreamEvent.range ++ (r.issues.filter (·.code.isGap)).map FramingIssue.range

/-- The bytes of a stream on a range. -/
def slice (p : Bytes) (range : Nat × Nat) : Bytes := (p.drop range.1).take (range.2 - range.1)

/-- A result that accounts for each byte of the stream `p` once, and shows it where it stands. -/
structure ExactlyTiled (lim : FramerLimits) (p : Bytes) (r : FramingResult) : Prop where
  /-- The ranges, sorted by offset, follow one another from the first byte to the last. -/
  tiles : Tiles 0 (r.ranges.mergeSort fun a b => a.1 ≤ b.1) p.length
  /-- Sorted or not, no two of them share a byte. -/
  disjoint : (r.ranges.mergeSort fun a b => a.1 ≤ b.1).Pairwise fun a b => a.2 ≤ b.1
  /-- They cover the stream, and nothing past it. -/
  covers : ∀ i, (∃ a ∈ r.ranges, a.1 ≤ i ∧ i < a.2) ↔ i < p.length
  /-- An event shows the bytes of its range. -/
  events : ∀ e ∈ r.events, e.raw = slice p e.range
  /-- An issue shows the first bytes of its range. -/
  issues : ∀ i ∈ r.issues, i.raw = (slice p i.range).take (min i.spanLength lim.maxIssueRawBytes)
  /-- A wrong BCC is reported on the range of exactly one frame, whose BCC is wrong. -/
  bcc : ∀ i ∈ r.issues, i.code = .invalidBcc →
    ∃ f, r.frames.filter (fun g => g.range == i.range) = [f] ∧ f.bccValid = false

/-! ## The tokens of a run -/

theorem Token.next_skip_isGap {m : Nat} {final : Bool} {w : Bytes} {code : IssueCode}
    {raw : Bytes} {detail : String} (h : Token.next m final w = some (.skip code raw detail)) :
    code.isGap = true := by
  cases w with
  | nil => cases h
  | cons b t =>
    simp only [Token.next] at h
    repeat' split at h
    all_goals (cases h <;> rfl)

/-- A token of a run: not empty, and a gap if it is rejected. -/
def Token.Proper (t : Token) : Prop :=
  t.raw ≠ [] ∧ ∀ code raw detail, t = .skip code raw detail → code.isGap = true

theorem runTokens_proper (m : Nat) (ss : List Bytes) : ∀ t ∈ runTokens m ss, t.Proper := by
  intro t ht
  obtain ⟨final, w, h⟩ := runTokens_next m ss t ht
  exact ⟨(Token.next_front h).1, fun code raw detail ht => Token.next_skip_isGap (ht ▸ h)⟩

/-- The ranges of tokens that start at `o`. -/
def tokenRanges : Nat → List Token → List (Nat × Nat)
  | _, [] => []
  | o, t :: ts => (o, o + t.raw.length) :: tokenRanges (o + t.raw.length) ts

theorem tokenRanges_tiles (o : Nat) (ts : List Token) (h : ∀ t ∈ ts, t.Proper) :
    Tiles o (tokenRanges o ts) (o + (ts.map Token.raw).flatten.length) := by
  induction ts generalizing o with
  | nil => exact .nil o
  | cons t ts ih =>
    have hpos : 0 < t.raw.length := List.length_pos_iff.mpr (h t (by simp)).1
    have := ih (o + t.raw.length) fun u hu => h u (by simp [hu])
    rw [Nat.add_assoc] at this
    simpa [tokenRanges] using Tiles.cons (by omega) this

/-- The events and the rejected bytes of a list of tokens have the ranges of the tokens. -/
theorem ranges_perm (lim : FramerLimits) (ec fc o : Nat) (ts : List Token)
    (h : ∀ t ∈ ts, t.Proper) (hn : ec + eventCountOf ts ≤ lim.maxEvents) :
    ((eventsOf ec fc o ts).map StreamEvent.range ++
      ((issuesOf lim ec o ts).filter (·.code.isGap)).map FramingIssue.range).Perm
        (tokenRanges o ts) := by
  induction ts generalizing ec fc o with
  | nil => exact .refl _
  | cons t ts ih =>
    have hts : ∀ u ∈ ts, u.Proper := fun u hu => h u (by simp [hu])
    cases t with
    | ack =>
      simp only [eventCountOf_ack] at hn
      have hne : ¬ ec = lim.maxEvents := by omega
      simpa [eventsOf, issuesOf, hne, tokenRanges, Token.raw, StreamEvent.range,
        StreamEvent.streamOffset, StreamEvent.endOffset, AckEvent.endOffset] using
        (ih (ec + 1) fc (o + 1) hts (by omega)).cons (o, o + 1)
    | frame raw =>
      simp only [eventCountOf_frame] at hn
      have hne : ¬ ec = lim.maxEvents := by omega
      have hgap : ∀ (c : Bool), ((if c then [] else [bccIssue lim o raw]).filter
          (·.code.isGap)) = [] := by intro c; cases c <;> rfl
      simpa [eventsOf, issuesOf, hne, hgap, tokenRanges, Token.raw, StreamEvent.range,
        StreamEvent.streamOffset, StreamEvent.endOffset, RCHFrame.endOffset,
        RCHFrame.ofRaw] using
        (ih (ec + 1) (fc + 1) (o + raw.length) hts (by omega)).cons (o, o + raw.length)
    | skip code raw detail =>
      have hcode : code.isGap = true := (h (.skip code raw detail) (by simp)).2 _ _ _ rfl
      have := (ih ec fc (o + raw.length) hts (by simpa using hn)).cons (o, o + raw.length)
      refine List.Perm.trans ?_ this
      simp [eventsOf, issuesOf, hcode, skipIssue, FramingIssue.range, FramingIssue.endOffset]

/-! ## What each record shows -/

/-- The number of bytes of some tokens. -/
def bytesOf (ts : List Token) : Nat := (ts.map Token.raw).flatten.length

@[simp] theorem bytesOf_nil : bytesOf [] = 0 := rfl

@[simp] theorem bytesOf_cons (t : Token) (ts : List Token) :
    bytesOf (t :: ts) = t.raw.length + bytesOf ts := by simp [bytesOf]

/-- An event is that of one token, at the offset of that token. -/
theorem mem_eventsOf {ec fc o : Nat} {ts : List Token} {e : StreamEvent}
    (he : e ∈ eventsOf ec fc o ts) :
    ∃ us t vs, ts = us ++ t :: vs ∧ e.streamOffset = o + bytesOf us ∧ e.raw = t.raw ∧
      e.endOffset = e.streamOffset + t.raw.length := by
  induction ts generalizing ec fc o with
  | nil => cases he
  | cons t ts ih =>
    -- an event of the tail is shifted by the bytes of the first token
    have tail : ∀ {ec fc : Nat}, e ∈ eventsOf ec fc (o + t.raw.length) ts →
        ∃ us u vs, t :: ts = us ++ u :: vs ∧ e.streamOffset = o + bytesOf us ∧ e.raw = u.raw ∧
          e.endOffset = e.streamOffset + u.raw.length := by
      intro ec fc he
      obtain ⟨us, u, vs, rfl, ho, hr⟩ := ih he
      exact ⟨t :: us, u, vs, rfl, by rw [ho, bytesOf_cons, Nat.add_assoc], hr⟩
    cases t with
    | ack =>
      rcases List.mem_cons.mp he with rfl | he
      · exact ⟨[], .ack, ts, rfl, rfl, rfl, rfl⟩
      · exact tail he
    | frame raw =>
      rcases List.mem_cons.mp he with rfl | he
      · exact ⟨[], .frame raw, ts, rfl, rfl, rfl, rfl⟩
      · exact tail he
    | skip code raw detail => exact tail he

/-- The issues of one token. -/
def tokenIssues (lim : FramerLimits) (ec o : Nat) (t : Token) : List FramingIssue :=
  issuesOf lim ec o [t]

/-- An issue is one of a single token, at the offset of that token. -/
theorem mem_issuesOf {lim : FramerLimits} {ec o : Nat} {ts : List Token} {i : FramingIssue}
    (hi : i ∈ issuesOf lim ec o ts) :
    ∃ us t vs, ts = us ++ t :: vs ∧
      i ∈ tokenIssues lim (ec + eventCountOf us) (o + bytesOf us) t := by
  induction ts generalizing ec o with
  | nil => cases hi
  | cons t ts ih =>
    have hcons := issuesOf_append lim ec o [t] ts
    rw [List.singleton_append] at hcons
    rw [hcons] at hi
    rcases List.mem_append.mp hi with hi | hi
    · exact ⟨[], t, ts, rfl, hi⟩
    · obtain ⟨us, u, vs, rfl, h⟩ := ih hi
      refine ⟨t :: us, u, vs, rfl, ?_⟩
      have hev : eventCountOf (t :: us) = eventCountOf [t] + eventCountOf us := by
        rw [← eventCountOf_append]; rfl
      simpa [hev, Nat.add_assoc, bytesOf] using h

/-- What the issue of a token can be. -/
theorem mem_tokenIssues {lim : FramerLimits} {ec o : Nat} {t : Token} {i : FramingIssue}
    (hi : i ∈ tokenIssues lim ec o t) :
    i = eventLimitIssue lim o ∨
      (∃ raw, t = .frame raw ∧ rawBccValid raw = false ∧ i = bccIssue lim o raw) ∨
      (∃ code raw detail, t = .skip code raw detail ∧ i = skipIssue lim o code raw detail) := by
  have hlimit : i ∈ (if ec = lim.maxEvents then [eventLimitIssue lim o] else []) →
      i = eventLimitIssue lim o := by
    intro h
    split at h
    · exact List.mem_singleton.mp h
    · cases h
  cases t with
  | ack => exact .inl (hlimit (by simpa [tokenIssues, issuesOf] using hi))
  | frame raw =>
    simp only [tokenIssues, issuesOf, List.append_nil, List.mem_append] at hi
    rcases hi with hi | hi
    · exact .inl (hlimit hi)
    · cases hb : rawBccValid raw with
      | true => simp [hb] at hi
      | false => exact .inr (.inl ⟨raw, rfl, hb, by simpa [hb] using hi⟩)
  | skip code raw detail =>
    exact .inr (.inr ⟨code, raw, detail, rfl, by simpa [tokenIssues, issuesOf] using hi⟩)

/-- The bytes of one token of a stream stand on its range. -/
theorem slice_token {p : Bytes} {us vs : List Token} {t : Token}
    (hp : ((us ++ t :: vs).map Token.raw).flatten = p) :
    slice p (bytesOf us, bytesOf us + t.raw.length) = t.raw := by
  subst hp
  simp only [slice, bytesOf, List.map_append, List.flatten_append, List.map_cons,
    List.flatten_cons, Nat.add_sub_cancel_left, List.drop_left, List.take_left]

/-- A preview of a token, in the words of the specification. -/
theorem take_slice {p : Bytes} {us vs : List Token} {t : Token} (n : Nat)
    (hp : ((us ++ t :: vs).map Token.raw).flatten = p) :
    t.raw.take n = (slice p (bytesOf us, bytesOf us + t.raw.length)).take (min t.raw.length n) := by
  rw [slice_token hp, Nat.min_comm, ← List.take_take, List.take_length]

section
variable {lim : FramerLimits} {p : Bytes} {ts : List Token}
  (hp : (ts.map Token.raw).flatten = p)
include hp

theorem eventsOf_raw : ∀ e ∈ eventsOf 0 0 0 ts, e.raw = slice p e.range := by
  intro e he
  obtain ⟨us, t, vs, rfl, ho, hr, hend⟩ := mem_eventsOf he
  rw [Nat.zero_add] at ho
  rw [StreamEvent.range, hend, ho, slice_token hp, hr]

theorem issuesOf_raw : ∀ i ∈ issuesOf lim 0 0 ts,
    i.raw = (slice p i.range).take (min i.spanLength lim.maxIssueRawBytes) := by
  intro i hi
  obtain ⟨us, t, vs, rfl, hmem⟩ := mem_issuesOf hi
  rw [Nat.zero_add, Nat.zero_add] at hmem
  rcases mem_tokenIssues hmem with rfl | ⟨raw, rfl, -, rfl⟩ | ⟨code, raw, detail, rfl, rfl⟩
  · simp [eventLimitIssue]
  · exact take_slice lim.maxIssueRawBytes hp
  · exact take_slice lim.maxIssueRawBytes hp

end

/-- The frames among some events. -/
def framesIn (es : List StreamEvent) : List RCHFrame := es.filterMap StreamEvent.frame?

@[simp] theorem framesIn_nil : framesIn [] = [] := rfl

@[simp] theorem framesIn_ack (a : AckEvent) (es : List StreamEvent) :
    framesIn (.ack a :: es) = framesIn es := rfl

@[simp] theorem framesIn_frame (f : RCHFrame) (es : List StreamEvent) :
    framesIn (.frame f :: es) = f :: framesIn es := rfl

@[simp] theorem framesIn_append (es es' : List StreamEvent) :
    framesIn (es ++ es') = framesIn es ++ framesIn es' := List.filterMap_append

theorem mem_framesIn {ec fc o : Nat} {ts : List Token} {f : RCHFrame}
    (hf : f ∈ framesIn (eventsOf ec fc o ts)) :
    ∃ us t vs, ts = us ++ t :: vs ∧ f.streamOffset = o + bytesOf us ∧
      f.endOffset = f.streamOffset + t.raw.length := by
  obtain ⟨e, he, hef⟩ := List.mem_filterMap.mp hf
  obtain ⟨us, t, vs, hts, ho, -, hend⟩ := mem_eventsOf he
  cases e with
  | ack a => cases hef
  | frame g => cases hef; exact ⟨us, t, vs, hts, ho, hend⟩

/-- The one frame on the range of a frame token. -/
theorem filter_frames (us vs : List Token) {raw : Bytes} (hne : raw ≠ []) :
    (framesIn (eventsOf 0 0 0 (us ++ .frame raw :: vs))).filter
        (fun g => g.range == (bytesOf us, bytesOf us + raw.length)) =
      [RCHFrame.ofRaw (eventCountOf us + 1) (frameCountOf us + 1) (bytesOf us) raw] := by
  have hpos : 0 < raw.length := List.length_pos_iff.mpr hne
  have hsplit : framesIn (eventsOf 0 0 0 (us ++ .frame raw :: vs)) =
      framesIn (eventsOf 0 0 0 us) ++
        RCHFrame.ofRaw (eventCountOf us + 1) (frameCountOf us + 1) (bytesOf us) raw ::
        framesIn (eventsOf (eventCountOf us + 1) (frameCountOf us + 1)
          (bytesOf us + raw.length) vs) := by
    rw [eventsOf_append]
    simp [eventsOf, bytesOf]
  have hbefore : (framesIn (eventsOf 0 0 0 us)).filter
      (fun g => g.range == (bytesOf us, bytesOf us + raw.length)) = [] := by
    rw [List.filter_eq_nil_iff]
    intro g hg
    obtain ⟨a, t, b, rfl, ho, hend⟩ := mem_framesIn hg
    simp only [RCHFrame.range, beq_iff_eq, Prod.mk.injEq, not_and]
    intro h1
    simp only [bytesOf, List.map_append, List.flatten_append, List.length_append, List.map_cons,
      List.flatten_cons] at *
    omega
  have hafter : (framesIn (eventsOf (eventCountOf us + 1) (frameCountOf us + 1)
      (bytesOf us + raw.length) vs)).filter
      (fun g => g.range == (bytesOf us, bytesOf us + raw.length)) = [] := by
    rw [List.filter_eq_nil_iff]
    intro g hg
    obtain ⟨a, t, b, rfl, ho, hend⟩ := mem_framesIn hg
    simp only [RCHFrame.range, beq_iff_eq, Prod.mk.injEq, not_and]
    omega
  rw [hsplit, List.filter_append, List.filter_cons, hbefore, hafter]
  simp [RCHFrame.range, RCHFrame.ofRaw, RCHFrame.endOffset]

/-! ## Whole runs -/

/-- The result of a run within the limits is made of the events and the issues of its tokens. -/
theorem resultOf_complete {lim : FramerLimits} {n : Nat} {ts : List Token}
    (he : (resultOf lim n ts).eventsTruncated = false)
    (hi : (resultOf lim n ts).omittedIssueCount = 0) :
    eventCountOf ts ≤ lim.maxEvents ∧ (resultOf lim n ts).events = eventsOf 0 0 0 ts ∧
      (resultOf lim n ts).issues = issuesOf lim 0 0 ts := by
  obtain ⟨-, -, ht, ho⟩ := resultOf_totals lim n ts
  rw [ht, decide_eq_false_iff_not, Nat.not_lt] at he
  rw [ho] at hi
  refine ⟨he, ?_, ?_⟩
  · rw [resultOf_events, List.take_of_length_le (by rw [eventsOf_length]; exact he)]
  · rw [resultOf_issues, if_pos (by omega)]

/-- A list of proper tokens is accounted for by its events and issues. -/
theorem exactlyTiled_of_tokens {lim : FramerLimits} {p : Bytes} {ts : List Token}
    {r : FramingResult} (hts : ∀ t ∈ ts, t.Proper) (hp : (ts.map Token.raw).flatten = p)
    (hn : eventCountOf ts ≤ lim.maxEvents) (he : r.events = eventsOf 0 0 0 ts)
    (hi : r.issues = issuesOf lim 0 0 ts) : ExactlyTiled lim p r := by
  have hperm : r.ranges.Perm (tokenRanges 0 ts) := by
    rw [FramingResult.ranges, he, hi]
    exact ranges_perm lim 0 0 0 ts hts (by omega)
  have htiles : Tiles 0 (tokenRanges 0 ts) p.length := by
    have := tokenRanges_tiles 0 ts hts
    rwa [hp, Nat.zero_add] at this
  have hsort := htiles.mergeSort_eq hperm
  refine ⟨hsort ▸ htiles, hsort ▸ htiles.disjoint, fun i => ?_, ?_, ?_, fun i hmem hcode => ?_⟩
  · simp only [hperm.mem_iff, htiles.covers i, Nat.zero_le, true_and]
  · rw [he]; exact eventsOf_raw hp
  · rw [hi]; exact issuesOf_raw hp
  · rw [hi] at hmem
    obtain ⟨us, t, vs, rfl, hone⟩ := mem_issuesOf hmem
    rw [Nat.zero_add, Nat.zero_add] at hone
    rcases mem_tokenIssues hone with rfl | ⟨raw, rfl, hb, rfl⟩ | ⟨code, raw, detail, rfl, rfl⟩
    · cases hcode
    · have hne : raw ≠ [] := (hts (.frame raw) (by simp)).1
      have hone := filter_frames us vs hne
      rw [framesIn, ← he] at hone
      exact ⟨_, hone, hb⟩
    · -- a rejected token has the code of a gap
      have hgap := (hts (.skip code raw detail) (by simp)).2 _ _ _ rfl
      rw [show code = .invalidBcc from hcode] at hgap
      cases hgap

/-- **No byte is lost, duplicated or misattributed.** A framer that keeps its history, fed any
segmentation of a stream and finished within its limits, accounts for every byte once. -/
theorem frameChunks_exactlyTiled (lim : FramerLimits) (chunks : List Bytes) :
    ∃ r, frameChunks lim true chunks = .ok r ∧
      (r.eventsTruncated = false → r.omittedIssueCount = 0 →
        ExactlyTiled lim chunks.flatten r) := by
  obtain ⟨ss, hss, hrun⟩ := frameChunks_eq lim chunks
  refine ⟨_, hrun, fun he hi => ?_⟩
  obtain ⟨hn, hev, his⟩ := resultOf_complete he hi
  exact exactlyTiled_of_tokens (runTokens_proper lim.maxDataLength ss)
    (by rw [runTokens_flatten, hss]) hn hev his

/-- Two stray bytes and an ACK, in two chunks. -/
theorem frameChunks_exactlyTiled_stray :
    ∃ r, frameChunks .default true [[0x41, 0x42], [ACK]] = .ok r ∧
      r.eventsTruncated = false ∧ r.omittedIssueCount = 0 ∧
      ExactlyTiled .default [0x41, 0x42, ACK] r := by
  obtain ⟨r, hr, h⟩ := frameChunks_exactlyTiled .default [[0x41, 0x42], [ACK]]
  have hr' : frameChunks .default true [[0x41, 0x42], [ACK]] = .ok
      { events := [.ack { eventId := 1, streamOffset := 2, raw := [ACK] }]
        issues := [{ code := .unframedBytes, streamOffset := 0, raw := [0x41, 0x42],
                     detail := "bytes outside an STX frame or standalone ACK", spanLength := 2 }]
        bytesSeen := 3
        totalFrameCount := 0
        totalAckCount := 1
        eventsTruncated := false
        omittedIssueCount := 0 } := by rfl
  rw [hr'] at hr
  cases hr
  exact ⟨_, hr', rfl, rfl, h rfl rfl⟩

/-- A framer that does not keep its history returns no event of the chunks from `finish`, so its
result accounts for nothing that was fed. -/
theorem nonretaining_run_not_tiled :
    ∃ r, frameChunks .default false [[ACK]] = .ok r ∧
      r.totalFrameCount + r.totalAckCount < FramerLimits.default.maxEvents ∧
      r.issues.length < FramerLimits.default.maxIssues ∧
      r.eventsTruncated = false ∧ r.omittedIssueCount = 0 ∧
      ¬ ExactlyTiled .default [ACK] r := by
  have hr : frameChunks .default false [[ACK]] = .ok
      { events := [], issues := [], bytesSeen := 1, totalFrameCount := 0, totalAckCount := 1,
        eventsTruncated := false, omittedIssueCount := 0 } := by rfl
  refine ⟨_, hr, by decide, by decide, rfl, rfl, fun h => ?_⟩
  have := (h.covers 0).mpr (by decide)
  simp [FramingResult.ranges] at this

end RchProxy
