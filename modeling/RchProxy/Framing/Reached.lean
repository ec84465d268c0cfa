import Mathlib.Data.List.Induction
import RchProxy.Framing.Log

/-!
# The states a framer reaches

A framer that keeps its history and one that does not read the same slices of the chunks they are
fed (`slicesOf`) and hold the same carry; they differ in the log alone. `Reached` says what is known
of either after any chunks, and `Reached.feed` carries it over one more. The slices depend on the
buffer size and the length limit only, so runs that differ in the other limits read the same tokens.
-/

namespace RchProxy

open Py

/-- The log of a framer that does not keep its history, after a `feed`: the counters stay. -/
def FramerLog.forget (l : FramerLog) : FramerLog :=
  { l with events := [], issues := [], eventsTruncated := false, omittedIssueCount := 0 }

namespace Framer

/-- The slices that feeding the chunks cuts them into, behind what is buffered. -/
def slicesOf (lim : FramerLimits) : Bytes → List Bytes → List Bytes
  | _, [] => []
  | carry, chunk :: chunks =>
    let here := cut lim chunk.length carry chunk
    here ++ slicesOf lim (scanSlices lim.maxDataLength carry here).2 chunks

theorem slicesOf_append (lim : FramerLimits) (carry : Bytes) (chunks chunks' : List Bytes) :
    slicesOf lim carry (chunks ++ chunks') = slicesOf lim carry chunks ++
      slicesOf lim (scanSlices lim.maxDataLength carry (slicesOf lim carry chunks)).2 chunks' := by
  induction chunks generalizing carry with
  | nil => rfl
  | cons c cs ih => simp only [List.cons_append, slicesOf, ih, List.append_assoc, scanSlices_append]

section
variable (lim lim' : FramerLimits) (hb : lim.maxBufferBytes = lim'.maxBufferBytes)
  (hd : lim.maxDataLength = lim'.maxDataLength)
include hb hd

theorem cut_congr (fuel : Nat) (carry view : Bytes) :
    cut lim fuel carry view = cut lim' fuel carry view := by
  induction fuel generalizing carry view with
  | zero => rfl
  | succ fuel ih => simp only [cut, hb, hd, ih]

/-- The limits on events and issues play no part in how chunks are cut. -/
theorem slicesOf_congr (carry : Bytes) (chunks : List Bytes) :
    slicesOf lim carry chunks = slicesOf lim' carry chunks := by
  induction chunks generalizing carry with
  | nil => rfl
  | cons c cs ih => simp only [slicesOf, cut_congr lim lim' hb hd, hd, ih]

end

variable {lim : FramerLimits} {retain : Bool} {f : Framer}

/-- `feed` as the loop over the slices of the chunk, and what is kept of its log. -/
theorem feed_eq (h : Ready lim f) (chunk : Bytes) :
    f.feed lim retain chunk = .ok
      ((feedLoop lim chunk.length f chunk).events.drop f.events.length,
        if retain || chunk.isEmpty then feedLoop lim chunk.length f chunk
        else { feedLoop lim chunk.length f chunk with
          toFramerLog := (feedLoop lim chunk.length f chunk).toFramerLog.forget }) := by
  rw [feed, if_neg (by simp [h.open_])]
  cases chunk with
  | nil => simp [feedLoop]
  | cons b chunk =>
    rw [if_neg (List.cons_ne_nil b chunk)]
    cases retain <;> rfl

/-- What is known of a framer that was fed `chunks`. -/
structure Reached (lim : FramerLimits) (retain : Bool) (chunks : List Bytes) (f : Framer) : Prop where
  ready : Ready lim f
  flatten : (slicesOf lim [] chunks).flatten = chunks.flatten
  buffered : f.buffered = (scanSlices lim.maxDataLength [] (slicesOf lim [] chunks)).2
  kept : retain = true → f.toFramerLog =
    FramerLog.recordAll lim {} (scanSlices lim.maxDataLength [] (slicesOf lim [] chunks)).1
  forgot : retain = false → f.toFramerLog.forget = f.toFramerLog

theorem reached_new (lim : FramerLimits) (retain : Bool) : Reached lim retain [] {} :=
  ⟨ready_new lim, rfl, rfl, fun _ => rfl, fun _ => rfl⟩

/-- The loop of `feed` on a reached state. -/
theorem Reached.feedLoop {chunks : List Bytes} (h : Reached lim retain chunks f) (chunk : Bytes) :
    (slicesOf lim [] (chunks ++ [chunk])).flatten = (chunks ++ [chunk]).flatten ∧
      Fed lim f (cut lim chunk.length f.buffered chunk)
        (Framer.feedLoop lim chunk.length f chunk) ∧
      slicesOf lim [] (chunks ++ [chunk]) =
        slicesOf lim [] chunks ++ cut lim chunk.length f.buffered chunk := by
  obtain ⟨hflat, hfed⟩ := feedLoop_spec chunk.length chunk h.ready (Nat.le_refl _)
  have hs : slicesOf lim [] (chunks ++ [chunk]) =
      slicesOf lim [] chunks ++ cut lim chunk.length f.buffered chunk := by
    rw [slicesOf_append, h.buffered]
    simp [slicesOf]
  refine ⟨?_, hfed, hs⟩
  rw [hs, List.flatten_append, List.flatten_append, h.flatten, hflat]
  simp

/-- One more chunk. -/
theorem Reached.feed {chunks : List Bytes} (h : Reached lim retain chunks f) (chunk : Bytes) :
    ∃ out, f.feed lim retain chunk = .ok out ∧ Reached lim retain (chunks ++ [chunk]) out.2 := by
  obtain ⟨hflat, hfed, hs⟩ := h.feedLoop chunk
  refine ⟨_, feed_eq h.ready chunk, ?_⟩
  have hbuf : (Framer.feedLoop lim chunk.length f chunk).buffered =
      (scanSlices lim.maxDataLength [] (slicesOf lim [] (chunks ++ [chunk]))).2 := by
    rw [hfed.buffered, hs, scanSlices_append, h.buffered]
  cases retain with
  | true =>
    refine ⟨hfed.ready, hflat, hbuf, fun _ => ?_, nofun⟩
    simp only [Bool.true_or, if_true]
    rw [hfed.log, h.kept rfl, hs, scanSlices_append, FramerLog.recordAll_append, h.buffered]
  | false =>
    cases chunk with
    | nil => exact ⟨h.ready, hflat, hbuf, nofun, fun _ => h.forgot rfl⟩
    | cons b chunk =>
      have hr := hfed.ready
      exact ⟨⟨hr.within, hr.seen, hr.carry, hr.open_⟩, hflat, hbuf, nofun, fun _ => rfl⟩

/-- Feeding one chunk more. -/
theorem feedAll_concat {chunks : List Bytes} {chunk : Bytes} {g : Framer}
    {out : List StreamEvent × Framer} (hg : feedAll lim retain f chunks = .ok g)
    (hout : g.feed lim retain chunk = .ok out) :
    feedAll lim retain f (chunks ++ [chunk]) = .ok out.2 := by
  rw [feedAll, List.foldlM_append, ← feedAll, hg]
  simp only [List.foldlM_cons, List.foldlM_nil, bind, pure, Except.bind, Except.pure, Except.map,
    hout]

/-- Feeding chunks never fails. -/
theorem feedAll_reached (lim : FramerLimits) (retain : Bool) (chunks : List Bytes) :
    ∃ f, feedAll lim retain {} chunks = .ok f ∧ Reached lim retain chunks f := by
  induction chunks using List.reverseRecOn with
  | nil => exact ⟨{}, rfl, reached_new lim retain⟩
  | append_singleton chunks chunk ih =>
    obtain ⟨f, hf, h⟩ := ih
    obtain ⟨out, hout, h'⟩ := h.feed chunk
    exact ⟨out.2, feedAll_concat hf hout, h'⟩

/-! ## What each feed returns -/

/-- Feeding the chunks in order, with what each `feed` returns. -/
def feedEach (lim : FramerLimits) (retain : Bool) (f : Framer) :
    List Bytes → Except Error (List (List StreamEvent) × Framer)
  | [] => .ok ([], f)
  | chunk :: chunks => do
    let (emitted, f) ← f.feed lim retain chunk
    let (rest, f) ← feedEach lim retain f chunks
    return (emitted :: rest, f)

/-- `max_events` was not reached while `outs` were returned: by all events of a framer that keeps
them, by those of any one `feed` if it does not. -/
def BelowLimit (lim : FramerLimits) (retain : Bool) (outs : List (List StreamEvent)) : Prop :=
  if retain then outs.flatten.length < lim.maxEvents else ∀ out ∈ outs, out.length < lim.maxEvents

instance (lim : FramerLimits) (retain : Bool) (outs : List (List StreamEvent)) :
    Decidable (BelowLimit lim retain outs) :=
  inferInstanceAs (Decidable (if retain then _ else _))

theorem feedEach_feedAll (lim : FramerLimits) (retain : Bool) (f : Framer) (chunks : List Bytes) :
    (feedEach lim retain f chunks).map (·.2) = feedAll lim retain f chunks := by
  induction chunks generalizing f with
  | nil => rfl
  | cons c cs ih =>
    rw [feedEach, feedAll, List.foldlM_cons]
    cases hfeed : f.feed lim retain c with
    | error e => rfl
    | ok out =>
      have := ih out.2
      simp only [feedAll] at this
      simp only [bind, Except.bind, Except.map, pure, Except.pure] at this ⊢
      rw [← this]
      cases feedEach lim retain out.2 cs <;> rfl

end Framer

section
variable (lim : FramerLimits) (l : FramerLog)

theorem FramerLog.appendIssue_counters (i : FramingIssue) :
    (l.appendIssue lim i).eventCount = l.eventCount ∧
      (l.appendIssue lim i).frameCount = l.frameCount := by
  unfold appendIssue; split <;> exact ⟨rfl, rfl⟩

theorem FramerLog.appendEvent_counters (e : StreamEvent) :
    (l.appendEvent lim e).eventCount = l.eventCount ∧
      (l.appendEvent lim e).frameCount = l.frameCount := by
  unfold appendEvent noteEventLimit
  split
  · exact ⟨rfl, rfl⟩
  split
  · exact ⟨rfl, rfl⟩
  · exact appendIssue_counters lim _ _

theorem FramerLog.record_counters (t : Token) :
    (l.record lim t).eventCount = l.eventCount + eventCountOf [t] ∧
      (l.record lim t).frameCount = l.frameCount + frameCountOf [t] := by
  cases t with
  | ack => exact appendEvent_counters lim _ _
  | frame raw =>
    simp only [record]
    split
    · exact appendEvent_counters lim _ _
    · obtain ⟨h1, h2⟩ := appendIssue_counters lim ({ l with
        bufferOffset := l.bufferOffset + raw.length
        eventCount := l.eventCount + 1
        frameCount := l.frameCount + 1 }.appendEvent lim
          (.frame (RCHFrame.ofRaw (l.eventCount + 1) (l.frameCount + 1) l.bufferOffset raw)))
        (bccIssue lim l.bufferOffset raw)
      rw [h1, h2]
      exact appendEvent_counters lim _ _
  | skip code raw detail => exact appendIssue_counters lim _ _

/-- The counters count every token, whatever the limits. -/
theorem FramerLog.recordAll_counters (ts : List Token) :
    (l.recordAll lim ts).eventCount = l.eventCount + eventCountOf ts ∧
      (l.recordAll lim ts).frameCount = l.frameCount + frameCountOf ts := by
  induction ts generalizing l with
  | nil => exact ⟨rfl, rfl⟩
  | cons t ts ih =>
    obtain ⟨h1, h2⟩ := record_counters lim l t
    obtain ⟨h3, h4⟩ := ih (l.record lim t)
    have he := eventCountOf_append [t] ts
    have hf := frameCountOf_append [t] ts
    rw [List.singleton_append] at he hf
    rw [recordAll_cons, h3, h4, h1, h2, he, hf]
    exact ⟨Nat.add_assoc .., Nat.add_assoc ..⟩

end

/-- The events of the tokens are kept as long as there is room for them. -/
theorem FramerLog.recordAll_events (lim : FramerLimits) (l : FramerLog) (ts : List Token) :
    (l.recordAll lim ts).events = l.events ++
      (eventsOf l.eventCount l.frameCount l.bufferOffset ts).take
        (lim.maxEvents - l.events.length) := by
  have event : ∀ (l : FramerLog) (e : StreamEvent) (es : List StreamEvent),
      (l.appendEvent lim e).events ++ es.take (lim.maxEvents - (l.appendEvent lim e).events.length) =
        l.events ++ (e :: es).take (lim.maxEvents - l.events.length) := by
    intro l e es
    by_cases hlt : l.events.length < lim.maxEvents
    · have hev : (l.appendEvent lim e).events = l.events ++ [e] := by
        rw [appendEvent, if_pos hlt]
      obtain ⟨k, hk⟩ : ∃ k, lim.maxEvents - l.events.length = k + 1 :=
        ⟨lim.maxEvents - l.events.length - 1, by omega⟩
      rw [hev, hk, List.length_append, List.length_singleton,
        show lim.maxEvents - (l.events.length + 1) = k by omega]
      simp
    · have hev : (l.appendEvent lim e).events = l.events := by
        rw [appendEvent, if_neg hlt, Framer.noteEventLimit_events]
      rw [hev, show lim.maxEvents - l.events.length = 0 by omega]
      rfl
  induction ts generalizing l with
  | nil => simp [eventsOf]
  | cons t ts ih =>
    obtain ⟨hec, hfc⟩ := record_counters lim l t
    rw [recordAll_cons, ih, record_bufferOffset, hec, hfc]
    cases t with
    | ack =>
      have := event { l with
        bufferOffset := l.bufferOffset + 1
        eventCount := l.eventCount + 1
        ackCount := l.ackCount + 1 }
        (.ack { eventId := l.eventCount + 1, streamOffset := l.bufferOffset, raw := [ACK] })
        (eventsOf (l.eventCount + 1) l.frameCount (l.bufferOffset + 1) ts)
      exact this
    | frame raw =>
      have := event { l with
        bufferOffset := l.bufferOffset + raw.length
        eventCount := l.eventCount + 1
        frameCount := l.frameCount + 1 }
        (.frame (RCHFrame.ofRaw (l.eventCount + 1) (l.frameCount + 1) l.bufferOffset raw))
        (eventsOf (l.eventCount + 1) (l.frameCount + 1) (l.bufferOffset + raw.length) ts)
      simp only [record]
      split
      · exact this
      · simp only [appendIssue_events]
        exact this
    | skip code raw detail =>
      simp only [record, appendIssue_events]
      rfl

namespace Framer

variable {lim : FramerLimits} {f : Framer}

/-- What one `feed` returns, as long as the limit on events leaves room. -/
theorem Ready.emitted (h : Ready lim f) (chunk : Bytes) :
    (feedLoop lim chunk.length f chunk).events = f.events ++
        (feedLoop lim chunk.length f chunk).events.drop f.events.length ∧
      (f.events.length + ((feedLoop lim chunk.length f chunk).events.drop f.events.length).length <
          lim.maxEvents →
        (feedLoop lim chunk.length f chunk).events.drop f.events.length =
          eventsOf f.eventCount f.frameCount f.bufferOffset
            (scanSlices lim.maxDataLength f.buffered (cut lim chunk.length f.buffered chunk)).1) := by
  obtain ⟨-, hfed⟩ := feedLoop_spec chunk.length chunk h (Nat.le_refl _)
  have hev : (feedLoop lim chunk.length f chunk).events = _ := congrArg FramerLog.events hfed.log
  rw [FramerLog.recordAll_events] at hev
  rw [hev, List.drop_left]
  refine ⟨rfl, fun hlt => ?_⟩
  rw [List.length_take] at hlt
  exact List.take_of_length_le (by omega)

/-- Below the limit on events, the feeds return the events of the slices, in order. -/
theorem feedEach_events (retain : Bool) (chunks : List Bytes) (h : Ready lim f) :
    ∃ outs f', feedEach lim retain f chunks = .ok (outs, f') ∧
      ((if retain then f.events.length + outs.flatten.length < lim.maxEvents
        else f.events = [] ∧ ∀ out ∈ outs, out.length < lim.maxEvents) →
        outs.flatten = eventsOf f.eventCount f.frameCount f.bufferOffset
          (scanSlices lim.maxDataLength f.buffered (slicesOf lim f.buffered chunks)).1) := by
  induction chunks generalizing f with
  | nil => exact ⟨[], f, rfl, fun _ => rfl⟩
  | cons c cs ih =>
    obtain ⟨-, hfed⟩ := feedLoop_spec c.length c h (Nat.le_refl _)
    obtain ⟨hev, hemit⟩ := h.emitted c
    have hfeed : f.feed lim retain c = _ := feed_eq h c
    generalize Framer.feedLoop lim c.length f c = g at hfed hev hemit hfeed
    generalize hout : g.events.drop f.events.length = emitted at hev hemit hfeed
    -- the state after the chunk: what it reads on with is that of `g`
    obtain ⟨g', hg', hready, hbuf, hec, hfc, hoff, hkeep⟩ : ∃ g' : Framer,
        (if retain || c.isEmpty then g else { g with toFramerLog := g.toFramerLog.forget }) = g' ∧
        Ready lim g' ∧ g'.buffered = g.buffered ∧ g'.eventCount = g.eventCount ∧
        g'.frameCount = g.frameCount ∧ g'.bufferOffset = g.bufferOffset ∧
        (g' = g ∧ (retain = true ∨ c = []) ∨ retain = false ∧ g'.events = []) := by
      have hr := hfed.ready
      split
      · next hk =>
        rw [Bool.or_eq_true, List.isEmpty_iff] at hk
        exact ⟨g, rfl, hr, rfl, rfl, rfl, rfl, .inl ⟨rfl, hk⟩⟩
      · next hne =>
        rw [Bool.or_eq_true, not_or, Bool.not_eq_true] at hne
        exact ⟨_, rfl, ⟨hr.within, hr.seen, hr.carry, hr.open_⟩, rfl, rfl, rfl, rfl,
          .inr ⟨hne.1, rfl⟩⟩
    rw [hg'] at hfeed
    obtain ⟨outs, f', hrest, ihev⟩ := ih hready
    refine ⟨emitted :: outs, f', ?_, fun hbelow => ?_⟩
    · simp only [feedEach, hfeed, bind, Except.bind, hrest, pure, Except.pure]
    have hlen : g.events.length = f.events.length + emitted.length := by
      rw [hev, List.length_append]
    have hcounts := FramerLog.recordAll_counters lim f.toFramerLog
      (scanSlices lim.maxDataLength f.buffered (cut lim c.length f.buffered c)).1
    have hoffs := FramerLog.recordAll_bufferOffset lim f.toFramerLog
      (scanSlices lim.maxDataLength f.buffered (cut lim c.length f.buffered c)).1
    rw [← hfed.log] at hcounts hoffs
    have hroom : f.events.length + emitted.length < lim.maxEvents := by
      cases retain with
      | true =>
        simp only [if_true, List.flatten_cons, List.length_append] at hbelow
        omega
      | false =>
        simp only [Bool.false_eq_true, if_false] at hbelow
        have := hbelow.2 emitted (by simp)
        rw [hbelow.1]
        simpa using this
    have hbelow' : if retain then g'.events.length + outs.flatten.length < lim.maxEvents
        else g'.events = [] ∧ ∀ out ∈ outs, out.length < lim.maxEvents := by
      cases retain with
      | true =>
        obtain ⟨rfl, -⟩ := hkeep.resolve_right fun h => by cases h.1
        simp only [if_true, List.flatten_cons, List.length_append] at hbelow ⊢
        omega
      | false =>
        simp only [Bool.false_eq_true, if_false] at hbelow ⊢
        refine ⟨?_, fun out ho => hbelow.2 out (by simp [ho])⟩
        rcases hkeep with ⟨rfl, hc⟩ | hkeep
        · -- an empty chunk returns nothing, and leaves the framer as it is
          obtain rfl : c = [] := hc.resolve_left (by simp)
          rw [hev, hbelow.1, hemit hroom]
          rfl
        · exact hkeep.2
    rw [List.flatten_cons, hemit hroom, ihev hbelow', slicesOf, scanSlices_append, eventsOf_append, hbuf,
      hec, hfc, hoff, hcounts.1, hcounts.2, hoffs, hfed.buffered]

end Framer

end RchProxy
