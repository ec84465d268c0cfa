import RchProxy.Capture.Arrivals
import RchProxy.Capture.Recorder

/-!
# What a job stores of two streams under its limits

The capture manager appends every chunk of the two streams of a session to its job (`Retained`),
each with the offset its stream has reached. Whatever the order of the chunks, the job stores a
prefix of each stream within one payload limit, and its events tile a range from the start of each
stream within one event limit (`Stores`, kept by every `record`).
-/

namespace RchProxy

open Py Lib

/-- The bytes that arrive from one side, in order. -/
def streamFrom (d : StreamDirection) (arrivals : List Arrival) : Bytes :=
  arrivals.flatMap fun a => if a.direction = d then a.data else []

theorem streamFrom_append (d : StreamDirection) (l l' : List Arrival) :
    streamFrom d (l ++ l') = streamFrom d l ++ streamFrom d l' :=
  List.flatMap_append

theorem streamFrom_self (a : Arrival) : streamFrom a.direction [a] = a.data := by
  simp [streamFrom]

theorem streamFrom_of_ne {d : StreamDirection} {a : Arrival} (h : a.direction ≠ d) :
    streamFrom d [a] = [] := by
  simp [streamFrom, h]

/-- The range of one direction an event stands for. -/
def rangeFrom (d : StreamDirection) (c : CapturedChunk) : Option (Nat × Nat) :=
  if c.direction = d then some (c.offset, c.offset + c.data.length) else none

/-- The ranges of the events of one direction. -/
def rangesFrom (d : StreamDirection) (chunks : List CapturedChunk) : List (Nat × Nat) :=
  chunks.filterMap (rangeFrom d)

theorem rangesFrom_append (d : StreamDirection) (chunks : List CapturedChunk) (c : CapturedChunk) :
    rangesFrom d (chunks ++ [c]) = rangesFrom d chunks ++ (rangeFrom d c).toList := by
  rw [rangesFrom, List.filterMap_append, rangesFrom]
  cases h : rangeFrom d c <;> simp [h]

/-- What a stream brings is what it brought, and the bytes of one chunk more. -/
theorem streamFrom_update (a : Arrival) {arrivals : List Arrival} {payload : StreamDirection → Bytes}
    (hwhole : ∀ d, payload d = streamFrom d arrivals) (d : StreamDirection) :
    Function.update payload a.direction (payload a.direction ++ a.data) d =
      streamFrom d (arrivals ++ [a]) := by
  rw [streamFrom_append]
  by_cases hd : a.direction = d
  · subst hd
    rw [Function.update_self, streamFrom_self, hwhole]
  · rw [Function.update_of_ne (Ne.symm hd), streamFrom_of_ne hd, List.append_nil, hwhole]

/-- A session whose job retains its payload. -/
structure Retained where
  job : CapturedJob
  eventSequence : Nat := 0
  sessionOffsets : StreamDirection → Nat := fun _ => 0

/-- `record`, of a job that retains its payload. -/
def Retained.record (s : Retained) (a : Arrival) : Retained :=
  if a.data = [] then s
  else
    { job := (s.job.append a.direction a.data (some (s.eventSequence + 1))
        (some (s.sessionOffsets a.direction)) a.observed true).1
      eventSequence := s.eventSequence + 1
      sessionOffsets := Function.update s.sessionOffsets a.direction
        (s.sessionOffsets a.direction + a.data.length) }

/-- The session after some chunks. -/
def Retained.recordAll (s : Retained) (arrivals : List Arrival) : Retained := arrivals.foldl record s

namespace CapturedJob

/-- A job as it is created. -/
structure Unused (job : CapturedJob) : Prop extends job.Fresh where
  payload : ∀ d, job.payload d = []
  timelineComplete : job.timelineComplete = true

/-- The bytes a job holds, of both directions. -/
def held (job : CapturedJob) : Nat :=
  (job.payload .clientToRch).length + (job.payload .rchToClient).length

/-- What the events of a job stand for, with the bytes of each direction they reach. -/
structure Events (job : CapturedJob) (reach : StreamDirection → Nat) : Prop where
  bounded : job.chunks.length ≤ job.maxCaptureEvents
  chunks : ∀ c ∈ job.chunks, c.offset = c.sessionOffset ∧
    c.data <+: (job.payload c.direction).drop c.offset
  tiles : ∀ d, Tiles 0 (rangesFrom d job.chunks) (reach d)
  reach_le : ∀ d, reach d ≤ (job.payload d).length
  timeline : job.timelineComplete = true → ∀ d, reach d = (job.payload d).length
  spent : job.timelineComplete = false → job.maxCaptureEvents ≤ job.chunks.length ∧
    ∃ d, reach d < (job.payload d).length

/-- What a job stores of its streams. -/
structure Stores (job : CapturedJob) (arrivals : List Arrival) : Prop where
  bytesStored : ∀ d, job.bytesStored d = (job.payload d).length
  isPrefix : ∀ d, job.payload d <+: streamFrom d arrivals
  bounded : job.held ≤ job.maxPayloadBytes
  whole : job.captureComplete = true → ∀ d, job.payload d = streamFrom d arrivals
  full : job.captureComplete = false → job.held = job.maxPayloadBytes ∧
    ∃ d, (job.payload d).length < (streamFrom d arrivals).length
  events : ∃ reach, job.Events reach

theorem Unused.stores {job : CapturedJob} (h : job.Unused) : job.Stores [] where
  bytesStored d := by rw [h.bytesStored, h.payload]; rfl
  isPrefix d := by rw [h.payload]; exact List.nil_prefix
  bounded := by simp [held, h.payload]
  whole _ := h.payload
  full hc := absurd hc (by rw [h.captureComplete]; decide)
  events := by
    refine ⟨fun _ => 0, ?_, ?_, fun d => ?_, fun d => Nat.zero_le _, fun _ d => ?_, fun ht => ?_⟩
    · rw [h.toFresh.chunks]; exact Nat.zero_le _
    · rw [h.toFresh.chunks]; simp
    · rw [h.toFresh.chunks]; exact .nil 0
    · rw [h.payload]; rfl
    · exact absurd ht (by rw [h.timelineComplete]; decide)

/-! ## One append -/

/-- What an append that stores `stored` leaves, as far as the store goes. -/
structure Appended (job job' : CapturedJob) (d : StreamDirection) (stored : Bytes) (n : Nat) :
    Prop where
  maxPayloadBytes : job'.maxPayloadBytes = job.maxPayloadBytes
  maxCaptureEvents : job'.maxCaptureEvents = job.maxCaptureEvents
  bytesStored : job'.bytesStored =
    Function.update job.bytesStored d (job.bytesStored d + stored.length)
  payload : job'.payload = Function.update job.payload d (job.payload d ++ stored)
  events :
    (stored = [] ∧ job'.chunks = job.chunks ∧ job'.timelineComplete = job.timelineComplete) ∨
    (stored ≠ [] ∧ job.maxCaptureEvents ≤ job.chunks.length ∧ job'.chunks = job.chunks ∧
      job'.timelineComplete = false) ∨
    (stored ≠ [] ∧ job.chunks.length < job.maxCaptureEvents ∧
      job'.timelineComplete = job.timelineComplete ∧
      ∃ c : CapturedChunk, job'.chunks = job.chunks ++ [c] ∧ c.direction = d ∧
        c.offset = job.bytesStored d ∧ c.sessionOffset = n ∧ c.data = stored)

theorem store_appended (job : CapturedJob) (d : StreamDirection) (stored : Bytes) (q n : Nat)
    (observed : Observed) :
    job.Appended (job.store d stored (some q) (some n) observed true).1 d stored n := by
  unfold store
  by_cases hs : stored = []
  · subst hs
    exact ⟨rfl, rfl, by simp, by simp, .inl ⟨rfl, rfl, rfl⟩⟩
  · rw [if_neg hs]
    dsimp only
    by_cases hlt : job.chunks.length < job.maxCaptureEvents
    · rw [if_pos hlt]
      exact ⟨rfl, rfl, rfl, rfl, .inr (.inr ⟨hs, hlt, rfl, _, rfl, rfl, rfl, rfl, rfl⟩)⟩
    · rw [if_neg hlt]
      exact ⟨rfl, rfl, rfl, rfl, .inr (.inl ⟨hs, not_lt.mp hlt, rfl, rfl⟩)⟩

theorem append_appended (job : CapturedJob) (d : StreamDirection) (data : Bytes) (q n : Nat)
    (observed : Observed) (hdata : data ≠ []) :
    job.Appended (job.append d data (some q) (some n) observed true).1 d (data.take job.room) n := by
  have hstore := store_appended (job.observe d data observed.receivedUnixNs) d (data.take job.room) q
    n observed
  unfold append
  rw [if_neg hdata]
  dsimp only
  split
  · exact ⟨hstore.1, hstore.2, hstore.3, hstore.4, hstore.5⟩
  · exact ⟨hstore.1, hstore.2, hstore.3, hstore.4, hstore.5⟩

/-- What is held grows by what is stored. -/
theorem Appended.held {job job' : CapturedJob} {d : StreamDirection} {stored : Bytes} {n : Nat}
    (h : job.Appended job' d stored n) : job'.held = job.held + stored.length := by
  unfold CapturedJob.held
  rw [h.payload]
  cases d
  · rw [Function.update_self, Function.update_of_ne (by decide), List.length_append]; omega
  · rw [Function.update_self, Function.update_of_ne (by decide), List.length_append]; omega

/-- A store without room is not changed by an append. -/
theorem Appended.of_nil {job job' : CapturedJob} {d : StreamDirection} {n : Nat}
    (h : job.Appended job' d [] n) :
    job'.payload = job.payload ∧ job'.chunks = job.chunks ∧
    job'.timelineComplete = job.timelineComplete := by
  refine ⟨?_, ?_⟩
  · rw [h.payload, List.append_nil, Function.update_eq_self]
  · obtain ⟨-, hchunks, htimeline⟩ | ⟨hne, -⟩ | ⟨hne, -⟩ := h.events
    · exact ⟨hchunks, htimeline⟩
    · exact absurd rfl hne
    · exact absurd rfl hne

theorem Appended.length_payload {job job' : CapturedJob} {d : StreamDirection} {stored : Bytes}
    {n : Nat} (h : job.Appended job' d stored n) (d' : StreamDirection) :
    (job'.payload d').length = (job.payload d').length + if d = d' then stored.length else 0 := by
  rw [h.payload]
  by_cases hd : d = d'
  · subst hd
    rw [Function.update_self, List.length_append, if_pos rfl]
  · rw [Function.update_of_ne (Ne.symm hd), if_neg hd, Nat.add_zero]

theorem Appended.payload_prefix {job job' : CapturedJob} {d : StreamDirection} {stored : Bytes}
    {n : Nat} (h : job.Appended job' d stored n) (d' : StreamDirection) :
    job.payload d' <+: job'.payload d' := by
  rw [h.payload]
  by_cases hd : d' = d
  · subst hd
    rw [Function.update_self]
    exact List.prefix_append _ _
  · rw [Function.update_of_ne hd]

/-- The events stand for what is stored after an append too. -/
theorem Events.append {job job' : CapturedJob} {reach : StreamDirection → Nat}
    (h : job.Events reach) {d : StreamDirection} {stored : Bytes} {n : Nat}
    (happ : job.Appended job' d stored n) (hstored : job.bytesStored d = (job.payload d).length)
    (hn : stored ≠ [] → n = job.bytesStored d) : ∃ reach', job'.Events reach' := by
  have hold : ∀ c ∈ job.chunks, c.offset = c.sessionOffset ∧
      c.data <+: (job'.payload c.direction).drop c.offset := fun c hc =>
    ⟨(h.chunks c hc).1, (h.chunks c hc).2.trans ((happ.payload_prefix c.direction).drop c.offset)⟩
  have hreach : ∀ d', reach d' ≤ (job'.payload d').length := fun d' =>
    (h.reach_le d').trans (happ.payload_prefix d').length_le
  obtain ⟨rfl, hchunks, htimeline⟩ | ⟨hne, hmax, hchunks, htimeline⟩ |
    ⟨hne, hlt, htimeline, c, hchunks, hdir, hoff, hsession, hdata⟩ := happ.events
  · -- nothing is stored
    have hpayload := happ.of_nil.1
    exact ⟨reach, by rw [hchunks, happ.maxCaptureEvents]; exact h.bounded, by rw [hchunks]; exact hold,
      by rw [hchunks]; exact h.tiles, hreach, by rw [htimeline, hpayload]; exact h.timeline,
      by rw [htimeline, hpayload, happ.maxCaptureEvents, hchunks]; exact h.spent⟩
  · -- the events were spent before the bytes were stored
    have hpos := List.length_pos_iff.mpr hne
    refine ⟨reach, by rw [hchunks, happ.maxCaptureEvents]; exact h.bounded,
      by rw [hchunks]; exact hold, by rw [hchunks]; exact h.tiles, hreach,
      fun ht => absurd ht (by rw [htimeline]; decide), fun _ => ⟨?_, d, ?_⟩⟩
    · rw [hchunks, happ.maxCaptureEvents]; exact hmax
    · have := h.reach_le d
      rw [happ.length_payload, if_pos rfl]
      omega
  · -- one event more, and the timeline was complete before it
    have hcomplete : job.timelineComplete = true := by
      cases ht : job.timelineComplete with
      | true => rfl
      | false => exact absurd (h.spent ht).1 (not_le.mpr hlt)
    have hpos := List.length_pos_iff.mpr hne
    have hreached := h.timeline hcomplete
    refine ⟨fun d' => (job'.payload d').length, ?_, ?_, fun d' => ?_, fun _ => Nat.le_refl _,
      fun _ _ => rfl, fun ht => absurd ht (by rw [htimeline, hcomplete]; decide)⟩
    · rw [hchunks, happ.maxCaptureEvents, List.length_append]
      exact hlt
    · rw [hchunks]
      intro c' hc'
      rcases List.mem_append.mp hc' with hc' | hc'
      · exact hold c' hc'
      · obtain rfl := List.mem_singleton.mp hc'
        refine ⟨by rw [hoff, hsession, hn hne], ?_⟩
        rw [hdata, hdir, hoff, hstored, happ.payload, Function.update_self, List.drop_left]
    · rw [hchunks, rangesFrom_append, happ.length_payload]
      by_cases hd : d = d'
      · subst hd
        rw [rangeFrom, if_pos hdir, if_pos rfl, hoff, hdata, hstored, ← hreached d]
        exact (h.tiles d).snoc (by omega)
      · rw [rangeFrom, if_neg (hdir ▸ hd), if_neg hd, Option.toList_none, List.append_nil,
          Nat.add_zero, ← hreached d']
        exact h.tiles d'

theorem Stores.room {job : CapturedJob} {arrivals : List Arrival} (h : job.Stores arrivals) :
    job.room = job.maxPayloadBytes - job.held := by
  rw [CapturedJob.room, h.bytesStored, h.bytesStored, CapturedJob.held]

/-- A job that has dropped bytes has no room left. -/
theorem Stores.room_eq_zero {job : CapturedJob} {arrivals : List Arrival} (h : job.Stores arrivals)
    (hc : job.captureComplete = false) : job.room = 0 := by
  rw [h.room, (h.full hc).1, Nat.sub_self]

/-- One append keeps what the store is. -/
theorem Stores.append {job : CapturedJob} {arrivals : List Arrival} (h : job.Stores arrivals)
    (a : Arrival) (q : Nat) (hdata : a.data ≠ []) :
    (job.append a.direction a.data (some q) (some (streamFrom a.direction arrivals).length)
      a.observed true).1.Stores (arrivals ++ [a]) := by
  have happ := job.append_appended a.direction a.data q (streamFrom a.direction arrivals).length
    a.observed hdata
  have hcc := job.append_captureComplete a.direction a.data (some q)
    (some (streamFrom a.direction arrivals).length) a.observed true hdata
  generalize (job.append a.direction a.data (some q)
    (some (streamFrom a.direction arrivals).length) a.observed true).1 = job' at happ hcc ⊢
  have hroom := h.room
  have hle := h.bounded
  have hheld := happ.held
  rw [List.length_take] at hheld
  have hstored : ∀ d, job'.bytesStored d = (job'.payload d).length := by
    intro d
    rw [happ.bytesStored, happ.length_payload]
    by_cases hd : a.direction = d
    · subst hd
      rw [Function.update_self, if_pos rfl, h.bytesStored]
    · rw [Function.update_of_ne (Ne.symm hd), if_neg hd, h.bytesStored, Nat.add_zero]
  have hevents : ∃ reach, job'.Events reach := by
    obtain ⟨reach, hevents⟩ := h.events
    refine hevents.append happ (h.bytesStored _) fun hne => ?_
    -- bytes are stored, so nothing was dropped before
    have hcomplete : job.captureComplete = true := by
      cases hc : job.captureComplete with
      | true => rfl
      | false => exact absurd (by rw [h.room_eq_zero hc, List.take_zero]) hne
    rw [h.bytesStored, h.whole hcomplete]
  have hlength : ∀ d, (streamFrom d arrivals).length ≤ (streamFrom d (arrivals ++ [a])).length := by
    intro d
    rw [streamFrom_append, List.length_append]
    exact Nat.le_add_right ..
  cases hc : job.captureComplete with
  | false =>
    rw [h.room_eq_zero hc, List.take_zero] at happ
    rw [hc, Bool.false_and] at hcc
    obtain ⟨hfull, d, hd⟩ := h.full hc
    rw [h.room_eq_zero hc, Nat.zero_min, Nat.add_zero] at hheld
    refine ⟨hstored, fun d => ?_, ?_, fun hc' => absurd hc' (by rw [hcc]; decide), fun _ => ⟨?_, d, ?_⟩,
      hevents⟩
    · rw [happ.of_nil.1, streamFrom_append]
      exact (h.isPrefix d).trans (List.prefix_append _ _)
    · rw [hheld, happ.maxPayloadBytes]; exact hle
    · rw [hheld, happ.maxPayloadBytes]; exact hfull
    · rw [happ.of_nil.1]; exact Nat.lt_of_lt_of_le hd (hlength d)
  | true =>
    have hwhole := streamFrom_update a (h.whole hc)
    rw [hc, Bool.true_and] at hcc
    by_cases hfits : a.data.length ≤ job.room
    · -- the chunk fits
      rw [List.take_of_length_le hfits] at happ
      rw [decide_eq_true hfits] at hcc
      have hpayload : ∀ d, job'.payload d = streamFrom d (arrivals ++ [a]) := fun d => by
        rw [happ.payload]; exact hwhole d
      refine ⟨hstored, fun d => ?_, ?_, fun _ => hpayload, fun hc' => absurd hc' (by rw [hcc]; decide),
        hevents⟩
      · rw [hpayload]
      · rw [hheld, happ.maxPayloadBytes]; omega
    · -- it is cut, and the store is full
      rw [decide_eq_false hfits] at hcc
      refine ⟨hstored, fun d => ?_, ?_, fun hc' => absurd hc' (by rw [hcc]; decide),
        fun _ => ⟨?_, a.direction, ?_⟩, hevents⟩
      · rw [← hwhole, happ.payload]
        by_cases hd : a.direction = d
        · subst hd
          rw [Function.update_self, Function.update_self, List.prefix_append_right_inj]
          exact List.take_prefix _ _
        · rw [Function.update_of_ne (Ne.symm hd), Function.update_of_ne (Ne.symm hd)]
      · rw [hheld, happ.maxPayloadBytes]; omega
      · rw [hheld, happ.maxPayloadBytes]; omega
      · rw [happ.length_payload, if_pos rfl, ← hwhole, Function.update_self, List.length_append,
          List.length_take]
        omega

theorem Stores.append_nil {job : CapturedJob} {arrivals : List Arrival} (h : job.Stores arrivals)
    (a : Arrival) (hdata : a.data = []) : job.Stores (arrivals ++ [a]) := by
  have hstream : ∀ d, streamFrom d (arrivals ++ [a]) = streamFrom d arrivals := fun d => by
    simp [streamFrom, hdata]
  refine ⟨h.bytesStored, ?_, h.bounded, ?_, ?_, h.events⟩
  · simpa only [hstream] using h.isPrefix
  · simpa only [hstream] using h.whole
  · simpa only [hstream] using h.full

end CapturedJob

/-! ## A session -/

namespace Retained

/-- A session that stores what its streams brought, in a job with the limits of `job`. -/
structure Keeps (job : CapturedJob) (s : Retained) (arrivals : List Arrival) : Prop where
  stores : s.job.Stores arrivals
  offsets : ∀ d, s.sessionOffsets d = (streamFrom d arrivals).length
  maxPayloadBytes : s.job.maxPayloadBytes = job.maxPayloadBytes
  maxCaptureEvents : s.job.maxCaptureEvents = job.maxCaptureEvents

variable {job : CapturedJob} {s : Retained} {arrivals : List Arrival}

/-- One chunk more. -/
theorem Keeps.record (h : s.Keeps job arrivals) (a : Arrival) :
    (s.record a).Keeps job (arrivals ++ [a]) := by
  unfold Retained.record
  by_cases hdata : a.data = []
  · rw [if_pos hdata]
    exact ⟨h.stores.append_nil a hdata, fun d => by rw [h.offsets]; simp [streamFrom, hdata],
      h.maxPayloadBytes, h.maxCaptureEvents⟩
  · rw [if_neg hdata, h.offsets]
    have happ := s.job.append_appended a.direction a.data (s.eventSequence + 1)
      (streamFrom a.direction arrivals).length a.observed hdata
    refine ⟨h.stores.append a _ hdata, fun d => ?_, happ.maxPayloadBytes.trans h.maxPayloadBytes,
      happ.maxCaptureEvents.trans h.maxCaptureEvents⟩
    dsimp only
    rw [streamFrom_append, List.length_append]
    by_cases hd : a.direction = d
    · subst hd
      rw [Function.update_self, streamFrom_self]
    · rw [Function.update_of_ne (Ne.symm hd), streamFrom_of_ne hd, h.offsets, List.length_nil,
        Nat.add_zero]

theorem Keeps.recordAll (h : s.Keeps job arrivals) (later : List Arrival) :
    (s.recordAll later).Keeps job (arrivals ++ later) := by
  induction later generalizing s arrivals with
  | nil => rw [List.append_nil]; exact h
  | cons a later ih =>
    have hlater := ih (h.record a)
    rw [List.append_assoc, List.singleton_append] at hlater
    exact hlater

/-- A session whose job has dropped bytes stores nothing of another chunk. -/
theorem Keeps.record_of_dropped (h : s.Keeps job arrivals) (a : Arrival)
    (hc : s.job.captureComplete = false) :
    (s.record a).job.payload = s.job.payload ∧ (s.record a).job.chunks = s.job.chunks ∧
    (s.record a).job.captureComplete = false := by
  unfold Retained.record
  by_cases hdata : a.data = []
  · rw [if_pos hdata]; exact ⟨rfl, rfl, hc⟩
  · rw [if_neg hdata]
    have happ := s.job.append_appended a.direction a.data (s.eventSequence + 1)
      (s.sessionOffsets a.direction) a.observed hdata
    rw [h.stores.room_eq_zero hc, List.take_zero] at happ
    refine ⟨happ.of_nil.1, happ.of_nil.2.1, ?_⟩
    rw [CapturedJob.append_captureComplete _ _ _ _ _ _ _ hdata, hc, Bool.false_and]

theorem Keeps.recordAll_of_dropped (h : s.Keeps job arrivals) (later : List Arrival)
    (hc : s.job.captureComplete = false) :
    (s.recordAll later).job.payload = s.job.payload ∧
    (s.recordAll later).job.chunks = s.job.chunks := by
  induction later generalizing s arrivals with
  | nil => exact ⟨rfl, rfl⟩
  | cons a later ih =>
    obtain ⟨hpayload, hchunks, hc'⟩ := h.record_of_dropped a hc
    obtain ⟨hpayload', hchunks'⟩ := ih (h.record a) hc'
    exact ⟨hpayload'.trans hpayload, hchunks'.trans hchunks⟩

end Retained

theorem CapturedJob.Unused.keeps {job : CapturedJob} (h : job.Unused) (arrivals : List Arrival) :
    (({ job } : Retained).recordAll arrivals).Keeps job arrivals := by
  have hstart : ({ job } : Retained).Keeps job [] := ⟨h.stores, fun _ => rfl, rfl, rfl⟩
  exact hstart.recordAll arrivals

/-- What a job stores of its streams under its two limits. -/
theorem job_store {job : CapturedJob} (h : job.Unused) (arrivals : List Arrival) :
    let kept := (({ job } : Retained).recordAll arrivals).job
    (∀ d, kept.payload d <+: streamFrom d arrivals) ∧
    kept.held ≤ job.maxPayloadBytes ∧
    ((∃ d, kept.payload d ≠ streamFrom d arrivals) →
      kept.held = job.maxPayloadBytes ∧
      ∀ later, (({ job } : Retained).recordAll (arrivals ++ later)).job.payload = kept.payload ∧
        (({ job } : Retained).recordAll (arrivals ++ later)).job.chunks = kept.chunks) ∧
    (kept.captureComplete = true ↔ ∀ d, kept.payload d = streamFrom d arrivals) ∧
    kept.chunks.length ≤ job.maxCaptureEvents ∧
    (∀ c ∈ kept.chunks, c.offset = c.sessionOffset ∧
      c.data = ((streamFrom c.direction arrivals).drop c.offset).take c.data.length) ∧
    ∃ reach : StreamDirection → Nat, (∀ d, Tiles 0 (rangesFrom d kept.chunks) (reach d)) ∧
      ((∀ d, reach d = (kept.payload d).length) ↔ kept.timelineComplete = true) := by
  intro kept
  have hkept : (({ job } : Retained).recordAll arrivals).Keeps job arrivals := h.keeps arrivals
  have hstores : kept.Stores arrivals := hkept.stores
  have hdropped : (∃ d, kept.payload d ≠ streamFrom d arrivals) → kept.captureComplete = false := by
    rintro ⟨d, hd⟩
    cases hc : kept.captureComplete with
    | false => rfl
    | true => exact absurd (hstores.whole hc d) hd
  obtain ⟨reach, hevents⟩ := hstores.events
  refine ⟨hstores.isPrefix, hkept.maxPayloadBytes ▸ hstores.bounded, fun hd => ⟨?_, fun later => ?_⟩,
    ⟨hstores.whole, fun hwhole => ?_⟩, hkept.maxCaptureEvents ▸ hevents.bounded, fun c hc => ?_,
    reach, hevents.tiles, fun hreach => ?_, hevents.timeline⟩
  · rw [← hkept.maxPayloadBytes]
    exact (hstores.full (hdropped hd)).1
  · rw [Retained.recordAll, List.foldl_append]
    exact hkept.recordAll_of_dropped later (hdropped hd)
  · cases hc : kept.captureComplete with
    | true => rfl
    | false =>
      obtain ⟨-, d, hd⟩ := hstores.full hc
      exact absurd (congrArg List.length (hwhole d)) (Nat.ne_of_lt hd)
  · obtain ⟨hoffset, hdata⟩ := hevents.chunks c hc
    exact ⟨hoffset, List.prefix_iff_eq_take.mp
      (hdata.trans ((hstores.isPrefix c.direction).drop c.offset))⟩
  · cases ht : kept.timelineComplete with
    | true => rfl
    | false =>
      obtain ⟨-, d, hd⟩ := hevents.spent ht
      exact absurd (hreach d) (Nat.ne_of_lt hd)

/-- The jobs of the capture manager start unused. -/
theorem Connection.newJob_unused (session : Session) (startedUnixNs : Int) (clock : Clock) :
    (Connection.newJob session startedUnixNs clock).Unused where
  chunks := rfl
  bytesStored _ := rfl
  captureComplete := rfl
  payload _ := rfl
  timelineComplete := rfl

/-- Two chunks that meet both limits. -/
theorem job_store_limits :
    let job : CapturedJob :=
      { Connection.newJob (Connection.sampleSession .abort) 0 Connection.sampleClock with
        maxPayloadBytes := 2, maxCaptureEvents := 1 }
    let observed : Observed :=
      { timestamp := [], monotonicNs := 0, receivedUnixNs := none, forwardedUnixNs := none }
    let arrivals : List Arrival := [⟨.clientToRch, [65], observed⟩, ⟨.rchToClient, [66, 67], observed⟩]
    let kept := (({ job } : Retained).recordAll arrivals).job
    kept.held ≤ 2 ∧ ¬ kept.captureComplete = true ∧ ¬ kept.timelineComplete = true := by
  intro job observed arrivals kept
  have hunused : job.Unused := ⟨⟨rfl, fun _ => rfl, rfl⟩, fun _ => rfl, rfl⟩
  exact ⟨(job_store hunused arrivals).2.1, by decide, by decide⟩

end RchProxy
