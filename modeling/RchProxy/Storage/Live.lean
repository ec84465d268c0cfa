import RchProxy.Lib.Fs
import RchProxy.Storage.Timeline

/-!
# Live captures

The state of an incremental capture between its calls (`LiveSpoolCapture`), and what each call writes
to the three partial files. A hash object is the bytes it was fed. Timeline events wait for the
outcome of their local write drain and are flushed in sequence order.
-/

namespace RchProxy

open Py Lib

/-- The files of a capture. -/
inductive Artifact where
  | requestRaw
  | responseRaw
  | timeline
  deriving DecidableEq, Repr

/-- The RAW file of a direction. -/
def StreamDirection.artifact : StreamDirection → Artifact
  | .clientToRch => .requestRaw
  | .rchToClient => .responseRaw

/-- A live capture. -/
structure LiveSpoolCapture where
  code : Text
  parent : Path
  partialDir : Path
  finalDir : Path
  sessionId : Label
  connectionId : Label
  closed : Bool := false
  hashers : Artifact → Bytes := fun _ => []
  sizes : Artifact → Nat := fun _ => 0
  pending : List (Nat × CapturedChunk) := []
  skipped : List Nat := []
  nextTimelineSequence : Nat := 1
  maximumSequence : Nat := 0
  timelineEvents : Nat := 0

/-- What a call did: the state it left, the blocks it wrote to the partial files, and the exception
it raised, if any. -/
structure LiveCall where
  live : LiveSpoolCapture
  writes : List (Artifact × Bytes) := []
  error : Option Error := none

/-- One call after another that raised nothing. -/
def LiveCall.andThen (call : LiveCall) (next : LiveSpoolCapture → LiveCall) : LiveCall :=
  match call.error with
  | some _ => call
  | none =>
    let rest := next call.live
    { rest with writes := call.writes ++ rest.writes }

namespace LiveSpoolCapture

/-- `_write_all` to a partial file, with its hasher and its size. -/
def put (live : LiveSpoolCapture) (key : Artifact) (data : Bytes) : LiveCall :=
  { live :=
      { live with
        hashers := Function.update live.hashers key (live.hashers key ++ data)
        sizes := Function.update live.sizes key (live.sizes key + data.length) }
    writes := [(key, data)] }

/-- `_write_timeline_chunk`. -/
def writeTimelineChunk (live : LiveSpoolCapture) (chunk : CapturedChunk) : LiveCall :=
  match renderTimelineEvent chunk live.sessionId live.connectionId with
  | .error e => { live := live, error := some e }
  | .ok text =>
    (live.put .timeline (encodeUtf8 text)).andThen fun live =>
      { live := { live with timelineEvents := live.timelineEvents + 1 } }

/-- The loop of `_flush_ready_timeline`. -/
def flushLoop (force : Bool) : Nat → LiveSpoolCapture → LiveCall
  | 0, live => { live := live }
  | fuel + 1, live =>
    let sequence := live.nextTimelineSequence
    if sequence ≤ live.maximumSequence then
      if sequence ∈ live.skipped then
        flushLoop force fuel
          { live with
            skipped := live.skipped.filter (· ≠ sequence)
            nextTimelineSequence := sequence + 1 }
      else
        match live.pending.lookup sequence with
        | none => { live := live }
        | some chunk =>
          if !force && chunk.localWriteDrainCompleted.isNone then { live := live }
          else
            (writeTimelineChunk
              { live with pending := live.pending.filter (·.1 ≠ sequence) } chunk).andThen
              fun live => flushLoop force fuel { live with nextTimelineSequence := sequence + 1 }
    else { live := live }

/-- `_flush_ready_timeline`. -/
def flushReadyTimeline (live : LiveSpoolCapture) (force : Bool) : LiveCall :=
  flushLoop force (live.maximumSequence + 1 - live.nextTimelineSequence) live

/-- The exception of a call on a closed capture. -/
def closedError : Error := .runtimeError "live capture is already closed"

/-- `append`, after its checks: the RAW bytes. -/
def appendRaw (live : LiveSpoolCapture) (sequence : Nat) (direction : StreamDirection)
    (data : Bytes) : LiveCall :=
  (if data = [] then { live := live } else live.put direction.artifact data).andThen fun live =>
    { live := { live with maximumSequence := max live.maximumSequence sequence } }

/-- `append`, after the RAW bytes: the timeline event. -/
def appendChunk (live : LiveSpoolCapture) (sequence : Nat) (data : Bytes) :
    Option CapturedChunk → LiveCall
  | none => { live := { live with skipped := live.skipped ++ [sequence] } }
  | some chunk =>
    if chunk.sequence ≠ sequence then
      { live := live
        error := some (.valueError "timeline sequence does not match queued capture sequence") }
    else if chunk.byteCount ≠ some data.length then
      { live := live
        error := some (.valueError "timeline byte count does not match queued RAW bytes") }
    else
      { live :=
          { live with
            pending := live.pending.filter (·.1 ≠ sequence) ++ [(sequence, { chunk with data := [] })] } }

/-- `append`. -/
def append (live : LiveSpoolCapture) (sequence : Nat) (direction : StreamDirection) (data : Bytes)
    (chunk : Option CapturedChunk) : LiveCall :=
  if live.closed then { live := live, error := some closedError }
  else if sequence ≠ live.maximumSequence + 1 then
    { live := live
      error := some (.valueError (String.ofList
        ("capture sequence must be contiguous: expected ".toList ++
          decimal (live.maximumSequence + 1) ++ ", got ".toList ++ decimal sequence))) }
  else
    ((live.appendRaw sequence direction data).andThen fun live =>
      live.appendChunk sequence data chunk).andThen fun live => live.flushReadyTimeline false

/-- `mark_local_write_drain`. An event can be absent: it was beyond the event limit, or its
timeline line is already written. -/
def markLocalWriteDrain (live : LiveSpoolCapture) (sequence : Nat) (completed : Bool)
    (drainUnixNs : Int) (error : Option Text) : LiveCall :=
  if live.closed then { live := live, error := some closedError }
  else if (live.pending.lookup sequence).isNone then { live := live }
  else
    flushReadyTimeline
      { live with
        pending := live.pending.map fun entry =>
          if entry.1 = sequence then (entry.1, entry.2.drained completed drainUnixNs error)
          else entry } false

/-- `_sync_and_close`. -/
def syncAndClose (live : LiveSpoolCapture) : LiveCall :=
  if live.closed then { live := live }
  else (live.flushReadyTimeline true).andThen fun live => { live := { live with closed := true } }

/-! ## What a call leaves -/

/-- Where the capture is written, and for whom. -/
def place (live : LiveSpoolCapture) : Text × Path × Path × Path × Label × Label :=
  (live.code, live.parent, live.partialDir, live.finalDir, live.sessionId, live.connectionId)

end LiveSpoolCapture

/-- The bytes that went to one file. -/
def output (writes : List (Artifact × Bytes)) (key : Artifact) : Bytes :=
  writes.flatMap fun write => if write.1 = key then write.2 else []

@[simp] theorem output_nil (key : Artifact) : output [] key = [] := rfl

@[simp] theorem output_append (a b : List (Artifact × Bytes)) (key : Artifact) :
    output (a ++ b) key = output a key ++ output b key := List.flatMap_append

/-- The state after a call accounts for what the call wrote. -/
structure LiveCall.Follows (call : LiveCall) (live : LiveSpoolCapture) : Prop where
  place : call.live.place = live.place
  hashers : ∀ key, call.live.hashers key = live.hashers key ++ output call.writes key
  sizes : ∀ key, call.live.sizes key = live.sizes key + (output call.writes key).length
  events : call.live.timelineEvents = live.timelineEvents + lineCount (output call.writes .timeline)

namespace LiveCall.Follows

variable {call : LiveCall} {live : LiveSpoolCapture}

/-- A call that writes nothing. -/
theorem silent {live' : LiveSpoolCapture} (error : Option Error) (hplace : live'.place = live.place)
    (hhashers : live'.hashers = live.hashers) (hsizes : live'.sizes = live.sizes)
    (hevents : live'.timelineEvents = live.timelineEvents) :
    ({ live := live', error := error } : LiveCall).Follows live where
  place := hplace
  hashers key := by simp [hhashers]
  sizes key := by simp [hsizes]
  events := by simp [hevents]

theorem andThen {next : LiveSpoolCapture → LiveCall} (h : call.Follows live)
    (hnext : ∀ live', (next live').Follows live') : (call.andThen next).Follows live := by
  unfold LiveCall.andThen
  split
  · exact h
  · have h' := hnext call.live
    refine ⟨h'.place.trans h.place, fun key => ?_, fun key => ?_, ?_⟩
    · rw [h'.hashers, h.hashers, output_append, List.append_assoc]
    · rw [h'.sizes, h.sizes, output_append, List.length_append, Nat.add_assoc]
    · rw [h'.events, h.events, output_append, lineCount_append, Nat.add_assoc]

end LiveCall.Follows

theorem LiveCall.andThen_error {call : LiveCall} {next : LiveSpoolCapture → LiveCall}
    (h : (call.andThen next).error = none) :
    call.error = none ∧ (next call.live).error = none ∧
      (call.andThen next).live = (next call.live).live ∧
      (call.andThen next).writes = call.writes ++ (next call.live).writes := by
  unfold LiveCall.andThen at h ⊢
  split at h
  · next heq => rw [heq] at h; cases h
  · next heq => exact ⟨heq, h, rfl, rfl⟩

namespace LiveSpoolCapture

variable {live : LiveSpoolCapture}

/-- A block that is no timeline line. -/
theorem put_follows (live : LiveSpoolCapture) {key : Artifact} (hkey : key ≠ .timeline)
    (data : Bytes) : (live.put key data).Follows live where
  place := rfl
  hashers k := by
    by_cases hk : key = k
    · subst hk; simp [put, output]
    · simp [put, output, hk, Function.update_of_ne (Ne.symm hk)]
  sizes k := by
    by_cases hk : key = k
    · subst hk; simp [put, output]
    · simp [put, output, hk, Function.update_of_ne (Ne.symm hk)]
  events := by simp [put, output, hkey]

/-- A timeline line is counted. -/
theorem writeTimelineChunk_follows (live : LiveSpoolCapture) (chunk : CapturedChunk) :
    (live.writeTimelineChunk chunk).Follows live := by
  unfold writeTimelineChunk
  split
  · exact .silent _ rfl rfl rfl rfl
  · next text htext =>
    refine ⟨rfl, fun k => ?_, fun k => ?_, ?_⟩
    · by_cases hk : k = .timeline
      · subst hk; simp [LiveCall.andThen, put, output]
      · simp [LiveCall.andThen, put, output, Ne.symm hk, Function.update_of_ne hk]
    · by_cases hk : k = .timeline
      · subst hk; simp [LiveCall.andThen, put, output]
      · simp [LiveCall.andThen, put, output, Ne.symm hk, Function.update_of_ne hk]
    · simp [LiveCall.andThen, put, output, lineCount_renderTimelineEvent htext]

end LiveSpoolCapture

/-- A call that touches the timeline only. -/
structure LiveCall.TimelineOnly (call : LiveCall) (live : LiveSpoolCapture) : Prop where
  follows : call.Follows live
  closed : call.live.closed = live.closed
  maximumSequence : call.live.maximumSequence = live.maximumSequence
  writes : ∀ write ∈ call.writes, write.1 = .timeline

theorem LiveCall.TimelineOnly.andThen {call : LiveCall} {live : LiveSpoolCapture}
    {next : LiveSpoolCapture → LiveCall} (h : call.TimelineOnly live)
    (hnext : ∀ live', (next live').TimelineOnly live') : (call.andThen next).TimelineOnly live := by
  refine ⟨h.follows.andThen fun live' => (hnext live').follows, ?_, ?_, ?_⟩
  all_goals unfold LiveCall.andThen; split
  · exact h.closed
  · exact (hnext call.live).closed.trans h.closed
  · exact h.maximumSequence
  · exact (hnext call.live).maximumSequence.trans h.maximumSequence
  · exact h.writes
  · intro write hwrite
    exact (List.mem_append.mp hwrite).elim (h.writes write) ((hnext call.live).writes write)

theorem LiveCall.TimelineOnly.output_eq_nil {call : LiveCall} {live : LiveSpoolCapture}
    (h : call.TimelineOnly live) {key : Artifact} (hkey : key ≠ .timeline) :
    output call.writes key = [] := by
  unfold output
  refine List.flatMap_eq_nil_iff.mpr fun write hwrite => ?_
  rw [h.writes write hwrite, if_neg (Ne.symm hkey)]

namespace LiveSpoolCapture

variable {live : LiveSpoolCapture}

theorem writeTimelineChunk_timelineOnly (live : LiveSpoolCapture) (chunk : CapturedChunk) :
    (live.writeTimelineChunk chunk).TimelineOnly live := by
  refine ⟨live.writeTimelineChunk_follows chunk, ?_, ?_, ?_⟩
  all_goals unfold writeTimelineChunk; split
  · rfl
  · rfl
  · rfl
  · rfl
  · exact nofun
  · intro write hwrite
    rw [List.mem_singleton.mp hwrite]

/-- Bookkeeping that neither writes nor counts. -/
theorem timelineOnly_of_eq {live' : LiveSpoolCapture} {call : LiveCall}
    (h : call.TimelineOnly live') (hplace : live'.place = live.place)
    (hhashers : live'.hashers = live.hashers) (hsizes : live'.sizes = live.sizes)
    (hevents : live'.timelineEvents = live.timelineEvents) (hclosed : live'.closed = live.closed)
    (hmax : live'.maximumSequence = live.maximumSequence) : call.TimelineOnly live where
  follows :=
    { place := h.follows.place.trans hplace
      hashers := fun key => hhashers ▸ h.follows.hashers key
      sizes := fun key => hsizes ▸ h.follows.sizes key
      events := hevents ▸ h.follows.events }
  closed := h.closed.trans hclosed
  maximumSequence := h.maximumSequence.trans hmax
  writes := h.writes

theorem timelineOnly_refl (live : LiveSpoolCapture) :
    ({ live := live } : LiveCall).TimelineOnly live :=
  ⟨.silent none rfl rfl rfl rfl, rfl, rfl, nofun⟩

theorem flushLoop_timelineOnly (force : Bool) (fuel : Nat) (live : LiveSpoolCapture) :
    (flushLoop force fuel live).TimelineOnly live := by
  induction fuel generalizing live with
  | zero => exact timelineOnly_refl live
  | succ fuel ih =>
    simp only [flushLoop]
    split
    · split
      · exact timelineOnly_of_eq (ih _) rfl rfl rfl rfl rfl rfl
      · split
        · exact timelineOnly_refl live
        · split
          · exact timelineOnly_refl live
          · next chunk _ _ =>
            refine LiveCall.TimelineOnly.andThen ?_ fun live' =>
              timelineOnly_of_eq (ih _) rfl rfl rfl rfl rfl rfl
            exact timelineOnly_of_eq (writeTimelineChunk_timelineOnly _ chunk) rfl rfl rfl rfl rfl rfl
    · exact timelineOnly_refl live

theorem flushReadyTimeline_timelineOnly (live : LiveSpoolCapture) (force : Bool) :
    (live.flushReadyTimeline force).TimelineOnly live :=
  flushLoop_timelineOnly force _ live

theorem markLocalWriteDrain_follows (live : LiveSpoolCapture) (sequence : Nat) (completed : Bool)
    (drainUnixNs : Int) (error : Option Text) :
    (live.markLocalWriteDrain sequence completed drainUnixNs error).TimelineOnly live := by
  unfold markLocalWriteDrain
  split
  · exact ⟨.silent _ rfl rfl rfl rfl, rfl, rfl, nofun⟩
  split
  · exact timelineOnly_refl live
  · exact timelineOnly_of_eq (flushReadyTimeline_timelineOnly _ false) rfl rfl rfl rfl rfl rfl

theorem syncAndClose_follows (live : LiveSpoolCapture) : live.syncAndClose.Follows live := by
  unfold syncAndClose
  split
  · exact .silent none rfl rfl rfl rfl
  · exact (flushReadyTimeline_timelineOnly live true).follows.andThen fun live' =>
      .silent none rfl rfl rfl rfl

theorem syncAndClose_output (live : LiveSpoolCapture) {key : Artifact} (hkey : key ≠ .timeline) :
    output live.syncAndClose.writes key = [] := by
  unfold syncAndClose
  split
  · rfl
  · unfold LiveCall.andThen
    split
    · exact (flushReadyTimeline_timelineOnly live true).output_eq_nil hkey
    · simpa using (flushReadyTimeline_timelineOnly live true).output_eq_nil hkey

theorem artifact_ne_timeline (direction : StreamDirection) : direction.artifact ≠ .timeline := by
  cases direction <;> decide

theorem appendRaw_follows (live : LiveSpoolCapture) (sequence : Nat) (direction : StreamDirection)
    (data : Bytes) : (live.appendRaw sequence direction data).Follows live := by
  refine LiveCall.Follows.andThen ?_ fun live' => .silent none rfl rfl rfl rfl
  split
  · exact .silent none rfl rfl rfl rfl
  · exact live.put_follows (artifact_ne_timeline direction) data

theorem appendRaw_output (live : LiveSpoolCapture) (sequence : Nat) (direction : StreamDirection)
    (data : Bytes) (key : Artifact) :
    output (live.appendRaw sequence direction data).writes key =
      if direction.artifact = key then data else [] := by
  unfold appendRaw LiveCall.andThen
  by_cases h : data = []
  · subst h; simp
  · simp [h, put, output]

theorem appendChunk_timelineOnly (live : LiveSpoolCapture) (sequence : Nat) (data : Bytes)
    (chunk : Option CapturedChunk) : (live.appendChunk sequence data chunk).TimelineOnly live := by
  cases chunk with
  | none => exact ⟨.silent _ rfl rfl rfl rfl, rfl, rfl, nofun⟩
  | some chunk =>
    simp only [appendChunk]
    split
    · exact ⟨.silent _ rfl rfl rfl rfl, rfl, rfl, nofun⟩
    split
    · exact ⟨.silent _ rfl rfl rfl rfl, rfl, rfl, nofun⟩
    · exact ⟨.silent _ rfl rfl rfl rfl, rfl, rfl, nofun⟩

theorem append_follows (live : LiveSpoolCapture) (sequence : Nat) (direction : StreamDirection)
    (data : Bytes) (chunk : Option CapturedChunk) :
    (live.append sequence direction data chunk).Follows live := by
  unfold append
  split
  · exact .silent _ rfl rfl rfl rfl
  split
  · exact .silent _ rfl rfl rfl rfl
  · exact ((live.appendRaw_follows sequence direction data).andThen fun live' =>
      (appendChunk_timelineOnly live' sequence data chunk).follows).andThen fun live' =>
        (flushReadyTimeline_timelineOnly live' false).follows

/-- What a successful append did: the next sequence number, and the data to its RAW file. -/
theorem append_ok {sequence : Nat} {direction : StreamDirection} {data : Bytes}
    {chunk : Option CapturedChunk} (h : (live.append sequence direction data chunk).error = none) :
    live.closed = false ∧ sequence = live.maximumSequence + 1 ∧
    (live.append sequence direction data chunk).live.closed = false ∧
    (live.append sequence direction data chunk).live.maximumSequence = sequence ∧
    ∀ key, key ≠ .timeline →
      output (live.append sequence direction data chunk).writes key =
        if direction.artifact = key then data else [] := by
  unfold append at h ⊢
  split at h
  · cases h
  next hclosed =>
  split at h
  · cases h
  next hseq =>
  have hseq : sequence = live.maximumSequence + 1 := by simpa using hseq
  have hopen : live.closed = false := by simpa using hclosed
  rw [if_neg hclosed, if_neg (by simpa using hseq)]
  obtain ⟨h12, -, hlive, hwrites⟩ := LiveCall.andThen_error h
  obtain ⟨-, -, hlive', hwrites'⟩ := LiveCall.andThen_error h12
  rw [hlive, hwrites, hlive', hwrites']
  set raw := live.appendRaw sequence direction data with hraw
  have hchunk := appendChunk_timelineOnly raw.live sequence data chunk
  have hflush := flushReadyTimeline_timelineOnly (raw.live.appendChunk sequence data chunk).live false
  have hrawlive : raw.live.closed = live.closed ∧ raw.live.maximumSequence = sequence := by
    rw [hraw, appendRaw]
    unfold LiveCall.andThen
    by_cases hd : data = []
    · simp [hd, hseq]
    · simp [hd, put, hseq]
  refine ⟨hopen, hseq, ?_, ?_, fun key hkey => ?_⟩
  · rw [hflush.closed, hchunk.closed, hrawlive.1, hopen]
  · rw [hflush.maximumSequence, hchunk.maximumSequence, hrawlive.2]
  · rw [output_append, output_append, hflush.output_eq_nil hkey, hchunk.output_eq_nil hkey,
      List.append_nil, List.append_nil, hraw, appendRaw_output]

end LiveSpoolCapture

end RchProxy
