import RchProxy.Capture.Bare
import RchProxy.Capture.Recorder

/-!
# Streaming capture against batch capture

The record and drain events of one connection, the commands they leave for the live capture, and the
live capture that executes them (`Stream`). Beside the job of the live capture stands its twin, which
keeps its payload (`batch`). Whatever the order of the drains and however far the worker is behind,
the live capture publishes the files and the manifest that `archive` publishes for the twin
(`Stream.finalize_eq_archive`).
-/

namespace RchProxy

open Py Lib

/-- The events of a connection, as the capture manager and its worker see them. -/
inductive CaptureEvent where
  | record (d : StreamDirection) (data : Bytes) (receivedUnixNs forwardedUnixNs : Int)
  | drain (token : CaptureToken) (completed : Bool) (error : Option Text)
  | execute

/-- A live capture with the commands on their way to it. `undrained` are the tokens that were handed
out and not given back. -/
structure Stream where
  job : CapturedJob
  batch : CapturedJob
  eventSequence : Nat := 0
  sessionOffsets : StreamDirection → Nat := fun _ => 0
  undrained : List CaptureToken := []
  queue : List StreamCommand := []
  live : LiveSpoolCapture
  disk : Artifact → Bytes := fun _ => []

namespace Stream

/-- A connection that starts: its job, and the directories of its capture. -/
def start (session : Session) (startedUnixNs : Int) (clock : Clock) (code : Text)
    (parent partialDir finalDir : Path) : Stream where
  job := Connection.newJob session startedUnixNs clock
  batch := Connection.newJob session startedUnixNs clock
  live :=
    { code := code
      parent := parent
      partialDir := partialDir
      finalDir := finalDir
      sessionId := session.sessionId
      connectionId := session.connectionId }

/-- What the clocks said about a chunk. -/
def observedAt (receivedUnixNs forwardedUnixNs : Int) (clock : Clock) : Observed where
  timestamp := clock.now.isoformat
  monotonicNs := clock.monotonicNs
  receivedUnixNs := some receivedUnixNs
  forwardedUnixNs := some forwardedUnixNs

/-- `record`. -/
def record (s : Stream) (d : StreamDirection) (data : Bytes) (receivedUnixNs forwardedUnixNs : Int)
    (clock : Clock) : Stream :=
  let sequence := s.eventSequence + 1
  let append (job : CapturedJob) (retainPayload : Bool) :=
    job.append d data (some sequence) (some (s.sessionOffsets d))
      (observedAt receivedUnixNs forwardedUnixNs clock) retainPayload
  let (job, index) := append s.job false
  let stored := data.take (job.bytesStored d - s.job.bytesStored d)
  { s with
    job := job
    batch := (append s.batch true).1
    eventSequence := sequence
    sessionOffsets := Function.update s.sessionOffsets d (s.sessionOffsets d + data.length)
    undrained := s.undrained ++
      [{ jobId := s.job.jobId
         chunkIndex := index
         direction := d
         byteCount := data.length
         sequence := some sequence }]
    queue := s.queue ++ [.append sequence d stored index] }

/-- `mark_local_write_drain`. -/
def drain (s : Stream) (token : CaptureToken) (completed : Bool) (error : Option Text)
    (clock : Clock) : Stream :=
  { s with
    job := s.job.markLocalWriteDrain token completed clock.unixNs error
    batch := s.batch.markLocalWriteDrain token completed clock.unixNs error
    undrained := s.undrained.erase token
    queue := s.queue ++
      (token.sequence.map fun sequence =>
        StreamCommand.drain sequence completed clock.unixNs error).toList }

/-- One step, where it is possible. A token is drained at most once. -/
def step (s : Stream) (clock : Clock) : CaptureEvent → Option Stream
  | .record d data receivedUnixNs forwardedUnixNs =>
    if data = [] then none else some (s.record d data receivedUnixNs forwardedUnixNs clock)
  | .drain token completed error =>
    if token ∈ s.undrained then some (s.drain token completed error clock) else none
  | .execute =>
    match s.queue with
    | [] => none
    | command :: queue =>
      let call := Connection.execute { job := some s.job } s.live command
      match call.error with
      | some _ => none
      | none =>
        some
          { s with
            queue := queue
            live := call.live
            disk := fun key => s.disk key ++ output call.writes key }

/-- A run, from one state through a list of events. -/
def run (s : Stream) : List (CaptureEvent × Clock) → Option Stream
  | [] => some s
  | (event, clock) :: rest =>
    match step s clock event with
    | some s => run s rest
    | none => none

end Stream

/-! ## The invariant -/

namespace StreamCommand

/-- The RAW bytes a command brings to a direction. -/
def rawBytes (d : StreamDirection) : StreamCommand → Bytes
  | .append _ d' data _ => if d' = d then data else []
  | .drain .. => []

/-- Whether a command is a receive event. -/
def isAppend : StreamCommand → Bool
  | .append .. => true
  | .drain .. => false

end StreamCommand

namespace Stream

/-- The chunks of the job, by their numbers. -/
def table (s : Stream) : Nat → Option CapturedChunk := chunkAt s.job.chunks

/-- A copy is up to date, or the drain it misses is on its way. -/
def Related (queue : List StreamCommand) (q : Nat) (c copy : CapturedChunk) : Prop :=
  copy = c ∨
    copy.localWriteDrainCompleted = none ∧ ∃ completed drainUnixNs error,
      StreamCommand.drain q completed drainUnixNs error ∈ queue ∧
      copy.drained completed drainUnixNs error = c

/-- A token whose drain is to come: its chunk, if it has one, is not drained. -/
structure Pending (s : Stream) (token : CaptureToken) : Prop where
  sequence : ∃ q, token.sequence = some q ∧ q ≤ s.eventSequence ∧
    ∀ c, s.table q = some c → c.localWriteDrainCompleted = none ∧
      ∃ index, token.chunkIndex = some index ∧ s.job.chunks[index]? = some c
  chunk : ∀ index, token.chunkIndex = some index → ∃ c, s.job.chunks[index]? = some c ∧
    token.sequence = some c.sequence

/-- A number that was given, with the index of its chunk. -/
def Points (s : Stream) (q : Nat) (index : Option Nat) : Prop :=
  q ≤ s.eventSequence ∧
    match index with
    | none => s.table q = none
    | some i => ∃ c, s.job.chunks[i]? = some c ∧ s.table q = some c

/-- What links the job, the commands and the live capture. -/
structure Linked (s : Stream) : Prop where
  twin : s.job = s.batch.bare
  ids : s.live.sessionId = s.job.sessionId ∧ s.live.connectionId = s.job.connectionId
  closed : s.live.closed = false
  ordered : Ordered s.job.chunks
  bounds : ∀ c ∈ s.job.chunks, 1 ≤ c.sequence ∧ c.sequence ≤ s.eventSequence
  measured : ∀ c ∈ s.job.chunks, c.Measured
  tokens : ∀ token ∈ s.undrained, s.Pending token
  distinct : (s.undrained.map (·.sequence)).Nodup
  count : s.live.maximumSequence + s.queue.countP (·.isAppend) = s.eventSequence
  appends : ∀ q d data index, StreamCommand.append q d data index ∈ s.queue → s.Points q index
  drains : ∀ q completed drainUnixNs error,
    StreamCommand.drain q completed drainUnixNs error ∈ s.queue →
    q ≤ s.eventSequence ∧ ∀ c, s.table q = some c → c.drained completed drainUnixNs error = c
  aligned : Aligned s.table (Related s.queue) s.live
  settled : ∀ q < s.live.nextTimelineSequence, ∀ c, s.table q = some c →
    c.localWriteDrainCompleted ≠ none
  first : 1 ≤ s.live.nextTimelineSequence
  timeline : ∃ text, renderTimelineJsonl (lines s.table 1 s.live.nextTimelineSequence)
    s.job.sessionId s.job.connectionId = .ok text ∧ s.disk .timeline = encodeUtf8 text
  raw : ∀ d, s.disk d.artifact ++ s.queue.flatMap (·.rawBytes d) = s.batch.payload d
  hashers : ∀ key, s.live.hashers key = s.disk key
  sizes : ∀ key, s.live.sizes key = (s.disk key).length
  events : s.live.timelineEvents = lineCount (s.disk .timeline)

theorem Points.mono {s s' : Stream} {q : Nat} {index : Option Nat} (h : s.Points q index)
    (hle : s.eventSequence ≤ s'.eventSequence)
    (htable : ∀ q ≤ s.eventSequence, s'.table q = s.table q)
    (hchunks : ∀ (i : Nat) (c : CapturedChunk), s.job.chunks[i]? = some c →
      s'.job.chunks[i]? = some c) :
    s'.Points q index := by
  obtain ⟨hq, h⟩ := h
  refine ⟨hq.trans hle, ?_⟩
  rw [htable q hq]
  cases index with
  | none => exact h
  | some i =>
    obtain ⟨c, hi, hc⟩ := h
    exact ⟨c, hchunks i c hi, hc⟩

theorem start_linked (session : Session) (startedUnixNs : Int) (clock : Clock) (code : Text)
    (parent partialDir finalDir : Path) :
    (start session startedUnixNs clock code parent partialDir finalDir).Linked where
  twin := rfl
  ids := ⟨rfl, rfl⟩
  closed := rfl
  ordered := List.Pairwise.nil
  bounds c hc := absurd hc List.not_mem_nil
  measured c hc := absurd hc List.not_mem_nil
  tokens token ht := absurd ht List.not_mem_nil
  distinct := List.nodup_nil
  count := rfl
  appends q d data index h := absurd h List.not_mem_nil
  drains q completed drainUnixNs error h := absurd h List.not_mem_nil
  aligned :=
    { next := le_rfl
      skipped := fun q hq => absurd hq List.not_mem_nil
      pending := fun q copy hq => by cases hq
      window := fun q hlo hhi => absurd (Nat.le_trans hlo hhi) (by simp [start]) }
  settled q hq c hc := by cases hc
  first := le_rfl
  timeline := ⟨[], rfl, rfl⟩
  raw d := by cases d <;> rfl
  hashers key := rfl
  sizes key := rfl
  events := rfl

section
variable {s : Stream} (d : StreamDirection) (data : Bytes) (receivedUnixNs forwardedUnixNs : Int)
  (clock : Clock)

/-- What `record` adds: a chunk at most, under the next number, with the token and the command of
that number. -/
theorem record_added (s : Stream) :
    ∃ added : Option CapturedChunk, ∃ token : CaptureToken,
      (s.record d data receivedUnixNs forwardedUnixNs clock).job.chunks =
        s.job.chunks ++ added.toList ∧
      (∀ c, added = some c → c.sequence = s.eventSequence + 1 ∧
        c.localWriteDrainCompleted = none ∧ c.Measured) ∧
      token.sequence = some (s.eventSequence + 1) ∧
      token.chunkIndex = added.map (fun _ => s.job.chunks.length) ∧
      (s.record d data receivedUnixNs forwardedUnixNs clock).undrained = s.undrained ++ [token] ∧
      (s.record d data receivedUnixNs forwardedUnixNs clock).queue = s.queue ++
        [.append (s.eventSequence + 1) d (data.take s.job.room) token.chunkIndex] := by
  have hchunks := s.job.append_chunks d data (s.eventSequence + 1) (some (s.sessionOffsets d))
    (observedAt receivedUnixNs forwardedUnixNs clock) false
  have hstored := s.job.append_bytesStored d data (some (s.eventSequence + 1))
    (some (s.sessionOffsets d)) (observedAt receivedUnixNs forwardedUnixNs clock) false
  unfold record
  dsimp only at hchunks hstored ⊢
  rw [hstored, Function.update_self, Nat.add_sub_cancel_left, List.length_take,
    ← List.take_eq_take_min]
  generalize s.job.append d data (some (s.eventSequence + 1)) (some (s.sessionOffsets d))
    (observedAt receivedUnixNs forwardedUnixNs clock) false = appended at hchunks ⊢
  rcases hchunks with ⟨hindex, hchunks⟩ | ⟨hindex, chunk, hchunks, hsequence, hundrained, hmeasured⟩
  · refine ⟨none, _, ?_, fun c hc => absurd hc (Option.some_ne_none c).symm, rfl, hindex, rfl, rfl⟩
    simpa using hchunks
  · refine ⟨some chunk, _, hchunks, ?_, rfl, hindex, rfl, rfl⟩
    rintro c ⟨⟩
    exact ⟨hsequence, hundrained, hmeasured⟩

/-- What `record` changes in the table. -/
theorem record_table (h : s.Linked) {added : Option CapturedChunk}
    (hchunks : (s.record d data receivedUnixNs forwardedUnixNs clock).job.chunks =
      s.job.chunks ++ added.toList)
    (hadded : ∀ c, added = some c → c.sequence = s.eventSequence + 1) (q : Nat) :
    (s.record d data receivedUnixNs forwardedUnixNs clock).table q =
      if q = s.eventSequence + 1 then added else s.table q := by
  have hold : ∀ c ∈ s.job.chunks, c.sequence < s.eventSequence + 1 :=
    fun c hc => Nat.lt_succ_of_le (h.bounds c hc).2
  rw [table, hchunks]
  cases added with
  | none =>
    rw [Option.toList_none, List.append_nil]
    split
    · next hq => exact chunkAt_eq_none.mpr fun c hc => hq ▸ (hold c hc).ne
    · rfl
  | some chunk =>
    have hsequence := hadded chunk rfl
    rw [Option.toList_some, chunkAt_append (fun c hc => hsequence ▸ hold c hc), hsequence, table]

theorem record_linked (h : s.Linked) :
    (s.record d data receivedUnixNs forwardedUnixNs clock).Linked := by
  obtain ⟨added, token, hchunks, hadded, hsequence, hindex, hundrained, hqueue⟩ :=
    record_added d data receivedUnixNs forwardedUnixNs clock s
  have htable := record_table d data receivedUnixNs forwardedUnixNs clock h hchunks
    fun c hc => (hadded c hc).1
  have hids := s.job.append_ids d data (some (s.eventSequence + 1)) (some (s.sessionOffsets d))
    (observedAt receivedUnixNs forwardedUnixNs clock) false
  have hle : s.live.maximumSequence ≤ s.eventSequence := h.count ▸ Nat.le_add_right ..
  have hold : ∀ q ≤ s.eventSequence,
      (s.record d data receivedUnixNs forwardedUnixNs clock).table q = s.table q := by
    intro q hq
    rw [htable, if_neg (by omega)]
  have hkept : ∀ (i : Nat) (c : CapturedChunk), s.job.chunks[i]? = some c →
      (s.record d data receivedUnixNs forwardedUnixNs clock).job.chunks[i]? = some c := by
    intro i c hc
    rw [hchunks, List.getElem?_append_left (List.getElem?_eq_some_iff.mp hc).1, hc]
  have hnew : ∀ c, added = some c →
      (s.record d data receivedUnixNs forwardedUnixNs clock).job.chunks[s.job.chunks.length]? =
        some c := by
    rintro c rfl
    rw [hchunks]
    simp
  have hroom : s.batch.room = s.job.room := by rw [h.twin]; rfl
  have hmax := h.aligned.next
  refine
    { twin := ?twin
      ids := ⟨h.ids.1.trans hids.1.symm, h.ids.2.trans hids.2.symm⟩
      closed := h.closed
      ordered := ?ordered
      bounds := ?bounds
      measured := ?measured
      tokens := ?tokens
      distinct := ?distinct
      count := ?count
      appends := ?appends
      drains := ?drains
      aligned := ?aligned
      settled := ?settled
      first := h.first
      timeline := ?timeline
      raw := ?raw
      hashers := h.hashers
      sizes := h.sizes
      events := h.events }
  case twin =>
    have hbare := s.batch.bare_append d data (some (s.eventSequence + 1)) (some (s.sessionOffsets d))
      (observedAt receivedUnixNs forwardedUnixNs clock)
    rw [← h.twin] at hbare
    exact congrArg Prod.fst hbare
  case ordered =>
    rw [hchunks, Ordered, List.pairwise_append]
    refine ⟨h.ordered, ?_, fun c hc c' hc' => ?_⟩
    · cases added <;> simp
    · rw [(hadded c' (Option.mem_toList.mp hc')).1]
      exact Nat.lt_succ_of_le (h.bounds c hc).2
  case bounds =>
    intro c hc
    rw [hchunks, List.mem_append] at hc
    rcases hc with hc | hc
    · exact ⟨(h.bounds c hc).1, Nat.le_succ_of_le (h.bounds c hc).2⟩
    · rw [(hadded c (Option.mem_toList.mp hc)).1]
      exact ⟨Nat.succ_pos _, le_rfl⟩
  case measured =>
    intro c hc
    rw [hchunks, List.mem_append] at hc
    exact hc.elim (h.measured c) fun hc => (hadded c (Option.mem_toList.mp hc)).2.2
  case tokens =>
    intro token' htoken'
    rw [hundrained, List.mem_append, List.mem_singleton] at htoken'
    rcases htoken' with htoken' | rfl
    · obtain ⟨⟨q, hq, hqle, hc⟩, hi⟩ := h.tokens token' htoken'
      refine ⟨⟨q, hq, Nat.le_succ_of_le hqle, fun c hqc => ?_⟩, fun index hindex => ?_⟩
      · obtain ⟨hund, index, hti, hci⟩ := hc c (hold q hqle ▸ hqc)
        exact ⟨hund, index, hti, hkept index c hci⟩
      · obtain ⟨c, hci, hcs⟩ := hi index hindex
        exact ⟨c, hkept index c hci, hcs⟩
    · refine ⟨⟨s.eventSequence + 1, hsequence, le_rfl, fun c hc => ?_⟩, fun index hi => ?_⟩
      · rw [htable, if_pos rfl] at hc
        exact ⟨(hadded c hc).2.1, s.job.chunks.length, by rw [hindex, hc]; rfl, hnew c hc⟩
      · rw [hindex, Option.map_eq_some_iff] at hi
        obtain ⟨c, hc, rfl⟩ := hi
        exact ⟨c, hnew c hc, by rw [hsequence, (hadded c hc).1]⟩
  case distinct =>
    rw [hundrained, List.map_append, List.nodup_append]
    refine ⟨h.distinct, by simp, fun a ha b hb heq => ?_⟩
    rw [List.map_singleton, List.mem_singleton] at hb
    obtain ⟨token', htoken', rfl⟩ := List.mem_map.mp ha
    obtain ⟨⟨q, hq, hqle, -⟩, -⟩ := h.tokens token' htoken'
    rw [heq, hb, hsequence] at hq
    cases hq
    omega
  case count =>
    rw [hqueue, List.countP_append]
    show s.live.maximumSequence + (_ + _) = s.eventSequence + 1
    rw [← Nat.add_assoc, h.count]
    rfl
  case appends =>
    intro q d' data' index hcommand
    rw [hqueue, List.mem_append, List.mem_singleton] at hcommand
    rcases hcommand with hcommand | hcommand
    · exact (h.appends q d' data' index hcommand).mono (Nat.le_succ _) hold hkept
    · cases hcommand
      refine ⟨le_rfl, ?_⟩
      rw [hindex]
      cases added with
      | none => rw [Option.map_none, htable, if_pos rfl]
      | some c => exact ⟨c, hnew c rfl, by rw [htable, if_pos rfl]⟩
  case drains =>
    intro q completed drainUnixNs error hcommand
    rw [hqueue, List.mem_append, List.mem_singleton] at hcommand
    rcases hcommand with hcommand | hcommand
    · obtain ⟨hq, hc'⟩ := h.drains q completed drainUnixNs error hcommand
      exact ⟨Nat.le_succ_of_le hq, fun c hc => hc' c (hold q hq ▸ hc)⟩
    · cases hcommand
  case aligned =>
    refine h.aligned.retable (fun q hq => by rw [hold q (hq.trans hle)]) fun q c copy _ hq hc hr => ?_
    refine ⟨c, by rw [hold q (hq.trans hle), hc], ?_⟩
    rw [hqueue]
    exact hr.imp id fun ⟨hu, completed, drainUnixNs, error, hmem, heq⟩ =>
      ⟨hu, completed, drainUnixNs, error, List.mem_append_left _ hmem, heq⟩
  case settled =>
    intro q hq c hc
    have hq : q < s.live.nextTimelineSequence := hq
    exact h.settled q hq c (hold q (by omega) ▸ hc)
  case timeline =>
    obtain ⟨text, htext, hdisk⟩ := h.timeline
    refine ⟨text, Eq.trans ?_ htext, hdisk⟩
    have hlines : lines (s.record d data receivedUnixNs forwardedUnixNs clock).table 1
        s.live.nextTimelineSequence = lines s.table 1 s.live.nextTimelineSequence :=
      lines_congr fun q hq => hold q (by omega)
    exact congr (congr (congrArg renderTimelineJsonl hlines) hids.1) hids.2
  case raw =>
    intro d'
    have hpayload := s.batch.append_payload d data (some (s.eventSequence + 1))
      (some (s.sessionOffsets d)) (observedAt receivedUnixNs forwardedUnixNs clock)
    refine Eq.trans ?_ (congrFun hpayload d').symm
    rw [hqueue, hroom, List.flatMap_append, ← List.append_assoc]
    refine (congrArg (· ++ _) (h.raw d')).trans ?_
    by_cases hd : d = d'
    · subst hd
      simp [StreamCommand.rawBytes]
    · simp [StreamCommand.rawBytes, hd, Function.update_of_ne (Ne.symm hd)]

end

section
variable {s : Stream} {token : CaptureToken} (completed : Bool) (error : Option Text) (clock : Clock)

/-- What a drain does to the chunks: it settles the one with the number of its token. -/
theorem drain_chunks (h : s.Linked) (htoken : token ∈ s.undrained) {q : Nat}
    (hq : token.sequence = some q) :
    (s.drain token completed error clock).job.chunks =
      s.job.chunks.map (changeAt q (·.drained completed clock.unixNs error)) := by
  obtain ⟨⟨q', hq', -, hc⟩, hi⟩ := h.tokens token htoken
  rw [hq] at hq'
  cases hq'
  obtain ⟨-, -, -, hchunks⟩ :=
    s.job.markLocalWriteDrain_eq token completed clock.unixNs error
  refine hchunks.trans ?_
  cases hindex : token.chunkIndex with
  | none =>
    rw [Option.map_none, Option.getD_none, map_changeAt_of_ne]
    intro c hmem heq
    obtain ⟨-, index, hsome, -⟩ := hc c ((chunkAt_eq_some h.ordered).mpr ⟨hmem, heq⟩)
    rw [hindex] at hsome
    cases hsome
  | some index =>
    obtain ⟨c, hci, hcs⟩ := hi index hindex
    rw [hq] at hcs
    cases hcs
    exact modify_eq_map h.ordered hci _

theorem drain_linked (h : s.Linked) (htoken : token ∈ s.undrained) :
    (s.drain token completed error clock).Linked := by
  obtain ⟨⟨q₀, hq₀, hq₀le, hundrained⟩, -⟩ := h.tokens token htoken
  have hchunks := drain_chunks completed error clock h htoken hq₀
  obtain ⟨hsession, hconnection, hpayload, -⟩ :=
    s.job.markLocalWriteDrain_eq token completed clock.unixNs error
  obtain ⟨-, -, hbatch, -⟩ := s.batch.markLocalWriteDrain_eq token completed clock.unixNs error
  set change := changeAt q₀ (·.drained completed clock.unixNs error) with hchange
  have hseq : ∀ c, (change c).sequence = c.sequence := by
    intro c
    rw [hchange, changeAt]
    split <;> rfl
  have hother : ∀ c, c.sequence ≠ q₀ → change c = c := fun c hc => if_neg hc
  have hthis : ∀ c, c.sequence = q₀ → change c = c.drained completed clock.unixNs error :=
    fun c hc => if_pos hc
  have htable : ∀ q, (s.drain token completed error clock).table q = (s.table q).map change := by
    intro q
    rw [table, hchunks, chunkAt_map hseq, table]
  have hget : ∀ i : Nat, (s.drain token completed error clock).job.chunks[i]? =
      s.job.chunks[i]?.map change := by
    intro i
    rw [hchunks, List.getElem?_map]
  have hnum : ∀ q c, s.table q = some c → c.sequence = q :=
    fun q c hc => ((chunkAt_eq_some h.ordered).mp hc).2
  have hqueue : (s.drain token completed error clock).queue = s.queue ++
      [.drain q₀ completed clock.unixNs error] := by
    rw [drain, hq₀]
    rfl
  have hnodup : s.undrained.Nodup := List.Nodup.of_map _ h.distinct
  have hdistinct : ∀ token' ∈ s.undrained.erase token, token'.sequence ≠ some q₀ := by
    intro token' htoken' heq
    have hmem := List.mem_of_mem_erase htoken'
    have hsame := List.inj_on_of_nodup_map h.distinct hmem htoken (heq.trans hq₀.symm)
    exact (hnodup.mem_erase_iff.mp htoken').1 hsame
  refine
    { twin := ?twin
      ids := ⟨h.ids.1.trans hsession.symm, h.ids.2.trans hconnection.symm⟩
      closed := h.closed
      ordered := ?ordered
      bounds := ?bounds
      measured := ?measured
      tokens := ?tokens
      distinct := ?distinct
      count := ?count
      appends := ?appends
      drains := ?drains
      aligned := ?aligned
      settled := ?settled
      first := h.first
      timeline := ?timeline
      raw := ?raw
      hashers := h.hashers
      sizes := h.sizes
      events := h.events }
  case twin =>
    have hbare := s.batch.bare_markLocalWriteDrain token completed clock.unixNs error
    rw [← h.twin] at hbare
    exact hbare
  case ordered =>
    rw [hchunks, Ordered, List.pairwise_map]
    exact h.ordered.imp fun hlt => by rw [hseq, hseq]; exact hlt
  case bounds =>
    intro c hc
    rw [hchunks, List.mem_map] at hc
    obtain ⟨c, hc, rfl⟩ := hc
    rw [hseq]
    exact h.bounds c hc
  case measured =>
    intro c hc
    rw [hchunks, List.mem_map] at hc
    obtain ⟨c, hc, rfl⟩ := hc
    rw [hchange, changeAt]
    split <;> exact h.measured c hc
  case tokens =>
    intro token' htoken'
    have hne := hdistinct token' htoken'
    obtain ⟨⟨q, hq, hqle, hc⟩, hi⟩ := h.tokens token' (List.mem_of_mem_erase htoken')
    have hqne : q ≠ q₀ := fun heq => hne (heq ▸ hq)
    refine ⟨⟨q, hq, hqle, fun c hqc => ?_⟩, fun index hindex => ?_⟩
    · rw [htable, Option.map_eq_some_iff] at hqc
      obtain ⟨c, hqc, rfl⟩ := hqc
      rw [hother c (by rw [hnum q c hqc]; exact hqne)]
      obtain ⟨hund, index, hti, hci⟩ := hc c hqc
      refine ⟨hund, index, hti, ?_⟩
      rw [hget, hci, Option.map_some, hother c (by rw [hnum q c hqc]; exact hqne)]
    · obtain ⟨c, hci, hcs⟩ := hi index hindex
      refine ⟨change c, ?_, by rw [hseq, hcs]⟩
      rw [hget, hci, Option.map_some]
  case distinct => exact h.distinct.sublist ((List.erase_sublist).map _)
  case count =>
    rw [hqueue, List.countP_append]
    exact h.count
  case appends =>
    intro q d data index hcommand
    rw [hqueue, List.mem_append, List.mem_singleton] at hcommand
    obtain ⟨hqle, hpoint⟩ := h.appends q d data index (hcommand.resolve_right (by rintro ⟨⟩))
    refine ⟨hqle, ?_⟩
    cases index with
    | none =>
      rw [htable, hpoint, Option.map_none]
    | some i =>
      obtain ⟨c, hci, hqc⟩ := hpoint
      exact ⟨change c, by rw [hget, hci, Option.map_some], by rw [htable, hqc, Option.map_some]⟩
  case drains =>
    intro q completed' drainUnixNs' error' hcommand
    rw [hqueue, List.mem_append, List.mem_singleton] at hcommand
    rcases hcommand with hcommand | hcommand
    · obtain ⟨hqle, hc'⟩ := h.drains q completed' drainUnixNs' error' hcommand
      refine ⟨hqle, fun c hc => ?_⟩
      rw [htable, Option.map_eq_some_iff] at hc
      obtain ⟨c, hqc, rfl⟩ := hc
      by_cases hq : q = q₀
      · -- an undrained chunk is not the result of a drain
        subst hq
        have hnone := (hundrained c hqc).1
        rw [← hc' c hqc] at hnone
        cases hnone
      · rw [hother c (by rw [hnum q c hqc]; exact hq)]
        exact hc' c hqc
    · cases hcommand
      refine ⟨hq₀le, fun c hc => ?_⟩
      rw [htable, Option.map_eq_some_iff] at hc
      obtain ⟨c, hqc, rfl⟩ := hc
      rw [hthis c (hnum q₀ c hqc)]
      rfl
  case aligned =>
    refine h.aligned.retable (fun q _ => by rw [htable, Option.map_eq_none_iff])
      fun q c copy _ _ hqc hr => ⟨change c, by rw [htable, hqc, Option.map_some], ?_⟩
    rw [hqueue]
    by_cases hq : q = q₀
    · subst hq
      have hnone := (hundrained c hqc).1
      rcases hr with rfl | ⟨-, completed', drainUnixNs', error', -, rfl⟩
      · exact .inr ⟨hnone, completed, clock.unixNs, error, by simp, (hthis _ (hnum q _ hqc)).symm⟩
      · cases hnone
    · rw [hother c (by rw [hnum q c hqc]; exact hq)]
      refine hr.imp id ?_
      rintro ⟨hu, completed', drainUnixNs', error', hmem, heq⟩
      exact ⟨hu, completed', drainUnixNs', error', List.mem_append_left _ hmem, heq⟩
  case settled =>
    intro q hq c hc
    rw [htable, Option.map_eq_some_iff] at hc
    obtain ⟨c, hqc, rfl⟩ := hc
    rw [hchange, changeAt]
    split
    · rintro ⟨⟩
    · exact h.settled q hq c hqc
  case timeline =>
    obtain ⟨text, htext, hdisk⟩ := h.timeline
    refine ⟨text, Eq.trans ?_ htext, hdisk⟩
    have hlines : lines (s.drain token completed error clock).table 1
        s.live.nextTimelineSequence = lines s.table 1 s.live.nextTimelineSequence := by
      refine lines_congr fun q hq => ?_
      rw [htable]
      cases hqc : s.table q with
      | none => rfl
      | some c =>
        have hqne : q ≠ q₀ := fun heq => h.settled q hq c hqc (hundrained c (heq ▸ hqc)).1
        rw [Option.map_some, hother c (by rw [hnum q c hqc]; exact hqne)]
    exact congr (congr (congrArg renderTimelineJsonl hlines) hsession) hconnection
  case raw =>
    intro d
    rw [hqueue, List.flatMap_append]
    refine Eq.trans ?_ ((h.raw d).trans (congrFun hbatch d).symm)
    exact congrArg (s.disk d.artifact ++ ·) (List.append_nil _)

end

/-- The state after the worker executed a command. -/
def executed (s : Stream) (queue : List StreamCommand) (call : LiveCall) : Stream :=
  { s with
    queue := queue
    live := call.live
    disk := fun key => s.disk key ++ output call.writes key }

section
variable {s : Stream} {command : StreamCommand} {queue : List StreamCommand} {call : LiveCall}

theorem Related.eq_of_drained {q : Nat} {c copy : CapturedChunk} (h : Related queue q c copy)
    (hdrained : copy.localWriteDrainCompleted ≠ none) : copy = c :=
  h.resolve_right fun ⟨hnone, _⟩ => hdrained hnone

/-- A command that flushed the timeline and wrote its RAW bytes keeps the links. -/
theorem executed_linked (h : s.Linked) (hqueue : s.queue = command :: queue)
    (haligned : Aligned s.table (Related queue) call.live) (hflushed : Flushed s.table false s.live call)
    (hfollows : call.Follows s.live) (hclosed : call.live.closed = false)
    (hcount : call.live.maximumSequence =
      s.live.maximumSequence + if command.isAppend then 1 else 0)
    (hraw : ∀ d, output call.writes (StreamDirection.artifact d) = command.rawBytes d) :
    (s.executed queue call).Linked := by
  have hplace := hfollows.place
  simp only [LiveSpoolCapture.place, Prod.mk.injEq] at hplace
  have hmem : ∀ command' ∈ queue, command' ∈ s.queue :=
    fun command' hcommand => hqueue ▸ List.mem_cons_of_mem command hcommand
  refine
    { twin := h.twin
      ids := ⟨hplace.2.2.2.2.1.trans h.ids.1, hplace.2.2.2.2.2.trans h.ids.2⟩
      closed := hclosed
      ordered := h.ordered
      bounds := h.bounds
      measured := h.measured
      tokens := fun token htoken => ⟨(h.tokens token htoken).1, (h.tokens token htoken).2⟩
      distinct := h.distinct
      count := ?count
      appends := fun q d data index hcommand => h.appends q d data index (hmem _ hcommand)
      drains := fun q completed drainUnixNs error hcommand =>
        h.drains q completed drainUnixNs error (hmem _ hcommand)
      aligned := haligned
      settled := ?settled
      first := h.first.trans hflushed.next
      timeline := ?timeline
      raw := ?raw
      hashers := fun key => (hfollows.hashers key).trans (by rw [h.hashers]; rfl)
      sizes := fun key => (hfollows.sizes key).trans ?sizes
      events := hfollows.events.trans ?events }
  case count =>
    have hold := h.count
    rw [hqueue, List.countP_cons] at hold
    show call.live.maximumSequence + queue.countP (·.isAppend) = s.eventSequence
    rw [hcount]
    omega
  case settled =>
    intro q hq c hc
    by_cases hlt : q < s.live.nextTimelineSequence
    · exact h.settled q hlt c hc
    · exact (hflushed.settled q c (Nat.le_of_not_lt hlt) hq hc).resolve_left Bool.false_ne_true
  case timeline =>
    obtain ⟨text, htext, hdisk⟩ := h.timeline
    obtain ⟨text', htext', hout⟩ := hflushed.text
    rw [h.ids.1, h.ids.2] at htext'
    refine ⟨text ++ text', ?_, ?_⟩
    · show renderTimelineJsonl (lines s.table 1 call.live.nextTimelineSequence) _ _ = _
      rw [← lines_append s.table h.first hflushed.next]
      exact renderTimelineJsonl_append _ _ htext htext'
    · rw [encodeUtf8_append, ← hdisk, ← hout]
      rfl
  case raw =>
    intro d
    have hold := h.raw d
    rw [hqueue, List.flatMap_cons, ← hraw, ← List.append_assoc] at hold
    exact hold
  case sizes =>
    rw [h.sizes]
    exact List.length_append.symm
  case events =>
    rw [h.events]
    exact (lineCount_append _ _).symm

theorem execute_linked (h : s.Linked) (hqueue : s.queue = command :: queue)
    (herror : (Connection.execute { job := some s.job } s.live command).error = none) :
    (s.executed queue (Connection.execute { job := some s.job } s.live command)).Linked := by
  cases command with
  | append q d data index =>
    have hdrains : ∀ q' completed drainUnixNs error,
        StreamCommand.drain q' completed drainUnixNs error ∈ s.queue ↔
          StreamCommand.drain q' completed drainUnixNs error ∈ queue := by
      intro q' completed drainUnixNs error
      rw [hqueue, List.mem_cons]
      exact or_iff_right nofun
    have haligned : Aligned s.table (Related queue) s.live := by
      refine h.aligned.retable (fun q _ => Iff.rfl) fun q c copy _ _ hc hr => ⟨c, hc, ?_⟩
      exact hr.imp id fun ⟨hu, completed, drainUnixNs, error, hmem, heq⟩ =>
        ⟨hu, completed, drainUnixNs, error, (hdrains _ _ _ _).mp hmem, heq⟩
    have hchunk : s.table q = index.bind fun i => s.job.chunks[i]? := by
      obtain ⟨-, hpoint⟩ := h.appends q d data index (hqueue ▸ List.mem_cons_self)
      cases index with
      | none => exact hpoint
      | some i =>
        obtain ⟨c, hci, hqc⟩ := hpoint
        rw [hqc, Option.bind_some, hci]
    have hbare : ∀ c, (index.bind fun i => s.job.chunks[i]?) = some c → c.data = [] := by
      intro c hc
      rw [← hchunk] at hc
      have hmem := ((chunkAt_eq_some h.ordered).mp hc).1
      rw [h.twin] at hmem
      obtain ⟨c', -, rfl⟩ := List.mem_map.mp hmem
      rfl
    obtain ⟨ha, hf⟩ := LiveSpoolCapture.append_flushed (fun q c copy hr => hr.eq_of_drained)
      (fun q c => .inl rfl) haligned hchunk hbare herror
    obtain ⟨-, hnext, hclosed, hmax, hout⟩ := LiveSpoolCapture.append_ok herror
    refine executed_linked h hqueue ha hf (LiveSpoolCapture.append_follows ..) hclosed
      (hmax.trans hnext) fun d' => ?_
    refine (hout _ (LiveSpoolCapture.artifact_ne_timeline d')).trans ?_
    cases d <;> cases d' <;> rfl
  | drain q completed drainUnixNs error =>
    obtain ⟨-, hsettles⟩ := h.drains q completed drainUnixNs error (hqueue ▸ List.mem_cons_self)
    have hother : ∀ q' c copy, q' ≠ q → Related s.queue q' c copy → Related queue q' c copy := by
      intro q' c copy hne hr
      refine hr.imp id fun ⟨hu, completed', drainUnixNs', error', hmem, heq⟩ => ?_
      rw [hqueue, List.mem_cons] at hmem
      refine ⟨hu, completed', drainUnixNs', error', hmem.resolve_left fun heq => ?_, heq⟩
      cases heq
      exact hne rfl
    have hsame : ∀ c copy, s.table q = some c → Related s.queue q c copy →
        Related queue q c (copy.drained completed drainUnixNs error) := by
      intro c copy hc hr
      have hdrained := hsettles c hc
      left
      rcases hr with rfl | ⟨-, completed', drainUnixNs', error', -, rfl⟩
      · exact hdrained
      · exact hdrained
    obtain ⟨ha, hf⟩ := LiveSpoolCapture.markLocalWriteDrain_flushed
      (fun q c copy hr => hr.eq_of_drained) h.aligned hother hsame herror
    have honly := s.live.markLocalWriteDrain_follows q completed drainUnixNs error
    refine executed_linked h hqueue ha hf honly.follows (honly.closed.trans h.closed)
      honly.maximumSequence fun d => ?_
    exact honly.output_eq_nil (LiveSpoolCapture.artifact_ne_timeline d)

end

theorem step_linked {s s' : Stream} {clock : Clock} {event : CaptureEvent} (h : s.Linked)
    (hstep : s.step clock event = some s') : s'.Linked := by
  cases event with
  | record d data receivedUnixNs forwardedUnixNs =>
    simp only [step] at hstep
    split at hstep
    · cases hstep
    · cases hstep
      exact record_linked d data receivedUnixNs forwardedUnixNs clock h
  | drain token completed error =>
    simp only [step] at hstep
    split at hstep
    · next htoken =>
      cases hstep
      exact drain_linked completed error clock h htoken
    · cases hstep
  | execute =>
    simp only [step] at hstep
    split at hstep
    · cases hstep
    · next command queue hqueue =>
      split at hstep
      · cases hstep
      · next herror =>
        cases hstep
        exact execute_linked h hqueue herror

theorem run_linked {s s' : Stream} {events : List (CaptureEvent × Clock)} (h : s.Linked)
    (hrun : s.run events = some s') : s'.Linked := by
  induction events generalizing s with
  | nil =>
    cases hrun
    exact h
  | cons head events ih =>
    obtain ⟨event, clock⟩ := head
    simp only [run] at hrun
    split at hrun
    · next hstep => exact ih (step_linked h hstep) hrun
    · cases hrun

/-! ## Drain outcomes -/

/-- A drained chunk stays as it is. -/
theorem step_keeps {s s' : Stream} {clock : Clock} {event : CaptureEvent} (h : s.Linked)
    (hstep : s.step clock event = some s') {index : Nat} {c : CapturedChunk}
    (hc : s.job.chunks[index]? = some c) (hdrained : c.localWriteDrainCompleted ≠ none) :
    s'.job.chunks[index]? = some c := by
  cases event with
  | record d data receivedUnixNs forwardedUnixNs =>
    simp only [step] at hstep
    split at hstep
    · cases hstep
    · cases hstep
      obtain ⟨added, token, hchunks, -⟩ :=
        record_added d data receivedUnixNs forwardedUnixNs clock s
      rw [hchunks, List.getElem?_append_left (List.getElem?_eq_some_iff.mp hc).1, hc]
  | drain token completed error =>
    simp only [step] at hstep
    split at hstep
    · next htoken =>
      cases hstep
      obtain ⟨⟨q, hq, -, hundrained⟩, -⟩ := h.tokens token htoken
      have htable : s.table c.sequence = some c :=
        (chunkAt_eq_some h.ordered).mpr ⟨List.mem_of_getElem? hc, rfl⟩
      have hne : c.sequence ≠ q := fun heq => hdrained (hundrained c (heq ▸ htable)).1
      rw [drain_chunks completed error clock h htoken hq, List.getElem?_map, hc, Option.map_some,
        changeAt, if_neg hne]
    · cases hstep
  | execute =>
    simp only [step] at hstep
    split at hstep
    · cases hstep
    · split at hstep
      · cases hstep
      · cases hstep
        exact hc

theorem run_keeps {s s' : Stream} {events : List (CaptureEvent × Clock)} (h : s.Linked)
    (hrun : s.run events = some s') {index : Nat} {c : CapturedChunk}
    (hc : s.job.chunks[index]? = some c) (hdrained : c.localWriteDrainCompleted ≠ none) :
    s'.job.chunks[index]? = some c := by
  induction events generalizing s with
  | nil =>
    cases hrun
    exact hc
  | cons head events ih =>
    obtain ⟨event, clock⟩ := head
    simp only [run] at hrun
    split at hrun
    · next hstep => exact ih (step_linked h hstep) hrun (step_keeps h hstep hc hdrained)
    · cases hrun

/-- The outcome of a drain is what the chunk of its token says in the end. -/
theorem run_outcome {s s' : Stream} {events : List (CaptureEvent × Clock)} (h : s.Linked)
    (hrun : s.run events = some s') {token : CaptureToken} {completed : Bool} {error : Option Text}
    {clock : Clock} (hevent : (CaptureEvent.drain token completed error, clock) ∈ events)
    {index : Nat} (hindex : token.chunkIndex = some index) :
    ∃ c, s'.job.chunks[index]? = some c ∧ token.sequence = some c.sequence ∧
      c.drained completed clock.unixNs error = c := by
  induction events generalizing s with
  | nil => cases hevent
  | cons head events ih =>
    obtain ⟨event, clock'⟩ := head
    simp only [run] at hrun
    split at hrun
    swap
    · cases hrun
    next s₁ hstep =>
    have h₁ := step_linked h hstep
    rcases List.mem_cons.mp hevent with heq | hevent
    · cases heq
      simp only [step] at hstep
      split at hstep
      swap
      · cases hstep
      next htoken =>
      cases hstep
      obtain ⟨c, hc, hcs⟩ := (h.tokens token htoken).chunk index hindex
      have hdrained : (s.drain token completed error clock).job.chunks[index]? =
          some (c.drained completed clock.unixNs error) := by
        rw [drain_chunks completed error clock h htoken hcs, List.getElem?_map, hc, Option.map_some,
          changeAt, if_pos rfl]
      exact ⟨_, run_keeps h₁ hrun hdrained (by rintro ⟨⟩), hcs, rfl⟩
    · exact ih h₁ hrun hevent

/-! ## Publication -/

/-- What the files and the figures of a finalized capture are. -/
theorem Linked.finalized {s : Stream} (h : s.Linked) (hqueue : s.queue = [])
    (herror : s.live.syncAndClose.error = none) :
    (∃ text, renderTimelineJsonl s.job.chunks s.job.sessionId s.job.connectionId = .ok text ∧
      s.disk .timeline ++ output s.live.syncAndClose.writes .timeline = encodeUtf8 text) ∧
    ∀ d, s.disk (StreamDirection.artifact d) ++
      output s.live.syncAndClose.writes d.artifact = s.batch.payload d := by
  have hrelated : ∀ q c copy, Related s.queue q c copy → copy = c := by
    intro q c copy hr
    refine hr.resolve_right fun ⟨_, completed, drainUnixNs, error, hmem, _⟩ => ?_
    rw [hqueue] at hmem
    cases hmem
  obtain ⟨hflushed, hlast⟩ :=
    LiveSpoolCapture.syncAndClose_flushed hrelated h.aligned h.closed herror
  have hmax : s.live.maximumSequence = s.eventSequence := by
    have hcount := h.count
    rw [hqueue] at hcount
    exact hcount
  constructor
  · obtain ⟨text, htext, hdisk⟩ := h.timeline
    obtain ⟨text', htext', hout⟩ := hflushed.text
    rw [h.ids.1, h.ids.2] at htext'
    have hall := renderTimelineJsonl_append _ _ htext htext'
    rw [lines_append s.table h.first hflushed.next, hlast, hmax] at hall
    rw [table, lines_chunkAt h.ordered fun c hc =>
      ⟨(h.bounds c hc).1, Nat.lt_succ_of_le (h.bounds c hc).2⟩] at hall
    exact ⟨text ++ text', hall, by rw [hdisk, hout, encodeUtf8_append]⟩
  · intro d
    have hraw := h.raw d
    rw [hqueue, List.flatMap_nil, List.append_nil] at hraw
    rw [hraw, s.live.syncAndClose_output (LiveSpoolCapture.artifact_ne_timeline d), List.append_nil]

/-- Streaming capture refines batch capture: whatever is recorded and drained, in whatever order, a
capture that raises nothing publishes the files and the manifest that `archive` publishes for the
same job with its payload. The timeline has each chunk once, in the order of the numbers, with the
outcome of its drain. -/
theorem finalize_eq_archive (session : Session) (startedUnixNs : Int) (clock : Clock) (code : Text)
    (parent partialDir finalDir : Path) (events : List (CaptureEvent × Clock)) (s : Stream)
    (hrun : (start session startedUnixNs clock code parent partialDir finalDir).run events = some s)
    (hqueue : s.queue = []) (herror : s.live.syncAndClose.error = none) (now : DateTime)
    (status : Option TransportStatus) :
    ∃ files, archiveFiles (s.batch.finish now status) = .ok files ∧
      (∀ key, s.disk key ++ output s.live.syncAndClose.writes key = files key) ∧
      finalNames (s.job.finish now status) = finalNames (s.batch.finish now status) ∧
      publishedStatus (s.job.finish now status) = publishedStatus (s.batch.finish now status) ∧
      (∀ names published,
        captureManifest session.config (s.job.finish now status) code names published
            s.live.syncAndClose.live.figures =
          captureManifest session.config (s.batch.finish now status) code names published
            (archiveFigures files)) ∧
      Ordered (s.batch.finish now status).chunks ∧
      ∀ token completed error clock',
        (CaptureEvent.drain token completed error, clock') ∈ events →
        ∀ index, token.chunkIndex = some index →
          ∃ c, (s.batch.finish now status).chunks[index]? = some c ∧
            token.sequence = some c.sequence ∧ c.localWriteDrainCompleted = some completed ∧
            c.drainUnixNs = some clock'.unixNs ∧ c.forwardError = error := by
  have hstart := start_linked session startedUnixNs clock code parent partialDir finalDir
  have h := run_linked hstart hrun
  obtain ⟨⟨text, htext, htimeline⟩, hraw⟩ := h.finalized hqueue herror
  have hjob : s.job.finish now status = (s.batch.finish now status).bare := by
    rw [h.twin, CapturedJob.bare_finish]
  obtain ⟨hchunks, hpayload, hsession, hconnection⟩ := s.batch.finish_eq now status
  have hmeasured : ∀ c ∈ s.batch.chunks, c.Measured := by
    intro c hc
    refine h.measured c.bare ?_
    rw [h.twin]
    exact List.mem_map_of_mem hc
  have hrender : renderTimelineJsonl (s.batch.finish now status).chunks
      (s.batch.finish now status).sessionId (s.batch.finish now status).connectionId = .ok text := by
    rw [hchunks, hsession, hconnection, ← renderTimelineJsonl_bare hmeasured, ← htext, h.twin]
    rfl
  obtain ⟨files, hfiles, hkeys⟩ : ∃ files, archiveFiles (s.batch.finish now status) = .ok files ∧
      ∀ key, s.disk key ++ output s.live.syncAndClose.writes key = files key := by
    refine ⟨_, by rw [archiveFiles, hrender]; rfl, fun key => ?_⟩
    cases key with
    | requestRaw => rw [hpayload]; exact hraw .clientToRch
    | responseRaw => rw [hpayload]; exact hraw .rchToClient
    | timeline => exact htimeline
  have hfollows := s.live.syncAndClose_follows
  have hsizes : ∀ key, s.live.syncAndClose.live.sizes key = (files key).length := by
    intro key
    rw [hfollows.sizes, h.sizes, ← List.length_append, hkeys]
  have hhashers : ∀ key, s.live.syncAndClose.live.hashers key = files key := by
    intro key
    rw [hfollows.hashers, h.hashers, hkeys]
  have hraws : ∀ d, files (StreamDirection.artifact d) = s.batch.payload d :=
    fun d => (hkeys _).symm.trans (hraw d)
  refine ⟨files, hfiles, hkeys, by rw [hjob]; rfl, by rw [hjob]; rfl, ?manifest, ?ordered, ?outcome⟩
  case manifest =>
    intro names published
    rw [hjob]
    refine captureManifest_bare session.config _ code names published ?_ ?_ ?_ ?_
    · exact congrArg some (funext fun key => congrArg sha256 (hhashers key))
    · rw [hpayload, ← hraws]
      exact hsizes .requestRaw
    · rw [hpayload, ← hraws]
      exact hsizes .responseRaw
    · have hevents := hfollows.events
      rw [h.events, ← lineCount_append, htimeline, lineCount_renderTimelineJsonl hrender] at hevents
      exact hevents
  case ordered =>
    rw [hchunks]
    have hordered := h.ordered
    rw [h.twin, CapturedJob.bare, Ordered, List.pairwise_map] at hordered
    exact hordered
  case outcome =>
    intro token completed error clock' hevent index hindex
    obtain ⟨c, hc, hsequence, hdrained⟩ := run_outcome hstart hrun hevent hindex
    have hbare : s.job.chunks[index]? = s.batch.chunks[index]?.map (·.bare) := by
      rw [h.twin]
      exact List.getElem?_map
    rw [hbare, Option.map_eq_some_iff] at hc
    obtain ⟨c', hc', rfl⟩ := hc
    exact ⟨c', by rw [hchunks, hc'], hsequence, (congrArg (·.localWriteDrainCompleted) hdrained).symm,
      (congrArg (·.drainUnixNs) hdrained).symm, (congrArg (·.forwardError) hdrained).symm⟩

/-- Two chunks, one for each direction: the response is drained first, before the worker has copied
its event, and the request not at all. -/
def sampleEvents : List (CaptureEvent × Clock) :=
  [(.record .clientToRch [1, 2] 5 6, Connection.sampleClock),
   (.record .rchToClient [3] 7 8, Connection.sampleClock),
   (.drain
      { jobId := (Connection.sampleSession .abort).jobId
        chunkIndex := some 1
        direction := .rchToClient
        byteCount := 1
        sequence := some 2 } true none, Connection.sampleClock),
   (.execute, Connection.sampleClock),
   (.execute, Connection.sampleClock),
   (.execute, Connection.sampleClock)]

theorem finalize_eq_archive_sample :
    ∃ s, (start (Connection.sampleSession .abort) 5 Connection.sampleClock [] [] [] []).run
        sampleEvents = some s ∧
      ∃ files, archiveFiles (s.batch.finish Connection.sampleClock.now none) = .ok files ∧
        s.disk .responseRaw ++ output s.live.syncAndClose.writes .responseRaw = files .responseRaw := by
  have hrun : ((start (Connection.sampleSession .abort) 5 Connection.sampleClock [] [] [] []).run
      sampleEvents).map (fun s => decide (s.queue = [] ∧ s.live.syncAndClose.error = none)) =
        some true := by
    decide +kernel
  obtain ⟨s, hs, hdone⟩ := Option.map_eq_some_iff.mp hrun
  obtain ⟨hqueue, herror⟩ := of_decide_eq_true hdone
  obtain ⟨files, hfiles, hkeys, -⟩ := finalize_eq_archive _ _ _ _ _ _ _ _ s hs hqueue herror
    Connection.sampleClock.now none
  exact ⟨s, hs, files, hfiles, hkeys _⟩

/-! ## The connection -/

/-- The capture manager and the worker of a connection, as the stream sees them. -/
structure Mirrors (c : Connection) (s : Stream) : Prop where
  job : c.job = some s.job
  eventSequence : c.eventSequence = s.eventSequence
  sessionOffsets : c.sessionOffsets = s.sessionOffsets
  queue : c.queue = s.queue
  worker : c.worker = .idle s.live
  disk : c.disk = s.disk
  errors : c.persistErrors = []
  degraded : c.captureDegraded = false

variable {session : Session} {c : Connection} {s : Stream}

/-- A record of the connection, where the queue has room, is a record of the stream. -/
theorem Mirrors.recordJob (h : Mirrors c s) (hroom : c.queue.length < Connection.queueItems session)
    (d : StreamDirection) (data : Bytes) (receivedUnixNs forwardedUnixNs : Int) (clock : Clock) :
    Mirrors (Connection.recordJob session c s.job d data receivedUnixNs forwardedUnixNs clock)
      (s.record d data receivedUnixNs forwardedUnixNs clock) := by
  unfold Connection.recordJob
  dsimp only
  rw [if_pos ⟨h.errors, h.degraded⟩, Connection.enqueueStream, if_pos hroom]
  refine ⟨?_, ?_, ?_, ?_, h.worker, h.disk, h.errors, h.degraded⟩
  all_goals simp only [Connection.goes, record, h.eventSequence, h.sessionOffsets, h.queue]
  · rfl
  · rfl

/-- A drain of the connection, where the queue has room, is a drain of the stream. -/
theorem Mirrors.markLocked (h : Mirrors c s) (hroom : c.queue.length < Connection.queueItems session)
    (hactive : c.active = true) {token : CaptureToken} (htoken : token.jobId = s.job.jobId)
    {sequence : Nat} (hsequence : token.sequence = some sequence) (d : StreamDirection)
    (completed : Bool) (error : Option Text) (clock : Clock) :
    Mirrors (Connection.markLocked session c d token completed error clock)
      (s.drain token completed error clock) := by
  unfold Connection.markLocked
  rw [h.job]
  dsimp only
  rw [if_neg (by simp [hactive, htoken]), hsequence]
  dsimp only
  rw [if_pos ⟨h.errors, h.degraded⟩, Connection.enqueueStream, if_pos hroom]
  dsimp only
  rw [Connection.markDone, if_neg (by simp [Connection.aborts, h.errors])]
  refine ⟨rfl, h.eventSequence, h.sessionOffsets, ?_, h.worker, h.disk, h.errors, h.degraded⟩
  simp only [Connection.goes, drain, h.queue, hsequence]
  rfl

/-- The worker takes a command and executes it as the stream does. -/
theorem Mirrors.executed (h : Mirrors c s) {command : StreamCommand} {queue : List StreamCommand}
    (hqueue : s.queue = command :: queue)
    (herror : (Connection.execute { job := some s.job } s.live command).error = none)
    (clock : Clock) :
    ∃ c₁ c₂, Connection.step session c clock .take = some c₁ ∧
      Connection.step session c₁ clock .executed = some c₂ ∧
      Mirrors c₂ (s.executed queue (Connection.execute { job := some s.job } s.live command)) := by
  have htake : Connection.step session c clock .take =
      some { c with queue := queue, worker := .executing s.live command } := by
    simp only [Connection.step, h.worker, h.queue, hqueue]
  have hcall : Connection.execute { c with queue := queue, worker := .executing s.live command }
      s.live command = Connection.execute { job := some s.job } s.live command := by
    cases command <;> simp only [Connection.execute, h.job]
  have hexecuted : Connection.step session
      { c with queue := queue, worker := .executing s.live command } clock .executed =
        some { c with
          queue := queue
          worker := .idle (Connection.execute { job := some s.job } s.live command).live
          disk := fun key => c.disk key ++
            output (Connection.execute { job := some s.job } s.live command).writes key } := by
    simp only [Connection.step, hcall, herror, Connection.writeDisk]
  refine ⟨_, _, htake, hexecuted, h.job, h.eventSequence, h.sessionOffsets, rfl, rfl, ?_, h.errors,
    h.degraded⟩
  rw [h.disk]
  rfl

end Stream

end RchProxy
