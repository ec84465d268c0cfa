import RchProxy.Capture.Control

/-!
# The partial files are a cut

The events a run records, in the order of their numbers (`recordedEvents`), beside the bytes in the
two partial RAW files. A command on its way to the worker carries the event its number says, and the
capture takes an event only if its number is the next one (`Logged`). So whatever misses the queue,
the files hold the first events of the run and nothing behind a gap (`partial_files_cut`).
-/

namespace RchProxy

open Py Lib

/-- The bytes of one direction in a list of recorded events. -/
def recordedBytes (d : StreamDirection) (log : List (StreamDirection × Bytes)) : Bytes :=
  log.flatMap fun event => if event.1 = d then event.2 else []

theorem recordedBytes_take_succ {log : List (StreamDirection × Bytes)} {k : Nat}
    {d : StreamDirection} {data : Bytes} (h : log[k]? = some (d, data)) (d' : StreamDirection) :
    recordedBytes d' (log.take (k + 1)) =
      recordedBytes d' (log.take k) ++ if d = d' then data else [] := by
  rw [recordedBytes, List.take_add_one, h, List.flatMap_append]
  simp [recordedBytes]

/-- A command carries the event its number says. -/
def StreamCommand.Of (log : List (StreamDirection × Bytes)) : StreamCommand → Prop
  | .append sequence d data _ => ∃ k, sequence = k + 1 ∧ log[k]? = some (d, data)
  | .drain .. => True

theorem StreamCommand.Of.mono {log : List (StreamDirection × Bytes)} {command : StreamCommand}
    (h : command.Of log) (more : List (StreamDirection × Bytes)) : command.Of (log ++ more) := by
  cases command with
  | append sequence d data chunk =>
    obtain ⟨k, hk, hlog⟩ := h
    exact ⟨k, hk, by rw [List.getElem?_append_left (List.getElem?_eq_some_iff.mp hlog).1, hlog]⟩
  | drain => trivial

/-- The command a pump waits to queue. -/
def Pump.command? : Pump → Option StreamCommand
  | .recordPut command _ | .markPut command _ => some command
  | _ => none

/-- The command the worker executes. -/
def LiveWorker.command? : LiveWorker → Option StreamCommand
  | .executing _ command => some command
  | _ => none

/-- The number of events the capture has seen, or will start from. -/
def LiveWorker.seen : LiveWorker → Option Nat
  | .absent | .starting => some 0
  | .idle live | .executing live _ | .finalizing live => some live.maximumSequence
  | .closing | .stopped => none

/-! ## What a command writes -/

theorem LiveCall.andThen_writes (call : LiveCall) (next : LiveSpoolCapture → LiveCall) :
    (call.andThen next).writes = call.writes ∨
      (call.andThen next).writes = call.writes ++ (next call.live).writes := by
  unfold andThen
  split
  · exact .inl rfl
  · exact .inr rfl

/-- A block of RAW bytes comes first, then the timeline. -/
theorem LiveSpoolCapture.append_writes (live : LiveSpoolCapture) (sequence : Nat)
    (d : StreamDirection) (data : Bytes) (chunk : Option CapturedChunk) :
    (live.append sequence d data chunk).writes = [] ∧
      (live.append sequence d data chunk).error ≠ none ∨
    sequence = live.maximumSequence + 1 ∧
      ∃ timeline, (∀ write ∈ timeline, write.1 = Artifact.timeline) ∧
        (live.append sequence d data chunk).writes =
          (if data = [] then [] else [(d.artifact, data)]) ++ timeline := by
  unfold append
  split
  · exact .inl ⟨rfl, by rintro ⟨⟩⟩
  split
  · exact .inl ⟨rfl, by rintro ⟨⟩⟩
  next hseq =>
  refine .inr ⟨by simpa using hseq, ?_⟩
  have hraw : (live.appendRaw sequence d data).writes =
      if data = [] then [] else [(d.artifact, data)] := by
    rw [appendRaw]
    unfold LiveCall.andThen
    by_cases hdata : data = [] <;> simp [hdata, put]
  have hchunk := fun live' => (appendChunk_timelineOnly live' sequence data chunk).writes
  have hflush := fun live' => (flushReadyTimeline_timelineOnly live' false).writes
  rw [← hraw]
  set raw := live.appendRaw sequence d data
  set call := raw.andThen fun live => live.appendChunk sequence data chunk with hcall
  obtain ⟨written, hwritten, hcallWrites⟩ :
      ∃ written, (∀ write ∈ written, write.1 = Artifact.timeline) ∧
      call.writes = raw.writes ++ written := by
    rcases raw.andThen_writes fun live => live.appendChunk sequence data chunk with h | h
    · exact ⟨[], by simp, by rw [hcall, h, List.append_nil]⟩
    · exact ⟨_, hchunk raw.live, by rw [hcall, h]⟩
  rcases call.andThen_writes fun live => live.flushReadyTimeline false with h | h
  · exact ⟨written, hwritten, by rw [h, hcallWrites]⟩
  · refine ⟨written ++ (call.live.flushReadyTimeline false).writes, ?_, by
      rw [h, hcallWrites, List.append_assoc]⟩
    intro write hwrite
    exact (List.mem_append.mp hwrite).elim (hwritten write) (hflush call.live write)

/-- Blocks of the timeline leave the RAW files as they are. -/
theorem output_of_timeline {writes : List (Artifact × Bytes)}
    (h : ∀ write ∈ writes, write.1 = .timeline) (d : StreamDirection) :
    output writes d.artifact = [] := by
  refine List.flatMap_eq_nil_iff.mpr fun write hwrite => ?_
  rw [h write hwrite, if_neg (Ne.symm (LiveSpoolCapture.artifact_ne_timeline d))]

theorem artifact_inj {d d' : StreamDirection} : d.artifact = d'.artifact ↔ d = d' := by
  cases d <;> cases d' <;> simp [StreamDirection.artifact]

namespace Connection

variable {session : Session} {s s' : Connection} {log : List (StreamDirection × Bytes)}
  {d : StreamDirection} {data : Bytes} {r f : Int} {clock : Clock} {event : Event}

/-- A command leaves the files at a cut, however much of it was written. -/
theorem execute_cut {live : LiveSpoolCapture} {command : StreamCommand} {k : Nat}
    (hk : k ≤ log.length) (hseen : live.maximumSequence = k) (hof : command.Of log) (n : Nat) :
    ∃ k' ≤ log.length, (∀ d, recordedBytes d (log.take k) ++
        output ((s.execute live command).writes.take n) d.artifact =
          recordedBytes d (log.take k')) ∧
      ((s.execute live command).writes.length ≤ n → (s.execute live command).error = none →
        (s.execute live command).live.maximumSequence = k') := by
  cases command with
  | drain sequence completed ns error =>
    simp only [execute]
    have htimeline := live.markLocalWriteDrain_follows sequence completed ns error
    refine ⟨k, hk, fun d => ?_, fun _ _ => htimeline.maximumSequence.trans hseen⟩
    rw [output_of_timeline fun write hwrite => htimeline.writes write (List.mem_of_mem_take hwrite),
      List.append_nil]
  | append sequence d data chunk =>
    simp only [execute]
    generalize (chunk.bind fun index => s.job.bind fun job => job.chunks[index]?) = chunk
    rcases live.append_writes sequence d data chunk with
      ⟨hnone, herror⟩ | ⟨hseq, timeline, htl, hwrites⟩
    · refine ⟨k, hk, fun d' => ?_, fun _ h => absurd h herror⟩
      rw [hnone, List.take_nil, output_nil, List.append_nil]
    -- the number is the next one, so the command carries the next event
    obtain ⟨j, hj, hlog⟩ := hof
    have hjk : j = k := by omega
    subst hjk
    have hmax : (live.append sequence d data chunk).error = none →
        (live.append sequence d data chunk).live.maximumSequence = j + 1 := fun h =>
      (LiveSpoolCapture.append_ok h).2.2.2.1.trans hj
    have htail : ∀ (m : Nat) (d' : StreamDirection),
        output (timeline.take m) d'.artifact = [] := fun m d' =>
      output_of_timeline (fun write hwrite => htl write (List.mem_of_mem_take hwrite)) d'
    have hnext : j + 1 ≤ log.length := (List.getElem?_eq_some_iff.mp hlog).1
    rw [hwrites]
    by_cases hdata : data = []
    · refine ⟨j + 1, hnext, fun d' => ?_, fun _ h => hmax h⟩
      rw [recordedBytes_take_succ hlog, if_pos hdata, List.nil_append, htail, hdata, ite_self]
    · rw [if_neg hdata, List.singleton_append]
      cases n with
      | zero =>
        refine ⟨j, hk, fun d' => ?_, fun hn => absurd hn (by simp)⟩
        rw [List.take_zero, output_nil, List.append_nil]
      | succ n =>
        refine ⟨j + 1, hnext, fun d' => ?_, fun _ h => hmax h⟩
        rw [recordedBytes_take_succ hlog, List.take_succ_cons]
        have hrest := htail n d'
        rw [output] at hrest ⊢
        rw [List.flatMap_cons, hrest, List.append_nil]
        simp only [artifact_inj]

/-! ## What is recorded -/

/-- The bytes of a direction the job has stored. -/
def storedBytes (s : Connection) (d : StreamDirection) : Nat :=
  match s.job with
  | some job => job.bytesStored d
  | none => 0

/-- The chunk a step hands to `record`, with the lock held. -/
def chunkOf (s : Connection) : Event → Option (StreamDirection × Bytes)
  | .receive d data _ _ => some (d, data)
  | .grant d =>
    match s.pumps d with
    | .recordWait data _ _ => some (d, data)
    | _ => none
  | _ => none

/-- The event recorded between two states, of a chunk: a number was taken for it, and the job stores
the front of its bytes. -/
def recordedOf (s s' : Connection) (d : StreamDirection) (data : Bytes) :
    List (StreamDirection × Bytes) :=
  if s'.eventSequence = s.eventSequence then []
  else [(d, data.take (s'.storedBytes d - s.storedBytes d))]

/-- The event a step records. -/
def recordedAt (s s' : Connection) (event : Event) : List (StreamDirection × Bytes) :=
  match s.chunkOf event with
  | some (d, data) => recordedOf s s' d data
  | none => []

/-- The events a run records, in the order of their numbers. -/
def recordedEvents (session : Session) :
    Connection → List (Event × Clock) → List (StreamDirection × Bytes)
  | _, [] => []
  | s, (event, clock) :: rest =>
    match step session s clock event with
    | some s' => recordedAt s s' event ++ recordedEvents session s' rest
    | none => []

/-- The commands on their way to the worker, in the queue or with a pump. -/
structure Commands (P : StreamCommand → Prop) (s : Connection) : Prop where
  queued : ∀ command ∈ s.queue, P command
  waiting : ∀ d, ∀ command ∈ (s.pumps d).command?, P command

theorem Commands.goes {P : StreamCommand → Prop} (h : s.Commands P) (d : StreamDirection)
    {pump : Pump} (hpump : ∀ command ∈ pump.command?, P command) : (s.goes d pump).Commands P where
  queued := h.queued
  waiting d' := by
    by_cases hd : d' = d
    · subst hd
      simpa only [Connection.goes, Function.update_self] using hpump
    · simpa only [Connection.goes, Function.update_of_ne hd] using h.waiting d'

/-- What a call inside the manager does: it takes `n` numbers, and of the commands on their way to
the worker only those of one kind are new. -/
structure Adds (n : Nat) (new : StreamCommand → Prop) (s s' : Connection) : Prop where
  sequence : s'.eventSequence = s.eventSequence + n
  disk : s'.disk = s.disk
  worker : s'.worker = s.worker
  job : s'.job = none → s.job = none
  commands : ∀ P : StreamCommand → Prop, (∀ command, new command → P command) → s.Commands P →
    s'.Commands P

/-- A drain outcome. -/
def IsDrain : StreamCommand → Prop
  | .append .. => False
  | .drain .. => True

/-- The record of an event. -/
def IsAppend (sequence : Nat) (d : StreamDirection) (data : Bytes) (command : StreamCommand) :
    Prop :=
  ∃ chunk, command = .append sequence d data chunk

theorem Adds.trans {n m : Nat} {new : StreamCommand → Prop} {s'' : Connection} (h : Adds n new s s')
    (h' : Adds m new s' s'') : Adds (n + m) new s s'' where
  sequence := by rw [h'.sequence, h.sequence, Nat.add_assoc]
  disk := h'.disk.trans h.disk
  worker := h'.worker.trans h.worker
  job hj := h.job (h'.job hj)
  commands P hP hc := h'.commands P hP (h.commands P hP hc)

section
variable {new : StreamCommand → Prop}

/-- A pump that waits for no room. -/
theorem adds_goes (s : Connection) (d : StreamDirection) {pump : Pump}
    (hpump : pump.command? = none) : Adds 0 new s (s.goes d pump) where
  sequence := rfl
  disk := rfl
  worker := rfl
  job := id
  commands _ _ hc := hc.goes d (by rw [hpump]; exact nofun)

/-- What the evidence is told of, apart from the numbers. -/
theorem adds_manager (s : Connection) (job : Option CapturedJob) (written : StreamDirection → Bytes)
    (offsets : StreamDirection → Nat) (n : Nat) (waiters : List StreamDirection)
    (hjob : job = none → s.job = none) :
    Adds n new s { s with job := job, written := written, eventSequence := s.eventSequence + n,
                          sessionOffsets := offsets, waiters := waiters } where
  sequence := rfl
  disk := rfl
  worker := rfl
  job := hjob
  commands _ _ hc := ⟨hc.queued, hc.waiting⟩

theorem markCaptureDegraded_adds (s : Connection) (reason : Text) :
    Adds 0 new s (s.markCaptureDegraded reason) := by
  unfold markCaptureDegraded
  split
  · exact ⟨rfl, rfl, rfl, id, fun _ _ hc => hc⟩
  · exact ⟨rfl, rfl, rfl, Option.map_eq_none_iff.mp, fun _ _ hc => ⟨hc.queued, hc.waiting⟩⟩

theorem markCaptureDegraded_stored (s : Connection) (reason : Text) (d : StreamDirection) :
    (s.markCaptureDegraded reason).storedBytes d = s.storedBytes d := by
  unfold markCaptureDegraded
  split
  · rfl
  · cases hj : s.job <;> simp [storedBytes, hj, incomplete]

/-- The lock is not in the evidence. -/
theorem adds_lock (s : Connection) (holder : Option StreamDirection)
    (waiters : List StreamDirection) :
    Adds 0 new s { s with holder := holder, waiters := waiters } :=
  ⟨rfl, rfl, rfl, id, fun _ _ hc => ⟨hc.queued, hc.waiting⟩⟩

/-- A command at the end of the queue. -/
theorem adds_push (s : Connection) {command : StreamCommand} (hnew : new command)
    (holder : Option StreamDirection) :
    Adds 0 new s { s with queue := s.queue ++ [command], holder := holder } where
  sequence := rfl
  disk := rfl
  worker := rfl
  job := id
  commands _ hP hc :=
    { queued := fun c hmem => (List.mem_append.mp hmem).elim (hc.queued c)
        fun h => List.mem_singleton.mp h ▸ hP command hnew
      waiting := hc.waiting }

theorem enqueueStream_adds {command : StreamCommand} (hnew : new command)
    (h : enqueueStream session s command = some s') : Adds 0 new s s' := by
  unfold enqueueStream at h
  split at h
  · cases h
    exact adds_push s hnew s.holder
  · split at h
    · cases h
    · cases h
      exact markCaptureDegraded_adds s _

theorem enqueueStream_stored {command : StreamCommand}
    (h : enqueueStream session s command = some s') (d : StreamDirection) :
    s'.storedBytes d = s.storedBytes d := by
  unfold enqueueStream at h
  split at h
  · cases h
    rfl
  · split at h
    · cases h
    · cases h
      exact markCaptureDegraded_stored s _ d

/-- A pump that waits for room with its command. -/
theorem adds_wait (s : Connection) (d : StreamDirection) {pump : Pump} {command : StreamCommand}
    (hpump : pump.command? = some command) (hnew : new command) (holder : Option StreamDirection) :
    Adds 0 new s { s.goes d pump with holder := holder } where
  sequence := rfl
  disk := rfl
  worker := rfl
  job := id
  commands P hP hc :=
    have hpumpCommand : ∀ c ∈ pump.command?, P c := by
      rw [hpump]
      rintro _ ⟨⟩
      exact hP command hnew
    ⟨(hc.goes d hpumpCommand).queued, (hc.goes d hpumpCommand).waiting⟩

end

/-- `record` takes a number for its event and leaves one command for it at most. -/
theorem recordJob_adds (session : Session) (s : Connection) {job : CapturedJob}
    (hj : s.job = some job) (d : StreamDirection) (data : Bytes) (r f : Int) (clock : Clock) :
    Adds 1 (IsAppend (s.eventSequence + 1) d (data.take
      ((recordJob session s job d data r f clock).storedBytes d - s.storedBytes d))) s
      (recordJob session s job d data r f clock) := by
  have hbefore : s.storedBytes d = job.bytesStored d := by rw [storedBytes, hj]
  unfold recordJob
  dsimp only
  generalize job.append d data (some (s.eventSequence + 1)) (some (s.sessionOffsets d))
    ⟨clock.now.isoformat, clock.monotonicNs, some r, some f⟩ false = appended
  have hfirst : ∀ new, Adds 1 new s { s with
      job := some appended.1
      eventSequence := s.eventSequence + 1
      sessionOffsets := Function.update s.sessionOffsets d (s.sessionOffsets d + data.length) } :=
    fun _ => adds_manager s _ s.written _ 1 s.waiters nofun
  rw [hbefore]
  split
  · split
    · next s₂ hs₂ =>
      have hends : (s₂.goes d (.draining (some ⟨job.jobId, appended.2, d, data.length,
          some (s.eventSequence + 1)⟩))).storedBytes d = appended.1.bytesStored d :=
        enqueueStream_stored hs₂ d
      rw [hends]
      exact (hfirst _).trans ((enqueueStream_adds ⟨_, rfl⟩ hs₂).trans (adds_goes s₂ d rfl))
    · exact (hfirst _).trans (adds_wait _ d rfl ⟨_, rfl⟩ (some d))
  · exact (hfirst _).trans (adds_goes _ d rfl)

theorem markDone_adds (session : Session) (s : Connection) (d : StreamDirection)
    (completed : Bool) : Adds 0 IsDrain s (markDone session s d completed) := by
  unfold markDone
  split
  · exact adds_goes s d rfl
  · cases completed <;> exact adds_goes s d rfl

/-- A drain outcome takes no number. -/
theorem markLocked_adds (session : Session) (s : Connection) (d : StreamDirection)
    (token : CaptureToken) (completed : Bool) (error : Option Text) (clock : Clock) :
    Adds 0 IsDrain s (markLocked session s d token completed error clock) := by
  have hgo : Adds 0 IsDrain s (s.goes d (if completed then .reading else .ended)) := by
    cases completed <;> exact adds_goes s d rfl
  unfold markLocked
  split
  · exact hgo
  · split
    · exact hgo
    · next job _ _ =>
      have hjob : Adds 0 IsDrain s
          { s with job := some (job.markLocalWriteDrain token completed clock.unixNs error) } :=
        adds_manager s _ s.written s.sessionOffsets 0 s.waiters nofun
      dsimp only
      split
      · exact hjob.trans (markDone_adds session _ d completed)
      · split
        · split
          · next s₂ hs₂ =>
            exact hjob.trans ((enqueueStream_adds trivial hs₂).trans
              (markDone_adds session s₂ d completed))
          · exact hjob.trans (adds_wait _ d rfl trivial (some d))
        · exact hjob.trans (markDone_adds session _ d completed)

theorem drainDone_adds (session : Session) (s : Connection) (d : StreamDirection)
    (token : Option CaptureToken) (completed : Bool) (error : Option Text) (clock : Clock) :
    Adds 0 IsDrain s (drainDone session s d token completed error clock) := by
  cases token with
  | none => cases completed <;> exact adds_goes s d rfl
  | some token =>
    simp only [drainDone, markLocalWriteDrain]
    split
    · exact markLocked_adds session s d token completed error clock
    · exact (adds_manager s s.job s.written s.sessionOffsets 0 (s.waiters ++ [d]) id).trans
        (adds_goes _ d rfl)

/-! ## The log of a run -/

/-- A state and the events recorded on the way to it. -/
structure Logged (s : Connection) (log : List (StreamDirection × Bytes)) : Prop where
  numbered : s.eventSequence = log.length
  started : s.job = none → s.worker = .absent
  commands : s.Commands (·.Of log)
  executing : ∀ command ∈ s.worker.command?, command.Of log
  /-- The files hold the first events, as many as the capture has seen. -/
  cut : ∃ k ≤ log.length, (∀ d, s.disk d.artifact = recordedBytes d (log.take k)) ∧
    ∀ n ∈ s.worker.seen, n = k

theorem logged_init : Logged {} [] where
  numbered := rfl
  started _ := rfl
  commands := ⟨nofun, fun _ => nofun⟩
  executing := nofun
  cut := ⟨0, Nat.le_refl 0, fun _ => rfl, fun _ hn => (Option.some.inj hn).symm⟩

/-- Nothing is recorded. -/
theorem Logged.quiet (h : Logged s log) (hadds : Adds 0 IsDrain s s') : Logged s' log where
  numbered := hadds.sequence.trans h.numbered
  started hj := hadds.worker.trans (h.started (hadds.job hj))
  commands := hadds.commands _ (fun command hnew => by cases command <;> trivial) h.commands
  executing := by
    rw [hadds.worker]
    exact h.executing
  cut := by
    rw [hadds.worker, hadds.disk]
    exact h.cut

/-- The next event is recorded. -/
theorem Logged.record (h : Logged s log)
    (hadds : Adds 1 (IsAppend (s.eventSequence + 1) d data) s s') :
    Logged s' (log ++ [(d, data)]) where
  numbered := by rw [hadds.sequence, h.numbered, List.length_append, List.length_singleton]
  started hj := hadds.worker.trans (h.started (hadds.job hj))
  commands := by
    refine hadds.commands _ ?_ ⟨fun command hc => (h.commands.queued command hc).mono _,
      fun d' command hc => (h.commands.waiting d' command hc).mono _⟩
    rintro command ⟨chunk, rfl⟩
    refine ⟨log.length, by rw [h.numbered], ?_⟩
    rw [List.getElem?_append_right (Nat.le_refl _), Nat.sub_self]
    rfl
  executing := by
    rw [hadds.worker]
    exact fun command hc => (h.executing command hc).mono _
  cut := by
    obtain ⟨k, hk, hdisk, hseen⟩ := h.cut
    rw [hadds.worker, hadds.disk]
    refine ⟨k, hk.trans (by simp), fun d' => ?_, hseen⟩
    rw [hdisk, List.take_append_of_le_length hk]

/-- The first chunk starts the worker, with no file written. -/
theorem Logged.withJob (h : Logged s log) (session : Session) (r : Int) (clock : Clock) :
    Logged (withJob session s r clock) log := by
  unfold Connection.withJob
  split
  · exact h
  · next hnone =>
    refine ⟨h.numbered, nofun, ⟨h.commands.queued, h.commands.waiting⟩, nofun, ?_⟩
    obtain ⟨k, hk, hdisk, hseen⟩ := h.cut
    rw [h.started hnone] at hseen
    exact ⟨k, hk, hdisk, hseen⟩

theorem withJob_stored (session : Session) (s : Connection) (r : Int) (clock : Clock)
    (d : StreamDirection) : (withJob session s r clock).storedBytes d = s.storedBytes d ∧
      (withJob session s r clock).eventSequence = s.eventSequence := by
  unfold withJob
  split
  · exact ⟨rfl, rfl⟩
  · next hnone => exact ⟨by rw [storedBytes, storedBytes, hnone]; rfl, rfl⟩

/-- No number was taken. -/
theorem Logged.unrecorded (h : Logged s' log) (hseq : s'.eventSequence = s.eventSequence) :
    Logged s' (log ++ recordedOf s s' d data) := by
  rw [recordedOf, if_pos hseq, List.append_nil]
  exact h

/-- `record` with the lock held, in the log. -/
theorem Logged.recordLocked (h : Logged s log) (session : Session) (d : StreamDirection)
    (data : Bytes) (r f : Int) (clock : Clock) :
    Logged (recordLocked session s d data r f clock)
      (log ++ recordedOf s (recordLocked session s d data r f clock) d data) := by
  have hsame := withJob_stored session s r clock d
  obtain ⟨-, job, hj⟩ := withJob_frame session s r clock
  unfold Connection.recordLocked
  split
  · exact (h.quiet (adds_goes s d rfl)).unrecorded rfl
  · dsimp only
    split
    · exact ((h.withJob session r clock).quiet (adds_goes _ d rfl)).unrecorded hsame.2
    · rw [hj]
      have hadds := recordJob_adds session _ hj d data r f clock
      have hne : (recordJob session (Connection.withJob session s r clock) job d data r f
          clock).eventSequence ≠ s.eventSequence := by
        rw [hadds.sequence, hsame.2]
        exact Nat.succ_ne_self _
      rw [recordedOf, if_neg hne, ← hsame.1]
      exact (h.withJob session r clock).record hadds

/-- The worker goes on and writes nothing to the RAW files. -/
theorem Logged.worked (h : Logged s log) {worker : LiveWorker} {job : Option CapturedJob}
    {disk : Artifact → Bytes} {queue : List StreamCommand} {errors : List Error}
    {published : Option Publication} (hworker : s.worker ≠ .absent)
    (hjob : job = none → s.job = none) (hqueue : ∀ command ∈ queue, command ∈ s.queue)
    (hcommand : ∀ command ∈ worker.command?, command.Of log)
    (hseen : ∀ n ∈ worker.seen, n ∈ s.worker.seen)
    (hdisk : ∀ d : StreamDirection, disk d.artifact = s.disk d.artifact) :
    Logged { s with worker := worker, job := job, disk := disk, queue := queue,
                    persistErrors := errors, published := published } log where
  numbered := h.numbered
  started hj := absurd (h.started (hjob hj)) hworker
  commands := ⟨fun command hc => h.commands.queued command (hqueue command hc), h.commands.waiting⟩
  executing := hcommand
  cut := by
    obtain ⟨k, hk, hcut, hcount⟩ := h.cut
    exact ⟨k, hk, fun d => (hdisk d).trans (hcut d), fun n hn => hcount n (hseen n hn)⟩

/-- A pump's command goes to the queue. -/
theorem Logged.put (h : Logged s log) {command : StreamCommand}
    (hpump : (s.pumps d).command? = some command) :
    Logged { s with queue := s.queue ++ [command], holder := none } log where
  numbered := h.numbered
  started := h.started
  commands :=
    { queued := fun c hc => (List.mem_append.mp hc).elim (h.commands.queued c) fun hc =>
        List.mem_singleton.mp hc ▸ h.commands.waiting d command hpump
      waiting := h.commands.waiting }
  executing := h.executing
  cut := h.cut

/-- The worker performed its command, or a part of its writes. -/
theorem Logged.executed (h : Logged s log) {live : LiveSpoolCapture} {command : StreamCommand}
    (hworker : s.worker = .executing live command) (n : Nat) {worker : LiveWorker}
    {job : Option CapturedJob} {errors : List Error} (hjob : job = none → s.job = none)
    (hcommand : worker.command? = none)
    (hseen : ∀ m ∈ worker.seen, (s.execute live command).writes.length ≤ n ∧
      (s.execute live command).error = none ∧
      m = (s.execute live command).live.maximumSequence) :
    Logged { s.writeDisk ((s.execute live command).writes.take n) with
      worker := worker, job := job, persistErrors := errors } log where
  numbered := h.numbered
  started hj := by
    have := h.started (hjob hj)
    rw [hworker] at this
    cases this
  commands := ⟨h.commands.queued, h.commands.waiting⟩
  executing := by
    rw [hcommand]
    exact nofun
  cut := by
    obtain ⟨k, hk, hcut, hcount⟩ := h.cut
    rw [hworker] at hcount
    have hof := h.executing
    rw [hworker] at hof
    obtain ⟨k', hk', hdisk, hmax⟩ := execute_cut (s := s) hk (hcount _ rfl) (hof command rfl) n
    refine ⟨k', hk', fun d => ?_, fun m hm => ?_⟩
    · rw [← hdisk d, ← hcut d]
      rfl
    · obtain ⟨hall, herror, rfl⟩ := hseen m hm
      exact hmax hall herror

/-- A call of the worker that raised. -/
theorem Logged.executeFails (h : Logged s log) {live : LiveSpoolCapture} {command : StreamCommand}
    (hworker : s.worker = .executing live command) (n : Nat) (error : Error) :
    Logged ((s.writeDisk ((s.execute live command).writes.take n)).recordStorageFailure error)
      log :=
  h.executed hworker n Option.map_eq_none_iff.mp rfl nofun

theorem output_take_eq_nil {writes : List (Artifact × Bytes)} {key : Artifact}
    (h : output writes key = []) (n : Nat) : output (writes.take n) key = [] :=
  List.flatMap_eq_nil_iff.mpr fun write hwrite =>
    List.flatMap_eq_nil_iff.mp h write (List.mem_of_mem_take hwrite)

theorem cancel_adds (h : cancel session s d clock = some s') : Adds 0 IsDrain s s' := by
  unfold cancel at h
  split at h
  · cases h
    exact adds_goes s d rfl
  · cases h
    exact (adds_goes s d rfl).trans (adds_lock _ s.holder _)
  · cases h
    exact (adds_goes s d rfl).trans (adds_lock _ s.holder _)
  · cases h
    exact (adds_goes s d rfl).trans (adds_lock _ none s.waiters)
  · cases h
    exact (adds_goes s d rfl).trans (adds_lock _ none s.waiters)
  · next token _ =>
    cases h
    exact drainDone_adds session s d token false none clock
  · cases h

/-- Writes to the timeline only. -/
theorem writeDisk_raw {writes : List (Artifact × Bytes)} (s : Connection)
    (h : output writes d.artifact = []) :
    (s.writeDisk writes).disk d.artifact = s.disk d.artifact := by
  simp only [writeDisk, h, List.append_nil]

/-- Whose turn an event is. -/
def Event.ofPump : Event → Bool
  | .receive .. | .grant _ | .putResume _ | .drained _ | .drainFails .. | .readEnds _
  | .cancel _ => true
  | _ => false

/-- A pump's turn. -/
theorem pump_logged (h : Logged s log) (hstep : step session s clock event = some s')
    (hpump : event.ofPump = true) : Logged s' (log ++ recordedAt s s' event) := by
  cases event with
  | receive d data r f =>
    simp only [step] at hstep
    split at hstep
    · split at hstep
      · cases hstep
      · cases hstep
        have hwritten : Logged
            { s with written := Function.update s.written d (s.written d ++ data) } log :=
          h.quiet (adds_manager s s.job _ s.sessionOffsets 0 s.waiters id)
        simp only [recordedAt, chunkOf]
        unfold Connection.record
        split
        · exact hwritten.recordLocked session d data r f clock
        · exact (hwritten.quiet ((adds_lock _ s.holder (s.waiters ++ [d])).trans
            (adds_goes _ d rfl))).unrecorded rfl
    · cases hstep
  | grant d =>
    simp only [step] at hstep
    split at hstep
    · split at hstep
      · split at hstep
        · next data r f hp =>
          cases hstep
          simp only [recordedAt, chunkOf, hp]
          exact (h.quiet (adds_lock s s.holder _)).recordLocked session d data r f clock
        · next token completed error hp =>
          cases hstep
          simp only [recordedAt, chunkOf, hp, List.append_nil]
          exact (h.quiet (adds_lock s s.holder _)).quiet
            (markLocked_adds session _ d token completed error clock)
        · cases hstep
      · cases hstep
    · cases hstep
  | putResume d =>
    simp only [recordedAt, chunkOf, List.append_nil]
    simp only [step] at hstep
    split at hstep
    · split at hstep
      · next command token hp =>
        cases hstep
        exact (h.put (d := d) (by rw [hp]; rfl)).quiet (adds_goes _ d rfl)
      · next command completed hp =>
        cases hstep
        exact (h.put (d := d) (by rw [hp]; rfl)).quiet (markDone_adds session _ d completed)
      · cases hstep
    · cases hstep
  | drained d =>
    simp only [recordedAt, chunkOf, List.append_nil]
    simp only [step] at hstep
    split at hstep
    · next token _ =>
      cases hstep
      exact h.quiet (drainDone_adds session s d token true none clock)
    · cases hstep
  | drainFails d error =>
    simp only [recordedAt, chunkOf, List.append_nil]
    simp only [step] at hstep
    split at hstep
    · next token _ =>
      cases hstep
      exact h.quiet (drainDone_adds session s d token false (some error) clock)
    · cases hstep
  | readEnds d =>
    simp only [recordedAt, chunkOf, List.append_nil]
    simp only [step] at hstep
    split at hstep
    · cases hstep
      exact h.quiet (adds_goes s d rfl)
    · cases hstep
  | cancel d =>
    simp only [recordedAt, chunkOf, List.append_nil]
    exact h.quiet (cancel_adds hstep)
  | begun | beginFails | take | executed | executeFails | finalized | finalizeFails | publishFails
  | workerClosed | finalize => cases hpump

/-- The worker's turn, or the end of the connection. -/
theorem worker_logged (h : Logged s log) (hstep : step session s clock event = some s')
    (hpump : event.ofPump = false) : Logged s' log := by
  have hmap : ∀ g : CapturedJob → CapturedJob, s.job.map g = none → s.job = none :=
    fun _ => Option.map_eq_none_iff.mp
  cases event with
  | receive | grant | putResume | drained | drainFails | readEnds | cancel => cases hpump
  | begun code parent partialDir finalDir =>
    simp only [step] at hstep
    split at hstep
    · next hw =>
      cases hstep
      exact h.worked (by rw [hw]; rintro ⟨⟩) id (fun _ => id) (by rintro _ ⟨⟩)
        (by rw [hw]; exact fun _ => id) fun _ => rfl
    · cases hstep
  | beginFails error =>
    simp only [step] at hstep
    split at hstep
    · next hw =>
      cases hstep
      exact h.worked (by rw [hw]; rintro ⟨⟩) (hmap _) (fun _ => id) (by rintro _ ⟨⟩)
        (by rintro _ ⟨⟩) fun _ => rfl
    · cases hstep
  | take =>
    simp only [step] at hstep
    split at hstep
    · next live hw =>
      have hworker : s.worker ≠ .absent := by rw [hw]; rintro ⟨⟩
      split at hstep
      · next command queue hq =>
        cases hstep
        refine h.worked hworker id (fun c hc => ?_) (fun c hc => ?_) (by rw [hw]; exact fun _ => id)
          fun _ => rfl
        · rw [hq]
          exact List.mem_cons_of_mem command hc
        · cases hc
          exact h.commands.queued command (by rw [hq]; exact List.mem_cons_self)
      · split at hstep
        · cases hstep
          split
          · exact h.worked hworker id (fun _ => id) (by rintro _ ⟨⟩) (by rintro _ ⟨⟩) fun _ => rfl
          · exact h.worked hworker id (fun _ => id) (by rintro _ ⟨⟩) (by rw [hw]; exact fun _ => id)
              fun _ => rfl
        · cases hstep
    · cases hstep
  | executed =>
    simp only [step] at hstep
    split at hstep
    · next live command hw =>
      split at hstep
      · next hnone =>
        cases hstep
        have hall : Logged { s.writeDisk ((s.execute live command).writes.take
            (s.execute live command).writes.length) with
              worker := .idle (s.execute live command).live } log :=
          h.executed hw _ id rfl fun m hm => ⟨Nat.le_refl _, hnone, (Option.some.inj hm).symm⟩
        rwa [List.take_length] at hall
      · next error herror =>
        cases hstep
        have hall := h.executeFails hw (s.execute live command).writes.length error
        rwa [List.take_length] at hall
    · cases hstep
  | executeFails writes error =>
    simp only [step] at hstep
    split at hstep
    · next live command hw =>
      cases hstep
      exact h.executeFails hw writes error
    · cases hstep
  | finalized =>
    simp only [step] at hstep
    split at hstep
    · next live hw =>
      have hraw : ∀ d : StreamDirection, (s.writeDisk live.syncAndClose.writes).disk d.artifact =
          s.disk d.artifact := fun d =>
        s.writeDisk_raw (live.syncAndClose_output (LiveSpoolCapture.artifact_ne_timeline d))
      split at hstep
      · cases hstep
        exact h.worked (by rw [hw]; rintro ⟨⟩) id (fun _ => id) (by rintro _ ⟨⟩)
          (by rintro _ ⟨⟩) hraw
      · cases hstep
        exact h.worked (by rw [hw]; rintro ⟨⟩) (hmap _) (fun _ => id) (by rintro _ ⟨⟩)
          (by rintro _ ⟨⟩) hraw
    · cases hstep
  | finalizeFails writes error =>
    simp only [step] at hstep
    split at hstep
    · next live hw =>
      cases hstep
      exact h.worked (by rw [hw]; rintro ⟨⟩) (hmap _) (fun _ => id) (by rintro _ ⟨⟩)
        (by rintro _ ⟨⟩) fun d => s.writeDisk_raw (output_take_eq_nil
          (live.syncAndClose_output (LiveSpoolCapture.artifact_ne_timeline d)) writes)
    · cases hstep
  | publishFails error =>
    simp only [step] at hstep
    split at hstep
    · next live hw =>
      split at hstep
      · cases hstep
        exact h.worked (by rw [hw]; rintro ⟨⟩) (hmap _) (fun _ => id) (by rintro _ ⟨⟩)
          (by rintro _ ⟨⟩) fun d =>
            s.writeDisk_raw (live.syncAndClose_output (LiveSpoolCapture.artifact_ne_timeline d))
      · cases hstep
    · cases hstep
  | workerClosed =>
    simp only [step] at hstep
    split at hstep
    · next hw =>
      cases hstep
      exact h.worked (by rw [hw]; rintro ⟨⟩) id (fun _ => id) (by rintro _ ⟨⟩) (by rintro _ ⟨⟩)
        fun _ => rfl
    · cases hstep
  | finalize status =>
    simp only [step] at hstep
    split at hstep
    · cases hstep
      exact ⟨h.numbered, fun hj => h.started (hmap _ hj), ⟨h.commands.queued, h.commands.waiting⟩,
        h.executing, h.cut⟩
    · cases hstep

/-- A step records its event, if it records one, and leaves the files at a cut. -/
theorem step_logged (h : Logged s log) (hstep : step session s clock event = some s') :
    Logged s' (log ++ recordedAt s s' event) := by
  cases hpump : event.ofPump with
  | true => exact pump_logged h hstep hpump
  | false =>
    have hnone : recordedAt s s' event = [] := by
      cases event <;> first | rfl | cases hpump
    rw [hnone, List.append_nil]
    exact worker_logged h hstep hpump

theorem run_logged {events : List (Event × Clock)} (h : Logged s log)
    (hrun : run session s events = some s') :
    Logged s' (log ++ recordedEvents session s events) := by
  induction events generalizing s log with
  | nil =>
    cases hrun
    rw [recordedEvents, List.append_nil]
    exact h
  | cons head events ih =>
    obtain ⟨event, clock⟩ := head
    simp only [run] at hrun
    split at hrun
    · next s₁ hs₁ =>
      simp only [recordedEvents, hs₁]
      rw [← List.append_assoc]
      exact ih (step_logged h hs₁) hrun
    · cases hrun

/--
Under both policies and in every order of the steps, whatever misses the queue: the partial RAW
files hold the stored bytes of the first events that were recorded, and of no other.
-/
theorem partial_files_cut (session : Session) (events : List (Event × Clock)) (s : Connection)
    (h : run session {} events = some s) :
    s.eventSequence = (recordedEvents session {} events).length ∧
      ∃ k ≤ (recordedEvents session {} events).length, ∀ d,
        s.disk d.artifact = recordedBytes d ((recordedEvents session {} events).take k) := by
  have hlogged := run_logged logged_init h
  obtain ⟨k, hk, hcut, -⟩ := hlogged.cut
  exact ⟨hlogged.numbered, k, hk, hcut⟩

/-- The second event misses the queue, because its pump is cancelled, and a third one follows it. -/
def missingChunk : List Event :=
  [.receive .clientToRch [1] 0 0, .drained .clientToRch, .receive .rchToClient [2] 0 0,
    .cancel .rchToClient, .begun [] [] [] [], .take, .executed, .take, .executed,
    .receive .clientToRch [3] 0 0, .take, .executed]

theorem partial_files_cut_missingChunk :
    ∃ s, sampleRun .abort missingChunk = some s ∧ s.eventSequence = 3 ∧ s.disk .requestRaw = [1] ∧
      ∃ k ≤ (recordedEvents (sampleSession .abort) {} (missingChunk.map (·, sampleClock))).length,
        ∀ d, s.disk d.artifact = recordedBytes d
          ((recordedEvents (sampleSession .abort) {}
            (missingChunk.map (·, sampleClock))).take k) := by
  have h : (sampleRun .abort missingChunk).any
      (fun s => s.eventSequence = 3 ∧ s.disk .requestRaw = [1]) := by
    decide +kernel
  obtain ⟨s, hs, hcheck⟩ := (Option.any_eq_true _ _).mp h
  obtain ⟨hcount, hdisk⟩ := of_decide_eq_true hcheck
  exact ⟨s, hs, hcount, hdisk, (partial_files_cut (sampleSession .abort) _ s hs).2⟩

end Connection

end RchProxy
