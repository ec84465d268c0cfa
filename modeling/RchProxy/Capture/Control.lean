import RchProxy.Capture.Recorder

/-!
# Control

What a step changes apart from the evidence: which pump moves and where it waits, the lock, and how
the worker comes to its end.
-/

namespace RchProxy

open Py Lib

/-- The bytes of one direction in a command. -/
def StreamCommand.bytes (d : StreamDirection) : StreamCommand → Bytes
  | .append _ d' data _ => if d' = d then data else []
  | .drain .. => []

/-- A pump that waits for room in the queue, holding the lock. -/
def Pump.waitsForRoom : Pump → Bool
  | .recordPut .. | .markPut .. => true
  | _ => false

/-- A pump that waits for the lock or for room. -/
def Pump.waits : Pump → Bool
  | .recordWait .. | .recordPut .. | .markWait .. | .markPut .. => true
  | _ => false

/-- A pump waits to record some bytes; the command it waits to queue is its own. -/
def Pump.Fits (d : StreamDirection) : Pump → Prop
  | .recordWait data _ _ => data ≠ []
  | .recordPut command _ => ∀ d', d' ≠ d → command.bytes d' = []
  | .markPut command _ => ∀ d', command.bytes d' = []
  | _ => True

/-- The worker closes or has closed its capture. -/
def LiveWorker.dead : LiveWorker → Bool
  | .closing | .stopped => true
  | _ => false

namespace Connection

variable {session : Session} {s : Connection}

/-- What a call changes neither of the pumps nor of the lock; it may start the worker. -/
structure Still (s s' : Connection) : Prop where
  pumps : s'.pumps = s.pumps
  closed : s'.closed = s.closed
  persistErrors : s'.persistErrors = s.persistErrors
  holder : s'.holder = s.holder
  waiters : s'.waiters = s.waiters
  worker : s'.worker = s.worker ∨ s'.worker = .starting
  requested : s'.finalizeRequested = s.finalizeRequested

theorem enqueueStream_frame {command : StreamCommand} {s' : Connection}
    (h : enqueueStream session s command = some s') :
    Still s s' := by
  unfold enqueueStream at h
  split at h
  · cases h; exact ⟨rfl, rfl, rfl, rfl, rfl, .inl rfl, rfl⟩
  · split at h
    · cases h
    · cases h
      unfold markCaptureDegraded
      split <;> exact ⟨rfl, rfl, rfl, rfl, rfl, .inl rfl, rfl⟩

/-- Under `continue` no call waits for room. -/
theorem enqueueStream_ne_none (hp : session.config.storageFailurePolicy = .continue)
    (command : StreamCommand) : enqueueStream session s command ≠ none := by
  unfold enqueueStream
  split
  · simp
  · rw [hp]
    simp

theorem withJob_frame (session : Session) (s : Connection) (r : Int) (clock : Clock) :
    Still s (withJob session s r clock) ∧ ∃ job, (withJob session s r clock).job = some job := by
  unfold withJob
  split
  · next job hj => exact ⟨⟨rfl, rfl, rfl, rfl, rfl, .inl rfl, rfl⟩, job, hj⟩
  · exact ⟨⟨rfl, rfl, rfl, rfl, rfl, .inr rfl, rfl⟩, _, rfl⟩

section

variable {d : StreamDirection}

/-! ## Where the pumps go -/

/-- One pump moves, to a place of its own. It waits for room in the queue only before the first
failure of the worker, and under `continue` it waits for nothing. -/
structure Moves (session : Session) (s s' : Connection) (d : StreamDirection) (pump : Pump) :
    Prop where
  pumps : s'.pumps = Function.update s.pumps d pump
  closed : s'.closed = s.closed
  persistErrors : s'.persistErrors = s.persistErrors
  worker : s'.worker = s.worker ∨ s'.worker = .starting
  requested : s'.finalizeRequested = s.finalizeRequested
  fits : pump.Fits d
  put : pump.waitsForRoom = true → s.persistErrors = []
  free : session.config.storageFailurePolicy = .continue →
    pump.waits = false ∧ s'.holder = s.holder ∧ s'.waiters = s.waiters

/-- A pump goes on, waiting for nothing, after changes that leave the pumps where they are. -/
theorem Moves.of_still {s' : Connection} (h : Still s s') {pump : Pump} (hw : pump.waits = false) :
    Moves session s (s'.goes d pump) d pump where
  pumps := by rw [Connection.goes, h.pumps]
  closed := h.closed
  persistErrors := h.persistErrors
  worker := h.worker
  requested := h.requested
  fits := by cases pump <;> trivial
  put hp := by
    have : pump.waits = true := by cases pump <;> first | rfl | cases hp
    rw [hw] at this
    cases this
  free _ := ⟨hw, h.holder, h.waiters⟩

theorem Still.trans_moves {s' s'' : Connection} {pump : Pump} (h : Still s s')
    (hm : Moves session s' s'' d pump) : Moves session s s'' d pump where
  pumps := h.pumps ▸ hm.pumps
  closed := hm.closed.trans h.closed
  persistErrors := hm.persistErrors.trans h.persistErrors
  worker := hm.worker.elim (fun hw => h.worker.imp hw.trans hw.trans) .inr
  requested := hm.requested.trans h.requested
  fits := hm.fits
  put hp := h.persistErrors ▸ hm.put hp
  free hp := ⟨(hm.free hp).1, (hm.free hp).2.1.trans h.holder, (hm.free hp).2.2.trans h.waiters⟩

theorem still_job (s : Connection) (job : Option CapturedJob) (n : Nat)
    (offsets : StreamDirection → Nat) :
    Still s { s with job := job, eventSequence := n, sessionOffsets := offsets } :=
  ⟨rfl, rfl, rfl, rfl, rfl, .inl rfl, rfl⟩

theorem waits_next (completed : Bool) :
    (if completed then Pump.reading else .ended).waits = false := by
  cases completed <;> rfl

theorem recordJob_moves (session : Session) (s : Connection) (job : CapturedJob)
    (d : StreamDirection) (data : Bytes) (r f : Int) (clock : Clock) :
    ∃ pump, Moves session s (recordJob session s job d data r f clock) d pump := by
  unfold recordJob
  dsimp only
  split
  · next hgo =>
    split
    · next s' hs' =>
      exact ⟨_, (still_job s _ _ _).trans_moves (.of_still (enqueueStream_frame hs') rfl)⟩
    · next hs' =>
      refine ⟨.recordPut _ _, rfl, rfl, rfl, .inl rfl, rfl, fun d' hd' => if_neg (Ne.symm hd'),
        fun _ => hgo.1, fun hp => absurd hs' (enqueueStream_ne_none hp _)⟩
  · exact ⟨_, .of_still (still_job s _ _ _) rfl⟩

theorem recordLocked_moves (session : Session) (s : Connection) (d : StreamDirection) (data : Bytes)
    (r f : Int) (clock : Clock) :
    ∃ pump, Moves session s (recordLocked session s d data r f clock) d pump := by
  unfold recordLocked
  split
  · exact ⟨_, .of_still (still_job s _ _ _) rfl⟩
  · obtain ⟨hframe, job, hj⟩ := withJob_frame session s r clock
    dsimp only
    split
    · exact ⟨_, .of_still hframe rfl⟩
    · rw [hj]
      obtain ⟨pump, hm⟩ := recordJob_moves session (withJob session s r clock) job d data r f clock
      exact ⟨pump, hframe.trans_moves hm⟩

theorem markDone_moves (session : Session) (s : Connection) (d : StreamDirection)
    (completed : Bool) : ∃ pump, Moves session s (markDone session s d completed) d pump := by
  unfold markDone
  split
  · exact ⟨_, .of_still (still_job s _ _ _) rfl⟩
  · exact ⟨_, .of_still (still_job s _ _ _) (waits_next completed)⟩

theorem markLocked_moves (session : Session) (s : Connection) (d : StreamDirection)
    (token : CaptureToken) (completed : Bool) (error : Option Text) (clock : Clock) :
    ∃ pump, Moves session s (markLocked session s d token completed error clock) d pump := by
  have hnext : Moves session s (s.goes d _) d _ :=
    .of_still (still_job s s.job s.eventSequence s.sessionOffsets) (waits_next completed)
  unfold markLocked
  split
  · exact ⟨_, hnext⟩
  split
  · exact ⟨_, hnext⟩
  dsimp only
  have hdone : ∀ s', Still s s' → ∃ pump, Moves session s (markDone session s' d completed) d pump := by
    intro s' hs'
    obtain ⟨pump, hm⟩ := markDone_moves session s' d completed
    exact ⟨pump, hs'.trans_moves hm⟩
  split
  · exact hdone _ (still_job s _ _ _)
  split
  · next hgo =>
    split
    · next s' hs' =>
      have hstill := enqueueStream_frame hs'
      exact hdone s' ⟨hstill.pumps, hstill.closed, hstill.persistErrors, hstill.holder,
        hstill.waiters, hstill.worker, hstill.requested⟩
    · next hs' =>
      exact ⟨.markPut _ _, rfl, rfl, rfl, .inl rfl, rfl, fun _ => rfl, fun _ => hgo.1,
        fun hp => absurd hs' (enqueueStream_ne_none hp _)⟩
  · exact hdone _ (still_job s _ _ _)

/-! ## What a step is -/

/-- A pump's turn. -/
structure Turn (session : Session) (s s' : Connection) (d : StreamDirection) (pump : Pump) :
    Prop where
  alive : s.pumps d ≠ .ended
  pumps : s'.pumps = Function.update s.pumps d pump
  closed : s'.closed = s.closed
  persistErrors : s'.persistErrors = s.persistErrors
  worker : s'.worker = s.worker ∨ s'.worker = .starting
  requested : s'.finalizeRequested = s.finalizeRequested
  put : pump.waitsForRoom = true → s.persistErrors = []
  free : session.config.storageFailurePolicy = .continue → s.lockFree = true →
    (s.pumps d).waits = false → pump.waits = false ∧ s'.lockFree = true

/-- A call of the live worker raises. -/
def workerRaises (s : Connection) : Event → Bool
  | .beginFails _ | .executeFails .. => true
  | .executed =>
    match s.worker with
    | .executing live command => (s.execute live command).error.isSome
    | _ => false
  | _ => false

/-- A turn of the worker, or the end of the connection. -/
structure WorkerTurn (s s' : Connection) (event : Event) : Prop where
  pumps : s'.pumps = s.pumps
  lock : s'.lockFree = s.lockFree
  closed : s'.closed = s.closed ∨ s'.closed = true ∧ ∀ d, s.pumps d = .ended
  requested : s'.finalizeRequested = true → s.finalizeRequested = true ∨ s'.closed = true
  finalizing : ∀ live, s'.worker = .finalizing live →
    s.worker = .finalizing live ∨ s.finalizeRequested = true
  dead : s'.worker.dead = true →
    s.worker.dead = true ∧ s'.persistErrors = s.persistErrors ∨
    s.workerRaises event = true ∧ s'.persistErrors ≠ [] ∨
    s.finalizeRequested = true ∨ ∃ live, s.worker = .finalizing live

theorem Moves.turn {s₀ s' : Connection} {pump : Pump} (h : Moves session s₀ s' d pump)
    (halive : s.pumps d ≠ .ended) (hs : Still s s₀) : Turn session s s' d pump where
  alive := halive
  pumps := hs.pumps ▸ h.pumps
  closed := h.closed.trans hs.closed
  persistErrors := h.persistErrors.trans hs.persistErrors
  worker := h.worker.elim (fun hw => hs.worker.imp hw.trans hw.trans) .inr
  requested := h.requested.trans hs.requested
  put hp := hs.persistErrors ▸ h.put hp
  free hc hl _ := by
    obtain ⟨hw, hholder, hwaiters⟩ := h.free hc
    refine ⟨hw, ?_⟩
    simpa only [lockFree, hholder, hwaiters, hs.holder, hs.waiters] using hl

/-- A pump that stops waiting or ends, and may let go of the lock. -/
theorem turn_goes (halive : s.pumps d ≠ .ended) {pump : Pump} (hw : pump.waits = false)
    (queue : List StreamCommand) (holder : Option StreamDirection) (waiters : List StreamDirection)
    (hfree : (s.pumps d).waits = false → holder = s.holder ∧ waiters = s.waiters) :
    Turn session s { s.goes d pump with queue := queue, holder := holder, waiters := waiters } d
      pump where
  alive := halive
  pumps := rfl
  closed := rfl
  persistErrors := rfl
  worker := .inl rfl
  requested := rfl
  put hp := by
    have : pump.waits = true := by cases pump <;> first | rfl | cases hp
    rw [hw] at this
    cases this
  free _ hl hd := by
    obtain ⟨rfl, rfl⟩ := hfree hd
    exact ⟨hw, hl⟩

theorem record_turn (halive : s.pumps d ≠ .ended) (written : StreamDirection → Bytes) (data : Bytes)
    (r f : Int) (clock : Clock) :
    ∃ pump, Turn session s (record session { s with written := written } d data r f clock) d pump := by
  unfold record
  split
  · obtain ⟨pump, hm⟩ := recordLocked_moves session { s with written := written } d data r f clock
    exact ⟨pump, hm.turn halive ⟨rfl, rfl, rfl, rfl, rfl, .inl rfl, rfl⟩⟩
  · next hl =>
    exact ⟨_, halive, rfl, rfl, rfl, .inl rfl, rfl, nofun, fun _ hl' => absurd hl' hl⟩

theorem drainDone_turn (halive : s.pumps d ≠ .ended) (token : Option CaptureToken) (completed : Bool)
    (error : Option Text) (clock : Clock) :
    ∃ pump, Turn session s (drainDone session s d token completed error clock) d pump := by
  have hrefl : Still s s := ⟨rfl, rfl, rfl, rfl, rfl, .inl rfl, rfl⟩
  cases token with
  | none => exact ⟨_, (Moves.of_still hrefl (waits_next completed)).turn halive hrefl⟩
  | some token =>
    simp only [drainDone, markLocalWriteDrain]
    split
    · obtain ⟨pump, hm⟩ := markLocked_moves session s d token completed error clock
      exact ⟨pump, hm.turn halive hrefl⟩
    · next hl =>
      exact ⟨_, halive, rfl, rfl, rfl, .inl rfl, rfl, nofun, fun _ hl' => absurd hl' hl⟩

/-- A pump that waited goes on. -/
theorem Moves.turn_of_waits {queue : List StreamCommand} {holder : Option StreamDirection}
    {waiters : List StreamDirection} {s' : Connection} {pump : Pump}
    (h : Moves session { s with queue := queue, holder := holder, waiters := waiters } s' d pump)
    (hw : (s.pumps d).waits = true) : Turn session s s' d pump where
  alive hend := by rw [hend] at hw; cases hw
  pumps := h.pumps
  closed := h.closed
  persistErrors := h.persistErrors
  worker := h.worker
  requested := h.requested
  put := h.put
  free _ _ hd := by rw [hw] at hd; cases hd

theorem cancel_turn {clock : Clock} {s' : Connection} (h : cancel session s d clock = some s') :
    ∃ pump, Turn session s s' d pump := by
  unfold cancel at h
  split at h
  · next hp =>
    cases h
    exact ⟨.ended, turn_goes (by rw [hp]; nofun) rfl s.queue s.holder s.waiters fun _ => ⟨rfl, rfl⟩⟩
  · next hp =>
    cases h
    exact ⟨.ended, turn_goes (by rw [hp]; nofun) rfl s.queue s.holder _ fun hw => by rw [hp] at hw; cases hw⟩
  · next hp =>
    cases h
    exact ⟨.ended, turn_goes (by rw [hp]; nofun) rfl s.queue s.holder _ fun hw => by rw [hp] at hw; cases hw⟩
  · next hp =>
    cases h
    exact ⟨.ended, turn_goes (by rw [hp]; nofun) rfl s.queue none s.waiters fun hw => by rw [hp] at hw; cases hw⟩
  · next hp =>
    cases h
    exact ⟨.ended, turn_goes (by rw [hp]; nofun) rfl s.queue none s.waiters fun hw => by rw [hp] at hw; cases hw⟩
  · next token hp => cases h; exact drainDone_turn (by rw [hp]; nofun) token false none clock
  · cases h

/-- A failure of the worker, in one of its calls. -/
theorem workerTurn_failure (writes : List (Artifact × Bytes)) (error : Error) {event : Event}
    (h : s.workerRaises event = true ∨ ∃ live, s.worker = .finalizing live) :
    WorkerTurn s ((s.writeDisk writes).recordStorageFailure error) event where
  pumps := rfl
  lock := rfl
  closed := .inl rfl
  requested := .inl
  finalizing := nofun
  dead _ := .inr (h.elim (fun h => .inl ⟨h, by simp [recordStorageFailure]⟩) fun h => .inr (.inr h))

/-- Every step is a turn of a pump or of the worker. -/
theorem step_control {clock : Clock} {event : Event} {s' : Connection}
    (h : step session s clock event = some s') :
    (∃ d pump, Turn session s s' d pump) ∨ WorkerTurn s s' event := by
  cases event with
  | receive d data r f =>
    simp only [step] at h
    split at h
    · next hread =>
      split at h
      · cases h
      · cases h; exact .inl ⟨d, record_turn (by rw [hread]; nofun) _ data r f clock⟩
    · cases h
  | grant d =>
    simp only [step] at h
    split at h
    · split at h
      · split at h
        · next data r f hp =>
          cases h
          obtain ⟨pump, hm⟩ := recordLocked_moves session { s with waiters := _ } d data r f clock
          exact .inl ⟨d, pump, Moves.turn_of_waits hm (by rw [hp]; rfl)⟩
        · next token completed error hp =>
          cases h
          obtain ⟨pump, hm⟩ :=
            markLocked_moves session { s with waiters := _ } d token completed error clock
          exact .inl ⟨d, pump, Moves.turn_of_waits hm (by rw [hp]; rfl)⟩
        · cases h
      · cases h
    · cases h
  | putResume d =>
    simp only [step] at h
    split at h
    · split at h
      · next command token hp =>
        cases h
        exact .inl ⟨d, _, turn_goes (by rw [hp]; nofun) rfl _ none s.waiters
          fun hw => by rw [hp] at hw; cases hw⟩
      · next command completed hp =>
        cases h
        obtain ⟨pump, hm⟩ := markDone_moves session
          { s with queue := s.queue ++ [command], holder := none } d completed
        exact .inl ⟨d, pump, Moves.turn_of_waits hm (by rw [hp]; rfl)⟩
      · cases h
    · cases h
  | drained d =>
    simp only [step] at h
    split at h
    · next token hp => cases h; exact .inl ⟨d, drainDone_turn (by rw [hp]; nofun) token true none clock⟩
    · cases h
  | drainFails d error =>
    simp only [step] at h
    split at h
    · next token hp =>
      cases h
      exact .inl ⟨d, drainDone_turn (by rw [hp]; nofun) token false (some error) clock⟩
    · cases h
  | readEnds d =>
    simp only [step] at h
    split at h
    · next hp =>
      cases h
      exact .inl ⟨d, .ended, turn_goes (by rw [hp]; nofun) rfl s.queue s.holder s.waiters
        fun _ => ⟨rfl, rfl⟩⟩
    · cases h
  | cancel d => exact .inl ⟨d, cancel_turn h⟩
  | begun code parent partialDir finalDir =>
    simp only [step] at h
    split at h
    · cases h; exact .inr ⟨rfl, rfl, .inl rfl, .inl, nofun, nofun⟩
    · cases h
  | beginFails error =>
    simp only [step] at h
    split at h
    · cases h
      have hturn := workerTurn_failure [] error (s := s) (.inl (show s.workerRaises (.beginFails error) = true from rfl))
      exact .inr ⟨rfl, rfl, .inl rfl, .inl, nofun, hturn.dead⟩
    · cases h
  | take =>
    simp only [step] at h
    split at h
    · split at h
      · cases h; exact .inr ⟨rfl, rfl, .inl rfl, .inl, nofun, nofun⟩
      · split at h
        · next hreq =>
          cases h
          exact .inr ⟨rfl, rfl, .inl rfl, .inl, fun _ _ => .inr hreq, fun _ => .inr (.inr (.inl hreq))⟩
        · cases h
    · cases h
  | executed =>
    simp only [step] at h
    split at h
    · next live command hw =>
      split at h
      · cases h; exact .inr ⟨rfl, rfl, .inl rfl, .inl, nofun, nofun⟩
      · next error he =>
        cases h
        exact .inr (workerTurn_failure _ error (.inl (by simp only [workerRaises, hw, he, Option.isSome_some])))
    · cases h
  | executeFails writes error =>
    simp only [step] at h
    split at h
    · cases h; exact .inr (workerTurn_failure _ error (.inl rfl))
    · cases h
  | finalized =>
    simp only [step] at h
    split at h
    · next live hw =>
      split at h
      · cases h
        exact .inr ⟨rfl, rfl, .inl rfl, .inl, nofun, fun _ => .inr (.inr (.inr ⟨live, hw⟩))⟩
      · next error _ => cases h; exact .inr (workerTurn_failure _ error (.inr ⟨live, hw⟩))
    · cases h
  | finalizeFails writes error =>
    simp only [step] at h
    split at h
    · next live hw => cases h; exact .inr (workerTurn_failure _ error (.inr ⟨live, hw⟩))
    · cases h
  | publishFails error =>
    simp only [step] at h
    split at h
    · next live hw =>
      split at h
      · cases h
        exact .inr ⟨rfl, rfl, .inl rfl, .inl, nofun, fun _ => .inr (.inr (.inr ⟨live, hw⟩))⟩
      · cases h
    · cases h
  | workerClosed =>
    simp only [step] at h
    split at h
    · next hw =>
      cases h
      exact .inr ⟨rfl, rfl, .inl rfl, .inl, nofun, fun _ => .inl ⟨by rw [hw]; rfl, rfl⟩⟩
    · cases h
  | finalize status =>
    simp only [step] at h
    split at h
    · next hp =>
      cases h
      exact .inr ⟨rfl, rfl, .inr ⟨rfl, fun d => by cases d; exacts [hp.1, hp.2.1]⟩, fun _ => .inr rfl,
        fun _ hf => .inl hf, fun hdead => .inl ⟨hdead, rfl⟩⟩
    · cases h

/-! ## Runs -/

/-- Every step of the run meets a condition on the state before it. -/
def Along (session : Session) (cond : Connection → Event → Prop) :
    Connection → List (Event × Clock) → Prop
  | _, [] => True
  | s, (event, clock) :: rest =>
    cond s event ∧ ∀ s' ∈ step session s clock event, Along session cond s' rest

instance decidableAlong (session : Session) (cond : Connection → Event → Prop)
    [∀ s event, Decidable (cond s event)] :
    (s : Connection) → (events : List (Event × Clock)) → Decidable (Along session cond s events)
  | _, [] => .isTrue trivial
  | s, (event, clock) :: rest =>
    have : ∀ s', Decidable (Along session cond s' rest) :=
      fun s' => decidableAlong session cond s' rest
    inferInstanceAs (Decidable (cond s event ∧
      ∀ s' ∈ step session s clock event, Along session cond s' rest))

/-- What the start has and every such step keeps, the end has. -/
theorem run_invariant {cond : Connection → Event → Prop} {Inv : Connection → Prop}
    (hstep : ∀ {s s' : Connection} {event : Event} {clock : Clock}, Inv s → cond s event →
      step session s clock event = some s' → Inv s')
    {events : List (Event × Clock)} {s' : Connection} (hs : Inv s)
    (h : run session s events = some s') (hall : Along session cond s events) : Inv s' := by
  induction events generalizing s with
  | nil => cases h; exact hs
  | cons head rest ih =>
    obtain ⟨event, clock⟩ := head
    simp only [run] at h
    split at h
    · next s₁ h₁ => exact ih (hstep hs hall.1 h₁) h (hall.2 s₁ h₁)
    · cases h

/-- What holds at every step that an invariant allows. -/
theorem along_of_invariant {cond : Connection → Event → Prop} {Inv : Connection → Prop}
    (hcond : ∀ {s : Connection} (event : Event), Inv s → cond s event)
    (hstep : ∀ {s s' : Connection} {event : Event} {clock : Clock}, Inv s →
      step session s clock event = some s' → Inv s')
    (events : List (Event × Clock)) (hs : Inv s) : Along session cond s events := by
  induction events generalizing s with
  | nil => trivial
  | cons head rest ih => exact ⟨hcond head.1 hs, fun s' h => ih (hstep hs h)⟩

end

end Connection

end RchProxy
