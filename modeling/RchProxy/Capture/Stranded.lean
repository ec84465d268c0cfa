import RchProxy.Capture.Complete

/-!
# Stranded calls

A call of `record` or `mark_local_write_drain` that waits for room in the queue holds the manager's
lock, and only the worker makes room. The worker has ended under such a call exactly when one of its
own calls raised meanwhile: the failure is looked for before the wait, and not after it.
-/

namespace RchProxy

open Py Lib

/-- The worker has ended. -/
def LiveWorker.stops : LiveWorker → Bool
  | .stopped => true
  | _ => false

namespace Connection

variable {session : Session} {s s' : Connection} {event : Event} {clock : Clock}

/-- How the connection and its worker come to their end. -/
structure Orderly (s : Connection) : Prop where
  requested : s.finalizeRequested = true → s.closed = true
  finalizing : ∀ live, s.worker = .finalizing live → s.closed = true
  ended : s.closed = true → ∀ d, s.pumps d = .ended
  dead : s.worker.dead = true → s.persistErrors ≠ [] ∨ s.closed = true

theorem orderly_init : Orderly {} := ⟨nofun, nofun, nofun, nofun⟩

theorem Turn.orderly {d : StreamDirection} {pump : Pump} (ht : Turn session s s' d pump)
    (hs : Orderly s) : Orderly s' := by
  have hopen : s'.closed = false := by
    rw [ht.closed]
    by_contra hc
    exact ht.alive (hs.ended (by simpa using hc) d)
  refine ⟨fun hreq => ?_, fun live hlive => ?_, fun hc => ?_, fun hdead => ?_⟩
  · rw [ht.closed]
    exact hs.requested (ht.requested ▸ hreq)
  · rw [ht.closed]
    rcases ht.worker with hw | hw
    · exact hs.finalizing live (hw ▸ hlive)
    · rw [hw] at hlive
      cases hlive
  · rw [hopen] at hc
    cases hc
  · rw [ht.persistErrors, ht.closed]
    rcases ht.worker with hw | hw
    · exact hs.dead (hw ▸ hdead)
    · rw [hw] at hdead
      cases hdead

theorem WorkerTurn.orderly (ht : WorkerTurn s s' event) (hs : Orderly s) : Orderly s' := by
  have hclosed : s.closed = true → s'.closed = true := fun hc =>
    ht.closed.elim (fun h => h.trans hc) And.left
  refine ⟨fun hreq => ?_, fun live hlive => ?_, fun hc => ?_, fun hdead => ?_⟩
  · exact (ht.requested hreq).elim (fun h => hclosed (hs.requested h)) id
  · exact hclosed ((ht.finalizing live hlive).elim (hs.finalizing live) hs.requested)
  · rw [ht.pumps]
    exact ht.closed.elim (fun h => hs.ended (h ▸ hc)) And.right
  · rcases ht.dead hdead with ⟨hd, he⟩ | ⟨-, he⟩ | hreq | ⟨live, hlive⟩
    · rw [he]
      exact (hs.dead hd).imp_right hclosed
    · exact .inl he
    · exact .inr (hclosed (hs.requested hreq))
    · exact .inr (hclosed (hs.finalizing live hlive))

theorem step_orderly (hs : Orderly s) (h : step session s clock event = some s') : Orderly s' := by
  obtain ⟨d, pump, ht⟩ | ht := step_control h
  · exact ht.orderly hs
  · exact ht.orderly hs

/-- The step is a worker call that raises while some call waits for room. -/
def RaisesUnderWait (s : Connection) (event : Event) : Prop :=
  s.workerRaises event = true ∧ ∃ d, (s.pumps d).waitsForRoom = true

instance (s : Connection) (event : Event) : Decidable (RaisesUnderWait s event) :=
  decidable_of_iff (s.workerRaises event = true ∧
    ((s.pumps .clientToRch).waitsForRoom = true ∨ (s.pumps .rchToClient).waitsForRoom = true))
    (and_congr_right fun _ =>
      ⟨fun h => h.elim (⟨_, ·⟩) (⟨_, ·⟩), fun ⟨d, h⟩ => by cases d; exacts [.inl h, .inr h]⟩)

/-- No call waits for a worker that will not make room. -/
structure Attended (s : Connection) : Prop where
  orderly : Orderly s
  attended : s.worker.dead = true → ∀ d, (s.pumps d).waitsForRoom = false

theorem Turn.attended {d : StreamDirection} {pump : Pump} (ht : Turn session s s' d pump)
    (hs : Attended s) (hdead : s'.worker.dead = true) (d' : StreamDirection) :
    (s'.pumps d').waitsForRoom = false := by
  have hdead' : s.worker.dead = true := by
    rcases ht.worker with hw | hw
    · exact hw ▸ hdead
    · rw [hw] at hdead
      cases hdead
  rw [ht.pumps]
  by_cases hdd : d' = d
  · subst hdd
    rw [Function.update_self]
    by_contra hput
    -- a failure is looked for before the call waits
    have hnil := ht.put (by simpa using hput)
    rcases hs.orderly.dead hdead' with he | hc
    · exact he hnil
    · exact ht.alive (hs.orderly.ended hc d')
  · rw [Function.update_of_ne hdd]
    exact hs.attended hdead' d'

theorem WorkerTurn.attended (ht : WorkerTurn s s' event) (hs : Attended s)
    (hcond : ¬ RaisesUnderWait s event) (hdead : s'.worker.dead = true) (d : StreamDirection) :
    (s'.pumps d).waitsForRoom = false := by
  have hended : s.closed = true → (s.pumps d).waitsForRoom = false := fun hc => by
    rw [hs.orderly.ended hc d]
    rfl
  rw [ht.pumps]
  rcases ht.dead hdead with ⟨hd, -⟩ | ⟨hraises, -⟩ | hreq | ⟨live, hlive⟩
  · exact hs.attended hd d
  · by_contra hput
    exact hcond ⟨hraises, d, by simpa using hput⟩
  · exact hended (hs.orderly.requested hreq)
  · exact hended (hs.orderly.finalizing live hlive)

theorem step_attended (hs : Attended s) (hcond : ¬ RaisesUnderWait s event)
    (h : step session s clock event = some s') : Attended s' := by
  refine ⟨step_orderly hs.orderly h, ?_⟩
  obtain ⟨d, pump, ht⟩ | ht := step_control h
  · exact ht.attended hs
  · exact ht.attended hs hcond

/-- **No call is stranded**: in every run in which no worker call raises while a call waits for room,
the worker has not ended in any state in which a call waits for room. -/
theorem waitsForRoom_not_stopped (session : Session) (events : List (Event × Clock)) (s : Connection)
    (hrun : run session {} events = some s)
    (hcond : Along session (fun s event => ¬ RaisesUnderWait s event) {} events)
    (d : StreamDirection) (hwait : (s.pumps d).waitsForRoom = true) : s.worker ≠ .stopped := by
  intro hstopped
  have hs : Attended s :=
    run_invariant (fun hs hc h => step_attended hs hc h) ⟨orderly_init, nofun⟩ hrun hcond
  have := hs.attended (by rw [hstopped]; rfl) d
  rw [hwait] at this
  cases this

/-- The condition is exact: a worker call that raises under a waiting call strands it. -/
theorem raisesUnderWait_strands (h : step session s clock event = some s') {d : StreamDirection}
    (hraises : s.workerRaises event = true) (hwait : (s.pumps d).waitsForRoom = true) :
    ∃ s'', step session s' clock .workerClosed = some s'' ∧ s''.worker = .stopped ∧
      (s''.pumps d).waitsForRoom = true := by
  have hclosing : s'.worker = .closing ∧ s'.pumps = s.pumps := by
    cases event with
    | beginFails error =>
      simp only [step] at h
      split at h
      · cases h; exact ⟨rfl, rfl⟩
      · cases h
    | executeFails writes error =>
      simp only [step] at h
      split at h
      · cases h; exact ⟨rfl, rfl⟩
      · cases h
    | executed =>
      simp only [step] at h
      split at h
      · next live command hw =>
        split at h
        · next hnone => simp [workerRaises, hw, hnone] at hraises
        · cases h; exact ⟨rfl, rfl⟩
      · cases h
    | _ => cases hraises
  exact ⟨{ s' with worker := .stopped }, by simp only [step, hclosing.1], rfl, by
    rw [← hwait, ← hclosing.2]⟩

/-- A chunk is recorded and drained while the worker starts; the next one waits for room. -/
def waitingChunk : List Event :=
  [.receive .clientToRch [1] 0 0, .drained .clientToRch, .receive .clientToRch [2] 0 0]

theorem waitsForRoom_not_stopped_waitingChunk :
    ∃ s, sampleRun .abort waitingChunk = some s ∧ (s.pumps .clientToRch).waitsForRoom = true ∧
      s.worker ≠ .stopped := by
  have h : (sampleRun .abort waitingChunk).any (fun s => (s.pumps .clientToRch).waitsForRoom) := by
    decide +kernel
  obtain ⟨s, hs, hwait⟩ := (Option.any_eq_true _ _).mp h
  exact ⟨s, hs, hwait, waitsForRoom_not_stopped (sampleSession .abort) _ s hs (by decide +kernel)
    .clientToRch hwait⟩

/-- `begin_live` raises under the waiting call, and the worker ends. -/
def strandedChunk : List Event :=
  waitingChunk ++ [.beginFails (.osError .inputOutput), .workerClosed]

/-- The lock is held for ever: the worker has ended and the call still waits for room. -/
theorem waitsForRoom_stopped :
    ¬ ∀ (session : Session) (events : List (Event × Clock)) (s : Connection),
      session.config.storageFailurePolicy = .abort → run session {} events = some s →
        ∀ d, (s.pumps d).waitsForRoom = true → s.worker ≠ .stopped := by
  intro hall
  have h : (sampleRun .abort strandedChunk).any fun s =>
      (s.pumps .clientToRch).waitsForRoom && s.worker.stops := by
    decide +kernel
  obtain ⟨s, hs, h⟩ := (Option.any_eq_true _ _).mp h
  obtain ⟨hwait, hstops⟩ := Bool.and_eq_true_iff.mp h
  refine hall (sampleSession .abort) _ s rfl hs .clientToRch hwait ?_
  cases hw : s.worker <;> rw [hw] at hstops <;> first | rfl | cases hstops

end Connection

end RchProxy
