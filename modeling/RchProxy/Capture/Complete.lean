import RchProxy.Capture.Control

/-!
# Complete evidence

While the evidence has no gap, every byte a pump has written to its peer is in the RAW file, with the
worker, in the queue or held by the pump, in this order (`Books`). A job published as `ready` is
therefore complete, unless a pump was cancelled while `record` held its bytes.
-/

namespace RchProxy

open Py Lib

/-- The bytes a pump holds inside `record`. -/
def Pump.bytes (d : StreamDirection) : Pump → Bytes
  | .recordWait data _ _ => data
  | .recordPut command _ => command.bytes d
  | _ => []

/-- A pump inside `record`, its bytes written to the peer and not yet in the queue. -/
def Pump.inRecord : Pump → Bool
  | .recordWait .. | .recordPut .. => true
  | _ => false

theorem Pump.waits_of_inRecord {pump : Pump} (h : pump.inRecord = true) : pump.waits = true := by
  cases pump <;> first | rfl | cases h

/-- The bytes of the command the worker executes. -/
def LiveWorker.bytes (d : StreamDirection) : LiveWorker → Bytes
  | .executing _ command => command.bytes d
  | _ => []

namespace Connection

/-- The evidence has no gap so far. -/
def Gapless (s : Connection) : Prop := ∀ job, s.job = some job → job.captureComplete = true

/-- Where the bytes are, with those the pumps hold. -/
structure Books (s : Connection) (held : StreamDirection → Bytes) : Prop where
  accounts : s.Gapless → ∀ d, s.disk d.artifact ++ s.worker.bytes d ++
    s.queue.flatMap (·.bytes d) ++ held d = s.written d
  gap : s.captureDegraded = true ∨ s.persistErrors ≠ [] →
    ∃ job, s.job = some job ∧ job.captureComplete = false
  hasJob : s.job = none → s.worker = .absent
  finalizing : (∃ live, s.worker = .finalizing live) → s.queue = [] ∧ s.closed = true
  requested : s.finalizeRequested = true → s.closed = true
  published : ∀ p, s.published = some p → s.closed = true ∧
    (p.status = .ready → ∀ d, p.files d.artifact = s.written d)

/-- How the pumps sit. -/
structure Seated (s : Connection) : Prop where
  closed : s.closed = true → ∀ d, s.pumps d = .ended
  fits : ∀ d, (s.pumps d).Fits d

variable {session : Session} {s : Connection} {held : StreamDirection → Bytes}

/-- What the pumps of a state hold. -/
def heldBy (s : Connection) (d : StreamDirection) : Bytes := (s.pumps d).bytes d

theorem heldBy_goes (s : Connection) (d : StreamDirection) (pump : Pump) :
    (s.goes d pump).heldBy = Function.update s.heldBy d (pump.bytes d) := by
  funext d'
  by_cases h : d' = d
  · subst h; simp [heldBy, goes]
  · simp [heldBy, goes, Function.update_of_ne h]

/-! ## The books under small changes -/

/-- The pumps and the lock are not in the books. -/
theorem Books.seat (hb : Books s held) (pumps : StreamDirection → Pump)
    (holder : Option StreamDirection) (waiters : List StreamDirection) :
    Books { s with pumps := pumps, holder := holder, waiters := waiters } held :=
  ⟨hb.accounts, hb.gap, hb.hasJob, hb.finalizing, hb.requested, hb.published⟩

theorem Books.goes (hb : Books s held) (d : StreamDirection) (pump : Pump) :
    Books (s.goes d pump) held :=
  hb.seat _ s.holder s.waiters

/-- Nor are the manager's counters. -/
theorem Books.counters (hb : Books s held) (n : Nat) (offsets : StreamDirection → Nat) :
    Books { s with eventSequence := n, sessionOffsets := offsets } held :=
  ⟨hb.accounts, hb.gap, hb.hasJob, hb.finalizing, hb.requested, hb.published⟩

/-- With a gap in the evidence, nothing is claimed of the bytes. -/
theorem Books.of_gap (hb : Books s held) {job : CapturedJob} (hj : s.job = some job)
    (hgap : job.captureComplete = false) (held' : StreamDirection → Bytes) : Books s held' where
  accounts hg := absurd (hg job hj) (by simp [hgap])
  gap := hb.gap
  hasJob := hb.hasJob
  finalizing := hb.finalizing
  requested := hb.requested
  published := hb.published

/-- The job may change as long as it never becomes complete again. -/
theorem Books.job_mono (hb : Books s held) {job job' : CapturedJob} (hj : s.job = some job)
    (h : job'.captureComplete = true → job.captureComplete = true) :
    Books { s with job := some job' } held where
  accounts hg := hb.accounts fun job₀ hj₀ => by
    rw [hj] at hj₀
    cases hj₀
    exact h (hg job' rfl)
  gap hd := by
    obtain ⟨job₀, hj₀, hgap⟩ := hb.gap hd
    rw [hj] at hj₀
    cases hj₀
    refine ⟨job', rfl, ?_⟩
    by_contra hne
    rw [h (by simpa using hne)] at hgap
    cases hgap
  hasJob := nofun
  finalizing := hb.finalizing
  requested := hb.requested
  published := hb.published

/-- A command goes to the end of the queue with the bytes that were held for it. -/
theorem Books.push (hb : Books s held) (hopen : s.closed = false) {command : StreamCommand}
    {held' : StreamDirection → Bytes} (hheld : ∀ d, held d = command.bytes d ++ held' d) :
    Books { s with queue := s.queue ++ [command] } held' where
  accounts hg d := by
    have h := hb.accounts hg d
    rw [hheld] at h
    simpa using h
  gap := hb.gap
  hasJob := hb.hasJob
  finalizing hf := by
    have := (hb.finalizing hf).2
    rw [hopen] at this
    cases this
  requested := hb.requested
  published := hb.published

/-- A degraded capture has a gap. -/
theorem Books.degrade (hb : Books s held) (hsome : s.job ≠ none) (reason : Text)
    (held' : StreamDirection → Bytes) : Books (s.markCaptureDegraded reason) held' := by
  unfold markCaptureDegraded
  split
  · next hd =>
    obtain ⟨job, hj, hgap⟩ := hb.gap (.inl hd)
    exact hb.of_gap hj hgap held'
  · obtain ⟨job, hj⟩ := Option.ne_none_iff_exists'.mp hsome
    refine ⟨fun hg => ?_, fun _ => ?_, fun h => ?_, hb.finalizing, hb.requested, hb.published⟩
    · have hg : (incomplete job reason).captureComplete = true :=
        hg (incomplete job reason) (by simp only [hj, Option.map_some])
      cases hg
    · exact ⟨incomplete job reason, by simp only [hj, Option.map_some], rfl⟩
    · simp only [hj, Option.map_some] at h
      cases h

/-- What `_enqueue_stream` does with the bytes of its command. -/
theorem Books.enqueueStream (hb : Books s held) (hopen : s.closed = false) (hsome : s.job ≠ none)
    {command : StreamCommand} {s' : Connection} (h : enqueueStream session s command = some s')
    {held' : StreamDirection → Bytes} (hheld : ∀ d, held d = command.bytes d ++ held' d) :
    Books s' held' := by
  unfold Connection.enqueueStream at h
  split at h
  · cases h; exact hb.push hopen hheld
  · split at h
    · cases h
    · cases h; exact hb.degrade hsome _ held'

/-! ## `record` and `mark_local_write_drain` -/

section

variable {d : StreamDirection} {data : Bytes} {job : CapturedJob} {r f : Int} {clock : Clock}

/-- The bytes of a recorded chunk go to its command, or the evidence has a gap. -/
theorem append_books (hb : Books s (Function.update held d data)) (hj : s.job = some job)
    (hd : data ≠ []) (sequence offset : Option Nat) (observed : Observed) (n : Nat)
    (index : Option Nat) :
    let job' := (job.append d data sequence offset observed false).1
    Books { s with job := some job' } (fun d' =>
      (StreamCommand.append n d (data.take (job'.bytesStored d - job.bytesStored d)) index).bytes d' ++
        Function.update held d [] d') := by
  intro job'
  have hcomplete : job'.captureComplete = (job.captureComplete && decide (data.length ≤ job.room)) :=
    CapturedJob.append_captureComplete job d data sequence offset observed false hd
  have hstored : job'.bytesStored d - job.bytesStored d = (data.take job.room).length := by
    have h := congrFun (CapturedJob.append_bytesStored job d data sequence offset observed false) d
    rw [Function.update_self] at h
    change job'.bytesStored d = _ at h
    omega
  have hb' : Books { s with job := some job' } (Function.update held d data) :=
    hb.job_mono hj fun h => by rw [hcomplete] at h; exact (Bool.and_eq_true_iff.mp h).1
  rcases hc : job'.captureComplete with _ | _
  · exact hb'.of_gap rfl hc _
  · have hroom : data.length ≤ job.room := by
      rw [hcomplete] at hc
      exact of_decide_eq_true (Bool.and_eq_true_iff.mp hc).2
    rw [hstored, List.length_take, Nat.min_eq_right hroom, List.take_length]
    refine cast (congrArg _ (funext fun d' => ?_)) hb'
    by_cases hdd : d' = d
    · subst hdd; simp [StreamCommand.bytes]
    · simp [StreamCommand.bytes, Function.update_of_ne hdd, Ne.symm hdd]

theorem recordJob_books (hb : Books s (Function.update s.heldBy d data)) (hopen : s.closed = false)
    (hj : s.job = some job) (hd : data ≠ []) :
    Books (recordJob session s job d data r f clock)
      (recordJob session s job d data r f clock).heldBy := by
  have hb' := (append_books hb hj hd (some (s.eventSequence + 1)) (some (s.sessionOffsets d))
    ⟨clock.now.isoformat, clock.monotonicNs, some r, some f⟩ (s.eventSequence + 1)
    (job.append d data (some (s.eventSequence + 1)) (some (s.sessionOffsets d))
      ⟨clock.now.isoformat, clock.monotonicNs, some r, some f⟩ false).2).counters
    (s.eventSequence + 1) (Function.update s.sessionOffsets d (s.sessionOffsets d + data.length))
  unfold recordJob
  dsimp only at hb' ⊢
  split
  · split
    · next s' hs' =>
      have hframe := enqueueStream_frame hs'
      have hbooks := hb'.enqueueStream hopen (by simp) hs' fun d' => rfl
      have hheld : s'.heldBy = s.heldBy := by funext d'; simp only [heldBy, hframe.pumps]
      rw [heldBy_goes, hheld]
      exact hbooks.goes d _
    · refine cast (congrArg _ ?_) (hb'.seat _ (some d) s.waiters)
      funext d'
      by_cases hdd : d' = d
      · subst hdd; simp [heldBy, goes, Pump.bytes]
      · simp [heldBy, goes, StreamCommand.bytes, Function.update_of_ne hdd, Ne.symm hdd]
  · next hstop =>
    -- after a failure or a degradation the evidence has a gap already
    obtain ⟨job₀, hj₀, hgap⟩ := hb'.gap (by
      by_contra hcon
      push Not at hcon
      exact hstop ⟨hcon.2, by simpa using hcon.1⟩)
    exact ((hb'.of_gap hj₀ hgap _).goes d _)

/-- Before the first chunk nothing is missing. -/
theorem gapless_of_none (h : s.job = none) : s.Gapless := by
  intro job hj
  rw [h] at hj
  cases hj

theorem withJob_books (hb : Books s held) (clock : Clock) : Books (withJob session s r clock) held := by
  unfold withJob
  split
  · exact hb
  · next hnone =>
    refine ⟨fun _ d => ?_, fun h => ?_, nofun, ?_, hb.requested, hb.published⟩
    · have h := hb.accounts (gapless_of_none hnone) d
      rw [hb.hasJob hnone] at h
      exact h
    · obtain ⟨job, hj, -⟩ := hb.gap h
      rw [hnone] at hj
      cases hj
    · rintro ⟨live, h⟩
      cases h

theorem recordLocked_books (hb : Books s (Function.update s.heldBy d data))
    (hopen : s.closed = false) (hd : data ≠ []) :
    Books (recordLocked session s d data r f clock)
      (recordLocked session s d data r f clock).heldBy := by
  unfold recordLocked
  rw [hopen, if_neg (by simp)]
  dsimp only
  obtain ⟨hframe, job, hj⟩ := withJob_frame session s r clock
  have hheld : (withJob session s r clock).heldBy = s.heldBy := by
    funext d'; simp only [heldBy, hframe.pumps]
  have hb' : Books (withJob session s r clock)
      (Function.update (withJob session s r clock).heldBy d data) := by
    rw [hheld]; exact withJob_books hb clock
  split
  · next ha =>
    -- the failure is raised: the evidence has a gap
    obtain ⟨job₀, hj₀, hgap⟩ := hb'.gap (.inr (by
      intro hnil
      simp [aborts, hnil] at ha))
    exact (hb'.of_gap hj₀ hgap _).goes d _
  · rw [hj]
    exact recordJob_books hb' (hframe.closed.trans hopen) hj hd

theorem markDone_books (hb : Books s (Function.update s.heldBy d [])) (completed : Bool) :
    Books (markDone session s d completed) (markDone session s d completed).heldBy := by
  unfold markDone
  split
  · rw [heldBy_goes]; exact hb.goes d _
  · rw [heldBy_goes]
    cases completed <;> exact hb.goes d _

theorem markLocked_books {token : CaptureToken} {completed : Bool} {error : Option Text}
    (hb : Books s (Function.update s.heldBy d [])) (hopen : s.closed = false) :
    Books (markLocked session s d token completed error clock)
      (markLocked session s d token completed error clock).heldBy := by
  have hgo : Books (s.goes d (if completed then .reading else .ended))
      (s.goes d (if completed then .reading else .ended)).heldBy := by
    rw [heldBy_goes]
    cases completed <;> exact hb.goes d _
  unfold markLocked
  split
  · exact hgo
  · next job hj =>
    split
    · exact hgo
    · have hb' : Books { s with job := some (job.markLocalWriteDrain token completed clock.unixNs error) }
          (Function.update s.heldBy d []) :=
        hb.job_mono hj fun h => by
          rwa [CapturedJob.markLocalWriteDrain_captureComplete] at h
      split
      · exact markDone_books hb' completed
      · dsimp only
        split
        · split
          · next s' hs' =>
            have hframe := enqueueStream_frame hs'
            have hheld : s'.heldBy = s.heldBy := by funext d'; simp only [heldBy, hframe.pumps]
            exact markDone_books (hheld ▸ hb'.enqueueStream hopen (by simp) hs' fun d' => rfl) completed
          · refine cast (congrArg _ ?_) (hb'.seat _ (some d) s.waiters)
            funext d'
            by_cases hdd : d' = d
            · subst hdd; simp [heldBy, goes, Pump.bytes]
            · simp [heldBy, goes, Function.update_of_ne hdd]
        · exact markDone_books hb' completed

/-! ## One step -/

/-- The bytes are accounted for and the pumps are in place. -/
structure Sound (s : Connection) : Prop where
  books : Books s s.heldBy
  seated : Seated s

theorem sound_init : Sound {} where
  books := ⟨fun _ _ => rfl, by simp, fun _ => rfl, nofun, nofun, nofun⟩
  seated := ⟨nofun, fun _ => trivial⟩

theorem Seated.open_of_ne (hs : Seated s) (h : s.pumps d ≠ .ended) : s.closed = false := by
  by_contra hc
  exact h (hs.closed (by simpa using hc) d)

theorem Seated.goes (hs : Seated s) (hopen : s.closed = false) {s' : Connection}
    {pump : Pump} (hclosed : s'.closed = s.closed) (hpumps : s'.pumps = Function.update s.pumps d pump)
    (hfits : pump.Fits d) : Seated s' := by
  refine ⟨fun hc => ?_, fun d' => ?_⟩
  · rw [hclosed, hopen] at hc
    cases hc
  · rw [hpumps]
    by_cases hdd : d' = d
    · subst hdd
      rwa [Function.update_self]
    · rw [Function.update_of_ne hdd]
      exact hs.fits d'

theorem seated_of_moves {s' : Connection} (h : ∃ pump, Moves session s s' d pump) (hs : Seated s)
    (hopen : s.closed = false) : Seated s' := by
  obtain ⟨pump, hm⟩ := h
  exact hs.goes hopen hm.closed hm.pumps hm.fits

/-- A pump that held nothing goes to a place where it holds nothing. -/
theorem Sound.goes (hs : Sound s) (hopen : s.closed = false) {pump : Pump}
    (hheld : s.heldBy d = pump.bytes d) (hfits : pump.Fits d) : Sound (s.goes d pump) where
  books := by
    rw [heldBy_goes, ← hheld, Function.update_eq_self]
    exact hs.books.goes d pump
  seated := hs.seated.goes hopen rfl rfl hfits

theorem receive_sound (hs : Sound s) (hread : s.pumps d = .reading) (hd : data ≠ []) :
    Sound (record session { s with written := Function.update s.written d (s.written d ++ data) }
      d data r f clock) := by
  have hopen : s.closed = false := hs.seated.open_of_ne (by rw [hread]; nofun)
  have hnone : s.heldBy d = [] := by rw [heldBy, hread]; rfl
  have hbooks : Books { s with written := Function.update s.written d (s.written d ++ data) }
      (Function.update s.heldBy d data) := by
    refine ⟨fun hg d' => ?_, hs.books.gap, hs.books.hasJob, hs.books.finalizing, hs.books.requested,
      fun p hp => ?_⟩
    · have h := hs.books.accounts hg d'
      by_cases hdd : d' = d
      · subst hdd
        rw [hnone, List.append_nil] at h
        simp only [Function.update_self]
        rw [h]
      · simpa only [Function.update_of_ne hdd] using h
    · have := (hs.books.published p hp).1
      rw [hopen] at this
      cases this
  unfold record
  split
  · exact ⟨recordLocked_books hbooks hopen hd,
      seated_of_moves (recordLocked_moves session _ d data r f clock)
        ⟨hs.seated.closed, hs.seated.fits⟩ hopen⟩
  · refine ⟨?_, hs.seated.goes hopen rfl rfl hd⟩
    exact cast (congrArg _ (heldBy_goes _ d _).symm) (hbooks.seat _ s.holder (s.waiters ++ [d]))

theorem drainDone_sound {token : Option CaptureToken} (hs : Sound s)
    (hdrain : s.pumps d = .draining token) (completed : Bool) (error : Option Text) :
    Sound (drainDone session s d token completed error clock) := by
  have hopen : s.closed = false := hs.seated.open_of_ne (by rw [hdrain]; nofun)
  have hnone : s.heldBy d = [] := by rw [heldBy, hdrain]; rfl
  have hbooks : Books s (Function.update s.heldBy d []) := by
    rw [← hnone, Function.update_eq_self]
    exact hs.books
  cases token with
  | none => exact hs.goes hopen (by rw [hnone]; cases completed <;> rfl) (by cases completed <;> trivial)
  | some token =>
    simp only [drainDone, markLocalWriteDrain]
    split
    · exact ⟨markLocked_books hbooks hopen,
        seated_of_moves (markLocked_moves session s d token completed error clock) hs.seated hopen⟩
    · refine ⟨?_, hs.seated.goes hopen rfl rfl trivial⟩
      exact cast (congrArg _ (heldBy_goes _ d _).symm) (hbooks.seat _ s.holder (s.waiters ++ [d]))

/-- The lock is not in the accounts. -/
theorem Sound.lock (hs : Sound s) (holder : Option StreamDirection)
    (waiters : List StreamDirection) : Sound { s with holder := holder, waiters := waiters } where
  books := hs.books.seat s.pumps holder waiters
  seated := ⟨hs.seated.closed, hs.seated.fits⟩

theorem grant_record_sound (hs : Sound s) (hwait : s.pumps d = .recordWait data r f) :
    Sound (recordLocked session s d data r f clock) := by
  have hopen : s.closed = false := hs.seated.open_of_ne (by rw [hwait]; nofun)
  have hheld : s.heldBy d = data := by rw [heldBy, hwait]; rfl
  have hfits := hs.seated.fits d
  rw [hwait] at hfits
  refine ⟨recordLocked_books ?_ hopen hfits,
    seated_of_moves (recordLocked_moves session s d data r f clock) hs.seated hopen⟩
  rw [← hheld, Function.update_eq_self]
  exact hs.books

theorem grant_mark_sound {token : CaptureToken} {completed : Bool} {error : Option Text}
    (hs : Sound s) (hwait : s.pumps d = .markWait token completed error) :
    Sound (markLocked session s d token completed error clock) := by
  have hopen : s.closed = false := hs.seated.open_of_ne (by rw [hwait]; nofun)
  have hheld : s.heldBy d = [] := by rw [heldBy, hwait]; rfl
  refine ⟨markLocked_books ?_ hopen,
    seated_of_moves (markLocked_moves session s d token completed error clock) hs.seated hopen⟩
  rw [← hheld, Function.update_eq_self]
  exact hs.books

theorem putResume_record_sound {command : StreamCommand} {token : CaptureToken} (hs : Sound s)
    (hput : s.pumps d = .recordPut command token) :
    Sound { s.goes d (.draining (some token)) with
      queue := s.queue ++ [command], holder := none } := by
  have hopen : s.closed = false := hs.seated.open_of_ne (by rw [hput]; nofun)
  have hfits := hs.seated.fits d
  rw [hput] at hfits
  have hbooks : Books { s with queue := s.queue ++ [command] } (Function.update s.heldBy d []) := by
    refine hs.books.push hopen fun d' => ?_
    by_cases hdd : d' = d
    · subst hdd
      rw [Function.update_self, List.append_nil, heldBy, hput]
      rfl
    · rw [Function.update_of_ne hdd, hfits d' hdd, List.nil_append]
  refine ⟨?_, hs.seated.goes hopen rfl rfl trivial⟩
  exact cast (congrArg _ (heldBy_goes _ d _).symm) (hbooks.seat _ none s.waiters)

theorem putResume_mark_sound {command : StreamCommand} {completed : Bool} (hs : Sound s)
    (hput : s.pumps d = .markPut command completed) :
    Sound (markDone session { s with queue := s.queue ++ [command], holder := none } d completed) := by
  have hopen : s.closed = false := hs.seated.open_of_ne (by rw [hput]; nofun)
  have hfits := hs.seated.fits d
  rw [hput] at hfits
  have hheld : s.heldBy d = [] := by rw [heldBy, hput]; rfl
  have hbooks : Books { s with queue := s.queue ++ [command] } (Function.update s.heldBy d []) := by
    refine hs.books.push hopen fun d' => ?_
    rw [← hheld, Function.update_eq_self, hfits d', List.nil_append]
  exact ⟨markDone_books (hbooks.seat s.pumps none s.waiters) completed,
    seated_of_moves (markDone_moves session _ d completed) ⟨hs.seated.closed, hs.seated.fits⟩ hopen⟩

/-! ### The worker -/

theorem Books.job_ne_none (hb : Books s held) (hw : s.worker ≠ .absent) : s.job ≠ none :=
  fun h => hw (hb.hasJob h)

/-- A worker that goes on with no command in hand. -/
theorem Books.worker (hb : Books s held) (hw : s.worker ≠ .absent) {worker : LiveWorker}
    (hbytes : ∀ d, worker.bytes d = s.worker.bytes d) (hgo : ∀ live, worker ≠ .finalizing live) :
    Books { s with worker := worker } held where
  accounts hg d := by
    have h := hb.accounts hg d
    rwa [← hbytes d] at h
  gap := hb.gap
  hasJob h := absurd h (hb.job_ne_none hw)
  finalizing := fun ⟨live, h⟩ => absurd h (hgo live)
  requested := hb.requested
  published := hb.published

theorem writeDisk_nil (s : Connection) : s.writeDisk [] = s := by simp [writeDisk]

/-- A failure of the worker is a gap. -/
theorem Books.failure (hb : Books s held) (hw : s.worker ≠ .absent) (writes : List (Artifact × Bytes))
    (error : Error) : Books ((s.writeDisk writes).recordStorageFailure error) held := by
  obtain ⟨job, hj⟩ := Option.ne_none_iff_exists'.mp (hb.job_ne_none hw)
  have hj' : ((s.writeDisk writes).recordStorageFailure error).job =
      some (incomplete job ("live spool failure: ".toList ++ error.describe)) := by
    simp only [recordStorageFailure, writeDisk, hj, Option.map_some]
  refine ⟨fun hg => ?_, fun _ => ⟨_, hj', rfl⟩, fun h => ?_, fun h => ?_, hb.requested,
    hb.published⟩
  · cases hg _ hj'
  · rw [hj'] at h
    cases h
  · obtain ⟨live, hlive⟩ := h
    cases hlive

/-- The command at the head of the queue goes to the worker. -/
theorem Books.take (hb : Books s held) {live : LiveSpoolCapture} (hw : s.worker = .idle live)
    {command : StreamCommand} {queue : List StreamCommand} (hq : s.queue = command :: queue) :
    Books { s with queue := queue, worker := .executing live command } held where
  accounts hg d := by
    have h := hb.accounts hg d
    rw [hw, hq] at h
    simpa [LiveWorker.bytes] using h
  gap := hb.gap
  hasJob h := absurd h (hb.job_ne_none (by rw [hw]; nofun))
  finalizing := nofun
  requested := hb.requested
  published := hb.published

/-- A command that raises nothing writes its bytes to the RAW file of their direction. -/
theorem execute_output {live : LiveSpoolCapture} {command : StreamCommand}
    (h : (s.execute live command).error = none) (d : StreamDirection) :
    output (s.execute live command).writes d.artifact = command.bytes d := by
  cases command with
  | append sequence direction data chunk =>
    obtain ⟨-, -, -, -, hout⟩ := LiveSpoolCapture.append_ok h
    refine (hout d.artifact (LiveSpoolCapture.artifact_ne_timeline d)).trans ?_
    cases d <;> cases direction <;> rfl
  | drain sequence completed drainUnixNs error =>
    exact (live.markLocalWriteDrain_follows sequence completed drainUnixNs error).output_eq_nil
      (LiveSpoolCapture.artifact_ne_timeline d)

theorem Books.executed (hb : Books s held) {live : LiveSpoolCapture} {command : StreamCommand}
    (hw : s.worker = .executing live command) (h : (s.execute live command).error = none) :
    Books { s.writeDisk (s.execute live command).writes with
      worker := .idle (s.execute live command).live } held where
  accounts hg d := by
    have h' := hb.accounts hg d
    rw [hw] at h'
    change s.disk d.artifact ++ output (s.execute live command).writes d.artifact ++ [] ++ _ ++ _ = _
    rw [execute_output h d, List.append_nil]
    exact h'
  gap := hb.gap
  hasJob hj := absurd hj (hb.job_ne_none (by rw [hw]; nofun))
  finalizing := nofun
  requested := hb.requested
  published := hb.published

/-- At publication nothing is queued or held: a job without a gap is complete. -/
theorem Sound.publish (hs : Sound s) {live : LiveSpoolCapture} (hw : s.worker = .finalizing live) :
    Books (s.writeDisk live.syncAndClose.writes).publish s.heldBy := by
  obtain ⟨hqueue, hclosed⟩ := hs.books.finalizing ⟨live, hw⟩
  have hdisk : ∀ d : StreamDirection, (s.writeDisk live.syncAndClose.writes).disk d.artifact =
      s.disk d.artifact := by
    intro d
    simp only [writeDisk, live.syncAndClose_output (LiveSpoolCapture.artifact_ne_timeline d),
      List.append_nil]
  refine ⟨fun hg d => ?_, hs.books.gap, hs.books.hasJob, hs.books.finalizing, hs.books.requested,
    fun p hp => ⟨hclosed, fun hready d => ?_⟩⟩
  · change (s.writeDisk live.syncAndClose.writes).disk d.artifact ++ _ ++ _ ++ _ = _
    rw [hdisk d]
    exact hs.books.accounts hg d
  · obtain ⟨job, hj, rfl⟩ := Option.map_eq_some_iff.mp hp
    have hg : s.Gapless := by
      intro job' hj'
      rw [show s.job = some job from hj] at hj'
      cases hj'
      simp only [spoolStatus] at hready
      split at hready
      · next hc => exact (Bool.and_eq_true_iff.mp hc).1
      · cases hready
    have h := hs.books.accounts hg d
    rw [hw, hqueue, heldBy, hs.seated.closed hclosed d] at h
    change (s.writeDisk live.syncAndClose.writes).disk d.artifact = _
    rw [hdisk d]
    change s.disk d.artifact = s.written d
    simpa [LiveWorker.bytes, Pump.bytes] using h

/-- The pumps stay where they are while the worker goes on. -/
theorem Sound.of_books (hs : Sound s) {s' : Connection} (hpumps : s'.pumps = s.pumps)
    (hclosed : s'.closed = s.closed) (hb : Books s' s.heldBy) : Sound s' where
  books := by
    have : s'.heldBy = s.heldBy := by funext d; simp only [heldBy, hpumps]
    rw [this]
    exact hb
  seated := ⟨fun h d => hpumps ▸ hs.seated.closed (hclosed ▸ h) d, fun d => hpumps ▸ hs.seated.fits d⟩

/-- The end of the connection. -/
theorem finalize_sound (hs : Sound s) (hended : ∀ d, s.pumps d = .ended) (status : TransportStatus) :
    Sound { s with
      closed := true
      active := false
      job := s.job.map (·.finish clock.now (some status))
      finalizeRequested := s.job.isSome } := by
  have hheld : s.heldBy = fun _ => [] := by funext d; rw [heldBy, hended d]; rfl
  refine ⟨?_, fun _ => hended, fun d => ?_⟩
  · change Books _ s.heldBy
    refine ⟨fun hg d => hs.books.accounts (fun job hj => ?_) d, fun h => ?_, fun h => ?_,
      fun h => ⟨(hs.books.finalizing h).1, rfl⟩, fun _ => rfl, fun p hp => ?_⟩
    · have := hg (job.finish clock.now (some status)) (by simp only [hj, Option.map_some])
      rwa [CapturedJob.finish_captureComplete] at this
    · obtain ⟨job, hj, hgap⟩ := hs.books.gap h
      exact ⟨job.finish clock.now (some status), by simp only [hj, Option.map_some],
        (CapturedJob.finish_captureComplete _ _ _).trans hgap⟩
    · exact hs.books.hasJob (Option.map_eq_none_iff.mp h)
    · exact ⟨rfl, (hs.books.published p hp).2⟩
  · change (s.pumps d).Fits d
    rw [hended d]
    trivial

/-! ### Every step -/

/-- The step cancels a pump inside `record`. -/
def CutsRecord (s : Connection) : Event → Prop
  | .cancel d => (s.pumps d).inRecord = true
  | _ => False

theorem cancel_sound (hs : Sound s) {s' : Connection} (h : cancel session s d clock = some s')
    (hcut : (s.pumps d).inRecord = false) : Sound s' := by
  have hend : s.pumps d ≠ .ended → s.heldBy d = [] → Sound (s.goes d .ended) := fun hne hheld =>
    hs.goes (hs.seated.open_of_ne hne) hheld trivial
  unfold cancel at h
  split at h
  · next hp => cases h; exact hend (by rw [hp]; nofun) (by rw [heldBy, hp]; rfl)
  · next hp => rw [hp] at hcut; cases hcut
  · next hp =>
    cases h
    exact (hend (by rw [hp]; nofun) (by rw [heldBy, hp]; rfl)).lock s.holder _
  · next hp => rw [hp] at hcut; cases hcut
  · next hp =>
    cases h
    exact (hend (by rw [hp]; nofun) (by rw [heldBy, hp]; rfl)).lock none s.waiters
  · next token hp => cases h; exact drainDone_sound hs hp false none
  · cases h

theorem step_sound (hs : Sound s) {event : Event} {s' : Connection}
    (h : step session s clock event = some s') (hcut : ¬ CutsRecord s event) : Sound s' := by
  cases event with
  | receive d data r f =>
    simp only [step] at h
    split at h
    · next hread =>
      split at h
      · cases h
      · next hd => cases h; exact receive_sound hs hread hd
    · cases h
  | grant d =>
    simp only [step] at h
    split at h
    · next w waiters _ _ =>
      have hs' := hs.lock s.holder waiters
      split at h
      · split at h
        · next hp => cases h; exact grant_record_sound hs' hp
        · next hp => cases h; exact grant_mark_sound hs' hp
        · cases h
      · cases h
    · cases h
  | putResume d =>
    simp only [step] at h
    split at h
    · split at h
      · next hp => cases h; exact putResume_record_sound hs hp
      · next hp => cases h; exact putResume_mark_sound hs hp
      · cases h
    · cases h
  | drained d =>
    simp only [step] at h
    split at h
    · next hp => cases h; exact drainDone_sound hs hp true none
    · cases h
  | drainFails d error =>
    simp only [step] at h
    split at h
    · next hp => cases h; exact drainDone_sound hs hp false (some error)
    · cases h
  | readEnds d =>
    simp only [step] at h
    split at h
    · next hp =>
      cases h
      exact hs.goes (hs.seated.open_of_ne (by rw [hp]; rintro ⟨⟩)) (by rw [heldBy, hp]; rfl) trivial
    · cases h
  | cancel d => exact cancel_sound hs h (by simpa [CutsRecord] using hcut)
  | begun code parent partialDir finalDir =>
    simp only [step] at h
    split at h
    · next hw =>
      cases h
      exact hs.of_books rfl rfl
        (hs.books.worker (by rw [hw]; rintro ⟨⟩) (fun d => by rw [hw]; rfl) (by rintro _ ⟨⟩))
    · cases h
  | beginFails error =>
    simp only [step] at h
    split at h
    · next hw =>
      cases h
      have hb := hs.books.failure (by rw [hw]; rintro ⟨⟩) [] error
      rw [writeDisk_nil] at hb
      exact hs.of_books rfl rfl hb
    · cases h
  | take =>
    simp only [step] at h
    split at h
    · next live hw =>
      split at h
      · next hq => cases h; exact hs.of_books rfl rfl (hs.books.take hw hq)
      · next hq =>
        split at h
        · next hreq =>
          cases h
          refine hs.of_books rfl rfl ⟨fun hg d => ?_, hs.books.gap, fun hj => ?_,
            fun _ => ⟨hq, hs.books.requested hreq⟩, hs.books.requested, hs.books.published⟩
          · have hacc := hs.books.accounts hg d
            rw [hw] at hacc
            cases hdeg : s.captureDegraded <;> exact hacc
          · exact absurd hj (hs.books.job_ne_none (by rw [hw]; rintro ⟨⟩))
        · cases h
    · cases h
  | executed =>
    simp only [step] at h
    split at h
    · next live command hw =>
      split at h
      · next hok => cases h; exact hs.of_books rfl rfl (hs.books.executed hw hok)
      · cases h; exact hs.of_books rfl rfl (hs.books.failure (by rw [hw]; rintro ⟨⟩) _ _)
    · cases h
  | executeFails writes error =>
    simp only [step] at h
    split at h
    · next live command hw =>
      cases h
      exact hs.of_books rfl rfl (hs.books.failure (by rw [hw]; rintro ⟨⟩) _ _)
    · cases h
  | finalized =>
    simp only [step] at h
    split at h
    · next live hw =>
      split at h
      · cases h
        have hb := hs.publish hw
        refine hs.of_books rfl rfl (hb.worker ?_ (fun d => ?_) (by rintro _ ⟨⟩))
        · change s.worker ≠ _
          rw [hw]
          rintro ⟨⟩
        · change _ = s.worker.bytes d
          rw [hw]
          rfl
      · cases h; exact hs.of_books rfl rfl (hs.books.failure (by rw [hw]; rintro ⟨⟩) _ _)
    · cases h
  | finalizeFails writes error =>
    simp only [step] at h
    split at h
    · next live hw =>
      cases h
      exact hs.of_books rfl rfl (hs.books.failure (by rw [hw]; rintro ⟨⟩) _ _)
    · cases h
  | publishFails error =>
    simp only [step] at h
    split at h
    · next live hw =>
      split at h
      · cases h
        have hb := (hs.publish hw).failure (show s.worker ≠ _ by rw [hw]; rintro ⟨⟩) [] error
        rw [writeDisk_nil] at hb
        exact hs.of_books rfl rfl hb
      · cases h
    · cases h
  | workerClosed =>
    simp only [step] at h
    split at h
    · next hw =>
      cases h
      exact hs.of_books rfl rfl
        (hs.books.worker (by rw [hw]; rintro ⟨⟩) (fun d => by rw [hw]; rfl) (by rintro _ ⟨⟩))
    · cases h
  | finalize status =>
    simp only [step] at h
    split at h
    · next hp =>
      cases h
      exact finalize_sound hs (fun d => by cases d; exacts [hp.1, hp.2.1]) status
    · cases h

/-! ## Runs -/

instance (s : Connection) (event : Event) : Decidable (CutsRecord s event) := by
  cases event <;> unfold CutsRecord <;> infer_instance

/-- No step of the run cancels a pump inside `record`. -/
abbrev Uncut (session : Session) : Connection → List (Event × Clock) → Prop :=
  Along session fun s event => ¬ CutsRecord s event

/-- Nobody waits for the lock or for room. -/
structure Unblocked (s : Connection) : Prop where
  lock : s.lockFree = true
  pumps : ∀ d, (s.pumps d).waits = false

theorem step_unblocked (hp : session.config.storageFailurePolicy = .continue) {event : Event}
    {s' : Connection} (hs : Unblocked s) (h : step session s clock event = some s') :
    Unblocked s' := by
  obtain ⟨d, pump, ht⟩ | ht := step_control h
  · obtain ⟨hw, hl⟩ := ht.free hp hs.lock (hs.pumps d)
    refine ⟨hl, fun d' => ?_⟩
    rw [ht.pumps]
    by_cases hdd : d' = d
    · subst hdd
      rwa [Function.update_self]
    · rw [Function.update_of_ne hdd]
      exact hs.pumps d'
  · exact ⟨ht.lock.trans hs.lock, fun d => ht.pumps ▸ hs.pumps d⟩

/-- Under `continue` no cancellation meets a pump inside `record`. -/
theorem Unblocked.not_cutsRecord (hs : Unblocked s) (event : Event) : ¬ CutsRecord s event := by
  cases event with
  | cancel d =>
    intro hcut
    have hw := Pump.waits_of_inRecord hcut
    rw [hs.pumps d] at hw
    cases hw
  | _ => exact id

end

/-- **A job published as `ready` is complete**: in every run in which, under `abort`, no pump is
cancelled inside `record`, the RAW files are all that the pumps wrote to their peers. -/
theorem published_ready_complete (session : Session) (events : List (Event × Clock)) (s : Connection)
    (hrun : run session {} events = some s)
    (huncut : session.config.storageFailurePolicy = .abort → Uncut session {} events)
    (p : Publication) (hp : s.published = some p) (hready : p.status = .ready) :
    p.files .requestRaw = s.written .clientToRch ∧ p.files .responseRaw = s.written .rchToClient := by
  have hcut : Uncut session {} events := by
    cases hpolicy : session.config.storageFailurePolicy with
    | abort => exact huncut hpolicy
    | «continue» =>
      exact along_of_invariant (fun event hs => hs.not_cutsRecord event) (step_unblocked hpolicy)
        events ⟨rfl, fun _ => rfl⟩
  have hsound : Sound s :=
    run_invariant (fun hs hcut h => step_sound hs h hcut) sound_init hrun hcut
  have hfiles := (hsound.books.published p hp).2 hready
  exact ⟨hfiles .clientToRch, hfiles .rchToClient⟩

/-- What a run of a sample session published, and what its pumps wrote. -/
def samplePublication (policy : StorageFailurePolicy) (events : List Event) :
    Option (SpoolStatus × (Bytes × Bytes) × (Bytes × Bytes)) := do
  let s ← sampleRun policy events
  let p ← s.published
  some (p.status, (p.files .requestRaw, p.files .responseRaw),
    (s.written .clientToRch, s.written .rchToClient))

theorem samplePublication_eq_some {policy : StorageFailurePolicy} {events : List Event}
    {status : SpoolStatus} {files written : Bytes × Bytes}
    (h : samplePublication policy events = some (status, files, written)) :
    ∃ s p, sampleRun policy events = some s ∧ s.published = some p ∧ p.status = status ∧
      (p.files .requestRaw, p.files .responseRaw) = files ∧
      (s.written .clientToRch, s.written .rchToClient) = written := by
  obtain ⟨s, hs, h⟩ := Option.bind_eq_some_iff.mp h
  obtain ⟨p, hp, h⟩ := Option.bind_eq_some_iff.mp h
  cases h
  exact ⟨s, p, hs, hp, rfl, rfl, rfl⟩

/-- One chunk each way, both drained. -/
def twoChunks : List Event :=
  [.receive .clientToRch [1] 0 0, .begun [] [] [] [], .drained .clientToRch, .take, .executed,
    .take, .executed, .receive .rchToClient [2] 0 0, .drained .rchToClient, .readEnds .clientToRch,
    .readEnds .rchToClient, .finalize .connectionClosed, .take, .executed, .take, .executed, .take,
    .finalized]

theorem published_ready_complete_twoChunks :
    ∃ s p, sampleRun .abort twoChunks = some s ∧ s.published = some p ∧ p.status = .ready ∧
      p.files .requestRaw = s.written .clientToRch ∧
      p.files .responseRaw = s.written .rchToClient := by
  have h : samplePublication .abort twoChunks = some (.ready, ([1], [2]), ([1], [2])) := by
    decide +kernel
  obtain ⟨s, p, hs, hp, hready, -, -⟩ := samplePublication_eq_some h
  refine ⟨s, p, hs, hp, hready, ?_⟩
  exact published_ready_complete (sampleSession .abort) _ s hs (fun _ => by decide +kernel) p hp hready

/-- A full queue: the chunk of the printer waits for room while its pump is cancelled. -/
def cancelledChunk : List Event :=
  [.receive .clientToRch [1] 0 0, .drained .clientToRch, .receive .rchToClient [2] 0 0,
    .readEnds .clientToRch, .cancel .rchToClient, .begun [] [] [] [], .take, .executed, .take,
    .executed, .finalize .connectionClosed, .take, .finalized]

/-- A chunk whose pump is cancelled inside `record` is missing from a job published as `ready`. -/
theorem published_ready_incomplete :
    ¬ ∀ (session : Session) (events : List (Event × Clock)) (s : Connection),
      run session {} events = some s → ∀ p, s.published = some p → p.status = .ready →
        p.files .requestRaw = s.written .clientToRch ∧
        p.files .responseRaw = s.written .rchToClient := by
  intro hall
  have h : samplePublication .abort cancelledChunk = some (.ready, ([1], []), ([1], [2])) := by
    decide +kernel
  obtain ⟨s, p, hs, hp, hready, hfiles, hwritten⟩ := samplePublication_eq_some h
  obtain ⟨-, hresponse⟩ := hall (sampleSession .abort) _ s hs p hp hready
  rw [(Prod.mk.inj hfiles).2, (Prod.mk.inj hwritten).2] at hresponse
  cases hresponse

end Connection

end RchProxy
