import RchProxy.Lib.Tiles
import RchProxy.Capture.Job

/-!
# What a job keeps of what it receives

The calls that build a job, and the receive events among them (`received`). As long as the RAW is
complete, the job keeps the first `maxCaptureEvents` of them (`JobCall.run_received`), and the
request events it keeps tile the front of the request.
-/

namespace RchProxy

open Py Lib

/-- One receive event, as `append` is told of it. -/
structure Arrival where
  direction : StreamDirection
  data : Bytes
  observed : Observed
  deriving DecidableEq, Repr

/-- A call that changes a job on its way to the spool. -/
inductive JobCall where
  | append (arrival : Arrival) (sequence sessionOffset : Option Nat)
  | markLocalWriteDrain (token : CaptureToken) (completed : Bool) (drainUnixNs : Int)
      (error : Option Text)
  | finish (now : DateTime) (status : Option TransportStatus)

namespace JobCall

/-- The job after a call. -/
def apply (job : CapturedJob) : JobCall → CapturedJob
  | .append a sequence sessionOffset =>
    (job.append a.direction a.data sequence sessionOffset a.observed true).1
  | .markLocalWriteDrain token completed drainUnixNs error =>
    job.markLocalWriteDrain token completed drainUnixNs error
  | .finish now status => job.finish now status

/-- The job after some calls. -/
def run (job : CapturedJob) (calls : List JobCall) : CapturedJob := calls.foldl apply job

/-- The receive event of a call, if it brings one. -/
def arrival? : JobCall → Option Arrival
  | .append a _ _ => if a.data = [] then none else some a
  | _ => none

end JobCall

/-- The receive events among some calls. -/
def received (calls : List JobCall) : List Arrival := calls.filterMap JobCall.arrival?

/-- The bytes that arrive from one side. -/
def bytesFrom (d : StreamDirection) (arrivals : List Arrival) : Nat :=
  (arrivals.map fun a => if a.direction = d then a.data.length else 0).sum

theorem bytesFrom_append (d : StreamDirection) (l l' : List Arrival) :
    bytesFrom d (l ++ l') = bytesFrom d l + bytesFrom d l' := by
  simp [bytesFrom]

theorem bytesFrom_singleton (d : StreamDirection) (a : Arrival) :
    bytesFrom d [a] = if a.direction = d then a.data.length else 0 := by
  simp [bytesFrom]

/-- The event a job keeps for an arrival. -/
structure CapturedChunk.Of (c : CapturedChunk) (a : Arrival) : Prop where
  direction : c.direction = a.direction
  byteCount : c.byteCount = some a.data.length
  timestamp : c.timestamp = a.observed.timestamp
  receivedUnixNs : c.receivedUnixNs = a.observed.receivedUnixNs
  dataSha256 : c.dataSha256.isSome
  data : a.data ≠ []

/-- An event without its payload and without the outcome of its drain. -/
def CapturedChunk.outline (c : CapturedChunk) : CapturedChunk :=
  { c.drained false 0 none with data := [] }

/-- The bytes of the request an event stands for. -/
def requestRange (c : CapturedChunk) : Option (Nat × Nat) :=
  if c.direction = .clientToRch then
    some (c.offset, c.offset + c.byteCount.getD 0)
  else none

/-- The ranges of the request events. -/
def requestRanges (chunks : List CapturedChunk) : List (Nat × Nat) := chunks.filterMap requestRange

namespace CapturedJob

/-- A job that nothing was appended to. -/
structure Fresh (job : CapturedJob) : Prop where
  chunks : job.chunks = []
  bytesStored : ∀ d, job.bytesStored d = 0
  captureComplete : job.captureComplete = true

/-- What a job with complete RAW keeps of the events it received. -/
structure Received (job : CapturedJob) (arrivals : List Arrival) : Prop where
  bytesStored : ∀ d, job.bytesStored d = bytesFrom d arrivals
  chunks : List.Forall₂ CapturedChunk.Of job.chunks (arrivals.take job.maxCaptureEvents)
  tiles : Tiles 0 (requestRanges job.chunks)
    (bytesFrom .clientToRch (arrivals.take job.maxCaptureEvents))

theorem Fresh.received {job : CapturedJob} (h : job.Fresh) : job.Received [] where
  bytesStored := h.bytesStored
  chunks := by rw [h.chunks, List.take_nil]; exact .nil
  tiles := by rw [h.chunks, List.take_nil]; exact .nil 0

/-- What a job has received is read off its chunks without payload or drains. -/
theorem Received.congr {job job' : CapturedJob} {arrivals : List Arrival} (h : job.Received arrivals)
    (hstored : job'.bytesStored = job.bytesStored)
    (hmax : job'.maxCaptureEvents = job.maxCaptureEvents)
    (hchunks : job'.chunks.map CapturedChunk.outline = job.chunks.map CapturedChunk.outline) :
    job'.Received arrivals := by
  have hof : ∀ chunks : List CapturedChunk, ∀ l : List Arrival,
      List.Forall₂ CapturedChunk.Of (chunks.map CapturedChunk.outline) l ↔
        List.Forall₂ CapturedChunk.Of chunks l := by
    intro chunks l
    rw [List.forall₂_map_left_iff]
    constructor
    · exact List.Forall₂.imp fun c a h =>
        ⟨h.direction, h.byteCount, h.timestamp, h.receivedUnixNs, h.dataSha256, h.data⟩
    · exact List.Forall₂.imp fun c a h =>
        ⟨h.direction, h.byteCount, h.timestamp, h.receivedUnixNs, h.dataSha256, h.data⟩
  have hranges : ∀ chunks : List CapturedChunk,
      requestRanges (chunks.map CapturedChunk.outline) = requestRanges chunks := by
    intro chunks
    rw [requestRanges, List.filterMap_map]
    rfl
  refine ⟨fun d => by rw [hstored]; exact h.bytesStored d, ?_, ?_⟩
  · rw [← hof, hchunks, hof, hmax]
    exact h.chunks
  · rw [← hranges, hchunks, hranges, hmax]
    exact h.tiles

/-- What `append` does to a job whose RAW stays complete. -/
theorem append_fits (job : CapturedJob) (a : Arrival) (sequence sessionOffset : Option Nat)
    (hdata : a.data ≠ [])
    (hcomplete : (job.append a.direction a.data sequence sessionOffset a.observed
      true).1.captureComplete = true) :
    let job' := (job.append a.direction a.data sequence sessionOffset a.observed true).1
    job.captureComplete = true ∧ job'.maxCaptureEvents = job.maxCaptureEvents ∧
    job'.bytesStored = Function.update job.bytesStored a.direction
      (job.bytesStored a.direction + a.data.length) ∧
    if job.chunks.length < job.maxCaptureEvents then
      ∃ chunk : CapturedChunk, job'.chunks = job.chunks ++ [chunk] ∧ chunk.Of a ∧
        chunk.offset = job.bytesStored a.direction
    else job'.chunks = job.chunks := by
  rw [append_captureComplete _ _ _ _ _ _ _ hdata, Bool.and_eq_true, decide_eq_true_eq] at hcomplete
  have htake : a.data.take job.room = a.data := List.take_of_length_le hcomplete.2
  unfold append
  rw [if_neg hdata, htake]
  dsimp only
  rw [if_pos rfl]
  unfold store
  rw [if_neg hdata]
  dsimp only [observe]
  refine ⟨hcomplete.1, ?_⟩
  by_cases hlt : job.chunks.length < job.maxCaptureEvents
  · simp only [if_pos hlt]
    exact ⟨trivial, trivial, _, rfl, ⟨rfl, rfl, rfl, rfl, rfl, hdata⟩, rfl⟩
  · simp only [if_neg hlt]
    exact ⟨trivial, trivial, trivial⟩

/-- An event more. -/
theorem Received.append {job : CapturedJob} {arrivals : List Arrival} (h : job.Received arrivals)
    (a : Arrival) (sequence sessionOffset : Option Nat) (hdata : a.data ≠ [])
    (hcomplete : (job.append a.direction a.data sequence sessionOffset a.observed
      true).1.captureComplete = true) :
    (job.append a.direction a.data sequence sessionOffset a.observed true).1.Received
      (arrivals ++ [a]) := by
  obtain ⟨-, hmax, hstored, hchunks⟩ := job.append_fits a sequence sessionOffset hdata hcomplete
  have hlength := h.chunks.length_eq
  rw [List.length_take] at hlength
  have hbytes : ∀ d, (job.append a.direction a.data sequence sessionOffset a.observed
      true).1.bytesStored d = bytesFrom d (arrivals ++ [a]) := by
    intro d
    rw [hstored, bytesFrom_append, bytesFrom_singleton]
    by_cases hd : a.direction = d
    · rw [hd, Function.update_self, if_pos rfl, h.bytesStored]
    · rw [Function.update_of_ne (Ne.symm hd), if_neg hd, h.bytesStored, Nat.add_zero]
  by_cases hlt : job.chunks.length < job.maxCaptureEvents
  · -- every event so far was kept, and this one is too
    rw [if_pos hlt] at hchunks
    obtain ⟨chunk, hchunks, hof, hoffset⟩ := hchunks
    have hall : arrivals.take job.maxCaptureEvents = arrivals := List.take_of_length_le (by omega)
    have hall' : (arrivals ++ [a]).take job.maxCaptureEvents = arrivals ++ [a] :=
      List.take_of_length_le (by simp; omega)
    have hkept := h.chunks
    have htiles := h.tiles
    rw [hall] at hkept htiles
    refine ⟨hbytes, ?_, ?_⟩
    · rw [hchunks, hmax, hall']
      exact List.rel_append hkept (.cons hof .nil)
    · rw [hchunks, hmax, hall', requestRanges, List.filterMap_append, ← requestRanges,
        bytesFrom_append, bytesFrom_singleton]
      by_cases hd : a.direction = .clientToRch
      · have hrange : requestRange chunk = some (bytesFrom .clientToRch arrivals,
            bytesFrom .clientToRch arrivals + a.data.length) := by
          rw [requestRange, if_pos (hof.direction.trans hd), hof.byteCount, hoffset, hd,
            h.bytesStored]
          rfl
        rw [if_pos hd, List.filterMap_cons_some hrange, List.filterMap_nil]
        exact htiles.snoc (by have := List.length_pos_iff.mpr hdata; omega)
      · have hrange : requestRange chunk = none := if_neg (hof.direction ▸ hd)
        rw [if_neg hd, List.filterMap_cons_none hrange, List.filterMap_nil, List.append_nil,
          Nat.add_zero]
        exact htiles
  · rw [if_neg hlt] at hchunks
    have hkept : (arrivals ++ [a]).take job.maxCaptureEvents = arrivals.take job.maxCaptureEvents :=
      List.take_append_of_le_length (by omega)
    refine ⟨hbytes, ?_, ?_⟩
    · rw [hchunks, hmax, hkept]
      exact h.chunks
    · rw [hchunks, hmax, hkept]
      exact h.tiles

end CapturedJob

/-- One call keeps what the job has of the events. -/
theorem JobCall.apply_received {job : CapturedJob} {arrivals : List Arrival}
    (h : job.captureComplete = true → job.Received arrivals) (call : JobCall) :
    (call.apply job).captureComplete = true →
      (call.apply job).Received (arrivals ++ call.arrival?.toList) := by
  intro hcomplete
  cases call with
  | append a sequence sessionOffset =>
    by_cases hdata : a.data = []
    · have happly : apply job (.append a sequence sessionOffset) = job := by
        simp [apply, CapturedJob.append, hdata]
      have harrival : (JobCall.append a sequence sessionOffset).arrival? = none := if_pos hdata
      rw [happly] at hcomplete ⊢
      rw [harrival, Option.toList_none, List.append_nil]
      exact h hcomplete
    · have harrival : (JobCall.append a sequence sessionOffset).arrival? = some a := if_neg hdata
      rw [harrival]
      exact (h (job.append_fits a sequence sessionOffset hdata hcomplete).1).append a sequence
        sessionOffset hdata hcomplete
  | markLocalWriteDrain token completed drainUnixNs error =>
    have hbefore : job.captureComplete = true := by
      rw [← job.markLocalWriteDrain_captureComplete token completed drainUnixNs error]
      exact hcomplete
    have hmodify : ∀ index, (job.chunks.modify index (·.drained completed drainUnixNs error)).map
        CapturedChunk.outline = job.chunks.map CapturedChunk.outline := by
      intro index
      refine List.ext_getElem? fun i => ?_
      rw [List.getElem?_map, List.getElem?_map, List.getElem?_modify]
      cases job.chunks[i]? with
      | none => rfl
      | some c => by_cases hi : index = i <;> simp [hi, CapturedChunk.outline, CapturedChunk.drained]
    refine (List.append_nil arrivals).symm ▸ (h hbefore).congr ?_ ?_ ?_
    all_goals
      simp only [apply, CapturedJob.markLocalWriteDrain]
      cases token.chunkIndex <;> cases completed <;> first | rfl | exact hmodify _
  | finish now status =>
    have hbefore : job.captureComplete = true := by
      rw [← job.finish_captureComplete now status]
      exact hcomplete
    refine (List.append_nil arrivals).symm ▸ (h hbefore).congr ?_ ?_ ?_
    all_goals
      simp only [apply, CapturedJob.finish]
      cases status with
      | some status => rfl
      | none => dsimp only; split <;> first | rfl | (split <;> rfl)

/-- A job with complete RAW keeps the first events it received. -/
theorem JobCall.run_received {job : CapturedJob} (h : job.Fresh) (calls : List JobCall)
    (hcomplete : (run job calls).captureComplete = true) : (run job calls).Received (received calls) := by
  suffices hall : ∀ (job : CapturedJob) (arrivals : List Arrival),
      (job.captureComplete = true → job.Received arrivals) →
      (run job calls).captureComplete = true →
      (run job calls).Received (arrivals ++ received calls) from
    hall job [] (fun _ => h.received) hcomplete
  clear hcomplete h
  induction calls with
  | nil =>
    intro job arrivals h hcomplete
    rw [received, List.filterMap_nil, List.append_nil]
    exact h hcomplete
  | cons call calls ih =>
    intro job arrivals h hcomplete
    have hstep := ih (call.apply job) _ (call.apply_received h) hcomplete
    have hreceived : received (call :: calls) = call.arrival?.toList ++ received calls := by
      cases hcall : call.arrival? <;> simp [received, hcall]
    rw [hreceived, ← List.append_assoc]
    exact hstep

end RchProxy
