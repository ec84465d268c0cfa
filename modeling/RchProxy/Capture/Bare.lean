import RchProxy.Storage.Flush
import RchProxy.Storage.Manifest

/-!
# A job without its payload

What a live capture keeps of a job in memory (`CapturedJob.bare`): the payload and the data of the
events are gone, and everything a manifest or a timeline line says about them is kept. The chunks of
a job, found by their sequence numbers, are the table its timeline is flushed against.
-/

namespace RchProxy

open Py Lib

/-! ## Without the payload -/

/-- An event without its payload. -/
def CapturedChunk.bare (chunk : CapturedChunk) : CapturedChunk := { chunk with data := [] }

@[simp] theorem CapturedChunk.bare_sequence (chunk : CapturedChunk) :
    chunk.bare.sequence = chunk.sequence := rfl

@[simp] theorem CapturedChunk.bare_data (chunk : CapturedChunk) : chunk.bare.data = [] := rfl

/-- The figures of an event do not come from its payload. -/
def CapturedChunk.Measured (chunk : CapturedChunk) : Prop :=
  chunk.byteCount.isSome ∧ chunk.dataSha256.isSome

theorem CapturedChunk.Measured.render {chunk : CapturedChunk} (h : chunk.Measured)
    (sessionId connectionId : Label) : renderTimelineEvent chunk.bare sessionId connectionId =
      renderTimelineEvent chunk sessionId connectionId := by
  obtain ⟨n, hn⟩ := Option.isSome_iff_exists.mp h.1
  obtain ⟨digest, hdigest⟩ := Option.isSome_iff_exists.mp h.2
  have hfields : timelineFields chunk.bare sessionId connectionId =
      timelineFields chunk sessionId connectionId := by
    unfold timelineFields
    simp only [bare, hn, hdigest, Option.getD_some]
  rw [renderTimelineEvent, hfields, renderTimelineEvent]

namespace CapturedJob

/-- What the live capture keeps of a job in memory. -/
def bare (job : CapturedJob) : CapturedJob :=
  { job with payload := fun _ => [], chunks := job.chunks.map (·.bare) }

variable (job : CapturedJob)

theorem bare_store (d : StreamDirection) (data : Bytes) (sequence sessionOffset : Option Nat)
    (observed : Observed) :
    job.bare.store d data sequence sessionOffset observed false =
      let (job', index) := job.store d data sequence sessionOffset observed true
      (job'.bare, index) := by
  unfold store
  by_cases hd : data = []
  · simp [hd]
  · rw [if_neg hd, if_neg hd]
    by_cases hlt : job.chunks.length < job.maxCaptureEvents
    · simp [bare, hlt, CapturedChunk.bare]
    · simp [bare, hlt]

theorem bare_append (d : StreamDirection) (data : Bytes) (sequence sessionOffset : Option Nat)
    (observed : Observed) :
    job.bare.append d data sequence sessionOffset observed false =
      let (job', index) := job.append d data sequence sessionOffset observed true
      (job'.bare, index) := by
  unfold append
  by_cases hd : data = []
  · simp [hd]
  · rw [if_neg hd, if_neg hd]
    have hobserve : job.bare.observe d data observed.receivedUnixNs =
        (job.observe d data observed.receivedUnixNs).bare := rfl
    have hroom : job.bare.room = job.room := rfl
    dsimp only
    rw [hobserve, hroom, bare_store]
    dsimp only
    split <;> rfl

theorem bare_markLocalWriteDrain (token : CaptureToken) (completed : Bool) (drainUnixNs : Int)
    (error : Option Text) :
    job.bare.markLocalWriteDrain token completed drainUnixNs error =
      (job.markLocalWriteDrain token completed drainUnixNs error).bare := by
  unfold markLocalWriteDrain
  cases token.chunkIndex with
  | none => cases completed <;> rfl
  | some index =>
    have hmodify : (job.chunks.map (·.bare)).modify index (·.drained completed drainUnixNs error) =
        (job.chunks.modify index (·.drained completed drainUnixNs error)).map (·.bare) := by
      refine List.ext_getElem? fun i => ?_
      rw [List.getElem?_modify, List.getElem?_map, List.getElem?_map, List.getElem?_modify]
      cases job.chunks[i]? with
      | none => rfl
      | some c =>
        by_cases hi : index = i
        · simp only [hi, Option.map_eq_map, Option.map_some, if_true]
          rfl
        · simp [hi]
    cases completed <;> simp [bare, hmodify]

/-- What `append` adds to the chunks: one at the end that is not drained, or none. -/
theorem append_chunks (d : StreamDirection) (data : Bytes) (q : Nat) (sessionOffset : Option Nat)
    (observed : Observed) (retain : Bool) :
    let appended := job.append d data (some q) sessionOffset observed retain
    (appended.2 = none ∧ appended.1.chunks = job.chunks) ∨
    (appended.2 = some job.chunks.length ∧ ∃ chunk : CapturedChunk,
      appended.1.chunks = job.chunks ++ [chunk] ∧ chunk.sequence = q ∧
      chunk.localWriteDrainCompleted = none ∧ chunk.Measured) := by
  unfold append
  by_cases hd : data = []
  · simp [hd]
  rw [if_neg hd]
  have hstore : ∀ stored : Bytes,
      let kept := (job.observe d data observed.receivedUnixNs).store d stored (some q)
        sessionOffset observed retain
      (kept.2 = none ∧ kept.1.chunks = job.chunks) ∨
      (kept.2 = some job.chunks.length ∧ ∃ chunk : CapturedChunk,
        kept.1.chunks = job.chunks ++ [chunk] ∧ chunk.sequence = q ∧
        chunk.localWriteDrainCompleted = none ∧ chunk.Measured) := by
    intro stored
    unfold store
    by_cases hs : stored = []
    · simp [hs, observe]
    · rw [if_neg hs]
      by_cases hlt : job.chunks.length < job.maxCaptureEvents
      · exact .inr (by simp [observe, hlt, CapturedChunk.Measured])
      · exact .inl (by simp [observe, hlt])
  dsimp only
  split <;> exact hstore _

/-- `append` leaves the session of a job as it is. -/
theorem append_ids (d : StreamDirection) (data : Bytes) (sequence sessionOffset : Option Nat)
    (observed : Observed) (retain : Bool) :
    (job.append d data sequence sessionOffset observed retain).1.sessionId = job.sessionId ∧
    (job.append d data sequence sessionOffset observed retain).1.connectionId =
      job.connectionId := by
  unfold append
  by_cases hd : data = []
  · simp [hd]
  rw [if_neg hd]
  have hstore : ∀ stored : Bytes, ∀ job' : CapturedJob,
      (job'.store d stored sequence sessionOffset observed retain).1.sessionId = job'.sessionId ∧
      (job'.store d stored sequence sessionOffset observed retain).1.connectionId =
        job'.connectionId := by
    intro stored job'
    unfold store
    split
    · exact ⟨rfl, rfl⟩
    · dsimp only
      split <;> exact ⟨rfl, rfl⟩
  dsimp only
  split <;> exact hstore _ (job.observe d data observed.receivedUnixNs)

/-- What `append` adds to the payload. -/
theorem append_payload (d : StreamDirection) (data : Bytes) (sequence sessionOffset : Option Nat)
    (observed : Observed) :
    (job.append d data sequence sessionOffset observed true).1.payload =
      Function.update job.payload d (job.payload d ++ data.take job.room) := by
  unfold append
  by_cases hd : data = []
  · simp [hd]
  rw [if_neg hd]
  have hstore : ∀ stored : Bytes,
      ((job.observe d data observed.receivedUnixNs).store d stored sequence sessionOffset observed
        true).1.payload = Function.update job.payload d (job.payload d ++ stored) := by
    intro stored
    unfold store
    by_cases hs : stored = []
    · simp [hs, observe]
    · rw [if_neg hs]
      dsimp only
      split <;> rfl
  dsimp only
  split <;> exact hstore _

/-- What a drain leaves as it is, and what it does to the chunks. -/
theorem markLocalWriteDrain_eq (token : CaptureToken) (completed : Bool) (drainUnixNs : Int)
    (error : Option Text) :
    let marked := job.markLocalWriteDrain token completed drainUnixNs error
    marked.sessionId = job.sessionId ∧ marked.connectionId = job.connectionId ∧
    marked.payload = job.payload ∧
    marked.chunks = (token.chunkIndex.map fun index =>
      job.chunks.modify index (·.drained completed drainUnixNs error)).getD job.chunks := by
  unfold markLocalWriteDrain
  cases token.chunkIndex <;> cases completed <;> exact ⟨rfl, rfl, rfl, rfl⟩

theorem bare_finish (now : DateTime) (status : Option TransportStatus) :
    job.bare.finish now status = (job.finish now status).bare := by
  unfold finish
  cases status with
  | some status => rfl
  | none =>
    dsimp only [bare]
    split
    · rfl
    · split <;> rfl

end CapturedJob

/-! ## The chunks of a job, by their sequence numbers -/

/-- The chunk with a sequence number. -/
def chunkAt (chunks : List CapturedChunk) (q : Nat) : Option CapturedChunk :=
  chunks.find? (·.sequence = q)

theorem chunkAt_eq_none {chunks : List CapturedChunk} {q : Nat} :
    chunkAt chunks q = none ↔ ∀ c ∈ chunks, c.sequence ≠ q := by
  simp [chunkAt]

/-- The sequence numbers increase. -/
def Ordered (chunks : List CapturedChunk) : Prop := chunks.Pairwise (·.sequence < ·.sequence)

theorem chunkAt_eq_some {chunks : List CapturedChunk} (h : Ordered chunks) {q : Nat}
    {c : CapturedChunk} : chunkAt chunks q = some c ↔ c ∈ chunks ∧ c.sequence = q := by
  induction chunks with
  | nil => simp [chunkAt]
  | cons head chunks ih =>
    obtain ⟨hhead, htail⟩ := List.pairwise_cons.mp h
    rw [chunkAt, List.find?_cons]
    by_cases hq : head.sequence = q
    · simp only [hq, decide_true, Option.some.injEq, List.mem_cons]
      refine ⟨fun heq => ⟨.inl heq.symm, heq ▸ hq⟩, fun ⟨hmem, hc⟩ => ?_⟩
      rcases hmem with rfl | hmem
      · rfl
      · exact absurd (hhead c hmem) (by omega)
    · simp only [hq, decide_false, List.mem_cons]
      refine (ih htail).trans ⟨fun ⟨hmem, hc⟩ => ⟨.inr hmem, hc⟩, fun ⟨hmem, hc⟩ => ⟨?_, hc⟩⟩
      exact hmem.resolve_left fun heq => hq (heq ▸ hc)

/-- A new chunk, with a number of its own. -/
theorem chunkAt_append {chunks : List CapturedChunk} {chunk : CapturedChunk}
    (h : ∀ c ∈ chunks, c.sequence < chunk.sequence) (q : Nat) :
    chunkAt (chunks ++ [chunk]) q = if q = chunk.sequence then some chunk else chunkAt chunks q := by
  rw [chunkAt, List.find?_append]
  by_cases hq : q = chunk.sequence
  · subst hq
    have hnone : chunkAt chunks chunk.sequence = none :=
      chunkAt_eq_none.mpr fun c hc => (h c hc).ne
    rw [chunkAt] at hnone
    simp [hnone]
  · simp [hq, Ne.symm hq, chunkAt]

/-- A change of the chunk with one number. -/
def changeAt (q : Nat) (f : CapturedChunk → CapturedChunk) (c : CapturedChunk) : CapturedChunk :=
  if c.sequence = q then f c else c

theorem chunkAt_map {f : CapturedChunk → CapturedChunk} (hf : ∀ c, (f c).sequence = c.sequence)
    (chunks : List CapturedChunk) (q : Nat) :
    chunkAt (chunks.map f) q = (chunkAt chunks q).map f := by
  rw [chunkAt, List.find?_map, chunkAt]
  simp only [Function.comp_def, hf]

theorem map_changeAt_of_ne {chunks : List CapturedChunk} {q : Nat}
    {f : CapturedChunk → CapturedChunk} (h : ∀ c ∈ chunks, c.sequence ≠ q) :
    chunks.map (changeAt q f) = chunks := by
  have heq : ∀ c ∈ chunks, changeAt q f c = id c := fun c hc => if_neg (h c hc)
  rw [List.map_congr_left heq, List.map_id]

/-- The chunk at an index is the chunk with its number. -/
theorem modify_eq_map {chunks : List CapturedChunk} (h : Ordered chunks) {index : Nat}
    {chunk : CapturedChunk} (hchunk : chunks[index]? = some chunk)
    (f : CapturedChunk → CapturedChunk) :
    chunks.modify index f = chunks.map (changeAt chunk.sequence f) := by
  induction chunks generalizing index with
  | nil => cases hchunk
  | cons head chunks ih =>
    obtain ⟨hhead, htail⟩ := List.pairwise_cons.mp h
    cases index with
    | zero =>
      cases hchunk
      rw [List.modify_zero_cons, List.map_cons, changeAt, if_pos rfl, map_changeAt_of_ne]
      exact fun c hc => (hhead c hc).ne'
    | succ index =>
      have hne := (hhead chunk (List.mem_of_getElem? hchunk)).ne
      rw [List.modify_succ_cons, List.map_cons, changeAt, if_neg hne, ih htail hchunk]

/-- The chunks in the order of their numbers are the chunks. -/
theorem lines_chunkAt {chunks : List CapturedChunk} (h : Ordered chunks) {lo hi : Nat}
    (hbounds : ∀ c ∈ chunks, lo ≤ c.sequence ∧ c.sequence < hi) :
    lines (chunkAt chunks) lo hi = chunks := by
  obtain ⟨n, hn⟩ : ∃ n, hi - lo = n := ⟨_, rfl⟩
  induction n generalizing lo chunks with
  | zero =>
    cases chunks with
    | nil => simp [lines, hn]
    | cons c chunks => have := hbounds c List.mem_cons_self; omega
  | succ n ih =>
    rw [lines_succ _ (by omega)]
    cases chunks with
    | nil => exact ih h (fun c hc => absurd hc List.not_mem_nil) (by omega)
    | cons c chunks =>
      obtain ⟨hhead, htail⟩ := List.pairwise_cons.mp h
      have hc := hbounds c List.mem_cons_self
      by_cases hlo : c.sequence = lo
      · have hcons : ∀ q ∈ List.range' (lo + 1) (hi - (lo + 1)),
            chunkAt (c :: chunks) q = chunkAt chunks q := by
          intro q hq
          have := (List.mem_range'_1.mp hq).1
          rw [chunkAt, List.find?_cons_of_neg (by simp; omega), chunkAt]
        have hfirst : chunkAt (c :: chunks) lo = some c :=
          (chunkAt_eq_some h).mpr ⟨List.mem_cons_self, hlo⟩
        rw [hfirst, lines, List.filterMap_congr hcons, ← lines, ih htail ?_ (by omega)]
        · rfl
        · exact fun c' hc' =>
            ⟨by have := hhead c' hc'; omega, (hbounds c' (List.mem_cons_of_mem c hc')).2⟩
      · have hnone : chunkAt (c :: chunks) lo = none := by
          refine chunkAt_eq_none.mpr fun c' hc' => ?_
          rcases List.mem_cons.mp hc' with rfl | hc'
          · exact hlo
          · have := hhead c' hc'
            omega
        rw [hnone, ih h ?_ (by omega)]
        · rfl
        · intro c' hc'
          refine ⟨?_, (hbounds c' hc').2⟩
          rcases List.mem_cons.mp hc' with rfl | hc'
          · omega
          · have := hhead c' hc'
            omega

/-! ## What a manifest and a timeline say of a job -/

theorem lineCount_renderTimelineJsonl {chunks : List CapturedChunk} {sessionId connectionId : Label}
    {text : Text} (h : renderTimelineJsonl chunks sessionId connectionId = .ok text) :
    lineCount (encodeUtf8 text) = chunks.length := by
  simp only [renderTimelineJsonl, bind_eq_ok] at h
  obtain ⟨texts, htexts, h⟩ := h
  cases h
  induction chunks generalizing texts with
  | nil =>
    cases htexts
    rfl
  | cons c chunks ih =>
    rw [List.mapM_cons, bind_eq_ok] at htexts
    obtain ⟨t, ht, htexts⟩ := htexts
    rw [bind_eq_ok] at htexts
    obtain ⟨ts, hts, htexts⟩ := htexts
    cases htexts
    rw [List.flatten_cons, encodeUtf8_append, lineCount_append, lineCount_renderTimelineEvent ht,
      ih ts hts, List.length_cons, Nat.add_comm]

theorem renderTimelineJsonl_bare {chunks : List CapturedChunk} (h : ∀ c ∈ chunks, c.Measured)
    (sessionId connectionId : Label) :
    renderTimelineJsonl (chunks.map (·.bare)) sessionId connectionId =
      renderTimelineJsonl chunks sessionId connectionId := by
  have heq : (chunks.map (·.bare)).mapM (renderTimelineEvent · sessionId connectionId) =
      chunks.mapM (renderTimelineEvent · sessionId connectionId) := by
    induction chunks with
    | nil => rfl
    | cons c chunks ih =>
      rw [List.map_cons, List.mapM_cons, List.mapM_cons,
        (h c List.mem_cons_self).render, ih fun c hc => h c (List.mem_cons_of_mem _ hc)]
  rw [renderTimelineJsonl, heq, renderTimelineJsonl]

theorem CapturedJob.finish_eq (job : CapturedJob) (now : DateTime) (status : Option TransportStatus) :
    (job.finish now status).chunks = job.chunks ∧ (job.finish now status).payload = job.payload ∧
    (job.finish now status).sessionId = job.sessionId ∧
    (job.finish now status).connectionId = job.connectionId := by
  unfold CapturedJob.finish
  cases status with
  | some status => exact ⟨rfl, rfl, rfl, rfl⟩
  | none =>
    dsimp only
    split
    · exact ⟨rfl, rfl, rfl, rfl⟩
    · split <;> exact ⟨rfl, rfl, rfl, rfl⟩

/-- A manifest whose figures are all given does not read the payload. -/
theorem captureManifest_bare (config : Config) (job : CapturedJob) (code : Text) (names : FileNames)
    (status : ManifestStatus) {figures figures' : Figures} (hsha : figures.sha256 = figures'.sha256)
    (hrequest : figures.requestSize.getD 0 =
      figures'.requestSize.getD (job.payload .clientToRch).length)
    (hresponse : figures.responseSize.getD 0 =
      figures'.responseSize.getD (job.payload .rchToClient).length)
    (hevents : figures.timelineEventCount.getD job.chunks.length =
      figures'.timelineEventCount.getD job.chunks.length) :
    captureManifest config job.bare code names status figures =
      captureManifest config job code names status figures' := by
  have hlength : job.bare.chunks.length = job.chunks.length := List.length_map ..
  unfold captureManifest
  rw [hsha, hlength, hevents, ← hrequest, ← hresponse]
  rfl

end RchProxy
