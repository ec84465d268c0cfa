import RchProxy.Py.JsonSize
import RchProxy.Capture.Job

/-!
# The receive timeline

One line of JSON for each receive event (`render/timeline.py`). The events are written without their
payload: direction and offset locate it in the RAW file.
-/

namespace RchProxy

open Py

/-- The fields of an event, in the order of the source. -/
def timelineFields (chunk : CapturedChunk) (sessionId connectionId : Label) : List (Text × Json) :=
  [("sequence".toList, .int chunk.sequence),
   ("received_at".toList, .str chunk.timestamp),
   ("received_unix_ns".toList, Json.ofInt? chunk.receivedUnixNs),
   ("forwarded_unix_ns".toList, Json.ofInt? chunk.forwardedUnixNs),
   ("local_write_drain_unix_ns".toList, Json.ofInt? chunk.drainUnixNs),
   ("monotonic_ns".toList, .int chunk.monotonicNs),
   ("direction".toList, .str chunk.direction.text),
   ("job_offset".toList, .int chunk.offset),
   ("session_offset".toList, .int chunk.sessionOffset),
   ("byte_count".toList, .int (chunk.byteCount.getD chunk.data.length)),
   ("connection_id".toList, .str connectionId.val),
   ("session_id".toList, .str sessionId.val),
   ("sha256".toList, .str (chunk.dataSha256.getD (sha256 chunk.data))),
   ("local_write_drain_completed".toList, Json.ofBool? chunk.localWriteDrainCompleted),
   ("forward_status".toList, .str
     (if chunk.localWriteDrainCompleted = some true then "local_write_drain_completed".toList
      else "local_write_failed_or_not_observed".toList)),
   ("error".toList, Json.ofText? chunk.forwardError),
   ("remote_arrival".toList, .null)]

/-- `render_timeline_event`. -/
def renderTimelineEvent (chunk : CapturedChunk) (sessionId connectionId : Label) :
    Except Error Text := do
  return (← Json.dumps .compact (.obj (timelineFields chunk sessionId connectionId))) ++ ['\n']

/-- `render_timeline_jsonl`. -/
def renderTimelineJsonl (chunks : List CapturedChunk) (sessionId connectionId : Label) :
    Except Error Text := do
  return (← chunks.mapM (renderTimelineEvent · sessionId connectionId)).flatten

theorem plain_ofInt? (n : Option Int) : (Json.ofInt? n).Plain := by cases n <;> exact trivial

theorem plain_ofBool? (b : Option Bool) : (Json.ofBool? b).Plain := by cases b <;> exact trivial

theorem plain_ofText? (t : Option Text) : (Json.ofText? t).Plain := by cases t <;> exact trivial

theorem plain_timelineFields (chunk : CapturedChunk) (sessionId connectionId : Label) :
    (Json.obj (timelineFields chunk sessionId connectionId)).Plain := by
  exact ⟨trivial, trivial, plain_ofInt? _, plain_ofInt? _, plain_ofInt? _, trivial, trivial, trivial,
    trivial, trivial, trivial, trivial, trivial, plain_ofBool? _, trivial, plain_ofText? _, trivial,
    trivial⟩

/-- How many lines a file has. -/
def lineCount (data : Bytes) : Nat := data.count 10

@[simp] theorem lineCount_nil : lineCount [] = 0 := rfl

@[simp] theorem lineCount_append (a b : Bytes) : lineCount (a ++ b) = lineCount a + lineCount b :=
  List.count_append

theorem lineCount_encodeChar {c : Char} (h : c ≠ '\n') :
    lineCount (String.utf8EncodeChar c) = 0 := by
  have hten : (10 : UInt8).toNat = 10 := rfl
  have hbyte : ∀ n, n < 256 → n ≠ 10 → (10 : UInt8) ≠ UInt8.ofNat n := by
    intro n hlt hne heq
    have hn := congrArg UInt8.toNat heq
    rw [UInt8.toNat_ofNat', Nat.mod_eq_of_lt hlt, hten] at hn
    exact hne hn.symm
  have hc : c.val.toNat ≠ 10 := fun heq => h (Char.toNat_inj.mp heq)
  refine List.count_eq_zero.mpr fun hmem => ?_
  unfold String.utf8EncodeChar at hmem
  simp only at hmem
  split at hmem
  · simp only [List.mem_cons, List.not_mem_nil, or_false] at hmem
    exact hbyte _ (by omega) hc hmem
  split at hmem
  · simp only [List.mem_cons, List.not_mem_nil, or_false] at hmem
    rcases hmem with hmem | hmem <;> exact hbyte _ (by omega) (by omega) hmem
  split at hmem
  · simp only [List.mem_cons, List.not_mem_nil, or_false] at hmem
    rcases hmem with hmem | hmem | hmem <;> exact hbyte _ (by omega) (by omega) hmem
  · simp only [List.mem_cons, List.not_mem_nil, or_false] at hmem
    rcases hmem with hmem | hmem | hmem | hmem <;> exact hbyte _ (by omega) (by omega) hmem

/-- An event is one line. -/
theorem lineCount_renderTimelineEvent {chunk : CapturedChunk} {sessionId connectionId : Label}
    {t : Text} (h : renderTimelineEvent chunk sessionId connectionId = .ok t) :
    lineCount (encodeUtf8 t) = 1 := by
  simp only [renderTimelineEvent, bind_eq_ok] at h
  obtain ⟨u, hu, h⟩ := h
  cases h
  have hn := Json.newline_not_mem_dumps hu (plain_timelineFields chunk sessionId connectionId)
  have hzero : lineCount (encodeUtf8 u) = 0 := by
    clear hu
    induction u with
    | nil => rfl
    | cons c u ih =>
      rw [← List.singleton_append, encodeUtf8_append, lineCount_append,
        ih fun h => hn (List.mem_cons_of_mem c h)]
      simpa [encodeUtf8] using lineCount_encodeChar fun h => hn (h ▸ List.mem_cons_self)
  rw [encodeUtf8_append, lineCount_append, hzero]
  decide

end RchProxy
