import RchProxy.Framing.Reached
import RchProxy.Framing.Tiling

/-!
# The carry between two feeds

`feed` is two nested `while` loops that share a cursor into one buffer. `Processes` and `FeedRun`
give the loops their meaning without fuel, a finite derivation for a run that ends, and record the
states the run goes through (`Visit`). Every feed of a reached framer has such a run: its buffer
never outgrows `max_buffer_bytes`, there is always room for a slice, and what is left over is a short
suffix of the stream that starts with an `STX` (`feed_bounded_carry`).
-/

namespace RchProxy

open Py

namespace Framer

/-- A state that a run of `feed` goes through: where the room for a slice is measured, or at the
head of the loop of `_process`. -/
inductive Visit where
  | room (f : Framer)
  | turn (f : Framer)

/-- The framer at a visit. -/
def Visit.framer : Visit → Framer
  | room f | turn f => f

/-- `while self._available: ...` runs from `f` through `vs` and ends in `f'`. -/
inductive Processes (lim : FramerLimits) (final : Bool) : Framer → List Visit → Framer → Prop
  | empty {f : Framer} (h : f.available = 0) : Processes lim final f [.turn f] f
  | stop {f f' : Framer} (h : f.available ≠ 0) (hs : f.processStep lim final = (f', false)) :
      Processes lim final f [.turn f, .turn f'] f'
  | next {f f' f'' : Framer} {vs : List Visit} (h : f.available ≠ 0)
      (hs : f.processStep lim final = (f', true)) (rest : Processes lim final f' vs f'') :
      Processes lim final f (.turn f :: vs) f''

/-- `while position < len(view): ...` runs from `f` through `vs` and ends in `f'`. -/
inductive FeedRun (lim : FramerLimits) : Framer → Bytes → List Visit → Framer → Prop
  | done {f : Framer} : FeedRun lim f [] [] f
  | slice {f f' f'' : Framer} {view : Bytes} {vs ws : List Visit} (hne : view ≠ [])
      (hp : Processes lim false (f.fill lim view).1 vs f')
      (rest : FeedRun lim f' (view.drop (f.fill lim view).2) ws f'') :
      FeedRun lim f view (.room f.makeRoom :: vs ++ ws) f''

/-- The buffer keeps its bound, and the fail-safe of `feed` has left no trace. -/
structure Bounded (lim : FramerLimits) (f : Framer) : Prop where
  buffer : f.buffer.length ≤ lim.maxBufferBytes
  issues : ∀ i ∈ f.issues, i.code ≠ .bufferLimitExceeded

/-- A visit in bounds; where room is measured, there is some. -/
def Visit.InBounds (lim : FramerLimits) : Visit → Prop
  | room f => f.Bounded lim ∧ f.available < lim.maxBufferBytes
  | turn f => f.Bounded lim

/-! ## The buffer does not grow in `_process` -/

section
variable (lim : FramerLimits) (f : Framer)

theorem advance_buffer_le (n : Nat) : (f.advance n).buffer.length ≤ f.buffer.length := by
  unfold advance
  split
  · exact Nat.zero_le _
  · exact Nat.le_refl _

theorem issue_buffer_le (code : IssueCode) (n : Nat) (detail : String) :
    (f.issue lim code n detail).buffer.length ≤ f.buffer.length := by
  unfold issue
  exact advance_buffer_le _ n

theorem acceptAck_buffer_le : (f.acceptAck lim).buffer.length ≤ f.buffer.length := by
  unfold acceptAck
  split
  · exact advance_buffer_le f _
  · exact advance_buffer_le f 1

theorem acceptFrame_buffer_le (n : Nat) :
    (f.acceptFrame lim n).buffer.length ≤ f.buffer.length := by
  unfold acceptFrame
  exact advance_buffer_le _ _

theorem processStep_buffer_le (final : Bool) :
    (f.processStep lim final).1.buffer.length ≤ f.buffer.length := by
  unfold processStep
  simp only
  split
  · exact acceptAck_buffer_le lim f
  split
  · exact issue_buffer_le lim f ..
  split
  · cases final
    · exact Nat.le_refl _
    · exact issue_buffer_le lim f ..
  split
  · exact issue_buffer_le lim f ..
  split
  · exact issue_buffer_le lim f ..
  split
  · cases final
    · exact Nat.le_refl _
    · exact issue_buffer_le lim f ..
  split
  · exact issue_buffer_le lim f ..
  · exact acceptFrame_buffer_le lim f _

end

/-! ## What is recorded -/

theorem mem_appendIssue {lim : FramerLimits} {l : FramerLog} {i j : FramingIssue}
    (h : j ∈ (l.appendIssue lim i).issues) : j ∈ l.issues ∨ j = i := by
  unfold FramerLog.appendIssue at h
  split at h
  · rcases List.mem_append.mp h with h | h
    · exact .inl h
    · exact .inr (List.mem_singleton.mp h)
  · exact .inl h

theorem mem_appendEvent {lim : FramerLimits} {l : FramerLog} {e : StreamEvent} {j : FramingIssue}
    (h : j ∈ (l.appendEvent lim e).issues) : j ∈ l.issues ∨ j.code = .eventLimitExceeded := by
  unfold FramerLog.appendEvent FramerLog.noteEventLimit at h
  split at h
  · exact .inl h
  split at h
  · exact .inl h
  · rcases mem_appendIssue h with h | rfl
    · exact .inl h
    · exact .inr rfl

/-- The issues a token can add to a log. -/
theorem mem_record {lim : FramerLimits} {l : FramerLog} {t : Token} {j : FramingIssue}
    (h : j ∈ (l.record lim t).issues) :
    j ∈ l.issues ∨ j.code = .eventLimitExceeded ∨ j.code = .invalidBcc ∨
      ∃ raw detail, t = .skip j.code raw detail := by
  cases t with
  | ack =>
    rcases mem_appendEvent h with h | h
    · exact .inl h
    · exact .inr (.inl h)
  | frame raw =>
    simp only [FramerLog.record] at h
    split at h
    · rcases mem_appendEvent h with h | h
      · exact .inl h
      · exact .inr (.inl h)
    · rcases mem_appendIssue h with h | rfl
      · rcases mem_appendEvent h with h | h
        · exact .inl h
        · exact .inr (.inl h)
      · exact .inr (.inr (.inl rfl))
  | skip code raw detail =>
    rcases mem_appendIssue h with h | rfl
    · exact .inl h
    · exact .inr (.inr (.inr ⟨raw, detail, rfl⟩))

/-- Recording tokens does not report the fail-safe of `feed`. -/
theorem recordAll_issues {lim : FramerLimits} {l : FramerLog} {ts : List Token}
    (ht : ∀ t ∈ ts, t.Proper) (h : ∀ i ∈ l.issues, i.code ≠ .bufferLimitExceeded) :
    ∀ i ∈ (l.recordAll lim ts).issues, i.code ≠ .bufferLimitExceeded := by
  induction ts generalizing l with
  | nil => exact h
  | cons t ts ih =>
    refine ih (fun u hu => ht u (by simp [hu])) fun i hi hc => ?_
    rcases mem_record hi with hi | hi | hi | ⟨raw, detail, rfl⟩
    · exact h i hi hc
    · rw [hc] at hi; cases hi
    · rw [hc] at hi; cases hi
    · have hgap := (ht (.skip i.code raw detail) (by simp)).2 _ _ _ rfl
      rw [hc] at hgap
      cases hgap

theorem scan_proper (m : Nat) (final : Bool) (w : Bytes) :
    ∀ t ∈ (scan m final w).1, t.Proper := by
  intro t ht
  obtain ⟨w', h⟩ := scan_next m final w t ht
  exact ⟨(Token.next_front h).1, fun code raw detail ht => Token.next_skip_isGap (ht ▸ h)⟩

/-! ## Runs of the loops -/

variable {lim : FramerLimits} {f : Framer}

/-- The loop of `_process` ends, and stays in bounds on the way. -/
theorem processLoop_processes (final : Bool) (fuel : Nat) (hw : f.Within)
    (hf : f.available ≤ fuel) (hb : f.Bounded lim) :
    ∃ vs, Processes lim final f vs (processLoop lim final fuel f) ∧
      (∀ v ∈ vs, v.InBounds lim) ∧ (processLoop lim final fuel f).Bounded lim := by
  induction fuel generalizing f with
  | zero =>
    refine ⟨[.turn f], .empty (by omega), ?_, hb⟩
    intro v hv
    rw [List.mem_singleton.mp hv]
    exact hb
  | succ fuel ih =>
    rw [processLoop]
    by_cases h0 : f.available = 0
    · rw [if_pos h0]
      refine ⟨[.turn f], .empty h0, ?_, hb⟩
      intro v hv
      rw [List.mem_singleton.mp hv]
      exact hb
    rw [if_neg h0]
    have hle := Nat.le_trans (processStep_buffer_le lim f final) hb.buffer
    rcases processStep_spec lim final hw h0 with ⟨-, hp⟩ | ⟨ts, r, htook, hlt, hscan, -⟩
    · rw [hp]
      refine ⟨[.turn f, .turn f], .stop h0 hp, ?_, hb⟩
      intro v hv
      obtain rfl : v = .turn f := by simpa using hv
      exact hb
    -- the turn took some of the tokens of the buffer
    have hts : ∀ t ∈ ts, t.Proper := by
      intro t ht
      have hmem : t ∈ (scan lim.maxDataLength final f.buffered).1 := by
        rw [hscan]; exact List.mem_append_left _ ht
      exact scan_proper _ _ _ t hmem
    have hb' : (f.processStep lim final).1.Bounded lim := by
      refine ⟨hle, ?_⟩
      rw [htook.log]
      exact recordAll_issues hts hb.issues
    cases hstep : f.processStep lim final with
    | mk f' continues =>
      rw [hstep] at hb' htook
      cases continues with
      | false =>
        refine ⟨[.turn f, .turn f'], .stop h0 hstep, ?_, hb'⟩
        intro v hv
        rcases List.mem_cons.mp hv with rfl | hv
        · exact hb
        · rw [List.mem_singleton.mp hv]; exact hb'
      | true =>
        have hav : f'.available = r.length := by
          rw [← buffered_length]; exact congrArg List.length htook.buffered
        rw [buffered_length] at hlt
        obtain ⟨vs, hrun, hvs, hend⟩ := ih (f := f') htook.within (by omega) hb'
        refine ⟨.turn f :: vs, .next h0 hstep hrun, ?_, hend⟩
        intro v hv
        rcases List.mem_cons.mp hv with rfl | hv
        · exact hb
        · exact hvs v hv

/-- The state with a slice in it is in bounds. -/
theorem fill_bounded (h : Ready lim f) (hb : f.Bounded lim) (view : Bytes) :
    (Visit.room f.makeRoom).InBounds lim ∧ (f.fill lim view).1.Bounded lim ∧
      (f.fill lim view).1.Within := by
  obtain ⟨hbuf, hcur, hlog, -⟩ := makeRoom_spec h
  have hcarry := h.carry
  have hfits := lim.frame_fits
  simp only [frameOverhead] at hfits
  have hissues : ∀ i ∈ f.makeRoom.issues, i.code ≠ .bufferLimitExceeded := by
    rw [hlog]; exact hb.issues
  have hlen : f.makeRoom.buffer.length = f.available := by rw [hbuf, buffered_length]
  refine ⟨⟨⟨by omega, hissues⟩, by rw [makeRoom_available h]; omega⟩, ?_, ?_⟩
  · rw [fill_eq h]
    refine ⟨?_, hissues⟩
    simp only [List.length_append, List.length_take, hlen]
    omega
  · rw [fill_eq h]
    simp only [Within, hcur]
    exact Nat.zero_le _

/-- The loop of `feed` ends, and stays in bounds on the way. -/
theorem feedLoop_feedRun (fuel : Nat) (view : Bytes) (h : Ready lim f) (hb : f.Bounded lim)
    (hf : view.length ≤ fuel) :
    ∃ vs, FeedRun lim f view vs (feedLoop lim fuel f view) ∧
      (∀ v ∈ vs, v.InBounds lim) ∧ (feedLoop lim fuel f view).Bounded lim := by
  induction fuel generalizing f view with
  | zero =>
    obtain rfl : view = [] := List.length_eq_zero_iff.mp (by omega)
    exact ⟨[], .done, nofun, hb⟩
  | succ fuel ih =>
    rw [feedLoop]
    by_cases hv : view = []
    · subst hv
      rw [if_pos rfl]
      exact ⟨[], .done, nofun, hb⟩
    rw [if_neg hv]
    obtain ⟨hroom, hfill, hwithin⟩ := fill_bounded h hb view
    obtain ⟨hcount, hfed⟩ := feedSlice_spec h view
    obtain ⟨vs, hrun, hvs, hend⟩ := processLoop_processes false _ hwithin (Nat.le_refl _) hfill
    have hpos : 0 < view.length := List.length_pos_iff.mpr hv
    have hcarry := h.carry
    have hfits := lim.frame_fits
    simp only [frameOverhead] at hfits
    obtain ⟨ws, hrest, hws, hend'⟩ := ih (view.drop (f.feedSlice lim view).2) hfed.ready hend
      (by rw [List.length_drop]; omega)
    refine ⟨.room f.makeRoom :: vs ++ ws, .slice hv hrun hrest, ?_, hend'⟩
    intro v hmem
    rcases List.mem_append.mp hmem with hmem | hmem
    · rcases List.mem_cons.mp hmem with rfl | hmem
      · exact hroom
      · exact hvs v hmem
    · exact hws v hmem

/-! ## Reached states -/

variable {retain : Bool} {chunks : List Bytes}

/-- One more chunk keeps the bounds. -/
theorem Reached.feed_bounded (h : Reached lim retain chunks f) (hb : f.Bounded lim)
    (chunk : Bytes) :
    ∃ out, f.feed lim retain chunk = .ok out ∧ Reached lim retain (chunks ++ [chunk]) out.2 ∧
      out.2.Bounded lim := by
  obtain ⟨out, hout, h'⟩ := h.feed chunk
  obtain ⟨-, -, -, hend⟩ := feedLoop_feedRun chunk.length chunk h.ready hb (Nat.le_refl _)
  refine ⟨out, hout, h', ?_⟩
  rw [feed_eq h.ready] at hout
  cases hout
  simp only
  split
  · exact hend
  · exact ⟨hend.buffer, nofun⟩

/-- A framer between two feeds is in bounds. -/
theorem feedAll_bounded (lim : FramerLimits) (retain : Bool) (chunks : List Bytes) :
    ∃ f, feedAll lim retain {} chunks = .ok f ∧ Reached lim retain chunks f ∧ f.Bounded lim := by
  induction chunks using List.reverseRecOn with
  | nil => exact ⟨{}, rfl, reached_new lim retain, Nat.zero_le _, nofun⟩
  | append_singleton chunks chunk ih =>
    obtain ⟨f, hf, h, hb⟩ := ih
    obtain ⟨out, hout, h', hb'⟩ := h.feed_bounded hb chunk
    exact ⟨out.2, feedAll_concat hf hout, h', hb'⟩

/-- The summary of `finish` has a code of its own. -/
theorem mem_finalize {l : FramerLog} {n : Nat} {i : FramingIssue}
    (h : i ∈ (l.finalizeOmittedIssues lim n).issues) :
    i ∈ l.issues ∨ i.code = .issueLimitExceeded := by
  unfold FramerLog.finalizeOmittedIssues at h
  split at h
  · exact .inl h
  simp only at h
  split at h
  · rcases List.mem_append.mp h with h | h
    · exact .inl (List.dropLast_subset _ h)
    · exact .inr (by rw [List.mem_singleton.mp h])
  · rcases List.mem_append.mp h with h | h
    · exact .inl h
    · exact .inr (by rw [List.mem_singleton.mp h])

theorem Reached.finish_bounded (h : Reached lim retain chunks f) (hb : f.Bounded lim) :
    ∀ i ∈ (f.finish lim).1.issues, i.code ≠ .bufferLimitExceeded := by
  intro i hi hcode
  have hp := process_spec lim true h.ready.within
  simp only [finish, h.ready.open_, Bool.false_eq_true, if_false] at hi
  rcases mem_finalize hi with hi | hi
  · rw [show (f.process lim true).toFramerLog.issues = _ from congrArg FramerLog.issues hp.log]
      at hi
    exact recordAll_issues (scan_proper lim.maxDataLength true f.buffered) hb.issues i hi hcode
  · rw [hcode] at hi
    cases hi

/-- What a framer holds between two feeds of a stream of which it has seen `fed`. -/
structure CarryOf (lim : FramerLimits) (fed : Bytes) (f : Framer) : Prop where
  suffix : f.buffered <:+ fed
  short : f.buffered.length ≤ lim.maxDataLength + 10
  opens : f.buffered = [] ∨ f.buffered.head? = some STX

theorem Reached.carryOf (h : Reached lim retain chunks f) :
    CarryOf lim chunks.flatten f := by
  have hnone : Token.next lim.maxDataLength false f.buffered = none := by
    rw [h.buffered]
    exact scanSlices_carry _ rfl
  refine ⟨?_, by rw [buffered_length]; exact h.ready.carry, ?_⟩
  · have hflat := scanSlices_flatten lim.maxDataLength [] (slicesOf lim [] chunks)
    rw [List.nil_append, h.flatten] at hflat
    rw [h.buffered, ← hflat]
    exact List.suffix_append _ _
  · rcases Token.next_eq_none hnone with h0 | ⟨hhead, -⟩
    · exact .inl h0
    · exact .inr hhead

/-- **Bounded carry and progress.** Whatever was fed before, the loops of `feed` end. On the way the
buffer never exceeds `max_buffer_bytes` and there is always room for the next slice, so that
`buffer_limit_exceeded` is not raised; after it, what is buffered is a suffix of the bytes fed so
far, shorter than any frame, and empty or begun by an `STX`. -/
theorem feed_bounded_carry (lim : FramerLimits) (retain : Bool) (chunks : List Bytes)
    (chunk : Bytes) :
    ∃ f emitted f' vs f'', feedAll lim retain {} chunks = .ok f ∧
      f.feed lim retain chunk = .ok (emitted, f') ∧
      FeedRun lim f chunk vs f'' ∧
      f' = (if retain || chunk.isEmpty then f''
        else { f'' with toFramerLog := f''.toFramerLog.forget }) ∧
      (∀ v ∈ vs, v.InBounds lim) ∧ f'.Bounded lim ∧
      CarryOf lim (chunks ++ [chunk]).flatten f' ∧
      (∀ i ∈ (f'.finish lim).1.issues, i.code ≠ .bufferLimitExceeded) := by
  obtain ⟨f, hf, h, hb⟩ := feedAll_bounded lim retain chunks
  obtain ⟨vs, hrun, hvs, -⟩ := feedLoop_feedRun chunk.length chunk h.ready hb (Nat.le_refl _)
  obtain ⟨⟨emitted, f'⟩, hout, h', hb'⟩ := h.feed_bounded hb chunk
  have hlog := hout
  rw [feed_eq h.ready] at hlog
  refine ⟨f, emitted, f', vs, _, hf, hout, hrun, ?_, hvs, hb', h'.carryOf, h'.finish_bounded hb'⟩
  cases hlog
  rfl

end Framer

end RchProxy
