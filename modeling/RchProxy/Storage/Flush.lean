import RchProxy.Storage.Live

/-!
# Flushing the timeline

The events a live capture holds back, against a table of what the job says of each sequence number:
an event number without a chunk was skipped, one with a chunk is pending with a copy of it
(`Aligned`). A flush writes the lines of the table in order (`flushLoop_lines`), as long as the
copies it writes are up to date.
-/

namespace RchProxy

open Py Lib

/-! ## Association lists -/

section
variable {β : Type}

theorem lookup_filter_ne (l : List (Nat × β)) (q q' : Nat) :
    (l.filter (·.1 ≠ q)).lookup q' = if q' = q then none else l.lookup q' := by
  induction l with
  | nil => simp
  | cons entry l ih =>
    obtain ⟨k, x⟩ := entry
    by_cases hk : k = q
    · rw [List.filter_cons_of_neg (by simpa using hk), ih, List.lookup_cons]
      by_cases hq : q' = q
      · simp [hq]
      · simp [hq, show (q' == k) = false by simpa using fun h => hq (h.trans hk)]
    · rw [List.filter_cons_of_pos (by simpa using hk), List.lookup_cons, List.lookup_cons, ih]
      by_cases hqk : q' = k
      · subst hqk
        simp [hk]
      · simp [show (q' == k) = false by simpa using hqk]

theorem lookup_map_update (l : List (Nat × β)) (f : β → β) (q q' : Nat) :
    (l.map fun entry => if entry.1 = q then (entry.1, f entry.2) else entry).lookup q' =
      if q' = q then (l.lookup q').map f else l.lookup q' := by
  induction l with
  | nil => simp
  | cons entry l ih =>
    obtain ⟨k, x⟩ := entry
    rw [List.map_cons, List.lookup_cons]
    by_cases hk : k = q
    · subst hk
      rw [if_pos rfl, List.lookup_cons, ih]
      by_cases hqk : q' = k
      · simp [hqk]
      · simp [hqk, show (q' == k) = false by simpa using hqk]
    · rw [if_neg hk, List.lookup_cons, ih]
      by_cases hqk : q' = k
      · subst hqk
        simp [hk]
      · simp [show (q' == k) = false by simpa using hqk]

end

/-! ## Lines -/

section
variable (sessionId connectionId : Label)

theorem renderTimelineJsonl_append {a b : List CapturedChunk} {t u : Text}
    (ha : renderTimelineJsonl a sessionId connectionId = .ok t)
    (hb : renderTimelineJsonl b sessionId connectionId = .ok u) :
    renderTimelineJsonl (a ++ b) sessionId connectionId = .ok (t ++ u) := by
  simp only [renderTimelineJsonl, bind_eq_ok] at ha hb ⊢
  obtain ⟨ts, hts, ht⟩ := ha
  obtain ⟨us, hus, hu⟩ := hb
  cases ht
  cases hu
  refine ⟨ts ++ us, ?_, by rw [List.flatten_append]; rfl⟩
  rw [List.mapM_append, hts, bind_eq_ok]
  exact ⟨ts, rfl, by rw [hus]; rfl⟩

theorem renderTimelineJsonl_nil :
    renderTimelineJsonl [] sessionId connectionId = .ok [] := rfl

theorem renderTimelineJsonl_singleton {chunk : CapturedChunk} {t : Text}
    (h : renderTimelineEvent chunk sessionId connectionId = .ok t) :
    renderTimelineJsonl [chunk] sessionId connectionId = .ok t := by
  simp only [renderTimelineJsonl, bind_eq_ok]
  exact ⟨[t], by rw [List.mapM_cons, h]; rfl, by simp; rfl⟩

end

/-- The chunks of a table, from one sequence number up to another. -/
def lines (table : Nat → Option CapturedChunk) (lo hi : Nat) : List CapturedChunk :=
  (List.range' lo (hi - lo)).filterMap table

theorem lines_self (table : Nat → Option CapturedChunk) (n : Nat) : lines table n n = [] := by
  simp [lines]

theorem lines_succ (table : Nat → Option CapturedChunk) {lo hi : Nat} (h : lo < hi) :
    lines table lo hi = (table lo).toList ++ lines table (lo + 1) hi := by
  unfold lines
  obtain ⟨k, hk⟩ : ∃ k, hi - lo = k + 1 := ⟨hi - lo - 1, by omega⟩
  rw [hk, List.range'_succ, show hi - (lo + 1) = k by omega]
  cases hlo : table lo with
  | none => rw [List.filterMap_cons_none hlo]; rfl
  | some c => rw [List.filterMap_cons_some hlo]; rfl

theorem lines_congr {table table' : Nat → Option CapturedChunk} {lo hi : Nat}
    (h : ∀ q, q < hi → table' q = table q) : lines table' lo hi = lines table lo hi := by
  refine List.filterMap_congr fun q hq => h q ?_
  have := List.mem_range'_1.mp hq
  omega

theorem lines_append (table : Nat → Option CapturedChunk) {lo mid hi : Nat} (h₁ : lo ≤ mid)
    (h₂ : mid ≤ hi) : lines table lo mid ++ lines table mid hi = lines table lo hi := by
  unfold lines
  rw [← List.filterMap_append, show mid = lo + (mid - lo) by omega]
  rw [show lo + (mid - lo) - lo = mid - lo by omega, List.range'_append_1]
  congr 2
  omega

/-! ## The events that are held back -/

/-- What a capture holds back, against a table; `related` relates a chunk of the table to its copy. -/
structure Aligned (table : Nat → Option CapturedChunk)
    (related : Nat → CapturedChunk → CapturedChunk → Prop) (live : LiveSpoolCapture) : Prop where
  next : live.nextTimelineSequence ≤ live.maximumSequence + 1
  skipped : ∀ q ∈ live.skipped, table q = none ∧ q ≤ live.maximumSequence
  pending : ∀ q copy, live.pending.lookup q = some copy → live.nextTimelineSequence ≤ q ∧
    q ≤ live.maximumSequence ∧ ∃ c, table q = some c ∧ related q c copy
  window : ∀ q, live.nextTimelineSequence ≤ q → q ≤ live.maximumSequence →
    (table q = none → q ∈ live.skipped) ∧ (table q ≠ none → live.pending.lookup q ≠ none)

variable {table : Nat → Option CapturedChunk} {related : Nat → CapturedChunk → CapturedChunk → Prop}
  {live : LiveSpoolCapture}

/-- The next number is done with: skipped, or written. -/
theorem Aligned.advance (h : Aligned table related live)
    (hle : live.nextTimelineSequence ≤ live.maximumSequence) {live' : LiveSpoolCapture}
    (hnext : live'.nextTimelineSequence = live.nextTimelineSequence + 1)
    (hmax : live'.maximumSequence = live.maximumSequence)
    (hskipped : ∀ q, q ≠ live.nextTimelineSequence → (q ∈ live'.skipped ↔ q ∈ live.skipped))
    (hleft : live.nextTimelineSequence ∉ live'.skipped)
    (hpending : ∀ q, q ≠ live.nextTimelineSequence →
      live'.pending.lookup q = live.pending.lookup q)
    (hgone : live'.pending.lookup live.nextTimelineSequence = none) :
    Aligned table related live' where
  next := by rw [hnext, hmax]; omega
  skipped q hq := by
    have hne : q ≠ live.nextTimelineSequence := fun heq => hleft (heq ▸ hq)
    rw [hmax]
    exact h.skipped q ((hskipped q hne).mp hq)
  pending q copy hq := by
    have hne : q ≠ live.nextTimelineSequence := by
      rintro rfl
      rw [hgone] at hq
      cases hq
    rw [hpending q hne] at hq
    obtain ⟨hlo, hhi, hc⟩ := h.pending q copy hq
    rw [hnext, hmax]
    exact ⟨by omega, hhi, hc⟩
  window q hlo hhi := by
    rw [hnext] at hlo
    rw [hmax] at hhi
    obtain ⟨h1, h2⟩ := h.window q (by omega) hhi
    rw [hpending q (by omega)]
    exact ⟨fun hn => (hskipped q (by omega)).mpr (h1 hn), h2⟩

/-- One more number, without a chunk. -/
theorem Aligned.skip (h : Aligned table related live) {live' : LiveSpoolCapture}
    (hnone : table (live.maximumSequence + 1) = none)
    (hnext : live'.nextTimelineSequence = live.nextTimelineSequence)
    (hmax : live'.maximumSequence = live.maximumSequence + 1)
    (hskipped : live'.skipped = live.skipped ++ [live.maximumSequence + 1])
    (hpending : live'.pending = live.pending) : Aligned table related live' where
  next := by have := h.next; omega
  skipped q hq := by
    rw [hskipped, List.mem_append, List.mem_singleton] at hq
    rw [hmax]
    rcases hq with hq | rfl
    · exact ⟨(h.skipped q hq).1, Nat.le_succ_of_le (h.skipped q hq).2⟩
    · exact ⟨hnone, le_rfl⟩
  pending q copy hq := by
    rw [hpending] at hq
    rw [hnext, hmax]
    obtain ⟨hlo, hhi, hc⟩ := h.pending q copy hq
    exact ⟨hlo, Nat.le_succ_of_le hhi, hc⟩
  window q hlo hhi := by
    rw [hnext] at hlo
    rw [hmax] at hhi
    rw [hskipped, hpending, List.mem_append, List.mem_singleton]
    rcases Nat.le_succ_iff.mp hhi with hle | rfl
    · exact ⟨fun hn => .inl ((h.window q hlo hle).1 hn), (h.window q hlo hle).2⟩
    · exact ⟨fun _ => .inr rfl, fun hn => absurd hnone hn⟩

/-- One more number, with a chunk. -/
theorem Aligned.hold (h : Aligned table related live) {live' : LiveSpoolCapture}
    {c copy : CapturedChunk} (hsome : table (live.maximumSequence + 1) = some c)
    (hcopy : related (live.maximumSequence + 1) c copy)
    (hnext : live'.nextTimelineSequence = live.nextTimelineSequence)
    (hmax : live'.maximumSequence = live.maximumSequence + 1)
    (hskipped : live'.skipped = live.skipped)
    (hpending : ∀ q, live'.pending.lookup q =
      if q = live.maximumSequence + 1 then some copy else live.pending.lookup q) :
    Aligned table related live' where
  next := by have := h.next; omega
  skipped q hq := by
    rw [hskipped] at hq
    rw [hmax]
    exact ⟨(h.skipped q hq).1, Nat.le_succ_of_le (h.skipped q hq).2⟩
  pending q copy' hq := by
    rw [hpending] at hq
    rw [hnext, hmax]
    split at hq
    · next heq =>
      cases hq
      subst heq
      exact ⟨h.next, le_rfl, c, hsome, hcopy⟩
    · obtain ⟨hlo, hhi, hc⟩ := h.pending q copy' hq
      exact ⟨hlo, Nat.le_succ_of_le hhi, hc⟩
  window q hlo hhi := by
    rw [hnext] at hlo
    rw [hmax] at hhi
    rw [hskipped, hpending]
    rcases Nat.le_succ_iff.mp hhi with hle | rfl
    · rw [if_neg (by omega)]
      exact h.window q hlo hle
    · refine ⟨fun hn => ?_, fun _ => by simp⟩
      rw [hsome] at hn
      cases hn

/-- The copies change, and with them how they are related to the table. -/
theorem Aligned.rewrite (h : Aligned table related live)
    {related' : Nat → CapturedChunk → CapturedChunk → Prop} {live' : LiveSpoolCapture}
    {f : Nat → CapturedChunk → CapturedChunk}
    (hrelated : ∀ q c copy, table q = some c → live.pending.lookup q = some copy →
      related q c copy → related' q c (f q copy))
    (hnext : live'.nextTimelineSequence = live.nextTimelineSequence)
    (hmax : live'.maximumSequence = live.maximumSequence) (hskipped : live'.skipped = live.skipped)
    (hpending : ∀ q, live'.pending.lookup q = (live.pending.lookup q).map (f q)) :
    Aligned table related' live' where
  next := by rw [hnext, hmax]; exact h.next
  skipped q hq := by
    rw [hskipped] at hq
    rw [hmax]
    exact h.skipped q hq
  pending q copy hq := by
    rw [hpending, Option.map_eq_some_iff] at hq
    obtain ⟨copy', hcopy', rfl⟩ := hq
    obtain ⟨hlo, hhi, c, hc, hr⟩ := h.pending q copy' hcopy'
    rw [hnext, hmax]
    exact ⟨hlo, hhi, c, hc, hrelated q c copy' hc hcopy' hr⟩
  window q hlo hhi := by
    rw [hnext] at hlo
    rw [hmax] at hhi
    rw [hskipped, hpending, ne_eq (Option.map _ _), Option.map_eq_none_iff]
    exact h.window q hlo hhi

/-- The table changes, and with it how the copies are related to it. -/
theorem Aligned.retable (h : Aligned table related live) {table' : Nat → Option CapturedChunk}
    {related' : Nat → CapturedChunk → CapturedChunk → Prop}
    (hnone : ∀ q ≤ live.maximumSequence, table' q = none ↔ table q = none)
    (hrelated : ∀ q c copy, live.nextTimelineSequence ≤ q → q ≤ live.maximumSequence →
      table q = some c → related q c copy → ∃ c', table' q = some c' ∧ related' q c' copy) :
    Aligned table' related' live where
  next := h.next
  skipped q hq := ⟨(hnone q (h.skipped q hq).2).mpr (h.skipped q hq).1, (h.skipped q hq).2⟩
  pending q copy hq := by
    obtain ⟨hlo, hhi, c, hc, hr⟩ := h.pending q copy hq
    exact ⟨hlo, hhi, hrelated q c copy hlo hhi hc hr⟩
  window q hlo hhi := by
    rw [ne_eq, hnone q hhi]
    exact h.window q hlo hhi

/-- What a flush did: the lines of the table up to where it stopped. -/
structure Flushed (table : Nat → Option CapturedChunk) (force : Bool) (live : LiveSpoolCapture)
    (call : LiveCall) : Prop where
  next : live.nextTimelineSequence ≤ call.live.nextTimelineSequence
  text : ∃ text, renderTimelineJsonl
      (lines table live.nextTimelineSequence call.live.nextTimelineSequence) live.sessionId
      live.connectionId = .ok text ∧ output call.writes .timeline = encodeUtf8 text
  settled : ∀ q c, live.nextTimelineSequence ≤ q → q < call.live.nextTimelineSequence →
    table q = some c → force = true ∨ c.localWriteDrainCompleted ≠ none

/-- The same flush, of a capture that stands where this one does. -/
theorem Flushed.congr {force : Bool} {live' : LiveSpoolCapture} {call call' : LiveCall}
    (h : Flushed table force live' call')
    (hnext : live'.nextTimelineSequence = live.nextTimelineSequence)
    (hsession : live'.sessionId = live.sessionId) (hconnection : live'.connectionId = live.connectionId)
    (hcall : call.live.nextTimelineSequence = call'.live.nextTimelineSequence)
    (hwrites : output call.writes .timeline = output call'.writes .timeline) :
    Flushed table force live call where
  next := hnext ▸ hcall ▸ h.next
  text := by rw [hcall, hwrites, ← hnext, ← hsession, ← hconnection]; exact h.text
  settled := by rw [hcall, ← hnext]; exact h.settled

theorem Flushed.refl (table : Nat → Option CapturedChunk) (force : Bool) (live : LiveSpoolCapture) :
    Flushed table force live { live := live } where
  next := le_rfl
  text := ⟨[], by rw [lines_self]; rfl, by rfl⟩
  settled q c hlo hhi := absurd hlo (Nat.not_le.mpr hhi)

/-- A skipped number has no line. -/
theorem Flushed.skip {force : Bool} {call : LiveCall} {live' : LiveSpoolCapture}
    (h : Flushed table force live' call) (hnone : table live.nextTimelineSequence = none)
    (hnext : live'.nextTimelineSequence = live.nextTimelineSequence + 1)
    (hplace : live'.sessionId = live.sessionId ∧ live'.connectionId = live.connectionId) :
    Flushed table force live call where
  next := by have := h.next; omega
  text := by
    obtain ⟨text, htext, hout⟩ := h.text
    have hlt := h.next
    rw [hnext, hplace.1, hplace.2] at htext
    rw [hnext] at hlt
    refine ⟨text, ?_, hout⟩
    rw [lines_succ table (by omega), hnone]
    exact htext
  settled q c hlo hhi hc := by
    have hne : q ≠ live.nextTimelineSequence := by
      rintro rfl
      rw [hnone] at hc
      cases hc
    exact h.settled q c (by omega) hhi hc

/-- A number with a chunk has its line. -/
theorem Flushed.write {force : Bool} {call rest : LiveCall} {live' : LiveSpoolCapture}
    {c : CapturedChunk} {text : Text} (h : Flushed table force live' rest)
    (hsome : table live.nextTimelineSequence = some c)
    (hdrained : force = true ∨ c.localWriteDrainCompleted ≠ none)
    (htext : renderTimelineEvent c live.sessionId live.connectionId = .ok text)
    (hnext : live'.nextTimelineSequence = live.nextTimelineSequence + 1)
    (hplace : live'.sessionId = live.sessionId ∧ live'.connectionId = live.connectionId)
    (hlive : call.live = rest.live)
    (hwrites : output call.writes .timeline = encodeUtf8 text ++ output rest.writes .timeline) :
    Flushed table force live call where
  next := by have := h.next; rw [hlive]; omega
  text := by
    obtain ⟨text', htext', hout⟩ := h.text
    have hlt := h.next
    rw [hnext, hplace.1, hplace.2] at htext'
    rw [hnext] at hlt
    refine ⟨text ++ text', ?_, ?_⟩
    · rw [hlive, lines_succ table (by omega), hsome]
      exact renderTimelineJsonl_append _ _ (renderTimelineJsonl_singleton _ _ htext) htext'
    · rw [hwrites, hout, encodeUtf8_append]
  settled q c' hlo hhi hc := by
    rw [hlive] at hhi
    by_cases hq : q = live.nextTimelineSequence
    · subst hq
      rw [hsome] at hc
      cases hc
      exact hdrained
    · exact h.settled q c' (by omega) hhi hc

namespace LiveSpoolCapture

/-- What writing one line does, where it raises nothing. -/
theorem writeTimelineChunk_ok {chunk : CapturedChunk} (h : (live.writeTimelineChunk chunk).error = none) :
    ∃ text, renderTimelineEvent chunk live.sessionId live.connectionId = .ok text ∧
      output (live.writeTimelineChunk chunk).writes .timeline = encodeUtf8 text ∧
      (live.writeTimelineChunk chunk).live.pending = live.pending ∧
      (live.writeTimelineChunk chunk).live.skipped = live.skipped ∧
      (live.writeTimelineChunk chunk).live.sessionId = live.sessionId ∧
      (live.writeTimelineChunk chunk).live.connectionId = live.connectionId := by
  unfold writeTimelineChunk at h ⊢
  split at h
  · cases h
  · next text htext =>
    rw [htext]
    exact ⟨text, rfl, by simp [LiveCall.andThen, put, output], rfl, rfl, rfl, rfl⟩

/-- A flush writes the lines of the table in order, as long as the copies it writes are up to date;
a forced one writes all of them. -/
theorem flushLoop_flushed {force : Bool}
    (hrelated : ∀ q c copy, related q c copy →
      force = true ∨ copy.localWriteDrainCompleted ≠ none → copy = c) (fuel : Nat)
    (live : LiveSpoolCapture) (h : Aligned table related live)
    (herror : (flushLoop force fuel live).error = none) :
    Aligned table related (flushLoop force fuel live).live ∧
    Flushed table force live (flushLoop force fuel live) ∧
    (force = true → live.maximumSequence + 1 - live.nextTimelineSequence ≤ fuel →
      (flushLoop force fuel live).live.nextTimelineSequence = live.maximumSequence + 1) := by
  induction fuel generalizing live with
  | zero =>
    refine ⟨h, .refl table force live, fun _ hfuel => ?_⟩
    have := h.next
    simp only [flushLoop]
    omega
  | succ fuel ih =>
    simp only [flushLoop] at herror ⊢
    by_cases hle : live.nextTimelineSequence ≤ live.maximumSequence
    swap
    · rw [if_neg hle]
      have := h.next
      exact ⟨h, .refl table force live, fun _ _ => by dsimp only; omega⟩
    rw [if_pos hle] at herror ⊢
    by_cases hskip : live.nextTimelineSequence ∈ live.skipped
    · rw [if_pos hskip] at herror ⊢
      have hnone := (h.skipped _ hskip).1
      have hpend : live.pending.lookup live.nextTimelineSequence = none := by
        cases hl : live.pending.lookup live.nextTimelineSequence with
        | none => rfl
        | some copy =>
          obtain ⟨-, -, c, hc, -⟩ := h.pending _ copy hl
          rw [hnone] at hc
          cases hc
      have h' : Aligned table related
          { live with
            skipped := live.skipped.filter (· ≠ live.nextTimelineSequence)
            nextTimelineSequence := live.nextTimelineSequence + 1 } :=
        h.advance hle rfl rfl (fun q hq => by simp [hq]) (by simp) (fun q _ => rfl) hpend
      obtain ⟨ha, hf, hall⟩ := ih _ h' herror
      exact ⟨ha, hf.skip hnone rfl ⟨rfl, rfl⟩,
        fun hforce hfuel => hall hforce (by dsimp only; omega)⟩
    · rw [if_neg hskip] at herror ⊢
      have hwindow := h.window _ le_rfl hle
      cases hl : live.pending.lookup live.nextTimelineSequence with
      | none =>
        exact absurd hl (hwindow.2 fun hn => hskip (hwindow.1 hn))
      | some copy =>
        obtain ⟨-, -, c, hc, hcopy⟩ := h.pending _ copy hl
        simp only [hl] at herror ⊢
        by_cases hwait : (!force && copy.localWriteDrainCompleted.isNone) = true
        · rw [if_pos hwait]
          refine ⟨h, .refl table force live, fun hforce => ?_⟩
          simp [hforce] at hwait
        · rw [if_neg hwait] at herror ⊢
          have hready : force = true ∨ copy.localWriteDrainCompleted ≠ none := by
            cases force with
            | true => exact .inl rfl
            | false => exact .inr fun hn => hwait (by simp [hn])
          have heq := hrelated _ c copy hcopy hready
          subst heq
          obtain ⟨hwrite, hrest, hlive, hwrites⟩ := LiveCall.andThen_error herror
          obtain ⟨text, htext, hout, hp, hs, hids⟩ := writeTimelineChunk_ok hwrite
          have hmax := (writeTimelineChunk_timelineOnly
            { live with pending := live.pending.filter (·.1 ≠ live.nextTimelineSequence) }
            copy).maximumSequence
          generalize writeTimelineChunk
            { live with pending := live.pending.filter (·.1 ≠ live.nextTimelineSequence) } copy =
              written at *
          have h' : Aligned table related
              { written.live with nextTimelineSequence := live.nextTimelineSequence + 1 } :=
            h.advance hle rfl hmax (fun q _ => by dsimp only; rw [hs])
              (by dsimp only; rw [hs]; exact hskip)
              (fun q hq => by dsimp only; rw [hp, lookup_filter_ne, if_neg hq])
              (by dsimp only; rw [hp, lookup_filter_ne, if_pos rfl])
          obtain ⟨ha, hf, hall⟩ := ih _ h' hrest
          rw [hlive]
          refine ⟨ha, hf.write hc hready htext rfl hids hlive ?_, fun hforce hfuel => ?_⟩
          · rw [hwrites, output_append, hout]
          · refine (hall hforce ?_).trans (by dsimp only; rw [hmax])
            dsimp only
            rw [hmax]
            dsimp only
            omega

theorem flushReadyTimeline_flushed {force : Bool}
    (hrelated : ∀ q c copy, related q c copy →
      force = true ∨ copy.localWriteDrainCompleted ≠ none → copy = c)
    (h : Aligned table related live) (herror : (live.flushReadyTimeline force).error = none) :
    Aligned table related (live.flushReadyTimeline force).live ∧
    Flushed table force live (live.flushReadyTimeline force) :=
  let ⟨ha, hf, _⟩ := flushLoop_flushed hrelated _ live h herror
  ⟨ha, hf⟩

/-- Writing the RAW bytes leaves the timeline alone. -/
theorem appendRaw_live (live : LiveSpoolCapture) (sequence : Nat) (direction : StreamDirection)
    (data : Bytes) :
    (live.appendRaw sequence direction data).live.nextTimelineSequence = live.nextTimelineSequence ∧
    (live.appendRaw sequence direction data).live.maximumSequence =
      max live.maximumSequence sequence ∧
    (live.appendRaw sequence direction data).live.skipped = live.skipped ∧
    (live.appendRaw sequence direction data).live.pending = live.pending ∧
    (live.appendRaw sequence direction data).live.sessionId = live.sessionId ∧
    (live.appendRaw sequence direction data).live.connectionId = live.connectionId := by
  unfold appendRaw LiveCall.andThen
  by_cases hd : data = []
  · simp [hd]
  · simp [hd, put]

theorem appendChunk_live (live : LiveSpoolCapture) (sequence : Nat) (data : Bytes)
    (chunk : Option CapturedChunk) :
    (live.appendChunk sequence data chunk).live.nextTimelineSequence = live.nextTimelineSequence ∧
    (live.appendChunk sequence data chunk).live.sessionId = live.sessionId ∧
    (live.appendChunk sequence data chunk).live.connectionId = live.connectionId ∧
    (live.appendChunk sequence data chunk).writes = [] := by
  cases chunk with
  | none => exact ⟨rfl, rfl, rfl, rfl⟩
  | some chunk =>
    simp only [appendChunk]
    split
    · exact ⟨rfl, rfl, rfl, rfl⟩
    split <;> exact ⟨rfl, rfl, rfl, rfl⟩

/-- An append adds the next number to the table's events, and flushes. -/
theorem append_flushed
    (hrelated : ∀ q c copy, related q c copy → copy.localWriteDrainCompleted ≠ none → copy = c)
    (hrefl : ∀ q c, related q c c) (h : Aligned table related live)
    {sequence : Nat} {direction : StreamDirection} {data : Bytes} {chunk : Option CapturedChunk}
    (hchunk : table sequence = chunk) (hbare : ∀ c, chunk = some c → c.data = [])
    (herror : (live.append sequence direction data chunk).error = none) :
    Aligned table related (live.append sequence direction data chunk).live ∧
    Flushed table false live (live.append sequence direction data chunk) := by
  obtain ⟨hclosed, hseq, -, -, -⟩ := append_ok herror
  unfold append at herror ⊢
  rw [if_neg (by simp [hclosed]), if_neg (by simpa using hseq)] at herror ⊢
  obtain ⟨h12, h3, hlive, hwrites⟩ := LiveCall.andThen_error herror
  obtain ⟨-, h2, hlive', hwrites'⟩ := LiveCall.andThen_error h12
  rw [hlive'] at h3 hlive hwrites
  obtain ⟨hn, hm, hs, hp, hsid, hcid⟩ := live.appendRaw_live sequence direction data
  have hmid : Aligned table related
      ((live.appendRaw sequence direction data).live.appendChunk sequence data chunk).live := by
    subst hseq
    cases chunk with
    | none =>
      refine h.skip hchunk hn ?_ (by simp only [appendChunk]; rw [hs]) hp
      simp only [appendChunk]
      rw [hm]
      exact Nat.max_eq_right (Nat.le_succ _)
    | some c =>
      have hdata := hbare c rfl
      have hc : ({ c with data := [] } : CapturedChunk) = c := by
        cases c
        cases hdata
        rfl
      simp only [appendChunk] at h2 ⊢
      split at h2
      · cases h2
      next h2' =>
      split at h2
      · cases h2
      next h2'' =>
      rw [if_neg h2', if_neg h2'']
      refine h.hold hchunk (hrefl _ c) hn ?_ hs fun q => ?_
      · dsimp only
        rw [hm]
        exact Nat.max_eq_right (Nat.le_succ _)
      · dsimp only
        rw [hc, hp, List.lookup_append, lookup_filter_ne, List.lookup_cons]
        by_cases hq : q = live.maximumSequence + 1
        · simp [hq]
        · simp [hq, show (q == live.maximumSequence + 1) = false by simpa using hq]
  obtain ⟨ha, hf⟩ := flushReadyTimeline_flushed
    (fun q c copy hr hd => hrelated q c copy hr (hd.resolve_left Bool.false_ne_true)) hmid h3
  rw [hlive]
  obtain ⟨hn', hsid', hcid', hnothing⟩ := appendChunk_live (live.appendRaw sequence direction data).live sequence
    data chunk
  refine ⟨ha, hf.congr (hn'.trans hn) (hsid'.trans hsid) (hcid'.trans hcid)
    (congrArg (·.nextTimelineSequence) hlive) ?_⟩
  rw [hwrites, hwrites', output_append, output_append, appendRaw_output,
    if_neg (artifact_ne_timeline direction), hnothing]
  rfl

/-- A drain settles its event, and flushes. -/
theorem markLocalWriteDrain_flushed {related' : Nat → CapturedChunk → CapturedChunk → Prop}
    (hrelated : ∀ q c copy, related' q c copy → copy.localWriteDrainCompleted ≠ none → copy = c)
    (h : Aligned table related live) {sequence : Nat} {completed : Bool} {drainUnixNs : Int}
    {error : Option Text}
    (hother : ∀ q c copy, q ≠ sequence → related q c copy → related' q c copy)
    (hsame : ∀ c copy, table sequence = some c → related sequence c copy →
      related' sequence c (copy.drained completed drainUnixNs error))
    (herror : (live.markLocalWriteDrain sequence completed drainUnixNs error).error = none) :
    Aligned table related' (live.markLocalWriteDrain sequence completed drainUnixNs error).live ∧
    Flushed table false live (live.markLocalWriteDrain sequence completed drainUnixNs error) := by
  unfold markLocalWriteDrain at herror ⊢
  split at herror
  · cases herror
  next hclosed =>
  rw [if_neg hclosed]
  split at herror
  · next hnone =>
    rw [if_pos hnone]
    refine ⟨h.rewrite (f := fun _ copy => copy) (fun q c copy _ hl hr => hother q c copy ?_ hr) rfl
      rfl rfl fun q => by simp, .refl table false live⟩
    rintro rfl
    rw [hl] at hnone
    cases hnone
  · next hsome =>
    rw [if_neg hsome]
    have hmid : Aligned table related' { live with
        pending := live.pending.map fun entry =>
          if entry.1 = sequence then (entry.1, entry.2.drained completed drainUnixNs error)
          else entry } := by
      refine h.rewrite (f := fun q copy =>
        if q = sequence then copy.drained completed drainUnixNs error else copy)
        (fun q c copy hc _ hr => ?_) rfl rfl rfl fun q => ?_
      · split
        · next heq => subst heq; exact hsame c copy hc hr
        · next hne => exact hother q c copy hne hr
      · refine (lookup_map_update live.pending (·.drained completed drainUnixNs error) sequence
          q).trans ?_
        split <;> simp
    obtain ⟨ha, hf⟩ := flushReadyTimeline_flushed
      (fun q c copy hr hd => hrelated q c copy hr (hd.resolve_left Bool.false_ne_true)) hmid herror
    exact ⟨ha, hf.congr rfl rfl rfl rfl rfl⟩

/-- Closing the capture writes the rest of the table. -/
theorem syncAndClose_flushed (hrelated : ∀ q c copy, related q c copy → copy = c)
    (h : Aligned table related live) (hclosed : live.closed = false)
    (herror : live.syncAndClose.error = none) :
    Flushed table true live live.syncAndClose ∧
    live.syncAndClose.live.nextTimelineSequence = live.maximumSequence + 1 := by
  unfold syncAndClose at herror ⊢
  rw [if_neg (by simp [hclosed])] at herror ⊢
  obtain ⟨hflush, -, hlive, hwrites⟩ := LiveCall.andThen_error herror
  obtain ⟨-, hf, hall⟩ := flushLoop_flushed (fun q c copy hr _ => hrelated q c copy hr) _ live h hflush
  refine ⟨hf.congr rfl rfl rfl (congrArg (·.nextTimelineSequence) hlive) ?_, ?_⟩
  · rw [hwrites]
    simp [flushReadyTimeline]
  · rw [hlive]
    exact hall rfl le_rfl

end LiveSpoolCapture

end RchProxy
