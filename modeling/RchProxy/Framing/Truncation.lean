import RchProxy.Framing.Reached
import RchProxy.Framing.Tiling

/-!
# The limits on events and issues

Both limits act on the log alone: the tokens of a run do not depend on them (`slicesOf_congr`), so a
limited run and one without the limit are two readings of one list of tokens. The event limit only
truncates (`event_limit_only_truncates`). The issue limit leaves issues out, and `finish` puts a
summary in the last slot; the issue it displaces there is missing from the count
(`omitted_counted_iff`).
-/

namespace RchProxy

open Py

namespace FramerLimits

/-- The limits with another `max_events`. -/
def withMaxEvents (lim : FramerLimits) (k : Nat) (hk : 1 ≤ k) : FramerLimits :=
  { lim with maxEvents := k, events_pos := hk }

/-- The limits with another `max_issues`. -/
def withMaxIssues (lim : FramerLimits) (k : Nat) (hk : 1 ≤ k) : FramerLimits :=
  { lim with maxIssues := k, issues_pos := hk }

end FramerLimits

/-! ## The result of a reached state -/

namespace Framer

variable {lim : FramerLimits} {chunks : List Bytes} {f : Framer}

/-- The tokens of a run over `chunks`. -/
def tokensOf (lim : FramerLimits) (chunks : List Bytes) : List Token :=
  runTokens lim.maxDataLength (slicesOf lim [] chunks)

theorem slicesOf_withMaxIssues {k : Nat} (hk : 1 ≤ k) (carry : Bytes) :
    slicesOf (lim.withMaxIssues k hk) carry chunks = slicesOf lim carry chunks :=
  slicesOf_congr (lim.withMaxIssues k hk) lim rfl rfl carry chunks

theorem tokensOf_withMaxIssues {k : Nat} (hk : 1 ≤ k) :
    tokensOf (lim.withMaxIssues k hk) chunks = tokensOf lim chunks :=
  congrArg (runTokens lim.maxDataLength) (slicesOf_withMaxIssues hk [])

theorem tokensOf_withMaxEvents {k : Nat} (hk : 1 ≤ k) :
    tokensOf (lim.withMaxEvents k hk) chunks = tokensOf lim chunks :=
  congrArg (runTokens lim.maxDataLength)
    (slicesOf_congr (lim.withMaxEvents k hk) lim rfl rfl [] chunks)

theorem Reached.finish (h : Reached lim true chunks f) :
    (f.finish lim).1 = resultOf lim chunks.flatten.length (tokensOf lim chunks) := by
  rw [← h.flatten]
  exact finish_spec ⟨h.ready, h.buffered, h.kept rfl⟩

theorem frameChunks_tokens (lim : FramerLimits) (chunks : List Bytes) :
    frameChunks lim true chunks =
      .ok (resultOf lim chunks.flatten.length (tokensOf lim chunks)) := by
  obtain ⟨f, hf, h⟩ := feedAll_reached lim true chunks
  rw [frameChunks, hf]
  exact congrArg Except.ok h.finish

/-- A carry ends the run with at most one token, a truncated frame. -/
theorem scan_final_of_carry {m : Nat} {c : Bytes} (h : Token.next m false c = none) :
    (c = [] ∧ (scan m true c).1 = []) ∨
      (c ≠ [] ∧ ∃ detail, (scan m true c).1 = [.skip .truncatedFrame c detail]) := by
  have stop : ∀ {detail : String}, Token.next m true c = some (.skip .truncatedFrame c detail) →
      (scan m true c).1 = [.skip .truncatedFrame c detail] := by
    intro detail hn
    rw [scan_some hn]
    simp [Token.raw, scan_none (Token.next_nil m true)]
  cases c with
  | nil => exact .inl ⟨rfl, by rw [scan_none rfl]⟩
  | cons b t =>
    refine .inr ⟨List.cons_ne_nil b t, ?_⟩
    rcases Token.next_eq_none h with h0 | ⟨hb, -⟩
    · cases h0
    obtain rfl : b = STX := by simpa using hb
    cases Header.of m t with
    | short h5 => exact ⟨_, stop (by rw [Token.next_short _ _ h5]; rfl)⟩
    | malformed h5 hd => rw [Token.next_malformed _ _ h5 hd] at h; cases h
    | oversize h5 hd ho => rw [Token.next_oversize _ _ h5 hd ho] at h; cases h
    | partial_ h5 hd ho hs => exact ⟨_, stop (by rw [Token.next_partial _ _ h5 hd ho hs]; rfl)⟩
    | unterminated h5 hd ho hs he =>
      rw [Token.next_unterminated _ _ h5 hd hs ho he] at h; cases h
    | frame h5 hd ho hs he => rw [Token.next_frame _ _ h5 hd hs ho he] at h; cases h

/-- What `finish` adds to the log of a state between two feeds. -/
theorem Reached.process {retain : Bool} (h : Reached lim retain chunks f) :
    (f.buffered = [] ∧ (f.process lim true).toFramerLog = f.toFramerLog) ∨
      (f.buffered ≠ [] ∧ ∃ detail, (f.process lim true).toFramerLog =
        f.toFramerLog.record lim (.skip .truncatedFrame f.buffered detail)) := by
  have hp := process_spec lim true h.ready.within
  have hcarry : Token.next lim.maxDataLength false f.buffered = none := by
    rw [h.buffered]
    exact scanSlices_carry _ rfl
  rcases scan_final_of_carry hcarry with ⟨hnil, h0⟩ | ⟨hne, detail, h1⟩
  · exact .inl ⟨hnil, by rw [hp.log, h0]; rfl⟩
  · exact .inr ⟨hne, detail, by rw [hp.log, h1]; rfl⟩

/-- The result of a framer that forgot its history has the issue of its carry, and no other. -/
theorem Reached.finish_forgot (h : Reached lim false chunks f) :
    (f.finish lim).1.omittedIssueCount = 0 ∧
      (f.finish lim).1.issues.length = (if f.buffered = [] then 0 else 1) ∧
      ∀ i ∈ (f.finish lim).1.issues, i.code = .truncatedFrame := by
  have hissues : f.issues = [] := by rw [← h.forgot rfl]; rfl
  have homit : f.omittedIssueCount = 0 := by rw [← h.forgot rfl]; rfl
  have hpos := lim.issues_pos
  have hfin : (f.finish lim).1.omittedIssueCount = (f.process lim true).omittedIssueCount ∧
      ((f.process lim true).omittedIssueCount = 0 →
        (f.finish lim).1.issues = (f.process lim true).issues) := by
    simp only [Framer.finish, h.ready.open_, Bool.false_eq_true, if_false]
    exact ⟨(finalize_events lim _ _).2.2.2.2, fun h0 => by
      rw [FramerLog.finalizeOmittedIssues, if_pos h0]⟩
  rcases h.process with ⟨hnil, hlog⟩ | ⟨hne, detail, hlog⟩
  · have ho : (f.process lim true).omittedIssueCount = 0 := by rw [hlog]; exact homit
    have hi : (f.process lim true).issues = [] := by rw [hlog]; exact hissues
    rw [hfin.1, hfin.2 ho, hi, if_pos hnil]
    exact ⟨ho, rfl, by simp⟩
  · have hrec : f.toFramerLog.record lim (.skip .truncatedFrame f.buffered detail) =
        { f.toFramerLog with
          bufferOffset := f.bufferOffset + f.buffered.length
          issues := [skipIssue lim f.bufferOffset .truncatedFrame f.buffered detail] } := by
      have hroom : 0 < lim.maxIssues := hpos
      simp only [FramerLog.record, FramerLog.appendIssue, hissues, List.length_nil, if_pos hroom,
        List.nil_append]
    have ho : (f.process lim true).omittedIssueCount = 0 := by rw [hlog, hrec]; exact homit
    have hi : (f.process lim true).issues =
        [skipIssue lim f.bufferOffset .truncatedFrame f.buffered detail] := by rw [hlog, hrec]
    rw [hfin.1, hfin.2 ho, hi, if_neg hne]
    exact ⟨ho, rfl, fun i hmem => by rw [List.mem_singleton.mp hmem]; rfl⟩

end Framer

/-! ## Issues are left out of a full list only -/

/-- Issues have been left out only if the list is full. -/
def FramerLog.Full (lim : FramerLimits) (l : FramerLog) : Prop :=
  l.omittedIssueCount ≠ 0 → lim.maxIssues ≤ l.issues.length

namespace FramerLog

variable {lim : FramerLimits} {l : FramerLog}

theorem Full.appendIssue (h : l.Full lim) (i : FramingIssue) : (l.appendIssue lim i).Full lim := by
  unfold FramerLog.appendIssue
  split
  · intro ho
    have := h ho
    simp only [List.length_append]
    omega
  · next hi => exact fun _ => Nat.not_lt.mp hi

theorem Full.noteEventLimit (h : l.Full lim) (o : Nat) : (l.noteEventLimit lim o).Full lim := by
  unfold FramerLog.noteEventLimit
  split
  · exact h
  · exact Full.appendIssue (l := { l with eventsTruncated := true }) h _

theorem Full.appendEvent (h : l.Full lim) (e : StreamEvent) : (l.appendEvent lim e).Full lim := by
  unfold FramerLog.appendEvent
  split
  · exact h
  · exact h.noteEventLimit _

theorem Full.record (h : l.Full lim) (t : Token) : (l.record lim t).Full lim := by
  cases t with
  | ack =>
    exact Full.appendEvent (l := { l with
      bufferOffset := l.bufferOffset + 1
      eventCount := l.eventCount + 1
      ackCount := l.ackCount + 1 }) h _
  | frame raw =>
    have he := Full.appendEvent (l := { l with
      bufferOffset := l.bufferOffset + raw.length
      eventCount := l.eventCount + 1
      frameCount := l.frameCount + 1 }) h
        (.frame (RCHFrame.ofRaw (l.eventCount + 1) (l.frameCount + 1) l.bufferOffset raw))
    simp only [FramerLog.record]
    split
    · exact he
    · exact he.appendIssue _
  | skip code raw detail =>
    exact Full.appendIssue (l := { l with bufferOffset := l.bufferOffset + raw.length }) h _

theorem Full.recordAll (h : l.Full lim) (ts : List Token) : (l.recordAll lim ts).Full lim := by
  induction ts generalizing l with
  | nil => exact h
  | cons t ts ih => exact ih (h.record t)

/-- The summary takes the last slot of a full list, whatever stands there. -/
theorem Full.finalize (h : l.Full lim) (n : Nat) :
    (l.finalizeOmittedIssues lim n).Full lim ∧
      (l.finalizeOmittedIssues lim n).finalizeOmittedIssues lim n =
        l.finalizeOmittedIssues lim n := by
  by_cases h0 : l.omittedIssueCount = 0
  · have hl : l.finalizeOmittedIssues lim n = l := by rw [finalizeOmittedIssues, if_pos h0]
    rw [hl]
    exact ⟨h, hl⟩
  have hfull := h h0
  have hpos := lim.issues_pos
  have hl : l.finalizeOmittedIssues lim n =
      { l with issues := l.issues.dropLast ++ [omittedSummary n l.omittedIssueCount] } := by
    simp only [finalizeOmittedIssues, if_neg h0, if_pos hfull]
    rfl
  have hlen : lim.maxIssues ≤
      (l.issues.dropLast ++ [omittedSummary n l.omittedIssueCount]).length := by
    simp only [List.length_append, List.length_dropLast, List.length_singleton]
    omega
  rw [hl]
  refine ⟨fun _ => hlen, ?_⟩
  simp only [finalizeOmittedIssues, if_neg h0, if_pos hlen, List.dropLast_concat]
  rfl

end FramerLog

namespace Framer

variable {lim : FramerLimits} {f : Framer}

/-- `finish`, called `n` times. -/
def finishTimes (lim : FramerLimits) : Nat → Framer → Framer
  | 0, f => f
  | n + 1, f => finishTimes lim n (f.finish lim).2

/-- A second `finish` changes nothing. -/
theorem finish_finish (hw : f.Within) (h : f.toFramerLog.Full lim) :
    (f.finish lim).2.Within ∧ (f.finish lim).2.toFramerLog.Full lim ∧
      (f.finish lim).2.finish lim = f.finish lim := by
  have main : ∀ g : Framer, g.Within → g.toFramerLog.Full lim → g.finished = true →
      f.finish lim = g.finish lim → (f.finish lim).2.Within ∧
        (f.finish lim).2.toFramerLog.Full lim ∧ (f.finish lim).2.finish lim = f.finish lim := by
    intro g hgw hg hfin heq
    have hout : (g.finish lim).2 =
        { g with toFramerLog := g.toFramerLog.finalizeOmittedIssues lim g.bytesSeen } := by
      simp [finish, hfin]
    obtain ⟨hfull, hagain⟩ := hg.finalize g.bytesSeen
    rw [heq, hout]
    refine ⟨hgw, hfull, ?_⟩
    simp only [finish, hfin, if_true, hagain]
  cases hf : f.finished with
  | true => exact main f hw h hf rfl
  | false =>
    have hp := process_spec lim true hw
    refine main { f.process lim true with finished := true } hp.within ?_ rfl ?_
    · change (f.process lim true).toFramerLog.Full lim
      rw [hp.log]
      exact h.recordAll _
    · simp [finish, hf]

theorem finishTimes_finish (hw : f.Within) (h : f.toFramerLog.Full lim) (n : Nat) :
    (f.finishTimes lim n).finish lim = f.finish lim := by
  induction n generalizing f with
  | zero => rfl
  | succ n ih =>
    obtain ⟨hw', h', heq⟩ := finish_finish hw h
    rw [finishTimes, ih hw' h', heq]

theorem Reached.full {retain : Bool} {chunks : List Bytes} (h : Reached lim retain chunks f) :
    f.toFramerLog.Full lim := by
  cases retain with
  | true =>
    rw [h.kept rfl]
    exact FramerLog.Full.recordAll (fun h0 => absurd rfl h0) _
  | false =>
    rw [← h.forgot rfl]
    exact fun h0 => absurd rfl h0

end Framer

/-! ## Counting what is left out -/

/-- The result accounts for `n` issues: those it shows, its summary apart, and those it left out;
it shows at most `m`, and a summary exactly if some are missing. -/
structure CountedExactly (m n : Nat) (r : FramingResult) : Prop where
  total : (r.issues.filter (·.code ≠ .issueLimitExceeded)).length + r.omittedIssueCount = n
  bounded : r.issues.length ≤ m
  summary : (∃ i ∈ r.issues, i.code = .issueLimitExceeded) ↔ 0 < r.omittedIssueCount

/-- A complete list of issues without a summary is counted. -/
theorem countedExactly_of_complete {m : Nat} {r : FramingResult} (ho : r.omittedIssueCount = 0)
    (hm : r.issues.length ≤ m) (hc : ∀ i ∈ r.issues, i.code ≠ .issueLimitExceeded) :
    CountedExactly m r.issues.length r := by
  refine ⟨?_, hm, ?_⟩
  · rw [ho, List.filter_eq_self.mpr fun i hi => by simpa using hc i hi, Nat.add_zero]
  · rw [ho]
    exact ⟨fun ⟨i, hi, hcode⟩ => absurd hcode (hc i hi), fun h => absurd h (Nat.lt_irrefl 0)⟩

/-- No token is diagnosed with the summary's code. -/
theorem issuesOf_code_ne (lim : FramerLimits) (ec o : Nat) {ts : List Token}
    (h : ∀ t ∈ ts, t.Proper) : ∀ i ∈ issuesOf lim ec o ts, i.code ≠ .issueLimitExceeded := by
  intro i hi hcode
  obtain ⟨us, t, vs, rfl, hmem⟩ := mem_issuesOf hi
  rcases mem_tokenIssues hmem with rfl | ⟨raw, rfl, -, rfl⟩ | ⟨code, raw, detail, rfl, rfl⟩
  · cases hcode
  · cases hcode
  · have hgap := (h (.skip code raw detail) (by simp)).2 _ _ _ rfl
    rw [show code = .issueLimitExceeded from hcode] at hgap
    cases hgap

/-- The issue the summary displaces is missing from the count. -/
theorem resultOf_counted_iff (lim : FramerLimits) (n : Nat) {ts : List Token}
    (h : ∀ t ∈ ts, t.Proper) :
    CountedExactly lim.maxIssues (issuesOf lim 0 0 ts).length (resultOf lim n ts) ↔
      (issuesOf lim 0 0 ts).length ≤ lim.maxIssues := by
  have hcode := issuesOf_code_ne lim 0 0 h
  obtain ⟨-, -, -, homit⟩ := resultOf_totals lim n ts
  have hissues := resultOf_issues lim n ts
  constructor
  · intro hc
    by_contra hlt
    rw [if_neg hlt] at hissues
    have hfilter : ((resultOf lim n ts).issues.filter
        (·.code ≠ .issueLimitExceeded)).length ≤ lim.maxIssues - 1 := by
      rw [hissues, List.filter_append]
      have hlast : [omittedSummary n ((issuesOf lim 0 0 ts).length - lim.maxIssues)].filter
          (·.code ≠ .issueLimitExceeded) = [] := rfl
      rw [hlast, List.append_nil]
      exact Nat.le_trans (List.length_filter_le _ _) (List.length_take_le _ _)
    have htotal := hc.total
    have hpos := lim.issues_pos
    rw [homit] at htotal
    omega
  · intro hle
    rw [if_pos hle] at hissues
    have := countedExactly_of_complete (m := lim.maxIssues) (r := resultOf lim n ts)
      (by rw [homit]; omega) (by rw [hissues]; exact hle) (by rw [hissues]; exact hcode)
    rwa [hissues] at this

/-- The limits on the number of issues play no part in what is diagnosed. -/
theorem issuesOf_withMaxIssues (lim : FramerLimits) {k : Nat} (hk : 1 ≤ k) (ec o : Nat)
    (ts : List Token) : issuesOf (lim.withMaxIssues k hk) ec o ts = issuesOf lim ec o ts := by
  induction ts generalizing ec o with
  | nil => rfl
  | cons t ts ih =>
    cases t with
    | ack => simp only [issuesOf, ih]; rfl
    | frame raw => simp only [issuesOf, ih]; rfl
    | skip code raw detail => simp only [issuesOf, ih]; rfl

/-- **Omitted diagnostics are counted exactly when none is omitted.** Let a run without an issue
limit have `N` issues. With `max_issues = m`, the result of `finish`, called any number of times,
accounts for them exactly if `N ≤ m`: beyond that one issue is neither shown nor counted. -/
theorem omitted_counted_iff (lim : FramerLimits) {m k : Nat} (hm : 1 ≤ m) (hk : 1 ≤ k)
    (retain : Bool) (chunks : List Bytes) :
    ∃ f g, Framer.feedAll (lim.withMaxIssues m hm) retain {} chunks = .ok f ∧
      Framer.feedAll (lim.withMaxIssues k hk) retain {} chunks = .ok g ∧
      ((g.finish (lim.withMaxIssues k hk)).1.omittedIssueCount = 0 → ∀ j,
        (CountedExactly m (g.finish (lim.withMaxIssues k hk)).1.issues.length
          ((f.finishTimes (lim.withMaxIssues m hm) j).finish (lim.withMaxIssues m hm)).1 ↔
        (g.finish (lim.withMaxIssues k hk)).1.issues.length ≤ m)) := by
  obtain ⟨f, hf, hrf⟩ := Framer.feedAll_reached (lim.withMaxIssues m hm) retain chunks
  obtain ⟨g, hg, hrg⟩ := Framer.feedAll_reached (lim.withMaxIssues k hk) retain chunks
  refine ⟨f, g, hf, hg, fun hall j => ?_⟩
  rw [Framer.finishTimes_finish hrf.ready.within hrf.full]
  cases retain with
  | true =>
    have hproper : ∀ t ∈ Framer.tokensOf lim chunks, t.Proper := runTokens_proper _ _
    rw [hrg.finish, Framer.tokensOf_withMaxIssues] at hall ⊢
    rw [hrf.finish, Framer.tokensOf_withMaxIssues]
    obtain ⟨-, -, -, homit⟩ := resultOf_totals (lim.withMaxIssues k hk) chunks.flatten.length
      (Framer.tokensOf lim chunks)
    rw [hall] at homit
    rw [resultOf_issues, if_pos (by omega), issuesOf_withMaxIssues,
      ← issuesOf_withMaxIssues lim hm]
    exact resultOf_counted_iff (lim.withMaxIssues m hm) _ hproper
  | false =>
    -- nothing but the carry is diagnosed by `finish`, in both runs
    obtain ⟨ho, hlen, hcode⟩ := hrf.finish_forgot
    obtain ⟨-, hlen', -⟩ := hrg.finish_forgot
    have hbuf : g.buffered = f.buffered := by
      rw [hrg.buffered, hrf.buffered, Framer.slicesOf_withMaxIssues,
        Framer.slicesOf_withMaxIssues]
      rfl
    rw [hlen', hbuf, ← hlen]
    have hle : (f.finish (lim.withMaxIssues m hm)).1.issues.length ≤ m := by
      rw [hlen]; split <;> omega
    refine iff_of_true (countedExactly_of_complete ho hle fun i hi => ?_) hle
    rw [hcode i hi]
    exact nofun

/-- Two stray bytes in two chunks, and room for both issues. -/
theorem omitted_counted_iff_two :
    ∃ f g : Framer, Framer.feedAll (FramerLimits.default.withMaxIssues 2 (by decide)) true {}
        [[0x41], [0x42]] = .ok f ∧
      Framer.feedAll (FramerLimits.default.withMaxIssues 4 (by decide)) true {}
        [[0x41], [0x42]] = .ok g ∧
      (g.finish (FramerLimits.default.withMaxIssues 4 (by decide))).1.issues.length = 2 ∧
      CountedExactly 2 2 (f.finish (FramerLimits.default.withMaxIssues 2 (by decide))).1 := by
  obtain ⟨f, g, hf, hg, h⟩ := omitted_counted_iff .default (m := 2) (k := 4) (by decide)
    (by decide) true [[0x41], [0x42]]
  have hg' := hg
  rw [show Framer.feedAll (FramerLimits.default.withMaxIssues 4 (by decide)) true {}
    [[0x41], [0x42]] = .ok _ from rfl] at hg'
  cases hg'
  exact ⟨f, _, hf, hg, rfl, (h rfl 0).mpr (by decide)⟩

/-- Two stray bytes in two chunks, and room for one issue: the summary takes the slot of the first
issue and says that one was omitted. -/
theorem displaced_issue_not_counted :
    ∃ f g : Framer, Framer.feedAll (FramerLimits.default.withMaxIssues 1 (by decide)) true {}
        [[0x41], [0x42]] = .ok f ∧
      Framer.feedAll (FramerLimits.default.withMaxIssues 4 (by decide)) true {}
        [[0x41], [0x42]] = .ok g ∧
      (g.finish (FramerLimits.default.withMaxIssues 4 (by decide))).1.omittedIssueCount = 0 ∧
      (g.finish (FramerLimits.default.withMaxIssues 4 (by decide))).1.issues.length = 2 ∧
      (f.finish (FramerLimits.default.withMaxIssues 1 (by decide))).1.omittedIssueCount = 1 ∧
      ¬ CountedExactly 1 2 (f.finish (FramerLimits.default.withMaxIssues 1 (by decide))).1 := by
  refine ⟨_, _, rfl, rfl, rfl, rfl, rfl, fun h => ?_⟩
  have := h.total
  revert this
  decide

/-! ## Dropping events -/

/-- `r` is `u` cut down to `k` events: everything else is the same, but for one issue at the first
event that was dropped. -/
structure OnlyTruncated (lim : FramerLimits) (k : Nat) (r u : FramingResult) : Prop where
  events : r.events = u.events.take k
  bytesSeen : r.bytesSeen = u.bytesSeen
  frames : r.totalFrameCount = u.totalFrameCount
  acks : r.totalAckCount = u.totalAckCount
  truncated : r.eventsTruncated = true ↔ k < u.events.length
  issues : r.issues.filter (·.code ≠ .eventLimitExceeded) = u.issues
  limit : r.issues.filter (·.code = .eventLimitExceeded) =
    ((u.events.drop k).take 1).map fun e => eventLimitIssue lim e.streamOffset

section
variable (lim : FramerLimits) {ts : List Token} (hts : ∀ t ∈ ts, t.Proper)
include hts

/-- Without its limit a run has the same issues, those of the limit apart. -/
theorem issuesOf_filter_other {n : Nat} (hn : 1 ≤ n) (ec o : Nat)
    (hle : ec + eventCountOf ts ≤ n) :
    (issuesOf lim ec o ts).filter (·.code ≠ .eventLimitExceeded) =
      issuesOf (lim.withMaxEvents n hn) ec o ts := by
  induction ts generalizing ec o with
  | nil => rfl
  | cons t ts ih =>
    have hts' : ∀ u ∈ ts, u.Proper := fun u hu => hts u (by simp [hu])
    have hlimit : ∀ o, (if ec = lim.maxEvents then [eventLimitIssue lim o] else []).filter
        (·.code ≠ .eventLimitExceeded) = [] := by
      intro o; split <;> rfl
    cases t with
    | ack =>
      rw [eventCountOf_ack] at hle
      have hne : ¬ ec = (lim.withMaxEvents n hn).maxEvents := by
        change ¬ ec = n; omega
      simp only [issuesOf, List.filter_append, hlimit, if_neg hne, List.nil_append]
      exact ih hts' (ec + 1) (o + 1) (by omega)
    | frame raw =>
      rw [eventCountOf_frame] at hle
      have hne : ¬ ec = (lim.withMaxEvents n hn).maxEvents := by
        change ¬ ec = n; omega
      have hbcc : (if rawBccValid raw then [] else [bccIssue lim o raw]).filter
          (·.code ≠ .eventLimitExceeded) = if rawBccValid raw then [] else [bccIssue lim o raw] := by
        split <;> rfl
      simp only [issuesOf, List.filter_append, hlimit, hbcc, if_neg hne, List.nil_append]
      rw [ih hts' (ec + 1) (o + raw.length) (by omega)]
      rfl
    | skip code raw detail =>
      rw [eventCountOf_skip] at hle
      have hgap := (hts (.skip code raw detail) (by simp)).2 _ _ _ rfl
      have hcode : (skipIssue lim o code raw detail).code ≠ .eventLimitExceeded := by
        intro h
        rw [show code = .eventLimitExceeded from h] at hgap
        cases hgap
      rw [issuesOf, List.filter_cons_of_pos (by simpa using hcode), ih hts' ec _ hle]
      rfl

/-- The limit is reported once, at the first event past it. -/
theorem issuesOf_filter_limit (ec fc o : Nat) :
    (issuesOf lim ec o ts).filter (·.code = .eventLimitExceeded) =
      if ec ≤ lim.maxEvents then
        (((eventsOf ec fc o ts).drop (lim.maxEvents - ec)).take 1).map
          fun e => eventLimitIssue lim e.streamOffset
      else [] := by
  induction ts generalizing ec fc o with
  | nil => simp [issuesOf, eventsOf]
  | cons t ts ih =>
    have hts' : ∀ u ∈ ts, u.Proper := fun u hu => hts u (by simp [hu])
    -- an event: the limit is reported here, later or has been reported
    have event : ∀ {e : StreamEvent} {fc' o' : Nat}, e.streamOffset = o →
        (if ec = lim.maxEvents then [eventLimitIssue lim o] else []).filter
            (·.code = .eventLimitExceeded) ++
          (issuesOf lim (ec + 1) o' ts).filter (·.code = .eventLimitExceeded) =
        if ec ≤ lim.maxEvents then
          (((e :: eventsOf (ec + 1) fc' o' ts).drop (lim.maxEvents - ec)).take 1).map
            fun e => eventLimitIssue lim e.streamOffset
        else [] := by
      intro e fc' o' ho
      rw [ih hts' (ec + 1) fc' o']
      rcases Nat.lt_trichotomy ec lim.maxEvents with hlt | heq | hgt
      · obtain ⟨j, hj⟩ : ∃ j, lim.maxEvents - ec = j + 1 := ⟨lim.maxEvents - ec - 1, by omega⟩
        rw [if_neg (by omega), if_pos (show ec + 1 ≤ lim.maxEvents by omega), if_pos (by omega), hj,
          List.drop_succ_cons, show lim.maxEvents - (ec + 1) = j by omega]
        rfl
      · rw [if_pos heq, if_neg (by omega), if_pos (by omega), heq, Nat.sub_self, List.drop_zero]
        simp [ho, eventLimitIssue]
      · rw [if_neg (by omega), if_neg (by omega), if_neg (by omega)]
        rfl
    cases t with
    | ack =>
      simp only [issuesOf, List.filter_append, eventsOf]
      exact event rfl
    | frame raw =>
      have hbcc : (if rawBccValid raw then [] else [bccIssue lim o raw]).filter
          (·.code = .eventLimitExceeded) = [] := by
        split <;> rfl
      simp only [issuesOf, List.filter_append, hbcc, List.append_nil, eventsOf]
      exact event rfl
    | skip code raw detail =>
      have hgap := (hts (.skip code raw detail) (by simp)).2 _ _ _ rfl
      have hcode : (skipIssue lim o code raw detail).code ≠ .eventLimitExceeded := by
        intro h
        rw [show code = .eventLimitExceeded from h] at hgap
        cases hgap
      rw [issuesOf, List.filter_cons_of_neg (by simpa using hcode), ih hts' ec fc]
      rfl

end

/-- **The event limit only truncates.** A run with `max_events = k` within its issue limit differs
from the run over the same chunks that no event limit cuts short in the events after the first `k`
and in the one issue that says so. -/
theorem event_limit_only_truncates (lim : FramerLimits) (chunks : List Bytes) {k n : Nat}
    (hk : 1 ≤ k) (hn : 1 ≤ n) :
    ∃ r u, frameChunks (lim.withMaxEvents k hk) true chunks = .ok r ∧
      frameChunks (lim.withMaxEvents n hn) true chunks = .ok u ∧
      (u.eventsTruncated = false → r.omittedIssueCount = 0 →
        OnlyTruncated (lim.withMaxEvents k hk) k r u) := by
  have hts : ∀ t ∈ Framer.tokensOf lim chunks, t.Proper := runTokens_proper _ _
  refine ⟨_, _, Framer.frameChunks_tokens _ _, Framer.frameChunks_tokens _ _, ?_⟩
  rw [Framer.tokensOf_withMaxEvents, Framer.tokensOf_withMaxEvents]
  generalize Framer.tokensOf lim chunks = ts at hts
  intro hall homit
  obtain ⟨hfc, hac, htr, hom⟩ := resultOf_totals (lim.withMaxEvents k hk) chunks.flatten.length ts
  obtain ⟨hfc', hac', htr', hom'⟩ :=
    resultOf_totals (lim.withMaxEvents n hn) chunks.flatten.length ts
  have hcount : eventCountOf ts ≤ n := by
    rw [htr'] at hall
    exact Nat.not_lt.mp (of_decide_eq_false hall)
  -- the issues of the limited run, and of the other one
  have hother := issuesOf_filter_other (lim.withMaxEvents k hk) hts hn 0 0 (by omega)
  have hlimit := issuesOf_filter_limit (lim.withMaxEvents k hk) hts 0 0 0
  have hev : (resultOf (lim.withMaxEvents n hn) chunks.flatten.length ts).events =
      eventsOf 0 0 0 ts := by
    rw [resultOf_events, List.take_of_length_le (by rw [eventsOf_length]; exact hcount)]
  have his : (issuesOf (lim.withMaxEvents k hk) 0 0 ts).length ≤
      (lim.withMaxEvents k hk).maxIssues := by
    rw [hom] at homit
    exact Nat.sub_eq_zero_iff_le.mp homit
  have hissues : (resultOf (lim.withMaxEvents k hk) chunks.flatten.length ts).issues =
      issuesOf (lim.withMaxEvents k hk) 0 0 ts := by rw [resultOf_issues, if_pos his]
  have hissues' : (resultOf (lim.withMaxEvents n hn) chunks.flatten.length ts).issues =
      issuesOf (lim.withMaxEvents n hn) 0 0 ts := by
    rw [resultOf_issues, if_pos]
    refine Nat.le_trans ?_ his
    have := List.length_filter_le (fun i : FramingIssue => decide (i.code ≠ .eventLimitExceeded))
      (issuesOf (lim.withMaxEvents k hk) 0 0 ts)
    rwa [hother] at this
  refine ⟨?_, rfl, hfc.trans hfc'.symm, hac.trans hac'.symm, ?_, ?_, ?_⟩
  · rw [hev, resultOf_events]
    rfl
  · rw [htr, hev, eventsOf_length, decide_eq_true_iff]
    exact Iff.rfl
  · rw [hissues, hissues', hother]
    rfl
  · rw [hissues, hlimit, if_pos (Nat.zero_le _), hev]
    rfl

/-- Two ACKs, of which one is kept. -/
theorem event_limit_only_truncates_acks :
    ∃ r u, frameChunks (FramerLimits.default.withMaxEvents 1 (by decide)) true [[ACK, ACK]] =
        .ok r ∧
      frameChunks (FramerLimits.default.withMaxEvents 2 (by decide)) true [[ACK, ACK]] = .ok u ∧
      u.eventsTruncated = false ∧ r.omittedIssueCount = 0 ∧
      OnlyTruncated (FramerLimits.default.withMaxEvents 1 (by decide)) 1 r u := by
  obtain ⟨r, u, hr, hu, h⟩ := event_limit_only_truncates .default [[ACK, ACK]] (k := 1) (n := 2)
    (by decide) (by decide)
  have hr' := hr
  have hu' := hu
  rw [show frameChunks (FramerLimits.default.withMaxEvents 1 (by decide)) true [[ACK, ACK]] =
    .ok _ from rfl] at hr'
  rw [show frameChunks (FramerLimits.default.withMaxEvents 2 (by decide)) true [[ACK, ACK]] =
    .ok _ from rfl] at hu'
  cases hr'
  cases hu'
  exact ⟨_, _, hr, hu, rfl, rfl, h rfl rfl⟩

end RchProxy
