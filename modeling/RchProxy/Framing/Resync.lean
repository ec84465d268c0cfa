import RchProxy.Framing.Truncation
import RchProxy.Framing.Segmentation

/-!
# Resynchronisation

A rejected candidate is skipped up to the next control of the bytes that have arrived, so two runs
over one stream may skip different stretches. Neither skips a good unit (`resync_hides_nothing`), and
the events of either, before the end of the stream is known, are the first events of one canonical
reading: that of the whole stream in one buffer (`scanSlices_events_prefix`). Hence no emitted event is
ever contradicted (`events_never_contradicted`).
-/

namespace RchProxy

open Py

/-! ## The place of a token in the stream -/

/-- An element of two lists in a row is in the first or in the second. -/
theorem split_append {α : Type _} {as bs us vs : List α} {t : α} (h : as ++ bs = us ++ t :: vs) :
    (∃ xs, as = us ++ t :: xs) ∨ ∃ xs, us = as ++ xs ∧ bs = xs ++ t :: vs := by
  rcases List.append_eq_append_iff.mp h with ⟨xs, hus, hbs⟩ | ⟨xs, has, hbs⟩
  · exact .inr ⟨xs, hus, hbs⟩
  · cases xs with
    | nil => exact .inr ⟨[], by simpa using has.symm, by simpa using hbs.symm⟩
    | cons x xs =>
      obtain ⟨rfl, -⟩ := List.cons.inj hbs
      exact .inl ⟨xs, has⟩

/-- What stands behind some of the tokens of a stream. -/
theorem drop_tokens {p c : Bytes} {ts : List Token} (h : (ts.map Token.raw).flatten ++ c = p)
    (us : List Token) : p.drop (bytesOf (ts ++ us)) = c.drop (bytesOf us) := by
  have hb : bytesOf (ts ++ us) = (ts.map Token.raw).flatten.length + bytesOf us := by
    simp [bytesOf]
  rw [← h, hb, ← List.drop_drop, List.drop_left]

/-- A token of a scan was read at the front of what the tokens before it left. -/
theorem scan_at {m : Nat} {final : Bool} {w : Bytes} {us vs : List Token} {t : Token}
    (h : (scan m final w).1 = us ++ t :: vs) :
    Token.next m final (w.drop (bytesOf us)) = some t := by
  induction w using scan_induction m final generalizing us with
  | stop w hn => simp [scan_none hn] at h
  | step w tok hn ih =>
    rw [scan_some hn] at h
    cases us with
    | nil => cases h; exact hn
    | cons u us =>
      simp only [List.cons_append, List.cons.injEq] at h
      obtain ⟨rfl, h⟩ := h
      have := ih h
      rwa [List.drop_drop, ← bytesOf_cons] at this

/-- A token of the slices was read at the front of some of the bytes that stand at its place. -/
theorem scanSlices_at {m : Nat} {c : Bytes} {ss : List Bytes} {us vs : List Token} {t : Token}
    (h : (scanSlices m c ss).1 = us ++ t :: vs) :
    ∃ w, Token.next m false w = some t ∧ w <+: (c ++ ss.flatten).drop (bytesOf us) := by
  induction ss generalizing c us with
  | nil => simp [scanSlices] at h
  | cons s ss ih =>
    have hflat := scan_flatten m false (c ++ s)
    rw [scanSlices] at h
    rw [List.flatten_cons, ← List.append_assoc]
    rcases split_append h with ⟨xs, hsc⟩ | ⟨xs, rfl, hrest⟩
    · refine ⟨_, scan_at hsc, ?_⟩
      have hle : bytesOf us ≤ (c ++ s).length := by
        rw [← hflat, hsc]; simp [bytesOf]
      rw [List.drop_append_of_le_length hle]
      exact List.prefix_append _ _
    · obtain ⟨w, hw, hpre⟩ := ih hrest
      refine ⟨w, hw, ?_⟩
      rwa [drop_tokens (c := (scan m false (c ++ s)).2 ++ ss.flatten)
        (by rw [← List.append_assoc, hflat])]

/-- A token of a run, in the same way. -/
theorem runTokens_at {m : Nat} {ss : List Bytes} {us vs : List Token} {t : Token}
    (h : runTokens m ss = us ++ t :: vs) :
    ∃ final w, Token.next m final w = some t ∧ w <+: ss.flatten.drop (bytesOf us) := by
  have hflat := scanSlices_flatten m [] ss
  rw [List.nil_append] at hflat
  rw [runTokens] at h
  rcases split_append h with ⟨xs, hsc⟩ | ⟨xs, rfl, hrest⟩
  · obtain ⟨w, hw, hpre⟩ := scanSlices_at hsc
    exact ⟨false, w, hw, hpre⟩
  · refine ⟨true, _, scan_at hrest, ?_⟩
    rw [List.prefix_iff_eq_take, drop_tokens hflat]
    exact List.take_length.symm

/-! ## What a rejected token cannot contain -/

/-- The bytes continue with a structurally complete frame. -/
def FrameAt (m : Nat) (p : Bytes) : Prop :=
  p[0]? = some STX ∧ 6 ≤ p.length ∧ ((p.drop 1).take 5).all isDigit = true ∧
    intOfDigits ((p.drop 3).take 3) ≤ m ∧
    p[intOfDigits ((p.drop 3).take 3) + 10]? = some ETX

/-- The codes of the candidates that are rejected before the end of the stream. -/
def IssueCode.isRejection : IssueCode → Bool
  | unframedBytes | malformedHeader | oversizeFrame | invalidTerminator => true
  | _ => false

theorem FrameAt.cons {m : Nat} {b : UInt8} {t : Bytes} (h : FrameAt m (b :: t)) :
    b = STX ∧ 5 ≤ t.length ∧ headerDigits t = true ∧ declaredLength t ≤ m ∧
      t[declaredLength t + 9]? = some ETX := by
  obtain ⟨hb, hlen, hd, hm, he⟩ := h
  exact ⟨by simpa using hb, by simpa using hlen, hd, hm, he⟩

/-- A plausible control is where the search stops, or behind it. -/
theorem plausibleSearch_le_of_here {t : Bytes} {j : Nat} (h : plausibleHere (t.drop j) = true) :
    ∃ i ≤ j, plausibleSearch t = some i := by
  cases hs : plausibleSearch t with
  | none => rw [plausibleHere_of_none hs] at h; cases h
  | some i =>
    refine ⟨i, ?_, rfl⟩
    by_contra hlt
    have hd := plausibleSearch_drop hs (Nat.le_of_lt (Nat.not_le.mp hlt))
    cases hu : t.drop j with
    | nil => rw [hu] at h; cases h
    | cons b u =>
      rw [hu] at h hd
      rw [plausibleSearch_here h] at hd
      have := Option.some.inj hd
      omega

/-- Where an ACK or a complete frame stands, the bytes are plausible. -/
theorem plausibleHere_of_unit {m : Nat} {p : Bytes} (h : p[0]? = some ACK ∨ FrameAt m p) :
    plausibleHere p = true := by
  cases p with
  | nil =>
    rcases h with h | h
    · cases h
    · cases h.1
  | cons b t =>
    rcases h with h | h
    · obtain rfl : b = ACK := by simpa using h
      exact plausibleHere_ack t
    · obtain ⟨rfl, hlen, hd, -⟩ := h.cons
      simp [plausibleHere_stx, hlen, hd]

/-- The bytes before a control are none. -/
theorem beforeControl_no_unit {m j : Nat} {t x : Bytes} (hj : j < (beforeControl t).length) :
    ¬ ((t ++ x)[j]? = some ACK ∨ FrameAt m ((t ++ x).drop j)) := by
  intro h
  have hlt : j < t.length := Nat.lt_of_lt_of_le hj (beforeControl_length_le t)
  have hcontrol : isControl t[j] = false := by
    have hmem : t[j] ∈ beforeControl t := by
      rw [← take_beforeControl t]
      exact List.mem_take_iff_getElem.mpr ⟨j, by omega, rfl⟩
    simpa using List.all_eq_true.mp List.all_takeWhile _ hmem
  have hget : (t ++ x)[j]? = some t[j] := by
    rw [List.getElem?_append_left hlt, List.getElem?_eq_getElem hlt]
  rcases h with h | h
  · rw [hget] at h
    rw [Option.some.inj h] at hcontrol
    cases hcontrol
  · have h0 := h.1
    rw [List.getElem?_drop, Nat.add_zero, hget] at h0
    rw [Option.some.inj h0] at hcontrol
    cases hcontrol

/-- A rejected candidate covers no good unit of the stream it stands in. -/
theorem Token.next_rejection {m : Nat} {final : Bool} {w x raw : Bytes} {code : IssueCode}
    {detail : String} (h : Token.next m final w = some (.skip code raw detail))
    (hc : code.isRejection = true) :
    ∀ j < raw.length, ¬ ((w ++ x)[j]? = some ACK ∨ FrameAt m ((w ++ x).drop j)) := by
  intro j hj
  cases w with
  | nil => cases h
  | cons b t =>
    -- behind the first byte, up to the next control
    have behind : ∀ {j : Nat}, j + 1 < (b :: beforeControl t).length →
        ¬ ((b :: t ++ x)[j + 1]? = some ACK ∨ FrameAt m ((b :: t ++ x).drop (j + 1))) := by
      intro j hj
      exact beforeControl_no_unit (t := t) (by simpa using hj)
    rcases control_cases b with rfl | rfl | hb
    · rw [Token.next_ack] at h; cases h
    · cases Header.of m t with
      | short h5 =>
        rw [Token.next_short _ _ h5] at h
        split at h
        · cases h; cases hc
        · cases h
      | malformed h5 hd =>
        rw [Token.next_malformed _ _ h5 hd] at h
        cases h
        cases j with
        | zero =>
          rintro (h | h)
          · cases h
          · have h : FrameAt m (STX :: (t ++ x)) := h
            obtain ⟨-, -, hd', -⟩ := h.cons
            rw [headerDigits_append h5, hd] at hd'
            cases hd'
        | succ j =>
          intro h
          have hj : j < resync t := by
            have := resync_le t
            simp only [List.length_cons, List.length_take] at hj
            omega
          have hplaus : plausibleHere ((t ++ x).drop j) = true := by
            refine plausibleHere_of_unit (m := m) ?_
            rcases h with h | h
            · exact .inl (by rw [List.getElem?_drop]; simpa using h)
            · exact .inr h
          obtain ⟨i, hi, hs⟩ := plausibleSearch_le_of_here hplaus
          have := resync_le_search hs
          omega
      | oversize h5 hd ho =>
        rw [Token.next_oversize _ _ h5 hd ho] at h
        cases h
        cases j with
        | zero =>
          rintro (h | h)
          · cases h
          · have h : FrameAt m (STX :: (t ++ x)) := h
            obtain ⟨-, -, -, hm, -⟩ := h.cons
            rw [(header_append x h5).2.1] at hm
            omega
        | succ j => exact behind hj
      | partial_ h5 hd ho hs =>
        rw [Token.next_partial _ _ h5 hd ho hs] at h
        split at h
        · cases h; cases hc
        · cases h
      | unterminated h5 hd ho hs he =>
        rw [Token.next_unterminated _ _ h5 hd hs ho he] at h
        cases h
        cases j with
        | zero =>
          rintro (h | h)
          · cases h
          · have h : FrameAt m (STX :: (t ++ x)) := h
            obtain ⟨-, -, -, -, hetx⟩ := h.cons
            rw [(header_append x h5).2.1, List.getElem?_append_left (by omega)] at hetx
            rw [List.getD_eq_getElem?_getD, hetx] at he
            exact he rfl
        | succ j => exact behind hj
      | frame h5 hd ho hs he => rw [Token.next_frame _ _ h5 hd hs ho he] at h; cases h
    · rw [Token.next_other _ _ hb] at h
      cases h
      cases j with
      | zero =>
        rintro (h | h)
        · obtain rfl : b = ACK := by simpa using h
          cases hb
        · obtain ⟨rfl, -⟩ := h.cons
          cases hb
      | succ j => exact behind hj

/-- **Resynchronisation never hides a good unit.** Whatever the configuration and the chunks, no
rejected range of the result contains an ACK or a place where the stream goes on with a complete
frame. -/
theorem resync_hides_nothing (lim : FramerLimits) (retain : Bool) (chunks : List Bytes) :
    ∃ r, frameChunks lim retain chunks = .ok r ∧
      ∀ i ∈ r.issues, i.code.isRejection = true → ∀ j, i.streamOffset ≤ j → j < i.endOffset →
        chunks.flatten[j]? ≠ some ACK ∧ ¬ FrameAt lim.maxDataLength (chunks.flatten.drop j) := by
  obtain ⟨f, hf, h⟩ := Framer.feedAll_reached lim retain chunks
  refine ⟨(f.finish lim).1, by rw [frameChunks, hf]; rfl, ?_⟩
  intro i hi hcode j hlo hhi
  cases retain with
  | false =>
    rw [h.finish_forgot.2.2 i hi] at hcode
    cases hcode
  | true =>
    rw [h.finish] at hi
    rcases mem_resultOf_issues hi with hi | hi
    · obtain ⟨us, t, vs, hts, hone⟩ := mem_issuesOf hi
      rw [Nat.zero_add, Nat.zero_add] at hone
      obtain ⟨final, w, hw, x, hx⟩ := runTokens_at hts
      rw [h.flatten] at hx
      rcases mem_tokenIssues hone with rfl | ⟨raw, rfl, -, rfl⟩ | ⟨code, raw, detail, rfl, rfl⟩
      · cases hcode
      · cases hcode
      · obtain ⟨k, rfl⟩ := Nat.exists_eq_add_of_le hlo
        have hk : k < raw.length := by
          simp only [FramingIssue.endOffset, skipIssue] at hhi
          omega
        have hno := Token.next_rejection (x := x) hw hcode k hk
        rw [hx, List.getElem?_drop, List.drop_drop, not_or] at hno
        exact hno
    · rw [hi] at hcode
      cases hcode

/-! ## The canonical reading -/

/-- Events that come first among others, whatever the counters start at. -/
def EventsPrefix (es fs : Nat → Nat → List StreamEvent) : Prop := ∀ ec fc, es ec fc <+: fs ec fc

theorem EventsPrefix.of_eq {es fs : Nat → Nat → List StreamEvent} (h : es = fs) :
    EventsPrefix es fs := fun _ _ => h ▸ List.prefix_rfl

theorem EventsPrefix.trans {es fs gs : Nat → Nat → List StreamEvent} (h : EventsPrefix es fs)
    (h' : EventsPrefix fs gs) : EventsPrefix es gs := fun ec fc => (h ec fc).trans (h' ec fc)

/-- An event in front of both. -/
theorem EventsPrefix.event {o : Nat} {ts us : List Token} {t : Token}
    (h : EventsPrefix (eventsAt (o + t.raw.length) ts) (eventsAt (o + t.raw.length) us)) :
    EventsPrefix (eventsAt o (t :: ts)) (eventsAt o (t :: us)) := by
  intro ec fc
  cases t with
  | ack => exact (List.prefix_cons_inj _).mpr (h (ec + 1) fc)
  | frame raw => exact (List.prefix_cons_inj _).mpr (h (ec + 1) (fc + 1))
  | skip code raw detail => exact h ec fc

section
variable {m : Nat}

/-- Read on from the first plausible control, a stream has the same events or more. -/
theorem wholeEvents_search_prefix {r : Bytes} {k : Nat} (h : plausibleSearch r = some k) (o : Nat) :
    EventsPrefix (wholeEvents m o r) (wholeEvents m (o + k) (r.drop k)) := by
  induction r generalizing k o with
  | nil => cases h
  | cons b t ih =>
    rcases control_cases b with rfl | rfl | hb
    · rw [plausibleSearch_here (plausibleHere_ack t)] at h
      cases h
      exact .of_eq rfl
    · cases Header.of m t with
      | short h5 =>
        -- the bytes wait as a partial header, whatever stands among them
        rw [wholeEvents_short h5]
        exact fun ec fc => List.nil_prefix
      | malformed h5 hd =>
        rw [plausibleSearch_malformed hd] at h
        obtain ⟨i, hi, rfl⟩ := Option.map_eq_some_iff.mp h
        have hr : resync t = i := by rw [resync, hi]
        rw [wholeEvents, run_malformed h5 hd o, hr, List.drop_succ_cons, Nat.add_right_comm]
        exact .of_eq rfl
      | oversize h5 hd | partial_ h5 hd | unterminated h5 hd | frame h5 hd =>
        rw [plausibleSearch_header h5 hd] at h
        cases h
        exact .of_eq rfl
    · rw [plausibleSearch_other hb] at h
      obtain ⟨i, hi, rfl⟩ := Option.map_eq_some_iff.mp h
      rw [wholeEvents, run_other hb t o, List.drop_succ_cons, ← Nat.add_assoc, Nat.add_right_comm]
      exact ih hi (o + 1)

/-- Behind a malformed header, reading on where the bytes that have arrived say so gives no event
that reading on where all of them say so does not. -/
theorem wholeEvents_resync (t x : Bytes) (o : Nat) :
    EventsPrefix (wholeEvents m (o + resync t) ((t ++ x).drop (resync t)))
      (wholeEvents m (o + resync (t ++ x)) ((t ++ x).drop (resync (t ++ x)))) := by
  cases hs : plausibleSearch (t ++ x) with
  | none =>
    rw [wholeEvents_none (plausibleSearch_drop_none hs _)]
    exact fun ec fc => List.nil_prefix
  | some i =>
    have hle := resync_le_search hs
    have hr : resync (t ++ x) = i := by rw [resync, hs]
    have := wholeEvents_search_prefix (m := m) (plausibleSearch_drop hs hle) (o + resync t)
    rwa [List.drop_drop, Nat.add_assoc, Nat.add_sub_cancel' hle, ← hr] at this

/-- A buffer that waits gets the next slice, or is the whole stream. -/
theorem runTokens_prefix_wait {o : Nat} {r w : Bytes} {ss : List Bytes} (hr : w ++ ss.flatten = r)
    (step : ∀ {w ss}, Token.next m false w ≠ none → w ++ List.flatten ss = r →
      EventsPrefix (eventsAt o (runTokens m (w :: ss))) (wholeEvents m o r)) :
    EventsPrefix (eventsAt o (runTokens m (w :: ss))) (wholeEvents m o r) := by
  induction ss generalizing w with
  | nil =>
    obtain rfl : w = r := by simpa using hr
    exact .of_eq rfl
  | cons s ss ih =>
    by_cases hw : Token.next m false w = none
    · rw [runTokens_wait hw]
      exact ih (by simpa using hr)
    · exact step hw hr

/-- **Every way of cutting a stream reads a front of its canonical events.** -/
theorem runTokens_prefix {r w : Bytes} {ss : List Bytes} (hr : w ++ ss.flatten = r) (o : Nat) :
    EventsPrefix (eventsAt o (runTokens m (w :: ss))) (wholeEvents m o r) := by
  induction hn : r.length using Nat.strongRecOn generalizing r w ss o with
  | _ n ih =>
  subst hn
  refine runTokens_prefix_wait hr fun {w ss} hw hr => ?_
  subst hr
  cases w with
  | nil => exact absurd rfl hw
  | cons b t =>
    rw [List.cons_append]
    have htail : EventsPrefix (eventsAt (o + 1) (runTokens m (t :: ss)))
        (wholeEvents m (o + 1) (t ++ ss.flatten)) := ih _ (by simp) rfl _ rfl
    -- what is left behind a longer token
    have hdrop : ∀ (k j : Nat), k ≤ t.length →
        EventsPrefix (eventsAt j (runTokens m (t.drop k :: ss)))
          (wholeEvents m j ((t ++ ss.flatten).drop k)) :=
      fun k j hk =>
        ih _ (by rw [List.length_drop, List.cons_append, List.length_cons]; omega)
          (List.drop_append_of_le_length hk).symm _ rfl
    rcases control_cases b with rfl | rfl | hb
    · rw [runTokens_some (Token.next_ack m false t), wholeEvents,
        runTokens_some (Token.next_ack m false _)]
      exact .event htail
    · cases Header.of m t with
      | short h5 => exact absurd (Token.next_short m false h5) hw
      | partial_ h5 hd ho hs => exact absurd (Token.next_partial m false h5 hd ho hs) hw
      | malformed h5 hd =>
        rw [run_malformed h5 hd, wholeEvents, run_malformed (header_append _ h5).1
          (by rw [headerDigits_append h5, hd])]
        exact (hdrop _ _ (resync_le t)).trans (wholeEvents_resync t ss.flatten (o + 1))
      | oversize h5 hd ho =>
        obtain ⟨h5', hl, -⟩ := header_append ss.flatten h5
        rw [run_skip_control (Token.next_oversize m false h5 hd ho), wholeEvents,
          run_skip_control (Token.next_oversize m false h5' (by rw [headerDigits_append h5, hd])
            (hl ▸ ho))]
        exact htail
      | unterminated h5 hd ho hs he =>
        obtain ⟨h5', hl, hrest⟩ := header_append ss.flatten h5
        obtain ⟨hs', he'⟩ := hrest hs
        rw [run_skip_control (Token.next_unterminated m false h5 hd hs ho he), wholeEvents,
          run_skip_control (Token.next_unterminated m false h5'
            (by rw [headerDigits_append h5, hd]) (hl ▸ hs') (hl ▸ ho)
            (by rw [hl, he']; exact he))]
        exact htail
      | frame h5 hd ho hs he =>
        obtain ⟨h5', hl, hrest⟩ := header_append ss.flatten h5
        obtain ⟨hs', he'⟩ := hrest hs
        have hraw : (STX :: (t ++ ss.flatten)).take (declaredLength t + 11) =
            (STX :: t).take (declaredLength t + 11) := by
          rw [← List.cons_append, List.take_append_of_le_length (by simp; omega)]
        have hlen : ((STX :: t).take (declaredLength t + 11)).length = declaredLength t + 11 := by
          rw [List.length_take, List.length_cons]; omega
        rw [runTokens_some (Token.next_frame m false h5 hd hs ho he), wholeEvents,
          runTokens_some (Token.next_frame m false h5' (by rw [headerDigits_append h5, hd])
            (hl ▸ hs') (hl ▸ ho) (by rw [hl, he']; exact he)), hl, hraw]
        simp only [Token.raw, hlen, List.drop_succ_cons]
        refine .event ?_
        simp only [Token.raw, hlen]
        exact hdrop _ _ (by omega)
    · rw [run_other hb, wholeEvents, run_other hb]
      exact htail

/-- The end of the stream adds no event to those of the slices. -/
theorem eventsOf_runTokens (ss : List Bytes) (ec fc o : Nat) :
    eventsOf ec fc o (runTokens m ss) = eventsOf ec fc o (scanSlices m [] ss).1 := by
  rw [runTokens, eventsOf_append]
  rcases Framer.scan_final_of_carry (scanSlices_carry (m := m) (c := []) ss rfl) with
    ⟨-, h⟩ | ⟨-, detail, h⟩
  · rw [h]; simp [eventsOf]
  · rw [h]; simp [eventsOf]

/-- The events of the slices of a stream come first among those of its canonical reading. -/
theorem scanSlices_events_prefix (ss : List Bytes) (ec fc o : Nat) :
    eventsOf ec fc o (scanSlices m [] ss).1 <+:
      eventsOf ec fc o (scan m false ss.flatten).1 := by
  have hwhole : eventsOf ec fc o (runTokens m [ss.flatten]) =
      eventsOf ec fc o (scan m false ss.flatten).1 := by
    rw [eventsOf_runTokens]
    simp [scanSlices]
  rw [← eventsOf_runTokens, ← hwhole]
  cases ss with
  | nil =>
    rw [eventsOf_runTokens, eventsOf_runTokens]
    simp [scanSlices, scan_none (Token.next_nil m false)]
  | cons s ss => exact runTokens_prefix rfl o ec fc

/-- More bytes only add to the canonical events. -/
theorem scan_events_prefix {p q : Bytes} (h : p <+: q) (ec fc o : Nat) :
    eventsOf ec fc o (scan m false p).1 <+: eventsOf ec fc o (scan m false q).1 := by
  obtain ⟨x, rfl⟩ := h
  have := scanSlices_events_prefix (m := m) [p, x] ec fc o
  simp only [scanSlices, List.nil_append, List.append_nil, List.flatten_cons, List.flatten_nil]
    at this
  rw [eventsOf_append] at this
  exact (List.prefix_append _ _).trans this

end

/-! ## Emitted events -/

namespace Framer

variable {lim : FramerLimits} {retain : Bool} {chunks : List Bytes} {f : Framer}

/-- `finish` adds no event. -/
theorem Reached.finish_events (h : Reached lim retain chunks f) :
    (f.finish lim).1.events = f.events := by
  simp only [Framer.finish, h.ready.open_, Bool.false_eq_true, if_false,
    (finalize_events lim _ _).1]
  rcases h.process with ⟨-, hlog⟩ | ⟨-, detail, hlog⟩
  · rw [hlog]
  · rw [hlog, FramerLog.record, FramerLog.appendIssue_events]

/-- What has been emitted of a stream, below the limit, comes first in its canonical events. -/
theorem feedEach_prefix (lim : FramerLimits) (retain : Bool) (chunks : List Bytes) :
    ∃ outs f, feedEach lim retain {} chunks = .ok (outs, f) ∧ Reached lim retain chunks f ∧
      (BelowLimit lim retain outs →
        outs.flatten <+: eventsOf 0 0 0 (scan lim.maxDataLength false chunks.flatten).1) := by
  obtain ⟨f, hf, h⟩ := feedAll_reached lim retain chunks
  obtain ⟨outs, f', houts, hev⟩ := feedEach_events retain chunks (ready_new lim)
  have hsame := feedEach_feedAll lim retain {} chunks
  rw [houts, hf] at hsame
  obtain rfl : f' = f := Except.ok.inj hsame
  refine ⟨outs, f', houts, h, fun hbelow => ?_⟩
  rw [hev ?_, ← h.flatten]
  · exact scanSlices_events_prefix _ 0 0 0
  · unfold BelowLimit at hbelow
    cases retain with
    | true => simpa using hbelow
    | false => exact ⟨rfl, by simpa using hbelow⟩

end Framer

/-- **Emitted events are never contradicted.** Of the events that two framers with one configuration
have emitted for a stream and for a longer one, however each was cut, one list comes first in the
other, as long as neither reached `max_events`; and `finish` adds no event to a framer's own. -/
theorem events_never_contradicted (lim : FramerLimits) (retain : Bool) {ps qs : List Bytes}
    (hpq : ps.flatten <+: qs.flatten) :
    ∃ es f fs g, Framer.feedEach lim retain {} ps = .ok (es, f) ∧
      Framer.feedEach lim retain {} qs = .ok (fs, g) ∧
      (Framer.BelowLimit lim retain es → Framer.BelowLimit lim retain fs →
        es.flatten <+: fs.flatten ∨ fs.flatten <+: es.flatten) ∧
      (f.finish lim).1.events = f.events ∧ (g.finish lim).1.events = g.events := by
  obtain ⟨es, f, hes, hf, hpre⟩ := Framer.feedEach_prefix lim retain ps
  obtain ⟨fs, g, hfs, hg, hpre'⟩ := Framer.feedEach_prefix lim retain qs
  refine ⟨es, f, fs, g, hes, hfs, fun hbe hbf => ?_, hf.finish_events, hg.finish_events⟩
  have hcanon := scan_events_prefix (m := lim.maxDataLength) hpq 0 0 0
  exact List.prefix_or_prefix_of_prefix ((hpre hbe).trans hcanon) (hpre' hbf)

/-- A hidden ACK: read at once, the longer stream has emitted it; cut behind the second `STX`, the
framer still waits. -/
theorem events_never_contradicted_hidden :
    ∃ es f fs g, Framer.feedEach .default true {}
        [[STX, 0x41, 0x41, 0x41, 0x41, 0x41, STX, 0x31], [ACK]] = .ok (es, f) ∧
      Framer.feedEach .default true {}
        [[STX, 0x41, 0x41, 0x41, 0x41, 0x41, STX, 0x31, ACK]] = .ok (fs, g) ∧
      es.flatten.length = 0 ∧ fs.flatten.length = 1 ∧
      (es.flatten <+: fs.flatten ∨ fs.flatten <+: es.flatten) ∧
      (f.finish .default).1.events = f.events ∧ (g.finish .default).1.events = g.events := by
  obtain ⟨es, f, fs, g, hes, hfs, h, hf, hg⟩ := @events_never_contradicted .default true
    [[STX, 0x41, 0x41, 0x41, 0x41, 0x41, STX, 0x31], [ACK]]
    [[STX, 0x41, 0x41, 0x41, 0x41, 0x41, STX, 0x31, ACK]] (List.prefix_refl _)
  have hes' := hes
  have hfs' := hfs
  rw [show Framer.feedEach .default true {}
    [[STX, 0x41, 0x41, 0x41, 0x41, 0x41, STX, 0x31], [ACK]] = .ok (_, _) from rfl] at hes'
  rw [show Framer.feedEach .default true {}
    [[STX, 0x41, 0x41, 0x41, 0x41, 0x41, STX, 0x31, ACK]] = .ok (_, _) from rfl] at hfs'
  cases hes'
  cases hfs'
  exact ⟨_, _, _, _, hes, hfs, rfl, rfl, h (by decide) (by decide), hf, hg⟩

end RchProxy
