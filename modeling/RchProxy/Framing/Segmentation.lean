import RchProxy.Framing.Tiling

/-!
# Where the cuts of a stream show

A rejected header is skipped up to the next plausible control *of the buffer*, so what follows may
depend on where the buffer ends. `HidesAck` says when it does: a malformed header is rejected before
the ACK it would have been skipped to has arrived, and an `STX` that stands before that ACK in the
last five bytes of the stream is then kept as a partial header, which swallows the ACK at the end.
On every other stream all segmentations give the same events (`runTokens_events`), and on every
stream with a hidden ACK some segmentation loses it (`HidesAck.exists_cut`).
-/

namespace RchProxy

open Py

/-! ## More bytes behind a header -/

/-- The header digits are in the first five bytes, whatever follows. -/
theorem headerDigits_append {t x : Bytes} (h : 5 ≤ t.length) :
    headerDigits (t ++ x) = headerDigits t := by
  rw [headerDigits, headerDigits, List.take_append_of_le_length h]

theorem getD_append_left {t x : Bytes} {i : Nat} (h : i < t.length) :
    (t ++ x).getD i 0 = t.getD i 0 := by
  rw [List.getD_eq_getElem?_getD, List.getD_eq_getElem?_getD, List.getElem?_append_left h]

/-- What has been read of a header stays so when more bytes arrive. -/
theorem header_append {t : Bytes} (x : Bytes) (h : 5 ≤ t.length) :
    5 ≤ (t ++ x).length ∧ declaredLength (t ++ x) = declaredLength t ∧
      (declaredLength t + 11 ≤ t.length + 1 →
        declaredLength t + 11 ≤ (t ++ x).length + 1 ∧
        (t ++ x).getD (declaredLength t + 9) 0 = t.getD (declaredLength t + 9) 0) := by
  refine ⟨by rw [List.length_append]; omega, ?_, fun hs => ⟨?_, getD_append_left (by omega)⟩⟩
  · rw [declaredLength, declaredLength, List.drop_append_of_le_length (by omega),
      List.take_append_of_le_length (by rw [List.length_drop]; omega)]
  · rw [List.length_append]; omega

/-! ## Plausible controls -/

theorem plausibleHere_ack (t : Bytes) : plausibleHere (ACK :: t) = true := by
  simp [plausibleHere]

theorem plausibleHere_stx (t : Bytes) :
    plausibleHere (STX :: t) = (decide (5 ≤ t.length) && headerDigits t) := by
  simp [plausibleHere, headerDigits]

theorem plausibleHere_other {b : UInt8} (hb : isControl b = false) (t : Bytes) :
    plausibleHere (b :: t) = false := by
  simp only [isControl, Bool.or_eq_false_iff] at hb
  simp [plausibleHere, hb.1, hb.2]

theorem plausibleSearch_here {b : UInt8} {t : Bytes} (h : plausibleHere (b :: t) = true) :
    plausibleSearch (b :: t) = some 0 := by
  rw [plausibleSearch, if_pos h]

theorem plausibleSearch_later {b : UInt8} {t : Bytes} (h : plausibleHere (b :: t) = false) :
    plausibleSearch (b :: t) = (plausibleSearch t).map (· + 1) := by
  rw [plausibleSearch, if_neg (by simp [h])]

/-- An `STX` with five digits behind it is plausible. -/
theorem plausibleSearch_header {t : Bytes} (h : 5 ≤ t.length) (hd : headerDigits t = true) :
    plausibleSearch (STX :: t) = some 0 :=
  plausibleSearch_here (by simp [plausibleHere_stx, h, hd])

theorem plausibleSearch_malformed {t : Bytes} (hd : headerDigits t = false) :
    plausibleSearch (STX :: t) = (plausibleSearch t).map (· + 1) :=
  plausibleSearch_later (by simp [plausibleHere_stx, hd])

theorem plausibleSearch_short {t : Bytes} (h : t.length < 5) :
    plausibleSearch (STX :: t) = (plausibleSearch t).map (· + 1) :=
  plausibleSearch_later (by simp [plausibleHere_stx]; omega)

theorem plausibleSearch_other {b : UInt8} (hb : isControl b = false) (t : Bytes) :
    plausibleSearch (b :: t) = (plausibleSearch t).map (· + 1) :=
  plausibleSearch_later (plausibleHere_other hb t)

/-- What a search finds is an ACK, or a header all of whose bytes are there. -/
theorem plausibleSearch_spec {t : Bytes} {i : Nat} (h : plausibleSearch t = some i) :
    t.drop i = ACK :: t.drop (i + 1) ∨
      (t.drop i = STX :: t.drop (i + 1) ∧ i + 6 ≤ t.length ∧
        headerDigits (t.drop (i + 1)) = true) := by
  obtain ⟨hle, hp⟩ := plausibleSearch_some h
  cases hd : t.drop i with
  | nil => rw [hd] at hp; cases hp
  | cons b u =>
    have hu : t.drop (i + 1) = u := by
      rw [← List.drop_drop, hd]; rfl
    have hlen := congrArg List.length hd
    rw [List.length_drop, List.length_cons] at hlen
    rw [hd] at hp
    rw [hu]
    rcases control_cases b with rfl | rfl | hb
    · exact .inl rfl
    · rw [plausibleHere_stx, Bool.and_eq_true, decide_eq_true_eq] at hp
      exact .inr ⟨rfl, by omega, hp.2⟩
    · rw [plausibleHere_other hb] at hp; cases hp

theorem plausibleSearch_lt {t : Bytes} {i : Nat} (h : plausibleSearch t = some i) :
    i < t.length := by
  rcases plausibleSearch_spec h with h | ⟨-, h, -⟩
  · have := congrArg List.length h
    simp only [List.length_drop, List.length_cons] at this
    omega
  · omega

/-- A match stays the first one when more bytes arrive. -/
theorem plausibleSearch_append {t : Bytes} {i : Nat} (x : Bytes) (h : plausibleSearch t = some i) :
    plausibleSearch (t ++ x) = some i := by
  induction t generalizing i with
  | nil => cases h
  | cons b t ih =>
    rcases control_cases b with rfl | rfl | hb
    · rw [plausibleSearch_here (plausibleHere_ack t)] at h
      rw [List.cons_append, plausibleSearch_here (plausibleHere_ack _), h]
    · by_cases h5 : 5 ≤ t.length
      · cases hd : headerDigits t with
        | true =>
          rw [plausibleSearch_header h5 hd] at h
          rw [List.cons_append, plausibleSearch_header (by simp; omega)
            (by rw [headerDigits_append h5, hd]), h]
        | false =>
          rw [plausibleSearch_malformed hd] at h
          obtain ⟨k, hk, rfl⟩ := Option.map_eq_some_iff.mp h
          rw [List.cons_append, plausibleSearch_malformed (by rw [headerDigits_append h5, hd]),
            ih hk]
          rfl
      · -- the match is an ACK among the five bytes behind the `STX`
        rw [plausibleSearch_short (by omega)] at h
        obtain ⟨k, hk, rfl⟩ := Option.map_eq_some_iff.mp h
        have hack : t.drop k = ACK :: t.drop (k + 1) := by
          rcases plausibleSearch_spec hk with h | ⟨-, h, -⟩
          · exact h
          · omega
        have hbad : headerDigits (t ++ x) = false := by
          have hmem : ACK ∈ (t ++ x).take 5 := by
            rw [List.take_append, List.take_of_length_le (by omega)]
            have : ACK ∈ t.drop k := by rw [hack]; simp
            exact List.mem_append_left _ (List.mem_of_mem_drop this)
          by_contra hne
          rw [Bool.not_eq_false] at hne
          have := List.all_eq_true.mp hne ACK hmem
          revert this
          decide
        rw [List.cons_append, plausibleSearch_malformed hbad, ih hk]
        rfl
    · rw [plausibleSearch_other hb] at h
      obtain ⟨k, hk, rfl⟩ := Option.map_eq_some_iff.mp h
      rw [List.cons_append, plausibleSearch_other hb, ih hk]
      rfl

/-- Up to the first match there is none. -/
theorem plausibleSearch_take {t : Bytes} {k : Nat}
    (h : ∀ i, plausibleSearch t = some i → k ≤ i) : plausibleSearch (t.take k) = none := by
  cases hk : plausibleSearch (t.take k) with
  | none => rfl
  | some j =>
    have := plausibleSearch_append (t.drop k) hk
    rw [List.take_append_drop] at this
    have h1 := h j this
    have h2 := plausibleSearch_lt hk
    rw [List.length_take] at h2
    omega

theorem plausibleSearch_drop {t : Bytes} {i j : Nat} (h : plausibleSearch t = some i)
    (hj : j ≤ i) : plausibleSearch (t.drop j) = some (i - j) := by
  induction j generalizing t i with
  | zero => exact h
  | succ j ih =>
    cases t with
    | nil => cases h
    | cons b t =>
      rw [plausibleSearch] at h
      split at h
      · cases h; omega
      · obtain ⟨k, hk, rfl⟩ := Option.map_eq_some_iff.mp h
        rw [List.drop_succ_cons, ih hk (by omega)]
        congr 1
        omega

theorem plausibleSearch_drop_none {t : Bytes} (h : plausibleSearch t = none) (j : Nat) :
    plausibleSearch (t.drop j) = none := by
  induction j generalizing t with
  | zero => exact h
  | succ j ih =>
    cases t with
    | nil => rfl
    | cons b t =>
      rw [plausibleSearch] at h
      split at h
      · cases h
      · exact ih (Option.map_eq_none_iff.mp h)

theorem plausibleHere_of_none {t : Bytes} (h : plausibleSearch t = none) (i : Nat) :
    plausibleHere (t.drop i) = false := by
  have := plausibleSearch_drop_none h i
  cases hd : t.drop i with
  | nil => rfl
  | cons b u =>
    rw [hd, plausibleSearch] at this
    by_contra hp
    rw [Bool.not_eq_false] at hp
    rw [if_pos hp] at this
    cases this

/-- A match that is not there yet starts in the last bytes, with only digits behind its `STX`. -/
theorem straddling {t x : Bytes} {i : Nat} (ht : plausibleSearch t = none)
    (h : plausibleSearch (t ++ x) = some i) (hi : i < t.length) :
    t.length < i + 6 ∧ t.drop i = STX :: t.drop (i + 1) ∧ STX ∉ t.drop (i + 1) := by
  have hnone := plausibleHere_of_none ht i
  have hdrop : ∀ k ≤ t.length, (t ++ x).drop k = t.drop k ++ x :=
    fun k hk => List.drop_append_of_le_length hk
  have hcons : t.drop i = t.getD i 0 :: t.drop (i + 1) := by
    rw [List.drop_eq_getElem_cons hi, List.getD_eq_getElem?_getD, List.getElem?_eq_getElem hi]
    rfl
  rcases plausibleSearch_spec h with hs | ⟨hs, -, hd⟩
  · -- an ACK would be visible
    rw [hdrop i (by omega), hdrop (i + 1) (by omega), hcons, List.cons_append] at hs
    rw [hcons, (List.cons.inj hs).1, plausibleHere_ack] at hnone
    cases hnone
  · rw [hdrop i (by omega), hdrop (i + 1) (by omega), hcons, List.cons_append] at hs
    rw [hdrop (i + 1) (by omega)] at hd
    rw [(List.cons.inj hs).1] at hcons
    have hlen : (t.drop (i + 1)).length = t.length - (i + 1) := List.length_drop
    by_cases h6 : i + 6 ≤ t.length
    · rw [hcons, plausibleHere_stx, ← headerDigits_append (by omega), hd] at hnone
      simp only [Bool.and_true, decide_eq_false_iff_not] at hnone
      omega
    · refine ⟨by omega, hcons, fun hmem => ?_⟩
      have : STX ∈ (t.drop (i + 1) ++ x).take 5 := by
        rw [List.take_append, List.take_of_length_le (by omega)]
        exact List.mem_append_left _ hmem
      have := List.all_eq_true.mp hd STX this
      revert this
      decide

/-- Behind a malformed header, the search in the bytes that have arrived goes no further than the
search in all of them: it stops at the same control, or before it. -/
theorem resync_le_search {t x : Bytes} {i : Nat} (h : plausibleSearch (t ++ x) = some i) :
    resync t ≤ i := by
  by_cases hi : t.length ≤ i
  · exact Nat.le_trans (resync_le t) hi
  have hi : i < t.length := Nat.not_le.mp hi
  rw [resync]
  cases ht : plausibleSearch t with
  | some j =>
    rw [plausibleSearch_append x ht] at h
    exact Nat.le_of_eq (Option.some.inj h)
  | none =>
    -- the match straddles the end: its `STX` is the last one of the final five bytes
    obtain ⟨hlast, hstx, hno⟩ := straddling ht h hi
    cases hr : rfindStx t (t.length - 5) with
    | none =>
      have hmem : STX ∈ t.drop i := by rw [hstx]; simp
      have : t.drop i = (t.drop (t.length - 5)).drop (i - (t.length - 5)) := by
        rw [List.drop_drop]; congr 1; omega
      exact absurd (List.mem_of_mem_drop (this ▸ hmem)) (rfindStx_none hr)
    | some j =>
      obtain ⟨-, v, y, hv, hj, -⟩ := rfindStx_some hr
      by_contra hlt
      have hlt : i + 1 ≤ v.length := by simp at hlt; omega
      rw [hv, List.drop_append_of_le_length hlt] at hno
      exact hno (by simp)

/-! ## Reading on behind rejected bytes -/

/-- The events of tokens that start at `o`, as a function of the counters. -/
def eventsAt (o : Nat) (ts : List Token) (ec fc : Nat) : List StreamEvent := eventsOf ec fc o ts

section
variable {o o' : Nat} {ts us : List Token}

theorem eventsAt_skip (code : IssueCode) (raw : Bytes) (detail : String) :
    eventsAt o (.skip code raw detail :: ts) = eventsAt (o + raw.length) ts := rfl

theorem eventsAt_ack (h : eventsAt (o + 1) ts = eventsAt (o + 1) us) :
    eventsAt o (.ack :: ts) = eventsAt o (.ack :: us) := by
  funext ec fc
  have := congrFun (congrFun h (ec + 1)) fc
  simp only [eventsAt] at this
  simp only [eventsAt, eventsOf, this]

theorem eventsAt_frame {raw : Bytes}
    (h : eventsAt (o + raw.length) ts = eventsAt (o + raw.length) us) :
    eventsAt o (.frame raw :: ts) = eventsAt o (.frame raw :: us) := by
  funext ec fc
  have := congrFun (congrFun h (ec + 1)) (fc + 1)
  simp only [eventsAt] at this
  simp only [eventsAt, eventsOf, this]

end

section
variable {m : Nat} {w : Bytes} {ss : List Bytes}

theorem runTokens_some {tok : Token} (h : Token.next m false w = some tok) :
    runTokens m (w :: ss) = tok :: runTokens m (w.drop tok.raw.length :: ss) := by
  simp only [runTokens, scanSlices, List.nil_append, scan_some h, List.cons_append]

/-- A buffer that waits is read together with the next slice. -/
theorem runTokens_wait (h : Token.next m false w = none) (s : Bytes) :
    runTokens m (w :: s :: ss) = runTokens m ((w ++ s) :: ss) := by
  simp only [runTokens, scanSlices, List.nil_append, scan_none h]

/-- A buffer that waits at the end of the stream is read as final. -/
theorem runTokens_end (h : Token.next m false w = none) :
    runTokens m [w] = (scan m true w).1 := by
  simp only [runTokens, scanSlices, List.nil_append, scan_none h]

/-- A byte rejected up to the next control is as good as a byte rejected alone: the events are those
of the bytes behind it. -/
theorem run_skip_control {b : UInt8} {t : Bytes} {code : IssueCode} {detail : String}
    (h : Token.next m false (b :: t) = some (.skip code (b :: beforeControl t) detail)) (o : Nat) :
    eventsAt o (runTokens m ((b :: t) :: ss)) = eventsAt (o + 1) (runTokens m (t :: ss)) := by
  rw [runTokens_some h]
  simp only [eventsAt_skip, Token.raw, List.length_cons, List.drop_succ_cons]
  cases t with
  | nil => rfl
  | cons c t =>
    cases hc : isControl c with
    | true =>
      have : beforeControl (c :: t) = [] := by simp [beforeControl, hc]
      rw [this]
      rfl
    | false =>
      have hbc : beforeControl (c :: t) = c :: beforeControl t := by simp [beforeControl, hc]
      rw [runTokens_some (Token.next_other m false hc t), eventsAt_skip, hbc]
      simp only [Token.raw, List.length_cons, List.drop_succ_cons]
      congr 1
      omega

theorem run_other {b : UInt8} (hb : isControl b = false) (t : Bytes) (o : Nat) :
    eventsAt o (runTokens m ((b :: t) :: ss)) = eventsAt (o + 1) (runTokens m (t :: ss)) :=
  run_skip_control (Token.next_other m false hb t) o

theorem run_malformed {t : Bytes} (h : 5 ≤ t.length) (hd : headerDigits t = false) (o : Nat) :
    eventsAt o (runTokens m ((STX :: t) :: ss)) =
      eventsAt (o + 1 + resync t) (runTokens m (t.drop (resync t) :: ss)) := by
  rw [runTokens_some (Token.next_malformed m false h hd)]
  have hlen : (STX :: t.take (resync t)).length = resync t + 1 := by
    rw [List.length_cons, List.length_take, Nat.min_eq_left (resync_le t)]
  simp only [eventsAt_skip, Token.raw, hlen, List.drop_succ_cons]
  congr 1
  omega

/-- At the end of the stream a partial frame takes all that is left. -/
theorem run_truncated {t : Bytes} {code : IssueCode} {detail : String}
    (hw : Token.next m false (STX :: t) = none)
    (h : Token.next m true (STX :: t) = some (.skip code (STX :: t) detail)) (o : Nat) :
    eventsAt o (runTokens m [STX :: t]) = fun _ _ => [] := by
  rw [runTokens_end hw, scan_some h]
  simp only [Token.raw, List.drop_length]
  rw [scan_none (Token.next_nil m true)]
  rfl

end

/-! ## The whole stream at once -/

section
variable {m : Nat}

/-- The events of a suffix of the stream that is buffered whole. -/
def wholeEvents (m : Nat) (o : Nat) (r : Bytes) : Nat → Nat → List StreamEvent :=
  eventsAt o (runTokens m [r])

theorem wholeEvents_nil (o : Nat) : wholeEvents m o [] = fun _ _ => [] := by
  rw [wholeEvents, runTokens_end (Token.next_nil m false), scan_none (Token.next_nil m true)]
  rfl

theorem wholeEvents_short {t : Bytes} (h : t.length < 5) (o : Nat) :
    wholeEvents m o (STX :: t) = fun _ _ => [] :=
  run_truncated (Token.next_short m false h) (Token.next_short m true h) o

/-- An `STX` before the ACK at `k`, among the last five bytes of the stream. -/
def HiddenAt (r : Bytes) (k : Nat) : Prop :=
  r.getD k 0 = ACK ∧ ∃ j < k, r.length ≤ j + 5 ∧ r.getD j 0 = STX

/-- Behind junk, the whole stream is read on from the first plausible control, unless that is an
ACK with a partial header before it. -/
theorem wholeEvents_search {r : Bytes} {k : Nat} (h : plausibleSearch r = some k) :
    (∀ o, wholeEvents m o r = wholeEvents m (o + k) (r.drop k)) ∨ HiddenAt r k := by
  induction r generalizing k with
  | nil => cases h
  | cons b t ih =>
    rcases control_cases b with rfl | rfl | hb
    · rw [plausibleSearch_here (plausibleHere_ack t)] at h
      cases h
      exact .inl fun o => rfl
    · cases Header.of m t with
      | short h5 =>
        -- too short for a header: what is found is an ACK
        rw [plausibleSearch_short h5] at h
        obtain ⟨i, hi, rfl⟩ := Option.map_eq_some_iff.mp h
        refine .inr ⟨?_, 0, by omega, by simp; omega, rfl⟩
        rcases plausibleSearch_spec hi with hack | ⟨-, h6, -⟩
        · have := congrArg (fun l => l.getD 0 0) hack
          simpa [List.getD_eq_getElem?_getD] using this
        · omega
      | malformed h5 hd =>
        rw [plausibleSearch_malformed hd] at h
        obtain ⟨i, hi, rfl⟩ := Option.map_eq_some_iff.mp h
        refine .inl fun o => ?_
        have hr : resync t = i := by rw [resync, hi]
        rw [wholeEvents, run_malformed h5 hd o, hr]
        rw [wholeEvents, List.drop_succ_cons]
        congr 1
        omega
      | oversize h5 hd | partial_ h5 hd | unterminated h5 hd | frame h5 hd =>
        rw [plausibleSearch_header h5 hd] at h
        cases h
        exact .inl fun o => rfl
    · rw [plausibleSearch_other hb] at h
      obtain ⟨i, hi, rfl⟩ := Option.map_eq_some_iff.mp h
      rcases ih hi with hev | ⟨hack, j, hj, hlen, hstx⟩
      · refine .inl fun o => ?_
        rw [wholeEvents, run_other hb t o, ← wholeEvents, hev, List.drop_succ_cons]
        congr 1
        omega
      · exact .inr ⟨by simpa using hack, j + 1, by omega, by simp; omega, by simpa using hstx⟩

/-- Without a plausible control there are no events. -/
theorem wholeEvents_none {r : Bytes} (h : plausibleSearch r = none) (o : Nat) :
    wholeEvents m o r = fun _ _ => [] := by
  induction hn : r.length using Nat.strongRecOn generalizing r o with
  | _ n ih =>
    subst hn
    cases r with
    | nil => exact wholeEvents_nil o
    | cons b t =>
      rcases control_cases b with rfl | rfl | hb
      · rw [plausibleSearch_here (plausibleHere_ack t)] at h; cases h
      · cases Header.of m t with
        | short h5 => exact wholeEvents_short h5 o
        | malformed h5 hd =>
          rw [wholeEvents, run_malformed h5 hd o]
          rw [plausibleSearch_malformed hd, Option.map_eq_none_iff] at h
          refine ih _ ?_ (plausibleSearch_drop_none h _) _ rfl
          rw [List.length_drop, List.length_cons]
          omega
        | oversize h5 hd | partial_ h5 hd | unterminated h5 hd | frame h5 hd =>
          rw [plausibleSearch_header h5 hd] at h; cases h
      · rw [wholeEvents, run_other hb t o]
        rw [plausibleSearch_other hb, Option.map_eq_none_iff] at h
        exact ih _ (by simp) h _ rfl

end

/-! ## Hidden acknowledgements -/

/-- **A segmentation of the bytes can hide an ACK.** `n` is how many of them are sure to be buffered
when the first one is looked at: an unterminated frame is only rejected once all its bytes are
there. The walk is that of `_process` over the whole stream; it ends (`here`) at a malformed header
whose next plausible control is an ACK that need not have arrived, with an `STX` before it among the
last five bytes. -/
inductive HidesAck (m : Nat) : Nat → Bytes → Prop
  | ack {n : Nat} {t : Bytes} (next : HidesAck m (n - 1) t) : HidesAck m n (ACK :: t)
  | other {n : Nat} {b : UInt8} {t : Bytes} (hb : isControl b = false)
      (next : HidesAck m (n - 1) t) : HidesAck m n (b :: t)
  | oversize {n : Nat} {t : Bytes} (h : 5 ≤ t.length) (hd : headerDigits t = true)
      (ho : m < declaredLength t) (next : HidesAck m (n - 1) t) : HidesAck m n (STX :: t)
  | unterminated {n : Nat} {t : Bytes} (h : 5 ≤ t.length) (hd : headerDigits t = true)
      (ho : declaredLength t ≤ m) (hs : declaredLength t + 11 ≤ t.length + 1)
      (he : t.getD (declaredLength t + 9) 0 ≠ ETX)
      (next : HidesAck m (max n (declaredLength t + 11) - 1) t) : HidesAck m n (STX :: t)
  | frame {n : Nat} {t : Bytes} (h : 5 ≤ t.length) (hd : headerDigits t = true)
      (ho : declaredLength t ≤ m) (hs : declaredLength t + 11 ≤ t.length + 1)
      (he : t.getD (declaredLength t + 9) 0 = ETX)
      (next : HidesAck m (n - (declaredLength t + 11)) (t.drop (declaredLength t + 10))) :
      HidesAck m n (STX :: t)
  | skip {n i : Nat} {t : Bytes} (h : 5 ≤ t.length) (hd : headerDigits t = false)
      (hi : plausibleSearch t = some i) (next : HidesAck m (n - 1 - i) (t.drop i)) :
      HidesAck m n (STX :: t)
  | here {n i : Nat} {t : Bytes} (h : 5 ≤ t.length) (hd : headerDigits t = false)
      (hi : plausibleSearch t = some i) (hn : max n 6 ≤ i + 1) (hidden : HiddenAt t i) :
      HidesAck m n (STX :: t)

namespace HidesAck

variable {m n : Nat} {r : Bytes}

/-- The fewer bytes are sure to be buffered, the more can be hidden. -/
theorem mono {n' : Nat} (h : HidesAck m n r) (hle : n' ≤ n) : HidesAck m n' r := by
  induction h generalizing n' with
  | ack _ ih => exact .ack (ih (by omega))
  | other hb _ ih => exact .other hb (ih (by omega))
  | oversize h hd ho _ ih => exact .oversize h hd ho (ih (by omega))
  | unterminated h hd ho hs he _ ih => exact .unterminated h hd ho hs he (ih (by omega))
  | frame h hd ho hs he _ ih => exact .frame h hd ho hs he (ih (by omega))
  | skip h hd hi _ ih => exact .skip h hd hi (ih (by omega))
  | here h hd hi hn hidden => exact .here h hd hi (by omega) hidden

theorem search_ne_none (h : HidesAck m n r) : plausibleSearch r ≠ none := by
  induction h with
  | ack => rw [plausibleSearch_here (plausibleHere_ack _)]; simp
  | other hb _ ih => rw [plausibleSearch_other hb]; simpa using ih
  | oversize h hd | unterminated h hd | frame h hd => rw [plausibleSearch_header h hd]; simp
  | skip h hd hi | here h hd hi => rw [plausibleSearch_malformed hd, hi]; simp

/-- What is hidden behind junk is hidden behind the first plausible control, or is that control. -/
theorem at_search {k : Nat} (h : HidesAck m n r) (hk : plausibleSearch r = some k) :
    HidesAck m (n - k) (r.drop k) ∨ HiddenAt r k := by
  induction h generalizing k with
  | @ack n t next =>
    rw [plausibleSearch_here (plausibleHere_ack _)] at hk
    cases hk
    exact .inl (.ack next)
  | other hb _ ih =>
    rw [plausibleSearch_other hb] at hk
    obtain ⟨i, hi, rfl⟩ := Option.map_eq_some_iff.mp hk
    rcases ih hi with hr | ⟨hack, j, hj, hlen, hstx⟩
    · exact .inl (hr.mono (by omega))
    · exact .inr ⟨by simpa using hack, j + 1, by omega, by simp; omega, by simpa using hstx⟩
  | oversize h hd ho next =>
    rw [plausibleSearch_header h hd] at hk
    cases hk
    exact .inl (.oversize h hd ho next)
  | unterminated h hd ho hs he next =>
    rw [plausibleSearch_header h hd] at hk
    cases hk
    exact .inl (.unterminated h hd ho hs he next)
  | frame h hd ho hs he next =>
    rw [plausibleSearch_header h hd] at hk
    cases hk
    exact .inl (.frame h hd ho hs he next)
  | skip h hd hi next =>
    rw [plausibleSearch_malformed hd, hi, Option.map_some] at hk
    obtain rfl := Option.some.inj hk
    exact .inl (next.mono (by omega))
  | here h hd hi hn hidden =>
    rw [plausibleSearch_malformed hd, hi, Option.map_some] at hk
    obtain rfl := Option.some.inj hk
    obtain ⟨hack, j, hj, hlen, hstx⟩ := hidden
    exact .inr ⟨by simpa using hack, j + 1, by omega, by simp; omega, by simpa using hstx⟩

end HidesAck

/-! ## Streams without a hidden ACK -/

/-- An ACK hidden behind what has been skipped of a malformed header is hidden by that header. -/
theorem HiddenAt.of_resync {t x : Bytes} {i : Nat} (hi : plausibleSearch (t ++ x) = some i)
    (h : HiddenAt ((t ++ x).drop (resync t)) (i - resync t)) :
    t.length ≤ i ∧ HiddenAt (t ++ x) i := by
  have hle := resync_le_search hi
  have hlt := plausibleSearch_lt hi
  obtain ⟨hack, k, hk, hlen, hstx⟩ := h
  have hget : ∀ k, ((t ++ x).drop (resync t)).getD k 0 = (t ++ x).getD (resync t + k) 0 := by
    intro k
    rw [List.getD_eq_getElem?_getD, List.getElem?_drop, ← List.getD_eq_getElem?_getD]
  rw [hget] at hack hstx
  rw [List.length_drop] at hlen
  rw [show resync t + (i - resync t) = i by omega] at hack
  refine ⟨?_, hack, resync t + k, by omega, by omega, hstx⟩
  by_contra hit
  have hit : i < t.length := Nat.not_le.mp hit
  cases ht : plausibleSearch t with
  | some j =>
    -- a control that has arrived is where the search stops
    rw [plausibleSearch_append x ht] at hi
    have : resync t = j := by rw [resync, ht]
    have := Option.some.inj hi
    omega
  | none =>
    obtain ⟨-, hs, -⟩ := straddling ht hi hit
    have := congrArg (fun l => l.getD 0 0) hs
    rw [getD_append_left hit] at hack
    simp only [List.getD_eq_getElem?_getD, List.getElem?_drop, Nat.add_zero] at this hack
    rw [hack] at this
    simp at this

/-- Behind a malformed header: the bytes the search in the buffer leaves hide nothing more, and give
the same events as the bytes the search in the whole stream leaves. -/
theorem events_resync {m : Nat} {t x : Bytes} (h5 : 5 ≤ t.length) (hd : headerDigits t = false)
    (hno : ¬ HidesAck m (t.length + 1) (STX :: (t ++ x))) :
    ¬ HidesAck m (t.drop (resync t)).length ((t ++ x).drop (resync t)) ∧
      ∀ o, wholeEvents m (o + resync t) ((t ++ x).drop (resync t)) =
        wholeEvents m (o + resync (t ++ x)) ((t ++ x).drop (resync (t ++ x))) := by
  have h5' : 5 ≤ (t ++ x).length := by rw [List.length_append]; omega
  have hd' : headerDigits (t ++ x) = false := by rw [headerDigits_append h5, hd]
  cases hi : plausibleSearch (t ++ x) with
  | none =>
    have hdrop := plausibleSearch_drop_none hi
    refine ⟨fun h => h.search_ne_none (hdrop _), fun o => ?_⟩
    rw [wholeEvents_none (hdrop _), wholeEvents_none (hdrop _)]
  | some i =>
    have hle := resync_le_search hi
    have hs := plausibleSearch_drop hi hle
    have hr : resync (t ++ x) = i := by rw [resync, hi]
    have hdd : ((t ++ x).drop (resync t)).drop (i - resync t) = (t ++ x).drop i := by
      rw [List.drop_drop]; congr 1; omega
    have hvis : ¬ HiddenAt ((t ++ x).drop (resync t)) (i - resync t) := by
      intro h
      obtain ⟨hti, hid⟩ := HiddenAt.of_resync hi h
      exact hno (.here h5' hd' hi (by omega) hid)
    refine ⟨fun h => ?_, fun o => ?_⟩
    · rcases h.at_search hs with h | h
      · rw [hdd] at h
        refine hno (.skip h5' hd' hi (h.mono ?_))
        rw [List.length_drop]
        omega
      · exact hvis h
    · rcases wholeEvents_search hs with h | h
      · rw [h, hdd, hr]
        congr 1
        omega
      · exact absurd h hvis

/-! One step of the argument for each branch behind an `STX`: `ih` is the claim for the bytes that
are left. -/

section
variable {m o : Nat} {t x : Bytes} {ss : List Bytes} (h5 : 5 ≤ t.length)
  (hno : ¬ HidesAck m (t.length + 1) (STX :: (t ++ x)))
include h5 hno

theorem events_malformed (hd : headerDigits t = false)
    (ih : ¬ HidesAck m (t.drop (resync t)).length ((t ++ x).drop (resync t)) →
      eventsAt (o + 1 + resync t) (runTokens m (t.drop (resync t) :: ss)) =
        wholeEvents m (o + 1 + resync t) ((t ++ x).drop (resync t))) :
    eventsAt o (runTokens m ((STX :: t) :: ss)) = wholeEvents m o (STX :: (t ++ x)) := by
  obtain ⟨hno', hev⟩ := events_resync h5 hd hno
  rw [run_malformed h5 hd, ih hno', hev (o + 1), wholeEvents, wholeEvents,
    run_malformed (header_append x h5).1 (by rw [headerDigits_append h5, hd])]

variable (hd : headerDigits t = true)
include hd

theorem events_oversize (ho : m < declaredLength t)
    (ih : ¬ HidesAck m t.length (t ++ x) →
      eventsAt (o + 1) (runTokens m (t :: ss)) = wholeEvents m (o + 1) (t ++ x)) :
    eventsAt o (runTokens m ((STX :: t) :: ss)) = wholeEvents m o (STX :: (t ++ x)) := by
  obtain ⟨h5', hl, -⟩ := header_append x h5
  have hd' : headerDigits (t ++ x) = true := by rw [headerDigits_append h5, hd]
  rw [← hl] at ho
  rw [run_skip_control (Token.next_oversize m false h5 hd (hl ▸ ho)), wholeEvents,
    run_skip_control (Token.next_oversize m false h5' hd' ho)]
  exact ih fun h => hno (.oversize h5' hd' ho h)

variable (ho : declaredLength t ≤ m) (hs : declaredLength t + 11 ≤ t.length + 1)
include ho hs

theorem events_unterminated (he : t.getD (declaredLength t + 9) 0 ≠ ETX)
    (ih : ¬ HidesAck m t.length (t ++ x) →
      eventsAt (o + 1) (runTokens m (t :: ss)) = wholeEvents m (o + 1) (t ++ x)) :
    eventsAt o (runTokens m ((STX :: t) :: ss)) = wholeEvents m o (STX :: (t ++ x)) := by
  obtain ⟨h5', hl, hrest⟩ := header_append x h5
  obtain ⟨hs', he'⟩ := hrest hs
  have hd' : headerDigits (t ++ x) = true := by rw [headerDigits_append h5, hd]
  rw [run_skip_control (Token.next_unterminated m false h5 hd hs ho he), wholeEvents,
    run_skip_control (Token.next_unterminated m false h5' hd' (hl ▸ hs') (hl ▸ ho)
      (by rw [hl, he']; exact he))]
  refine ih fun h => hno (.unterminated h5' hd' (hl ▸ ho) (hl ▸ hs') (by rw [hl, he']; exact he) ?_)
  rw [hl, Nat.max_eq_left (by omega)]
  exact h

theorem events_frame (he : t.getD (declaredLength t + 9) 0 = ETX)
    (ih : ¬ HidesAck m (t.drop (declaredLength t + 10)).length
        ((t ++ x).drop (declaredLength t + 10)) →
      eventsAt (o + (declaredLength t + 11)) (runTokens m (t.drop (declaredLength t + 10) :: ss)) =
        wholeEvents m (o + (declaredLength t + 11)) ((t ++ x).drop (declaredLength t + 10))) :
    eventsAt o (runTokens m ((STX :: t) :: ss)) = wholeEvents m o (STX :: (t ++ x)) := by
  obtain ⟨h5', hl, hrest⟩ := header_append x h5
  obtain ⟨hs', he'⟩ := hrest hs
  have hd' : headerDigits (t ++ x) = true := by rw [headerDigits_append h5, hd]
  have hraw : (STX :: (t ++ x)).take (declaredLength t + 11) =
      (STX :: t).take (declaredLength t + 11) := by
    rw [← List.cons_append, List.take_append_of_le_length (by simp; omega)]
  have hlen : ((STX :: t).take (declaredLength t + 11)).length = declaredLength t + 11 := by
    rw [List.length_take, List.length_cons]; omega
  rw [runTokens_some (Token.next_frame m false h5 hd hs ho he), wholeEvents,
    runTokens_some (Token.next_frame m false h5' hd' (hl ▸ hs') (hl ▸ ho)
      (by rw [hl, he']; exact he)), hl, hraw]
  simp only [Token.raw, hlen, List.drop_succ_cons]
  refine eventsAt_frame (hlen.symm ▸ ih fun h => ?_)
  refine hno (.frame h5' hd' (hl ▸ ho) (hl ▸ hs') (by rw [hl, he']; exact he) ?_)
  rw [hl]
  refine h.mono ?_
  rw [List.length_drop]
  omega

end

/-- A run is settled by the buffers that do not wait: one that waits gets the next slice, or is the
whole stream. -/
theorem runTokens_events_wait {m o : Nat} {r w : Bytes} {ss : List Bytes}
    (hr : w ++ ss.flatten = r) (hno : ¬ HidesAck m w.length r)
    (step : ∀ {w ss}, Token.next m false w ≠ none → w ++ List.flatten ss = r →
      ¬ HidesAck m w.length r → eventsAt o (runTokens m (w :: ss)) = wholeEvents m o r) :
    eventsAt o (runTokens m (w :: ss)) = wholeEvents m o r := by
  induction ss generalizing w with
  | nil =>
    obtain rfl : w = r := by simpa using hr
    rfl
  | cons s ss ih =>
    by_cases hw : Token.next m false w = none
    · rw [runTokens_wait hw]
      refine ih (by simpa using hr) fun h => hno (h.mono ?_)
      rw [List.length_append]
      omega
    · exact step hw hr hno

/-- **The cuts do not show.** A buffer `w` with slices `ss` to come gives the events of the whole
stream, unless the stream hides an ACK from a buffer of that length. -/
theorem runTokens_events {m : Nat} {r w : Bytes} {ss : List Bytes} (hr : w ++ ss.flatten = r)
    (hno : ¬ HidesAck m w.length r) (o : Nat) :
    eventsAt o (runTokens m (w :: ss)) = wholeEvents m o r := by
  induction hn : r.length using Nat.strongRecOn generalizing r w ss o with
  | _ n ih =>
  subst hn
  refine runTokens_events_wait hr hno fun {w ss} hw hr hno => ?_
  subst hr
  cases w with
  | nil => exact absurd rfl hw
  | cons b t =>
    rw [List.cons_append, List.length_cons] at hno
    rw [List.cons_append]
    have htail : ¬ HidesAck m t.length (t ++ ss.flatten) →
        eventsAt (o + 1) (runTokens m (t :: ss)) = wholeEvents m (o + 1) (t ++ ss.flatten) :=
      fun h => ih _ (by simp) rfl h _ rfl
    -- what is left behind a longer token
    have hdrop : ∀ (k j : Nat), k ≤ t.length →
        ¬ HidesAck m (t.drop k).length ((t ++ ss.flatten).drop k) →
        eventsAt j (runTokens m (t.drop k :: ss)) =
          wholeEvents m j ((t ++ ss.flatten).drop k) :=
      fun k j hk h =>
        ih _ (by rw [List.length_drop, List.cons_append, List.length_cons]; omega)
          (List.drop_append_of_le_length hk).symm h _ rfl
    rcases control_cases b with rfl | rfl | hb
    · rw [runTokens_some (Token.next_ack m false t), wholeEvents,
        runTokens_some (Token.next_ack m false _)]
      exact eventsAt_ack (htail fun h => hno (.ack h))
    · cases Header.of m t with
      | short h5 => exact absurd (Token.next_short m false h5) hw
      | partial_ h5 hd ho hs => exact absurd (Token.next_partial m false h5 hd ho hs) hw
      | malformed h5 hd => exact events_malformed h5 hno hd (hdrop _ _ (resync_le t))
      | oversize h5 hd ho => exact events_oversize h5 hno hd ho htail
      | unterminated h5 hd ho hs he => exact events_unterminated h5 hno hd ho hs he htail
      | frame h5 hd ho hs he => exact events_frame h5 hno hd ho hs he (hdrop _ _ (by omega))
    · rw [run_other hb, wholeEvents, run_other hb]
      exact htail fun h => hno (.other hb h)

/-! ## A cut that hides the ACK -/

/-- The ACKs among some events. -/
def acksIn (es : List StreamEvent) : List AckEvent := es.filterMap StreamEvent.ack?

theorem ackCountOf_eq (ec fc o : Nat) (ts : List Token) :
    ackCountOf ts = (acksIn (eventsOf ec fc o ts)).length := by
  induction ts generalizing ec fc o with
  | nil => rfl
  | cons t ts ih =>
    cases t with
    | ack => simp [eventsOf, acksIn, StreamEvent.ack?, ih (ec + 1) fc (o + 1)]
    | frame raw => exact (ackCountOf_frame ts raw).trans (ih (ec + 1) (fc + 1) (o + raw.length))
    | skip code raw detail =>
      exact (ackCountOf_skip ts raw code detail).trans (ih ec fc (o + raw.length))

/-- Equal events are equally many ACKs. -/
theorem ackCountOf_congr {o o' : Nat} {ts us : List Token} (h : eventsAt o ts = eventsAt o' us) :
    ackCountOf ts = ackCountOf us := by
  rw [ackCountOf_eq 0 0 o ts, ackCountOf_eq 0 0 o' us]
  exact congrArg (fun e => (acksIn (e 0 0)).length) h

/-- What is read of a header in its first bytes. -/
theorem header_take {t : Bytes} {q : Nat} (h5 : 5 ≤ q) (hq : q ≤ t.length) :
    5 ≤ (t.take q).length ∧ headerDigits (t.take q) = headerDigits t ∧
      declaredLength (t.take q) = declaredLength t := by
  have hlen : 5 ≤ (t.take q).length := by rw [List.length_take]; omega
  refine ⟨hlen, ?_, ?_⟩
  · rw [← headerDigits_append hlen (x := t.drop q), List.take_append_drop]
  · rw [← (header_append (t.drop q) hlen).2.1, List.take_append_drop]

/-- The number of ACKs read from a buffer with slices to come. -/
def acksRead (m : Nat) (w : Bytes) (ss : List Bytes) : Nat := ackCountOf (runTokens m (w :: ss))

/-- The base of the argument: cut before the hidden ACK, the partial header before it takes it. -/
theorem HiddenAt.acksRead_lt {m i : Nat} {t : Bytes} (h5 : 5 ≤ t.length)
    (hd : headerDigits t = false) (hi : plausibleSearch t = some i) (h : 5 ≤ i)
    (hidden : HiddenAt t i) :
    acksRead m (STX :: t.take i) [t.drop i] < acksRead m (STX :: t) [] := by
  have hlt := plausibleSearch_lt hi
  have hlen : (t.take i).length = i := by rw [List.length_take]; omega
  obtain ⟨hack, j, hj, hlast, hstx⟩ := hidden
  -- the whole stream: the ACK is read
  have hwhole : 1 ≤ acksRead m (STX :: t) [] := by
    have hr : resync t = i := by rw [resync, hi]
    have hdrop : t.drop i = ACK :: t.drop (i + 1) := by
      rw [List.drop_eq_getElem_cons hlt, ← hack, List.getD_eq_getElem?_getD,
        List.getElem?_eq_getElem hlt]
      rfl
    rw [acksRead, ackCountOf_congr (run_malformed h5 hd 0), hr, hdrop,
      runTokens_some (Token.next_ack m false _), ackCountOf_ack]
    omega
  -- the cut stream: the last `STX` before it waits, and takes the rest
  have hcut : acksRead m (STX :: t.take i) [t.drop i] = 0 := by
    obtain ⟨h5', hd', -⟩ := header_take h (Nat.le_of_lt hlt)
    have hnone : plausibleSearch (t.take i) = none :=
      plausibleSearch_take fun k hk => by rw [hi] at hk; cases hk; exact Nat.le_refl _
    have hmem : STX ∈ (t.take i).drop j := by
      have : (t.take i).getD j 0 = STX := by rw [Framer.getD_take t hj]; exact hstx
      rw [List.drop_eq_getElem_cons (by omega)]
      rw [List.getD_eq_getElem?_getD, List.getElem?_eq_getElem (by omega)] at this
      simp only [Option.getD_some] at this
      simp [this]
    cases hr : rfindStx (t.take i) ((t.take i).length - 5) with
    | none =>
      refine absurd ?_ (rfindStx_none hr)
      have : (t.take i).drop j =
          ((t.take i).drop ((t.take i).length - 5)).drop (j - ((t.take i).length - 5)) := by
        rw [List.drop_drop]; congr 1; omega
      exact List.mem_of_mem_drop (this ▸ hmem)
    | some k =>
      obtain ⟨-, u, y, huy, hu, hy⟩ := rfindStx_some hr
      have hjk : j ≤ k := by
        by_contra hlt
        rw [huy, List.drop_append, List.drop_of_length_le (by omega), List.nil_append,
          show j - u.length = j - u.length - 1 + 1 by omega, List.drop_succ_cons] at hmem
        exact hy (List.mem_of_mem_drop hmem)
      have hresync : resync (t.take i) = k := by rw [resync, hnone, hr]; rfl
      have hleft : (t.take i).drop k = STX :: y := by rw [huy, ← hu, List.drop_left]
      have hylen : y.length = i - k - 1 := by
        have := congrArg List.length huy
        rw [hlen, List.length_append, List.length_cons] at this
        omega
      rw [acksRead, ackCountOf_congr (run_malformed h5' (hd'.trans hd) 0), hresync, hleft,
        runTokens_wait (Token.next_short m false (by omega)),
        ackCountOf_eq 0 0 0, List.cons_append]
      have hshort : (y ++ t.drop i).length < 5 := by
        rw [List.length_append, List.length_drop, hylen]; omega
      have := congrFun (congrFun (wholeEvents_short (m := m) hshort 0) 0) 0
      rw [wholeEvents, eventsAt] at this
      rw [this]
      rfl
  omega

/-- **A stream that hides an ACK has a cut that loses it**, past the bytes that are sure to be
buffered. -/
theorem HidesAck.exists_cut {m n : Nat} {r : Bytes} (h : HidesAck m n r) :
    ∃ q, n ≤ q ∧ 6 ≤ q ∧ q < r.length ∧
      acksRead m (r.take q) [r.drop q] < acksRead m r [] := by
  induction h with
  | @ack n t _ ih =>
    obtain ⟨q, hn, h6, hlt, hq⟩ := ih
    refine ⟨q + 1, by omega, by omega, by simp; omega, ?_⟩
    simp only [acksRead, List.take_succ_cons, List.drop_succ_cons,
      runTokens_some (Token.next_ack m false _), ackCountOf_ack, Token.raw, List.length_cons,
      List.length_nil, List.drop_zero] at hq ⊢
    omega
  | @other n b t hb _ ih =>
    obtain ⟨q, hn, h6, hlt, hq⟩ := ih
    refine ⟨q + 1, by omega, by omega, by simp; omega, ?_⟩
    rw [acksRead, acksRead, List.take_succ_cons, List.drop_succ_cons,
      ackCountOf_congr (run_other hb _ 0), ackCountOf_congr (run_other hb t 0)]
    exact hq
  | @oversize n t h hd ho _ ih =>
    obtain ⟨q, hn, h6, hlt, hq⟩ := ih
    obtain ⟨h5, hd', hl⟩ := header_take (t := t) (q := q) (by omega) (by omega)
    refine ⟨q + 1, by omega, by omega, by simp; omega, ?_⟩
    rw [acksRead, acksRead, List.take_succ_cons, List.drop_succ_cons,
      ackCountOf_congr (run_skip_control (Token.next_oversize m false h5 (hd'.trans hd)
        (hl ▸ ho)) 0),
      ackCountOf_congr (run_skip_control (Token.next_oversize m false h hd ho) 0)]
    exact hq
  | @unterminated n t h hd ho hs he _ ih =>
    obtain ⟨q, hn, h6, hlt, hq⟩ := ih
    obtain ⟨h5, hd', hl⟩ := header_take (t := t) (q := q) (by omega) (by omega)
    refine ⟨q + 1, by omega, by omega, by simp; omega, ?_⟩
    have hs' : declaredLength (t.take q) + 11 ≤ (t.take q).length + 1 := by
      rw [hl, List.length_take]; omega
    have he' : (t.take q).getD (declaredLength (t.take q) + 9) 0 ≠ ETX := by
      rw [hl, Framer.getD_take t (by omega)]; exact he
    rw [acksRead, acksRead, List.take_succ_cons, List.drop_succ_cons,
      ackCountOf_congr (run_skip_control (Token.next_unterminated m false h5 (hd'.trans hd) hs'
        (hl ▸ ho) he') 0),
      ackCountOf_congr (run_skip_control (Token.next_unterminated m false h hd hs ho he) 0)]
    exact hq
  | @frame n t h hd ho hs he _ ih =>
    obtain ⟨q, hn, h6, hlt, hq⟩ := ih
    rw [List.length_drop] at hlt
    have hsum : q + (declaredLength t + 11) = q + (declaredLength t + 10) + 1 := by omega
    obtain ⟨h5, hd', hl⟩ :=
      header_take (t := t) (q := q + (declaredLength t + 10)) (by omega) (by omega)
    refine ⟨q + (declaredLength t + 11), by omega, by omega, by simp; omega, ?_⟩
    generalize hw : t.take (q + (declaredLength t + 10)) = w at h5 hd' hl
    have hwlen : w.length = q + (declaredLength t + 10) := by
      rw [← hw, List.length_take]; omega
    have he' : w.getD (declaredLength t + 9) 0 = ETX := by
      rw [← hw, Framer.getD_take t (by omega)]; exact he
    have hfront : ∀ {v : Bytes}, declaredLength t + 11 ≤ v.length + 1 →
        ((STX :: v).take (declaredLength t + 11)).length = declaredLength t + 11 := by
      intro v hv
      rw [List.length_take, List.length_cons]
      omega
    have hcut : w.drop (declaredLength t + 10) = (t.drop (declaredLength t + 10)).take q := by
      rw [← hw, List.drop_take]; congr 1; omega
    have hrest : (t.drop (declaredLength t + 10)).drop q =
        t.drop (q + (declaredLength t + 10)) := by
      rw [List.drop_drop]; congr 1; omega
    rw [acksRead, acksRead, hsum, List.take_succ_cons, List.drop_succ_cons, hw,
      runTokens_some (Token.next_frame m false h5 (hd'.trans hd) (by rw [hl]; omega) (hl ▸ ho)
        (by rw [hl]; exact he')),
      runTokens_some (Token.next_frame m false h hd hs ho he), hl]
    simp only [Token.raw, hfront hs, hfront (v := w) (by omega), List.drop_succ_cons,
      ackCountOf_frame, hcut, ← hrest]
    exact hq
  | @skip n i t h hd hi _ ih =>
    obtain ⟨q, hn, h6, hlt, hq⟩ := ih
    rw [List.length_drop] at hlt
    obtain ⟨h5, hd', -⟩ := header_take (t := t) (q := q + i) (by omega) (by omega)
    refine ⟨q + i + 1, by omega, by omega, by simp; omega, ?_⟩
    have hr : resync t = i := by rw [resync, hi]
    -- the control that is skipped to has arrived
    have hr' : resync (t.take (q + i)) = i := by
      have hs : plausibleSearch (t.take (q + i)) ≠ none := by
        intro hnone
        have := straddling (x := t.drop (q + i)) hnone (by rw [List.take_append_drop]; exact hi)
          (by rw [List.length_take]; omega)
        rw [List.length_take] at this
        omega
      obtain ⟨k, hk⟩ := Option.ne_none_iff_exists'.mp hs
      have := plausibleSearch_append (t.drop (q + i)) hk
      rw [List.take_append_drop, hi] at this
      rw [resync, hk]
      exact (Option.some.inj this).symm
    have hcut : (t.take (q + i)).drop i = (t.drop i).take q := by
      rw [List.drop_take]; congr 1; omega
    have hrest : (t.drop i).drop q = t.drop (q + i) := by
      rw [List.drop_drop]; congr 1; omega
    rw [acksRead, acksRead, List.take_succ_cons, List.drop_succ_cons,
      ackCountOf_congr (run_malformed h5 (hd'.trans hd) 0),
      ackCountOf_congr (run_malformed h hd 0), hr', hr, hcut, ← hrest]
    exact hq
  | @here n i t h hd hi hn hidden =>
    have hlt := plausibleSearch_lt hi
    exact ⟨i + 1, by omega, by omega, by simp; omega,
      hidden.acksRead_lt h hd hi (by omega)⟩

/-! ## Whole runs -/

/-- What a result says about the events: the issues are left out. -/
def FramingResult.observed (r : FramingResult) : List StreamEvent × Nat × Nat × Bool :=
  (r.events, r.totalFrameCount, r.totalAckCount, r.eventsTruncated)

theorem frameCountOf_eq (ec fc o : Nat) (ts : List Token) :
    frameCountOf ts = (framesIn (eventsOf ec fc o ts)).length := by
  induction ts generalizing ec fc o with
  | nil => rfl
  | cons t ts ih =>
    cases t with
    | ack => exact (frameCountOf_ack ts).trans (ih (ec + 1) fc (o + 1))
    | frame raw =>
      rw [frameCountOf_frame, ih (ec + 1) (fc + 1) (o + raw.length), eventsOf, framesIn_frame,
        List.length_cons]
    | skip code raw detail =>
      exact (frameCountOf_skip ts raw code detail).trans (ih ec fc (o + raw.length))

/-- Runs with the same events say the same about them. -/
theorem resultOf_observed {lim : FramerLimits} {n n' : Nat} {ts us : List Token}
    (h : eventsAt 0 ts = eventsAt 0 us) :
    (resultOf lim n ts).observed = (resultOf lim n' us).observed := by
  have hev : eventsOf 0 0 0 ts = eventsOf 0 0 0 us := congrFun (congrFun h 0) 0
  obtain ⟨hf, ha, ht, -⟩ := resultOf_totals lim n ts
  obtain ⟨hf', ha', ht', -⟩ := resultOf_totals lim n' us
  rw [FramingResult.observed, FramingResult.observed, resultOf_events, resultOf_events, hf, hf',
    ha, ha', ht, ht', ackCountOf_congr h, frameCountOf_eq 0 0 0 ts, frameCountOf_eq 0 0 0 us,
    ← eventsOf_length 0 0 0 ts, ← eventsOf_length 0 0 0 us, hev]

/-- Without a hidden ACK, the slices of a stream do not show in its events. -/
theorem slices_events {m : Nat} {p : Bytes} (h : ¬ HidesAck m 0 p) {ss : List Bytes}
    (hss : ss.flatten = p) : eventsAt 0 (runTokens m ss) = wholeEvents m 0 p := by
  cases ss with
  | nil =>
    obtain rfl : p = [] := hss.symm
    rw [wholeEvents_nil]
    rw [runTokens, scanSlices, scan_none (Token.next_nil m true)]
    rfl
  | cons s ss => exact runTokens_events hss (fun h' => h (h'.mono (Nat.zero_le _))) 0

/-- A configuration with room for streams of `n` bytes. -/
def FramerLimits.roomy (m : Nat) (hm : m ≤ 999) (n : Nat) : FramerLimits where
  maxDataLength := m
  maxBufferBytes := m + 11 + n
  maxEvents := 1
  maxIssues := 1
  maxIssueRawBytes := 0
  dataLength_le := hm
  frame_fits := Nat.le_add_right _ _
  events_pos := Nat.le_refl _
  issues_pos := Nat.le_refl _

/-- **Segmentation independence, and its one exception.** For a stream `p`: every segmentation gives
the events, the counts and the truncation flag of `frame_stream(p)`, under every configuration with
this length limit, exactly when the stream hides no ACK. -/
theorem segmentation_independent_iff (m : Nat) (hm : m ≤ 999) (p : Bytes) :
    (∀ (lim : FramerLimits) (chunks : List Bytes), lim.maxDataLength = m → chunks.flatten = p →
      ∃ r r', frameChunks lim true chunks = .ok r ∧ frameStream lim p = .ok r' ∧
        r.observed = r'.observed) ↔ ¬ HidesAck m 0 p := by
  constructor
  · intro hall h
    obtain ⟨q, -, h6, hlt, hq⟩ := h.exists_cut
    obtain ⟨r, r', hr, hr', hobs⟩ :=
      hall (.roomy m hm p.length) [p.take q, p.drop q] rfl (by simp)
    have hlen : p.length = q + (p.length - q) := by omega
    rw [frameChunks_fits] at hr
    · rw [frameStream, frameChunks_fits] at hr'
      · cases hr
        cases hr'
        have hacks := congrArg (fun o => o.2.2.1) hobs
        simp only [FramingResult.observed, (resultOf_totals _ _ _).2.1] at hacks
        exact absurd hacks (Nat.ne_of_lt hq)
      · simp only [FramerLimits.roomy, List.mem_singleton, forall_eq]
        exact ⟨List.length_pos_iff.mp (by omega), by omega⟩
    · simp only [FramerLimits.roomy, List.mem_cons, List.not_mem_nil, or_false, forall_eq_or_imp,
        forall_eq, ← List.length_pos_iff, List.length_take, List.length_drop]
      omega
  · intro h lim chunks hlim hp
    obtain ⟨ss, hss, hrun⟩ := frameChunks_eq lim chunks
    obtain ⟨ss', hss', hrun'⟩ := frameChunks_eq lim [p]
    refine ⟨_, _, hrun, hrun', resultOf_observed ?_⟩
    rw [hlim, slices_events h (hss.trans hp), slices_events h (hss'.trans (by simp))]

/-- The stream of `segmentation_hides_ack` but for its last `STX` hides nothing. -/
theorem segmentation_independent_iff_plain :
    ∃ r r', frameChunks .default true [[STX, 0x41, 0x41, 0x41, 0x41, 0x41, 0x31], [ACK]] = .ok r ∧
      frameStream .default [STX, 0x41, 0x41, 0x41, 0x41, 0x41, 0x31, ACK] = .ok r' ∧
      r.observed = r'.observed := by
  refine (segmentation_independent_iff 999 (by decide) _).mpr (fun h => ?_) _ _ rfl rfl
  cases h with
  | other hb => exact absurd hb (by decide)
  | oversize _ hd | unterminated _ hd | frame _ hd => exact absurd hd (by decide)
  | skip _ _ hi next =>
    obtain rfl := Option.some.inj hi
    cases next with
    | ack next => cases next
    | other hb => exact absurd hb (by decide)
  | here _ _ hi _ hidden =>
    obtain rfl := Option.some.inj hi
    exact absurd hidden.2 (by decide)

/-- A malformed header, an `STX` that may still become one and an ACK. Fed at once the framer skips
to the ACK; fed with the ACK apart, it keeps the second `STX` and loses the ACK. -/
theorem segmentation_hides_ack :
    ∃ r r', frameChunks .default true
        [[STX, 0x41, 0x41, 0x41, 0x41, 0x41, STX, 0x31], [ACK]] = .ok r ∧
      frameStream .default [STX, 0x41, 0x41, 0x41, 0x41, 0x41, STX, 0x31, ACK] = .ok r' ∧
      r.events = [] ∧ r.totalAckCount = 0 ∧
      r'.events = [.ack { eventId := 1, streamOffset := 8, raw := [ACK] }] ∧
      r'.totalAckCount = 1 ∧ r.observed ≠ r'.observed := by
  refine ⟨_, _, rfl, rfl, rfl, rfl, rfl, rfl, ?_⟩
  decide

end RchProxy
