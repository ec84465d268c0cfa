import RchProxy.Framing.Framer

/-!
# Reading tokens off a buffer

`_process` as a function of the buffered bytes alone. `Token.next` is the decision of one turn of
its loop: the token at the front of the buffer, or nothing when the bytes end inside a frame and
more may come. `scan` takes tokens until it stops, and what is left over is the carry the framer
keeps for the next slice. `scanSlices` runs it over the slices of a stream.
-/

namespace RchProxy

open Py

/-- What one turn of `_process` takes off the buffer: an ACK, a complete frame, or rejected bytes
with their diagnosis. -/
inductive Token where
  | ack
  | frame (raw : Bytes)
  | skip (code : IssueCode) (raw : Bytes) (detail : String)
  deriving DecidableEq, Repr

/-- The bytes of a token. -/
def Token.raw : Token → Bytes
  | ack => [ACK]
  | frame raw => raw
  | skip _ raw _ => raw

/-- The bytes after an `STX` start with five decimal digits, `AA` and `LLL`. -/
def headerDigits (t : Bytes) : Bool := (t.take 5).all isDigit

/-- The number `LLL` in the bytes after an `STX`. -/
def declaredLength (t : Bytes) : Nat := intOfDigits ((t.drop 2).take 3)

/-- The bytes of `t` before its first control byte. -/
def beforeControl (t : Bytes) : Bytes := t.takeWhile fun b => !isControl b

/-- How many bytes of `t` a rejected header before it takes along: up to the next plausible
control, else up to the last `STX` of the final five bytes, else all. -/
def resync (t : Bytes) : Nat :=
  match plausibleSearch t with
  | some i => i
  | none => (rfindStx t (t.length - 5)).getD t.length

/-- The token at the front of a buffer, if it can be told: `none` on an empty buffer and, unless
`final`, on one that ends inside a frame. `m` is `max_data_length`. -/
def Token.next (m : Nat) (final : Bool) : Bytes → Option Token
  | [] => none
  | b :: t =>
    if b == ACK then some .ack
    else if b != STX then
      some (.skip .unframedBytes (b :: beforeControl t)
        "bytes outside an STX frame or standalone ACK")
    else if t.length < 5 then
      if final then
        some (.skip .truncatedFrame (b :: t) "stream ended inside the fixed frame header")
      else none
    else if !headerDigits t then
      some (.skip .malformedHeader (b :: t.take (resync t))
        "AA and LLL must be ASCII decimal digits")
    else if m < declaredLength t then
      some (.skip .oversizeFrame (b :: beforeControl t)
        s!"declared data length {declaredLength t} exceeds configured limit {m}")
    else if t.length + 1 < declaredLength t + 11 then
      if final then
        some (.skip .truncatedFrame (b :: t)
          s!"declared frame size {declaredLength t + 11} bytes but only {t.length + 1} remain")
      else none
    else if t.getD (declaredLength t + 9) 0 != ETX then
      some (.skip .invalidTerminator (b :: beforeControl t)
        s!"expected ETX at relative offset {declaredLength t + 10}")
    else some (.frame ((b :: t).take (declaredLength t + 11)))

/-! One equation for each branch. -/

namespace Token

section
variable (m : Nat) (final : Bool) {t : Bytes}

theorem next_ack (t : Bytes) : next m final (ACK :: t) = some .ack := by simp [next]

theorem next_other {b : UInt8} (hb : isControl b = false) (t : Bytes) :
    next m final (b :: t) = some (.skip .unframedBytes (b :: beforeControl t)
      "bytes outside an STX frame or standalone ACK") := by
  simp only [isControl, Bool.or_eq_false_iff] at hb
  simp [next, hb.1, hb.2, bne]

theorem next_short (h : t.length < 5) :
    next m final (STX :: t) = if final then
      some (.skip .truncatedFrame (STX :: t) "stream ended inside the fixed frame header")
    else none := by
  simp [next, h]

theorem next_malformed (h : 5 ≤ t.length) (hd : headerDigits t = false) :
    next m final (STX :: t) = some (.skip .malformedHeader (STX :: t.take (resync t))
      "AA and LLL must be ASCII decimal digits") := by
  simp [next, Nat.not_lt.mpr h, hd]

variable (h : 5 ≤ t.length) (hd : headerDigits t = true)
include h hd

theorem next_oversize (ho : m < declaredLength t) :
    next m final (STX :: t) = some (.skip .oversizeFrame (STX :: beforeControl t)
      s!"declared data length {declaredLength t} exceeds configured limit {m}") := by
  simp [next, Nat.not_lt.mpr h, hd, ho]

theorem next_partial (ho : declaredLength t ≤ m) (hs : t.length + 1 < declaredLength t + 11) :
    next m final (STX :: t) = if final then
      some (.skip .truncatedFrame (STX :: t)
        s!"declared frame size {declaredLength t + 11} bytes but only {t.length + 1} remain")
    else none := by
  simp [next, Nat.not_lt.mpr h, hd, Nat.not_lt.mpr ho, hs]

variable (hs : declaredLength t + 11 ≤ t.length + 1)
include hs

theorem next_unterminated (ho : declaredLength t ≤ m)
    (he : t.getD (declaredLength t + 9) 0 ≠ ETX) :
    next m final (STX :: t) = some (.skip .invalidTerminator (STX :: beforeControl t)
      s!"expected ETX at relative offset {declaredLength t + 10}") := by
  have he' : (t.getD (declaredLength t + 9) 0 != ETX) = true := by simpa [bne] using he
  simp only [next, Nat.not_lt.mpr h, hd, Nat.not_lt.mpr ho, Nat.not_lt.mpr hs, he']
  rfl

theorem next_frame (ho : declaredLength t ≤ m) (he : t.getD (declaredLength t + 9) 0 = ETX) :
    next m final (STX :: t) = some (.frame ((STX :: t).take (declaredLength t + 11))) := by
  simp only [next, Nat.not_lt.mpr h, hd, Nat.not_lt.mpr ho, Nat.not_lt.mpr hs, he]
  rfl

end

end Token

/-! ## The branches behind an `STX` -/

/-- What the bytes `t` behind an `STX` are, as `_process` tells them apart. -/
inductive Header (m : Nat) (t : Bytes) : Prop
  | short (h : t.length < 5)
  | malformed (h : 5 ≤ t.length) (hd : headerDigits t = false)
  | oversize (h : 5 ≤ t.length) (hd : headerDigits t = true) (ho : m < declaredLength t)
  | partial_ (h : 5 ≤ t.length) (hd : headerDigits t = true) (ho : declaredLength t ≤ m)
      (hs : t.length + 1 < declaredLength t + 11)
  | unterminated (h : 5 ≤ t.length) (hd : headerDigits t = true) (ho : declaredLength t ≤ m)
      (hs : declaredLength t + 11 ≤ t.length + 1) (he : t.getD (declaredLength t + 9) 0 ≠ ETX)
  | frame (h : 5 ≤ t.length) (hd : headerDigits t = true) (ho : declaredLength t ≤ m)
      (hs : declaredLength t + 11 ≤ t.length + 1) (he : t.getD (declaredLength t + 9) 0 = ETX)

theorem Header.of (m : Nat) (t : Bytes) : Header m t := by
  by_cases h : t.length < 5
  · exact .short h
  have h : 5 ≤ t.length := Nat.not_lt.mp h
  cases hd : headerDigits t with
  | false => exact .malformed h hd
  | true =>
    by_cases ho : m < declaredLength t
    · exact .oversize h hd ho
    have ho : declaredLength t ≤ m := Nat.not_lt.mp ho
    by_cases hs : t.length + 1 < declaredLength t + 11
    · exact .partial_ h hd ho hs
    have hs : declaredLength t + 11 ≤ t.length + 1 := Nat.not_lt.mp hs
    by_cases he : t.getD (declaredLength t + 9) 0 = ETX
    · exact .frame h hd ho hs he
    · exact .unterminated h hd ho hs he

/-- A byte is an ACK, an `STX`, or opens nothing. -/
theorem control_cases (b : UInt8) : b = ACK ∨ b = STX ∨ isControl b = false := by
  by_cases h1 : b = ACK
  · exact .inl h1
  by_cases h2 : b = STX
  · exact .inr (.inl h2)
  · exact .inr (.inr (by simp [isControl, h1, h2]))

/-! ## The searches of the source -/

theorem beforeControl_append (t : Bytes) :
    t = beforeControl t ++ t.drop (beforeControl t).length := by
  induction t with
  | nil => rfl
  | cons b t ih =>
    cases hb : isControl b with
    | true => simp [beforeControl, hb]
    | false =>
      have h : beforeControl (b :: t) = b :: beforeControl t := by simp [beforeControl, hb]
      rw [h, List.cons_append, List.length_cons, List.drop_succ_cons, ← ih]

theorem beforeControl_length_le (t : Bytes) : (beforeControl t).length ≤ t.length := by
  have := congrArg List.length (beforeControl_append t)
  simp only [List.length_append] at this
  omega

theorem take_beforeControl (t : Bytes) : t.take (beforeControl t).length = beforeControl t := by
  have h : (beforeControl t ++ t.drop (beforeControl t).length).take (beforeControl t).length =
      beforeControl t := List.take_left
  rwa [← beforeControl_append] at h

/-- `_next_control` from the second byte on finds the end of `beforeControl`. -/
theorem nextControl_one (b : UInt8) (t : Bytes) :
    (nextControl (b :: t) 1).getD (t.length + 1) = (beforeControl t).length + 1 := by
  simp only [nextControl, List.drop_succ_cons, List.drop_zero]
  have h : (t.findIdx? isControl).getD t.length = (beforeControl t).length := by
    induction t with
    | nil => rfl
    | cons x t ih =>
      cases hx : isControl x with
      | true => simp [List.findIdx?_cons, beforeControl, hx]
      | false =>
        have hb : beforeControl (x :: t) = x :: beforeControl t := by simp [beforeControl, hx]
        rw [List.findIdx?_cons, hb, hx]
        change _ = (beforeControl t).length + 1
        rw [← ih]
        cases t.findIdx? isControl <;> simp
  rw [← h]
  cases t.findIdx? isControl <;> simp [Nat.add_comm]

/-- `_next_plausible_control` from the second byte on is `resync` of the rest. -/
theorem nextPlausibleControl_one (b : UInt8) (t : Bytes) :
    (nextPlausibleControl (b :: t) 1).getD (t.length + 1) = resync t + 1 := by
  simp only [nextPlausibleControl, resync, List.drop_succ_cons, List.drop_zero]
  cases plausibleSearch t with
  | some i => simp [Nat.add_comm]
  | none =>
    have hm : max 1 ((b :: t).length - 5) - 1 = t.length - 5 := by simp; omega
    rw [rfindStx, hm]
    cases rfindStx t (t.length - 5) <;> simp

/-- A match of the header pattern splits the bytes where it starts. -/
theorem plausibleSearch_some {t : Bytes} {i : Nat} (h : plausibleSearch t = some i) :
    i ≤ t.length ∧ plausibleHere (t.drop i) = true := by
  induction t generalizing i with
  | nil => simp [plausibleSearch] at h
  | cons b t ih =>
    rw [plausibleSearch] at h
    split at h
    · next hp => cases h; exact ⟨by simp, hp⟩
    · cases hs : plausibleSearch t with
      | none => simp [hs] at h
      | some j =>
        simp only [hs, Option.map_some, Option.some.injEq] at h
        subst h
        obtain ⟨h1, h2⟩ := ih hs
        exact ⟨by simpa using h1, by simpa using h2⟩

/-- Where `rfind` finds an `STX`, the bytes split at it, and no later byte is one. -/
theorem rfindStx_some {t : Bytes} {s i : Nat} (h : rfindStx t s = some i) :
    s ≤ i ∧ ∃ x y, t = x ++ STX :: y ∧ x.length = i ∧ STX ∉ y := by
  induction t generalizing s i with
  | nil => simp [rfindStx] at h
  | cons b t ih =>
    rw [rfindStx] at h
    cases hr : rfindStx t (s - 1) with
    | some j =>
      simp only [hr, Option.some.injEq] at h
      subst h
      obtain ⟨h1, x, y, rfl, hx, hy⟩ := ih hr
      exact ⟨by omega, b :: x, y, rfl, by simp [hx], hy⟩
    | none =>
      simp only [hr] at h
      split at h
      · next hc =>
        cases h
        simp only [Bool.and_eq_true, decide_eq_true_eq, beq_iff_eq] at hc
        obtain ⟨rfl, rfl⟩ := hc
        refine ⟨Nat.le_refl _, [], t, rfl, rfl, fun hm => ?_⟩
        -- a later `STX` would have been found first
        clear ih
        induction t with
        | nil => cases hm
        | cons c t iht =>
          rw [rfindStx] at hr
          cases hr' : rfindStx t (0 - 1 - 1) with
          | some j =>
            simp only [hr'] at hr
            cases hr
          | none =>
            simp only [hr'] at hr
            rcases List.mem_cons.mp hm with rfl | hm
            · simp at hr
            · exact iht (by simpa using hr') hm
      · cases h

/-- Where `rfind` finds no `STX`, there is none from `s` on. -/
theorem rfindStx_none {t : Bytes} {s : Nat} (h : rfindStx t s = none) : STX ∉ t.drop s := by
  induction t generalizing s with
  | nil => simp
  | cons b t ih =>
    rw [rfindStx] at h
    cases hr : rfindStx t (s - 1) with
    | some j => simp [hr] at h
    | none =>
      simp only [hr] at h
      cases s with
      | zero =>
        have := ih hr
        simp only [Nat.zero_sub, List.drop_zero] at this
        simp only [List.drop_zero, List.mem_cons, not_or]
        refine ⟨fun hb => ?_, this⟩
        simp [← hb] at h
      | succ s => simpa using ih hr

theorem resync_le (t : Bytes) : resync t ≤ t.length := by
  unfold resync
  cases h : plausibleSearch t with
  | some i => exact (plausibleSearch_some h).1
  | none =>
    cases hr : rfindStx t (t.length - 5) with
    | none => simp
    | some j =>
      obtain ⟨_, x, y, ht, hx, _⟩ := rfindStx_some hr
      have := congrArg List.length ht
      simp at this ⊢
      omega

/-! ## Tokens are a front of the buffer -/

theorem Token.next_nil (m : Nat) (final : Bool) : Token.next m final [] = none := rfl

/-- A token is a non-empty front of the buffer it is read from. -/
theorem Token.next_front {m : Nat} {final : Bool} {w : Bytes} {tok : Token}
    (h : Token.next m final w = some tok) :
    tok.raw ≠ [] ∧ w = tok.raw ++ w.drop tok.raw.length := by
  cases w with
  | nil => simp [Token.next] at h
  | cons b t =>
    have hbc : b :: t = (b :: beforeControl t) ++ t.drop (beforeControl t).length := by
      conv_lhs => rw [beforeControl_append t]
      rfl
    simp only [Token.next] at h
    split at h
    · next hb =>
      have hb : b = ACK := by simpa using hb
      subst hb
      cases h
      exact ⟨by simp [Token.raw], rfl⟩
    split at h
    · cases h; exact ⟨by simp [Token.raw], by simpa [Token.raw] using hbc⟩
    split at h
    · split at h
      · cases h; simp [Token.raw]
      · cases h
    split at h
    · cases h
      refine ⟨by simp [Token.raw], ?_⟩
      have hr : (b :: t.take (resync t)).length = resync t + 1 := by
        simp [Nat.min_eq_left (resync_le t)]
      rw [Token.raw, hr, List.drop_succ_cons, List.cons_append, List.take_append_drop]
    split at h
    · cases h; exact ⟨by simp [Token.raw], by simpa [Token.raw] using hbc⟩
    split at h
    · split at h
      · cases h; simp [Token.raw]
      · cases h
    split at h
    · cases h; exact ⟨by simp [Token.raw], by simpa [Token.raw] using hbc⟩
    · next hlen _ =>
      cases h
      have hle : declaredLength t + 11 ≤ (b :: t).length := by simp; omega
      refine ⟨by simp [Token.raw], ?_⟩
      rw [Token.raw, List.length_take, Nat.min_eq_left hle, List.take_append_drop]

/-- Taking a token off leaves fewer bytes. -/
theorem Token.next_drop_lt {m : Nat} {final : Bool} {w : Bytes} {tok : Token}
    (h : Token.next m final w = some tok) : (w.drop tok.raw.length).length < w.length := by
  obtain ⟨hne, hw⟩ := Token.next_front h
  have hpos : 0 < tok.raw.length := List.length_pos_iff.mpr hne
  have := congrArg List.length hw
  simp only [List.length_append] at this
  omega

/-- `while self._available: ...`: the tokens taken off a buffer, and the bytes left over. -/
def scan (m : Nat) (final : Bool) (w : Bytes) : List Token × Bytes :=
  match h : Token.next m final w with
  | none => ([], w)
  | some tok =>
    have := Token.next_drop_lt h
    let rest := scan m final (w.drop tok.raw.length)
    (tok :: rest.1, rest.2)
termination_by w.length
decreasing_by exact this

theorem scan_none {m : Nat} {final : Bool} {w : Bytes} (h : Token.next m final w = none) :
    scan m final w = ([], w) := by
  rw [scan]
  split
  · rfl
  · next tok h' => rw [h] at h'; cases h'

theorem scan_some {m : Nat} {final : Bool} {w : Bytes} {tok : Token}
    (h : Token.next m final w = some tok) :
    scan m final w = (tok :: (scan m final (w.drop tok.raw.length)).1,
      (scan m final (w.drop tok.raw.length)).2) := by
  rw [scan]
  split
  · next h' => rw [h] at h'; cases h'
  · next tok' h' => rw [h] at h'; cases h'; rfl

/-- Induction along `scan`: a buffer it stops at, or a token and the scan of what follows. -/
theorem scan_induction (m : Nat) (final : Bool) {P : Bytes → Prop}
    (stop : ∀ w, Token.next m final w = none → P w)
    (step : ∀ w tok, Token.next m final w = some tok → P (w.drop tok.raw.length) → P w) :
    ∀ w, P w := by
  intro w
  induction hn : w.length using Nat.strongRecOn generalizing w with
  | _ n ih =>
    cases h : Token.next m final w with
    | none => exact stop w h
    | some tok => exact step w tok h (ih _ (hn ▸ Token.next_drop_lt h) _ rfl)

/-- The tokens of a scan and its carry are the buffer, in order. -/
theorem scan_flatten (m : Nat) (final : Bool) (w : Bytes) :
    ((scan m final w).1.map Token.raw).flatten ++ (scan m final w).2 = w := by
  induction w using scan_induction m final with
  | stop w h => simp [scan_none h]
  | step w tok h ih =>
    rw [scan_some h]
    simp only [List.map_cons, List.flatten_cons, List.append_assoc, ih]
    exact (Token.next_front h).2.symm

/-- Every token of a scan was read at the front of some buffer. -/
theorem scan_next (m : Nat) (final : Bool) (w : Bytes) :
    ∀ t ∈ (scan m final w).1, ∃ w', Token.next m final w' = some t := by
  induction w using scan_induction m final with
  | stop w h => simp [scan_none h]
  | step w tok h ih =>
    rw [scan_some h]
    intro t ht
    rcases List.mem_cons.mp ht with rfl | ht
    · exact ⟨w, h⟩
    · exact ih t ht

/-- A scan leaves a carry no token can be told of. -/
theorem scan_carry (m : Nat) (final : Bool) (w : Bytes) :
    Token.next m final (scan m final w).2 = none := by
  induction w using scan_induction m final with
  | stop w h => simpa [scan_none h] using h
  | step w tok h ih => simpa [scan_some h] using ih

/-- At the end of the stream every byte is part of a token. -/
theorem Token.next_final_eq_none {m : Nat} {w : Bytes} (h : Token.next m true w = none) :
    w = [] := by
  cases w with
  | nil => rfl
  | cons b t =>
    simp only [Token.next] at h
    repeat' split at h
    all_goals simp_all

theorem scan_final_carry (m : Nat) (w : Bytes) : (scan m true w).2 = [] :=
  Token.next_final_eq_none (scan_carry m true w)

/-- A carry is empty or a front of a frame that fits the length limit. -/
theorem Token.next_eq_none {m : Nat} {w : Bytes} (h : Token.next m false w = none) :
    w = [] ∨ (w.head? = some STX ∧ w.length ≤ m + 10) := by
  cases w with
  | nil => exact .inl rfl
  | cons b t =>
    simp only [Token.next] at h
    split at h
    · cases h
    split at h
    · cases h
    next hb =>
    have hb : b = STX := by simpa using hb
    refine .inr ⟨by simp [hb], ?_⟩
    split at h
    · next hl => simp only [List.length_cons]; omega
    split at h
    · cases h
    split at h
    · cases h
    next hm =>
    split at h
    · next hs => simp only [List.length_cons]; omega
    split at h <;> cases h

/-! ## Slices -/

/-- The tokens of a stream that arrives in slices, and the carry after the last one. -/
def scanSlices (m : Nat) : Bytes → List Bytes → List Token × Bytes
  | carry, [] => ([], carry)
  | carry, s :: ss =>
    let here := scan m false (carry ++ s)
    let rest := scanSlices m here.2 ss
    (here.1 ++ rest.1, rest.2)

theorem scanSlices_append (m : Nat) (c : Bytes) (ss ss' : List Bytes) :
    scanSlices m c (ss ++ ss') =
      ((scanSlices m c ss).1 ++ (scanSlices m (scanSlices m c ss).2 ss').1,
        (scanSlices m (scanSlices m c ss).2 ss').2) := by
  induction ss generalizing c with
  | nil => simp [scanSlices]
  | cons s ss ih => simp [scanSlices, ih]

/-- Nothing can be told yet of the carry behind the slices. -/
theorem scanSlices_carry {m : Nat} {c : Bytes} (ss : List Bytes) (h : Token.next m false c = none) :
    Token.next m false (scanSlices m c ss).2 = none := by
  induction ss generalizing c with
  | nil => exact h
  | cons s ss ih => exact ih (scan_carry m false (c ++ s))

/-- The tokens of a whole run: those of its slices, then those of the carry at the end. -/
def runTokens (m : Nat) (slices : List Bytes) : List Token :=
  let fed := scanSlices m [] slices
  fed.1 ++ (scan m true fed.2).1

/-- Every token of a run was read at the front of some buffer. -/
theorem runTokens_next (m : Nat) (ss : List Bytes) :
    ∀ t ∈ runTokens m ss, ∃ final w, Token.next m final w = some t := by
  have hs : ∀ (c : Bytes), ∀ t ∈ (scanSlices m c ss).1, ∃ w, Token.next m false w = some t := by
    induction ss with
    | nil => simp [scanSlices]
    | cons s ss ih =>
      intro c t ht
      rcases List.mem_append.mp ht with ht | ht
      · exact scan_next m false _ t ht
      · exact ih _ t ht
  intro t ht
  rcases List.mem_append.mp ht with ht | ht
  · exact ⟨false, hs [] t ht⟩
  · exact ⟨true, scan_next m true _ t ht⟩

theorem scanSlices_flatten (m : Nat) (c : Bytes) (ss : List Bytes) :
    ((scanSlices m c ss).1.map Token.raw).flatten ++ (scanSlices m c ss).2 = c ++ ss.flatten := by
  induction ss generalizing c with
  | nil => simp [scanSlices]
  | cons s ss ih =>
    simp only [scanSlices, List.map_append, List.flatten_append, List.append_assoc, ih,
      List.flatten_cons]
    rw [← List.append_assoc, scan_flatten, List.append_assoc]

/-- **No byte is lost.** The tokens of a run are the stream, in order, whatever its slices. -/
theorem runTokens_flatten (m : Nat) (ss : List Bytes) :
    ((runTokens m ss).map Token.raw).flatten = ss.flatten := by
  have h1 := scanSlices_flatten m [] ss
  have h2 := scan_flatten m true (scanSlices m [] ss).2
  rw [scan_final_carry, List.append_nil] at h2
  simp only [runTokens, List.map_append, List.flatten_append, h2, h1, List.nil_append]

end RchProxy
