import RchProxy.Framing.Tiling
import RchProxy.Py.Decimal

/-!
# The grammar of the wire

A stream the framer calls valid is a concatenation of wire frames and ACK bytes with at least one
frame, and every such stream is valid however it is cut (`frameChunks_grammar`). `WireFrame` is the
grammar, written down without the framer: its fields carry the conditions on the digits, the length
and the checksum. The proof follows a stream of units through the slices: a buffer that is a front
of such a stream yields its complete units and keeps a front of the next one.
-/

namespace RchProxy

open Py

/-- The value of a hexadecimal digit of either case. -/
def hexValue (b : UInt8) : Option Nat :=
  if 48 ≤ b ∧ b ≤ 57 then some (b.toNat - 48)
  else if 65 ≤ b ∧ b ≤ 70 then some (b.toNat - 55)
  else if 97 ≤ b ∧ b ≤ 102 then some (b.toNat - 87)
  else none

/-- The fields of a frame as they stand on the wire. -/
structure WireFields where
  a1 : UInt8
  a2 : UInt8
  l1 : UInt8
  l2 : UInt8
  l3 : UInt8
  frameClass : UInt8
  data : Bytes
  sequence : UInt8
  b1 : UInt8
  b2 : UInt8
  deriving DecidableEq, Repr

namespace WireFields

/-- The bytes from `STX` through the sequence byte. -/
def head (f : WireFields) : Bytes :=
  [STX, f.a1, f.a2, f.l1, f.l2, f.l3, f.frameClass] ++ f.data ++ [f.sequence]

/-- The bytes of a frame. -/
def encode (f : WireFields) : Bytes := f.head ++ [f.b1, f.b2, ETX]

/-- The fields are those of a frame with at most `m` data bytes. -/
structure Legal (m : Nat) (f : WireFields) : Prop where
  digits : [f.a1, f.a2, f.l1, f.l2, f.l3].all isDigit = true
  length_eq : intOfDigits [f.l1, f.l2, f.l3] = f.data.length
  length_le : f.data.length ≤ m
  bcc : ∃ x y, hexValue f.b1 = some x ∧ hexValue f.b2 = some y ∧
    16 * x + y = (calculateBcc f.head).toNat

end WireFields

/-- A frame of the grammar, with at most `m` data bytes. -/
structure WireFrame (m : Nat) extends WireFields where
  legal : toWireFields.Legal m

/-- A unit of a well-formed stream. -/
inductive WireUnit (m : Nat) where
  | ack
  | frame (f : WireFrame m)

namespace WireUnit

variable {m : Nat}

/-- The bytes of a unit. -/
def encode : WireUnit m → Bytes
  | ack => [ACK]
  | frame f => f.encode

/-- The token the framer should read for a unit. -/
def token : WireUnit m → Token
  | ack => .ack
  | frame f => .frame f.encode

/-- The unit is a frame. -/
def isFrame : WireUnit m → Bool
  | ack => false
  | frame _ => true

end WireUnit

/-- The bytes of a sequence of units. -/
def encodeAll {m : Nat} (us : List (WireUnit m)) : Bytes := (us.map WireUnit.encode).flatten

/-- The frame the framer should report for a wire frame. -/
def WireFields.frame (f : WireFields) (eventId frameId offset : Nat) : RCHFrame :=
  { eventId := eventId
    frameId := frameId
    streamOffset := offset
    raw := f.encode
    address := latin1 [f.a1, f.a2]
    dataLength := f.data.length
    frameClass := Char.ofNat f.frameClass.toNat
    data := f.data
    sequence := Char.ofNat f.sequence.toNat
    bcc := latin1 [f.b1, f.b2]
    expectedBcc := hex2 (calculateBcc f.head)
    bccValid := true }

/-- The events of a sequence of units: their fields, where they stand, with contiguous ids. -/
def unitEvents {m : Nat} : (events frames offset : Nat) → List (WireUnit m) → List StreamEvent
  | _, _, _, [] => []
  | e, n, o, .ack :: us =>
    .ack { eventId := e + 1, streamOffset := o, raw := [ACK] } :: unitEvents (e + 1) n (o + 1) us
  | e, n, o, .frame f :: us =>
    .frame (f.frame (e + 1) (n + 1) o) :: unitEvents (e + 1) (n + 1) (o + f.encode.length) us

/-! ## Bytes of a frame -/

namespace WireFields

variable (f : WireFields)

theorem head_length : f.head.length = f.data.length + 8 := by simp [head]

theorem encode_length : f.encode.length = f.data.length + 11 := by
  simp [encode, head_length]

/-- Equal bytes are equal fields. -/
theorem encode_inj {f g : WireFields} (h : f.encode = g.encode) : f = g := by
  have hlen : f.data.length = g.data.length := by
    have := congrArg List.length h
    simp only [encode_length] at this
    omega
  obtain ⟨a1, a2, l1, l2, l3, c, d, s, b1, b2⟩ := f
  obtain ⟨a1', a2', l1', l2', l3', c', d', s', b1', b2'⟩ := g
  simp only [encode, head, List.cons_append, List.nil_append, List.append_assoc,
    List.cons.injEq, true_and] at h
  obtain ⟨rfl, rfl, rfl, rfl, rfl, rfl, h⟩ := h
  obtain ⟨rfl, h⟩ := List.append_inj h hlen
  obtain ⟨rfl, rfl, rfl⟩ : s = s' ∧ b1 = b1' ∧ b2 = b2' := by simpa using h
  rfl

/-- The fields of enough bytes that start with `STX` and end with `ETX`. -/
theorem exists_of_bytes {raw : Bytes} {n : Nat} (hlen : raw.length = n + 11)
    (hstx : raw.head? = some STX) (hetx : raw.getD (n + 10) 0 = ETX) :
    ∃ f : WireFields, f.encode = raw ∧ f.data.length = n := by
  match raw, hlen with
  | b :: a1 :: a2 :: l1 :: l2 :: l3 :: c :: t, hlen =>
    obtain rfl : b = STX := by simpa using hstx
    have ht : t.length = n + 4 := by simp only [List.length_cons] at hlen; omega
    obtain ⟨d, u, rfl, hd⟩ : ∃ d u, t = d ++ u ∧ d.length = n :=
      ⟨t.take n, t.drop n, (List.take_append_drop n t).symm, by simp [ht]⟩
    have hu : u.length = 4 := by simp only [List.length_append] at ht; omega
    match u, hu with
    | [s, b1, b2, e], _ =>
      have he : e = ETX := by
        subst hd
        simpa [List.getD_eq_getElem?_getD] using hetx
      subst he
      exact ⟨⟨a1, a2, l1, l2, l3, c, d, s, b1, b2⟩, by simp [encode, head], hd⟩

end WireFields

/-! ## The checksum digits -/

theorem hexValue_lt {b : UInt8} {n : Nat} (h : hexValue b = some n) : n < 16 := by
  simp only [hexValue, UInt8.le_iff_toNat_le, UInt8.reduceToNat] at h
  split at h
  · cases h; omega
  split at h
  · cases h; omega
  split at h
  · cases h; omega
  · cases h

/-- The byte of a hexadecimal digit, as the framer reads it. -/
theorem hexValue_byte : ∀ k < 256, (match hexValue (UInt8.ofNat k) with
    | some n => "0123456789abcdefABCDEF".toList.contains (Char.ofNat (UInt8.ofNat k).toNat) &&
        (if UInt8.ofNat k < 128 then Char.ofNat (UInt8.ofNat k).toNat
          else Char.ofNat 0xFFFD).toUpper == hexDigit n
    | none => !"0123456789abcdefABCDEF".toList.contains (Char.ofNat (UInt8.ofNat k).toNat)) = true := by
  decide +kernel

theorem hexDigit_beq : ∀ m < 16, ∀ n < 16, (hexDigit m == hexDigit n) = decide (m = n) := by
  decide +kernel

/-- The framer's test of one checksum digit, for one nibble of the checksum. -/
theorem hexDigit_matches (b : UInt8) {n : Nat} (hn : n < 16) :
    ("0123456789abcdefABCDEF".toList.contains (Char.ofNat b.toNat) &&
      (if b < 128 then Char.ofNat b.toNat else Char.ofNat 0xFFFD).toUpper == hexDigit n) =
        decide (hexValue b = some n) := by
  have hbyte := hexValue_byte b.toNat b.toNat_lt
  rw [UInt8.ofNat_toNat] at hbyte
  cases hvalue : hexValue b with
  | none =>
    rw [hvalue, Bool.not_eq_true'] at hbyte
    rw [hbyte, Bool.false_and]
    exact (decide_eq_false nofun).symm
  | some m =>
    rw [hvalue, Bool.and_eq_true, beq_iff_eq] at hbyte
    rw [hbyte.1, hbyte.2, hexDigit_beq m (hexValue_lt hvalue) n hn, Bool.true_and]
    simp only [Option.some.injEq]

/-- `bcc_valid` in the words of the grammar. -/
theorem bccMatches_iff (b1 b2 v : UInt8) :
    Framer.bccMatches [b1, b2] (hex2 v) = true ↔
      ∃ x y, hexValue b1 = some x ∧ hexValue b2 = some y ∧ 16 * x + y = v.toNat := by
  have hv := v.toNat_lt
  have h1 := hexDigit_matches b1 (n := v.toNat / 16) (by omega)
  have h2 := hexDigit_matches b2 (n := v.toNat % 16) (by omega)
  have hbool : Framer.bccMatches [b1, b2] (hex2 v) =
      (decide (hexValue b1 = some (v.toNat / 16)) &&
        decide (hexValue b2 = some (v.toNat % 16))) := by
    rw [← h1, ← h2]
    simp only [Framer.bccMatches, Framer.bccSyntaxValid, asciiReplace, hex2, List.map_cons,
      List.map_nil, List.length_cons, List.length_nil, List.all_cons, List.all_nil, Bool.and_true,
      List.cons_beq_cons, beq_self_eq_true, Bool.true_and]
    ac_rfl
  rw [hbool, Bool.and_eq_true, decide_eq_true_eq, decide_eq_true_eq]
  constructor
  · rintro ⟨hx, hy⟩
    exact ⟨_, _, hx, hy, by omega⟩
  · rintro ⟨x, y, hx, hy, hxy⟩
    have := hexValue_lt hx
    have := hexValue_lt hy
    exact ⟨by rw [hx]; congr 1; omega, by rw [hy]; congr 1; omega⟩

/-! ## Frames and tokens -/

namespace WireFields

variable {m : Nat} {f : WireFields}

/-- The checksum of a frame is right exactly when its last digits spell it. -/
theorem rawBccValid_iff : rawBccValid f.encode = true ↔
    ∃ x y, hexValue f.b1 = some x ∧ hexValue f.b2 = some y ∧
      16 * x + y = (calculateBcc f.head).toNat := by
  rw [← bccMatches_iff]
  have hl : f.encode.length - 3 = f.head.length := by rw [encode_length, head_length]; omega
  have htake : f.encode.take f.head.length = f.head := List.take_left
  have hdrop : f.encode.drop f.head.length = [f.b1, f.b2, ETX] := List.drop_left
  simp only [rawBccValid, RCHFrame.ofRaw, hl, htake, hdrop]
  rfl

/-- The bytes after the `STX` of a frame. -/
theorem encode_eq : f.encode =
    STX :: f.a1 :: f.a2 :: f.l1 :: f.l2 :: f.l3 :: f.frameClass ::
      (f.data ++ [f.sequence, f.b1, f.b2, ETX]) := by
  simp [encode, head]

/-- The digits of a frame are those the framer reads behind its `STX`. -/
theorem header_of_encode (t : Bytes) :
    headerDigits ((f.encode ++ t).drop 1) = [f.a1, f.a2, f.l1, f.l2, f.l3].all isDigit ∧
      declaredLength ((f.encode ++ t).drop 1) = intOfDigits [f.l1, f.l2, f.l3] := by
  simp [encode_eq, headerDigits, declaredLength]

end WireFields

/-- What the framer takes for a frame has the fields of one, its checksum apart. -/
theorem Token.next_frame_fields {m : Nat} {final : Bool} {w raw : Bytes}
    (h : Token.next m final w = some (.frame raw)) :
    ∃ f : WireFields, f.encode = raw ∧ [f.a1, f.a2, f.l1, f.l2, f.l3].all isDigit = true ∧
      intOfDigits [f.l1, f.l2, f.l3] = f.data.length ∧ f.data.length ≤ m := by
  cases w with
  | nil => cases h
  | cons b t =>
    simp only [Token.next] at h
    split at h
    · cases h
    split at h
    · cases h
    next hb =>
    split at h
    · split at h <;> cases h
    split at h
    · cases h
    next hd =>
    split at h
    · cases h
    next hm =>
    split at h
    · split at h <;> cases h
    next hs =>
    split at h
    · cases h
    next he =>
    cases h
    have hb : b = STX := by simpa using hb
    have hlen : ((b :: t).take (declaredLength t + 11)).length = declaredLength t + 11 := by
      rw [List.length_take, List.length_cons]; omega
    have hetx : ((b :: t).take (declaredLength t + 11)).getD (declaredLength t + 10) 0 = ETX := by
      rw [Framer.getD_take _ (by omega)]
      simpa using he
    obtain ⟨f, hf, hn⟩ := WireFields.exists_of_bytes hlen (by simp [hb]) hetx
    obtain ⟨h1, h2⟩ := f.header_of_encode ((b :: t).drop (declaredLength t + 11))
    rw [hf, List.take_append_drop, List.drop_succ_cons, List.drop_zero] at h1 h2
    refine ⟨f, hf, ?_, ?_, ?_⟩
    · rw [← h1]; simpa using hd
    · rw [← h2, hn]
    · omega

/-- What the framer takes for a frame with the right checksum is a frame of the grammar. -/
theorem Token.next_wireFrame {m : Nat} {final : Bool} {w raw : Bytes}
    (h : Token.next m final w = some (.frame raw)) (hb : rawBccValid raw = true) :
    ∃ f : WireFrame m, f.encode = raw := by
  obtain ⟨f, rfl, h1, h2, h3⟩ := Token.next_frame_fields h
  exact ⟨⟨f, h1, h2, h3, WireFields.rawBccValid_iff.mp hb⟩, rfl⟩

namespace WireUnit

variable {m : Nat}

theorem encode_pos (u : WireUnit m) : 0 < u.encode.length := by
  cases u with
  | ack => simp [encode]
  | frame f => simp [encode, f.encode_length]

theorem token_raw (u : WireUnit m) : u.token.raw = u.encode := by cases u <;> rfl

/-- Distinct units are distinct tokens. -/
theorem token_inj {u v : WireUnit m} (h : u.token = v.token) : u = v := by
  cases u with
  | ack => cases v <;> first | rfl | cases h
  | frame f =>
    cases v with
    | ack => cases h
    | frame g =>
      obtain ⟨f, hf⟩ := f
      obtain ⟨g, hg⟩ := g
      have : f = g := WireFields.encode_inj (by simpa [token] using h)
      subst this
      rfl

/-- A buffer that starts with a unit gives its token. -/
theorem next_encode (final : Bool) (u : WireUnit m) (t : Bytes) :
    Token.next m final (u.encode ++ t) = some u.token := by
  cases u with
  | ack => exact Token.next_ack m final t
  | frame f =>
    obtain ⟨h1, h2⟩ := f.header_of_encode t
    have hcons : f.encode ++ t = STX :: (f.encode ++ t).drop 1 := by simp [WireFields.encode_eq]
    have hlen : (f.encode ++ t).length = f.data.length + 11 + t.length := by
      simp [WireFields.encode_length]
    have hdl : declaredLength ((f.encode ++ t).drop 1) = f.data.length := by
      rw [h2, f.legal.length_eq]
    have hdrop : ((f.encode ++ t).drop 1).length = f.data.length + 10 + t.length := by
      rw [List.length_drop, hlen]; omega
    rw [encode, hcons, Token.next_frame m final (by omega) (h1.trans f.legal.digits)
      (by rw [hdl]; omega) (by rw [hdl]; exact f.legal.length_le) ?_, ← hcons, hdl, token,
      ← f.encode_length, List.take_left]
    rw [hdl]
    simp [WireFields.encode_eq, List.getD_eq_getElem?_getD]

/-- A buffer that ends inside a unit waits for the rest of it. -/
theorem next_front {u : WireUnit m} {w t : Bytes} (h : w ++ t = u.encode)
    (hlt : w.length < u.encode.length) : Token.next m false w = none := by
  cases w with
  | nil => rfl
  | cons b w =>
    cases u with
    | ack => simp [encode] at hlt
    | frame f =>
      have hb : b = STX := by
        have := congrArg List.head? h
        simpa [encode, WireFields.encode_eq] using this
      subst hb
      by_cases h5 : w.length < 5
      · exact Token.next_short m false h5
      have hrest : w ++ t = f.encode.drop 1 := by
        have := congrArg (List.drop 1) h
        simpa [encode] using this
      obtain ⟨h1, h2⟩ := f.header_of_encode []
      rw [List.append_nil, ← hrest] at h1 h2
      have hdig : headerDigits w = true := by
        rw [← f.legal.digits, ← h1, headerDigits, headerDigits,
          List.take_append_of_le_length (by omega)]
      have hdl : declaredLength w = f.data.length := by
        rw [← f.legal.length_eq, ← h2, declaredLength, declaredLength,
          List.drop_append_of_le_length (by omega),
          List.take_append_of_le_length (by rw [List.length_drop]; omega)]
      rw [encode, f.encode_length, List.length_cons] at hlt
      exact Token.next_partial m false (by omega) hdig (hdl ▸ f.legal.length_le) (hdl ▸ hlt)

end WireUnit

/-! ## Streams of units -/

section
variable {m : Nat}

@[simp] theorem encodeAll_nil : encodeAll (m := m) [] = [] := rfl

@[simp] theorem encodeAll_cons (u : WireUnit m) (us : List (WireUnit m)) :
    encodeAll (u :: us) = u.encode ++ encodeAll us := rfl

theorem encodeAll_eq (us : List (WireUnit m)) :
    encodeAll us = ((us.map WireUnit.token).map Token.raw).flatten := by
  rw [encodeAll, List.map_map]
  congr 1
  exact List.map_congr_left fun u _ => u.token_raw.symm

/-- A buffer that is a front of a stream of units yields the units that are complete, and keeps a
front of the others. -/
theorem scan_units {us : List (WireUnit m)} {w t : Bytes} (h : w ++ t = encodeAll us) :
    ∃ done later, us = done ++ later ∧ (scan m false w).1 = done.map WireUnit.token ∧
      (scan m false w).2 ++ t = encodeAll later := by
  induction us generalizing w with
  | nil =>
    obtain ⟨rfl, rfl⟩ : w = [] ∧ t = [] := by simpa using h
    exact ⟨[], [], rfl, by rw [scan_none rfl]; rfl, by rw [scan_none rfl]; rfl⟩
  | cons u us ih =>
    rw [encodeAll_cons] at h
    by_cases hlt : w.length < u.encode.length
    · obtain ⟨v, hv⟩ : ∃ v, u.encode = w ++ v := by
        rcases List.append_eq_append_iff.mp h with ⟨v, hv, -⟩ | ⟨v, hv, -⟩
        · exact ⟨v, hv⟩
        · rw [hv, List.length_append] at hlt; omega
      have hn := scan_none (WireUnit.next_front hv.symm hlt)
      exact ⟨[], u :: us, rfl, by rw [hn]; rfl, by rw [hn]; exact h⟩
    · obtain ⟨v, rfl⟩ : ∃ v, w = u.encode ++ v := by
        rcases List.append_eq_append_iff.mp h with ⟨v, hv, -⟩ | ⟨v, hv, -⟩
        · have := congrArg List.length hv
          rw [List.length_append] at this
          have hv0 : v = [] := List.length_eq_zero_iff.mp (by omega)
          exact ⟨[], by rw [hv, hv0]; simp⟩
        · exact ⟨v, hv⟩
      rw [List.append_assoc] at h
      obtain ⟨done, later, rfl, h1, h2⟩ := ih (List.append_cancel_left h)
      have hs := scan_some (WireUnit.next_encode false u v)
      rw [u.token_raw, List.drop_left] at hs
      refine ⟨u :: done, later, rfl, ?_, ?_⟩
      · rw [hs, h1]; rfl
      · rw [hs]; exact h2

theorem scanSlices_units {us : List (WireUnit m)} {c : Bytes} {ss : List Bytes}
    (h : c ++ ss.flatten = encodeAll us) :
    ∃ done later, us = done ++ later ∧ (scanSlices m c ss).1 = done.map WireUnit.token ∧
      (scanSlices m c ss).2 = encodeAll later := by
  induction ss generalizing c us with
  | nil => exact ⟨[], us, rfl, rfl, by simpa [scanSlices] using h⟩
  | cons s ss ih =>
    rw [List.flatten_cons, ← List.append_assoc] at h
    obtain ⟨done, later, rfl, h1, h2⟩ := scan_units h
    obtain ⟨done', later', rfl, h3, h4⟩ := ih h2
    exact ⟨done ++ done', later', by rw [List.append_assoc], by simp [scanSlices, h1, h3], h4⟩

theorem scan_final_units (us : List (WireUnit m)) :
    (scan m true (encodeAll us)).1 = us.map WireUnit.token := by
  induction us with
  | nil => rw [encodeAll_nil, scan_none rfl]; rfl
  | cons u us ih =>
    have hs := scan_some (WireUnit.next_encode true u (encodeAll us))
    rw [u.token_raw, List.drop_left] at hs
    rw [encodeAll_cons, hs, List.map_cons, ih]

/-- A stream of units is read as these units, however it is cut. -/
theorem runTokens_units (us : List (WireUnit m)) (ss : List Bytes)
    (h : ss.flatten = encodeAll us) : runTokens m ss = us.map WireUnit.token := by
  obtain ⟨done, later, rfl, h1, h2⟩ := scanSlices_units (c := []) (by simpa using h)
  rw [runTokens, h1, h2, scan_final_units, List.map_append]

/-- **The decomposition is unique.** -/
theorem encodeAll_inj {us vs : List (WireUnit m)} (h : encodeAll us = encodeAll vs) : us = vs := by
  have hu := runTokens_units us [encodeAll us] (by simp)
  have hv := runTokens_units vs [encodeAll us] (by simp [h])
  exact List.map_injective_iff.mpr (fun _ _ => WireUnit.token_inj) (hu.symm.trans hv)

end

/-! ## Events of a stream of units -/

theorem asciiReplace_eq_latin1 {b : Bytes} (h : b.all (· < 128) = true) :
    asciiReplace b = latin1 b := by
  simp only [List.all_eq_true, decide_eq_true_eq] at h
  exact List.map_congr_left fun x hx => if_pos (h x hx)

theorem isDigit_lt {b : UInt8} (h : isDigit b = true) : b < 128 := by
  simp only [isDigit, Bool.and_eq_true, decide_eq_true_eq, UInt8.le_iff_toNat_le,
    UInt8.reduceToNat] at h
  simp only [UInt8.lt_iff_toNat_lt, UInt8.reduceToNat]
  omega

theorem hexValue_byte_lt {b : UInt8} {n : Nat} (h : hexValue b = some n) : b < 128 := by
  simp only [hexValue, UInt8.le_iff_toNat_le, UInt8.reduceToNat] at h
  simp only [UInt8.lt_iff_toNat_lt, UInt8.reduceToNat]
  by_contra hb
  rw [if_neg (by omega), if_neg (by omega), if_neg (by omega)] at h
  cases h

/-- The framer reports the fields of a frame. -/
theorem WireFrame.ofRaw_encode {m : Nat} (f : WireFrame m) (ev fr o : Nat) :
    RCHFrame.ofRaw ev fr o f.encode = f.frame ev fr o := by
  have hl : f.encode.length - 3 = f.head.length := by
    rw [f.encode_length, f.head_length]; omega
  have htake : f.encode.take f.head.length = f.head := List.take_left
  have hdrop : f.encode.drop f.head.length = [f.b1, f.b2, ETX] := List.drop_left
  have hbcc := WireFields.rawBccValid_iff.mpr f.legal.bcc
  obtain ⟨x, y, hx, hy, -⟩ := f.legal.bcc
  have hdig := f.legal.digits
  simp only [List.all_cons, List.all_nil, Bool.and_true, Bool.and_eq_true] at hdig
  have ha : asciiReplace [f.a1, f.a2] = latin1 [f.a1, f.a2] :=
    asciiReplace_eq_latin1 (by simp [isDigit_lt hdig.1, isDigit_lt hdig.2.1])
  have hb : asciiReplace [f.b1, f.b2] = latin1 [f.b1, f.b2] :=
    asciiReplace_eq_latin1 (by simp [hexValue_byte_lt hx, hexValue_byte_lt hy])
  rw [← ofRaw_bccValid ev fr o] at hbcc
  have hseq : f.encode.getD (f.encode.length - 4) 0 = f.sequence := by
    rw [f.encode_length, show f.data.length + 11 - 4 = f.data.length + 7 by omega]
    simp [WireFields.encode_eq, List.getD_eq_getElem?_getD]
  have hdata : (f.encode.drop 7).take (f.encode.length - 11) = f.data := by
    rw [f.encode_length, show f.data.length + 11 - 11 = f.data.length by omega]
    simp [WireFields.encode_eq]
  have haddr : (f.encode.drop 1).take 2 = [f.a1, f.a2] := by simp [WireFields.encode_eq]
  have hcls : f.encode.getD 6 0 = f.frameClass := by simp [WireFields.encode_eq]
  simp only [RCHFrame.ofRaw, hl, htake, hdrop, frameOverhead, hseq, hdata, haddr, hcls, ha,
    List.take_succ_cons, List.take_zero] at hbcc ⊢
  simp only [hbcc, WireFields.frame, hb, f.encode_length, Nat.add_sub_cancel]

section
variable {m : Nat}

theorem eventsOf_units (e n o : Nat) (us : List (WireUnit m)) :
    eventsOf e n o (us.map WireUnit.token) = unitEvents e n o us := by
  induction us generalizing e n o with
  | nil => rfl
  | cons u us ih =>
    cases u with
    | ack => simp [WireUnit.token, eventsOf, unitEvents, ih]
    | frame f => simp [WireUnit.token, eventsOf, unitEvents, ih, f.ofRaw_encode]

theorem eventCountOf_units (us : List (WireUnit m)) :
    eventCountOf (us.map WireUnit.token) = us.length := by
  induction us with
  | nil => rfl
  | cons u us ih => cases u <;> simp [WireUnit.token, ih]

/-- A stream of units within the event limit has no issue. -/
theorem issuesOf_units {lim : FramerLimits} {e o : Nat} {us : List (WireUnit m)}
    (h : e + us.length ≤ lim.maxEvents) : issuesOf lim e o (us.map WireUnit.token) = [] := by
  induction us generalizing e o with
  | nil => rfl
  | cons u us ih =>
    rw [List.length_cons] at h
    have hne : ¬ e = lim.maxEvents := by omega
    cases u with
    | ack => simp [WireUnit.token, issuesOf, hne, ih (e := e + 1) (by omega)]
    | frame f =>
      have hb := WireFields.rawBccValid_iff.mpr f.legal.bcc
      simp [WireUnit.token, issuesOf, hne, hb, ih (e := e + 1) (by omega)]

/-- Tokens without issues are units. -/
theorem exists_units {lim : FramerLimits} {e o : Nat} {ts : List Token}
    (hts : ∀ t ∈ ts, ∃ final w, Token.next m final w = some t)
    (h : issuesOf lim e o ts = []) : ∃ us : List (WireUnit m), ts = us.map WireUnit.token := by
  induction ts generalizing e o with
  | nil => exact ⟨[], rfl⟩
  | cons t ts ih =>
    have hrest : ∀ u ∈ ts, ∃ final w, Token.next m final w = some u :=
      fun u hu => hts u (by simp [hu])
    cases t with
    | ack =>
      obtain ⟨us, rfl⟩ := ih hrest (List.append_eq_nil_iff.mp h).2
      exact ⟨.ack :: us, rfl⟩
    | frame raw =>
      obtain ⟨h1, h2⟩ := List.append_eq_nil_iff.mp h
      obtain ⟨us, rfl⟩ := ih hrest h2
      obtain ⟨final, w, hw⟩ := hts (.frame raw) (by simp)
      have hb : rawBccValid raw = true := by
        by_contra hb
        simp [hb] at h1
      obtain ⟨f, rfl⟩ := Token.next_wireFrame hw hb
      exact ⟨.frame f :: us, rfl⟩
    | skip code raw detail => cases h

theorem unitEvents_frames (e n o : Nat) (us : List (WireUnit m)) :
    (framesIn (unitEvents e n o us)).isEmpty = !us.any WireUnit.isFrame ∧
      (framesIn (unitEvents e n o us)).all (·.bccValid) = true := by
  induction us generalizing e n o with
  | nil => exact ⟨rfl, rfl⟩
  | cons u us ih =>
    cases u with
    | ack => simpa only [unitEvents, framesIn_ack, List.any_cons, WireUnit.isFrame,
        Bool.false_or] using ih (e + 1) n (o + 1)
    | frame f =>
      have := (ih (e + 1) (n + 1) (o + f.encode.length)).2
      exact ⟨rfl, by simpa only [unitEvents, framesIn_frame, List.all_cons,
        WireFields.frame, Bool.true_and] using this⟩

end

/-! ## `build_frame` -/

/-- The byte of a decimal digit character. -/
theorem digit_byte {c : Char} (h : 48 ≤ c.toNat ∧ c.toNat ≤ 57) :
    isDigit (UInt8.ofNat c.toNat) = true ∧ Char.ofNat (UInt8.ofNat c.toNat).toNat = c := by
  have hn : (UInt8.ofNat c.toNat).toNat = c.toNat := by
    rw [UInt8.toNat_ofNat']; omega
  constructor
  · simp only [isDigit, Bool.and_eq_true, decide_eq_true_eq, UInt8.le_iff_toNat_le, hn,
      UInt8.reduceToNat]
    exact h
  · rw [hn, Char.ofNat_toNat]

/-- Decimal digits are written as bytes that spell the same number. -/
theorem encodeAscii_digits {t : Text} (h : ∀ c ∈ t, isDecimal c = true) :
    ∃ b, encodeAscii t = .ok b ∧ b.length = t.length ∧ b.all isDigit = true ∧
      intOfDigits b = Nat.ofDigitChars 10 t 0 := by
  have hrange : ∀ c ∈ t, 48 ≤ c.toNat ∧ c.toNat ≤ 57 := fun c hc => by simpa [isDecimal] using h c hc
  have hascii : t.all (fun c => c.toNat < 128) = true := List.all_eq_true.mpr fun c hc =>
    decide_eq_true (by have := hrange c hc; omega)
  refine ⟨t.map fun c => UInt8.ofNat c.toNat, by rw [encodeAscii, if_pos hascii],
    List.length_map _, ?_, ?_⟩
  · rw [List.all_map]
    exact List.all_eq_true.mpr fun c hc => (digit_byte (hrange c hc)).1
  · rw [intOfDigits, List.foldl_map, Nat.ofDigitChars_eq_foldl]
    refine List.foldl_ext _ _ _ fun n c hc => ?_
    have := hrange c hc
    rw [UInt8.toNat_ofNat', Nat.mod_eq_of_lt (by omega)]
    rfl

/-- `LLL` of a length that fits is three digits that spell it. -/
theorem encodeAscii_zeroPad {n : Nat} (h : n ≤ 999) :
    ∃ l1 l2 l3, encodeAscii (zeroPad 3 n) = .ok [l1, l2, l3] ∧
      [l1, l2, l3].all isDigit = true ∧ intOfDigits [l1, l2, l3] = n := by
  obtain ⟨b, hb, hlength, hall, hvalue⟩ := encodeAscii_digits (t := zeroPad 3 n)
    fun _ => zeroPad_isDecimal
  rw [zeroPad_length (by decide) (by omega)] at hlength
  obtain ⟨l1, l2, l3, rfl⟩ := List.length_eq_three.mp hlength
  exact ⟨l1, l2, l3, hb, hall, hvalue.trans (ofDigitChars_zeroPad 3 n)⟩

/-- A hexadecimal digit is written as the byte of its value. -/
theorem hexDigit_byte : ∀ n < 16, (hexDigit n).toNat < 128 ∧
    hexValue (UInt8.ofNat (hexDigit n).toNat) = some n := by
  decide

/-- The written checksum spells the checksum. -/
theorem encodeAscii_hex2 (v : UInt8) :
    ∃ b1 b2, encodeAscii (hex2 v) = .ok [b1, b2] ∧
      ∃ x y, hexValue b1 = some x ∧ hexValue b2 = some y ∧ 16 * x + y = v.toNat := by
  have hv := v.toNat_lt
  obtain ⟨hhigh, hx⟩ := hexDigit_byte (v.toNat / 16) (by omega)
  obtain ⟨hlow, hy⟩ := hexDigit_byte (v.toNat % 16) (by omega)
  refine ⟨_, _, if_pos ?_, _, _, hx, hy, by omega⟩
  simp only [hex2, List.all_cons, List.all_nil, hhigh, hlow, decide_true, Bool.and_self]

/-- An accepted address is two digits. -/
theorem encodeAscii_address {address : Text} (h : addressOk address = true) :
    ∃ a1 a2, encodeAscii address = .ok [a1, a2] ∧ isDigit a1 = true ∧ isDigit a2 = true ∧
      latin1 [a1, a2] = address := by
  simp only [addressOk, Bool.and_eq_true, beq_iff_eq] at h
  match address, h with
  | [c1, c2], ⟨_, h⟩ =>
    simp only [List.all_cons, List.all_nil, Bool.and_true, Bool.and_eq_true,
      decide_eq_true_eq] at h
    obtain ⟨h1, h1'⟩ := digit_byte h.1
    obtain ⟨h2, h2'⟩ := digit_byte h.2
    refine ⟨_, _, ?_, h1, h2, by simp only [latin1, List.map_cons, List.map_nil, h1', h2']⟩
    have hc1 : c1.toNat < 128 := by omega
    have hc2 : c2.toNat < 128 := by omega
    simp [encodeAscii, hc1, hc2]

/-- The arguments of a call of `build_frame`. -/
structure BuildArgs where
  data : BytesOrStr
  address : Text
  frameClass : BytesOrStr
  sequence : BytesOrStr
  deriving DecidableEq, Repr

/-- `build_frame(**args)`. -/
def BuildArgs.build (a : BuildArgs) : Except Error Bytes :=
  buildFrame a.data a.address a.frameClass a.sequence

/-- What `build_frame` returns is a frame of the grammar, with the arguments as its fields. -/
theorem BuildArgs.build_wireFrame {m : Nat} {a : BuildArgs} {raw d : Bytes}
    (h : a.build = .ok raw) (hd : a.data.encode encodeLatin1 = .ok d) (hm : d.length ≤ m) :
    ∃ f : WireFrame m, f.encode = raw ∧ f.data = d ∧ latin1 [f.a1, f.a2] = a.address ∧
      a.frameClass.encode encodeAscii = .ok [f.frameClass] ∧
      a.sequence.encode encodeAscii = .ok [f.sequence] := by
  unfold build buildFrame at h
  rw [hd] at h
  cases hc : a.frameClass.encode encodeAscii with
  | error e => simp [hc, bind, Except.bind] at h
  | ok c =>
  cases hs : a.sequence.encode encodeAscii with
  | error e => simp [hc, hs, bind, Except.bind] at h
  | ok s =>
  rw [hc, hs] at h
  simp only [bind, Except.bind, throw, throwThe, MonadExceptOf.throw, pure, Except.pure] at h
  split at h
  · cases h
  next haddr =>
  split at h
  · cases h
  next hclen =>
  split at h
  · cases h
  next hslen =>
  split at h
  · cases h
  next hdlen =>
  obtain ⟨a1, a2, haddr', ha1, ha2, hlat⟩ := encodeAscii_address (by simpa using haddr)
  obtain ⟨l1, l2, l3, hlen', hl, hln⟩ := encodeAscii_zeroPad (n := d.length) (by omega)
  obtain ⟨c, rfl⟩ := List.length_eq_one_iff.mp (Decidable.not_not.mp hclen)
  obtain ⟨s, rfl⟩ := List.length_eq_one_iff.mp (Decidable.not_not.mp hslen)
  obtain ⟨b1, b2, hbcc', hb⟩ :=
    encodeAscii_hex2 (calculateBcc (WireFields.head ⟨a1, a2, l1, l2, l3, c, d, s, 0, 0⟩))
  rw [haddr', hlen'] at h
  simp only [WireFields.head, List.cons_append, List.nil_append] at hbcc' h
  rw [hbcc'] at h
  cases h
  simp only [List.all_cons, List.all_nil, Bool.and_true, Bool.and_eq_true] at hl
  refine ⟨⟨⟨a1, a2, l1, l2, l3, c, d, s, b1, b2⟩, ?_, hln, hm, hb⟩, ?_, rfl, hlat, rfl, rfl⟩
  · simp only [List.all_cons, List.all_nil, Bool.and_true, ha1, ha2, hl.1, hl.2.1, hl.2.2]
  · simp [WireFields.encode, WireFields.head]

/-- What a peer sends: an ACK, or a frame from `build_frame`. -/
inductive Sent where
  | ack
  | build (a : BuildArgs)
  deriving DecidableEq, Repr

namespace Sent

/-- The bytes sent, if `build_frame` accepts the arguments. -/
def bytes : Sent → Except Error Bytes
  | ack => .ok [ACK]
  | build a => a.build

/-- The data fit the framer's length limit. -/
def Fits (m : Nat) : Sent → Prop
  | ack => True
  | build a => ∃ d, a.data.encode encodeLatin1 = .ok d ∧ d.length ≤ m

/-- The event has the fields that were sent. -/
def ReportedBy : Sent → StreamEvent → Prop
  | ack, .ack _ => True
  | build a, .frame f =>
    a.data.encode encodeLatin1 = .ok f.data ∧ f.address = a.address ∧ f.bccValid = true ∧
      (∃ c, a.frameClass.encode encodeAscii = .ok [c] ∧ f.frameClass = Char.ofNat c.toNat) ∧
      (∃ c, a.sequence.encode encodeAscii = .ok [c] ∧ f.sequence = Char.ofNat c.toNat)
  | _, _ => False

/-- What is sent is a unit of the grammar, whose event reports it. -/
theorem exists_unit {m : Nat} {s : Sent} {raw : Bytes} (h : s.bytes = .ok raw) (hf : s.Fits m) :
    ∃ u : WireUnit m, u.encode = raw ∧
      ∀ e n o us, ∃ ev e' n' o', unitEvents e n o (u :: us) = ev :: unitEvents e' n' o' us ∧
        s.ReportedBy ev := by
  cases s with
  | ack =>
    cases h
    exact ⟨.ack, rfl, fun e n o us => ⟨_, _, _, _, rfl, trivial⟩⟩
  | build a =>
    obtain ⟨d, hd, hm⟩ := hf
    obtain ⟨f, hraw, rfl, haddr, hc, hs⟩ := BuildArgs.build_wireFrame h hd hm
    exact ⟨.frame f, hraw, fun e n o us =>
      ⟨_, _, _, _, rfl, hd, haddr, rfl, ⟨_, hc, rfl⟩, ⟨_, hs, rfl⟩⟩⟩

theorem exists_units_of_all {m : Nat} {sent : List Sent} {raws : List Bytes}
    (h : List.Forall₂ (fun s raw => s.bytes = .ok raw) sent raws) (hf : ∀ s ∈ sent, s.Fits m) :
    ∃ us : List (WireUnit m), encodeAll us = raws.flatten ∧ us.length = sent.length ∧
      ∀ e n o, List.Forall₂ ReportedBy sent (unitEvents e n o us) := by
  induction h with
  | nil => exact ⟨[], rfl, rfl, fun _ _ _ => .nil⟩
  | cons hs _ ih =>
    obtain ⟨u, hu, hev⟩ := exists_unit hs (hf _ (by simp))
    obtain ⟨us, hus, hlen, hrep⟩ := ih fun s hs => hf s (by simp [hs])
    refine ⟨u :: us, by simp [hu, hus], by simp [hlen], fun e n o => ?_⟩
    obtain ⟨ev, e', n', o', heq, hr⟩ := hev e n o us
    rw [heq]
    exact .cons hr (hrep e' n' o')

end Sent

/-! ## The framer and the grammar -/

section
variable {lim : FramerLimits} {n : Nat}

/-- The result of a run that read a stream of units within the event limit. -/
theorem resultOf_units {m : Nat} {us : List (WireUnit m)} (h : us.length ≤ lim.maxEvents) :
    (resultOf lim n (us.map WireUnit.token)).events = unitEvents 0 0 0 us ∧
      (resultOf lim n (us.map WireUnit.token)).issues = [] ∧
      (resultOf lim n (us.map WireUnit.token)).valid = us.any WireUnit.isFrame := by
  have hno : issuesOf lim 0 0 (us.map WireUnit.token) = [] := issuesOf_units (by omega)
  obtain ⟨-, -, ht, ho⟩ := resultOf_totals lim n (us.map WireUnit.token)
  rw [eventCountOf_units, decide_eq_false (by omega)] at ht
  rw [hno, List.length_nil, Nat.zero_sub] at ho
  obtain ⟨-, hev, his⟩ := resultOf_complete ht ho
  rw [eventsOf_units] at hev
  rw [hno] at his
  refine ⟨hev, his, ?_⟩
  obtain ⟨h1, h2⟩ := unitEvents_frames 0 0 0 us
  have hframes : (resultOf lim n (us.map WireUnit.token)).frames = framesIn (unitEvents 0 0 0 us) := by
    rw [FramingResult.frames, hev, framesIn]
  rw [FramingResult.valid, hframes, h1, h2, his, ht, ho]
  simp

/-- A valid result comes from a stream of units within the event limit. -/
theorem exists_units_of_valid {ss : List Bytes}
    (h : (resultOf lim n (runTokens lim.maxDataLength ss)).valid = true) :
    ∃ us : List (WireUnit lim.maxDataLength), runTokens lim.maxDataLength ss =
      us.map WireUnit.token ∧ us.length ≤ lim.maxEvents := by
  simp only [FramingResult.valid, Bool.and_eq_true, Bool.not_eq_true', List.isEmpty_iff,
    beq_iff_eq] at h
  obtain ⟨⟨⟨⟨-, hno⟩, ht⟩, ho⟩, -⟩ := h
  obtain ⟨hn, -, his⟩ := resultOf_complete ht ho
  obtain ⟨us, hus⟩ := exists_units (runTokens_next lim.maxDataLength ss) (his ▸ hno)
  exact ⟨us, hus, by rw [hus, eventCountOf_units] at hn; exact hn⟩

end

/-- What was sent is reported back, within the event limit. -/
theorem frameChunks_sent (lim : FramerLimits) (chunks : List Bytes) {sent : List Sent}
    {raws : List Bytes} (hsent : List.Forall₂ (fun s raw => s.bytes = .ok raw) sent raws)
    (hraws : raws.flatten = chunks.flatten) (hfit : ∀ s ∈ sent, s.Fits lim.maxDataLength)
    (hn : sent.length ≤ lim.maxEvents) :
    ∃ r, frameChunks lim true chunks = .ok r ∧ List.Forall₂ Sent.ReportedBy sent r.events ∧
      r.issues = [] := by
  obtain ⟨ss, hss, hrun⟩ := frameChunks_eq lim chunks
  obtain ⟨us, hus, hlen, hrep⟩ := Sent.exists_units_of_all hsent hfit
  rw [runTokens_units us ss (hss.trans (hus.trans hraws).symm)] at hrun
  obtain ⟨hevents, hissues, -⟩ := resultOf_units (n := chunks.flatten.length) (hlen ▸ hn)
  exact ⟨_, hrun, hevents ▸ hrep 0 0 0, hissues⟩

/-- **The framer accepts exactly its grammar, and decoding undoes encoding.** For every stream and
every way of cutting it: the result is valid exactly when the stream is a sequence of frames and
ACKs, within the event limit and with a frame in it. Such a sequence is the only one with these
bytes; the events are its units, and there is no issue. What `build_frame` made is reported back
field by field. -/
theorem frameChunks_grammar (lim : FramerLimits) (chunks : List Bytes) :
    ∃ r, frameChunks lim true chunks = .ok r ∧
      (r.valid = true ↔ ∃ us : List (WireUnit lim.maxDataLength),
        encodeAll us = chunks.flatten ∧ us.any WireUnit.isFrame = true ∧
          us.length ≤ lim.maxEvents) ∧
      (∀ us : List (WireUnit lim.maxDataLength), encodeAll us = chunks.flatten →
        us.length ≤ lim.maxEvents →
        r.events = unitEvents 0 0 0 us ∧ r.issues = [] ∧
          ∀ vs : List (WireUnit lim.maxDataLength), encodeAll vs = chunks.flatten → vs = us) ∧
      (∀ (sent : List Sent) (raws : List Bytes),
        List.Forall₂ (fun s raw => s.bytes = .ok raw) sent raws → raws.flatten = chunks.flatten →
        (∀ s ∈ sent, s.Fits lim.maxDataLength) → sent.length ≤ lim.maxEvents →
        List.Forall₂ Sent.ReportedBy sent r.events ∧ r.issues = []) := by
  obtain ⟨ss, hss, hrun⟩ := frameChunks_eq lim chunks
  have hunits : ∀ us : List (WireUnit lim.maxDataLength), encodeAll us = chunks.flatten →
      runTokens lim.maxDataLength ss = us.map WireUnit.token :=
    fun us hus => runTokens_units us ss (hss.trans hus.symm)
  refine ⟨_, hrun, ⟨fun h => ?_, ?_⟩, fun us hus hn => ?_, fun sent raws hsent hraws hfit hn => ?_⟩
  · obtain ⟨us, hus, hn⟩ := exists_units_of_valid h
    refine ⟨us, ?_, ?_, hn⟩
    · rw [encodeAll_eq, ← hus, runTokens_flatten, hss]
    · rw [hus, (resultOf_units hn).2.2] at h; exact h
  · rintro ⟨us, hus, hf, hn⟩
    rw [hunits us hus, (resultOf_units hn).2.2]
    exact hf
  · rw [hunits us hus]
    obtain ⟨h1, h2, -⟩ := resultOf_units (n := chunks.flatten.length) hn
    exact ⟨h1, h2, fun vs hvs => encodeAll_inj (hvs.trans hus.symm)⟩
  · obtain ⟨r, hr, hreported⟩ := frameChunks_sent lim chunks hsent hraws hfit hn
    cases Except.ok.inj (hrun.symm.trans hr)
    exact hreported

/-- A frame whose class, data and sequence are control bytes, after an ACK and cut in the middle. -/
theorem frameChunks_grammar_controls :
    ∃ r, frameChunks .default true
        [[ACK, STX, 0x30, 0x30, 0x30, 0x30], [0x33, STX, STX, ETX, ACK, ACK, 0x33, 0x32, ETX]] =
        .ok r ∧
      r.valid = true ∧
      List.Forall₂ Sent.ReportedBy
        [.ack, .build ⟨.bytes [STX, ETX, ACK], "00".toList, .bytes [STX], .bytes [ACK]⟩] r.events ∧
      r.issues = [] := by
  obtain ⟨r, hr, hvalid, -, hsent⟩ := frameChunks_grammar .default
    [[ACK, STX, 0x30, 0x30, 0x30, 0x30], [0x33, STX, STX, ETX, ACK, ACK, 0x33, 0x32, ETX]]
  let f : WireFrame 999 :=
    { a1 := 0x30, a2 := 0x30, l1 := 0x30, l2 := 0x30, l3 := 0x33, frameClass := STX
      data := [STX, ETX, ACK], sequence := ACK, b1 := 0x33, b2 := 0x32
      legal := ⟨by decide, by decide, by decide, 3, 2, by decide, by decide, by decide⟩ }
  refine ⟨r, hr, hvalid.mpr ⟨[.ack, .frame f], rfl, rfl, by decide⟩, ?_⟩
  refine hsent _ [[ACK],
    [STX, 0x30, 0x30, 0x30, 0x30, 0x33, STX, STX, ETX, ACK, ACK, 0x33, 0x32, ETX]]
    (.cons rfl (.cons rfl .nil)) rfl ?_ (by decide)
  intro s hs
  rcases List.mem_cons.mp hs with rfl | hs
  · trivial
  · rw [List.mem_singleton.mp hs]
    exact ⟨[STX, ETX, ACK], rfl, by decide⟩

end RchProxy
