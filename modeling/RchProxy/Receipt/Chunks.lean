import RchProxy.Framing.Resync
import RchProxy.Receipt.Result

/-!
# `parse_protocol_chunks`

The parser over chunks feeds two framers and cuts each chunk to what the byte limit leaves; the
parser over whole copies cuts the copies and frames them at once. On a front of a concatenation of
ACKs and complete frames, a buffer that ends inside a unit waits for the rest of it, so every list
of slices is read into the same tokens (`runTokens_streamUnits`) and both parsers frame the same
streams alike (`parseProtocolChunks_agrees`).
-/

namespace RchProxy

open Py

/-! ## Streams of units -/

/-- A structurally complete frame; its BCC bytes are arbitrary. -/
def CompleteFrame (m : Nat) (raw : Bytes) : Prop :=
  FrameAt m raw ∧ raw.length = intOfDigits ((raw.drop 3).take 3) + 11

/-- An ACK or a structurally complete frame. -/
def StreamUnit (m : Nat) (raw : Bytes) : Prop := raw = [ACK] ∨ CompleteFrame m raw

section
variable {m : Nat} {raw : Bytes}

/-- The bytes behind the `STX` of a complete frame. -/
theorem CompleteFrame.cons (h : CompleteFrame m raw) :
    ∃ t, raw = STX :: t ∧ 5 ≤ t.length ∧ headerDigits t = true ∧ declaredLength t ≤ m ∧
      t.getD (declaredLength t + 9) 0 = ETX ∧ t.length = declaredLength t + 10 := by
  obtain ⟨hframe, hlen⟩ := h
  cases raw with
  | nil => cases hframe.1
  | cons b t =>
    obtain ⟨rfl, h5, hd, hm, he⟩ := hframe.cons
    refine ⟨t, rfl, h5, hd, hm, ?_, Nat.succ.inj hlen⟩
    rw [List.getD_eq_getElem?_getD, he]
    rfl

/-- A complete frame at the front of a buffer is read as one token. -/
theorem CompleteFrame.next (h : CompleteFrame m raw) (final : Bool) (x : Bytes) :
    Token.next m final (raw ++ x) = some (.frame raw) := by
  obtain ⟨t, rfl, h5, hd, hm, he, hlen⟩ := h.cons
  obtain ⟨h5', hl, hrest⟩ := header_append x h5
  obtain ⟨hs', he'⟩ := hrest (by omega)
  have htake : (STX :: (t ++ x)).take (declaredLength t + 11) = STX :: t := by
    rw [← List.cons_append, List.take_append_of_le_length (by simp; omega)]
    exact List.take_of_length_le (by simp; omega)
  rw [List.cons_append, Token.next_frame m final h5' (by rw [headerDigits_append h5, hd])
    (hl ▸ hs') (hl ▸ hm) (by rw [hl, he', he]), hl, htake]

/-- A buffer that ends inside a complete frame waits. -/
theorem CompleteFrame.waits (h : CompleteFrame m raw) {w x : Bytes} (hw : w ++ x = raw)
    (hx : x ≠ []) : Token.next m false w = none := by
  obtain ⟨t, rfl, h5, hd, hm, -, hlen⟩ := h.cons
  have hpos : 0 < x.length := List.length_pos_iff.mpr hx
  cases w with
  | nil => rfl
  | cons b u =>
    obtain ⟨rfl, hut⟩ := List.cons.inj hw
    have hut : u ++ x = t := hut
    subst hut
    rw [List.length_append] at hlen
    by_cases hshort : u.length < 5
    · rw [Token.next_short m false hshort]
      rfl
    have h5' : 5 ≤ u.length := Nat.not_lt.mp hshort
    obtain ⟨-, hl, -⟩ := header_append x h5'
    rw [headerDigits_append h5'] at hd
    rw [hl] at hm hlen
    rw [Token.next_partial m false h5' hd hm (by omega)]
    rfl

/-- A buffer that gives a token holds the first unit. -/
theorem StreamUnit.front {u w rest : Bytes} {tok : Token} (hu : StreamUnit m u)
    (hw : Token.next m false w = some tok) (hpre : w <+: u ++ rest) :
    ∃ x, w = u ++ x ∧ tok.raw = u ∧ ∀ y, Token.next m false (u ++ y) = some tok := by
  -- what the first unit is read as, whatever follows
  obtain ⟨tok', hraw, hnext⟩ : ∃ tok', tok'.raw = u ∧
      ∀ y, Token.next m false (u ++ y) = some tok' := by
    rcases hu with rfl | hframe
    · exact ⟨.ack, rfl, Token.next_ack m false⟩
    · exact ⟨.frame u, rfl, hframe.next false⟩
  have hwaits : ∀ {x : Bytes}, x ≠ [] → w ++ x = u → False := by
    intro x hx hwx
    rcases hu with rfl | hframe
    · cases w with
      | nil => cases hw
      | cons b w =>
        have hlen := congrArg List.length hwx
        have hpos := List.length_pos_iff.mpr hx
        simp only [List.length_append, List.length_cons, List.length_nil] at hlen
        omega
    · rw [hframe.waits hwx hx] at hw
      cases hw
  obtain ⟨z, hz⟩ := hpre
  obtain ⟨x, rfl⟩ : ∃ x, w = u ++ x := by
    rcases List.append_eq_append_iff.mp hz with ⟨x, hux, -⟩ | ⟨x, hwx, -⟩
    · by_cases hx : x = []
      · exact ⟨[], by rw [hux, hx]; simp⟩
      · exact absurd hux.symm fun h => hwaits hx h
    · exact ⟨x, hwx⟩
  rw [hnext] at hw
  cases hw
  exact ⟨x, rfl, hraw, hnext⟩

/-- A buffer that waits gets the next slice, or is all that is left of the stream. -/
theorem runTokens_wait_or {r w : Bytes} {ss : List Bytes} (hr : w ++ ss.flatten = r)
    (step : ∀ {w ss}, Token.next m false w ≠ none → w ++ List.flatten ss = r →
      runTokens m (w :: ss) = runTokens m [r]) : runTokens m (w :: ss) = runTokens m [r] := by
  induction ss generalizing w with
  | nil =>
    obtain rfl : w = r := by simpa using hr
    rfl
  | cons s ss ih =>
    by_cases hw : Token.next m false w = none
    · rw [runTokens_wait hw]
      exact ih (by simpa using hr)
    · exact step hw hr

/-- **A stream of units is read alike in any slices.** -/
theorem runTokens_streamUnits {us : List Bytes} (hus : ∀ u ∈ us, StreamUnit m u) {r w : Bytes}
    {ss : List Bytes} (hr : w ++ ss.flatten = r) (hpre : r <+: us.flatten) :
    runTokens m (w :: ss) = runTokens m [r] := by
  induction us generalizing r w ss with
  | nil =>
    obtain rfl : r = [] := by simpa using hpre
    refine runTokens_wait_or hr fun {w ss} hw hr => ?_
    rw [(List.append_eq_nil_iff.mp hr).1] at hw
    exact absurd rfl hw
  | cons u us ih =>
    refine runTokens_wait_or hr fun {w ss} hw hr => ?_
    subst hr
    obtain ⟨tok, htok⟩ := Option.ne_none_iff_exists'.mp hw
    have hfront : w <+: u ++ us.flatten := by
      have hle := (List.prefix_append w ss.flatten).trans hpre
      rwa [List.flatten_cons] at hle
    obtain ⟨x, rfl, hraw, hnext⟩ := (hus u (by simp)).front htok hfront
    rw [List.append_assoc] at hpre ⊢
    rw [runTokens_some htok, runTokens_some (hnext _), hraw, List.drop_left, List.drop_left]
    refine congrArg (tok :: ·) (ih (fun v hv => hus v (by simp [hv])) rfl ?_)
    rwa [List.flatten_cons, List.prefix_append_right_inj] at hpre

end

/-- On a front of a stream of units the framer gives one result, however it is cut. -/
theorem frameChunks_streamUnits (lim : FramerLimits) {us chunks : List Bytes}
    (hus : ∀ u ∈ us, StreamUnit lim.maxDataLength u) (hpre : chunks.flatten <+: us.flatten) :
    frameChunks lim true chunks = frameStream lim chunks.flatten := by
  have slices : ∀ ss : List Bytes, ss.flatten = chunks.flatten →
      runTokens lim.maxDataLength ss = runTokens lim.maxDataLength [chunks.flatten] := by
    intro ss hss
    cases ss with
    | nil =>
      rw [← hss]
      simp [runTokens, scanSlices, scan_none (Token.next_nil _ false)]
    | cons s ss => exact runTokens_streamUnits hus hss hpre
  obtain ⟨ss, hss, hrun⟩ := frameChunks_eq lim chunks
  obtain ⟨ss', hss', hrun'⟩ := frameChunks_eq lim [chunks.flatten]
  simp only [List.flatten_cons, List.flatten_nil, List.append_nil] at hss' hrun'
  rw [frameStream, hrun, hrun', slices ss hss, slices ss' hss']

/-! ## The parser -/

/-- The loop of `feed_bounded`: the framer, and how many bytes were omitted. `seen` bytes were
accepted before. -/
def feedBounded (lim : ParserLimits) (framer : Framer) (seen omitted : Nat) :
    List Bytes → Except Error (Framer × Nat)
  | [] => .ok (framer, omitted)
  | value :: chunks => do
    let remaining := lim.maxAnalyzedBytes - seen
    if remaining ≠ 0 then
      let accepted := value.take remaining
      let (_, framer) ← framer.feed lim.framer true accepted
      feedBounded lim framer (seen + accepted.length)
        (omitted + (value.length - min value.length remaining)) chunks
    else
      feedBounded lim framer seen (omitted + (value.length - min value.length remaining)) chunks

/-- The issue of bytes that `feed_bounded` did not accept. -/
def omittedIssue (maxAnalyzedBytes : Nat) (direction : Direction) (omitted : Nat) :
    List ReceiptIssue :=
  if omitted = 0 then []
  else
    [{ code := .analysisByteLimitExceeded
       detail := s!"{direction.text} exceeded the {maxAnalyzedBytes}-byte semantic analysis limit; " ++
         s!"{omitted} byte(s) were not parsed"
       direction := some direction
       streamOffset := some maxAnalyzedBytes }]

/-- `parse_protocol_chunks`. -/
def parseProtocolChunks (lim : ParserLimits) (requestChunks responseChunks : List Bytes) :
    Except Error ProtocolCopiesResult := do
  let (requestFramer, requestOmitted) ← feedBounded lim {} 0 0 requestChunks
  let (responseFramer, responseOmitted) ← feedBounded lim {} 0 0 responseChunks
  return parseFramedCopies lim
    (omittedIssue lim.maxAnalyzedBytes .request requestOmitted ++
      omittedIssue lim.maxAnalyzedBytes .response responseOmitted)
    (requestFramer.finish lim.framer).1 (responseFramer.finish lim.framer).1

/-- The chunks as far as the byte limit lets them through. -/
def acceptedChunks (limit : Nat) : List Bytes → List Bytes
  | [] => []
  | value :: chunks => value.take limit :: acceptedChunks (limit - value.length) chunks

theorem acceptedChunks_flatten (limit : Nat) (chunks : List Bytes) :
    (acceptedChunks limit chunks).flatten = chunks.flatten.take limit := by
  induction chunks generalizing limit with
  | nil => simp [acceptedChunks]
  | cons c cs ih => rw [acceptedChunks, List.flatten_cons, List.flatten_cons, ih, List.take_append]

/-- The loop of `feed_bounded` feeds the accepted chunks and counts the rest. -/
theorem feedBounded_eq (lim : ParserLimits) {framer : Framer} (seen omitted : Nat)
    (chunks : List Bytes) (hready : Framer.Ready lim.framer framer)
    (h : seen ≤ lim.maxAnalyzedBytes) :
    feedBounded lim framer seen omitted chunks =
      (Framer.feedAll lim.framer true framer
        (acceptedChunks (lim.maxAnalyzedBytes - seen) chunks)).map
        fun f => (f, omitted + (chunks.flatten.length - (lim.maxAnalyzedBytes - seen))) := by
  induction chunks generalizing framer seen omitted with
  | nil => simp [feedBounded, acceptedChunks, Framer.feedAll, pure, Except.pure, Except.map]
  | cons value chunks ih =>
    obtain ⟨out, ss, hout, -, hfed⟩ :=
      Framer.feed_spec hready (value.take (lim.maxAnalyzedBytes - seen))
    rw [acceptedChunks, Framer.feedAll, List.foldlM_cons, hout, feedBounded]
    by_cases hr : lim.maxAnalyzedBytes - seen = 0
    · -- past the limit nothing is fed, which is feeding nothing
      have hsame : out.2 = framer := by
        rw [hr, List.take_zero, Framer.feed, if_neg (by simp [hready.open_]), if_pos rfl] at hout
        cases hout
        rfl
      rw [if_neg (by simp [hr]), ih _ _ hready h, ← hsame, Framer.feedAll, hr,
        Nat.zero_sub, List.flatten_cons, List.length_append, Nat.min_zero]
      simp only [Nat.sub_zero, Except.map, bind, Except.bind]
      simp only [Nat.add_assoc]
    · rw [if_pos hr]
      simp only [hout]
      have hlen : (value.take (lim.maxAnalyzedBytes - seen)).length =
          min (lim.maxAnalyzedBytes - seen) value.length := List.length_take
      have hrest : lim.maxAnalyzedBytes -
          (seen + (value.take (lim.maxAnalyzedBytes - seen)).length) =
            lim.maxAnalyzedBytes - seen - value.length := by omega
      have hcount : omitted + (value.length - min value.length (lim.maxAnalyzedBytes - seen)) +
          (chunks.flatten.length - (lim.maxAnalyzedBytes - seen - value.length)) =
            omitted + ((value :: chunks).flatten.length - (lim.maxAnalyzedBytes - seen)) := by
        rw [List.flatten_cons, List.length_append]
        omega
      have hstep := ih (seen + (value.take (lim.maxAnalyzedBytes - seen)).length)
        (omitted + (value.length - min value.length (lim.maxAnalyzedBytes - seen)))
        hfed.ready (by omega)
      rw [hrest, hcount] at hstep
      exact hstep

/-! ## Both parsers -/

/-- An issue without the text of `analysis_byte_limit_exceeded`. -/
def ReceiptIssue.withoutByteCount (i : ReceiptIssue) : ReceiptIssue :=
  if i.code = .analysisByteLimitExceeded then { i with detail := "" } else i

theorem ReceiptIssue.withoutByteCount_code (i : ReceiptIssue) :
    i.withoutByteCount.code = i.code := by
  unfold withoutByteCount
  split <;> rfl

section
variable {is js : List ReceiptIssue}
  (h : is.map ReceiptIssue.withoutByteCount = js.map ReceiptIssue.withoutByteCount)
include h

theorem codes_eq (index : Nat) : is[index]?.map (·.code) = js[index]?.map (·.code) := by
  have hi := congrArg (·[index]?) h
  simp only [List.getElem?_map] at hi
  have hcode := congrArg (Option.map (·.code)) hi
  simpa only [Option.map_map, Function.comp_def, ReceiptIssue.withoutByteCount_code] using hcode

/-- The text of an issue plays no part in which issues are kept. -/
theorem selectedIndexes_congr (capacity : Nat) :
    selectedIndexes is capacity = selectedIndexes js capacity := by
  have hlen : is.length = js.length := by simpa using congrArg List.length h
  have hcodes : ∀ index : Nat,
      (is[index]?.map fun i : ReceiptIssue => i.code.isLimit).getD false =
        (js[index]?.map fun i : ReceiptIssue => i.code.isLimit).getD false := by
    intro index
    have := congrArg (Option.map IssueCode.isLimit) (codes_eq h index)
    simp only [Option.map_map, Function.comp_def] at this
    rw [this]
  simp only [selectedIndexes, hlen, hcodes]

theorem boundedResultIssues_congr (maxIssues : Nat) :
    (boundedResultIssues is maxIssues).map ReceiptIssue.withoutByteCount =
      (boundedResultIssues js maxIssues).map ReceiptIssue.withoutByteCount := by
  have hlen : is.length = js.length := by simpa using congrArg List.length h
  unfold boundedResultIssues
  rw [hlen]
  split
  · exact h
  · have hkept : ∀ indexes : List Nat,
        (indexes.filterMap (is[·]?)).map ReceiptIssue.withoutByteCount =
          (indexes.filterMap (js[·]?)).map ReceiptIssue.withoutByteCount := by
      intro indexes
      rw [List.map_filterMap, List.map_filterMap]
      refine List.filterMap_congr fun index _ => ?_
      have hi := congrArg (·[index]?) h
      simpa only [List.getElem?_map] using hi
    simp only [selectedIndexes_congr h, List.map_append, hkept]
    have hn := congrArg List.length (hkept
      ((selectedIndexes js (maxIssues - 1)).mergeSort (· ≤ ·)))
    rw [List.length_map, List.length_map] at hn
    rw [hn]

end

/-- The two issues about the byte limit differ in their text at most. -/
theorem omittedIssue_agrees (limit : Nat) (direction : Direction) (p : Bytes) :
    (omittedIssue limit direction (p.length - limit)).map ReceiptIssue.withoutByteCount =
      (analysisIssue limit direction p).map ReceiptIssue.withoutByteCount := by
  unfold omittedIssue analysisIssue
  by_cases h : p.length ≤ limit
  · rw [if_pos (by omega), if_pos (by rw [List.length_take]; omega)]
  · rw [if_neg (by omega), if_neg (by rw [List.length_take]; omega)]
    rfl

/-- **Chunked and whole-buffer parsing agree.** On fronts of streams of ACKs and complete frames,
with whatever BCC bytes, cut in any way and under any limits, both parsers give the same framings,
documents, messages, correlations and issues, the text about omitted bytes apart. -/
theorem parseProtocolChunks_agrees (lim : ParserLimits) {us vs requestChunks responseChunks :
    List Bytes} (hus : ∀ u ∈ us, StreamUnit lim.framer.maxDataLength u)
    (hvs : ∀ u ∈ vs, StreamUnit lim.framer.maxDataLength u)
    (hrequest : requestChunks.flatten <+: us.flatten)
    (hresponse : responseChunks.flatten <+: vs.flatten) :
    ∃ r r', parseProtocolChunks lim requestChunks responseChunks = .ok r ∧
      parseProtocolCopies lim requestChunks.flatten responseChunks.flatten = .ok r' ∧
      r.requestFraming = r'.requestFraming ∧ r.responseFraming = r'.responseFraming ∧
      r.documents = r'.documents ∧ r.messages = r'.messages ∧
      r.correlations = r'.correlations ∧
      r.issues.map ReceiptIssue.withoutByteCount = r'.issues.map ReceiptIssue.withoutByteCount := by
  -- one direction: the framer of the chunks and that of the copy give one result
  have direction : ∀ {us chunks : List Bytes}, (∀ u ∈ us, StreamUnit lim.framer.maxDataLength u) →
      chunks.flatten <+: us.flatten → ∃ f,
        feedBounded lim {} 0 0 chunks = .ok (f, chunks.flatten.length - lim.maxAnalyzedBytes) ∧
        frameStream lim.framer (chunks.flatten.take lim.maxAnalyzedBytes) =
          .ok (f.finish lim.framer).1 := by
    intro us chunks hus hpre
    have hflat := acceptedChunks_flatten lim.maxAnalyzedBytes chunks
    obtain ⟨f, hf, -⟩ := Framer.feedAll_reached lim.framer true
      (acceptedChunks lim.maxAnalyzedBytes chunks)
    refine ⟨f, ?_, ?_⟩
    · rw [feedBounded_eq lim 0 0 chunks (Framer.ready_new lim.framer) (Nat.zero_le _), Nat.sub_zero,
        hf, Nat.zero_add]
      rfl
    · rw [← hflat, ← frameChunks_streamUnits lim.framer hus, frameChunks, hf]
      · rfl
      · rw [hflat]
        exact (List.take_prefix _ _).trans hpre
  obtain ⟨f, hf, hframe⟩ := direction hus hrequest
  obtain ⟨g, hg, hframe'⟩ := direction hvs hresponse
  obtain ⟨req, resp, hreq, hresp, hcopies⟩ :=
    parseProtocolCopies_ok lim requestChunks.flatten responseChunks.flatten
  rw [hframe] at hreq
  rw [hframe'] at hresp
  cases hreq
  cases hresp
  have hchunks : parseProtocolChunks lim requestChunks responseChunks = .ok (parseFramedCopies lim
      (omittedIssue lim.maxAnalyzedBytes .request
          (requestChunks.flatten.length - lim.maxAnalyzedBytes) ++
        omittedIssue lim.maxAnalyzedBytes .response
          (responseChunks.flatten.length - lim.maxAnalyzedBytes))
      (f.finish lim.framer).1 (g.finish lim.framer).1) := by
    rw [parseProtocolChunks, hf, hg]
    rfl
  refine ⟨_, _, hchunks, hcopies, rfl, rfl, rfl, rfl, rfl, ?_⟩
  rw [parseFramedCopies_issues, parseFramedCopies_issues]
  refine boundedResultIssues_congr ?_ _
  simp only [foundIssues, List.map_append, omittedIssue_agrees]

/-- A frame with a wrong BCC in four pieces, one of them empty, and an ACK with the front of a
response. -/
theorem parseProtocolChunks_agrees_cut :
    ∃ r r', parseProtocolChunks .default
        [[STX, 0x30, 0x30], [0x30, 0x30, 0x30, 0x7A], [], [0x30, 0x41, 0x41, ETX]]
        [[ACK, STX], [0x30]] = .ok r ∧
      parseProtocolCopies .default
        [STX, 0x30, 0x30, 0x30, 0x30, 0x30, 0x7A, 0x30, 0x41, 0x41, ETX] [ACK, STX, 0x30] = .ok r' ∧
      r.requestFraming = r'.requestFraming ∧ r.responseFraming = r'.responseFraming ∧
      r.documents = r'.documents ∧ r.messages = r'.messages ∧
      r.correlations = r'.correlations ∧
      r.issues.map ReceiptIssue.withoutByteCount = r'.issues.map ReceiptIssue.withoutByteCount := by
  have hframe : StreamUnit 999
      [STX, 0x30, 0x30, 0x30, 0x30, 0x30, 0x7A, 0x30, 0x41, 0x41, ETX] :=
    .inr ⟨⟨rfl, by decide, by decide, by decide, rfl⟩, rfl⟩
  have hunits : ∀ u ∈ [[ACK], [STX, 0x30, 0x30, 0x30, 0x30, 0x30, 0x7A, 0x30, 0x41, 0x41, ETX]],
      StreamUnit 999 u := by
    intro u hu
    rcases List.mem_cons.mp hu with rfl | hu
    · exact .inl rfl
    · rw [List.mem_singleton.mp hu]; exact hframe
  exact parseProtocolChunks_agrees .default
    (fun u hu => hunits u (List.mem_cons_of_mem _ hu)) hunits (by decide) (by decide)

end RchProxy
