import RchProxy.Receipt.Records

/-!
# `analyze_copies`

The status of an analysis is read off the documents and the list of issues. A status without issues
is sound: every producer of issues was silent, and a silent producer found nothing.
-/

namespace RchProxy

open Py Lib Lib.Spend

/-! ## The analysis -/

/-- What was reconstructed. -/
inductive Reconstruction where
  | complete
  | incomplete
  | framedOnly
  | unrecognized
  deriving DecidableEq, Repr

/-- `parser_status`. -/
structure ParserStatus where
  reconstruction : Reconstruction
  withIssues : Bool
  deriving DecidableEq, Repr

/-- The literal of a `ParserStatus`. -/
def ParserStatus.text (s : ParserStatus) : String :=
  (match s.reconstruction with
    | .complete => "complete_document_reconstruction_inferred_semantics"
    | .incomplete => "partial_document_reconstruction_inferred_semantics"
    | .framedOnly => "framed_stream_no_document_reconstructed"
    | .unrecognized => "unrecognized_stream") ++
  if s.withIssues then "_with_issues" else ""

/-- `_framing_confirmed`. -/
def framingConfirmed (protocol : ProtocolCopiesResult) : Bool :=
  let request := protocol.requestFraming
  let response := protocol.responseFraming
  (request.frames ≠ [] && request.acks = [] && request.issues = [] &&
    request.frames.all (·.expectedRequest)) &&
    (response.issues = [] && response.frames.all (·.expectedResponse))

/-- `_TELNET_CANDIDATE_SCAN_BYTES`. -/
abbrev telnetCandidateScanBytes : Nat := 8 * 1024 * 1024

/-- An IAC verb stands somewhere in the bytes. -/
def hasVerb : Bytes → Bool
  | 0xFF :: b :: t => (0xFB ≤ b && b ≤ 0xFE) || hasVerb (b :: t)
  | _ :: t => hasVerb t
  | [] => false

/-- `_has_bounded_telnet_iac_candidate`. -/
def hasBoundedTelnetIacCandidate (request response : Bytes) : Bool :=
  [request, response].any fun payload =>
    let stop := min payload.length telnetCandidateScanBytes
    !decide (stop < 3) && hasVerb (payload.take (stop - 1))

/-- The part of `ProtocolAnalysis` that comes from the RCH parser. -/
structure ProtocolAnalysis where
  framingConfirmed : Bool
  telnetIacCandidateBytesObserved : Bool
  protocol : ProtocolCopiesResult
  parserStatus : ParserStatus

/-- The `parser_status` of `analyze_copies`. -/
def parserStatusOf (protocol : ProtocolCopiesResult) : ParserStatus where
  reconstruction :=
    if protocol.documents ≠ [] then
      if protocol.documents.all (·.complete) then .complete else .incomplete
    else if protocol.requestFraming.frames ≠ [] then .framedOnly
    else .unrecognized
  withIssues := protocol.issues ≠ [] && protocol.requestFraming.frames ≠ []

/-- `analyze_copies`. -/
def analyzeCopies (request response : Bytes) : Except Error ProtocolAnalysis := do
  let protocol ← parseProtocolCopies .default request response
  return {
    framingConfirmed := framingConfirmed protocol
    telnetIacCandidateBytesObserved := hasBoundedTelnetIacCandidate request response
    protocol := protocol
    parserStatus := parserStatusOf protocol }

/-- The text of a status names it. -/
theorem ParserStatus.text_inj {s s' : ParserStatus} (h : s.text = s'.text) : s = s' := by
  obtain ⟨r, w⟩ := s
  obtain ⟨r', w'⟩ := s'
  revert h
  cases r <;> cases w <;> cases r' <;> cases w' <;> decide

/-! ## Silent producers -/

/-- Tokens without an issue are events, with a right BCC and within the limit. -/
theorem issuesOf_eq_nil {lim : FramerLimits} {ec fc o : Nat} {ts : List Token}
    (h : issuesOf lim ec o ts = []) (hec : ec ≤ lim.maxEvents) :
    ((eventsOf ec fc o ts).map StreamEvent.raw).flatten = (ts.map Token.raw).flatten ∧
      (∀ f ∈ framesIn (eventsOf ec fc o ts), f.bccValid = true) ∧
      ec + eventCountOf ts ≤ lim.maxEvents := by
  induction ts generalizing ec fc o with
  | nil => simpa [eventsOf] using hec
  | cons t ts ih =>
    cases t with
    | ack =>
      simp only [issuesOf, List.append_eq_nil_iff] at h
      have hne : ec ≠ lim.maxEvents := fun he => by simp [he] at h
      obtain ⟨h1, h2, h3⟩ := @ih (ec + 1) fc (o + 1) h.2 (by omega)
      refine ⟨by simp [eventsOf, StreamEvent.raw, Token.raw, h1], by simpa [eventsOf] using h2, ?_⟩
      simp only [eventCountOf_ack]
      omega
    | frame raw =>
      simp only [issuesOf, List.append_eq_nil_iff] at h
      have hne : ec ≠ lim.maxEvents := fun he => by simp [he] at h
      have hbcc : rawBccValid raw = true := by
        by_contra hb
        simp [hb] at h
      obtain ⟨h1, h2, h3⟩ := @ih (ec + 1) (fc + 1) (o + raw.length) h.2 (by omega)
      refine ⟨?_, ?_, ?_⟩
      · simp [eventsOf, StreamEvent.raw, Token.raw, h1, RCHFrame.ofRaw]
      · simp only [eventsOf, framesIn_frame, List.mem_cons]
        rintro f (rfl | hf)
        · exact hbcc
        · exact h2 f hf
      · simp only [eventCountOf_frame]
        omega
    | skip code raw detail => simp [issuesOf] at h

/-- A framing without issues accounts for its stream by its events. -/
theorem frameStream_clean {lim : FramerLimits} {p : Bytes} {r : FramingResult}
    (h : frameStream lim p = .ok r) (hi : r.issues = []) :
    (r.events.map StreamEvent.raw).flatten = p ∧ (∀ f ∈ r.frames, f.bccValid = true) ∧
      r.eventsTruncated = false := by
  obtain ⟨ss, hss, hrun⟩ := frameChunks_eq lim [p]
  rw [frameStream, hrun] at h
  cases h
  have hno : issuesOf lim 0 0 (runTokens lim.maxDataLength ss) = [] := by
    rw [resultOf_issues] at hi
    split at hi
    · exact hi
    · simp at hi
  obtain ⟨h1, h2, h3⟩ := @issuesOf_eq_nil lim 0 0 0 _ hno (Nat.zero_le _)
  rw [Nat.zero_add] at h3
  have hevents : (resultOf lim [p].flatten.length (runTokens lim.maxDataLength ss)).events =
      eventsOf 0 0 0 (runTokens lim.maxDataLength ss) := by
    rw [resultOf_events, List.take_of_length_le (by rw [eventsOf_length]; exact h3)]
  refine ⟨?_, ?_, ?_⟩
  · rw [hevents, h1, runTokens_flatten, hss]
    simp
  · rw [FramingResult.frames, hevents]
    exact h2
  · rw [(resultOf_totals lim _ _).2.2.1, decide_eq_false_iff_not]
    omega

/-- The character of a decimal digit. -/
def digitChar (d : Nat) : Char := Char.ofNat (48 + d)

theorem digitChar_decimal :
    ∀ d < 10, isDecimal (digitChar d) = true ∧ (digitChar d).toNat = 48 + d := by decide

/-- Correlations without issues: one ACK and one response for each request, in sequence. -/
theorem correlateDirections_clean {maxIssues : Nat} (hpos : 1 ≤ maxIssues)
    {request response : FramingResult}
    (h : (correlateDirections maxIssues request response).2 = []) :
    response.acks.length = request.frames.length ∧
      response.frames.length = request.frames.length ∧
      ∀ (i : Nat) (f : RCHFrame), request.frames[i]? = some f →
        ∃ g, response.frames[i]? = some g ∧
          sequenceMatches (expectedResponseSequence f.sequence) (some g.sequence) ≠ some false := by
  have hfound := foldl_addBounded_eq_nil hpos h
  simp only [List.append_eq_nil_iff, List.flatMap_eq_nil_iff, List.map_eq_nil_iff,
    List.drop_eq_nil_iff] at hfound
  obtain ⟨⟨hpairs, hframes⟩, hacks⟩ := hfound
  have hpair : ∀ (i : Nat) (f : RCHFrame), request.frames[i]? = some f →
      response.acks[i]? ≠ none ∧ ∃ g, response.frames[i]? = some g ∧
        sequenceMatches (expectedResponseSequence f.sequence) (some g.sequence) ≠ some false := by
    intro i f hf
    have hmem : (f, response.acks[i]?, response.frames[i]?) ∈
        paired request.frames response.acks response.frames :=
      List.mem_map.mpr ⟨(f, i), List.mem_zipIdx_iff_getElem?.mpr hf, rfl⟩
    have hnone := hpairs _ hmem
    simp only [correlationIssues, List.append_eq_nil_iff] at hnone
    refine ⟨fun ha => by simp [ha] at hnone, ?_⟩
    cases hg : response.frames[i]? with
    | none => simp [hg] at hnone
    | some g =>
      refine ⟨g, rfl, fun hm => ?_⟩
      simp [hg, correlation, hm] at hnone
  have hlength : ∀ {α : Type} (l : List α), l.length ≤ request.frames.length →
      (∀ (i : Nat) (f : RCHFrame), request.frames[i]? = some f → l[i]? ≠ none) →
      l.length = request.frames.length := by
    intro α l hle hsome
    by_contra hne
    have hlt : l.length < request.frames.length := by omega
    exact hsome l.length _ (List.getElem?_eq_getElem hlt) (List.getElem?_eq_none (Nat.le_refl _))
  refine ⟨hlength _ hacks fun i f hf => (hpair i f hf).1, hlength _ hframes fun i f hf => ?_,
    fun i f hf => (hpair i f hf).2⟩
  obtain ⟨-, g, hg, -⟩ := hpair i f hf
  simp [hg]

/-- A response that does not contradict a decimal request sequence has the expected one. -/
theorem sequence_of_matches {c c' : Char} {d : Nat} (hd : d < 10) (hc : c = digitChar d)
    (h : sequenceMatches (expectedResponseSequence c) (some c') ≠ some false) :
    c' = digitChar ((d + 8) % 10) := by
  obtain ⟨h1, h2⟩ := digitChar_decimal d hd
  subst hc
  rw [expectedResponseSequence, if_pos h1, h2, Nat.add_sub_cancel_left] at h
  simp only [sequenceMatches, ne_eq, Option.some.injEq, beq_eq_false_iff_ne, not_not] at h
  exact h.symm

/-- The number of documents that the commands of some frames open. -/
def candidateDocuments (maxDocuments : Nat) (frames : List RCHFrame) : Nat :=
  (frames.foldl (Watch.read maxDocuments) {}).close.closed

/-- Without a report, every document that is opened is kept. -/
theorem parseDocuments_candidates {maxDocuments : Nat} {frames : List RCHFrame}
    {budget : SemanticBudget} (hframes : frames.Pairwise RCHFrame.Before)
    (hdocuments : ∀ i ∈ ((parseDocuments maxDocuments frames).run budget).1.2,
      i.code ≠ .documentLimitExceeded)
    (hfields : ((parseDocuments maxDocuments frames).run budget).2.issue = none) :
    ((parseDocuments maxDocuments frames).run budget).1.1.length =
        candidateDocuments maxDocuments frames ∧
      candidateDocuments maxDocuments frames ≤ maxDocuments := by
  have htracks := ((Tracks.initial maxDocuments frames).run hframes).close false
  have hshape := (((parseFrames maxDocuments {} frames).run budget).1).finishActive_shape
    maxDocuments false
  rw [parseFrames_shape] at hshape
  have hrep : ((frames.foldl (Shape.read maxDocuments) {}).close maxDocuments false).omitted =
      false :=
    (congrArg Shape.omitted hshape).symm.trans (limit_not_reported hdocuments hfields)
  have hle : candidateDocuments maxDocuments frames ≤ maxDocuments := by
    have := htracks.omitted
    rw [hrep, eq_comm, decide_eq_false_iff_not, Nat.not_lt] at this
    exact this
  refine ⟨?_, hle⟩
  have hcount := htracks.count
  rw [← parseDocuments_spans maxDocuments budget, List.length_map] at hcount
  rw [hcount]
  exact Nat.min_eq_left hle

/-! ## A clean status -/

/-- What a status without issues says about both directions of a capture. -/
structure Clean (lim : ParserLimits) (request response : Bytes) (r : ProtocolCopiesResult) :
    Prop where
  requestBytes : (r.requestFraming.events.map StreamEvent.raw).flatten = request
  responseBytes : (r.responseFraming.events.map StreamEvent.raw).flatten = response
  bccValid : ∀ f ∈ r.requestFraming.frames ++ r.responseFraming.frames, f.bccValid = true
  oneAck : r.responseFraming.acks.length = r.requestFraming.frames.length
  oneFrame : r.responseFraming.frames.length = r.requestFraming.frames.length
  sequences : ∀ (i : Nat) (f : RCHFrame) (d : Nat), r.requestFraming.frames[i]? = some f → d < 10 →
    f.sequence = digitChar d →
    ∃ g, r.responseFraming.frames[i]? = some g ∧ g.sequence = digitChar ((d + 8) % 10)
  complete : ∀ d ∈ r.documents, d.complete = true
  events : r.requestFraming.eventsTruncated = false ∧ r.responseFraming.eventsTruncated = false
  documents : r.documents.length = candidateDocuments lim.maxDocuments r.requestFraming.frames ∧
    candidateDocuments lim.maxDocuments r.requestFraming.frames ≤ lim.maxDocuments
  messages : r.messages.length =
    r.requestFraming.events.length + r.responseFraming.events.length
  fields : ((reconstruct lim r.requestFraming r.responseFraming).run
    (.new lim.maxSemanticFields)).2.issue = none
  bytes : request.length ≤ lim.maxAnalyzedBytes ∧ response.length ≤ lim.maxAnalyzedBytes

theorem analysisIssue_eq_nil {n : Nat} {direction : Direction} {p : Bytes}
    (h : analysisIssue n direction p = []) : p.length ≤ n := by
  unfold analysisIssue at h
  split at h
  · next hlen =>
    rw [List.length_take] at hlen
    omega
  · cases h

/-- A result without issues, whose documents are complete. -/
theorem clean_of_no_issues {lim : ParserLimits} {request response : Bytes}
    {req resp : FramingResult}
    (hreq : frameStream lim.framer (request.take lim.maxAnalyzedBytes) = .ok req)
    (hresp : frameStream lim.framer (response.take lim.maxAnalyzedBytes) = .ok resp)
    {r : ProtocolCopiesResult}
    (hr : r = parseFramedCopies lim (analysisIssue lim.maxAnalyzedBytes .request request ++
      analysisIssue lim.maxAnalyzedBytes .response response) req resp)
    (hissues : r.issues = []) (hcomplete : ∀ d ∈ r.documents, d.complete = true) :
    Clean lim request response r := by
  subst hr
  obtain ⟨hdocuments, hfields, hmessages⟩ := no_limit_crossed (by rw [hissues]; nofun)
  have hfound := boundedResultIssues_eq_nil (parseFramedCopies_issues lim req resp _ ▸ hissues)
  simp only [foundIssues, reconstruct_issues, List.append_eq_nil_iff, List.map_eq_nil_iff] at hfound
  obtain ⟨⟨⟨⟨⟨⟨hb, hb'⟩, hi⟩, hi'⟩, -, hcorr⟩, -⟩, -⟩ := hfound
  have hb := analysisIssue_eq_nil hb
  have hb' := analysisIssue_eq_nil hb'
  obtain ⟨hraw, hbcc, htrunc⟩ := frameStream_clean hreq hi
  obtain ⟨hraw', hbcc', htrunc'⟩ := frameStream_clean hresp hi'
  rw [List.take_of_length_le hb] at hraw
  rw [List.take_of_length_le hb'] at hraw'
  obtain ⟨hacks, hframes, hseq⟩ := correlateDirections_clean lim.framer.issues_pos hcorr
  obtain ⟨hcount, hle⟩ := parseDocuments_candidates (frameStream_frames_before hreq) hdocuments
    (reconstruct_issue_none lim req resp _ hfields)
  have hrecords := congrArg List.length
    (reconstruct_records lim req resp (.new lim.maxSemanticFields))
  rw [List.length_map, List.length_map, hcount] at hrecords
  refine ⟨hraw, hraw', ?_, hacks, hframes, ?_, hcomplete, ⟨htrunc, htrunc'⟩, ⟨hrecords, hle⟩, ?_,
    hfields, ⟨hb, hb'⟩⟩
  · intro f hf
    exact (List.mem_append.mp hf).elim (hbcc f) (hbcc' f)
  · intro i f d hf hd hc
    obtain ⟨g, hg, hm⟩ := hseq i f hf
    exact ⟨g, hg, sequence_of_matches hd hc hm⟩
  · have hlen := congrArg List.length (collectMessages_messages hmessages)
    rwa [List.length_append, messagesFrom_length, messagesFrom_length] at hlen

/-- A status of complete documents without issues. -/
theorem parserStatusOf_complete {r : ProtocolCopiesResult}
    (h : parserStatusOf r = ⟨.complete, false⟩) :
    r.documents ≠ [] ∧ (∀ d ∈ r.documents, d.complete = true) ∧
      (r.issues = [] ∨ r.requestFraming.frames = []) := by
  have hrec := congrArg ParserStatus.reconstruction h
  have hissues := congrArg ParserStatus.withIssues h
  simp only [parserStatusOf] at hrec hissues
  split at hrec
  · next hne =>
    split at hrec
    · next hall =>
      refine ⟨hne, List.all_eq_true.mp hall, ?_⟩
      by_contra hor
      rw [not_or] at hor
      simp [hor.1, hor.2] at hissues
    · cases hrec
  · split at hrec <;> cases hrec

/-- **A clean status is sound.** A status without issues is only given to captures that are what
`Clean` says. -/
theorem analyzeCopies_clean (request response : Bytes) :
    ∃ a, analyzeCopies request response = .ok a ∧
      (a.parserStatus.text = "complete_document_reconstruction_inferred_semantics" →
        Clean .default request response a.protocol) := by
  obtain ⟨req, resp, hreq, hresp, hok⟩ := parseProtocolCopies_ok .default request response
  refine ⟨_, by rw [analyzeCopies, hok]; rfl, fun hstatus => ?_⟩
  have hstatus' : parserStatusOf _ = ⟨.complete, false⟩ := ParserStatus.text_inj hstatus
  obtain ⟨hne, hcomplete, hissues⟩ := parserStatusOf_complete hstatus'
  refine clean_of_no_issues hreq hresp rfl (hissues.resolve_right fun hframes => hne ?_) hcomplete
  -- a request without frames has no document
  have hrecords := reconstruct_records .default req resp (.new ParserLimits.default.maxSemanticFields)
  have hreqframes : req.frames = [] := hframes
  rw [hreqframes] at hrecords
  exact List.map_eq_nil_iff.mp hrecords

/-- A management document that opens and closes, with both requests acknowledged and answered. -/
theorem analyzeCopies_clean_boundaries :
    ∃ a, analyzeCopies
        ([2, 48, 48, 48, 48, 50, 122, 61, 111, 48, 50, 56, 3] ++
        [2, 48, 48, 48, 48, 50, 122, 61, 111, 49, 50, 57, 3])
        ([6, 2, 48, 49, 48, 48, 48, 78, 56, 52, 53, 3] ++
        [6, 2, 48, 49, 48, 48, 48, 78, 57, 52, 52, 3]) = .ok a ∧
      a.parserStatus.text = "complete_document_reconstruction_inferred_semantics" ∧
      Clean .default
        ([2, 48, 48, 48, 48, 50, 122, 61, 111, 48, 50, 56, 3] ++
        [2, 48, 48, 48, 48, 50, 122, 61, 111, 49, 50, 57, 3])
        ([6, 2, 48, 49, 48, 48, 48, 78, 56, 52, 53, 3] ++
        [6, 2, 48, 49, 48, 48, 48, 78, 57, 52, 52, 3])
        a.protocol := by
  obtain ⟨a, ha, h⟩ := analyzeCopies_clean
    ([2, 48, 48, 48, 48, 50, 122, 61, 111, 48, 50, 56, 3] ++
        [2, 48, 48, 48, 48, 50, 122, 61, 111, 49, 50, 57, 3])
    ([6, 2, 48, 49, 48, 48, 48, 78, 56, 52, 53, 3] ++
        [6, 2, 48, 49, 48, 48, 48, 78, 57, 52, 52, 3])
  have hrun : (analyzeCopies
      ([2, 48, 48, 48, 48, 50, 122, 61, 111, 48, 50, 56, 3] ++
        [2, 48, 48, 48, 48, 50, 122, 61, 111, 49, 50, 57, 3])
      ([6, 2, 48, 49, 48, 48, 48, 78, 56, 52, 53, 3] ++
        [6, 2, 48, 49, 48, 48, 48, 78, 57, 52, 52, 3])).map
      (·.parserStatus.text) = .ok "complete_document_reconstruction_inferred_semantics" := by
    decide +kernel
  rw [ha] at hrun
  exact ⟨a, ha, Except.ok.inj hrun, h (Except.ok.inj hrun)⟩

end RchProxy
