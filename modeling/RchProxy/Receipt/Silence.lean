import RchProxy.Framing.Truncation
import RchProxy.Parser.Subtype
import RchProxy.Receipt.Limits

/-!
# Issues that are dropped without a mark

Three stages bound their issues: the framers and the result leave a mark where they omit one, the
pairing of the two directions does not. An issue gets lost without a mark exactly where the pairing
finds more than `max_issues` problems and no other stage finds any (`no_silent_loss_iff`).
-/

namespace RchProxy

open Py Lib Lib.Spend

/-! ## Pairing -/

/-- The problems of pairing requests with ACKs and responses, without a limit on their number. -/
def pairingIssues (request response : FramingResult) : List ReceiptIssue :=
  (paired request.frames response.acks response.frames).flatMap
      (fun (f, ack, frame) => correlationIssues f ack frame) ++
    (response.frames.drop request.frames.length).map unmatchedResponse ++
    (response.acks.drop request.frames.length).map unmatchedAck

theorem correlateDirections_issues (maxIssues : Nat) (request response : FramingResult) :
    (correlateDirections maxIssues request response).2 =
      (pairingIssues request response).take maxIssues := by
  change List.foldl (addBounded maxIssues) [] (pairingIssues request response) = _
  rw [foldl_addBounded, List.nil_append]
  rfl

/-- An issue of a pair names a frame of the pair. -/
theorem mem_correlationIssues {f : RCHFrame} {ack : Option AckEvent} {response : Option RCHFrame}
    {i : ReceiptIssue} (h : i ∈ correlationIssues f ack response) :
    (i.code = .missingAckCandidate ∨ i.code = .missingResponseFrameCandidate) ∧
        i.frameId = some f.frameId ∨
      i.code = .responseSequenceMismatch ∧ ∃ g, response = some g ∧ i.frameId = some g.frameId := by
  rcases List.mem_append.mp h with h | h
  · split at h
    · cases h
    · rw [List.mem_singleton.mp h]
      exact .inl ⟨.inl rfl, rfl⟩
  · cases response with
    | none =>
      rw [List.mem_singleton.mp h]
      exact .inl ⟨.inr rfl, rfl⟩
    | some g =>
      simp only at h
      split at h
      · rw [List.mem_singleton.mp h]
        exact .inr ⟨rfl, g, rfl, rfl⟩
      · cases h

theorem correlationIssues_nodup (f : RCHFrame) (ack : Option AckEvent) (response : Option RCHFrame) :
    (correlationIssues f ack response).Nodup := by
  refine List.nodup_append.mpr ⟨?_, ?_, ?_⟩
  · split
    · exact List.nodup_nil
    · exact List.nodup_singleton _
  · cases response with
    | none => exact List.nodup_singleton _
    | some g =>
      dsimp only
      split
      · exact List.nodup_singleton _
      · exact List.nodup_nil
  · rintro i hi j hj rfl
    -- the two parts have other codes
    split at hi
    · cases hi
    · rw [List.mem_singleton.mp hi] at hj
      cases response with
      | none => cases congrArg ReceiptIssue.code (List.mem_singleton.mp hj)
      | some g =>
        dsimp only at hj
        split at hj
        · cases congrArg ReceiptIssue.code (List.mem_singleton.mp hj)
        · cases hj

section
variable {request response : FramingResult}

/-- Frames in order have increasing ids. -/
theorem frameId_lt {frames : List RCHFrame} (h : frames.Pairwise RCHFrame.Before) {i j : Nat}
    (hij : i < j) {f g : RCHFrame} (hf : frames[i]? = some f) (hg : frames[j]? = some g) :
    f.frameId < g.frameId := by
  obtain ⟨hi, rfl⟩ := List.getElem?_eq_some_iff.mp hf
  obtain ⟨hj, rfl⟩ := List.getElem?_eq_some_iff.mp hg
  exact (List.pairwise_iff_getElem.mp h i j hi hj hij).frameId

/-- No issue of a pair is one of another pair. -/
theorem paired_disjoint (hreq : request.frames.Pairwise RCHFrame.Before)
    (hresp : response.frames.Pairwise RCHFrame.Before) :
    (paired request.frames response.acks response.frames).Pairwise fun p q =>
      List.Disjoint (correlationIssues p.1 p.2.1 p.2.2) (correlationIssues q.1 q.2.1 q.2.2) := by
  rw [List.pairwise_iff_getElem]
  intro i j hi hj hij x hx hy
  simp only [paired, List.getElem_map, List.getElem_zipIdx, Nat.zero_add] at hx hy
  simp only [paired, List.length_map, List.length_zipIdx] at hi hj
  have hlt : request.frames[i].frameId < request.frames[j].frameId :=
    (List.pairwise_iff_getElem.mp hreq i j hi hj hij).frameId
  rcases mem_correlationIssues hx with ⟨hcode, hid⟩ | ⟨hcode, g, hg, hid⟩ <;>
    rcases mem_correlationIssues hy with ⟨hcode', hid'⟩ | ⟨hcode', g', hg', hid'⟩
  · exact Nat.ne_of_lt hlt (Option.some.inj (hid.symm.trans hid'))
  · rw [hcode'] at hcode
    rcases hcode with hcode | hcode <;> cases hcode
  · rw [hcode] at hcode'
    rcases hcode' with hcode' | hcode' <;> cases hcode'
  · exact Nat.ne_of_lt (frameId_lt hresp hij hg hg') (Option.some.inj (hid.symm.trans hid'))

/-- No problem of the pairing is found twice. -/
theorem pairingIssues_nodup (hreq : request.frames.Pairwise RCHFrame.Before)
    (hresp : response.frames.Pairwise RCHFrame.Before)
    (hacks : response.acks.Pairwise fun a b => a.streamOffset < b.streamOffset) :
    (pairingIssues request response).Nodup := by
  have hpairs : ((paired request.frames response.acks response.frames).flatMap
      fun (f, ack, frame) => correlationIssues f ack frame).Nodup :=
    List.nodup_flatMap.mpr ⟨fun p _ => correlationIssues_nodup _ _ _, paired_disjoint hreq hresp⟩
  have hframes : ((response.frames.drop request.frames.length).map unmatchedResponse).Nodup := by
    rw [List.Nodup, List.pairwise_map]
    refine (hresp.sublist (List.drop_sublist _ _)).imp fun {f g} hb heq => ?_
    exact Nat.ne_of_lt hb.frameId (Option.some.inj (congrArg ReceiptIssue.frameId heq))
  have hunacked : ((response.acks.drop request.frames.length).map unmatchedAck).Nodup := by
    rw [List.Nodup, List.pairwise_map]
    refine (hacks.sublist (List.drop_sublist _ _)).imp fun {a b} hb heq => ?_
    exact Nat.ne_of_lt hb (Option.some.inj (congrArg ReceiptIssue.streamOffset heq))
  have hcode : ∀ i ∈ (paired request.frames response.acks response.frames).flatMap
      fun (f, ack, frame) => correlationIssues f ack frame,
      i.code ≠ .unmatchedResponseFrame ∧ i.code ≠ .unmatchedAck := by
    intro i hi
    obtain ⟨p, -, hi⟩ := List.mem_flatMap.mp hi
    rcases mem_correlationIssues hi with ⟨hc | hc, -⟩ | ⟨hc, -⟩ <;> rw [hc] <;> decide
  refine List.nodup_append.mpr ⟨List.nodup_append.mpr ⟨hpairs, hframes, ?_⟩, hunacked, ?_⟩
  · rintro i hi j hj rfl
    obtain ⟨f, -, rfl⟩ := List.mem_map.mp hj
    exact (hcode _ hi).1 rfl
  · rintro i hi j hj rfl
    obtain ⟨a, -, rfl⟩ := List.mem_map.mp hj
    rcases List.mem_append.mp hi with hi | hi
    · exact (hcode _ hi).2 rfl
    · obtain ⟨f, -, hf⟩ := List.mem_map.mp hi
      cases congrArg ReceiptIssue.code hf

end

/-- ACKs come in order. -/
theorem eventsOf_acks_before (ec fc o : Nat) (ts : List Token) :
    ((eventsOf ec fc o ts).filterMap StreamEvent.ack?).Pairwise
        (fun a b => a.streamOffset < b.streamOffset) ∧
      ∀ a ∈ (eventsOf ec fc o ts).filterMap StreamEvent.ack?, o ≤ a.streamOffset := by
  induction ts generalizing ec fc o with
  | nil => exact ⟨.nil, nofun⟩
  | cons t ts ih =>
    cases t with
    | ack =>
      obtain ⟨hpairs, hle⟩ := ih (ec + 1) fc (o + 1)
      simp only [eventsOf, List.filterMap_cons, StreamEvent.ack?, List.pairwise_cons, List.mem_cons]
      refine ⟨⟨fun a ha => hle a ha, hpairs⟩, ?_⟩
      rintro a (rfl | ha)
      · exact Nat.le_refl _
      · exact Nat.le_of_succ_le (hle a ha)
    | frame raw =>
      obtain ⟨hpairs, hle⟩ := ih (ec + 1) (fc + 1) (o + raw.length)
      simp only [eventsOf, List.filterMap_cons, StreamEvent.ack?]
      exact ⟨hpairs, fun a ha => Nat.le_trans (Nat.le_add_right _ _) (hle a ha)⟩
    | skip code raw detail =>
      obtain ⟨hpairs, hle⟩ := ih ec fc (o + raw.length)
      simp only [eventsOf]
      exact ⟨hpairs, fun a ha => Nat.le_trans (Nat.le_add_right _ _) (hle a ha)⟩

theorem resultOf_acks_before (lim : FramerLimits) (n : Nat) (ts : List Token) :
    (resultOf lim n ts).acks.Pairwise fun a b => a.streamOffset < b.streamOffset := by
  rw [FramingResult.acks, resultOf_events]
  exact (eventsOf_acks_before 0 0 0 ts).1.sublist ((List.take_sublist _ _).filterMap _)

/-! ## Another limit of issues -/

/-- The limits with another `max_issues`. -/
def ParserLimits.withMaxIssues (lim : ParserLimits) (k : Nat) (hk : 1 ≤ k) : ParserLimits :=
  { lim with framer := lim.framer.withMaxIssues k hk }

theorem streamTokens_withMaxIssues (lim : FramerLimits) {k : Nat} (hk : 1 ≤ k) (payload : Bytes) :
    streamTokens (lim.withMaxIssues k hk) payload = streamTokens lim payload :=
  congrArg (runTokens lim.maxDataLength)
    (Framer.cut_congr (lim.withMaxIssues k hk) lim rfl rfl payload.length [] payload)

/-- The frames of a stream do not depend on the limit of issues. -/
theorem resultOf_events_withMaxIssues (lim : FramerLimits) {k : Nat} (hk : 1 ≤ k) (n : Nat)
    (ts : List Token) :
    (resultOf (lim.withMaxIssues k hk) n ts).events = (resultOf lim n ts).events := by
  rw [resultOf_events, resultOf_events]
  rfl

section
variable {request request' response response' : FramingResult}

/-- What is found under another limit: only the framers and the pairing show less or more. -/
theorem foundIssues_withMaxIssues (lim : ParserLimits) {k : Nat} (hk : 1 ≤ k)
    (hreq : request.events = request'.events) (hresp : response.events = response'.events)
    (initialIssues : List ReceiptIssue) :
    foundIssues (lim.withMaxIssues k hk) request response initialIssues =
      initialIssues ++ request.issues.map (·.receiptIssue .request) ++
        response.issues.map (·.receiptIssue .response) ++
        (((parseDocuments lim.maxDocuments request'.frames).run
            (.new lim.maxSemanticFields)).1.2 ++ (pairingIssues request' response').take k) ++
        ((reconstruct lim request' response').run
          (.new lim.maxSemanticFields)).2.issue.toList.map Subtype.val ++
        (collectMessages lim.maxMessages request' response').limitIssue.toList := by
  obtain ⟨events, issues⟩ := request
  obtain ⟨events', issues'⟩ := request'
  obtain ⟨sent, found⟩ := response
  obtain ⟨sent', found'⟩ := response'
  cases hreq
  cases hresp
  rw [foundIssues, reconstruct_issues, correlateDirections_issues]
  rfl

end

/-! ## The issues of a result -/

/-- The framing of a stream: of the bytes that are analyzed, under the limits as they are. -/
def ParserLimits.framing (lim : ParserLimits) (original : Bytes) : FramingResult :=
  resultOf lim.framer (original.take lim.maxAnalyzedBytes).length
    (streamTokens lim.framer (original.take lim.maxAnalyzedBytes))

/-- What is diagnosed in a stream, without a limit on the number of issues. -/
def ParserLimits.diagnosed (lim : ParserLimits) (direction : Direction) (original : Bytes) :
    List ReceiptIssue :=
  (diagnostics lim.framer (original.take lim.maxAnalyzedBytes)).map (·.receiptIssue direction)

theorem framing_withMaxIssues (lim : ParserLimits) {k : Nat} (hk : 1 ≤ k) (original : Bytes) :
    ((lim.withMaxIssues k hk).framing original).events = (lim.framing original).events := by
  rw [ParserLimits.framing]
  change (resultOf (lim.framer.withMaxIssues k hk) _ (streamTokens (lim.framer.withMaxIssues k hk)
    (original.take lim.maxAnalyzedBytes))).events = _
  rw [streamTokens_withMaxIssues, resultOf_events_withMaxIssues]
  rfl

/-- A framer shows all that is diagnosed, or marks that it does not. -/
theorem framing_issues (lim : ParserLimits) {k : Nat} (hk : 1 ≤ k) (direction : Direction)
    (original : Bytes) :
    if (lim.diagnosed direction original).length ≤ k then
      ((lim.withMaxIssues k hk).framing original).issues.map (·.receiptIssue direction) =
        lim.diagnosed direction original
    else ∃ i ∈ ((lim.withMaxIssues k hk).framing original).issues.map (·.receiptIssue direction),
      i.code = .issueLimitExceeded := by
  have hissues : ((lim.withMaxIssues k hk).framing original).issues =
      (resultOf (lim.framer.withMaxIssues k hk) (original.take lim.maxAnalyzedBytes).length
        (streamTokens lim.framer (original.take lim.maxAnalyzedBytes))).issues := by
    rw [← streamTokens_withMaxIssues lim.framer hk]
    rfl
  rw [resultOf_issues, issuesOf_withMaxIssues] at hissues
  change _ = if (diagnostics lim.framer (original.take lim.maxAnalyzedBytes)).length ≤ k then _
    else _ at hissues
  rw [hissues, ParserLimits.diagnosed, List.length_map]
  split
  · rfl
  · exact ⟨_, List.mem_map_of_mem (List.mem_append_right _ (List.mem_singleton_self _)), rfl⟩

section
variable (lim : ParserLimits) (request response : Bytes)

/-- The issues of the stages before the pairing, without a limit on their number. -/
def issuesBefore : List ReceiptIssue :=
  analysisIssue lim.maxAnalyzedBytes .request request ++
    analysisIssue lim.maxAnalyzedBytes .response response ++
    lim.diagnosed .request request ++ lim.diagnosed .response response ++
    ((parseDocuments lim.maxDocuments (lim.framing request).frames).run
      (.new lim.maxSemanticFields)).1.2

/-- The issues of the stages after the pairing. -/
def issuesAfter : List ReceiptIssue :=
  ((reconstruct lim (lim.framing request) (lim.framing response)).run
      (.new lim.maxSemanticFields)).2.issue.toList.map Subtype.val ++
    (collectMessages lim.maxMessages (lim.framing request) (lim.framing response)).limitIssue.toList

/-- The problems that the pairing finds. -/
def issuesOfPairing : List ReceiptIssue :=
  pairingIssues (lim.framing request) (lim.framing response)

/-- All issues of a parse, without a limit on their number. -/
def allIssues : List ReceiptIssue :=
  issuesBefore lim request response ++ issuesOfPairing lim request response ++
    issuesAfter lim request response

/-- The result under another `max_issues`. -/
theorem parse_withMaxIssues {k : Nat} (hk : 1 ≤ k) :
    ∃ r, parseProtocolCopies (lim.withMaxIssues k hk) request response = .ok r ∧
      r.issues = boundedResultIssues
        (analysisIssue lim.maxAnalyzedBytes .request request ++
          analysisIssue lim.maxAnalyzedBytes .response response ++
          ((lim.withMaxIssues k hk).framing request).issues.map (·.receiptIssue .request) ++
          ((lim.withMaxIssues k hk).framing response).issues.map (·.receiptIssue .response) ++
          (((parseDocuments lim.maxDocuments (lim.framing request).frames).run
              (.new lim.maxSemanticFields)).1.2 ++
            (issuesOfPairing lim request response).take k) ++
          issuesAfter lim request response) k := by
  have hrun := parseProtocolCopies_ok (lim.withMaxIssues k hk) request response
  obtain ⟨req, resp, hreq, hresp, hok⟩ := hrun
  rw [frameStream_eq] at hreq hresp
  have hreq : (lim.withMaxIssues k hk).framing request = req := Except.ok.inj hreq
  have hresp : (lim.withMaxIssues k hk).framing response = resp := Except.ok.inj hresp
  subst hreq hresp
  refine ⟨_, hok, ?_⟩
  rw [parseFramedCopies_issues, foundIssues_withMaxIssues lim hk
    (framing_withMaxIssues lim hk request) (framing_withMaxIssues lim hk response),
    List.append_assoc _ (List.map Subtype.val _)]
  rfl

/-- Under a limit that nothing reaches, the result has all issues. -/
theorem parse_allIssues {k : Nat} (hk : 1 ≤ k) (hle : (allIssues lim request response).length ≤ k) :
    ∃ r, parseProtocolCopies (lim.withMaxIssues k hk) request response = .ok r ∧
      r.issues = allIssues lim request response := by
  obtain ⟨r, hr, hissues⟩ := parse_withMaxIssues lim request response hk
  refine ⟨r, hr, ?_⟩
  have hlen := hle
  simp only [allIssues, issuesBefore, List.length_append] at hlen
  have hreq := framing_issues lim hk .request request
  have hresp := framing_issues lim hk .response response
  rw [if_pos (by omega)] at hreq hresp
  rw [hissues, hreq, hresp, List.take_of_length_le (by omega),
    ← List.append_assoc _ _ (issuesOfPairing lim request response)]
  exact if_pos hle

/-- The codes of the marks that a framer and the result leave. -/
def ReceiptIssue.isOmissionMark (i : ReceiptIssue) : Prop :=
  i.code = .issueLimitExceeded ∨ i.code = .resultIssueLimitExceeded

theorem boundedResultIssues_unmarked {issues : List ReceiptIssue} {maxIssues : Nat}
    (h : ∀ i ∈ boundedResultIssues issues maxIssues, ¬ i.isOmissionMark) :
    issues.length ≤ maxIssues ∧ boundedResultIssues issues maxIssues = issues := by
  unfold boundedResultIssues at h ⊢
  split
  · next hle => exact ⟨hle, rfl⟩
  · next hle =>
    rw [if_neg hle] at h
    exact absurd (.inr rfl) (h _ (List.mem_append_right _ (List.mem_singleton_self _)))

/-- A problem of the pairing is no mark. -/
theorem pairingIssues_not_mark {i : ReceiptIssue} (h : i ∈ issuesOfPairing lim request response) :
    ¬ i.isOmissionMark := by
  rw [issuesOfPairing, pairingIssues, List.mem_append, List.mem_append] at h
  obtain (h | h) | h := h
  · obtain ⟨p, -, hi⟩ := List.mem_flatMap.mp h
    rw [ReceiptIssue.isOmissionMark]
    rcases mem_correlationIssues hi with ⟨hc | hc, -⟩ | ⟨hc, -⟩ <;> rw [hc] <;> decide
  · obtain ⟨f, -, rfl⟩ := List.mem_map.mp h
    rintro (h | h) <;> cases h
  · obtain ⟨a, -, rfl⟩ := List.mem_map.mp h
    rintro (h | h) <;> cases h

theorem issuesOfPairing_nodup : (issuesOfPairing lim request response).Nodup :=
  pairingIssues_nodup (frameStream_frames_before (frameStream_eq _ _))
    (frameStream_frames_before (frameStream_eq _ _)) (resultOf_acks_before _ _ _)

/-- Where all issues are problems of the pairing, the limit keeps the first of them and leaves no
mark. -/
theorem parse_issuesOfPairing {k : Nat} (hk : 1 ≤ k)
    (hbefore : issuesBefore lim request response = [])
    (hafter : issuesAfter lim request response = []) :
    ∃ r, parseProtocolCopies (lim.withMaxIssues k hk) request response = .ok r ∧
      r.issues = (issuesOfPairing lim request response).take k := by
  obtain ⟨r, hr, hissues⟩ := parse_withMaxIssues lim request response hk
  refine ⟨r, hr, ?_⟩
  simp only [issuesBefore, List.append_eq_nil_iff] at hbefore
  obtain ⟨⟨⟨⟨hreq, hresp⟩, hdreq⟩, hdresp⟩, hdocs⟩ := hbefore
  have hfreq := framing_issues lim hk .request request
  have hfresp := framing_issues lim hk .response response
  rw [hdreq, List.length_nil, if_pos (Nat.zero_le _)] at hfreq
  rw [hdresp, List.length_nil, if_pos (Nat.zero_le _)] at hfresp
  rw [hissues, hreq, hresp, hfreq, hfresp, hdocs, hafter]
  simp only [List.nil_append, List.append_nil]
  exact if_pos (List.length_take_le _ _)

/-- A limit drops no issue without a mark, unless all issues are problems of the pairing and there
are more of them than the limit allows. -/
theorem no_silent_loss_iff :
    (∀ k (hk : 1 ≤ k), (allIssues lim request response).length ≤ k →
      ∃ r, parseProtocolCopies (lim.withMaxIssues k hk) request response = .ok r ∧
        r.issues = allIssues lim request response) ∧
    ∃ r, parseProtocolCopies lim request response = .ok r ∧
      ((∀ i ∈ allIssues lim request response, i ∉ r.issues →
          ∃ j ∈ r.issues, j.code = .issueLimitExceeded ∨ j.code = .resultIssueLimitExceeded) ↔
        (lim.framer.maxIssues < (issuesOfPairing lim request response).length →
          issuesBefore lim request response ++ issuesAfter lim request response ≠ [])) := by
  refine ⟨fun k hk => parse_allIssues lim request response hk, ?_⟩
  have hm := lim.framer.issues_pos
  obtain ⟨r, hr, hissues⟩ := parse_withMaxIssues lim request response hm
  refine ⟨r, hr, ?_, ?_⟩
  · intro hmarked hlt hnil
    obtain ⟨hbefore, hafter⟩ := List.append_eq_nil_iff.mp hnil
    obtain ⟨r', hr', htake⟩ := parse_issuesOfPairing lim request response hm hbefore hafter
    cases Except.ok.inj (hr.symm.trans hr')
    -- the first problem over the limit is lost
    have hlost : (issuesOfPairing lim request response)[lim.framer.maxIssues] ∉ r.issues := by
      rw [htake]
      intro hmem
      obtain ⟨i, hi, heq⟩ := List.mem_iff_getElem.mp hmem
      rw [List.getElem_take] at heq
      rw [List.length_take] at hi
      have := (List.Nodup.getElem_inj_iff (issuesOfPairing_nodup lim request response)).mp heq
      omega
    obtain ⟨j, hj, hmark⟩ := hmarked _ (List.mem_append_left _ (List.mem_append_right _
      (List.getElem_mem _))) hlost
    rw [htake] at hj
    exact pairingIssues_not_mark lim request response (List.mem_of_mem_take hj) hmark
  · intro hcond i hi hlost
    by_contra hunmarked
    have hunmarked : ∀ j ∈ r.issues, ¬ j.isOmissionMark := fun j hj h => hunmarked ⟨j, hj, h⟩
    rw [hissues] at hunmarked
    obtain ⟨hle, hbound⟩ := boundedResultIssues_unmarked hunmarked
    rw [hbound] at hissues hunmarked
    -- no framer left a mark, so both show all that they diagnose
    have hdiagnosed : ∀ direction original,
        (∀ j ∈ ((lim.withMaxIssues lim.framer.maxIssues hm).framing original).issues.map
          (·.receiptIssue direction), ¬ j.isOmissionMark) →
        ((lim.withMaxIssues lim.framer.maxIssues hm).framing original).issues.map
          (·.receiptIssue direction) = lim.diagnosed direction original := by
      intro direction original hnone
      have h := framing_issues lim hm direction original
      split at h
      · exact h
      · obtain ⟨j, hj, hcode⟩ := h
        exact absurd (.inl hcode) (hnone j hj)
    have hreq := hdiagnosed .request request fun j hj => hunmarked j (List.mem_append_left _
      (List.mem_append_left _ (List.mem_append_left _ (List.mem_append_right _ hj))))
    have hresp := hdiagnosed .response response fun j hj => hunmarked j (List.mem_append_left _
      (List.mem_append_left _ (List.mem_append_right _ hj)))
    rw [hreq, hresp] at hissues hle
    by_cases hlt : lim.framer.maxIssues < (issuesOfPairing lim request response).length
    · have hne := List.length_pos_iff.mpr (hcond hlt)
      simp only [issuesBefore, List.length_append, List.length_take] at hne hle
      omega
    · rw [List.take_of_length_le (Nat.le_of_not_lt hlt),
        ← List.append_assoc _ _ (issuesOfPairing lim request response)] at hissues
      exact hlost (hissues ▸ hi)

end

/-- A request frame without an ACK and a response: one of the two problems is lost. -/
theorem silent_loss :
    ¬ ∀ (lim : ParserLimits) (request response : Bytes) (k : Nat) (hk : 1 ≤ k)
      (unlimited limited : ProtocolCopiesResult),
      parseProtocolCopies (lim.withMaxIssues k hk) request response = .ok unlimited →
      unlimited.issues.length < k →
      parseProtocolCopies lim request response = .ok limited →
      (∃ i ∈ unlimited.issues, i ∉ limited.issues) →
      ∃ j ∈ limited.issues, j.code = .issueLimitExceeded ∨ j.code = .resultIssueLimitExceeded := by
  intro hall
  have hcheck : (match parseProtocolCopies (ParserLimits.default.withMaxIssues 9 (by decide))
        (requestFrame "XX") [],
      parseProtocolCopies (ParserLimits.default.withMaxIssues 1 (by decide)) (requestFrame "XX") []
      with
      | .ok unlimited, .ok limited =>
        unlimited.issues.length < 9 && (unlimited.issues.any fun i => i ∉ limited.issues) &&
          limited.issues.all fun j =>
            j.code ≠ .issueLimitExceeded && j.code ≠ .resultIssueLimitExceeded
      | _, _ => false) = true := by decide +kernel
  split at hcheck
  · next unlimited limited hunlimited hlimited =>
    simp only [Bool.and_eq_true, decide_eq_true_eq, List.any_eq_true, List.all_eq_true] at hcheck
    obtain ⟨⟨hlt, i, hi, hlost⟩, hunmarked⟩ := hcheck
    obtain ⟨j, hj, hmark⟩ := hall (ParserLimits.default.withMaxIssues 1 (by decide))
      (requestFrame "XX") [] 9 (by decide) unlimited limited hunlimited hlt hlimited
      ⟨i, hi, hlost⟩
    obtain ⟨hframer, hresult⟩ := hunmarked j hj
    rcases hmark with hmark | hmark
    · exact hframer hmark
    · exact hresult hmark
  · cases hcheck

end RchProxy
