import RchProxy.Framing.Tiling
import RchProxy.Receipt.Cut

/-!
# Crossed limits are visible

A limit that was crossed is in the issues of the result: at most nine issues are limits, and the
bounded list keeps as many. The one exception is the event limit of a direction whose framer had no
slot left for it (`EventLimitShown`).
-/

namespace RchProxy

open Py Lib Lib.Spend

/-! ## Bounded lists -/

theorem countP_range_getElem? {α : Type} (p : α → Bool) (l : List α) :
    (List.range l.length).countP (fun k => (l[k]?.map p).getD false) = l.countP p := by
  induction l with
  | nil => rfl
  | cons x l ih =>
    simp only [List.length_cons, List.range_succ_eq_map, List.countP_cons, List.countP_map,
      Function.comp_def, List.getElem?_cons_succ, ih]
    simp

section
variable {issues : List ReceiptIssue} {maxIssues : Nat}

/-- All limits are selected where they fit. -/
theorem mem_selectedIndexes {capacity index : Nat}
    (hcount : issues.countP ReceiptIssue.isLimit ≤ capacity) {i : ReceiptIssue}
    (hi : issues[index]? = some i) (hlimit : i.isLimit = true) :
    index ∈ selectedIndexes issues capacity := by
  have hlen : ((List.range issues.length).filter fun index =>
      (issues[index]?.map (·.code.isLimit)).getD false).length ≤ capacity := by
    rw [← List.countP_eq_length_filter]
    exact le_of_eq_of_le (countP_range_getElem? ReceiptIssue.isLimit issues) hcount
  have hlt : index < issues.length := (List.getElem?_eq_some_iff.mp hi).1
  simp only [selectedIndexes]
  refine List.mem_append_left _ ?_
  rw [List.take_of_length_le hlen, List.mem_filter, List.mem_range]
  exact ⟨hlt, by rw [hi]; exact hlimit⟩

/-- The bounded list keeps the limits that fit it. -/
theorem mem_boundedResultIssues (hcount : issues.countP ReceiptIssue.isLimit ≤ maxIssues - 1)
    {i : ReceiptIssue} (hi : i ∈ issues) (hlimit : i.isLimit = true) :
    i ∈ boundedResultIssues issues maxIssues := by
  unfold boundedResultIssues
  split
  · exact hi
  · obtain ⟨index, hindex⟩ := List.mem_iff_getElem?.mp hi
    refine List.mem_append_left _ (List.mem_filterMap.mpr ⟨index, ?_, hindex⟩)
    exact List.mem_mergeSort.mpr (mem_selectedIndexes hcount hindex hlimit)

/-- What the bounded list holds was found, or is its own summary. -/
theorem of_mem_boundedResultIssues {i : ReceiptIssue} (hi : i ∈ boundedResultIssues issues maxIssues)
    (hcode : i.code ≠ .resultIssueLimitExceeded) : i ∈ issues := by
  unfold boundedResultIssues at hi
  split at hi
  · exact hi
  · rcases List.mem_append.mp hi with hi | hi
    · obtain ⟨index, -, hindex⟩ := List.mem_filterMap.mp hi
      exact List.mem_of_getElem? hindex
    · rw [List.mem_singleton.mp hi] at hcode
      exact absurd rfl hcode

end

/-! ## The event limit of the framer -/

/-- All the diagnostics of a stream, without a limit on their number. -/
def diagnostics (lim : FramerLimits) (payload : Bytes) : List FramingIssue :=
  issuesOf lim 0 0 (streamTokens lim payload)

/-- The stream has more events than the framer keeps. -/
def TooManyEvents (lim : FramerLimits) (payload : Bytes) : Prop :=
  lim.maxEvents < eventCountOf (streamTokens lim payload)

/-- The framer has a slot for its event limit: the diagnostics all fit, or those before it leave one
slot for it and one for the summary. -/
def EventLimitShown (lim : FramerLimits) (payload : Bytes) : Prop :=
  (diagnostics lim payload).length ≤ lim.maxIssues ∨
    ∃ i ∈ (diagnostics lim payload).take (lim.maxIssues - 1), i.code = .eventLimitExceeded

theorem isLimit_of_isGap {c : IssueCode} (h : c.isGap = true) : c.isLimit = false := by
  cases c <;> first | decide | cases h

/-- The only limit among the diagnostics is the event limit, and it is there once or not at all. -/
theorem issuesOf_limits (lim : FramerLimits) (ec o : Nat) {ts : List Token}
    (hts : ∀ t ∈ ts, t.Proper) :
    (∀ i ∈ issuesOf lim ec o ts, i.code.isLimit = true → i.code = .eventLimitExceeded) ∧
      (issuesOf lim ec o ts).countP (·.code.isLimit) =
        if ec ≤ lim.maxEvents ∧ lim.maxEvents < ec + eventCountOf ts then 1 else 0 := by
  have hevent : IssueCode.eventLimitExceeded.isLimit = true := by decide
  have hbcc : IssueCode.invalidBcc.isLimit = false := by decide
  induction ts generalizing ec o with
  | nil =>
    refine ⟨nofun, ?_⟩
    rw [if_neg (by simp only [eventCountOf_nil]; omega)]
    rfl
  | cons t ts ih =>
    have ih := fun ec o => ih ec o fun t ht => hts t (List.mem_cons_of_mem _ ht)
    have hsingle : ∀ o', (if ec = lim.maxEvents then [eventLimitIssue lim o'] else []).countP
        (·.code.isLimit) = if ec = lim.maxEvents then 1 else 0 := by
      intro o'
      split
      · simp [eventLimitIssue, hevent]
      · rfl
    have hmem : ∀ o', ∀ i ∈ (if ec = lim.maxEvents then [eventLimitIssue lim o'] else []),
        i.code = .eventLimitExceeded := by
      intro o' i hi
      split at hi
      · rw [List.mem_singleton.mp hi]; rfl
      · cases hi
    cases t with
    | ack =>
      obtain ⟨hcodes, hcount⟩ := ih (ec + 1) (o + 1)
      simp only [issuesOf, List.mem_append, List.countP_append, hsingle, hcount]
      refine ⟨fun i hi hl => hi.elim (hmem o i) fun hi => hcodes i hi hl, ?_⟩
      rw [eventCountOf_ack]
      split <;> split <;> split <;> omega
    | frame raw =>
      obtain ⟨hcodes, hcount⟩ := ih (ec + 1) (o + raw.length)
      have hb : (if rawBccValid raw = true then [] else [bccIssue lim o raw]).countP
          (·.code.isLimit) = 0 := by
        split
        · rfl
        · simp [bccIssue, hbcc]
      simp only [issuesOf, List.mem_append, List.countP_append, hsingle, hcount, hb]
      refine ⟨fun i hi hl => ?_, ?_⟩
      · rcases hi with (hi | hi) | hi
        · exact hmem o i hi
        · split at hi
          · cases hi
          · rw [List.mem_singleton.mp hi] at hl
            simp [bccIssue, hbcc] at hl
        · exact hcodes i hi hl
      · rw [eventCountOf_frame]
        split <;> split <;> split <;> omega
    | skip code raw detail =>
      obtain ⟨hcodes, hcount⟩ := ih ec (o + raw.length)
      have hcode := isLimit_of_isGap ((hts (.skip code raw detail) List.mem_cons_self).2 _ _ _ rfl)
      simp only [issuesOf, List.mem_cons, List.countP_cons, hcount, skipIssue, hcode,
        eventCountOf_skip]
      refine ⟨fun i hi hl => ?_, by simp⟩
      rcases hi with rfl | hi
      · rw [hcode] at hl
        cases hl
      · exact hcodes i hi hl

/-- What a framing says of the event limit. -/
theorem frameStream_limits {lim : FramerLimits} {payload : Bytes} {r : FramingResult}
    (h : frameStream lim payload = .ok r) :
    (r.eventsTruncated = true ↔ TooManyEvents lim payload) ∧
      r.issues.countP (·.code.isLimit) ≤ 2 ∧
      ((∃ i ∈ r.issues, i.code = .eventLimitExceeded) ↔
        TooManyEvents lim payload ∧ EventLimitShown lim payload) := by
  rw [frameStream_eq] at h
  cases h
  obtain ⟨hcodes, hcount⟩ := issuesOf_limits lim 0 0
    (runTokens_proper lim.maxDataLength (Framer.cut lim payload.length [] payload))
  change ∀ i ∈ diagnostics lim payload, _ at hcodes
  change (diagnostics lim payload).countP _ = _ at hcount
  have hcount' : (diagnostics lim payload).countP (·.code.isLimit) ≤ 1 := by
    rw [hcount]
    split <;> omega
  have hmany : TooManyEvents lim payload ↔
      ∃ i ∈ diagnostics lim payload, i.code = .eventLimitExceeded := by
    have hiff : TooManyEvents lim payload ↔ 0 < (diagnostics lim payload).countP (·.code.isLimit) := by
      rw [hcount, TooManyEvents, streamTokens]
      split <;> omega
    rw [hiff, List.countP_pos_iff]
    refine ⟨fun ⟨i, hi, hl⟩ => ⟨i, hi, hcodes i hi hl⟩, fun ⟨i, hi, hc⟩ => ⟨i, hi, ?_⟩⟩
    rw [hc]
    decide
  refine ⟨?_, ?_, ?_⟩
  · rw [(resultOf_totals lim _ _).2.2.1, decide_eq_true_iff]
    rfl
  · rw [resultOf_issues]
    change List.countP _ (if (diagnostics lim payload).length ≤ _ then diagnostics lim payload
      else (diagnostics lim payload).take _ ++ _) ≤ 2
    split
    · omega
    · rw [List.countP_append]
      have htake := (List.take_sublist (lim.maxIssues - 1) (diagnostics lim payload)).countP_le
        (p := (·.code.isLimit))
      exact Nat.add_le_add (Nat.le_trans htake hcount') List.countP_le_length
  · rw [resultOf_issues]
    change (∃ i ∈ (if (diagnostics lim payload).length ≤ _ then diagnostics lim payload
      else (diagnostics lim payload).take _ ++ _), _) ↔ _
    rw [EventLimitShown]
    split
    · next hle => rw [hmany]; exact ⟨fun h => ⟨h, .inl hle⟩, fun h => h.1⟩
    · next hle =>
      constructor
      · rintro ⟨i, hi, hc⟩
        rcases List.mem_append.mp hi with hi | hi
        · exact ⟨hmany.mpr ⟨i, List.mem_of_mem_take hi, hc⟩, .inr ⟨i, hi, hc⟩⟩
        · rw [List.mem_singleton.mp hi] at hc
          cases hc
      · rintro ⟨-, hfit | ⟨i, hi, hc⟩⟩
        · exact absurd hfit hle
        · exact ⟨i, List.mem_append_left _ hi, hc⟩

/-! ## The issues that were found -/

/-- A result reports a limit. -/
def ProtocolCopiesResult.Reports (r : ProtocolCopiesResult) (code : IssueCode) : Prop :=
  ∃ i ∈ r.issues, i.code = code

theorem analysisIssue_limits (n : Nat) (direction : Direction) (original : Bytes) :
    (analysisIssue n direction original).countP ReceiptIssue.isLimit ≤ 1 ∧
      (∀ i ∈ analysisIssue n direction original, i.code = .analysisByteLimitExceeded) ∧
      (n < original.length → analysisIssue n direction original ≠ []) := by
  unfold analysisIssue
  split
  · next heq =>
    refine ⟨by simp, nofun, fun hlt => ?_⟩
    rw [List.length_take] at heq
    omega
  · exact ⟨List.countP_le_length, fun i hi => by rw [List.mem_singleton.mp hi], fun _ => by simp⟩

/-- No diagnostic of the correlations is a limit. -/
theorem correlateDirections_limits (maxIssues : Nat) (request response : FramingResult) :
    ∀ i ∈ (correlateDirections maxIssues request response).2, i.isLimit = false := by
  have hcodes : ∀ c : IssueCode, c ∈ [IssueCode.missingAckCandidate, .missingResponseFrameCandidate,
      .responseSequenceMismatch, .unmatchedResponseFrame, .unmatchedAck] → c.isLimit = false := by
    decide
  have hpair : ∀ f ack resp, ∀ i ∈ correlationIssues f ack resp, i.isLimit = false := by
    intro f ack resp i hi
    refine hcodes i.code ?_
    unfold correlationIssues at hi
    rcases List.mem_append.mp hi with hi | hi
    · split at hi
      · cases hi
      · rw [List.mem_singleton.mp hi]; simp
    · split at hi
      · rw [List.mem_singleton.mp hi]; simp
      · dsimp only at hi
        split at hi
        · rw [List.mem_singleton.mp hi]; simp
        · cases hi
  have hfold : ∀ (l acc : List ReceiptIssue), (∀ i ∈ acc, i.isLimit = false) →
      (∀ i ∈ l, i.isLimit = false) →
      ∀ i ∈ l.foldl (addBounded maxIssues) acc, i.isLimit = false := by
    intro l
    induction l with
    | nil => exact fun acc hacc _ => hacc
    | cons x l ih =>
      intro acc hacc hl
      refine ih _ (fun i hi => ?_) fun i hi => hl i (List.mem_cons_of_mem x hi)
      unfold addBounded at hi
      split at hi
      · rcases List.mem_append.mp hi with hi | hi
        · exact hacc i hi
        · rw [List.mem_singleton.mp hi]
          exact hl x List.mem_cons_self
      · exact hacc i hi
  refine hfold _ [] (fun _ h => absurd h List.not_mem_nil) fun i hi => ?_
  rcases List.mem_append.mp hi with hi | hi
  · rcases List.mem_append.mp hi with hi | hi
    · obtain ⟨⟨f, ack, resp⟩, -, hi⟩ := List.mem_flatMap.mp hi
      exact hpair f ack resp i hi
    · obtain ⟨f, -, rfl⟩ := List.mem_map.mp hi
      exact hcodes _ (by simp [unmatchedResponse])
  · obtain ⟨a, -, rfl⟩ := List.mem_map.mp hi
    exact hcodes _ (by simp [unmatchedAck])

section
variable (lim : ParserLimits) (request response : FramingResult)

theorem reconstruct_documentIssues (m : SemanticBudget) :
    ((reconstruct lim request response).run m).1.2 =
      (finalAssembler lim.maxDocuments request.frames m).issues ++
        (correlateDirections lim.framer.maxIssues request response).2 := rfl

theorem countP_receiptIssue (issues : List FramingIssue) (direction : Direction) :
    (issues.map (·.receiptIssue direction)).countP ReceiptIssue.isLimit =
      issues.countP (·.code.isLimit) := by
  rw [List.countP_map]
  rfl

theorem countP_toList_le (o : Option ReceiptIssue) : o.toList.countP ReceiptIssue.isLimit ≤ 1 := by
  cases o with
  | none => exact Nat.zero_le _
  | some i => exact List.countP_le_length

variable {lim request response}

/-- At most nine of the issues that were found are limits. -/
theorem foundIssues_limits {initialIssues : List ReceiptIssue}
    (hinitial : initialIssues.countP ReceiptIssue.isLimit ≤ 2)
    (hrequest : request.issues.countP (·.code.isLimit) ≤ 2)
    (hresponse : response.issues.countP (·.code.isLimit) ≤ 2) :
    (foundIssues lim request response initialIssues).countP ReceiptIssue.isLimit ≤ 9 := by
  have hdocuments := (finalAssembler_tidy lim.maxDocuments request.frames
    (.new lim.maxSemanticFields)).limits
  have htoNat := Bool.toNat_le (finalAssembler lim.maxDocuments request.frames
    (.new lim.maxSemanticFields)).documentLimitReported
  have hcorrelation : (correlateDirections lim.framer.maxIssues request response).2.countP
      ReceiptIssue.isLimit = 0 :=
    List.countP_eq_zero.mpr fun i hi => by
      simp [correlateDirections_limits _ request response i hi]
  have hsemantic : (((reconstruct lim request response).run
      (.new lim.maxSemanticFields)).2.issue.toList.map Subtype.val).countP ReceiptIssue.isLimit ≤ 1 := by
    rw [← Option.toList_map]
    exact countP_toList_le _
  have hmessage := countP_toList_le (collectMessages lim.maxMessages request response).limitIssue
  simp only [foundIssues, reconstruct_documentIssues, List.countP_append, countP_receiptIssue]
  omega

/-- The event limit comes from the framing of one of the directions. -/
theorem mem_foundIssues_event {initialIssues : List ReceiptIssue} {i : ReceiptIssue}
    (hinitial : ∀ i ∈ initialIssues, i.code = .analysisByteLimitExceeded)
    (hi : i ∈ foundIssues lim request response initialIssues)
    (hcode : i.code = .eventLimitExceeded) :
    (∃ j ∈ request.issues, j.code = .eventLimitExceeded) ∨
      ∃ j ∈ response.issues, j.code = .eventLimitExceeded := by
  have hframing : ∀ (issues : List FramingIssue) direction,
      i ∈ issues.map (·.receiptIssue direction) → ∃ j ∈ issues, j.code = .eventLimitExceeded := by
    intro issues direction h
    obtain ⟨j, hj, rfl⟩ := List.mem_map.mp h
    exact ⟨j, hj, hcode⟩
  have hlimit : i.isLimit = true := by
    rw [ReceiptIssue.isLimit, hcode]
    decide
  simp only [foundIssues, reconstruct_documentIssues, List.mem_append] at hi
  rcases hi with ((((hi | hi) | hi) | hi | hi) | hi) | hi
  · rw [hinitial i hi] at hcode
    cases hcode
  · exact .inl (hframing _ _ hi)
  · exact .inr (hframing _ _ hi)
  · -- the only limit of the assembler is its own
    have htidy := finalAssembler_tidy lim.maxDocuments request.frames (.new lim.maxSemanticFields)
    rw [htidy.codes i hi hlimit] at hcode
    cases hcode
  · rw [correlateDirections_limits _ request response i hi] at hlimit
    cases hlimit
  · obtain ⟨s, -, rfl⟩ := List.mem_map.mp hi
    rw [s.2] at hcode
    cases hcode
  · rw [collectMessages_limitIssue request response i (by simpa using hi)] at hcode
    cases hcode

end

/-! ## Documents -/

/-- A document that another limit would keep is reported as omitted. -/
theorem documentLimit_reported (frames : List RCHFrame) (budget : SemanticBudget) {n m : Nat}
    (h : (finalAssembler n frames budget).documents.length <
      (finalAssembler m frames budget).documents.length) :
    ∃ i ∈ (finalAssembler n frames budget).issues, i.code = .documentLimitExceeded := by
  refine (finalAssembler_tidy n frames budget).reported ?_
  rcases Nat.lt_trichotomy n m with hlt | rfl | hgt
  · have hcut := finalAssembler_cut hlt frames budget
    refine hcut.reported.mpr ?_
    rw [hcut.documents, List.length_take] at h
    omega
  · exact absurd h (Nat.lt_irrefl _)
  · have hcut := finalAssembler_cut hgt frames budget
    rw [hcut.documents, List.length_take] at h
    omega

/-! ## Semantic fields -/

section
variable (lim : ParserLimits) (request response : FramingResult)

theorem attachResponseCounters_yields (correlations : List RequestResponseCorrelation)
    (ds : List ParsedReceipt) :
    Yields (attachResponseCounters correlations request response ds) fun _ => True := by
  induction ds with
  | nil => exact .pure trivial
  | cons d ds ih =>
    rw [attachResponseCounters_cons]
    have hd : Yields (attachResponseCounter correlations request response d) fun _ => True := by
      unfold attachResponseCounter
      split
      · exact .pure trivial
      split
      · exact .pure trivial
      · exact (Yields.reserve 4 _).bind (fun _ _ => .pure trivial) fun _ => .pure _
    exact hd.bind (fun _ _ => ih.bind (fun _ _ => .pure trivial) fun _ => .pure _) fun _ =>
      ih.sticky.bind fun _ => .pure _

/-- The documents of a run that refuses nothing are those of every larger budget. -/
theorem reconstruct_stable {n m : Nat} (hle : n ≤ m)
    (h : ((reconstruct lim request response).run (.new n)).2.issue = none) :
    ((reconstruct lim request response).run (.new m)).1 =
      ((reconstruct lim request response).run (.new n)).1 := by
  have hdocs : Yields (parseDocuments lim.maxDocuments request.frames) fun _ => True :=
    (items_read.parseFrames_yields lim.maxDocuments {} request.frames).bind
      (fun _ _ => .pure trivial) fun _ => .pure _
  have hyields : Yields (reconstruct lim request response) fun _ => True :=
    hdocs.bind
      (fun _ _ => (attachResponseCounters_yields request response _ _).bind
        (fun _ _ => .pure trivial) fun _ => .pure _)
      fun _ => (attachResponseCounters_yields request response _ _).sticky.bind fun _ => .pure _
  obtain ⟨need, cost, a, hmetered, -⟩ := hyields
  obtain ⟨hneed, hrun⟩ := hmetered.of_issue_none h
  have hneed' : (Meter.new m : SemanticBudget).used + need ≤ (Meter.new m : SemanticBudget).limit :=
    Nat.le_trans hneed hle
  rw [hrun, hmetered.within _ hneed']

end

/-! ## Every limit -/

/-- Every limit that was crossed is in the issues of the result. A document was omitted if another
limit would have kept more, a derived record if a larger budget would have given other documents. -/
structure LimitsVisible (lim : ParserLimits) (request response : Bytes)
    (r : ProtocolCopiesResult) : Prop where
  events : r.requestFraming.eventsTruncated = true ∨ r.responseFraming.eventsTruncated = true →
    r.Reports .eventLimitExceeded
  documents : (∃ n, r.documents.length < ((parseDocuments n r.requestFraming.frames).run
    (.new lim.maxSemanticFields)).1.1.length) → r.Reports .documentLimitExceeded
  messages : (∃ e ∈ r.requestFraming.events, ∀ id, e.message id .request ∉ r.messages) ∨
    (∃ e ∈ r.responseFraming.events, ∀ id, e.message id .response ∉ r.messages) →
    r.Reports .messageLimitExceeded
  fields : (∃ n, lim.maxSemanticFields ≤ n ∧
    ((reconstruct lim r.requestFraming r.responseFraming).run (.new n)).1.1 ≠ r.documents) →
    r.Reports .semanticFieldLimitExceeded
  bytes : lim.maxAnalyzedBytes < request.length ∨ lim.maxAnalyzedBytes < response.length →
    r.Reports .analysisByteLimitExceeded

theorem mem_messagesFrom {e : StreamEvent} {events : List StreamEvent} (he : e ∈ events)
    (direction : Direction) (n : Nat) :
    ∃ id, e.message id direction ∈ messagesFrom direction n events := by
  induction events generalizing n with
  | nil => cases he
  | cons x events ih =>
    rcases List.mem_cons.mp he with rfl | he
    · exact ⟨n + 1, List.mem_cons_self⟩
    · obtain ⟨id, hid⟩ := ih he (n + 1)
      exact ⟨id, List.mem_cons_of_mem _ hid⟩

section
variable {lim : ParserLimits} {request response : FramingResult} {initialIssues : List ReceiptIssue}

/-- An issue of a limit that was found is reported. -/
theorem reports_of_mem
    (hlimits : (foundIssues lim request response initialIssues).countP ReceiptIssue.isLimit ≤
      lim.framer.maxIssues - 1)
    {i : ReceiptIssue} (hi : i ∈ foundIssues lim request response initialIssues) {code : IssueCode}
    (hcode : i.code = code) (hlimit : code.isLimit = true) :
    (parseFramedCopies lim initialIssues request response).Reports code :=
  ⟨i, mem_boundedResultIssues hlimits hi (by rw [ReceiptIssue.isLimit, hcode]; exact hlimit), hcode⟩

theorem messageLimit_reported
    (h : (∃ e ∈ request.events, ∀ id, e.message id .request ∉
        (collectMessages lim.maxMessages request response).messages) ∨
      ∃ e ∈ response.events, ∀ id, e.message id .response ∉
        (collectMessages lim.maxMessages request response).messages) :
    ∃ i ∈ (collectMessages lim.maxMessages request response).limitIssue,
      i.code = .messageLimitExceeded := by
  cases hissue : (collectMessages lim.maxMessages request response).limitIssue with
  | some i => exact ⟨i, rfl, collectMessages_limitIssue request response i hissue⟩
  | none =>
    rw [collectMessages_messages hissue] at h
    rcases h with ⟨e, he, hnone⟩ | ⟨e, he, hnone⟩
    · obtain ⟨id, hid⟩ := mem_messagesFrom he .request 0
      exact absurd (List.mem_append_left _ hid) (hnone id)
    · obtain ⟨id, hid⟩ := mem_messagesFrom he .response request.events.length
      exact absurd (List.mem_append_right _ hid) (hnone id)

end

/-- **A crossed limit is visible in the result** exactly where the event limit, if a direction
crosses it, has a slot among the diagnostics of such a direction. -/
theorem limitsVisible_iff (lim : ParserLimits) (hmax : 10 ≤ lim.framer.maxIssues)
    (request response : Bytes) (result : ProtocolCopiesResult)
    (hok : parseProtocolCopies lim request response = .ok result) :
    LimitsVisible lim request response result ↔
      (TooManyEvents lim.framer (request.take lim.maxAnalyzedBytes) ∨
        TooManyEvents lim.framer (response.take lim.maxAnalyzedBytes) →
      TooManyEvents lim.framer (request.take lim.maxAnalyzedBytes) ∧
          EventLimitShown lim.framer (request.take lim.maxAnalyzedBytes) ∨
        TooManyEvents lim.framer (response.take lim.maxAnalyzedBytes) ∧
          EventLimitShown lim.framer (response.take lim.maxAnalyzedBytes)) := by
  obtain ⟨req, resp, hreq, hresp, hparse⟩ := parseProtocolCopies_ok lim request response
  rw [hok] at hparse
  cases hparse
  obtain ⟨htruncated, hcount, hshown⟩ := frameStream_limits hreq
  obtain ⟨htruncated', hcount', hshown'⟩ := frameStream_limits hresp
  obtain ⟨hbytes, hcodes, hcut⟩ := analysisIssue_limits lim.maxAnalyzedBytes .request request
  obtain ⟨hbytes', hcodes', hcut'⟩ := analysisIssue_limits lim.maxAnalyzedBytes .response response
  set initial := analysisIssue lim.maxAnalyzedBytes .request request ++
    analysisIssue lim.maxAnalyzedBytes .response response with hinitial
  have hinitialCodes : ∀ i ∈ initial, i.code = .analysisByteLimitExceeded := fun i hi =>
    (List.mem_append.mp hi).elim (hcodes i) (hcodes' i)
  have hlimits : (foundIssues lim req resp initial).countP ReceiptIssue.isLimit ≤
      lim.framer.maxIssues - 1 := by
    have hcountInitial : initial.countP ReceiptIssue.isLimit ≤ 2 := by
      rw [hinitial, List.countP_append]
      omega
    exact Nat.le_trans (foundIssues_limits hcountInitial hcount hcount') (by omega)
  have hframing : ∀ i ∈ foundIssues lim req resp initial, i.code = .eventLimitExceeded →
      (parseFramedCopies lim initial req resp).Reports .eventLimitExceeded := fun i hi hc =>
    reports_of_mem hlimits hi hc (by decide)
  rw [← hshown, ← hshown', ← htruncated, ← htruncated']
  constructor
  · intro hvisible htrunc
    obtain ⟨i, hi, hc⟩ := hvisible.events htrunc
    exact mem_foundIssues_event hinitialCodes
      (of_mem_boundedResultIssues hi (by rw [hc]; decide)) hc
  · intro hevents
    refine ⟨fun htrunc => ?_, fun ⟨n, hn⟩ => ?_, fun hmessage => ?_, fun ⟨n, hle, hne⟩ => ?_,
      fun hlong => ?_⟩
    · rcases hevents htrunc with ⟨j, hj, hc⟩ | ⟨j, hj, hc⟩
      · refine hframing (j.receiptIssue .request) ?_ hc
        simp only [foundIssues, List.mem_append, List.mem_map]
        exact .inl (.inl (.inl (.inl (.inr ⟨j, hj, rfl⟩))))
      · refine hframing (j.receiptIssue .response) ?_ hc
        simp only [foundIssues, List.mem_append, List.mem_map]
        exact .inl (.inl (.inl (.inr ⟨j, hj, rfl⟩)))
    · have hlen : (parseFramedCopies lim initial req resp).documents.length =
          (finalAssembler lim.maxDocuments req.frames (.new lim.maxSemanticFields)).documents.length := by
        have h := congrArg List.length
          (reconstruct_records lim req resp (.new lim.maxSemanticFields))
        rwa [List.length_map, List.length_map] at h
      rw [hlen] at hn
      obtain ⟨i, hi, hc⟩ := documentLimit_reported req.frames (.new lim.maxSemanticFields) hn
      refine reports_of_mem hlimits ?_ hc (by decide)
      simp only [foundIssues, reconstruct_documentIssues, List.mem_append]
      exact .inl (.inl (.inr (.inl hi)))
    · obtain ⟨i, hi, hc⟩ := messageLimit_reported hmessage
      refine reports_of_mem hlimits ?_ hc (by decide)
      simp only [foundIssues, List.mem_append, Option.mem_toList]
      exact .inr hi
    · cases hissue : ((reconstruct lim req resp).run (.new lim.maxSemanticFields)).2.issue with
      | none => exact absurd (congrArg Prod.fst (reconstruct_stable lim req resp hle hissue)) hne
      | some i =>
        refine reports_of_mem hlimits ?_ i.2 (by decide)
        simp [foundIssues, hissue]
    · have hne : initial ≠ [] := by
        rw [hinitial]
        intro hnil
        obtain ⟨h1, h2⟩ := List.append_eq_nil_iff.mp hnil
        exact hlong.elim (fun h => hcut h h1) fun h => hcut' h h2
      obtain ⟨i, rest, hi⟩ := List.exists_cons_of_ne_nil hne
      have hmem : i ∈ initial := by rw [hi]; exact List.mem_cons_self
      refine reports_of_mem hlimits ?_ (hinitialCodes i hmem) (by decide)
      simp only [foundIssues, List.mem_append]
      exact .inl (.inl (.inl (.inl (.inl hmem))))

/-- Small limits: as many events as wanted, ten issues. -/
def smallLimits (maxEvents : Nat) (h : 1 ≤ maxEvents) : ParserLimits :=
  { ParserLimits.default with
    framer := { FramerLimits.default with
      maxEvents := maxEvents
      maxIssues := 10
      events_pos := h
      issues_pos := by decide } }

theorem limitsVisible_iff_acks :
    ∃ result, parseProtocolCopies (smallLimits 1 (by decide)) [ACK, ACK] [] = .ok result ∧
      LimitsVisible (smallLimits 1 (by decide)) [ACK, ACK] [] result := by
  obtain ⟨_, _, -, -, hok⟩ := parseProtocolCopies_ok (smallLimits 1 (by decide)) [ACK, ACK] []
  refine ⟨_, hok, (limitsVisible_iff _ (by decide) _ _ _ hok).mpr fun _ => .inl ⟨?_, .inl ?_⟩⟩
  · show 1 < eventCountOf (streamTokens (smallLimits 1 (by decide)).framer [ACK, ACK])
    decide +kernel
  · show (diagnostics (smallLimits 1 (by decide)).framer [ACK, ACK]).length ≤ 10
    decide +kernel

/-- Ten stray bytes, each before an ACK, fill the diagnostics, and an eleventh event follows. -/
def floodedStream : Bytes := (List.replicate 10 [0x58, ACK]).flatten ++ [ACK]

/-- The event limit of a flooded stream is not in the result. -/
theorem limits_hidden :
    ¬ ∀ (lim : ParserLimits) (request response : Bytes) (result : ProtocolCopiesResult),
      10 ≤ lim.framer.maxIssues → parseProtocolCopies lim request response = .ok result →
        LimitsVisible lim request response result := by
  intro hall
  have h : (parseProtocolCopies (smallLimits 10 (by decide)) floodedStream []).map
      (fun r => (r.requestFraming.eventsTruncated,
        r.issues.any (·.code = .eventLimitExceeded))) = .ok (true, false) := by decide +kernel
  obtain ⟨_, _, -, -, hok⟩ := parseProtocolCopies_ok (smallLimits 10 (by decide)) floodedStream []
  rw [hok] at h
  obtain ⟨htrunc, hnone⟩ := Prod.mk.inj (Except.ok.inj h)
  obtain ⟨i, hi, hc⟩ := (hall _ _ _ _ (by decide) hok).events (.inl htrunc)
  exact absurd (List.any_eq_false.mp hnone i hi) (by simp [hc])

end RchProxy
