import RchProxy.Framing.Log
import RchProxy.Receipt.Copies
import RchProxy.Receipt.Fill

/-!
# The parts of a result

What `_parse_framed_copies` puts together: the bounded list of issues hides no problem and no limit,
the messages are those of all events unless the limit is reported, and the counters and subtypes
leave the records of a document as they are.
-/

namespace RchProxy

open Py Lib Lib.Spend

/-! ## Bounded issues -/

section
variable {issues : List ReceiptIssue} {maxIssues : Nat}

/-- An empty list of issues was empty before it was bounded. -/
theorem boundedResultIssues_eq_nil (h : boundedResultIssues issues maxIssues = []) :
    issues = [] := by
  unfold boundedResultIssues at h
  split at h
  · exact h
  · simp at h

/-- Without a limit issue nothing was omitted. -/
theorem boundedResultIssues_no_limit
    (h : ∀ i ∈ boundedResultIssues issues maxIssues, i.code.isLimit = false) :
    boundedResultIssues issues maxIssues = issues := by
  unfold boundedResultIssues at h ⊢
  split
  · rfl
  · next hle =>
    rw [if_neg hle] at h
    have hlast := h _ (List.mem_append_right _ (List.mem_singleton_self _))
    have hcode : IssueCode.resultIssueLimitExceeded.isLimit = true := by decide
    exact absurd hlast (by simp [hcode])

end

/-- `add_issue` keeps the first issues, as many as fit. -/
theorem foldl_addBounded (maxIssues : Nat) (found issues : List ReceiptIssue) :
    found.foldl (addBounded maxIssues) issues = issues ++ found.take (maxIssues - issues.length) := by
  induction found generalizing issues with
  | nil => simp
  | cons i found ih =>
    rw [List.foldl_cons, ih, addBounded]
    split
    · obtain ⟨n, hn⟩ : ∃ n, maxIssues - issues.length = n + 1 :=
        ⟨maxIssues - issues.length - 1, by omega⟩
      have hn' : maxIssues - (issues ++ [i]).length = n := by
        rw [List.length_append, List.length_singleton]
        omega
      rw [hn, hn', List.take_succ_cons, List.append_assoc, List.singleton_append]
    · have hn : maxIssues - issues.length = 0 := by omega
      rw [hn, List.take_zero, List.take_zero]

/-- A bounded list of issues is empty only if there was nothing to add. -/
theorem foldl_addBounded_eq_nil {maxIssues : Nat} (hpos : 1 ≤ maxIssues) {found : List ReceiptIssue}
    (h : found.foldl (addBounded maxIssues) [] = []) : found = [] := by
  rw [foldl_addBounded, List.nil_append, List.take_eq_nil_iff] at h
  exact h.resolve_left (Nat.ne_of_gt hpos)

/-! ## Messages -/

section
variable {maxMessages : Nat} {direction : Direction} {events : List StreamEvent} {log : MessageLog}

/-- The events of one direction, one message each, from an id on. -/
def messagesFrom (direction : Direction) (n : Nat) (events : List StreamEvent) :
    List ProtocolMessage :=
  match events with
  | [] => []
  | e :: es => e.message (n + 1) direction :: messagesFrom direction (n + 1) es

theorem messagesFrom_length (n : Nat) :
    (messagesFrom direction n events).length = events.length := by
  induction events generalizing n with
  | nil => rfl
  | cons e es ih => simp [messagesFrom, ih]

theorem foldl_add_messages
    (h : (events.foldl (MessageLog.add maxMessages direction) log).limitIssue = none) :
    log.limitIssue = none ∧
      (events.foldl (MessageLog.add maxMessages direction) log).messages =
        log.messages ++ messagesFrom direction log.messages.length events := by
  induction events generalizing log with
  | nil => exact ⟨h, by simp [messagesFrom]⟩
  | cons e es ih =>
    obtain ⟨h1, h2⟩ := ih h
    rw [List.foldl_cons, h2]
    unfold MessageLog.add at h1 ⊢
    split at h1
    · cases hl : log.limitIssue <;> simp [hl] at h1
    · next hlt =>
      refine ⟨h1, ?_⟩
      simp [if_neg hlt, messagesFrom]

theorem foldl_add_limitIssue (hlog : ∀ i ∈ log.limitIssue, i.code = .messageLimitExceeded) :
    ∀ i ∈ (events.foldl (MessageLog.add maxMessages direction) log).limitIssue,
      i.code = .messageLimitExceeded := by
  induction events generalizing log with
  | nil => exact hlog
  | cons e es ih =>
    refine ih fun i hi => ?_
    unfold MessageLog.add at hi
    split at hi
    · cases hl : log.limitIssue with
      | none => rw [hl] at hi; cases hi; rfl
      | some j => rw [hl] at hi; cases hi; exact hlog _ hl
    · exact hlog i hi

/-- The messages of a run that does not report the limit. -/
theorem collectMessages_messages {request response : FramingResult}
    (h : (collectMessages maxMessages request response).limitIssue = none) :
    (collectMessages maxMessages request response).messages =
      messagesFrom .request 0 request.events ++
        messagesFrom .response request.events.length response.events := by
  obtain ⟨h1, h2⟩ := foldl_add_messages h
  obtain ⟨-, h3⟩ := foldl_add_messages h1
  rw [collectMessages, h2, h3]
  simp [messagesFrom_length]

theorem collectMessages_limitIssue (request response : FramingResult) :
    ∀ i ∈ (collectMessages maxMessages request response).limitIssue,
      i.code = .messageLimitExceeded :=
  foldl_add_limitIssue (foldl_add_limitIssue nofun)

end

/-! ## Counters and subtypes -/

/-- What counters and subtypes leave as it is. -/
structure Records where
  documentType : DocKind
  complete : Bool
  frameIds : List Nat
  items : List Item
  totals : List Total
  lines : List DocumentLine
  deriving DecidableEq, Repr

/-- The records of a document. -/
def ParsedReceipt.records (d : ParsedReceipt) : Records :=
  ⟨d.documentType, d.complete, d.frameIds, d.model.items, d.model.totals, d.model.lines⟩

section
variable (correlations : List RequestResponseCorrelation) (request response : FramingResult)

/-- A complete commercial document gets the last of its counters, or stays as it is. -/
theorem attachResponseCounter_cases (d : ParsedReceipt) :
    Always (attachResponseCounter correlations request response d) fun d' =>
      d' = d ∨ d.documentType = .commerciale ∧ d.complete = true ∧ ∃ frame suffix,
        (d.frameIds.foldl (counterStep correlations request response) (false, [])).2.getLast? =
          some (frame, suffix) ∧
        d' = { d with model := d.model.attachCounter frame suffix } := by
  unfold attachResponseCounter
  split
  · exact .pure (.inl rfl)
  next hguard =>
  rw [not_or, not_not, Bool.not_eq_false] at hguard
  split
  · exact .pure (.inl rfl)
  · next frame suffix hlast =>
    refine (Always.any _).bind fun granted _ => .pure ?_
    cases granted with
    | false => exact .inl rfl
    | true => exact .inr ⟨hguard.1, hguard.2, frame, suffix, hlast, rfl⟩

theorem attachResponseCounter_sticky (d : ParsedReceipt) :
    Sticky (attachResponseCounter correlations request response d) := by
  unfold attachResponseCounter
  refine .ite (.pure _) ?_
  split
  · exact .pure _
  · exact (Sticky.reserve 4 _).bind fun _ => .pure _

theorem attachResponseCounters_cons (d : ParsedReceipt) (ds : List ParsedReceipt) :
    attachResponseCounters correlations request response (d :: ds) = do
      let d ← attachResponseCounter correlations request response d
      let ds ← attachResponseCounters correlations request response ds
      return d :: ds :=
  List.mapM_cons

/-- Counters keep what a counter keeps. -/
theorem attachResponseCounters_map {β : Type} {g : ParsedReceipt → β}
    (hg : ∀ d frame suffix, g { d with model := d.model.attachCounter frame suffix } = g d)
    (ds : List ParsedReceipt) (m : SemanticBudget) :
    ((attachResponseCounters correlations request response ds).run m).1.map g = ds.map g := by
  induction ds generalizing m with
  | nil => rfl
  | cons d ds ih =>
    rw [attachResponseCounters_cons]
    refine congrArg₂ List.cons ?_ (ih _)
    rcases attachResponseCounter_cases correlations request response d m with h | ⟨-, -, _, _, -, h⟩
    · exact congrArg g h
    · exact (congrArg g h).trans (hg _ _ _)

/-- The counters of the first documents do not depend on the others. -/
theorem attachResponseCounters_take (ds : List ParsedReceipt) (n : Nat) (m : SemanticBudget) :
    ((attachResponseCounters correlations request response ds).run m).1.take n =
      ((attachResponseCounters correlations request response (ds.take n)).run m).1 := by
  induction ds generalizing n m with
  | nil => rw [List.take_nil]; exact List.take_nil
  | cons d ds ih =>
    cases n with
    | zero => rfl
    | succ n =>
      rw [List.take_succ_cons, attachResponseCounters_cons, attachResponseCounters_cons]
      exact congrArg₂ List.cons rfl (ih n _)

theorem attachResponseCounters_records (ds : List ParsedReceipt) (m : SemanticBudget) :
    ((attachResponseCounters correlations request response ds).run m).1.map
      ParsedReceipt.records = ds.map ParsedReceipt.records :=
  attachResponseCounters_map correlations request response (fun _ _ _ => rfl) ds m

theorem attachResponseCounters_sticky (ds : List ParsedReceipt) :
    Sticky (attachResponseCounters correlations request response ds) := by
  induction ds with
  | nil => exact .pure _
  | cons d ds ih =>
    rw [attachResponseCounters_cons]
    exact (attachResponseCounter_sticky correlations request response d).bind fun _ =>
      ih.bind fun _ => .pure _

end

/-- Subtypes keep what a subtype keeps. -/
theorem assignDocumentSubtypes_map {β : Type} {g : ParsedReceipt → β}
    (hg : ∀ d subtype evidence relation, g (d.assignSubtype subtype evidence relation) = g d)
    (prior ds : List ParsedReceipt) : (assignDocumentSubtypes prior ds).map g = ds.map g := by
  induction ds generalizing prior with
  | nil => rfl
  | cons d ds ih =>
    unfold assignDocumentSubtypes
    cases d.documentType with
    | commerciale => exact congrArg₂ List.cons (hg _ _ _ _) (ih _)
    | gestionale => exact congrArg₂ List.cons (hg _ _ _ _) (ih _)

theorem assignDocumentSubtypes_records (prior ds : List ParsedReceipt) :
    (assignDocumentSubtypes prior ds).map ParsedReceipt.records = ds.map ParsedReceipt.records :=
  assignDocumentSubtypes_map (fun _ _ _ _ => rfl) prior ds

theorem assignDocumentSubtypes_commerciale {d : ParsedReceipt} (h : d.documentType = .commerciale)
    (prior ds : List ParsedReceipt) :
    assignDocumentSubtypes prior (d :: ds) =
      d.assignSubtype .documentoCommerciale .inferred none ::
        assignDocumentSubtypes (prior ++ [d.assignSubtype .documentoCommerciale .inferred none]) ds := by
  rw [assignDocumentSubtypes, h]

theorem assignDocumentSubtypes_gestionale {d : ParsedReceipt} (h : d.documentType = .gestionale)
    (prior ds : List ParsedReceipt) :
    assignDocumentSubtypes prior (d :: ds) =
      d.assignSubtype (managementSubtype d prior).1 (managementSubtype d prior).2.1
        (managementSubtype d prior).2.2 :: assignDocumentSubtypes prior ds := by
  rw [assignDocumentSubtypes, h]

/-- The subtypes of the first documents do not depend on the others. -/
theorem assignDocumentSubtypes_take (prior ds : List ParsedReceipt) (n : Nat) :
    (assignDocumentSubtypes prior ds).take n = assignDocumentSubtypes prior (ds.take n) := by
  induction ds generalizing prior n with
  | nil => rw [List.take_nil, assignDocumentSubtypes, List.take_nil]
  | cons d ds ih =>
    cases n with
    | zero => rfl
    | succ n =>
      rw [List.take_succ_cons]
      cases hk : d.documentType with
      | commerciale =>
        rw [assignDocumentSubtypes_commerciale hk, assignDocumentSubtypes_commerciale hk,
          List.take_succ_cons, ih]
      | gestionale =>
        rw [assignDocumentSubtypes_gestionale hk, assignDocumentSubtypes_gestionale hk,
          List.take_succ_cons, ih]

/-! ## The result of a parse -/

section
variable (lim : ParserLimits) (request response : FramingResult) (m : SemanticBudget)

/-- The documents of a result have the records of those `_parse_documents` returns. -/
theorem reconstruct_records :
    ((reconstruct lim request response).run m).1.1.map ParsedReceipt.records =
      ((parseDocuments lim.maxDocuments request.frames).run m).1.1.map ParsedReceipt.records :=
  (assignDocumentSubtypes_records [] _).trans (attachResponseCounters_records _ _ _ _ _)

theorem reconstruct_issues :
    ((reconstruct lim request response).run m).1.2 =
      ((parseDocuments lim.maxDocuments request.frames).run m).1.2 ++
        (correlateDirections lim.framer.maxIssues request response).2 := rfl

theorem reconstruct_issue_none (h : ((reconstruct lim request response).run m).2.issue = none) :
    ((parseDocuments lim.maxDocuments request.frames).run m).2.issue = none := by
  by_contra hne
  exact attachResponseCounters_sticky _ _ _ _ _ hne h

/-- The issues of a result, before they are bounded. -/
def foundIssues (initialIssues : List ReceiptIssue) : List ReceiptIssue :=
  initialIssues ++ request.issues.map (·.receiptIssue .request) ++
    response.issues.map (·.receiptIssue .response) ++
    ((reconstruct lim request response).run (.new lim.maxSemanticFields)).1.2 ++
    ((reconstruct lim request response).run (.new lim.maxSemanticFields)).2.issue.toList.map
      Subtype.val ++
    (collectMessages lim.maxMessages request response).limitIssue.toList

theorem parseFramedCopies_documents (initialIssues : List ReceiptIssue) :
    (parseFramedCopies lim initialIssues request response).documents =
      ((reconstruct lim request response).run (.new lim.maxSemanticFields)).1.1 := rfl

theorem parseFramedCopies_issues (initialIssues : List ReceiptIssue) :
    (parseFramedCopies lim initialIssues request response).issues =
      boundedResultIssues (foundIssues lim request response initialIssues) lim.framer.maxIssues :=
  rfl

variable {lim request response} {initialIssues : List ReceiptIssue}

/-- A result without a limit issue crossed no limit of documents, fields or messages. -/
theorem no_limit_crossed
    (h : ∀ i ∈ (parseFramedCopies lim initialIssues request response).issues,
      i.code.isLimit = false) :
    (∀ i ∈ ((parseDocuments lim.maxDocuments request.frames).run
      (.new lim.maxSemanticFields)).1.2, i.code ≠ .documentLimitExceeded) ∧
      ((reconstruct lim request response).run (.new lim.maxSemanticFields)).2.issue = none ∧
      (collectMessages lim.maxMessages request response).limitIssue = none := by
  rw [parseFramedCopies_issues] at h
  rw [boundedResultIssues_no_limit h] at h
  have hmem : ∀ i ∈ foundIssues lim request response initialIssues, ∀ c : IssueCode,
      c.isLimit = true → i.code ≠ c := by
    rintro i hi c hc rfl
    exact absurd hc (by rw [h i hi]; simp)
  refine ⟨fun i hi => hmem i ?_ _ (by decide), ?_, ?_⟩
  · simp only [foundIssues, reconstruct_issues, List.mem_append]
    exact .inl (.inl (.inr (.inl hi)))
  · rw [Option.eq_none_iff_forall_ne_some]
    intro i hi
    refine hmem i.1 ?_ _ (by decide) i.2
    simp [foundIssues, hi]
  · rw [Option.eq_none_iff_forall_ne_some]
    intro i hi
    refine hmem i ?_ .messageLimitExceeded (by decide) (collectMessages_limitIssue _ _ i hi)
    simp [foundIssues, hi]

end

/-- A parse always returns a result, from the framing of both directions. -/
theorem parseProtocolCopies_ok (lim : ParserLimits) (request response : Bytes) :
    ∃ requestFraming responseFraming,
      frameStream lim.framer (request.take lim.maxAnalyzedBytes) = .ok requestFraming ∧
      frameStream lim.framer (response.take lim.maxAnalyzedBytes) = .ok responseFraming ∧
      parseProtocolCopies lim request response = .ok (parseFramedCopies lim
        (analysisIssue lim.maxAnalyzedBytes .request request ++
          analysisIssue lim.maxAnalyzedBytes .response response) requestFraming responseFraming) := by
  obtain ⟨_, -, hreq⟩ := frameChunks_eq lim.framer [request.take lim.maxAnalyzedBytes]
  obtain ⟨_, -, hresp⟩ := frameChunks_eq lim.framer [response.take lim.maxAnalyzedBytes]
  refine ⟨_, _, hreq, hresp, ?_⟩
  rw [parseProtocolCopies, frameStream, hreq, frameStream, hresp]
  rfl

end RchProxy
