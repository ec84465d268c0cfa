import RchProxy.Receipt.Tidy

/-!
# Two limits of documents

A run under a limit of documents beside one under a larger limit. Past the limit the assembler goes on
and charges the budget, but drops what it assembles: the two runs stay in lockstep, the documents of
the first are the first documents of the second (`Assembler.Cut`), and so they are after counters and
subtypes (`reconstruct_cut`).
-/

namespace RchProxy

open Py Lib Lib.Spend

/-- A run under the limit `n` beside a run under a larger one. -/
structure Assembler.Cut (n : Nat) (a a' : Assembler) : Prop where
  documents : a.documents = a'.documents.take n
  active : a.active = a'.active
  pending : a.pendingStart = a'.pendingStart
  reported : a.documentLimitReported = true ↔ n < a'.documents.length

namespace Assembler.Cut

variable {n m : Nat} {a a' : Assembler}

theorem set (h : Cut n a a') (active : Option ReceiptBuilder) (pending : Option RCHFrame) :
    Cut n { a with active := active, pendingStart := pending }
      { a' with active := active, pendingStart := pending } :=
  ⟨h.documents, rfl, rfl, h.reported⟩

theorem setActive (h : Cut n a a') (active : Option ReceiptBuilder) :
    Cut n { a with active := active } { a' with active := active } :=
  ⟨h.documents, rfl, h.pending, h.reported⟩

theorem activeOf (h : Cut n a a') (kind : DocKind) : a.activeOf kind = a'.activeOf kind := by
  rw [Assembler.activeOf, Assembler.activeOf, h.active]

/-- A document that ends is kept in both runs under the same number, or dropped in the first. -/
theorem finishActive (h : Cut n a a') (hlt : n < m) (complete : Bool) :
    Cut n (a.finishActive n complete) (a'.finishActive m complete) := by
  have hlength : a.documents.length = min n a'.documents.length := by
    rw [h.documents, List.length_take]
  unfold Assembler.finishActive
  rw [h.active]
  cases a'.active with
  | none => exact h
  | some b =>
    dsimp only
    by_cases hroom : a'.documents.length < n
    · -- both runs keep it
      have hsame : a.documents = a'.documents := by
        rw [h.documents, List.take_of_length_le (Nat.le_of_lt hroom)]
      rw [hsame, if_pos hroom, if_pos (Nat.lt_trans hroom hlt)]
      refine ⟨(List.take_of_length_le ?_).symm, rfl, h.pending, h.reported.trans ?_⟩
      · rw [List.length_append, List.length_singleton]
        exact hroom
      · rw [List.length_append, List.length_singleton]
        omega
    · rw [if_neg (by omega)]
      have hkept : ∀ d : ParsedReceipt, a.documents = (a'.documents ++ [d]).take n := fun d => by
        rw [List.take_append_of_le_length (Nat.not_lt.mp hroom)]
        exact h.documents
      have hmore : ∀ d : ParsedReceipt, n < (a'.documents ++ [d]).length := fun d => by
        rw [List.length_append, List.length_singleton]
        omega
      cases hr : a.documentLimitReported with
      | true =>
        have hlarge := h.reported.mp hr
        rw [if_pos rfl]
        split
        · exact ⟨hkept _, rfl, h.pending, ⟨fun _ => hmore _, fun _ => rfl⟩⟩
        split
        · exact ⟨h.documents, rfl, h.pending, ⟨fun _ => hlarge, fun _ => rfl⟩⟩
        · exact ⟨h.documents, rfl, h.pending, ⟨fun _ => hlarge, fun _ => rfl⟩⟩
      | false =>
        have hfull : a'.documents.length < m := by
          have hnot : ¬ n < a'.documents.length := by
            rw [← h.reported, hr]
            exact Bool.false_ne_true
          omega
        rw [if_neg Bool.false_ne_true, if_pos hfull]
        exact ⟨hkept _, rfl, h.pending, ⟨fun _ => hmore _, fun _ => rfl⟩⟩

theorem onControl (h : Cut n a a') (hlt : n < m) (frame : RCHFrame) (dataText : Text) :
    Cut n (a.onControl n frame dataText) (a'.onControl m frame dataText) := by
  unfold Assembler.onControl
  rw [h.activeOf]
  cases a'.activeOf .commerciale with
  | none => exact ⟨h.documents, h.active, rfl, h.reported⟩
  | some b =>
    dsimp only
    split
    · exact (h.setActive _).finishActive hlt true
    split
    · exact h.setActive _
    · exact h.setActive _

theorem onStart (h : Cut n a a') (hlt : n < m) (frame : RCHFrame) :
    Cut n (a.onStart n frame) (a'.onStart m frame) := by
  have hc := h.finishActive hlt false
  simp only [Assembler.onStart, hc.pending]
  exact hc.set _ none

theorem onBoundary (h : Cut n a a') (hlt : n < m) (frame : RCHFrame) :
    Cut n (a.onBoundary n frame) (a'.onBoundary m frame) := by
  unfold Assembler.onBoundary
  rw [h.activeOf]
  cases a'.activeOf .gestionale with
  | none => exact (h.finishActive hlt false).set _ none
  | some b =>
    have hc := (h.setActive (some (b.addFrame frame))).finishActive hlt true
    exact ⟨hc.documents, hc.active, rfl, hc.reported⟩

theorem onOther (h : Cut n a a') (frame : RCHFrame) : Cut n (a.onOther frame) (a'.onOther frame) := by
  unfold Assembler.onOther
  rw [h.active]
  cases a'.active with
  | none => exact h
  | some b => exact h.setActive _

theorem commercialFor (h : Cut n a a') (hlt : n < m) (frame : RCHFrame) (detail : String) :
    Cut n (commercialFor n a frame detail).1 (commercialFor m a' frame detail).1 ∧
      (RchProxy.commercialFor n a frame detail).2 = (RchProxy.commercialFor m a' frame detail).2 := by
  unfold RchProxy.commercialFor
  rw [h.activeOf]
  cases a'.activeOf .commerciale with
  | some b => exact ⟨h, rfl⟩
  | none => exact ⟨h.finishActive hlt false, rfl⟩

theorem managementFor (h : Cut n a a') (hlt : n < m) (frame : RCHFrame) :
    Cut n (managementFor n a frame).1 (managementFor m a' frame).1 ∧
      (RchProxy.managementFor n a frame).2 = (RchProxy.managementFor m a' frame).2 := by
  unfold RchProxy.managementFor
  rw [h.active]
  cases a'.active with
  | none => exact ⟨h, rfl⟩
  | some b =>
    dsimp only
    cases b.kind with
    | gestionale => exact ⟨h, rfl⟩
    | commerciale => exact ⟨h.finishActive hlt false, rfl⟩

/-- One command, from the same budget. -/
theorem stepCommand (h : Cut n a a') (hlt : n < m) (frame : RCHFrame) (c : Command) :
    Alike (Cut n) (stepCommand n a frame c) (stepCommand m a' frame c) := by
  cases c with
  | control dataText => exact .pure (h.onControl hlt frame dataText)
  | start => exact .pure (h.onStart hlt frame)
  | boundary => exact .pure (h.onBoundary hlt frame)
  | line c =>
    obtain ⟨hc, hb⟩ := h.managementFor hlt frame
    simp only [RchProxy.stepCommand, hb]
    refine (Alike.refl _).bind fun r r' hr => ?_
    subst hr
    exact .pure (hc.setActive _)
  | item c =>
    obtain ⟨hc, hb⟩ := h.commercialFor hlt frame
      "item command observed without a preceding inferred =K start command"
    simp only [RchProxy.stepCommand, hb]
    refine (Alike.refl _).bind fun r r' hr => ?_
    subst hr
    exact .pure (hc.setActive _)
  | text c =>
    simp only [RchProxy.stepCommand, h.activeOf]
    cases a'.activeOf .commerciale with
    | none => exact .pure (h.onOther frame)
    | some b =>
      refine (Alike.refl _).bind fun r r' hr => ?_
      subst hr
      exact .pure (h.setActive _)
  | total c =>
    obtain ⟨hc, hb⟩ := h.commercialFor hlt frame
      "total command observed without a preceding inferred =K start command"
    simp only [RchProxy.stepCommand, hb]
    refine (Alike.refl _).bind fun r r' hr => ?_
    subst hr
    exact .pure (hc.setActive _)
  | display => exact .pure h
  | unknown => exact .pure (h.onOther frame)

theorem parseFrames (h : Cut n a a') (hlt : n < m) (frames : List RCHFrame) :
    Alike (Cut n) (parseFrames n a frames) (parseFrames m a' frames) := by
  refine .foldlM (fun a a' frame h => ?_) frames h
  rw [parseStep_eq, parseStep_eq]
  split
  · exact h.stepCommand hlt frame _
  · exact .pure h

end Assembler.Cut

/-- The states in which the two runs return, from the same budget. -/
theorem finalAssembler_cut {n m : Nat} (hlt : n < m) (frames : List RCHFrame)
    (budget : SemanticBudget) :
    Assembler.Cut n (finalAssembler n frames budget) (finalAssembler m frames budget) := by
  have hstart : Assembler.Cut n {} {} := ⟨List.take_nil.symm, rfl, rfl, by simp⟩
  exact ((hstart.parseFrames hlt frames budget).1).finishActive hlt false

/-! ## The documents of a result -/

theorem parseDocuments_cut {n m : Nat} (hlt : n < m) (frames : List RCHFrame)
    (budget : SemanticBudget) :
    ((parseDocuments n frames).run budget).1.1 = ((parseDocuments m frames).run budget).1.1.take n ∧
      ((parseDocuments n frames).run budget).2 = ((parseDocuments m frames).run budget).2 := by
  have hstart : Assembler.Cut n {} {} := ⟨List.take_nil.symm, rfl, rfl, by simp⟩
  obtain ⟨hcut, hbudget⟩ := hstart.parseFrames hlt frames budget
  exact ⟨(hcut.finishActive hlt false).documents, hbudget⟩

/-- Counters and subtypes are given to the documents in order, so the first ones are alike. -/
theorem reconstruct_cut {lim lim' : ParserLimits} (hlt : lim.maxDocuments < lim'.maxDocuments)
    (request response : FramingResult) (budget : SemanticBudget) :
    ((reconstruct lim request response).run budget).1.1 =
      ((reconstruct lim' request response).run budget).1.1.take lim.maxDocuments := by
  obtain ⟨hdocuments, hbudget⟩ := parseDocuments_cut hlt request.frames budget
  change assignDocumentSubtypes [] ((attachResponseCounters _ request response
    ((parseDocuments lim.maxDocuments request.frames).run budget).1.1).run
    ((parseDocuments lim.maxDocuments request.frames).run budget).2).1 = _
  rw [hdocuments, hbudget, ← attachResponseCounters_take, ← assignDocumentSubtypes_take]
  rfl

/-- The limits with room for `extra + 1` more documents. -/
def ParserLimits.moreDocuments (lim : ParserLimits) (extra : Nat) : ParserLimits :=
  { lim with
    maxDocuments := lim.maxDocuments + (extra + 1)
    documents_pos := Nat.le_trans lim.documents_pos (Nat.le_add_right _ _) }

/-- How often a limit of documents is reported. -/
theorem finalAssembler_reports {n m : Nat} (hlt : n < m) (frames : List RCHFrame)
    (budget : SemanticBudget) :
    (finalAssembler n frames budget).issues.countP (·.code = .documentLimitExceeded) =
      if n < (finalAssembler m frames budget).documents.length then 1 else 0 := by
  have htidy := finalAssembler_tidy n frames budget
  have hcut := finalAssembler_cut hlt frames budget
  have hlimits : (finalAssembler n frames budget).issues.countP (·.code = .documentLimitExceeded) =
      (finalAssembler n frames budget).issues.countP ReceiptIssue.isLimit := by
    refine List.countP_congr fun i hi => ?_
    rw [decide_eq_true_iff]
    refine ⟨fun hcode => ?_, htidy.codes i hi⟩
    rw [ReceiptIssue.isLimit, hcode]
    decide
  have hle := htidy.limits
  rw [← hlimits] at hle
  cases hr : (finalAssembler n frames budget).documentLimitReported with
  | false =>
    rw [if_neg fun hmore => by rw [hcut.reported.mpr hmore] at hr; cases hr]
    rw [hr] at hle
    exact Nat.le_zero.mp hle
  | true =>
    rw [if_pos (hcut.reported.mp hr)]
    rw [hr] at hle
    obtain ⟨i, hi, hcode⟩ := htidy.reported hr
    exact Nat.le_antisymm hle (List.countP_pos_iff.mpr ⟨i, hi, decide_eq_true hcode⟩)

/-- **The document limit only truncates**: under any larger limit the documents go on as they began,
and the limit is reported once, where they go on. -/
theorem document_limit_truncates (lim : ParserLimits) (request response : Bytes) (extra : Nat) :
    ∃ r r', parseProtocolCopies lim request response = .ok r ∧
      parseProtocolCopies (lim.moreDocuments extra) request response = .ok r' ∧
      r.documents = r'.documents.take lim.maxDocuments ∧
      ((parseDocuments lim.maxDocuments r.requestFraming.frames).run
        (.new lim.maxSemanticFields)).1.2.countP (·.code = .documentLimitExceeded) =
          if lim.maxDocuments < r'.documents.length then 1 else 0 := by
  obtain ⟨req, resp, hreq, hresp, hok⟩ := parseProtocolCopies_ok lim request response
  have hok' : parseProtocolCopies (lim.moreDocuments extra) request response = .ok
      (parseFramedCopies (lim.moreDocuments extra)
        (analysisIssue lim.maxAnalyzedBytes .request request ++
          analysisIssue lim.maxAnalyzedBytes .response response) req resp) := by
    have hreq' : frameStream (lim.moreDocuments extra).framer (request.take
      (lim.moreDocuments extra).maxAnalyzedBytes) = .ok req := hreq
    have hresp' : frameStream (lim.moreDocuments extra).framer (response.take
      (lim.moreDocuments extra).maxAnalyzedBytes) = .ok resp := hresp
    rw [parseProtocolCopies, hreq', hresp']
    rfl
  have hlt : lim.maxDocuments < (lim.moreDocuments extra).maxDocuments :=
    Nat.lt_add_of_pos_right (Nat.succ_pos extra)
  refine ⟨_, _, hok, hok', reconstruct_cut hlt req resp _, ?_⟩
  rw [parseDocuments_eq]
  change (finalAssembler lim.maxDocuments req.frames (.new lim.maxSemanticFields)).issues.countP _ = _
  have hlength := congrArg List.length (reconstruct_records (lim.moreDocuments extra) req resp
    (.new lim.maxSemanticFields))
  rw [List.length_map, List.length_map, parseDocuments_eq] at hlength
  rw [finalAssembler_reports hlt, parseFramedCopies_documents]
  exact if_congr (by rw [← hlength]; rfl) rfl rfl

end RchProxy
