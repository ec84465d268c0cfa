import RchProxy.Receipt.Records

/-!
# What every document keeps

Whatever the budget refuses, a document under assembly has no footer and no suffix of a number, which
only a response counter brings, and none of its issues is a limit; the assembler reports its own
limit once.
-/

namespace RchProxy

open Py Lib Lib.Spend

/-! ## Filling leaves the footer and the suffix -/

/-- What only a response counter writes. -/
def DocumentModel.counted (model : DocumentModel) : List DocumentLine × Option Text :=
  (model.footer, model.responseCounterSuffix)

theorem managementMarks_counted (model : DocumentModel) (frame : RCHFrame) (stripped : Text) :
    (managementMarks model frame stripped).counted = model.counted := by
  unfold managementMarks
  cases Pattern.reference.search stripped <;> cases Pattern.order.matchStart stripped <;>
    simp only <;> split <;> rfl

theorem managementFields_counted (model : DocumentModel) (seen : Bool) (frame : RCHFrame)
    (stripped : Text) (amounts : List Amount) :
    Always (managementFields model seen frame stripped amounts) fun r =>
      r.1.counted = model.counted := by
  unfold managementFields
  simp only
  split
  · exact .pure rfl
  split
  · exact .reserve_ite (.pure rfl) (.pure rfl)
  split
  · exact .reserve_ite (.pure rfl) (.pure rfl)
  split
  · exact .reserve_ite (.pure rfl) (.pure rfl)
  · split
    · exact .pure rfl
    · split
      · exact .pure rfl
      · exact .reserve_ite (.pure rfl) (.pure rfl)

theorem applyManagementLine_counted (model : DocumentModel) (seen : Bool) (frame : RCHFrame)
    (c : TextCommand) :
    Always (applyManagementLine model seen frame c) fun r => r.1.counted = model.counted := by
  refine (Always.any _).bind fun granted _ => (Always.any _).bind fun amounts _ => ?_
  refine (managementFields_counted _ _ _ _ _).mono fun r h => h.trans ?_
  rw [managementMarks_counted]
  cases granted <;> rfl

theorem applyCommercialItem_counted (model : DocumentModel) (frame : RCHFrame) (c : ItemCommand) :
    Always (applyCommercialItem model frame c) fun m => m.counted = model.counted :=
  .reserve_ite (.pure rfl) (.pure rfl)

theorem applyCommercialTotal_counted (model : DocumentModel) (frame : RCHFrame) (c : TotalCommand) :
    Always (applyCommercialTotal model frame c) fun m => m.counted = model.counted := by
  refine (Always.any _).bind fun granted _ => .pure ?_
  cases granted <;> rfl

theorem applyCommercialText_counted (model : DocumentModel) (frame : RCHFrame) (c : TextCommand) :
    Always (applyCommercialText model frame c) fun m => m.counted = model.counted := by
  refine (Always.any _).bind fun granted _ => ?_
  cases Pattern.order.matchStart c.text <;> exact .pure (by cases granted <;> rfl)

/-! ## Builders -/

/-- A limit among the issues. -/
def ReceiptIssue.isLimit (i : ReceiptIssue) : Bool := i.code.isLimit

/-- A document under assembly, without a footer, a suffix and limit issues. -/
structure ReceiptBuilder.Tidy (b : ReceiptBuilder) : Prop where
  footer : b.model.footer = []
  suffix : b.model.responseCounterSuffix = none
  issues : ∀ i ∈ b.issues, i.isLimit = false

namespace ReceiptBuilder

variable {b : ReceiptBuilder}

theorem Tidy.addFrame (h : b.Tidy) (frame : RCHFrame) : (b.addFrame frame).Tidy := by
  unfold ReceiptBuilder.addFrame
  split
  · exact h
  · exact ⟨h.footer, h.suffix, h.issues⟩

theorem Tidy.transition (h : b.Tidy) (target : AssemblyState) (frame : RCHFrame) :
    (b.transition target frame).Tidy := by
  unfold ReceiptBuilder.transition
  split
  · exact h
  · exact ⟨h.footer, h.suffix, h.issues⟩

theorem new_tidy (kind : DocKind) (frame : RCHFrame) : (new kind frame).Tidy :=
  Tidy.transition ⟨rfl, rfl, fun _ h => absurd h List.not_mem_nil⟩ _ frame

theorem Tidy.addIssue (h : b.Tidy) {code : IssueCode} (hcode : code.isLimit = false)
    (detail : String) (frame : RCHFrame) : (b.addIssue code detail frame).Tidy where
  footer := h.footer
  suffix := h.suffix
  issues i hi := by
    rcases List.mem_append.mp hi with hi | hi
    · exact h.issues i hi
    · rw [List.mem_singleton.mp hi]
      exact hcode

theorem Tidy.model (h : b.Tidy) {model : DocumentModel} (hm : model.counted = b.model.counted)
    (seen : Bool) : Tidy { b with model := model, seenPrimaryTotal := seen } :=
  ⟨(congrArg Prod.fst hm).trans h.footer, (congrArg Prod.snd hm).trans h.suffix, h.issues⟩

theorem Tidy.finish (h : b.Tidy) (n : Nat) (complete : Bool) :
    (b.finish n complete).model.footer = [] ∧
      (b.finish n complete).model.responseCounterSuffix = none ∧
      ∀ i ∈ (b.finish n complete).issues, i.isLimit = false := by
  have hb : ∀ c : ReceiptBuilder, c.Tidy → ∀ target frame,
      (c.transition target frame).model.footer = [] ∧
        (c.transition target frame).model.responseCounterSuffix = none ∧
        ∀ i ∈ (c.transition target frame).issues, i.isLimit = false := fun c hc target frame =>
    have ht := hc.transition target frame
    ⟨ht.footer, ht.suffix, ht.issues⟩
  refine hb _ ?_ _ _
  split
  · exact h
  · refine ⟨h.footer, h.suffix, fun i hi => ?_⟩
    rcases List.mem_append.mp hi with hi | hi
    · exact h.issues i hi
    · rw [List.mem_singleton.mp hi]
      exact (by decide : IssueCode.incompleteDocument.isLimit = false)

end ReceiptBuilder

/-! ## The assembler -/

/-- The assembler has tidy documents, and at most the document limit among its issues. -/
structure Assembler.Tidy (a : Assembler) : Prop where
  active : ∀ b, a.active = some b → b.Tidy
  documents : ∀ d ∈ a.documents, d.model.footer = []
  suffixes : ∀ d ∈ a.documents, d.model.responseCounterSuffix = none
  codes : ∀ i ∈ a.issues, i.isLimit = true → i.code = .documentLimitExceeded
  limits : a.issues.countP ReceiptIssue.isLimit ≤ a.documentLimitReported.toNat
  reported : a.documentLimitReported = true → ∃ i ∈ a.issues, i.code = .documentLimitExceeded

namespace Assembler

variable {a : Assembler}

theorem Tidy.set (h : a.Tidy) {b : ReceiptBuilder} (hb : b.Tidy) (pending : Option RCHFrame) :
    Tidy { a with active := some b, pendingStart := pending } :=
  ⟨fun _ hc => by cases hc; exact hb, h.documents, h.suffixes, h.codes, h.limits, h.reported⟩

theorem Tidy.finishActive (h : a.Tidy) (maxDocuments : Nat) (complete : Bool) :
    (a.finishActive maxDocuments complete).Tidy := by
  unfold Assembler.finishActive
  cases hb : a.active with
  | none => exact h
  | some b =>
    obtain ⟨hfooter, hsuffix, hissues⟩ := (h.active b hb).finish (a.documents.length + 1) complete
    dsimp only
    split
    · refine ⟨fun _ hc => absurd hc (Option.some_ne_none _).symm, fun d hd => ?_, fun d hd => ?_,
        fun i hi hl => ?_, ?_, fun hr => ?_⟩
      · rcases List.mem_append.mp hd with hd | hd
        · exact h.documents d hd
        · rw [List.mem_singleton.mp hd]
          exact hfooter
      · rcases List.mem_append.mp hd with hd | hd
        · exact h.suffixes d hd
        · rw [List.mem_singleton.mp hd]
          exact hsuffix
      · rcases List.mem_append.mp hi with hi | hi
        · exact h.codes i hi hl
        · rw [hissues i hi] at hl
          cases hl
      · have hnone : (b.finish (a.documents.length + 1) complete).issues.countP
            ReceiptIssue.isLimit = 0 :=
          List.countP_eq_zero.mpr fun i hi => by simp [hissues i hi]
        rw [List.countP_append, hnone]
        exact h.limits
      · obtain ⟨i, hi, hcode⟩ := h.reported hr
        exact ⟨i, List.mem_append_left _ hi, hcode⟩
    split
    · exact ⟨fun _ hc => absurd hc (Option.some_ne_none _).symm, h.documents, h.suffixes, h.codes,
        h.limits, h.reported⟩
    · next hr =>
      have hlimits := h.limits
      rw [Bool.eq_false_iff.mpr hr] at hlimits
      refine ⟨fun _ hc => absurd hc (Option.some_ne_none _).symm, h.documents, h.suffixes,
        fun i hi hl => ?_, ?_, fun _ => ⟨_, List.mem_append_right _ (.head _), rfl⟩⟩
      · rcases List.mem_append.mp hi with hi | hi
        · exact h.codes i hi hl
        · rw [List.mem_singleton.mp hi]
      rw [List.countP_append]
      exact Nat.add_le_add hlimits List.countP_le_length

theorem Tidy.onControl (h : a.Tidy) (maxDocuments : Nat) (frame : RCHFrame) (dataText : Text) :
    (a.onControl maxDocuments frame dataText).Tidy := by
  unfold Assembler.onControl
  cases hb : a.activeOf .commerciale with
  | none => exact ⟨h.active, h.documents, h.suffixes, h.codes, h.limits, h.reported⟩
  | some b =>
    have hb' := (h.active b (a.activeOf_some hb).1).addFrame frame
    dsimp only
    split
    · exact (h.set hb' a.pendingStart).finishActive maxDocuments true
    split
    · exact h.set (hb'.transition _ frame) _
    · exact h.set hb' _

theorem Tidy.onStart (h : a.Tidy) (maxDocuments : Nat) (frame : RCHFrame) :
    (a.onStart maxDocuments frame).Tidy :=
  (h.finishActive maxDocuments false).set ((ReceiptBuilder.new_tidy _ _).addFrame frame) none

theorem Tidy.onBoundary (h : a.Tidy) (maxDocuments : Nat) (frame : RCHFrame) :
    (a.onBoundary maxDocuments frame).Tidy := by
  unfold Assembler.onBoundary
  cases hb : a.activeOf .gestionale with
  | none => exact (h.finishActive maxDocuments false).set (ReceiptBuilder.new_tidy _ _) none
  | some b =>
    have hb' := (h.active b (a.activeOf_some hb).1).addFrame frame
    have hf := (h.set hb' a.pendingStart).finishActive maxDocuments true
    exact ⟨hf.active, hf.documents, hf.suffixes, hf.codes, hf.limits, hf.reported⟩

theorem Tidy.onOther (h : a.Tidy) (frame : RCHFrame) : (a.onOther frame).Tidy := by
  unfold Assembler.onOther
  cases hb : a.active with
  | none => exact h
  | some b => exact h.set ((h.active b hb).addFrame frame) _

theorem Tidy.commercialFor (h : a.Tidy) (maxDocuments : Nat) (frame : RCHFrame) (detail : String) :
    (commercialFor maxDocuments a frame detail).1.Tidy ∧
      (commercialFor maxDocuments a frame detail).2.Tidy := by
  unfold RchProxy.commercialFor
  cases hb : a.activeOf .commerciale with
  | some b => exact ⟨h, h.active b (a.activeOf_some hb).1⟩
  | none =>
    exact ⟨h.finishActive maxDocuments false,
      (ReceiptBuilder.new_tidy _ _).addIssue (by decide) detail frame⟩

theorem Tidy.managementFor (h : a.Tidy) (maxDocuments : Nat) (frame : RCHFrame) :
    (managementFor maxDocuments a frame).1.Tidy ∧ (managementFor maxDocuments a frame).2.Tidy := by
  unfold RchProxy.managementFor
  cases hb : a.active with
  | none => exact ⟨h, (ReceiptBuilder.new_tidy _ _).addIssue (by decide) _ frame⟩
  | some b =>
    dsimp only
    split
    · exact ⟨h, h.active b hb⟩
    · exact ⟨h.finishActive maxDocuments false, ReceiptBuilder.new_tidy .gestionale frame⟩

end Assembler

section
variable {a : Assembler} (maxDocuments : Nat)

theorem stepCommand_tidy (h : a.Tidy) (frame : RCHFrame) (c : Command) :
    Always (stepCommand maxDocuments a frame c) Assembler.Tidy := by
  cases c with
  | control dataText => exact .pure (h.onControl maxDocuments frame dataText)
  | start => exact .pure (h.onStart maxDocuments frame)
  | boundary => exact .pure (h.onBoundary maxDocuments frame)
  | line c =>
    obtain ⟨ha, hb⟩ := h.managementFor maxDocuments frame
    refine (applyManagementLine_counted _ _ frame c).bind fun r hr => .pure ?_
    exact ha.set ((hb.addFrame frame).model hr r.2) _
  | item c =>
    obtain ⟨ha, hb⟩ := h.commercialFor maxDocuments frame
      "item command observed without a preceding inferred =K start command"
    refine (applyCommercialItem_counted _ frame c).bind fun r hr => .pure ?_
    exact ha.set ((hb.addFrame frame).model hr _) _
  | text c =>
    simp only [stepCommand]
    cases hb : a.activeOf .commerciale with
    | none => exact .pure (h.onOther frame)
    | some b =>
      have hb' := (h.active b (a.activeOf_some hb).1).addFrame frame
      refine (applyCommercialText_counted _ frame c).bind fun r hr => .pure ?_
      exact h.set (hb'.model hr _) _
  | total c =>
    obtain ⟨ha, hb⟩ := h.commercialFor maxDocuments frame
      "total command observed without a preceding inferred =K start command"
    refine (applyCommercialTotal_counted _ frame c).bind fun r hr => .pure ?_
    exact ha.set (((hb.addFrame frame).model hr _).transition _ frame) _
  | display => exact .pure h
  | unknown => exact .pure (h.onOther frame)

theorem parseFrames_tidy (h : a.Tidy) (frames : List RCHFrame) :
    Always (parseFrames maxDocuments a frames) Assembler.Tidy := by
  refine .foldlM (fun a frame ha => ?_) frames h
  rw [parseStep_eq]
  split
  · exact stepCommand_tidy maxDocuments ha frame _
  · exact .pure ha

/-- The state in which `_parse_documents` returns. -/
def finalAssembler (frames : List RCHFrame) (budget : SemanticBudget) : Assembler :=
  ((parseFrames maxDocuments {} frames).run budget).1.finishActive maxDocuments false

theorem finalAssembler_tidy (frames : List RCHFrame) (budget : SemanticBudget) :
    (finalAssembler maxDocuments frames budget).Tidy := by
  have h : Assembler.Tidy {} :=
    ⟨fun _ hc => absurd hc (Option.some_ne_none _).symm, fun _ hd => absurd hd List.not_mem_nil,
      fun _ hd => absurd hd List.not_mem_nil, fun _ hi => absurd hi List.not_mem_nil, Nat.zero_le _,
      fun hr => Bool.noConfusion hr⟩
  exact (parseFrames_tidy maxDocuments h frames budget).finishActive maxDocuments false

theorem parseDocuments_eq (frames : List RCHFrame) (budget : SemanticBudget) :
    ((parseDocuments maxDocuments frames).run budget).1 =
      ((finalAssembler maxDocuments frames budget).documents,
        (finalAssembler maxDocuments frames budget).issues) := rfl

end

end RchProxy
