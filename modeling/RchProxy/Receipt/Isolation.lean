import Mathlib.Data.List.Forall2
import RchProxy.Framing.Refine
import RchProxy.Receipt.Fill

/-!
# Documents do not mix

Where the assembler has no active document, what it reads next does not depend on what it has read,
apart from the remembered start frame (`Agrees`): the documents of two lists of frames in a row are
those of the first and those of the second.
-/

namespace RchProxy

open Py Lib Lib.Spend

/-- The documents say the same, apart from the frames they were read from. -/
structure ParsedReceipt.Agrees (d d' : ParsedReceipt) : Prop where
  documentType : d.documentType = d'.documentType
  complete : d.complete = d'.complete
  lines : d.model.lines = d'.model.lines
  items : d.model.items = d'.model.items
  quantities : d.model.quantities = d'.model.quantities
  descriptions : d.model.descriptions = d'.model.descriptions
  amounts : d.model.amounts = d'.model.amounts
  taxes : d.model.taxes = d'.model.taxes
  payments : d.model.payments = d'.model.payments
  totals : d.model.totals = d'.model.totals
  date : d.model.date = d'.model.date
  time : d.model.time = d'.model.time
  documentNumber : d.model.documentNumber = d'.model.documentNumber
  orderText : d.model.metadata.orderText = d'.model.metadata.orderText
  renderedOrderText : d.model.metadata.renderedOrderText = d'.model.metadata.renderedOrderText
  orderValue : d.model.metadata.orderValue = d'.model.metadata.orderValue
  orderSource : d.model.metadata.orderSource = d'.model.metadata.orderSource

namespace ReceiptBuilder

variable {b b' : ReceiptBuilder}

/-- A builder without its frames and without what was noted about them. -/
def contents (b : ReceiptBuilder) : DocKind × DocumentModel × Bool × AssemblyState :=
  (b.kind, b.model, b.seenPrimaryTotal, b.state)

@[simp] theorem addFrame_contents (frame : RCHFrame) : (b.addFrame frame).contents = b.contents := by
  unfold addFrame; split <;> rfl

@[simp] theorem addIssue_contents (code : IssueCode) (detail : String) (frame : RCHFrame) :
    (b.addIssue code detail frame).contents = b.contents := rfl

@[simp] theorem transition_contents (target : AssemblyState) (frame : RCHFrame) :
    (b.transition target frame).contents = (b.kind, b.model, b.seenPrimaryTotal, target) := by
  unfold transition
  split
  · next h => rw [← h]; rfl
  · rfl

theorem new_contents (kind : DocKind) (frame frame' : RCHFrame) :
    (new kind frame).contents = (new kind frame').contents := by
  simp [new]

theorem contents_eq_iff : b.contents = b'.contents ↔ b.kind = b'.kind ∧ b.model = b'.model ∧
    b.seenPrimaryTotal = b'.seenPrimaryTotal ∧ b.state = b'.state := by
  simp [contents]

theorem addFrame_congr (h : b.contents = b'.contents) (frame : RCHFrame) :
    (b.addFrame frame).contents = (b'.addFrame frame).contents := by
  rw [addFrame_contents, addFrame_contents, h]

/-- What a finished document takes from its builder. -/
theorem finish_eq (b : ReceiptBuilder) (n : Nat) (complete : Bool) :
    ∃ transitions ids,
      (b.finish n complete).documentType = b.kind ∧ (b.finish n complete).complete = complete ∧
      (b.finish n complete).model =
        { b.model with
          metadata :=
            { b.model.metadata with
              complete := some complete
              documentStateTransitions := transitions
              finalDocumentState := some (if complete then .complete else .incomplete)
              sourceFrameIds := ids } } := by
  have h : ∀ (c : ReceiptBuilder) (target : AssemblyState), c.kind = b.kind → c.model = b.model →
      (c.transition target c.lastFrame).kind = b.kind ∧
      (c.transition target c.lastFrame).model = b.model ∧
      (c.transition target c.lastFrame).state = target := by
    intro c target hkind hmodel
    have := c.transition_contents target c.lastFrame
    simp only [contents, Prod.mk.injEq] at this
    exact ⟨this.1.trans hkind, this.2.1.trans hmodel, this.2.2.2⟩
  cases complete with
  | true =>
    obtain ⟨h1, h2, h3⟩ := h b .complete rfl rfl
    refine ⟨(b.finish n true).model.metadata.documentStateTransitions,
      (b.finish n true).model.metadata.sourceFrameIds, h1, rfl, ?_⟩
    simp only [finish, if_true, h2, h3]
  | false =>
    obtain ⟨h1, h2, h3⟩ := h
      { b with
        issues := b.issues ++
          [{ code := .incompleteDocument
             detail := "capture ended before the inferred closing command"
             direction := some .request
             streamOffset := some b.lastFrame.endOffset
             frameId := some b.lastFrame.frameId
             evidence := .inferred }] } .incomplete rfl rfl
    refine ⟨(b.finish n false).model.metadata.documentStateTransitions,
      (b.finish n false).model.metadata.sourceFrameIds, h1, rfl, ?_⟩
    simp only [finish, Bool.false_eq_true, if_false, h2, h3]

/-- Builders that say the same give documents that say the same. -/
theorem finish_agrees (h : b.contents = b'.contents) (n n' : Nat) (complete : Bool) :
    (b.finish n complete).Agrees (b'.finish n' complete) := by
  obtain ⟨hkind, hmodel, -, -⟩ := contents_eq_iff.mp h
  obtain ⟨ts, ids, h1, h2, h3⟩ := b.finish_eq n complete
  obtain ⟨ts', ids', h1', h2', h3'⟩ := b'.finish_eq n' complete
  constructor <;> simp only [h1, h2, h3, h1', h2', h3', hkind, hmodel]

end ReceiptBuilder

namespace Assembler

section
variable {maxDocuments : Nat} {a : Assembler} {b : ReceiptBuilder} {complete : Bool}

theorem finishActive_none (h : a.active = none) : a.finishActive maxDocuments complete = a := by
  simp [finishActive, h]

theorem finishActive_some (h : a.active = some b) (hlt : a.documents.length < maxDocuments) :
    a.finishActive maxDocuments complete =
      { a with
        documents := a.documents ++ [b.finish (a.documents.length + 1) complete]
        issues := a.issues ++ (b.finish (a.documents.length + 1) complete).issues
        active := none } := by
  simp [finishActive, h, hlt]

theorem finishActive_active : (a.finishActive maxDocuments complete).active = none := by
  unfold finishActive
  split
  · assumption
  · split
    · rfl
    · split <;> rfl

end

/-- The assemblers go on alike: the first one has some documents more at the front, and may have
remembered another start. -/
structure Agrees (front : List ParsedReceipt) (a a' : Assembler) : Prop where
  active : a.active.map ReceiptBuilder.contents = a'.active.map ReceiptBuilder.contents
  reported : a.documentLimitReported = true → ∃ i ∈ a.issues, i.code = .documentLimitExceeded
  documents : a.documentLimitReported = false →
    ∃ ds, a.documents = front ++ ds ∧ List.Forall₂ ParsedReceipt.Agrees ds a'.documents

namespace Agrees

variable {front : List ParsedReceipt} {a a' : Assembler} {b b' : ReceiptBuilder}
  {maxDocuments : Nat} {frame : RCHFrame}

/-- The two active documents, if any, say the same. -/
theorem active_cases (h : Agrees front a a') :
    (a.active = none ∧ a'.active = none) ∨
      ∃ b b', a.active = some b ∧ a'.active = some b' ∧ b.contents = b'.contents := by
  have hact := h.active
  cases ha : a.active <;> cases ha' : a'.active <;> rw [ha, ha'] at hact
  · exact .inl ⟨rfl, rfl⟩
  · cases hact
  · cases hact
  · exact .inr ⟨_, _, rfl, rfl, Option.some.inj hact⟩

theorem activeOf_cases (h : Agrees front a a') (kind : DocKind) :
    (a.activeOf kind = none ∧ a'.activeOf kind = none) ∨
      ∃ b b', a.activeOf kind = some b ∧ a'.activeOf kind = some b' ∧ b.contents = b'.contents := by
  unfold activeOf
  rcases h.active_cases with ⟨h1, h2⟩ | ⟨b, b', h1, h2, hb⟩
  · simp [h1, h2]
  · have hkind := (ReceiptBuilder.contents_eq_iff.mp hb).1
    by_cases hk : b.kind = kind
    · simp [h1, h2, hb, hk, ← hkind]
    · simp [h1, h2, hk, ← hkind]

/-- The active documents are replaced by others that say the same. -/
theorem setActive (h : Agrees front a a') (hb : b.contents = b'.contents)
    (pending pending' : Option RCHFrame) :
    Agrees front { a with active := some b, pendingStart := pending }
      { a' with active := some b', pendingStart := pending' } :=
  ⟨congrArg some hb, h.reported, h.documents⟩

theorem setPending (h : Agrees front a a') (pending pending' : Option RCHFrame) :
    Agrees front { a with pendingStart := pending } { a' with pendingStart := pending' } :=
  ⟨h.active, h.reported, h.documents⟩

theorem finishActive (h : Agrees front a a') (maxDocuments : Nat) (complete : Bool) :
    Agrees front (a.finishActive maxDocuments complete) (a'.finishActive maxDocuments complete) := by
  refine ⟨by rw [finishActive_active, finishActive_active], fun hr => ?_, fun hr => ?_⟩
  · rcases h.active_cases with ⟨h1, -⟩ | ⟨b, -, h1, -, -⟩
    · rw [finishActive_none h1] at hr ⊢
      exact h.reported hr
    · by_cases hlt : a.documents.length < maxDocuments
      · rw [finishActive_some h1 hlt] at hr ⊢
        obtain ⟨i, hi, hcode⟩ := h.reported hr
        exact ⟨i, List.mem_append_left _ hi, hcode⟩
      · simp only [Assembler.finishActive, h1, if_neg hlt]
        split
        · next hrep => exact h.reported hrep
        · exact ⟨_, List.mem_append_right _ (List.mem_singleton_self _), rfl⟩
  · rcases h.active_cases with ⟨h1, h2⟩ | ⟨b, b', h1, h2, hb⟩
    · rw [finishActive_none h1] at hr ⊢
      rw [finishActive_none h2]
      exact h.documents hr
    · by_cases hlt : a.documents.length < maxDocuments
      · rw [finishActive_some h1 hlt] at hr ⊢
        obtain ⟨ds, hds, hag⟩ := h.documents hr
        have hlen := hag.length_eq
        rw [finishActive_some h2 (by rw [hds, List.length_append] at hlt; omega)]
        refine ⟨ds ++ [b.finish (a.documents.length + 1) complete], by simp [hds], ?_⟩
        exact List.rel_append hag (.cons (ReceiptBuilder.finish_agrees hb _ _ _) .nil)
      · -- the limit is reported, so nothing is said about the documents any more
        simp only [Assembler.finishActive, h1, if_neg hlt] at hr
        split at hr
        · next hrep => exact absurd hr (by simp [hrep])
        · cases hr

theorem onControl (h : Agrees front a a') (dataText : Text) :
    Agrees front (a.onControl maxDocuments frame dataText)
      (a'.onControl maxDocuments frame dataText) := by
  unfold Assembler.onControl
  rcases h.activeOf_cases .commerciale with ⟨h1, h2⟩ | ⟨b, b', h1, h2, hb⟩
  · simp only [h1, h2]
    exact h.setPending _ _
  · have hadd := ReceiptBuilder.addFrame_congr hb frame
    obtain ⟨hkind, hmodel, hseen, hstate⟩ := ReceiptBuilder.contents_eq_iff.mp hadd
    simp only [h1, h2, hstate]
    split
    · exact (h.setActive hadd _ _).finishActive _ true
    · split
      · exact h.setActive (by simp [hkind, hmodel, hseen]) _ _
      · exact h.setActive hadd _ _

theorem onStart (h : Agrees front a a') :
    Agrees front (a.onStart maxDocuments frame) (a'.onStart maxDocuments frame) := by
  refine (h.finishActive _ false).setActive ?_ _ _
  rw [ReceiptBuilder.addFrame_contents, ReceiptBuilder.addFrame_contents]
  exact ReceiptBuilder.new_contents _ _ _

theorem onBoundary (h : Agrees front a a') :
    Agrees front (a.onBoundary maxDocuments frame) (a'.onBoundary maxDocuments frame) := by
  unfold Assembler.onBoundary
  rcases h.activeOf_cases .gestionale with ⟨h1, h2⟩ | ⟨b, b', h1, h2, hb⟩
  · simp only [h1, h2]
    exact (h.finishActive _ false).setActive rfl _ _
  · simp only [h1, h2]
    exact ((h.setActive (ReceiptBuilder.addFrame_congr hb frame) _ _).finishActive _ true).setPending _ _

theorem onOther (h : Agrees front a a') :
    Agrees front (a.onOther frame) (a'.onOther frame) := by
  unfold Assembler.onOther
  rcases h.active_cases with ⟨h1, h2⟩ | ⟨b, b', h1, h2, hb⟩
  · simp only [h1, h2]
    exact h
  · simp only [h1, h2]
    exact h.setActive (ReceiptBuilder.addFrame_congr hb frame) _ _

theorem commercialFor (h : Agrees front a a') (maxDocuments : Nat) (frame : RCHFrame)
    (detail : String) :
    Agrees front (commercialFor maxDocuments a frame detail).1
        (commercialFor maxDocuments a' frame detail).1 ∧
      (commercialFor maxDocuments a frame detail).2.contents =
        (commercialFor maxDocuments a' frame detail).2.contents := by
  unfold RchProxy.commercialFor
  rcases h.activeOf_cases .commerciale with ⟨h1, h2⟩ | ⟨b, b', h1, h2, hb⟩
  · simp only [h1, h2]
    exact ⟨h.finishActive _ false, trivial⟩
  · simp only [h1, h2]
    exact ⟨h, hb⟩

theorem managementFor (h : Agrees front a a') (maxDocuments : Nat) (frame : RCHFrame) :
    Agrees front (managementFor maxDocuments a frame).1 (managementFor maxDocuments a' frame).1 ∧
      (managementFor maxDocuments a frame).2.contents =
        (managementFor maxDocuments a' frame).2.contents := by
  unfold RchProxy.managementFor
  rcases h.active_cases with ⟨h1, h2⟩ | ⟨b, b', h1, h2, hb⟩
  · simp only [h1, h2]
    exact ⟨h, trivial⟩
  · simp only [h1, h2, ← (ReceiptBuilder.contents_eq_iff.mp hb).1]
    cases b.kind with
    | gestionale => exact ⟨h, hb⟩
    | commerciale => exact ⟨h.finishActive _ false, rfl⟩

end Agrees

end Assembler

open Assembler (Agrees)

section
variable {front : List ParsedReceipt} {a a' : Assembler} (maxDocuments : Nat)

/-- A document filled on both sides by the same command. -/
theorem Synced.fill {α : Type} {P : α → Prop} {f : Semantic α} {place place' : α → Assembler}
    (hf : Yields f P) (h : ∀ x, Agrees front (place x) (place' x)) :
    Synced (Agrees front) (do return place (← f)) (do return place' (← f)) := by
  refine (Synced.of_yields hf).bind (fun x y hxy => ?_) (fun x => .pure _) (fun x => .pure _)
  rw [← hxy.1]
  exact .pure (h x)

theorem stepCommand_synced (h : Agrees front a a') (frame : RCHFrame) (c : Command) :
    Synced (Agrees front) (stepCommand maxDocuments a frame c)
      (stepCommand maxDocuments a' frame c) := by
  cases c with
  | control dataText => exact .pure (h.onControl dataText)
  | start => exact .pure h.onStart
  | boundary => exact .pure h.onBoundary
  | line c =>
    obtain ⟨hr, hb⟩ := h.managementFor maxDocuments frame
    obtain ⟨hkind, hmodel, hseen, hstate⟩ :=
      ReceiptBuilder.contents_eq_iff.mp (ReceiptBuilder.addFrame_congr hb frame)
    simp only [stepCommand, hmodel, hseen]
    refine Synced.fill (applyManagementLine_yields _ _ _ _) fun x => ?_
    refine hr.setActive ?_ _ _
    exact ReceiptBuilder.contents_eq_iff.mpr ⟨hkind, rfl, rfl, hstate⟩
  | item c =>
    obtain ⟨hr, hb⟩ := h.commercialFor maxDocuments frame
      "item command observed without a preceding inferred =K start command"
    obtain ⟨hkind, hmodel, hseen, hstate⟩ :=
      ReceiptBuilder.contents_eq_iff.mp (ReceiptBuilder.addFrame_congr hb frame)
    simp only [stepCommand, hmodel]
    refine Synced.fill (applyCommercialItem_yields _ _ _) fun x => ?_
    refine hr.setActive ?_ _ _
    exact ReceiptBuilder.contents_eq_iff.mpr ⟨hkind, rfl, hseen, hstate⟩
  | text c =>
    rcases h.activeOf_cases .commerciale with ⟨h1, h2⟩ | ⟨b, b', h1, h2, hb⟩
    · simp only [stepCommand, h1, h2]
      exact .pure h.onOther
    · obtain ⟨hkind, hmodel, hseen, hstate⟩ :=
        ReceiptBuilder.contents_eq_iff.mp (ReceiptBuilder.addFrame_congr hb frame)
      simp only [stepCommand, h1, h2, hmodel]
      refine Synced.fill (applyCommercialText_yields _ _ _) fun x => ?_
      refine h.setActive ?_ _ _
      exact ReceiptBuilder.contents_eq_iff.mpr ⟨hkind, rfl, hseen, hstate⟩
  | total c =>
    obtain ⟨hr, hb⟩ := h.commercialFor maxDocuments frame
      "total command observed without a preceding inferred =K start command"
    obtain ⟨hkind, hmodel, hseen, hstate⟩ :=
      ReceiptBuilder.contents_eq_iff.mp (ReceiptBuilder.addFrame_congr hb frame)
    simp only [stepCommand, hmodel]
    refine Synced.fill (applyCommercialTotal_yields _ _ _) fun x => ?_
    exact hr.setActive (by simp [hkind, hseen]) _ _
  | display => exact .pure h
  | unknown => exact .pure h.onOther

theorem parseStep_synced (h : Agrees front a a') (frame : RCHFrame) :
    Synced (Agrees front) (parseStep maxDocuments a frame) (parseStep maxDocuments a' frame) := by
  rw [parseStep_eq, parseStep_eq]
  split
  · exact stepCommand_synced maxDocuments h frame _
  · exact .pure h

theorem parseFrames_synced (h : Agrees front a a') (frames : List RCHFrame) :
    Synced (Agrees front) (parseFrames maxDocuments a frames) (parseFrames maxDocuments a' frames) := by
  induction frames generalizing a a' with
  | nil => exact .pure h
  | cons f fs ih =>
    simp only [parseFrames, List.foldlM_cons]
    exact (parseStep_synced maxDocuments h f).bind (fun a a' h' => ih h')
      (fun b => parseFrames_sticky maxDocuments b fs) (fun b => parseFrames_sticky maxDocuments b fs)

end

/-- A run without reports does not reach the limit of documents. -/
theorem limit_not_reported {maxDocuments : Nat} {frames : List RCHFrame} {budget : SemanticBudget}
    (hdocuments : ∀ i ∈ ((parseDocuments maxDocuments frames).run budget).1.2,
      i.code ≠ .documentLimitExceeded)
    (hfields : ((parseFrames maxDocuments {} frames).run budget).2.issue = none) :
    (((parseFrames maxDocuments {} frames).run budget).1.finishActive
      maxDocuments false).documentLimitReported = false := by
  have hempty : Agrees [] {} {} := ⟨rfl, nofun, fun _ => ⟨[], rfl, .nil⟩⟩
  obtain ⟨hself, -⟩ :=
    (parseFrames_synced maxDocuments hempty frames).runs hfields rfl (Nat.le_refl _)
  rw [Bool.eq_false_iff]
  intro hrep
  obtain ⟨i, hi, hcode⟩ := (hself.finishActive maxDocuments false).reported hrep
  exact hdocuments i hi hcode

/-- **Documents do not mix.** Where no document is active after `framesA`, and the limits are not
reached, the documents of `framesA ++ framesB` are those of `framesA` followed by documents that say
what those of `framesB` say. -/
theorem parseDocuments_append (maxDocuments maxFields : Nat) (framesA framesB : List RCHFrame)
    (hidle : ((parseFrames maxDocuments {} framesA).run (.new maxFields)).1.active = none)
    (hdocuments : ∀ i ∈ ((parseDocuments maxDocuments (framesA ++ framesB)).run
      (.new maxFields)).1.2, i.code ≠ .documentLimitExceeded)
    (hfields : ((parseDocuments maxDocuments (framesA ++ framesB)).run
      (.new maxFields)).2.issue = none) :
    ∃ ds, ((parseDocuments maxDocuments (framesA ++ framesB)).run (.new maxFields)).1.1 =
        ((parseDocuments maxDocuments framesA).run (.new maxFields)).1.1 ++ ds ∧
      List.Forall₂ ParsedReceipt.Agrees ds
        ((parseDocuments maxDocuments framesB).run (.new maxFields)).1.1 := by
  have happend : (parseFrames maxDocuments {} (framesA ++ framesB)).run (.new maxFields) =
      (parseFrames maxDocuments ((parseFrames maxDocuments {} framesA).run (.new maxFields)).1
        framesB).run ((parseFrames maxDocuments {} framesA).run (.new maxFields)).2 := by
    rw [parseFrames, List.foldlM_append]
    rfl
  have hfields' : ((parseFrames maxDocuments {} (framesA ++ framesB)).run
      (.new maxFields)).2.issue = none := hfields
  rw [happend] at hfields'
  -- the run of `framesA` leaves no report either, so its state is one `Agrees` speaks about
  have hissue : ((parseFrames maxDocuments {} framesA).run (.new maxFields)).2.issue = none := by
    by_contra hne
    exact parseFrames_sticky maxDocuments _ framesB _ hne hfields'
  have hempty : Agrees [] {} {} := ⟨rfl, nofun, fun _ => ⟨[], rfl, .nil⟩⟩
  obtain ⟨hself, hlimit⟩ :=
    (parseFrames_synced maxDocuments hempty framesA).runs hissue rfl (Nat.le_refl _)
  have hstart : Agrees ((parseFrames maxDocuments {} framesA).run (.new maxFields)).1.documents
      ((parseFrames maxDocuments {} framesA).run (.new maxFields)).1 {} :=
    ⟨by rw [hidle], hself.reported, fun _ => ⟨[], by simp, .nil⟩⟩
  have hle : (Meter.new maxFields : SemanticBudget).used ≤
      ((parseFrames maxDocuments {} framesA).run (.new maxFields)).2.used := Nat.zero_le _
  obtain ⟨hrun, -⟩ :=
    (parseFrames_synced maxDocuments hstart framesB).runs hfields' hlimit.symm hle
  rw [← happend] at hrun
  have hend := hrun.finishActive maxDocuments false
  have hA : ((parseDocuments maxDocuments framesA).run (.new maxFields)).1.1 =
      ((parseFrames maxDocuments {} framesA).run (.new maxFields)).1.documents :=
    congrArg Assembler.documents (Assembler.finishActive_none hidle)
  rw [hA]
  exact hend.documents (limit_not_reported hdocuments hfields)

/-- A complete management document, then `=K` on its own. -/
theorem parseDocuments_append_boundary_start :
    ∃ ds, ds ≠ [] ∧ ((parseDocuments 256
        ([.ofRaw 1 1 0 [2, 48, 48, 48, 48, 50, 122, 61, 111, 48, 50, 56, 3],
          .ofRaw 2 2 13 [2, 48, 48, 48, 48, 54, 122, 61, 34, 47, 40, 65, 41, 48, 48, 69, 3],
          .ofRaw 3 3 30 [2, 48, 48, 48, 48, 50, 122, 61, 111, 48, 50, 56, 3]] ++
        [.ofRaw 4 4 43 [2, 48, 48, 48, 48, 50, 122, 61, 75, 48, 48, 67, 3]])).run (.new 32768)).1.1 =
        ((parseDocuments 256
          [.ofRaw 1 1 0 [2, 48, 48, 48, 48, 50, 122, 61, 111, 48, 50, 56, 3],
           .ofRaw 2 2 13 [2, 48, 48, 48, 48, 54, 122, 61, 34, 47, 40, 65, 41, 48, 48, 69, 3],
           .ofRaw 3 3 30 [2, 48, 48, 48, 48, 50, 122, 61, 111, 48, 50, 56, 3]]).run
            (.new 32768)).1.1 ++ ds ∧
      List.Forall₂ ParsedReceipt.Agrees ds
        ((parseDocuments 256
          [.ofRaw 4 4 43 [2, 48, 48, 48, 48, 50, 122, 61, 75, 48, 48, 67, 3]]).run
            (.new 32768)).1.1 := by
  obtain ⟨ds, hds, hag⟩ := parseDocuments_append 256 32768
    [.ofRaw 1 1 0 [2, 48, 48, 48, 48, 50, 122, 61, 111, 48, 50, 56, 3],
     .ofRaw 2 2 13 [2, 48, 48, 48, 48, 54, 122, 61, 34, 47, 40, 65, 41, 48, 48, 69, 3],
     .ofRaw 3 3 30 [2, 48, 48, 48, 48, 50, 122, 61, 111, 48, 50, 56, 3]]
    [.ofRaw 4 4 43 [2, 48, 48, 48, 48, 50, 122, 61, 75, 48, 48, 67, 3]]
    (by decide +kernel) (by decide +kernel) (by decide +kernel)
  refine ⟨ds, ?_, hds, hag⟩
  have hlen := congrArg List.length hds
  rintro rfl
  revert hlen
  decide +kernel

end RchProxy
