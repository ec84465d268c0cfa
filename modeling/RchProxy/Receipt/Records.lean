import RchProxy.Receipt.Isolation
import RchProxy.Receipt.Order
import RchProxy.Receipt.Result

/-!
# Messages and documents tell the same

`_request_role` and `_parse_documents` test the same patterns in different orders
(`requestRole_eq`). What a document holds of a kind (`Reads`) grows by what each command brings, and
no document is dropped, so over a whole run the items, totals and lines of the documents are those
of the messages.
-/

namespace RchProxy

open Py Lib Lib.Spend

/-! ## The two dispatchers -/

/-- The role of a payload, from its command. -/
def Command.role (dataText : Text) : Command → MessageRole
  | .control _ => .commercialControlCandidate dataText
  | .start => .commercialStartCandidate
  | .boundary => .managementBoundary
  | .line c => .managementPrintableLine c.text c.style
  | .item c => .commercialItem c.description c.amountCents c.quantity c.code
  | .text c => .commercialPrintableText c.text c.style
  | .total c => .commercialTotal c.amountCents c.code
  | .display =>
    match matchDisplay dataText with
    | some (displayLine, shown) => .auxiliaryDisplay displayLine shown
    | none => .unknownRequestCommand
  | .unknown => .unknownRequestCommand

section
variable {t : Text}

/-- A payload that starts otherwise matches no pattern. -/
theorem matches_none (h : ∀ u, t ≠ "=\"".toList ++ u) (hr : ∀ u, t ≠ "=R".toList ++ u)
    (ht : ∀ u, t ≠ "=T".toList ++ u) (hd : ∀ u, t ≠ "=D".toList ++ u) :
    matchManagementLine t = none ∧ matchCommercialText t = none ∧ matchItem t = none ∧
      matchTotal t = none ∧ matchDisplay t = none := by
  refine ⟨?_, ?_, ?_, ?_, ?_⟩ <;> by_contra hne
  · obtain ⟨u, rfl⟩ := matchManagementLine_front hne
    exact h _ rfl
  · obtain ⟨u, rfl⟩ := matchCommercialText_front hne
    exact h _ rfl
  · obtain ⟨u, rfl⟩ := matchItem_front hne
    exact hr _ rfl
  · obtain ⟨u, rfl⟩ := matchTotal_front hne
    exact ht _ rfl
  · obtain ⟨u, rfl⟩ := matchDisplay_front hne
    exact hd _ rfl

theorem matchCommercialText_of_item {c : ItemCommand} (h : matchItem t = some c) :
    matchCommercialText t = none := by
  by_contra hne
  obtain ⟨u, rfl⟩ := matchItem_front (by rw [h]; simp)
  obtain ⟨v, hv⟩ := matchCommercialText_front hne
  simp at hv

end

/-- **The two dispatchers agree.** The role of a message is the role of the command that the
assembler reads. -/
theorem requestRole_eq (t : Text) : requestRole t = (command t).role t := by
  unfold requestRole command
  by_cases hc : startsWith t "<</?".toList = true
  · obtain ⟨u, rfl⟩ := List.isPrefixOf_iff_prefix.mp hc
    obtain ⟨h1, h2, h3, h4, h5⟩ := matches_none (t := "<</?".toList ++ u)
      (by simp) (by simp) (by simp) (by simp)
    simp only [if_pos hc, h1, h2, h3, h4, h5]
    simp [Command.role]
  simp only [if_neg hc]
  by_cases hk : t = "=K".toList
  · obtain ⟨h1, h2, h3, h4, h5⟩ := matches_none (t := t)
      (by simp [hk]) (by simp [hk]) (by simp [hk]) (by simp [hk])
    simp only [if_pos hk, h1, h2, h3, h4, h5]
    simp [hk, Command.role]
  simp only [if_neg hk]
  by_cases ho : t = "=o".toList
  · simp only [if_pos ho]
    rfl
  simp only [if_neg ho]
  cases hm : matchManagementLine t with
  | some c => rfl
  | none =>
  cases hi : matchItem t with
  | some c => simp only [matchCommercialText_of_item hi]; rfl
  | none =>
  cases hx : matchCommercialText t with
  | some c => rfl
  | none =>
  cases hg : matchTotal t with
  | some c => rfl
  | none =>
  cases hd : matchDisplay t with
  | some c => simp [Command.role, hd]
  | none => simp [Command.role]

/-! ## What the documents hold -/

/-- The command is a line, an item or a total. -/
def Command.isRecord : Command → Bool
  | .line _ | .item _ | .total _ => true
  | _ => false

/-- The records of one kind that a document holds, and those that a command brings: filling a
document adds the records of the command at the end. -/
structure Reads {β : Type} (held : DocKind → DocumentModel → List β)
    (brought : RCHFrame → Command → List β) : Prop where
  empty : ∀ kind, held kind { kind := kind } = []
  metadata : ∀ kind model metadata, held kind { model with metadata := metadata } = held kind model
  line : ∀ model seen frame c, Yields (applyManagementLine model seen frame c) fun r =>
    held .gestionale r.1 = held .gestionale model ++ brought frame (.line c)
  item : ∀ model frame c, Yields (applyCommercialItem model frame c) fun m =>
    held .commerciale m = held .commerciale model ++ brought frame (.item c)
  total : ∀ model frame c, Yields (applyCommercialTotal model frame c) fun m =>
    held .commerciale m = held .commerciale model ++ brought frame (.total c)
  text : ∀ model frame c, Yields (applyCommercialText model frame c) fun m =>
    held .commerciale m = held .commerciale model
  other : ∀ frame c, c.isRecord = false → brought frame c = []

namespace Assembler

variable {β : Type} (held : DocKind → DocumentModel → List β)

/-- The records of the finished documents. -/
def finished (a : Assembler) : List β := a.documents.flatMap fun d => held d.documentType d.model

/-- The records of all documents, the active one included. -/
def holds (a : Assembler) : List β :=
  a.finished held ++ a.active.toList.flatMap fun b => held b.kind b.model

/-- The records grow from `a` to `a'`, unless the limit of documents is reported. -/
def Grows (a : Assembler) (new : List β) (a' : Assembler) : Prop :=
  a'.documentLimitReported = false →
    a.documentLimitReported = false ∧ a'.holds held = a.holds held ++ new

/-- The builder `b` is to be the active one of `a'`, which has no other records than `a`. -/
def Opens (a a' : Assembler) (b : ReceiptBuilder) : Prop :=
  a'.documentLimitReported = false →
    a.documentLimitReported = false ∧ a.holds held = a'.finished held ++ held b.kind b.model

variable {held} {a a' : Assembler} {b b' : ReceiptBuilder}

theorem Grows.refl (a : Assembler) (pending : Option RCHFrame) :
    Grows held a [] { a with pendingStart := pending } := fun h => ⟨h, by simp [holds, finished]⟩

theorem Grows.trans {a'' : Assembler} {new new' : List β} (h : Grows held a new a')
    (h' : Grows held a' new' a'') : Grows held a (new ++ new') a'' := by
  intro hr
  obtain ⟨h1, h2⟩ := h' hr
  obtain ⟨h3, h4⟩ := h h1
  exact ⟨h3, by rw [h2, h4, List.append_assoc]⟩

theorem Opens.of_active (h : a.active = some b) : Opens held a a b :=
  fun hr => ⟨hr, by simp [holds, h]⟩

/-- The builder with new records becomes the active one. -/
theorem Opens.set (h : Opens held a a' b) {new : List β}
    (hb : held b'.kind b'.model = held b.kind b.model ++ new) (pending : Option RCHFrame) :
    Grows held a new { a' with active := some b', pendingStart := pending } := by
  intro hr
  obtain ⟨h1, h2⟩ := h hr
  refine ⟨h1, ?_⟩
  rw [h2]
  simp [holds, finished, hb]

/-- The builder becomes the active one without new records. -/
theorem Opens.keep (h : Opens held a a' b) (hkind : b'.kind = b.kind) (hmodel : b'.model = b.model)
    (pending : Option RCHFrame) :
    Grows held a [] { a' with active := some b', pendingStart := pending } :=
  h.set (by rw [hkind, hmodel, List.append_nil]) pending

theorem activeOf_opens {kind : DocKind} (h : a.activeOf kind = some b) : Opens held a a b :=
  .of_active (a.activeOf_some h).1

end Assembler

namespace ReceiptBuilder

variable (b : ReceiptBuilder) (frame : RCHFrame)

@[simp] theorem addFrame_kind : (b.addFrame frame).kind = b.kind := by
  unfold addFrame; split <;> rfl

@[simp] theorem addFrame_model : (b.addFrame frame).model = b.model := by
  unfold addFrame; split <;> rfl

@[simp] theorem transition_kind (target : AssemblyState) :
    (b.transition target frame).kind = b.kind := by
  unfold transition; split <;> rfl

@[simp] theorem transition_model (target : AssemblyState) :
    (b.transition target frame).model = b.model := by
  unfold transition; split <;> rfl

@[simp] theorem new_kind (kind : DocKind) : (new kind frame).kind = kind := by
  simp [new]

@[simp] theorem new_model (kind : DocKind) : (new kind frame).model = { kind := kind } := by
  simp [new]

end ReceiptBuilder

open Assembler (Grows Opens)

namespace Reads

variable {β : Type} {held : DocKind → DocumentModel → List β}
  {brought : RCHFrame → Command → List β} (hr : Reads held brought) (maxDocuments : Nat)
  {a a' : Assembler} {b : ReceiptBuilder} (frame : RCHFrame)
include hr

/-- A document that ends keeps its records. -/
theorem finishActive {new : List β} (h : Grows held a new a') (complete : Bool) :
    Grows held a new (a'.finishActive maxDocuments complete) := by
  cases ha : a'.active with
  | none => rwa [Assembler.finishActive_none ha]
  | some b =>
    by_cases hlt : a'.documents.length < maxDocuments
    · rw [Assembler.finishActive_some ha hlt]
      intro hrep
      obtain ⟨h1, h2⟩ := h hrep
      obtain ⟨ts, ids, hkind, -, hmodel⟩ := b.finish_eq (a'.documents.length + 1) complete
      refine ⟨h1, ?_⟩
      rw [← h2]
      simp [Assembler.holds, Assembler.finished, ha, hkind, hmodel, hr.metadata]
    · intro hrep
      simp only [Assembler.finishActive, ha, if_neg hlt] at hrep
      split at hrep
      · next hold => exact absurd hrep (by simp [hold])
      · cases hrep

/-- A new document after the active one has ended. -/
theorem opens_new (hb : b.model = { kind := b.kind }) (complete : Bool) :
    Opens held a (a.finishActive maxDocuments complete) b := by
  intro hrep
  obtain ⟨h1, h2⟩ := hr.finishActive maxDocuments (Grows.refl a a.pendingStart) complete hrep
  refine ⟨h1, ?_⟩
  rw [hb, hr.empty, List.append_nil, ← List.append_nil (a.holds held), ← h2]
  simp [Assembler.holds, Assembler.finishActive_active]

theorem commercialFor_opens (detail : String) :
    Opens held a (commercialFor maxDocuments a frame detail).1
        (commercialFor maxDocuments a frame detail).2 ∧
      (commercialFor maxDocuments a frame detail).2.kind = .commerciale := by
  unfold commercialFor
  cases h : a.activeOf .commerciale with
  | some b => exact ⟨Assembler.activeOf_opens h, (a.activeOf_some h).2⟩
  | none => exact ⟨hr.opens_new maxDocuments (by simp [ReceiptBuilder.addIssue]) false,
      by simp [ReceiptBuilder.addIssue]⟩

theorem managementFor_opens :
    Opens held a (managementFor maxDocuments a frame).1 (managementFor maxDocuments a frame).2 ∧
      (managementFor maxDocuments a frame).2.kind = .gestionale := by
  unfold managementFor
  cases h : a.active with
  | none =>
    refine ⟨fun hrep => ⟨hrep, ?_⟩, by simp [ReceiptBuilder.addIssue]⟩
    simp [Assembler.holds, h, ReceiptBuilder.addIssue, hr.empty]
  | some b =>
    simp only
    cases hk : b.kind with
    | gestionale => exact ⟨.of_active h, hk⟩
    | commerciale => exact ⟨hr.opens_new maxDocuments (by simp) false, by simp⟩

theorem onControl (dataText : Text) :
    Grows held a [] (a.onControl maxDocuments frame dataText) := by
  unfold Assembler.onControl
  cases h : a.activeOf .commerciale with
  | none => exact Grows.refl a _
  | some b =>
    have hopen : Opens held a a b := Assembler.activeOf_opens h
    simp only
    split
    · exact hr.finishActive maxDocuments (hopen.keep (by simp) (by simp) _) true
    · split
      · exact hopen.keep (by simp) (by simp) _
      · exact hopen.keep (by simp) (by simp) _

theorem onStart : Grows held a [] (a.onStart maxDocuments frame) :=
  (hr.opens_new maxDocuments (b := .new .commerciale frame) (by simp) false).keep
    (by simp) (by simp) none

theorem onBoundary : Grows held a [] (a.onBoundary maxDocuments frame) := by
  unfold Assembler.onBoundary
  cases h : a.activeOf .gestionale with
  | none => exact (hr.opens_new maxDocuments (by simp) false).keep rfl rfl none
  | some b =>
    have hopen : Opens held a a b := Assembler.activeOf_opens h
    have hkeep : Grows held a [] { a with active := some (b.addFrame frame) } :=
      hopen.keep (by simp) (by simp) a.pendingStart
    exact (hr.finishActive maxDocuments hkeep true).trans (Grows.refl _ none)

omit hr in
theorem onOther : Grows held a [] (a.onOther frame) := by
  unfold Assembler.onOther
  cases h : a.active with
  | none => exact Grows.refl a _
  | some b => exact (Opens.of_active h).keep (by simp) (by simp) _

theorem stepCommand_yields (a : Assembler) (c : Command) :
    Yields (stepCommand maxDocuments a frame c) (Grows held a (brought frame c)) := by
  cases c with
  | control dataText =>
    rw [hr.other _ _ rfl]
    exact .pure (hr.onControl maxDocuments frame dataText)
  | start =>
    rw [hr.other _ _ rfl]
    exact .pure (hr.onStart maxDocuments frame)
  | boundary =>
    rw [hr.other _ _ rfl]
    exact .pure (hr.onBoundary maxDocuments frame)
  | line c =>
    obtain ⟨hopen, hkind⟩ := hr.managementFor_opens maxDocuments frame (a := a)
    simp only [stepCommand]
    generalize managementFor maxDocuments a frame = opened at hopen hkind ⊢
    refine (hr.line _ _ frame c).bind (fun r h => .pure (hopen.set ?_ _)) fun r => .pure _
    simpa [hkind] using h
  | item c =>
    obtain ⟨hopen, hkind⟩ := hr.commercialFor_opens maxDocuments frame (a := a)
      "item command observed without a preceding inferred =K start command"
    simp only [stepCommand]
    generalize commercialFor maxDocuments a frame _ = opened at hopen hkind ⊢
    refine (hr.item _ frame c).bind (fun r h => .pure (hopen.set ?_ _)) fun r => .pure _
    simpa [hkind] using h
  | total c =>
    obtain ⟨hopen, hkind⟩ := hr.commercialFor_opens maxDocuments frame (a := a)
      "total command observed without a preceding inferred =K start command"
    simp only [stepCommand]
    generalize commercialFor maxDocuments a frame _ = opened at hopen hkind ⊢
    refine (hr.total _ frame c).bind (fun r h => .pure (hopen.set ?_ _)) fun r => .pure _
    simpa [hkind] using h
  | text c =>
    rw [hr.other _ _ rfl]
    simp only [stepCommand]
    cases h : a.activeOf .commerciale with
    | none => exact .pure (onOther frame)
    | some b =>
      have hkind := (a.activeOf_some h).2
      refine (hr.text _ frame c).bind (fun r hm => .pure ?_) fun r => .pure _
      refine (Assembler.activeOf_opens h).set ?_ _
      simpa [hkind] using hm
  | display =>
    rw [hr.other _ _ rfl]
    exact .pure (Grows.refl a a.pendingStart)
  | unknown =>
    rw [hr.other _ _ rfl]
    exact .pure (onOther frame)

omit hr in
/-- The records a frame brings. -/
def broughtBy (brought : RCHFrame → Command → List β) (f : RCHFrame) : List β :=
  if f.expectedRequest then brought f (command f.dataText) else []

theorem parseFrames_yields (a : Assembler) (frames : List RCHFrame) :
    Yields (parseFrames maxDocuments a frames)
      (Grows held a (frames.flatMap (broughtBy brought))) := by
  induction frames generalizing a with
  | nil => exact .pure (Grows.refl a a.pendingStart)
  | cons f fs ih =>
    simp only [parseFrames, List.foldlM_cons, List.flatMap_cons]
    have hstep : Yields (parseStep maxDocuments a f) (Grows held a (broughtBy brought f)) := by
      rw [parseStep_eq, broughtBy]
      split
      · exact hr.stepCommand_yields maxDocuments f a _
      · exact .pure (Grows.refl a a.pendingStart)
    refine hstep.bind (fun a' h => ?_) fun a' => parseFrames_sticky maxDocuments a' fs
    exact (ih a').mono fun a'' h' => h.trans h'

/-- Over a whole run that reports no limit, the documents hold what the frames bring. -/
theorem parseDocuments_holds (frames : List RCHFrame) {budget : SemanticBudget}
    (hdocuments : ∀ i ∈ ((parseDocuments maxDocuments frames).run budget).1.2,
      i.code ≠ .documentLimitExceeded)
    (hfields : ((parseDocuments maxDocuments frames).run budget).2.issue = none) :
    ((parseDocuments maxDocuments frames).run budget).1.1.flatMap
        (fun d => held d.documentType d.model) = frames.flatMap (broughtBy brought) := by
  have hfields' : ((parseFrames maxDocuments {} frames).run budget).2.issue = none := hfields
  have hrun := (hr.parseFrames_yields maxDocuments {} frames).of_issue_none hfields'
  obtain ⟨-, h⟩ :=
    hr.finishActive maxDocuments hrun false (limit_not_reported hdocuments hfields')
  have hfinished : (((parseFrames maxDocuments {} frames).run budget).1.finishActive
      maxDocuments false).finished held = frames.flatMap (broughtBy brought) := by
    simpa [Assembler.holds, Assembler.finishActive_active, Assembler.finished] using h
  exact hfinished

end Reads

/-! ## Items, totals and lines -/

/-- What an item and a message of role `commercial_item` say. -/
structure ItemRecord where
  description : Text
  amountCents : Option Int
  quantity : Option Int
  commandCode : Option Text
  frameId : Option Nat
  deriving DecidableEq, Repr

/-- What a total and a message of role `commercial_total` say. -/
structure TotalRecord where
  amountCents : Option Int
  commandCode : Option Text
  frameId : Option Nat
  deriving DecidableEq, Repr

/-- What a line and a message of role `management_printable_line` say. -/
structure LineRecord where
  text : Text
  frameId : Option Nat
  deriving DecidableEq, Repr

/-- The record of an item. -/
def Item.record (i : Item) : ItemRecord :=
  ⟨i.description, i.amountCents, i.quantity, i.commandCode, some i.source.frameId⟩

/-- The record of a total. -/
def Total.record (t : Total) : TotalRecord :=
  ⟨t.amountCents, t.commandCode, some t.source.frameId⟩

/-- The record of a line. -/
def DocumentLine.record (l : DocumentLine) : LineRecord := ⟨l.text, some l.trace.sourceFrame⟩

namespace ProtocolMessage

variable (m : ProtocolMessage)

/-- The record of a message of role `commercial_item`. -/
def item? : Option ItemRecord :=
  match m.role with
  | .commercialItem description amountCents quantity commandCode =>
    some ⟨description, some amountCents, quantity, some commandCode, m.frameId⟩
  | _ => none

/-- The record of a message of role `commercial_total`. -/
def total? : Option TotalRecord :=
  match m.role with
  | .commercialTotal amountCents commandCode => some ⟨some amountCents, some commandCode, m.frameId⟩
  | _ => none

/-- The record of a message of role `management_printable_line`. -/
def line? : Option LineRecord :=
  match m.role with
  | .managementPrintableLine text _ => some ⟨text, m.frameId⟩
  | _ => none

end ProtocolMessage

/-- The items of a commercial document. -/
def heldItems (kind : DocKind) (model : DocumentModel) : List ItemRecord :=
  if kind = .commerciale then model.items.map Item.record else []

/-- The item of a command. -/
def broughtItem (frame : RCHFrame) : Command → List ItemRecord
  | .item c => [(c.item frame).record]
  | _ => []

/-- The totals of a commercial document. -/
def heldTotals (kind : DocKind) (model : DocumentModel) : List TotalRecord :=
  if kind = .commerciale then model.totals.map Total.record else []

/-- The total of a command. -/
def broughtTotal (frame : RCHFrame) : Command → List TotalRecord
  | .total c => [(c.total frame).record]
  | _ => []

/-- The lines of a management document. -/
def heldLines (kind : DocKind) (model : DocumentModel) : List LineRecord :=
  if kind = .gestionale then model.lines.map DocumentLine.record else []

/-- The line of a command. -/
def broughtLine (frame : RCHFrame) : Command → List LineRecord
  | .line c => [⟨c.text, some frame.frameId⟩]
  | _ => []

/-- The records of the documents of one kind. -/
theorem flatMap_filter_map {γ δ : Type} (kind : DocKind) (field : ParsedReceipt → List γ)
    (record : γ → δ) (ds : List ParsedReceipt) :
    ((ds.filter (·.documentType = kind)).flatMap field).map record =
      ds.flatMap fun d => if d.documentType = kind then (field d).map record else [] := by
  induction ds with
  | nil => rfl
  | cons d ds ih =>
    by_cases h : d.documentType = kind
    · simp [h, ih]
    · simp [h, ih]

/-- What is said about documents through their records only. -/
theorem flatMap_records {δ : Type} {f : ParsedReceipt → List δ} (g : Records → List δ)
    (h : ∀ d, f d = g d.records) {ds ds' : List ParsedReceipt}
    (hds : ds.map ParsedReceipt.records = ds'.map ParsedReceipt.records) :
    ds.flatMap f = ds'.flatMap f := by
  have hmap : ∀ l : List ParsedReceipt, l.flatMap f = (l.map ParsedReceipt.records).flatMap g := by
    intro l
    rw [List.flatMap_map]
    exact List.flatMap_congr fun d _ => h d
  rw [hmap, hmap, hds]

theorem items_read : Reads heldItems broughtItem where
  empty kind := by cases kind <;> rfl
  metadata _ _ _ := rfl
  line model seen frame c := (applyManagementLine_yields model seen frame c).mono fun _ _ => rfl
  item model frame c := (applyCommercialItem_yields model frame c).mono fun m h => by
    simp [heldItems, broughtItem, h.1]
  total model frame c := (applyCommercialTotal_yields model frame c).mono fun m h => by
    simp [heldItems, broughtItem, h.1]
  text model frame c := (applyCommercialText_yields model frame c).mono fun m h => by
    simp [heldItems, h.1]
  other frame c h := by cases c <;> first | rfl | cases h

theorem totals_read : Reads heldTotals broughtTotal where
  empty kind := by cases kind <;> rfl
  metadata _ _ _ := rfl
  line model seen frame c := (applyManagementLine_yields model seen frame c).mono fun _ _ => rfl
  item model frame c := (applyCommercialItem_yields model frame c).mono fun m h => by
    simp [heldTotals, broughtTotal, h.2]
  total model frame c := (applyCommercialTotal_yields model frame c).mono fun m h => by
    simp [heldTotals, broughtTotal, h.2]
  text model frame c := (applyCommercialText_yields model frame c).mono fun m h => by
    simp [heldTotals, h.2]
  other frame c h := by cases c <;> first | rfl | cases h

theorem lines_read : Reads heldLines broughtLine where
  empty kind := by cases kind <;> rfl
  metadata _ _ _ := rfl
  line model seen frame c := (applyManagementLine_yields model seen frame c).mono fun r h => by
    obtain ⟨line, hlines, htext, htrace⟩ := h
    simp [heldLines, broughtLine, hlines, DocumentLine.record, htext, htrace, RCHFrame.trace]
  item model frame c := (applyCommercialItem_yields model frame c).mono fun _ _ => rfl
  total model frame c := (applyCommercialTotal_yields model frame c).mono fun _ _ => rfl
  text model frame c := (applyCommercialText_yields model frame c).mono fun _ _ => rfl
  other frame c h := by cases c <;> first | rfl | cases h

/-! ## The records of the messages -/

/-- The records that the messages of a direction carry are those of its frames, for a kind of record
that neither ACKs nor the number of a message matter for. -/
theorem messagesFrom_filterMap {γ : Type} (record : ProtocolMessage → Option γ)
    {direction : Direction} {brought : RCHFrame → List γ}
    (hack : ∀ n a, record (messageFromAck n direction a) = none)
    (hframe : ∀ n f, (record (messageFromFrame n direction f)).toList = brought f)
    (n : Nat) (events : List StreamEvent) :
    (messagesFrom direction n events).filterMap record = (framesIn events).flatMap brought := by
  induction events generalizing n with
  | nil => rfl
  | cons e es ih =>
    cases e with
    | ack a =>
      rw [messagesFrom, framesIn_ack, ← ih (n + 1)]
      exact List.filterMap_cons_none (hack _ a)
    | frame f =>
      have hf := hframe (n + 1) f
      rw [messagesFrom, framesIn_frame, List.flatMap_cons, ← ih (n + 1), ← hf]
      simp only [StreamEvent.message]
      cases hrec : record (messageFromFrame (n + 1) direction f) with
      | none => rw [List.filterMap_cons_none hrec]; rfl
      | some x => rw [List.filterMap_cons_some hrec]; rfl

/-- The role of a request frame message. -/
theorem messageFromFrame_role (n : Nat) (f : RCHFrame) :
    (messageFromFrame n .request f).role =
      if f.expectedRequest then (command f.dataText).role f.dataText
      else .unexpectedRequestProfile := by
  simp only [messageFromFrame, frameRole, if_true, requestRole_eq]
  split <;> rfl

/-- The messages of a request carry the records that its frames bring. -/
theorem request_records {γ : Type} {record : ProtocolMessage → Option γ}
    {brought : RCHFrame → Command → List γ} (hack : ∀ n a, record (messageFromAck n .request a) = none)
    (hexpected : ∀ n f, f.expectedRequest = true →
      (record (messageFromFrame n .request f)).toList = brought f (command f.dataText))
    (hother : ∀ n f, f.expectedRequest = false → record (messageFromFrame n .request f) = none)
    {maxMessages : Nat} {request response : FramingResult}
    (h : (collectMessages maxMessages request response).limitIssue = none) :
    ((collectMessages maxMessages request response).messages.filter
        (·.direction = .request)).filterMap record =
      request.frames.flatMap (Reads.broughtBy brought) := by
  have hdir : ∀ (d : Direction) (n : Nat) (es : List StreamEvent),
      ∀ m ∈ messagesFrom d n es, m.direction = d := by
    intro d n es
    induction es generalizing n with
    | nil => simp [messagesFrom]
    | cons e es ih =>
      intro m hm
      simp only [messagesFrom, List.mem_cons] at hm
      rcases hm with rfl | hm
      · cases e <;> rfl
      · exact ih _ m hm
  rw [collectMessages_messages h, List.filter_append,
    List.filter_eq_self.mpr (by simpa using hdir .request 0 request.events),
    List.filter_eq_nil_iff.mpr (fun m hm => by simp [hdir _ _ _ m hm]), List.append_nil]
  refine messagesFrom_filterMap record hack (fun n f => ?_) 0 request.events
  cases he : f.expectedRequest with
  | true => rw [Reads.broughtBy, if_pos he, hexpected n f he]
  | false => rw [Reads.broughtBy, he, hother n f he]; rfl

/-! ## Frames of another profile -/

/-- Frames that are not expected are skipped. -/
theorem parseDocuments_filter (maxDocuments : Nat) (frames : List RCHFrame) :
    parseDocuments maxDocuments frames =
      parseDocuments maxDocuments (frames.filter (·.expectedRequest)) := by
  have hrun : ∀ a, parseFrames maxDocuments a frames =
      parseFrames maxDocuments a (frames.filter (·.expectedRequest)) := by
    induction frames with
    | nil => exact fun _ => rfl
    | cons f fs ih =>
      intro a
      simp only [parseFrames, List.foldlM_cons] at ih ⊢
      cases he : f.expectedRequest with
      | true =>
        rw [List.filter_cons_of_pos he, List.foldlM_cons]
        exact congrArg (parseStep maxDocuments a f >>= ·) (funext ih)
      | false =>
        rw [List.filter_cons_of_neg (by simp [he]), ← ih a, parseStep_eq, he]
        rfl
  rw [parseDocuments, hrun]
  rfl

/-- The documents and the remembered start only mention frames whose ids satisfy `P`. -/
structure Shape.Mentions (P : Nat → Prop) (s : Shape) : Prop where
  spans : ∀ d ∈ s.spans, ∀ n ∈ d.frameIds, P n
  active : ∀ e ∈ s.active, ∀ f ∈ e.frames, P f.frameId
  pending : ∀ p ∈ s.pending, P p.frameId

namespace Shape.Mentions

variable {P : Nat → Prop} {s : Shape} {frame : RCHFrame} (maxDocuments : Nat)

theorem close (h : s.Mentions P) (complete : Bool) : (s.close maxDocuments complete).Mentions P := by
  unfold Shape.close
  cases ha : s.active with
  | none => exact h
  | some e =>
    refine ⟨fun d hd n hn => ?_, nofun, h.pending⟩
    simp only at hd
    split at hd
    · rcases List.mem_append.mp hd with hd | hd
      · exact h.spans d hd n hn
      · obtain rfl := List.mem_singleton.mp hd
        obtain ⟨f, hf, rfl⟩ := List.mem_map.mp hn
        exact h.active e ha f hf
    · exact h.spans d hd n hn

theorem take (h : s.Mentions P) (hframe : P frame.frameId) : (s.take frame).Mentions P := by
  refine ⟨h.spans, fun e he f hf => ?_, h.pending⟩
  obtain ⟨e', he', rfl⟩ := Option.map_eq_some_iff.mp he
  rcases Extent.mem_frames_addFrame hf with hf | rfl
  · exact h.active e' he' f hf
  · exact hframe

theorem opened (h : s.Mentions P) {e : Extent} (he : ∀ f ∈ e.frames, P f.frameId)
    {pending : Option RCHFrame} (hp : ∀ p ∈ pending, P p.frameId) :
    Mentions P { s with active := some e, pending := pending } :=
  ⟨h.spans, fun _ hm => by cases hm; exact he, hp⟩

theorem single (hframe : P frame.frameId) (kind : DocKind) :
    ∀ f ∈ (⟨kind, frame, []⟩ : Extent).frames, P f.frameId := by
  simpa [Extent.frames] using hframe

theorem into (h : s.Mentions P) (hframe : P frame.frameId) (kind : DocKind) :
    (s.into maxDocuments frame kind).Mentions P := by
  unfold Shape.into
  split
  · exact h.take hframe
  · exact (h.close maxDocuments false).opened (single hframe kind)
      (h.close maxDocuments false).pending

theorem step (h : s.Mentions P) (hframe : P frame.frameId) (c : Command) :
    (s.step maxDocuments frame c).Mentions P := by
  cases c with
  | control dataText =>
    rw [Shape.step]
    split
    · split
      · exact (h.take hframe).close maxDocuments true
      · exact h.take hframe
    · refine ⟨h.spans, h.active, fun p hp => ?_⟩
      simp only at hp
      split at hp
      · cases hp
        exact hframe
      · cases hp
  | start =>
    have hclose := h.close maxDocuments false
    refine hclose.opened (fun f hf => ?_) (by rintro _ ⟨⟩)
    rcases Extent.mem_frames_addFrame hf with hf | rfl
    · simp only [Extent.frames, List.mem_singleton] at hf
      subst hf
      cases hp : (s.close maxDocuments false).pending with
      | none => exact hframe
      | some p => exact hclose.pending p hp
    · exact hframe
  | boundary =>
    rw [Shape.step]
    split
    · have := (h.take hframe).close maxDocuments true
      exact ⟨this.spans, this.active, by rintro _ ⟨⟩⟩
    · exact (h.close maxDocuments false).opened (single hframe _) (by rintro _ ⟨⟩)
  | line c => exact h.into maxDocuments hframe _
  | item c => exact h.into maxDocuments hframe _
  | total c => exact h.into maxDocuments hframe _
  | text c => exact h.take hframe
  | display => exact h
  | unknown => exact h.take hframe

theorem run (h : s.Mentions P) {frames : List RCHFrame}
    (hframes : ∀ f ∈ frames, f.expectedRequest = true → P f.frameId) :
    (frames.foldl (Shape.read maxDocuments) s).Mentions P := by
  induction frames generalizing s with
  | nil => exact h
  | cons f fs ih =>
    refine ih ?_ fun g hg => hframes g (List.mem_cons_of_mem _ hg)
    unfold Shape.read
    split
    · next he => exact h.step maxDocuments (hframes f (List.mem_cons_self ..) he) _
    · exact h

end Shape.Mentions

/-- A document only has frames that are expected. -/
theorem parseDocuments_frameIds (maxDocuments : Nat) (budget : SemanticBudget)
    (frames : List RCHFrame) :
    ∀ d ∈ ((parseDocuments maxDocuments frames).run budget).1.1, ∀ n ∈ d.frameIds,
      ∃ f ∈ frames, f.expectedRequest = true ∧ f.frameId = n := by
  intro d hd
  have hinit : Shape.Mentions (fun n => ∃ f ∈ frames, f.expectedRequest = true ∧ f.frameId = n) {} :=
    ⟨nofun, nofun, nofun⟩
  have hrun := (hinit.run maxDocuments fun f hf he => ⟨f, hf, he, rfl⟩).close maxDocuments false
  have hspan := List.mem_map_of_mem (f := ParsedReceipt.span) hd
  rw [parseDocuments_spans] at hspan
  exact hrun.spans _ hspan

/-- The documents of a result that crossed no limit hold, of one kind of record, what the request
messages carry. -/
theorem result_records {γ δ : Type} (kind : DocKind) (field : Records → List γ) (record : γ → δ)
    {held : DocKind → DocumentModel → List δ} {brought : RCHFrame → Command → List δ}
    (hr : Reads held brought)
    (hheld : ∀ d : ParsedReceipt, held d.documentType d.model =
      if d.documentType = kind then (field d.records).map record else [])
    {message : ProtocolMessage → Option δ} (hack : ∀ n a, message (messageFromAck n .request a) = none)
    (hexpected : ∀ n f, f.expectedRequest = true →
      (message (messageFromFrame n .request f)).toList = brought f (command f.dataText))
    (hother : ∀ n f, f.expectedRequest = false → message (messageFromFrame n .request f) = none)
    {lim : ParserLimits} {initialIssues : List ReceiptIssue} {request response : FramingResult}
    (hlimit : ∀ i ∈ (parseFramedCopies lim initialIssues request response).issues,
      i.code.isLimit = false) :
    (((parseFramedCopies lim initialIssues request response).documents.filter
        (·.documentType = kind)).flatMap (fun d => field d.records)).map record =
      ((parseFramedCopies lim initialIssues request response).messages.filter
        (·.direction = .request)).filterMap message := by
  obtain ⟨hdocuments, hfields, hmessages⟩ := no_limit_crossed hlimit
  have hfields' := reconstruct_issue_none lim request response _ hfields
  have hrecords := reconstruct_records lim request response (.new lim.maxSemanticFields)
  rw [flatMap_filter_map]
  refine Eq.trans ?_ (request_records hack hexpected hother hmessages).symm
  rw [← hr.parseDocuments_holds lim.maxDocuments request.frames hdocuments hfields']
  refine (flatMap_records
    (fun c => if c.documentType = kind then (field c).map record else []) (fun _ => rfl)
    hrecords).trans ?_
  exact List.flatMap_congr fun d _ => (hheld d).symm

section
variable (n : Nat) (f : RCHFrame)

theorem item?_expected (he : f.expectedRequest = true) :
    (messageFromFrame n .request f).item?.toList = broughtItem f (command f.dataText) := by
  rw [ProtocolMessage.item?, messageFromFrame_role, if_pos he]
  cases command f.dataText with
  | display =>
    rw [Command.role]
    cases matchDisplay f.dataText <;> rfl
  | _ => rfl

theorem total?_expected (he : f.expectedRequest = true) :
    (messageFromFrame n .request f).total?.toList = broughtTotal f (command f.dataText) := by
  rw [ProtocolMessage.total?, messageFromFrame_role, if_pos he]
  cases command f.dataText with
  | display =>
    rw [Command.role]
    cases matchDisplay f.dataText <;> rfl
  | _ => rfl

theorem line?_expected (he : f.expectedRequest = true) :
    (messageFromFrame n .request f).line?.toList = broughtLine f (command f.dataText) := by
  rw [ProtocolMessage.line?, messageFromFrame_role, if_pos he]
  cases command f.dataText with
  | display =>
    rw [Command.role]
    cases matchDisplay f.dataText <;> rfl
  | _ => rfl

theorem records_unexpected (he : f.expectedRequest = false) :
    (messageFromFrame n .request f).item? = none ∧ (messageFromFrame n .request f).total? = none ∧
      (messageFromFrame n .request f).line? = none := by
  have hrole := messageFromFrame_role n f
  rw [he] at hrole
  rw [ProtocolMessage.item?, ProtocolMessage.total?, ProtocolMessage.line?, hrole]
  exact ⟨rfl, rfl, rfl⟩

end

/-- **Every recognised line, item and total is reconstructed exactly once.** Where no limit is
reported, the items and totals of the commercial documents and the lines of the management documents
are, in order, those of the request messages; frames with a wrong BCC, another address or another
class are in no document. -/
theorem parseProtocolCopies_records (lim : ParserLimits) (request response : Bytes) :
    ∃ r, parseProtocolCopies lim request response = .ok r ∧
      ((∀ i ∈ r.issues, i.code.isLimit = false) →
        ((r.documents.filter (·.documentType = .commerciale)).flatMap
            (·.model.items)).map Item.record =
          (r.messages.filter (·.direction = .request)).filterMap ProtocolMessage.item? ∧
        ((r.documents.filter (·.documentType = .commerciale)).flatMap
            (·.model.totals)).map Total.record =
          (r.messages.filter (·.direction = .request)).filterMap ProtocolMessage.total? ∧
        ((r.documents.filter (·.documentType = .gestionale)).flatMap
            (·.model.lines)).map DocumentLine.record =
          (r.messages.filter (·.direction = .request)).filterMap ProtocolMessage.line?) ∧
      parseDocuments lim.maxDocuments r.requestFraming.frames =
        parseDocuments lim.maxDocuments
          (r.requestFraming.frames.filter (·.expectedRequest)) ∧
      ∀ d ∈ r.documents, ∀ f ∈ r.requestFraming.frames,
        f.expectedRequest = false → f.frameId ∉ d.frameIds := by
  obtain ⟨req, resp, hreq, -, hok⟩ := parseProtocolCopies_ok lim request response
  refine ⟨_, hok, fun hlimit => ⟨?_, ?_, ?_⟩, parseDocuments_filter _ _, ?_⟩
  · exact result_records .commerciale Records.items Item.record items_read (fun _ => rfl)
      (fun _ _ => rfl) item?_expected (fun n f he => (records_unexpected n f he).1) hlimit
  · exact result_records .commerciale Records.totals Total.record totals_read (fun _ => rfl)
      (fun _ _ => rfl) total?_expected (fun n f he => (records_unexpected n f he).2.1) hlimit
  · exact result_records .gestionale Records.lines DocumentLine.record lines_read (fun _ => rfl)
      (fun _ _ => rfl) line?_expected (fun n f he => (records_unexpected n f he).2.2) hlimit
  · intro d hd f hf he hmem
    -- the frame with this id is expected, and ids are those of one frame only
    have hrecords := reconstruct_records lim req resp (.new lim.maxSemanticFields)
    have hd' := List.mem_map_of_mem (f := ParsedReceipt.records) hd
    rw [parseFramedCopies_documents, hrecords] at hd'
    obtain ⟨d', hd', hsame⟩ := List.mem_map.mp hd'
    have hids : d'.frameIds = d.frameIds := congrArg Records.frameIds hsame
    obtain ⟨g, hg, hge, hid⟩ := parseDocuments_frameIds _ _ _ d' hd' f.frameId (hids ▸ hmem)
    have hfg := frameStream_frames_unique hreq hg hf hid
    rw [hfg, he] at hge
    cases hge

/-- An item, a total and a line, without a response. -/
theorem parseProtocolCopies_records_sale :
    ∃ r, parseProtocolCopies .default
        ([2, 48, 48, 48, 49, 48, 122, 61, 82, 49, 47, 36, 53, 47, 40, 65, 41, 48, 55, 54, 3] ++
        [2, 48, 48, 48, 48, 54, 122, 61, 84, 49, 47, 36, 53, 49, 49, 57, 3] ++
        [2, 48, 48, 48, 48, 54, 122, 61, 34, 47, 40, 66, 41, 50, 48, 70, 3]) [] = .ok r ∧
      (r.documents.flatMap (·.model.items)).map Item.record =
        [⟨['A'], some 5, none, some ['1'], some 1⟩] ∧
      ((r.documents.filter (·.documentType = .commerciale)).flatMap
          (·.model.items)).map Item.record =
        (r.messages.filter (·.direction = .request)).filterMap ProtocolMessage.item? := by
  obtain ⟨r, hr, h, -, -⟩ := parseProtocolCopies_records .default
    ([2, 48, 48, 48, 49, 48, 122, 61, 82, 49, 47, 36, 53, 47, 40, 65, 41, 48, 55, 54, 3] ++
        [2, 48, 48, 48, 48, 54, 122, 61, 84, 49, 47, 36, 53, 49, 49, 57, 3] ++
        [2, 48, 48, 48, 48, 54, 122, 61, 34, 47, 40, 66, 41, 50, 48, 70, 3]) []
  have hrun : (parseProtocolCopies .default
      ([2, 48, 48, 48, 49, 48, 122, 61, 82, 49, 47, 36, 53, 47, 40, 65, 41, 48, 55, 54, 3] ++
        [2, 48, 48, 48, 48, 54, 122, 61, 84, 49, 47, 36, 53, 49, 49, 57, 3] ++
        [2, 48, 48, 48, 48, 54, 122, 61, 34, 47, 40, 66, 41, 50, 48, 70, 3]) []).map
      (fun r => (r.issues.all (!·.code.isLimit), (r.documents.flatMap (·.model.items)).map Item.record)) =
      .ok (true, [⟨['A'], some 5, none, some ['1'], some 1⟩]) := by decide +kernel
  rw [hr] at hrun
  obtain ⟨hlimit, hitems⟩ := Prod.mk.inj (Except.ok.inj hrun)
  refine ⟨r, hr, hitems, (h fun i hi => ?_).1⟩
  simpa using List.all_eq_true.mp hlimit i hi

end RchProxy
