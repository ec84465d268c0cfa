import RchProxy.Receipt.Dispatch

/-!
# Which frames a document takes

The assembler without the contents of its documents: the frames of the active one, what a finished
one says about its frames, and the remembered start. This part of the state does not depend on the
budget (`parseFrames_shape`).
-/

namespace RchProxy

open Py Lib

/-- The frames of a document that is being assembled. -/
structure Extent where
  kind : DocKind
  startFrame : RCHFrame
  laterFrames : List RCHFrame := []
  deriving DecidableEq, Repr

/-- What a finished document says about its frames. -/
structure Span where
  kind : DocKind
  complete : Bool
  frameIds : List Nat
  startOffset : Nat
  endOffset : Nat
  deriving DecidableEq, Repr

namespace Extent

/-- All the frames, in order. -/
def frames (e : Extent) : List RCHFrame := e.startFrame :: e.laterFrames

/-- The last frame. -/
def lastFrame (e : Extent) : RCHFrame := e.laterFrames.getLastD e.startFrame

/-- One more frame, unless it is the last one. -/
def addFrame (e : Extent) (frame : RCHFrame) : Extent :=
  if e.lastFrame.frameId = frame.frameId then e
  else { e with laterFrames := e.laterFrames ++ [frame] }

/-- The frames of a finished document. -/
def span (e : Extent) (complete : Bool) : Span where
  kind := e.kind
  complete := complete
  frameIds := e.frames.map (·.frameId)
  startOffset := e.startFrame.streamOffset
  endOffset := e.lastFrame.endOffset

@[simp] theorem addFrame_kind (e : Extent) (frame : RCHFrame) : (e.addFrame frame).kind = e.kind := by
  unfold addFrame; split <;> rfl

/-- A frame on its own is not added again. -/
@[simp] theorem addFrame_self (kind : DocKind) (frame : RCHFrame) :
    addFrame ⟨kind, frame, []⟩ frame = ⟨kind, frame, []⟩ := if_pos rfl

theorem mem_frames_addFrame {e : Extent} {frame f : RCHFrame} (h : f ∈ (e.addFrame frame).frames) :
    f ∈ e.frames ∨ f = frame := by
  unfold addFrame at h
  split at h
  · exact .inl h
  · simpa [frames, or_assoc] using h

theorem frames_subset_addFrame {e : Extent} {frame f : RCHFrame} (h : f ∈ e.frames) :
    f ∈ (e.addFrame frame).frames := by
  unfold addFrame
  split
  · exact h
  · simp only [frames, List.mem_cons, List.mem_append] at h ⊢
    exact h.imp id .inl

theorem lastFrame_mem (e : Extent) : e.lastFrame ∈ e.frames :=
  List.getLastD_mem_cons

/-- The frame that is added has its id among those of the document. -/
theorem addFrame_mem (e : Extent) (frame : RCHFrame) :
    ∃ f ∈ (e.addFrame frame).frames, f.frameId = frame.frameId := by
  by_cases h : e.lastFrame.frameId = frame.frameId
  · rw [addFrame, if_pos h]
    exact ⟨e.lastFrame, e.lastFrame_mem, h⟩
  · exact ⟨frame, by simp [addFrame, if_neg h, frames], rfl⟩

end Extent

/-- The documents and the remembered start, without contents, and whether a document was dropped. -/
structure Shape where
  spans : List Span := []
  active : Option Extent := none
  pending : Option RCHFrame := none
  omitted : Bool := false
  deriving DecidableEq, Repr

namespace Shape

variable (maxDocuments : Nat) (s : Shape) (frame : RCHFrame)

/-- The active document ends; past the limit it is dropped. -/
def close (complete : Bool) : Shape :=
  match s.active with
  | none => s
  | some e =>
    { s with
      spans := if s.spans.length < maxDocuments then s.spans ++ [e.span complete] else s.spans
      active := none
      omitted := s.omitted || decide (maxDocuments ≤ s.spans.length) }

/-- The active document, if any, takes the frame. -/
def take : Shape := { s with active := s.active.map (·.addFrame frame) }

/-- The frame goes to a document of the given kind: the active one, or a new one. -/
def into (kind : DocKind) : Shape :=
  if s.active.map (·.kind) = some kind then s.take frame
  else { s.close maxDocuments false with active := some ⟨kind, frame, []⟩ }

/-- The step for a command. -/
def step : Command → Shape
  | .control dataText =>
    if s.active.map (·.kind) = some .commerciale then
      if isClosingControl dataText then (s.take frame).close maxDocuments true else s.take frame
    else { s with pending := if dataText = "<</?s".toList then some frame else none }
  | .start =>
    let s := s.close maxDocuments false
    { s with
      active := some ((⟨.commerciale, s.pending.getD frame, []⟩ : Extent).addFrame frame)
      pending := none }
  | .boundary =>
    if s.active.map (·.kind) = some .gestionale then
      { (s.take frame).close maxDocuments true with pending := none }
    else
      { s.close maxDocuments false with active := some ⟨.gestionale, frame, []⟩, pending := none }
  | .line _ => s.into maxDocuments frame .gestionale
  | .item _ => s.into maxDocuments frame .commerciale
  | .total _ => s.into maxDocuments frame .commerciale
  | .text _ => s.take frame
  | .display => s
  | .unknown => s.take frame

/-- The step for a frame. -/
def read : Shape :=
  if frame.expectedRequest then s.step maxDocuments frame (command frame.dataText) else s

end Shape

/-! ## The shape of the assembler -/

/-- The frames of a builder. -/
def ReceiptBuilder.extent (b : ReceiptBuilder) : Extent := ⟨b.kind, b.startFrame, b.laterFrames⟩

/-- What a document says about its frames. -/
def ParsedReceipt.span (d : ParsedReceipt) : Span :=
  ⟨d.documentType, d.complete, d.frameIds, d.startOffset, d.endOffset⟩

/-- The assembler without contents. -/
def Assembler.shape (a : Assembler) : Shape where
  spans := a.documents.map ParsedReceipt.span
  active := a.active.map ReceiptBuilder.extent
  pending := a.pendingStart
  omitted := a.documentLimitReported

namespace ReceiptBuilder

variable (b : ReceiptBuilder) (frame : RCHFrame)

@[simp] theorem extent_kind : b.extent.kind = b.kind := rfl

@[simp] theorem extent_addFrame : (b.addFrame frame).extent = b.extent.addFrame frame := by
  have hlast : b.extent.lastFrame = b.lastFrame := rfl
  by_cases h : b.lastFrame.frameId = frame.frameId
  · rw [addFrame, if_pos h, Extent.addFrame, if_pos (hlast ▸ h)]
  · rw [addFrame, if_neg h, Extent.addFrame, if_neg (hlast ▸ h)]; rfl

@[simp] theorem extent_transition (target : AssemblyState) :
    (b.transition target frame).extent = b.extent := by
  unfold transition; split <;> rfl

@[simp] theorem extent_new (kind : DocKind) : (new kind frame).extent = ⟨kind, frame, []⟩ := by
  simp [new]; rfl

@[simp] theorem extent_addIssue (code : IssueCode) (detail : String) :
    (b.addIssue code detail frame).extent = b.extent := rfl

theorem finish_span (n : Nat) (complete : Bool) :
    (b.finish n complete).span = b.extent.span complete := by
  have h : ∀ c : ReceiptBuilder, c.extent = b.extent →
      (⟨c.kind, complete, c.frames.map (·.frameId), c.startFrame.streamOffset,
        c.lastFrame.endOffset⟩ : Span) = b.extent.span complete := by
    intro c hc
    rw [← hc]
    rfl
  refine h _ ?_
  rw [extent_transition]
  split <;> rfl

end ReceiptBuilder

namespace Assembler

variable (maxDocuments : Nat) (a : Assembler) (frame : RCHFrame)

theorem finishActive_shape (complete : Bool) :
    (a.finishActive maxDocuments complete).shape = a.shape.close maxDocuments complete := by
  unfold finishActive Shape.close
  cases ha : a.active with
  | none => simp [shape, ha]
  | some b =>
    simp only [shape, ha, Option.map_some, List.length_map]
    split
    · next hlt => simp [b.finish_span, Nat.not_le.mpr hlt]
    · next hlt =>
      have hle := Nat.not_lt.mp hlt
      split
      · next hrep => simp [hle, hrep]
      · simp [hle]

@[simp] theorem finishActive_pendingStart (complete : Bool) :
    (a.finishActive maxDocuments complete).pendingStart = a.pendingStart := by
  unfold finishActive
  split
  · rfl
  · split
    · rfl
    · split <;> rfl

theorem activeOf_some {kind : DocKind} {b : ReceiptBuilder} (h : a.activeOf kind = some b) :
    a.active = some b ∧ b.kind = kind := by
  obtain ⟨h1, h2⟩ := Option.filter_eq_some_iff.mp h
  exact ⟨h1, by simpa using h2⟩

theorem activeOf_none {kind : DocKind} (h : a.activeOf kind = none) :
    a.shape.active.map (·.kind) ≠ some kind := by
  unfold activeOf at h
  cases ha : a.active with
  | none => simp [shape, ha]
  | some b =>
    rw [ha] at h
    simpa [shape, ha, Option.filter_eq_none_iff] using h

theorem shape_of_active {kind : DocKind} {b : ReceiptBuilder} (h : a.activeOf kind = some b) :
    a.shape.active = some b.extent ∧ a.shape.active.map (·.kind) = some kind := by
  obtain ⟨h1, h2⟩ := a.activeOf_some h
  simp [shape, h1, h2]

theorem onControl_shape (dataText : Text) :
    (a.onControl maxDocuments frame dataText).shape =
      a.shape.step maxDocuments frame (.control dataText) := by
  unfold onControl
  cases h : a.activeOf .commerciale with
  | none => rw [Shape.step, if_neg (a.activeOf_none h)]; rfl
  | some b =>
    obtain ⟨h1, h2⟩ := a.shape_of_active h
    have htake : ∀ c : ReceiptBuilder, c.extent = b.extent.addFrame frame →
        { a with active := some c }.shape = a.shape.take frame := by
      intro c hc
      rw [Shape.take, h1, Option.map_some, ← hc]
      rfl
    rw [Shape.step, if_pos h2]
    simp only
    split
    · rw [finishActive_shape, htake _ (b.extent_addFrame frame)]
    · split
      · exact htake _ (by simp)
      · exact htake _ (by simp)

theorem onStart_shape :
    (a.onStart maxDocuments frame).shape = a.shape.step maxDocuments frame .start := by
  have h := a.finishActive_shape maxDocuments false
  rw [Shape.step]
  simp only [← h]
  simp [onStart, shape]

theorem onBoundary_shape :
    (a.onBoundary maxDocuments frame).shape = a.shape.step maxDocuments frame .boundary := by
  unfold onBoundary
  cases h : a.activeOf .gestionale with
  | none =>
    rw [Shape.step, if_neg (a.activeOf_none h), ← a.finishActive_shape maxDocuments false]
    simp [shape]
  | some b =>
    obtain ⟨h1, h2⟩ := a.shape_of_active h
    have htake : { a with active := some (b.addFrame frame) }.shape = a.shape.take frame := by
      rw [Shape.take, h1, Option.map_some, ← b.extent_addFrame]
      rfl
    rw [Shape.step, if_pos h2, ← htake, ← finishActive_shape]
    rfl

theorem onOther_shape : (a.onOther frame).shape = a.shape.take frame := by
  unfold onOther
  cases h : a.active with
  | none => simp [Shape.take, shape, h]
  | some b => simp [Shape.take, shape, h]

/-- A frame for a commercial document, with any contents. -/
theorem commercialFor_shape (detail : String) (c : ReceiptBuilder)
    (hc : c.extent = ((commercialFor maxDocuments a frame detail).2.addFrame frame).extent) :
    { (commercialFor maxDocuments a frame detail).1 with active := some c }.shape =
      a.shape.into maxDocuments frame .commerciale := by
  unfold commercialFor at hc ⊢
  cases h : a.activeOf .commerciale with
  | some b =>
    obtain ⟨h1, h2⟩ := a.shape_of_active h
    rw [h] at hc
    rw [Shape.into, if_pos h2, Shape.take, h1, Option.map_some, ← b.extent_addFrame, ← hc]
    rfl
  | none =>
    rw [h] at hc
    rw [Shape.into, if_neg (a.activeOf_none h), ← a.finishActive_shape maxDocuments false]
    have : c.extent = ⟨.commerciale, frame, []⟩ := by rw [hc]; simp
    rw [← this]
    rfl

/-- A frame for a management document, with any contents. -/
theorem managementFor_shape (c : ReceiptBuilder)
    (hc : c.extent = ((managementFor maxDocuments a frame).2.addFrame frame).extent) :
    { (managementFor maxDocuments a frame).1 with active := some c }.shape =
      a.shape.into maxDocuments frame .gestionale := by
  unfold managementFor at hc ⊢
  cases h : a.active with
  | none =>
    rw [h] at hc
    have hs : a.shape.active = none := by simp [shape, h]
    rw [Shape.into, if_neg (by simp [hs]), Shape.close, hs]
    have : c.extent = ⟨.gestionale, frame, []⟩ := by rw [hc]; simp
    rw [← this]
    rfl
  | some b =>
    have hs : a.shape.active = some b.extent := by simp [shape, h]
    cases hk : b.kind with
    | gestionale =>
      simp only [h, hk] at hc
      rw [Shape.into, if_pos (by simp [hs, hk]), Shape.take, hs, Option.map_some,
        ← b.extent_addFrame, ← hc]
      simp only [hk]
      rfl
    | commerciale =>
      simp only [h, hk] at hc
      rw [Shape.into, if_neg (by simp [hs, hk]), ← a.finishActive_shape maxDocuments false]
      have : c.extent = ⟨.gestionale, frame, []⟩ := by rw [hc]; simp
      rw [← this]
      simp only [hk]
      rfl

end Assembler

section
variable (maxDocuments : Nat) (budget : SemanticBudget)

/-- The frames do not depend on the budget, or on what a command says. -/
theorem stepCommand_shape (a : Assembler) (frame : RCHFrame) (c : Command) :
    ((stepCommand maxDocuments a frame c).run budget).1.shape =
      a.shape.step maxDocuments frame c := by
  cases c with
  | control dataText => exact a.onControl_shape maxDocuments frame dataText
  | start => exact a.onStart_shape maxDocuments frame
  | boundary => exact a.onBoundary_shape maxDocuments frame
  | line c => exact a.managementFor_shape maxDocuments frame _ rfl
  | item c => exact a.commercialFor_shape maxDocuments frame _ _ rfl
  | text c =>
    simp only [stepCommand]
    cases h : a.activeOf .commerciale with
    | none => exact a.onOther_shape frame
    | some b =>
      obtain ⟨h1, -⟩ := a.shape_of_active h
      rw [Shape.step, Shape.take, h1, Option.map_some, ← b.extent_addFrame]
      rfl
  | total c =>
    exact a.commercialFor_shape maxDocuments frame _ _ (ReceiptBuilder.extent_transition _ _ _)
  | display => rfl
  | unknown => exact a.onOther_shape frame

theorem parseStep_shape (a : Assembler) (frame : RCHFrame) :
    ((parseStep maxDocuments a frame).run budget).1.shape = a.shape.read maxDocuments frame := by
  rw [parseStep_eq, Shape.read]
  split
  · exact stepCommand_shape maxDocuments budget a frame _
  · rfl

theorem parseFrames_shape (a : Assembler) (frames : List RCHFrame) :
    ((parseFrames maxDocuments a frames).run budget).1.shape =
      frames.foldl (Shape.read maxDocuments) a.shape := by
  induction frames generalizing a budget with
  | nil => rfl
  | cons f fs ih =>
    rw [List.foldl_cons, ← parseStep_shape maxDocuments budget, parseFrames, List.foldlM_cons]
    exact ih ((parseStep maxDocuments a f).run budget).2 _

/-- What the documents of `_parse_documents` say about their frames. -/
theorem parseDocuments_spans (frames : List RCHFrame) :
    ((parseDocuments maxDocuments frames).run budget).1.1.map ParsedReceipt.span =
      ((frames.foldl (Shape.read maxDocuments) {}).close maxDocuments false).spans := by
  have h := parseFrames_shape maxDocuments budget {} frames
  have hc := Assembler.finishActive_shape maxDocuments
    ((parseFrames maxDocuments {} frames).run budget).1 false
  rw [h] at hc
  exact congrArg Shape.spans hc

end

end RchProxy
