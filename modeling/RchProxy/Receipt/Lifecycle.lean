import Mathlib.Data.List.Chain
import RchProxy.Lib.RegexRuns
import RchProxy.Receipt.Moves
import RchProxy.Receipt.Ownership

/-!
# The life of a document

When a document is complete, and the states it passes through. The state of a builder changes in five
places of the loop and the complete flag is passed separately; over the moves of the assembler, both
follow the frames (`parseDocuments_lifecycle`).
-/

namespace RchProxy

open Py Lib Lib.Spend

/-! ## Payloads in bytes -/

/-- The code point of a byte. -/
theorem toNat_ofNat_byte (x : UInt8) : (Char.ofNat x.toNat).toNat = x.toNat := by
  have hvalid : x.toNat.isValidChar := .inl (by have := x.toNat_lt; omega)
  rw [Char.ofNat, dif_pos hvalid]
  rfl

theorem latin1_injective : Function.Injective latin1 := by
  refine List.map_injective_iff.mpr fun a b h => UInt8.toNat_inj.mp ?_
  rw [← toNat_ofNat_byte a, ← toNat_ofNat_byte b]
  exact congrArg Char.toNat h

theorem isDecimal_byte (x : UInt8) : isDecimal (Char.ofNat x.toNat) = isDigit x := by
  rw [isDecimal, toNat_ofNat_byte]
  rfl

/-- `<</?`, or `<</?` and one digit. -/
def IsClosingData (data : Bytes) : Prop :=
  data = [0x3C, 0x3C, 0x2F, 0x3F] ∨ ∃ d, isDigit d = true ∧ data = [0x3C, 0x3C, 0x2F, 0x3F, d]

theorem isClosingControl_iff (data : Bytes) :
    isClosingControl (latin1 data) = true ↔ IsClosingData data := by
  have hfront : "<</?".toList = latin1 [0x3C, 0x3C, 0x2F, 0x3F] := by decide
  have hdigit : (Pattern.closingControl.fullMatch (latin1 data)).isSome = true ↔
      ∃ x, isDecimal x = true ∧ latin1 data = "<</?".toList ++ [x] := by
    rw [Regex.fullMatch, List.find?_isSome]
    constructor
    · rintro ⟨m, hm, hend⟩
      obtain ⟨t, ht, hm⟩ := Regex.mem_run_lit.mp hm
      obtain ⟨x, u, hx, hp, rfl⟩ := Regex.mem_run_one.mp hm
      obtain rfl : u = [] := List.isEmpty_iff.mp hend
      obtain rfl : t = [x] := hx
      exact ⟨x, hp, ht⟩
    · rintro ⟨x, hp, hx⟩
      exact ⟨_, Regex.mem_run_lit.mpr ⟨[x], hx, Regex.mem_run_one.mpr ⟨x, [], rfl, hp, rfl⟩⟩, rfl⟩
  rw [isClosingControl, Bool.or_eq_true, beq_iff_eq, hdigit, hfront, IsClosingData]
  refine or_congr latin1_injective.eq_iff ⟨?_, ?_⟩
  · rintro ⟨x, hp, hx⟩
    obtain ⟨front, last, rfl, hf, hl⟩ := List.map_eq_append_iff.mp hx
    obtain rfl : front = [0x3C, 0x3C, 0x2F, 0x3F] := latin1_injective hf
    obtain ⟨d, rfl, hd⟩ := List.map_eq_singleton_iff.mp hl
    exact ⟨d, by rw [← isDecimal_byte, hd]; exact hp, rfl⟩
  · rintro ⟨d, hd, rfl⟩
    exact ⟨Char.ofNat d.toNat, (isDecimal_byte d).trans hd, rfl⟩

theorem dataText_eq_iff (f : RCHFrame) : f.dataText = "=o".toList ↔ f.data = [0x3D, 0x6F] := by
  have hbytes : "=o".toList = latin1 [0x3D, 0x6F] := by decide
  rw [hbytes, RCHFrame.dataText, latin1_injective.eq_iff]

/-! ## The states of a document -/

/-- The state in which a document of a kind opens. -/
def DocKind.body : DocKind → AssemblyState
  | .commerciale => .commercialBody
  | .gestionale => .managementBody

/-- A state between the opening and the end: a payment, or a postlude after a payment, both in
commercial documents. -/
def StateTransition.Inner (kind : DocKind) (t : StateTransition) : Prop :=
  kind = .commerciale ∧
    (t.target = .commercialPayment ∨ t.target = .commercialPostlude ∧ t.source = .commercialPayment)

/-- Each transition starts where the one before it ends. -/
def Chained (ts : List StateTransition) : Prop := ts.IsChain fun t t' => t'.source = t.target

/-- The transitions of a document under assembly. -/
structure ReceiptBuilder.Lives (b : ReceiptBuilder) : Prop where
  path : ∃ first inner, b.stateTransitions = first :: inner ∧ first.source = .idle ∧
    first.target = b.kind.body ∧ ∀ t ∈ inner, t.Inner b.kind
  chained : Chained b.stateTransitions
  state : b.stateTransitions.getLast?.map (·.target) = some b.state
  ongoing : b.state ≠ .complete ∧ b.state ≠ .incomplete

/-- The transitions of a finished document: one chain that starts at `idle`, opens the document and
ends once, as the complete flag says. -/
def ParsedReceipt.Lived (d : ParsedReceipt) : Prop :=
  ∃ first inner last, d.model.metadata.documentStateTransitions = first :: inner ++ [last] ∧
    Chained (first :: inner ++ [last]) ∧ first.source = .idle ∧ first.target = d.documentType.body ∧
    (∀ t ∈ inner, t.Inner d.documentType) ∧
    last.target = if d.complete then .complete else .incomplete

namespace ReceiptBuilder

variable {b b' : ReceiptBuilder}

/-- What the states do not depend on. -/
theorem Lives.congr (h : b.Lives) (hkind : b'.kind = b.kind) (hstate : b'.state = b.state)
    (hts : b'.stateTransitions = b.stateTransitions) : b'.Lives :=
  ⟨by rw [hts, hkind]; exact h.path, by rw [hts]; exact h.chained, by rw [hts, hstate]; exact h.state,
    by rw [hstate]; exact h.ongoing⟩

/-- A transition to another state is behind the others. -/
theorem transition_of_ne {target : AssemblyState} (frame : RCHFrame) (hne : b.state ≠ target) :
    (b.transition target frame).stateTransitions =
      b.stateTransitions ++ [⟨b.state, target, frame.frameId, frame.streamOffset⟩] ∧
    (b.transition target frame).state = target := by
  rw [transition, if_neg hne]
  exact ⟨rfl, rfl⟩

theorem Lives.chained_concat (h : b.Lives) (t : StateTransition) (ht : t.source = b.state) :
    Chained (b.stateTransitions ++ [t]) := by
  refine List.isChain_append.mpr ⟨h.chained, List.isChain_singleton _, fun s hs t' ht' => ?_⟩
  obtain rfl : t = t' := by simpa using ht'
  have hstate := h.state
  rw [hs] at hstate
  rw [ht]
  exact (Option.some.inj hstate).symm

/-- A payment or a postlude. -/
theorem Lives.transition (h : b.Lives) {target : AssemblyState} (frame : RCHFrame)
    (hinner : (⟨b.state, target, frame.frameId, frame.streamOffset⟩ : StateTransition).Inner b.kind)
    (htarget : target = .commercialPayment ∨ target = .commercialPostlude) :
    (b.transition target frame).Lives := by
  by_cases hsame : b.state = target
  · rw [ReceiptBuilder.transition, if_pos hsame]
    exact h
  · obtain ⟨hts, hstate⟩ := transition_of_ne frame hsame
    obtain ⟨first, inner, hpath, hsource, hfirst, hall⟩ := h.path
    have hkind : (b.transition target frame).kind = b.kind := transition_kind b frame target
    refine ⟨⟨first, inner ++ [⟨b.state, target, frame.frameId, frame.streamOffset⟩], ?_, hsource, ?_,
      ?_⟩, ?_, ?_, ?_⟩
    · rw [hts, hpath, List.cons_append]
    · rw [hkind]; exact hfirst
    · intro t ht
      rw [hkind]
      rcases List.mem_append.mp ht with ht | ht
      · exact hall t ht
      · rw [List.mem_singleton.mp ht]; exact hinner
    · rw [hts]
      exact h.chained_concat _ rfl
    · rw [hts, hstate, List.getLast?_concat]
      rfl
    · rw [hstate]
      rcases htarget with rfl | rfl <;> decide

theorem new_lives (kind : DocKind) (frame : RCHFrame) : (new kind frame).Lives := by
  cases kind with
  | commerciale =>
    exact ⟨⟨_, [], rfl, rfl, rfl, nofun⟩, List.isChain_singleton _, rfl, nofun, nofun⟩
  | gestionale =>
    exact ⟨⟨_, [], rfl, rfl, rfl, nofun⟩, List.isChain_singleton _, rfl, nofun, nofun⟩

theorem Lives.addFrame (h : b.Lives) (frame : RCHFrame) : (b.addFrame frame).Lives := by
  unfold ReceiptBuilder.addFrame
  split
  · exact h
  · exact h.congr rfl rfl rfl

/-- A frame that a document takes keeps its states in order. -/
theorem Takes.lives {frame : RCHFrame} (h : b.Takes frame b') (hb : b.Lives) : b'.Lives := by
  have hadd := hb.addFrame frame
  cases h with
  | fill model seen => exact hadd.congr rfl rfl rfl
  | pay model _ hkind =>
    have hlives : Lives { b.addFrame frame with model := model } := hadd.congr rfl rfl rfl
    exact hlives.transition frame ⟨(addFrame_kind b frame).trans hkind, .inl rfl⟩ (.inl rfl)
  | control _ hkind hstate =>
    refine hadd.transition frame ⟨(addFrame_kind b frame).trans hkind, .inr ⟨rfl, ?_⟩⟩ (.inr rfl)
    unfold ReceiptBuilder.addFrame
    split <;> exact hstate

/-- The last transition of a document. -/
theorem Lives.finish_transitions (h : b.Lives) (n : Nat) (complete : Bool) :
    (b.finish n complete).model.metadata.documentStateTransitions = b.stateTransitions ++
      [⟨b.state, if complete then .complete else .incomplete, b.lastFrame.frameId,
        b.lastFrame.streamOffset⟩] := by
  cases complete with
  | true => exact (transition_of_ne b.lastFrame h.ongoing.1).1
  | false =>
    have hlast : ∀ c : ReceiptBuilder, c.state = b.state → c.stateTransitions = b.stateTransitions →
        (c.transition .incomplete b.lastFrame).stateTransitions = b.stateTransitions ++
          [⟨b.state, .incomplete, b.lastFrame.frameId, b.lastFrame.streamOffset⟩] := by
      intro c hstate hts
      rw [(transition_of_ne b.lastFrame (hstate ▸ h.ongoing.2)).1, hts, hstate]
    exact hlast _ rfl rfl

theorem Lives.finish (h : b.Lives) (n : Nat) (complete : Bool) : (b.finish n complete).Lived := by
  obtain ⟨first, inner, hpath, hsource, hfirst, hall⟩ := h.path
  obtain ⟨_, _, hkind, hcomplete, -⟩ := b.finish_eq n complete
  refine ⟨first, inner, ⟨b.state, if complete then .complete else .incomplete, b.lastFrame.frameId,
    b.lastFrame.streamOffset⟩, ?_, ?_, hsource, ?_, ?_, ?_⟩
  · rw [h.finish_transitions, hpath]
  · rw [← hpath]
    exact h.chained_concat _ rfl
  · rw [hkind]; exact hfirst
  · rw [hkind]; exact hall
  · rw [hcomplete]

end ReceiptBuilder

theorem Opening.lives {pending : Option RCHFrame} {frame : RCHFrame} {b : ReceiptBuilder}
    (h : Opening pending frame b) : b.Lives := by
  cases h with
  | start => exact (ReceiptBuilder.new_lives _ _).addFrame frame
  | boundary => exact ReceiptBuilder.new_lives _ _
  | fill kind issues _ htakes =>
    exact htakes.lives ((ReceiptBuilder.new_lives kind frame).congr rfl rfl rfl)

/-! ## The frames of a document -/

section
variable {pending : Option RCHFrame} {frame : RCHFrame} {b b' : ReceiptBuilder}

theorem ReceiptBuilder.Takes.not_closes (h : b.Takes frame b') : ¬ Closes b.kind frame := by
  cases h <;> assumption

theorem ReceiptBuilder.Takes.extent (h : b.Takes frame b') :
    b'.extent = b.extent.addFrame frame := by
  cases h with
  | fill model seen => exact b.extent_addFrame frame
  | pay model => exact (extent_transition _ _ _).trans (b.extent_addFrame frame)
  | control => exact (extent_transition _ _ _).trans (b.extent_addFrame frame)

/-- The frames with which a document opens. -/
theorem Opening.extent (h : Opening pending frame b) :
    (frame.dataText = "=K".toList ∧
      b.extent = Extent.addFrame ⟨.commerciale, pending.getD frame, []⟩ frame) ∨
    (frame.dataText = "=o".toList ∧ b.extent = ⟨.gestionale, frame, []⟩) ∨
    ∃ kind, ¬ Closes kind frame ∧ b.extent = ⟨kind, frame, []⟩ := by
  cases h with
  | start hdata => exact .inl ⟨hdata, by simp⟩
  | boundary hdata => exact .inr (.inl ⟨hdata, ReceiptBuilder.extent_new frame .gestionale⟩)
  | fill kind issues _ htakes =>
    have hkind : ({ ReceiptBuilder.new kind frame with issues := issues } : ReceiptBuilder).kind =
      kind := ReceiptBuilder.new_kind frame kind
    refine .inr (.inr ⟨kind, ?_, ?_⟩)
    · rw [← hkind]; exact htakes.not_closes
    · have hnew : ({ ReceiptBuilder.new kind frame with issues := issues } : ReceiptBuilder).extent =
        ⟨kind, frame, []⟩ := ReceiptBuilder.extent_new frame kind
      rw [htakes.extent, hnew, Extent.addFrame_self]

end

/-- The last frame of a document ends it. -/
def EndsDocument (kind : DocKind) (frameCount : Nat) (data : Bytes) : Prop :=
  match kind with
  | .commerciale => IsClosingData data
  | .gestionale => 2 ≤ frameCount ∧ data = [0x3D, 0x6F]

theorem closes_commerciale_iff (f : RCHFrame) : Closes .commerciale f ↔ IsClosingData f.data :=
  isClosingControl_iff f.data

/-- A document under assembly: its frames were read, and none of them ends it. -/
structure Extent.Open (frames rest : List RCHFrame) (e : Extent) : Prop where
  read : ∀ f ∈ e.frames, f.Read frames rest
  start : e.kind = .commerciale → ¬ Closes .commerciale e.startFrame
  later : ∀ f ∈ e.laterFrames, ¬ Closes e.kind f

namespace Extent

variable {frames rest : List RCHFrame} {frame : RCHFrame} {e : Extent}

/-- A frame that comes later is one more. -/
theorem addFrame_of_read (h : ∀ f ∈ e.frames, f.Read frames (frame :: rest)) :
    e.addFrame frame = { e with laterFrames := e.laterFrames ++ [frame] } := by
  have hlast := (h e.lastFrame e.lastFrame_mem).before frame List.mem_cons_self
  rw [addFrame, if_neg (Nat.ne_of_lt hlast.frameId)]

/-- With later frames, the last one is among them. -/
theorem lastFrame_later (h : e.laterFrames ≠ []) : e.lastFrame ∈ e.laterFrames := by
  rw [lastFrame, List.getLastD_eq_getLast?, List.getLast?_eq_some_getLast h]
  exact List.getLast_mem h

/-- No frame of a document under assembly ends it. -/
theorem Open.not_ends (h : e.Open frames rest) :
    ¬ EndsDocument e.kind e.frames.length e.lastFrame.data := by
  by_cases hlater : e.laterFrames = []
  · have hlast : e.lastFrame = e.startFrame := by rw [lastFrame, hlater]; rfl
    rw [hlast]
    cases hk : e.kind with
    | commerciale => exact fun hends => h.start hk ((closes_commerciale_iff _).mpr hends)
    | gestionale =>
      rintro ⟨htwo, -⟩
      rw [Extent.frames, hlater] at htwo
      exact absurd htwo (by simp)
  · have hopen := h.later _ (lastFrame_later hlater)
    revert hopen
    cases e.kind with
    | commerciale => exact mt (closes_commerciale_iff _).mpr
    | gestionale => exact fun hopen hends => hopen ((dataText_eq_iff _).mpr hends.2)

theorem Open.skip (h : e.Open frames (frame :: rest)) : e.Open frames rest :=
  ⟨fun f hf => (h.read f hf).skip, h.start, h.later⟩

theorem Open.single (hframe : frame.Read frames rest) {kind : DocKind}
    (hopen : kind = .commerciale → ¬ Closes .commerciale frame) : Open frames rest ⟨kind, frame, []⟩ where
  read f hf := by rw [List.mem_singleton.mp hf]; exact hframe
  start := hopen
  later := nofun

theorem Open.take (h : e.Open frames (frame :: rest)) (hframe : frame.Read frames rest)
    (hopen : ¬ Closes e.kind frame) : (e.addFrame frame).Open frames rest := by
  rw [addFrame_of_read h.read]
  refine ⟨fun f hf => ?_, h.start, fun f hf => ?_⟩
  · rw [Extent.frames, ← List.cons_append] at hf
    rcases List.mem_append.mp hf with hf | hf
    · exact (h.read f hf).skip
    · rw [List.mem_singleton.mp hf]; exact hframe
  · rcases List.mem_append.mp hf with hf | hf
    · exact h.later f hf
    · rw [List.mem_singleton.mp hf]; exact hopen

end Extent

/-- A document is complete if and only if its last frame ends it. -/
def ParsedReceipt.EndsRight (frames : List RCHFrame) (d : ParsedReceipt) : Prop :=
  ∃ f ∈ frames, d.frameIds.getLast? = some f.frameId ∧
    (d.complete = true ↔ EndsDocument d.documentType d.frameIds.length f.data)

/-- What a finished document says about its frames. -/
theorem endsRight_of_span {frames : List RCHFrame} {d : ParsedReceipt} {e : Extent} {complete : Bool}
    (hspan : d.span = e.span complete) (hlast : e.lastFrame ∈ frames)
    (hends : complete = true ↔ EndsDocument e.kind e.frames.length e.lastFrame.data) :
    d.EndsRight frames := by
  have hids : d.frameIds = e.frames.map (·.frameId) := congrArg Span.frameIds hspan
  have hkind : d.documentType = e.kind := congrArg Span.kind hspan
  have hcomplete : d.complete = complete := congrArg Span.complete hspan
  refine ⟨e.lastFrame, hlast, ?_, ?_⟩
  · rw [hids, List.getLast?_map, Extent.frames, List.getLast?_cons, Option.map_some,
      Extent.lastFrame, List.getLastD_eq_getLast?]
  · rw [hcomplete, hkind, hids, List.length_map]
    exact hends

/-- The life of a document follows its frames. -/
theorem lifecycle_rule (frames : List RCHFrame) : DocumentRule frames
    (fun rest b => b.Lives ∧ b.extent.Open frames rest) (fun d => d.Lived ∧ d.EndsRight frames) where
  skip frame rest b h := ⟨h.1, h.2.skip⟩
  opens pending frame rest b hpending hframe h := by
    refine ⟨h.lives, ?_⟩
    have hstart : frame.dataText = "=K".toList → ¬ Closes .commerciale frame := by
      intro hdata hcloses
      rw [Closes, hdata] at hcloses
      exact absurd (startsWith_of_closing hcloses) (by decide)
    rcases h.extent with ⟨hdata, heq⟩ | ⟨hdata, heq⟩ | ⟨kind, hopen, heq⟩
    · rw [heq]
      cases hp : pending with
      | none =>
        rw [Option.getD_none, Extent.addFrame_self]
        exact .single hframe fun _ => hstart hdata
      | some p =>
        obtain ⟨hread, hpdata⟩ := hpending p hp
        refine Extent.Open.take (.single hread fun _ hcloses => ?_) hframe (hstart hdata)
        -- `<</?s` is no digit
        rw [Closes, hpdata] at hcloses
        exact absurd hcloses (by decide +kernel)
    · rw [heq]
      exact .single hframe (by rintro ⟨⟩)
    · rw [heq]
      exact .single hframe fun hk => hk ▸ hopen
  takes frame rest b b' hframe h htakes := by
    refine ⟨htakes.lives h.1, ?_⟩
    rw [htakes.extent]
    exact h.2.take hframe htakes.not_closes
  closes frame rest b n hframe h hcloses _ := by
    refine ⟨(h.1.addFrame frame).finish n true, endsRight_of_span (ReceiptBuilder.finish_span _ n true)
      ?_ ⟨fun _ => ?_, fun _ => rfl⟩⟩
    all_goals rw [b.extent_addFrame, Extent.addFrame_of_read h.2.read]
    · simpa [Extent.lastFrame] using hframe.mem
    · change EndsDocument b.kind _ (List.getLastD (b.laterFrames ++ [frame]) b.startFrame).data
      rw [List.getLastD_concat]
      revert hcloses
      cases b.kind with
      | commerciale => exact (closes_commerciale_iff frame).mp
      | gestionale =>
        intro hdata
        exact ⟨by simp [Extent.frames], (dataText_eq_iff frame).mp hdata⟩
  ends rest b n h := by
    refine ⟨h.1.finish n false, endsRight_of_span (b.finish_span n false)
      (h.2.read _ b.extent.lastFrame_mem).mem ⟨by rintro ⟨⟩, fun hends => absurd hends h.2.not_ends⟩⟩

/-- **The lifecycle of documents**, of whatever framing of the request. -/
theorem parseDocuments_lifecycle (lim : FramerLimits) (retain : Bool) (chunks : List Bytes)
    (maxDocuments : Nat) (budget : SemanticBudget) :
    ∃ r, frameChunks lim retain chunks = .ok r ∧
      ∀ d ∈ ((parseDocuments maxDocuments r.frames).run budget).1.1,
        d.EndsRight r.frames ∧ d.Lived := by
  obtain ⟨f, hf, -⟩ := Framer.feedAll_reached lim retain chunks
  have hrun : frameChunks lim retain chunks = .ok (f.finish lim).1 := by rw [frameChunks, hf]; rfl
  refine ⟨_, hrun, fun d hd => ?_⟩
  exact ((lifecycle_rule _).parseDocuments (frameChunks_frames_before hrun) maxDocuments budget d
    hd).symm

end RchProxy
