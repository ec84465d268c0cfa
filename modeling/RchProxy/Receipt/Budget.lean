import RchProxy.Receipt.Limits
import RchProxy.Receipt.Lifecycle

/-!
# The semantic budget

One counter is charged from eight places. Every list entry of a document was paid for, also where the
document is dropped later (`Pays`), a commercial command writes all of its records or none (`Covers`),
and a run that refuses nothing is the run of every larger budget (`semantic_budget`).
-/

namespace RchProxy

open Py Lib Lib.Spend

/-! ## What is written is paid -/

/-- The number of entries in the lists of a document; `header` is always empty. -/
def DocumentModel.weight (model : DocumentModel) : Nat :=
  model.lines.length + model.footer.length + model.items.length + model.quantities.length +
    model.descriptions.length + model.amounts.length + model.taxes.length + model.payments.length +
    model.totals.length

/-- The entries of some documents. -/
def totalWeight (ds : List ParsedReceipt) : Nat := (ds.map (·.model.weight)).sum

theorem totalWeight_cons (d : ParsedReceipt) (ds : List ParsedReceipt) :
    totalWeight (d :: ds) = d.model.weight + totalWeight ds := List.sum_cons

theorem totalWeight_concat (ds : List ParsedReceipt) (d : ParsedReceipt) :
    totalWeight (ds ++ [d]) = totalWeight ds + d.model.weight := by
  simp [totalWeight]

section
variable (model : DocumentModel) (frame : RCHFrame)

theorem amountFieldsLoop_pays (ms : List Match) :
    Pays (amountFieldsLoop frame ms) fun amounts n => n = amounts.length := by
  induction ms with
  | nil => exact .pure rfl
  | cons m ms ih =>
    rw [amountFieldsLoop]
    refine .unlessFull ?_ rfl
    cases parsePrintedAmount (groupText m .amount) with
    | none => exact ih
    | some cents =>
      refine .reserve_ite (ih.bind fun rest n hn => .pure ?_) ih
      rw [hn, List.length_cons]
      omega

theorem managementMarks_weight (stripped : Text) :
    (managementMarks model frame stripped).weight = model.weight := by
  unfold managementMarks
  cases Pattern.reference.search stripped <;> cases Pattern.order.matchStart stripped <;>
    simp only <;> split <;> rfl

theorem managementFields_pays (seen : Bool) (stripped : Text) (amounts : List Amount) :
    Pays (managementFields model seen frame stripped amounts) fun r n =>
      r.1.weight ≤ model.weight + n := by
  have hkeep : ∀ {m : DocumentModel} {b : Bool}, m.weight = model.weight →
      Pays (pure (m, b) : Semantic (DocumentModel × Bool)) fun r n =>
        r.1.weight ≤ model.weight + n := fun h => .pure (Nat.le_of_eq h)
  -- an entry more in one of the lists
  have hadd : ∀ {m : DocumentModel} {b : Bool} {k : Nat}, m.weight = model.weight + k →
      Pays (pure (m, b) : Semantic (DocumentModel × Bool)) fun r n =>
        r.1.weight ≤ model.weight + (k + n) := fun h => .pure (Nat.le_of_eq h)
  unfold managementFields
  simp only
  split
  · exact hkeep rfl
  split
  · refine .reserve_ite (hadd ?_) (hkeep rfl)
    simp only [DocumentModel.weight, List.length_append, List.length_singleton]
    omega
  split
  · refine .reserve_ite (hadd ?_) (hkeep rfl)
    simp only [DocumentModel.weight, List.length_append, List.length_singleton]
    omega
  split
  · refine .reserve_ite (hadd ?_) (hkeep rfl)
    simp only [DocumentModel.weight, List.length_append, List.length_singleton]
    omega
  · split
    · exact hkeep rfl
    · split
      · exact hkeep rfl
      · refine .reserve_ite (hadd ?_) (hkeep rfl)
        simp only [DocumentModel.weight, List.length_append, List.length_singleton]
        omega

theorem applyManagementLine_pays (seen : Bool) (c : TextCommand) :
    Pays (applyManagementLine model seen frame c) fun r n => r.1.weight ≤ model.weight + n := by
  refine (Pays.reserve 1 _).bind fun granted n hn =>
    (amountFieldsLoop_pays frame _).bind fun amounts k hk => ?_
  refine (managementFields_pays _ _ _ _ _).mono fun r j hr => Nat.le_trans hr ?_
  rw [managementMarks_weight]
  subst hn hk
  cases granted <;> simp [DocumentModel.weight] <;> omega

theorem applyCommercialItem_pays (c : ItemCommand) :
    Pays (applyCommercialItem model frame c) fun m n => m.weight ≤ model.weight + n := by
  refine .reserve_ite (.pure ?_) (.pure (Nat.le_refl _))
  simp only [DocumentModel.weight, List.length_append, List.length_singleton]
  cases c.quantity <;> simp <;> omega

theorem applyCommercialTotal_pays (c : TotalCommand) :
    Pays (applyCommercialTotal model frame c) fun m n => m.weight ≤ model.weight + n := by
  refine (Pays.reserve 5 _).bind fun granted n hn => .pure ?_
  subst hn
  cases granted with
  | false => exact Nat.le_refl _
  | true =>
    simp only [DocumentModel.weight, if_true, List.length_append, List.length_cons, List.length_nil]
    omega

theorem applyCommercialText_pays (c : TextCommand) :
    Pays (applyCommercialText model frame c) fun m n => m.weight ≤ model.weight + n := by
  refine (Pays.reserve 1 _).bind fun granted n hn => ?_
  subst hn
  have hgranted : ∀ line : DocumentLine,
      (if granted then { model with lines := model.lines ++ [line] } else model).weight ≤
        model.weight + (if granted then 1 else 0) := by
    intro line
    cases granted with
    | false => exact Nat.le_refl _
    | true =>
      simp only [DocumentModel.weight, if_true, List.length_append, List.length_singleton]
      omega
  cases Pattern.order.matchStart c.text with
  | none => exact .pure (hgranted _)
  | some m => exact .pure (hgranted _)

end

/-! ## The assembler pays -/

theorem ReceiptBuilder.finish_weight (b : ReceiptBuilder) (n : Nat) (complete : Bool) :
    (b.finish n complete).model.weight = b.model.weight := by
  obtain ⟨_, _, -, -, hmodel⟩ := b.finish_eq n complete
  rw [hmodel]
  rfl

namespace Assembler

/-- The entries of the documents of an assembler. -/
def weight (a : Assembler) : Nat :=
  totalWeight a.documents + (a.active.map (·.model.weight)).getD 0

variable {maxDocuments : Nat} {a a' : Assembler} {frame : RCHFrame} {b : ReceiptBuilder}

theorem weight_active {pending : Option RCHFrame} :
    ({ a with active := some b, pendingStart := pending } : Assembler).weight =
      totalWeight a.documents + b.model.weight := rfl

theorem weight_of_active (h : a.active = some b) :
    a.weight = totalWeight a.documents + b.model.weight := by
  rw [weight, h]
  rfl

/-- A document that ends is kept as it is, or dropped. -/
theorem finishActive_weight (maxDocuments : Nat) (complete : Bool) (a : Assembler) :
    totalWeight (a.finishActive maxDocuments complete).documents ≤ a.weight := by
  unfold finishActive
  cases h : a.active with
  | none => exact Nat.le_add_right _ _
  | some b =>
    rw [weight_of_active h]
    dsimp only
    split
    · rw [totalWeight_concat, b.finish_weight]
    split
    · exact Nat.le_add_right _ _
    · exact Nat.le_add_right _ _

/-- A document in its place pays for what it takes. -/
theorem Place.weight (h : a.Place maxDocuments frame a' b) {b' : ReceiptBuilder} {n : Nat}
    (hb : b'.model.weight ≤ b.model.weight + n) :
    ({ a' with active := some b' } : Assembler).weight ≤ a.weight + n := by
  change totalWeight a'.documents + b'.model.weight ≤ a.weight + n
  cases h with
  | active _ h =>
    rw [weight_of_active h]
    omega
  | opened kind issues =>
    have hnew : (ReceiptBuilder.new kind frame).model.weight = 0 := by
      rw [ReceiptBuilder.new_model]
      rfl
    have := a.finishActive_weight maxDocuments false
    change b'.model.weight ≤ (ReceiptBuilder.new kind frame).model.weight + n at hb
    omega

end Assembler

section
variable {maxDocuments : Nat} {a a' : Assembler} {frame : RCHFrame}

/-- The moves that reserve nothing add nothing. -/
theorem weight_setActive {pending : Option RCHFrame} {b b' : ReceiptBuilder} (h : a.active = some b)
    (hb : b'.model = b.model) :
    ({ a with active := some b', pendingStart := pending } : Assembler).weight ≤ a.weight := by
  rw [Assembler.weight_active, Assembler.weight_of_active h, hb]

theorem onControl_weight (dataText : Text) :
    (a.onControl maxDocuments frame dataText).weight ≤ a.weight := by
  unfold Assembler.onControl
  cases h : a.activeOf .commerciale with
  | none => exact Nat.le_refl _
  | some b =>
    have hactive := (a.activeOf_some h).1
    have hset : ({ a with active := some (b.addFrame frame) } : Assembler).weight ≤ a.weight :=
      weight_setActive hactive (by simp)
    dsimp only
    split
    · refine Nat.le_trans ?_ hset
      rw [Assembler.weight, Assembler.finishActive_active]
      exact Assembler.finishActive_weight maxDocuments true _
    split
    · exact weight_setActive hactive (by simp)
    · exact hset

theorem opened_weight {b : ReceiptBuilder} (hb : b.model.weight = 0) (pending : Option RCHFrame) :
    ({ a.finishActive maxDocuments false with active := some b, pendingStart := pending } :
      Assembler).weight ≤ a.weight := by
  rw [Assembler.weight_active, hb]
  exact a.finishActive_weight maxDocuments false

theorem onBoundary_weight : (a.onBoundary maxDocuments frame).weight ≤ a.weight := by
  unfold Assembler.onBoundary
  cases h : a.activeOf .gestionale with
  | none => exact opened_weight (by rw [ReceiptBuilder.new_model]; rfl) none
  | some b =>
    have hset : ({ a with active := some (b.addFrame frame) } : Assembler).weight ≤ a.weight :=
      weight_setActive (a.activeOf_some h).1 (by simp)
    refine Nat.le_trans ?_ hset
    change totalWeight _ + _ ≤ _
    rw [Assembler.finishActive_active]
    exact Assembler.finishActive_weight maxDocuments true _

theorem onOther_weight : (a.onOther frame).weight ≤ a.weight := by
  unfold Assembler.onOther
  cases h : a.active with
  | none => exact Nat.le_refl _
  | some b => exact weight_setActive h (by simp)

/-- A step adds no more than it spends. -/
theorem stepCommand_pays (maxDocuments : Nat) (a : Assembler) (frame : RCHFrame) (c : Command) :
    Pays (stepCommand maxDocuments a frame c) fun a' n => a'.weight ≤ a.weight + n := by
  cases c with
  | control dataText => exact .pure (onControl_weight dataText)
  | start =>
    refine .pure (opened_weight ?_ none)
    rw [ReceiptBuilder.addFrame_model, ReceiptBuilder.new_model]
    rfl
  | boundary => exact .pure onBoundary_weight
  | line c =>
    obtain ⟨hplace, -⟩ := Assembler.managementFor_place maxDocuments a frame
    refine (applyManagementLine_pays _ _ _ _).bind fun r n hr => .pure (hplace.weight ?_)
    rwa [ReceiptBuilder.addFrame_model] at hr
  | item c =>
    obtain ⟨hplace, -⟩ := Assembler.commercialFor_place maxDocuments a frame
      "item command observed without a preceding inferred =K start command"
    refine (applyCommercialItem_pays _ _ _).bind fun r n hr => .pure (hplace.weight ?_)
    rwa [ReceiptBuilder.addFrame_model] at hr
  | text c =>
    simp only [stepCommand]
    cases h : a.activeOf .commerciale with
    | none => exact .pure onOther_weight
    | some b =>
      have hplace : a.Place maxDocuments frame a b := .active b (a.activeOf_some h).1
      refine (applyCommercialText_pays _ _ _).bind fun r n hr => .pure (hplace.weight ?_)
      rwa [ReceiptBuilder.addFrame_model] at hr
  | total c =>
    obtain ⟨hplace, -⟩ := Assembler.commercialFor_place maxDocuments a frame
      "total command observed without a preceding inferred =K start command"
    refine (applyCommercialTotal_pays _ _ _).bind fun r n hr => .pure (hplace.weight ?_)
    rwa [ReceiptBuilder.transition_model, ReceiptBuilder.addFrame_model] at *
  | display => exact .pure (Nat.le_refl _)
  | unknown => exact .pure onOther_weight

theorem parseFrames_pays (maxDocuments : Nat) (a : Assembler) (frames : List RCHFrame) :
    Pays (parseFrames maxDocuments a frames) fun a' n => a'.weight ≤ a.weight + n := by
  have hstart : a.weight ≤ a.weight + 0 := Nat.le_refl _
  refine (Pays.foldlM (fun a' n => a'.weight ≤ a.weight + n) (fun a' frame n h => ?_) frames
    hstart).mono fun a' n h => by rwa [Nat.zero_add] at h
  rw [parseStep_eq]
  split
  · exact (stepCommand_pays maxDocuments a' frame _).mono fun a'' k hk => by omega
  · exact .pure h

theorem parseDocuments_pays (maxDocuments : Nat) (frames : List RCHFrame) :
    Pays (parseDocuments maxDocuments frames) fun r n => totalWeight r.1 ≤ n := by
  refine (parseFrames_pays maxDocuments {} frames).bind fun a n h => .pure ?_
  have hzero : ({} : Assembler).weight = 0 := rfl
  have hfinish := a.finishActive_weight maxDocuments false
  dsimp only
  omega

end

/-! ## Counters pay -/

section
variable (correlations : List RequestResponseCorrelation) (request response : FramingResult)

theorem attachResponseCounter_pays (d : ParsedReceipt) :
    Pays (attachResponseCounter correlations request response d) fun d' n =>
      d'.model.weight ≤ d.model.weight + n := by
  unfold attachResponseCounter
  split
  · exact .pure (Nat.le_refl _)
  split
  · exact .pure (Nat.le_refl _)
  · refine (Pays.reserve 4 _).bind fun granted n hn => .pure ?_
    subst hn
    cases granted with
    | false => exact Nat.le_refl _
    | true =>
      -- the number counts as two entries more than the two lines of the footer
      simp only [if_true, DocumentModel.weight, DocumentModel.attachCounter, List.length_append,
        List.length_cons, List.length_nil]
      omega

theorem attachResponseCounters_pays (ds : List ParsedReceipt) :
    Pays (attachResponseCounters correlations request response ds) fun ds' n =>
      totalWeight ds' ≤ totalWeight ds + n := by
  induction ds with
  | nil => exact .pure (Nat.le_refl _)
  | cons d ds ih =>
    rw [attachResponseCounters_cons]
    refine (attachResponseCounter_pays correlations request response d).bind fun d' n hd =>
      ih.bind fun ds' k hds => .pure ?_
    rw [totalWeight_cons, totalWeight_cons]
    omega

end

theorem reconstruct_pays (lim : ParserLimits) (request response : FramingResult) :
    Pays (reconstruct lim request response) fun r n => totalWeight r.1 ≤ n := by
  refine (parseDocuments_pays lim.maxDocuments request.frames).bind fun r n hr =>
    (attachResponseCounters_pays _ request response r.1).bind fun ds k hds => .pure ?_
  have hassign : totalWeight (assignDocumentSubtypes [] ds) = totalWeight ds :=
    congrArg List.sum (assignDocumentSubtypes_map (fun _ _ _ _ => rfl) [] ds)
  dsimp only
  omega

/-! ## All of a command, or none of it -/

/-- The records of some frames of a document: of each frame all or none. A management document has no
item and no total command. -/
def Covered (kind : DocKind) (frames : List RCHFrame) (entries : Entries) : Prop :=
  match kind with
  | .commerciale => ∃ owned : List (RCHFrame × Bool), owned.map Prod.fst = frames ∧
      entries = Entries.concat (owned.map fun p => p.1.granted p.2)
  | .gestionale => ∀ f ∈ frames, f.charges = false

theorem Covered.nil (kind : DocKind) : Covered kind [] {} := by
  cases kind with
  | commerciale => exact ⟨[], rfl, rfl⟩
  | gestionale => exact nofun

/-- One frame more. -/
theorem Covered.concat {kind : DocKind} {frames : List RCHFrame} {entries entries' : Entries}
    {frame : RCHFrame} (h : Covered kind frames entries)
    (hentries : kind = .commerciale → ∃ granted, entries' = entries ++ frame.granted granted)
    (hcharges : kind = .gestionale → frame.charges = false) :
    Covered kind (frames ++ [frame]) entries' := by
  cases kind with
  | commerciale =>
    obtain ⟨owned, rfl, rfl⟩ := h
    obtain ⟨granted, rfl⟩ := hentries rfl
    refine ⟨owned ++ [(frame, granted)], List.map_append, ?_⟩
    rw [List.map_append, Entries.concat_append]
    exact congrArg _ (Entries.append_empty _).symm
  | gestionale =>
    intro f hf
    rcases List.mem_append.mp hf with hf | hf
    · exact h f hf
    · rw [List.mem_singleton.mp hf]
      exact hcharges rfl

theorem charges_of_boundary {frame : RCHFrame} (h : frame.dataText = "=o".toList) :
    frame.charges = false := by
  rw [RCHFrame.charges, h, show command "=o".toList = .boundary from by decide +kernel]
  rfl

/-- Nothing written. -/
theorem granted_none (frame : RCHFrame) (entries : Entries) :
    ∃ granted, entries = entries ++ frame.granted granted :=
  ⟨false, (Entries.append_empty entries).symm⟩

section
variable {frames rest : List RCHFrame} {frame : RCHFrame} {b b' : ReceiptBuilder}

theorem ReceiptBuilder.Takes.kind_eq (h : b.Takes frame b') : b'.kind = b.kind := by
  have hkind := congrArg Extent.kind h.extent
  rwa [Extent.addFrame_kind] at hkind

/-- What a document writes for a frame. -/
theorem ReceiptBuilder.Takes.covered (h : b.Takes frame b') {fs : List RCHFrame}
    (hb : Covered b.kind fs b.model.entries) : Covered b'.kind (fs ++ [frame]) b'.model.entries := by
  rw [h.kind_eq]
  cases h with
  | fill model seen _ hcharges hwrites =>
    exact hb.concat hwrites fun hk => Bool.eq_false_iff.mpr fun hc => by
      rw [hcharges hc] at hk; cases hk
  | pay model _ hkind hwrites =>
    refine hb.concat (fun _ => ?_) fun hk => by rw [hkind] at hk; cases hk
    rw [transition_model]
    exact hwrites
  | control _ hkind =>
    refine hb.concat (fun _ => ?_) fun hk => by rw [hkind] at hk; cases hk
    rw [transition_model, addFrame_model]
    exact granted_none frame _

/-- A document under assembly: its frames were read, and what it holds is theirs. -/
structure ReceiptBuilder.Covers (frames rest : List RCHFrame) (b : ReceiptBuilder) : Prop where
  read : ∀ f ∈ b.extent.frames, f.Read frames rest
  covered : Covered b.kind b.extent.frames b.model.entries

/-- A document holds the records of its frames, of each command all or none. -/
def ParsedReceipt.Covers (frames : List RCHFrame) (d : ParsedReceipt) : Prop :=
  ∃ owned : List RCHFrame, owned.map (·.frameId) = d.frameIds ∧ (∀ f ∈ owned, f ∈ frames) ∧
    Covered d.documentType owned d.model.entries

theorem Opening.covers {pending : Option RCHFrame}
    (hpending : ∀ p, pending = some p → p.Remembered frames (frame :: rest))
    (hframe : frame.Read frames rest) (h : Opening pending frame b) : b.Covers frames rest := by
  have hsingle : ∀ f ∈ [frame], f.Read frames rest := fun f hf => by
    rw [List.mem_singleton.mp hf]; exact hframe
  cases h with
  | start =>
    have hmodel : ((ReceiptBuilder.new .commerciale (pending.getD frame)).addFrame frame).model.entries =
        {} := by simp [DocumentModel.entries]
    have hkind : ((ReceiptBuilder.new .commerciale (pending.getD frame)).addFrame frame).kind =
        .commerciale := by simp
    cases hp : pending with
    | none =>
      subst hp
      have hframes : ((ReceiptBuilder.new .commerciale frame).addFrame frame).extent.frames =
          [frame] := by simp [Extent.frames]
      refine ⟨by rw [Option.getD_none, hframes]; exact hsingle, ?_⟩
      rw [hmodel, hkind, Option.getD_none, hframes]
      exact (Covered.nil .commerciale).concat (fun _ => granted_none frame _) (by rintro ⟨⟩)
    | some p =>
      subst hp
      have hread := hpending p rfl
      have hp : ∀ f ∈ (⟨.commerciale, p, []⟩ : Extent).frames, f.Read frames (frame :: rest) :=
        fun f hf => by rw [List.mem_singleton.mp hf]; exact hread.toRead
      have hframes : ((ReceiptBuilder.new .commerciale p).addFrame frame).extent.frames =
          [p, frame] := by
        rw [ReceiptBuilder.extent_addFrame, ReceiptBuilder.extent_new, Extent.addFrame_of_read hp]
        rfl
      refine ⟨?_, ?_⟩
      · rw [Option.getD_some, hframes]
        intro f hf
        rcases List.mem_cons.mp hf with rfl | hf
        · exact hread.toRead.skip
        · exact hsingle f hf
      · rw [hmodel, hkind, Option.getD_some, hframes]
        have hfirst : Covered .commerciale [p] {} :=
          (Covered.nil .commerciale).concat (fun _ => granted_none p _) (by rintro ⟨⟩)
        exact hfirst.concat (fun _ => granted_none frame _) (by rintro ⟨⟩)
  | boundary hdata =>
    refine ⟨by rw [ReceiptBuilder.extent_new]; exact hsingle, ?_⟩
    rw [ReceiptBuilder.extent_new, ReceiptBuilder.new_kind]
    intro f hf
    rw [List.mem_singleton.mp hf]
    exact charges_of_boundary hdata
  | fill kind issues _ htakes =>
    have hkind : ({ ReceiptBuilder.new kind frame with issues := issues } : ReceiptBuilder).kind =
      kind := ReceiptBuilder.new_kind frame kind
    have hempty : Covered ({ ReceiptBuilder.new kind frame with issues := issues } :
        ReceiptBuilder).kind [] ({ ReceiptBuilder.new kind frame with issues := issues } :
        ReceiptBuilder).model.entries := by
      rw [hkind]
      change Covered kind [] (ReceiptBuilder.new kind frame).model.entries
      rw [ReceiptBuilder.new_model]
      exact .nil kind
    have hcovered := htakes.covered hempty
    have hextent : b.extent = ⟨kind, frame, []⟩ := by
      rw [htakes.extent]
      change Extent.addFrame (ReceiptBuilder.new kind frame).extent frame = _
      rw [ReceiptBuilder.extent_new, Extent.addFrame_self]
    refine ⟨by rw [hextent]; exact hsingle, ?_⟩
    rw [hextent]
    exact hcovered

/-- The frames of a document after one more. -/
theorem ReceiptBuilder.Covers.frames_addFrame (h : b.Covers frames (frame :: rest)) :
    (b.extent.addFrame frame).frames = b.extent.frames ++ [frame] := by
  rw [Extent.addFrame_of_read h.read]
  rfl

theorem covers_of_span {entries : Entries} {e : Extent} {d : ParsedReceipt}
    {complete : Bool} (hread : ∀ f ∈ e.frames, f ∈ frames) (hcovered : Covered e.kind e.frames entries)
    (hspan : d.span = e.span complete) (hentries : d.model.entries = entries) : d.Covers frames := by
  refine ⟨e.frames, (congrArg Span.frameIds hspan).symm, hread, ?_⟩
  rw [hentries, show d.documentType = e.kind from congrArg Span.kind hspan]
  exact hcovered

theorem ReceiptBuilder.finish_entries (b : ReceiptBuilder) (n : Nat) (complete : Bool) :
    (b.finish n complete).model.entries = b.model.entries := by
  obtain ⟨_, _, -, -, hmodel⟩ := b.finish_eq n complete
  rw [hmodel]
  rfl

end

/-- The records of a document follow its frames. -/
theorem covers_rule (frames : List RCHFrame) :
    DocumentRule frames (fun rest b => b.Covers frames rest) (·.Covers frames) where
  skip frame rest b h := ⟨fun f hf => (h.read f hf).skip, h.covered⟩
  opens pending frame rest b hpending hframe h := h.covers hpending hframe
  takes frame rest b b' hframe h htakes := by
    refine ⟨?_, ?_⟩
    · rw [htakes.extent, h.frames_addFrame]
      intro f hf
      rcases List.mem_append.mp hf with hf | hf
      · exact (h.read f hf).skip
      · rw [List.mem_singleton.mp hf]; exact hframe
    · rw [htakes.extent, h.frames_addFrame]
      exact htakes.covered h.covered
  closes frame rest b n hframe h hcloses _ := by
    have hframes : (b.addFrame frame).extent.frames = b.extent.frames ++ [frame] := by
      rw [b.extent_addFrame, h.frames_addFrame]
    refine covers_of_span (fun f hf => ?_) ?_ ((b.addFrame frame).finish_span n true)
      ((b.addFrame frame).finish_entries n true)
    · rw [hframes] at hf
      rcases List.mem_append.mp hf with hf | hf
      · exact (h.read f hf).mem
      · rw [List.mem_singleton.mp hf]; exact hframe.mem
    · rw [hframes, ReceiptBuilder.extent_kind, ReceiptBuilder.addFrame_kind,
        ReceiptBuilder.addFrame_model]
      refine h.covered.concat (fun _ => granted_none frame _) fun hk => ?_
      rw [hk] at hcloses
      exact charges_of_boundary hcloses
  ends rest b n h := covers_of_span (fun f hf => (h.read f hf).mem) h.covered (b.finish_span n false)
    (b.finish_entries n false)

/-! ## The result -/

/-- What a map of a list says about its elements. -/
theorem exists_of_map_eq {α β : Type} {g : α → β} {l l' : List α} (h : l.map g = l'.map g) {x : α}
    (hx : x ∈ l) : ∃ y ∈ l', g y = g x := by
  have hmem : g x ∈ l'.map g := by
    rw [← h]
    exact List.mem_map_of_mem hx
  exact List.mem_map.mp hmem

/-- Counters and subtypes leave what a document holds. -/
theorem reconstruct_covers (lim : ParserLimits) (request response : FramingResult)
    (hframes : request.frames.Pairwise RCHFrame.Before) (budget : SemanticBudget) :
    ∀ d ∈ ((reconstruct lim request response).run budget).1.1, d.Covers request.frames := by
  intro d hd
  let held (d : ParsedReceipt) : List Nat × DocKind × Entries :=
    (d.frameIds, d.documentType, d.model.entries)
  have hmap : ((reconstruct lim request response).run budget).1.1.map held =
      ((parseDocuments lim.maxDocuments request.frames).run budget).1.1.map held :=
    (assignDocumentSubtypes_map (fun _ _ _ _ => rfl) [] _).trans
      (attachResponseCounters_map _ _ _ (fun _ _ _ => rfl) _ _)
  obtain ⟨d₀, hd₀, heq⟩ := exists_of_map_eq hmap hd
  obtain ⟨owned, hids, hmem, hcovered⟩ :=
    (covers_rule request.frames).parseDocuments hframes lim.maxDocuments budget d₀ hd₀
  simp only [held, Prod.mk.injEq] at heq
  obtain ⟨hids', hkind, hentries⟩ := heq
  exact ⟨owned, hids.trans hids', hmem, hkind ▸ hentries ▸ hcovered⟩

/-- **The semantic budget** bounds what the documents hold, only leaves out whole commands, and does
not show where it refuses nothing. -/
theorem semantic_budget (lim : ParserLimits) (request response : Bytes) :
    ∃ r, parseProtocolCopies lim request response = .ok r ∧
      ∃ budget : SemanticBudget,
        ((reconstruct lim r.requestFraming r.responseFraming).run (.new lim.maxSemanticFields)).2 =
          budget ∧
        (totalWeight r.documents ≤ budget.used ∧ budget.used ≤ lim.maxSemanticFields) ∧
        (∀ d ∈ r.documents, d.Covers r.requestFraming.frames) ∧
        (budget.issue = none → ∀ n, lim.maxSemanticFields ≤ n →
          ((reconstruct lim r.requestFraming r.responseFraming).run (.new n)).1.1 = r.documents) := by
  obtain ⟨req, resp, hreq, -, hok⟩ := parseProtocolCopies_ok lim request response
  refine ⟨_, hok, _, rfl, ?_, ?_, ?_⟩
  · obtain ⟨hlimit, n, hused, hweight⟩ := reconstruct_pays lim req resp (.new lim.maxSemanticFields)
    refine ⟨?_, ?_⟩
    · rw [parseFramedCopies_documents]
      change _ ≤ ((reconstruct lim req resp).run (.new lim.maxSemanticFields)).2.used
      rw [hused]
      exact Nat.le_trans hweight (Nat.le_add_left _ _)
    · have hle := ((reconstruct lim req resp).run (.new lim.maxSemanticFields)).2.used_le
      rwa [hlimit] at hle
  · exact reconstruct_covers lim req resp (frameStream_frames_before hreq) _
  · intro hissue n hn
    exact congrArg Prod.fst (reconstruct_stable lim req resp hn hissue)

end RchProxy
