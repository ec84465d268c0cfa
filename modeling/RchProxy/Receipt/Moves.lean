import RchProxy.Receipt.Entries
import RchProxy.Receipt.Records

/-!
# What one frame does to the assembler

`Assembler.Moves` says once what a step of the loop can do, guards included: the state stays, the
active document takes the frame, it ends with the frame, or a document opens at the frame. What the
assembler keeps over a run follows from the moves (`parseFrames_keeps`), without its code.
-/

namespace RchProxy

open Py Lib Lib.Spend

/-- The frame ends a document of the given kind. -/
def Closes (kind : DocKind) (frame : RCHFrame) : Prop :=
  match kind with
  | .commerciale => isClosingControl frame.dataText = true
  | .gestionale => frame.dataText = "=o".toList

instance (kind : DocKind) (frame : RCHFrame) : Decidable (Closes kind frame) := by
  unfold Closes
  cases kind <;> infer_instance

/-! ## Commands and payloads -/

section
variable {t : Text}

theorem startsWith_of_closing (h : isClosingControl t = true) : startsWith t "<</?".toList = true := by
  rcases Bool.or_eq_true_iff.mp h with h | h
  · rw [eq_of_beq h]
    decide
  · obtain ⟨m, hm⟩ := Option.isSome_iff_exists.mp h
    obtain ⟨u, hu, -⟩ := Regex.run_lit (List.mem_of_find?_eq_some hm)
    rw [startsWith, List.isPrefixOf_iff_prefix]
    exact ⟨u, hu.symm⟩

/-- A payload that is no control and no boundary ends no document. -/
theorem not_closes {frame : RCHFrame} (hcontrol : startsWith frame.dataText "<</?".toList = false)
    (hboundary : frame.dataText ≠ "=o".toList) (kind : DocKind) : ¬ Closes kind frame := by
  cases kind with
  | commerciale =>
    intro h
    rw [startsWith_of_closing h] at hcontrol
    cases hcontrol
  | gestionale => exact hboundary

theorem command_control (h : startsWith t "<</?".toList = true) : command t = .control t := by
  rw [command, if_pos h]

/-- The payload of each command. -/
theorem command_spec (t : Text) :
    match command t with
    | .control s => s = t ∧ startsWith t "<</?".toList = true
    | .start => t = "=K".toList
    | .boundary => t = "=o".toList
    | _ => startsWith t "<</?".toList = false ∧ t ≠ "=o".toList := by
  unfold command
  by_cases hc : startsWith t "<</?".toList = true
  · rw [if_pos hc]
    exact ⟨rfl, hc⟩
  rw [if_neg hc]
  by_cases hk : t = "=K".toList
  · rw [if_pos hk]
    exact hk
  rw [if_neg hk]
  by_cases ho : t = "=o".toList
  · rw [if_pos ho]
    exact ho
  rw [if_neg ho]
  have hplain : startsWith t "<</?".toList = false ∧ t ≠ "=o".toList :=
    ⟨Bool.eq_false_iff.mpr hc, ho⟩
  cases matchManagementLine t with
  | some c => exact hplain
  | none =>
  cases matchItem t with
  | some c => exact hplain
  | none =>
  cases matchCommercialText t with
  | some c => exact hplain
  | none =>
  cases matchTotal t with
  | some c => exact hplain
  | none =>
    dsimp only
    by_cases hd : (matchDisplay t).isSome = true
    · rw [if_pos hd]; exact hplain
    · rw [if_neg hd]; exact hplain

end

/-! ## Moves -/

/-- The document takes a frame that does not end it: its records are written, and a total or a
control may change its state. -/
inductive ReceiptBuilder.Takes (b : ReceiptBuilder) (frame : RCHFrame) : ReceiptBuilder → Prop
  | fill (model : DocumentModel) (seen : Bool) (hopen : ¬ Closes b.kind frame)
      (hcharges : frame.charges = true → b.kind = .commerciale)
      (hwrites : b.kind = .commerciale → Writes b.model model frame.entries) :
      Takes b frame { b.addFrame frame with model := model, seenPrimaryTotal := seen }
  | pay (model : DocumentModel) (hopen : ¬ Closes b.kind frame) (hkind : b.kind = .commerciale)
      (hwrites : Writes b.model model frame.entries) :
      Takes b frame ({ b.addFrame frame with model := model }.transition .commercialPayment frame)
  | control (hopen : ¬ Closes b.kind frame) (hkind : b.kind = .commerciale)
      (hstate : b.state = .commercialPayment) (hentries : frame.entries = {}) :
      Takes b frame ((b.addFrame frame).transition .commercialPostlude frame)

/-- A document that a frame opens, with the start that was remembered. -/
inductive Opening (pending : Option RCHFrame) (frame : RCHFrame) : ReceiptBuilder → Prop
  | start (hdata : frame.dataText = "=K".toList) (hentries : frame.entries = {}) :
      Opening pending frame ((ReceiptBuilder.new .commerciale (pending.getD frame)).addFrame frame)
  | boundary (hdata : frame.dataText = "=o".toList) :
      Opening pending frame (.new .gestionale frame)
  | fill (kind : DocKind) (issues : List ReceiptIssue) (b : ReceiptBuilder)
      (htakes : ({ ReceiptBuilder.new kind frame with issues := issues }).Takes frame b) :
      Opening pending frame b

/-- What a frame does to the assembler. -/
inductive Assembler.Moves (maxDocuments : Nat) (a : Assembler) (frame : RCHFrame) : Assembler → Prop
  | stay (pending : Option RCHFrame)
      (hpending : ∀ p, pending = some p →
        a.pendingStart = some p ∨ p = frame ∧ frame.dataText = "<</?s".toList) :
      Moves maxDocuments a frame { a with pendingStart := pending }
  | take (b b' : ReceiptBuilder) (hactive : a.active = some b) (htakes : b.Takes frame b') :
      Moves maxDocuments a frame { a with active := some b' }
  | complete (b : ReceiptBuilder) (pending : Option RCHFrame)
      (hpending : ∀ p, pending = some p → a.pendingStart = some p) (hactive : a.active = some b)
      (hcloses : Closes b.kind frame) (hentries : frame.entries = {}) :
      Moves maxDocuments a frame
        { ({ a with active := some (b.addFrame frame) } : Assembler).finishActive maxDocuments true
          with pendingStart := pending }
  | opens (b : ReceiptBuilder) (pending : Option RCHFrame)
      (hpending : ∀ p, pending = some p → a.pendingStart = some p)
      (hopens : Opening a.pendingStart frame b) :
      Moves maxDocuments a frame
        { a.finishActive maxDocuments false with active := some b, pendingStart := pending }

/-- A document under assembly has taken the frame, or was opened at it; it is to be the active one of
`a'`. -/
inductive Assembler.Place (maxDocuments : Nat) (a : Assembler) (frame : RCHFrame) :
    Assembler → ReceiptBuilder → Prop
  | active (b : ReceiptBuilder) (h : a.active = some b) : Place maxDocuments a frame a b
  | opened (kind : DocKind) (issues : List ReceiptIssue) :
      Place maxDocuments a frame (a.finishActive maxDocuments false)
        { ReceiptBuilder.new kind frame with issues := issues }

section
variable {maxDocuments : Nat} {a : Assembler} {frame : RCHFrame}

theorem ReceiptBuilder.Takes.keep (b : ReceiptBuilder) (hopen : ¬ Closes b.kind frame)
    (hcharges : frame.charges = false) : b.Takes frame (b.addFrame frame) := by
  have h : b.Takes frame
      { b.addFrame frame with model := b.model, seenPrimaryTotal := b.seenPrimaryTotal } :=
    .fill b.model b.seenPrimaryTotal hopen (by simp [hcharges]) fun _ => .none rfl _
  have heq : { b.addFrame frame with model := b.model, seenPrimaryTotal := b.seenPrimaryTotal } =
      b.addFrame frame := by
    unfold addFrame
    split <;> rfl
  rw [heq] at h
  exact h

namespace Assembler

/-- A document in its place takes the frame. -/
theorem Place.moves {a' : Assembler} {b b' : ReceiptBuilder} (h : a.Place maxDocuments frame a' b)
    (hb : b.Takes frame b') : a.Moves maxDocuments frame { a' with active := some b' } := by
  cases h with
  | active _ h => exact .take b b' h hb
  | opened kind issues =>
    have hmove : a.Moves maxDocuments frame { a.finishActive maxDocuments false with
        active := some b', pendingStart := a.pendingStart } :=
      .opens b' a.pendingStart (fun _ => id) (.fill kind issues b' hb)
    rw [← a.finishActive_pendingStart maxDocuments false] at hmove
    exact hmove

theorem commercialFor_place (maxDocuments : Nat) (a : Assembler) (frame : RCHFrame)
    (detail : String) :
    a.Place maxDocuments frame (commercialFor maxDocuments a frame detail).1
        (commercialFor maxDocuments a frame detail).2 ∧
      (commercialFor maxDocuments a frame detail).2.kind = .commerciale := by
  unfold commercialFor
  cases h : a.activeOf .commerciale with
  | some b =>
    obtain ⟨hactive, hkind⟩ := a.activeOf_some h
    exact ⟨.active b hactive, hkind⟩
  | none => exact ⟨.opened .commerciale _, rfl⟩

theorem managementFor_place (maxDocuments : Nat) (a : Assembler) (frame : RCHFrame) :
    a.Place maxDocuments frame (managementFor maxDocuments a frame).1
        (managementFor maxDocuments a frame).2 ∧
      (managementFor maxDocuments a frame).2.kind = .gestionale := by
  unfold managementFor
  cases h : a.active with
  | none =>
    have hplace : ∀ issues, a.Place maxDocuments frame a
        { ReceiptBuilder.new .gestionale frame with issues := issues } := by
      intro issues
      have hopened : a.Place maxDocuments frame (a.finishActive maxDocuments false) _ :=
        .opened .gestionale issues
      rwa [finishActive_none h] at hopened
    exact ⟨hplace _, rfl⟩
  | some b =>
    dsimp only
    cases hk : b.kind with
    | gestionale => exact ⟨.active b h, hk⟩
    | commerciale => exact ⟨.opened .gestionale [], rfl⟩

theorem onOther_moves (hopen : ∀ kind, ¬ Closes kind frame) (hcharges : frame.charges = false) :
    a.Moves maxDocuments frame (a.onOther frame) := by
  unfold onOther
  cases h : a.active with
  | none => exact .stay a.pendingStart fun p hp => .inl hp
  | some b => exact .take b _ h (.keep b (hopen b.kind) hcharges)

end Assembler

/-- The step for the command of a frame is a move. -/
theorem stepCommand_moves (maxDocuments : Nat) (a : Assembler) (frame : RCHFrame) :
    Always (stepCommand maxDocuments a frame (command frame.dataText))
      (a.Moves maxDocuments frame) := by
  have hspec := command_spec frame.dataText
  have hentries : frame.entries = (command frame.dataText).entries frame := rfl
  have hcharges : frame.charges = (command frame.dataText).charges := rfl
  revert hspec hentries hcharges
  cases command frame.dataText with
  | control s =>
    rintro ⟨rfl, hstart⟩ hentries hcharges
    refine .pure ?_
    unfold Assembler.onControl
    cases h : a.activeOf .commerciale with
    | none =>
      refine .stay _ fun p hp => .inr ?_
      split at hp
      · next hdata => exact ⟨(Option.some.inj hp).symm, hdata⟩
      · cases hp
    | some b =>
      obtain ⟨hactive, hkind⟩ := a.activeOf_some h
      dsimp only
      split
      · next hcloses =>
        refine .complete b (({ a with active := some (b.addFrame frame) } : Assembler).finishActive
          maxDocuments true).pendingStart (fun p hp => ?_) hactive (by rw [hkind]; exact hcloses) hentries
        rw [Assembler.finishActive_pendingStart] at hp
        exact hp
      · next hopen =>
        have hopen : ¬ Closes b.kind frame := by rw [hkind]; exact hopen
        have hstate : (b.addFrame frame).state = b.state := by
          unfold ReceiptBuilder.addFrame
          split <;> rfl
        split
        · next hpayment =>
          exact .take b _ hactive (.control hopen hkind (hstate ▸ hpayment) hentries)
        · exact .take b _ hactive (.keep b hopen hcharges)
  | start =>
    rintro hdata hentries -
    refine .pure (.opens _ none nofun ?_)
    rw [Assembler.finishActive_pendingStart]
    exact .start hdata hentries
  | boundary =>
    rintro hdata hentries -
    refine .pure ?_
    unfold Assembler.onBoundary
    cases h : a.activeOf .gestionale with
    | none => exact .opens _ none nofun (.boundary hdata)
    | some b =>
      obtain ⟨hactive, hkind⟩ := a.activeOf_some h
      exact .complete b none nofun hactive (by rw [hkind]; exact hdata) hentries
  | line c =>
    rintro ⟨hcontrol, hboundary⟩ - hcharges
    obtain ⟨hplace, hkind⟩ := Assembler.managementFor_place maxDocuments a frame
    refine (Always.any _).bind fun r _ => .pure (hplace.moves ?_)
    exact .fill r.1 r.2 (not_closes hcontrol hboundary _) (fun hc => by rw [hcharges] at hc; cases hc)
      fun hk => by rw [hkind] at hk; cases hk
  | item c =>
    rintro ⟨hcontrol, hboundary⟩ hentries -
    obtain ⟨hplace, hkind⟩ := Assembler.commercialFor_place maxDocuments a frame
      "item command observed without a preceding inferred =K start command"
    refine (applyCommercialItem_writes _ frame c).bind fun r hr => .pure (hplace.moves ?_)
    refine .fill r _ (not_closes hcontrol hboundary _) (fun _ => hkind) fun _ => ?_
    rw [hentries]
    rwa [ReceiptBuilder.addFrame_model] at hr
  | total c =>
    rintro ⟨hcontrol, hboundary⟩ hentries -
    obtain ⟨hplace, hkind⟩ := Assembler.commercialFor_place maxDocuments a frame
      "total command observed without a preceding inferred =K start command"
    refine (applyCommercialTotal_writes _ frame c).bind fun r hr => .pure (hplace.moves ?_)
    refine .pay r (not_closes hcontrol hboundary _) hkind ?_
    rw [hentries]
    rwa [ReceiptBuilder.addFrame_model] at hr
  | text c =>
    rintro ⟨hcontrol, hboundary⟩ hentries hcharges
    simp only [stepCommand]
    cases h : a.activeOf .commerciale with
    | none => exact .pure (Assembler.onOther_moves (not_closes hcontrol hboundary) hcharges)
    | some b =>
      refine (applyCommercialText_writes _ frame c).bind fun r hr => .pure ?_
      refine .take b _ (a.activeOf_some h).1 (.fill r _ (not_closes hcontrol hboundary _)
        (fun _ => (a.activeOf_some h).2) fun _ => ?_)
      rw [hentries]
      rwa [ReceiptBuilder.addFrame_model] at hr
  | display =>
    rintro - - -
    exact .pure (.stay a.pendingStart fun p hp => .inl hp)
  | unknown =>
    rintro ⟨hcontrol, hboundary⟩ - hcharges
    exact .pure (Assembler.onOther_moves (not_closes hcontrol hboundary) hcharges)

end

/-! ## Runs -/

/-- What every move on an expected frame keeps holds after the run. The invariant may speak of the
frames still to come. -/
theorem parseFrames_keeps (maxDocuments : Nat) (I : Assembler → List RCHFrame → Prop)
    (hskip : ∀ a frame rest, I a (frame :: rest) → I a rest)
    (hmove : ∀ a frame rest a', frame.expectedRequest = true → I a (frame :: rest) →
      a.Moves maxDocuments frame a' → I a' rest)
    {a : Assembler} {frames : List RCHFrame} (h : I a frames) :
    Always (parseFrames maxDocuments a frames) (I · []) := by
  induction frames generalizing a with
  | nil => exact .pure h
  | cons frame rest ih =>
    rw [parseFrames, List.foldlM_cons]
    have hstep : Always (parseStep maxDocuments a frame) (I · rest) := by
      rw [parseStep_eq]
      by_cases hexp : frame.expectedRequest = true
      · rw [if_pos hexp]
        exact (stepCommand_moves maxDocuments a frame).mono fun a' => hmove a frame rest a' hexp h
      · rw [if_neg hexp]
        exact .pure (hskip a frame rest h)
    exact hstep.bind fun a' ha' => ih ha'

/-! ## Documents -/

/-- A frame that was read: one of the request, which comes before those still to come. -/
structure RCHFrame.Read (frames rest : List RCHFrame) (f : RCHFrame) : Prop where
  mem : f ∈ frames
  expected : f.expectedRequest = true
  before : ∀ g ∈ rest, f.Before g

theorem RCHFrame.Read.skip {frames rest : List RCHFrame} {f frame : RCHFrame}
    (h : f.Read frames (frame :: rest)) : f.Read frames rest :=
  ⟨h.mem, h.expected, fun g hg => h.before g (List.mem_cons_of_mem _ hg)⟩

/-- A remembered start. -/
structure RCHFrame.Remembered (frames rest : List RCHFrame) (p : RCHFrame) : Prop extends
    p.Read frames rest where
  data : p.dataText = "<</?s".toList

/-- An invariant `P` of documents under assembly, with the frames still to come, that gives `Q` when
they end. -/
structure DocumentRule (frames : List RCHFrame) (P : List RCHFrame → ReceiptBuilder → Prop)
    (Q : ParsedReceipt → Prop) : Prop where
  skip : ∀ frame rest b, P (frame :: rest) b → P rest b
  opens : ∀ pending frame rest b, (∀ p, pending = some p → p.Remembered frames (frame :: rest)) →
    frame.Read frames rest → Opening pending frame b → P rest b
  takes : ∀ frame rest b b', frame.Read frames rest → P (frame :: rest) b → b.Takes frame b' →
    P rest b'
  closes : ∀ frame rest b n, frame.Read frames rest → P (frame :: rest) b → Closes b.kind frame →
    frame.entries = {} → Q ((b.addFrame frame).finish n true)
  ends : ∀ rest b n, P rest b → Q (b.finish n false)

namespace DocumentRule

variable {frames : List RCHFrame} {P : List RCHFrame → ReceiptBuilder → Prop}
  {Q : ParsedReceipt → Prop}

/-- What the rule says of the assembler, of which `seen` frames are read. -/
structure Holds (frames : List RCHFrame) (P : List RCHFrame → ReceiptBuilder → Prop)
    (Q : ParsedReceipt → Prop) (a : Assembler) (rest : List RCHFrame) : Prop where
  active : ∀ b, a.active = some b → P rest b
  documents : ∀ d ∈ a.documents, Q d
  pending : ∀ p, a.pendingStart = some p → p.Remembered frames rest
  tail : ∃ seen, frames = seen ++ rest

variable {a : Assembler} {rest : List RCHFrame}

/-- A document that ends, and what it says. -/
theorem Holds.finishActive (h : Holds frames P Q a rest) (maxDocuments : Nat) (complete : Bool)
    (hend : ∀ b n, a.active = some b → Q (b.finish n complete)) :
    Holds frames P Q (a.finishActive maxDocuments complete) rest := by
  have hnone : ∀ b, none = some b → P rest b := fun b hb => absurd hb (Option.some_ne_none b).symm
  unfold Assembler.finishActive
  cases ha : a.active with
  | none => exact h
  | some b =>
    dsimp only
    split
    · refine ⟨hnone, fun d hd => ?_, h.pending, h.tail⟩
      rcases List.mem_append.mp hd with hd | hd
      · exact h.documents d hd
      · rw [List.mem_singleton.mp hd]
        exact hend b _ ha
    split
    · exact ⟨hnone, h.documents, h.pending, h.tail⟩
    · exact ⟨hnone, h.documents, h.pending, h.tail⟩

/-- **The rule of documents.** Whatever the budget and the limit of documents, `Q` holds of every
document of a request whose frames are in order. -/
theorem parseDocuments (h : DocumentRule frames P Q) (hframes : frames.Pairwise RCHFrame.Before)
    (maxDocuments : Nat) :
    Always (parseDocuments maxDocuments frames) fun r => ∀ d ∈ r.1, Q d := by
  have hread : ∀ frame rest, (∃ seen, frames = seen ++ frame :: rest) →
      frame.expectedRequest = true → frame.Read frames rest := by
    rintro frame rest ⟨seen, hseen⟩ hexp
    have hpair := hframes
    rw [hseen] at hpair
    exact ⟨by rw [hseen]; simp, hexp, (List.pairwise_cons.mp (List.pairwise_append.mp hpair).2.1).1⟩
  have hrest : ∀ frame rest, (∃ seen, frames = seen ++ frame :: rest) → ∃ seen, frames = seen ++ rest := by
    rintro frame rest ⟨seen, hseen⟩
    exact ⟨seen ++ [frame], by rw [hseen]; simp⟩
  have hskip : ∀ a frame rest, Holds frames P Q a (frame :: rest) → Holds frames P Q a rest :=
    fun a frame rest hold => ⟨fun b hb => h.skip frame rest b (hold.active b hb), hold.documents,
      fun p hp => ⟨(hold.pending p hp).toRead.skip, (hold.pending p hp).data⟩, hrest _ _ hold.tail⟩
  have hmove : ∀ a frame rest a', frame.expectedRequest = true → Holds frames P Q a (frame :: rest) →
      a.Moves maxDocuments frame a' → Holds frames P Q a' rest := by
    intro a frame rest a' hexp hold hmoves
    have hframe := hread frame rest hold.tail hexp
    have hlater := hskip a frame rest hold
    cases hmoves with
    | stay pending hpending =>
      refine ⟨hlater.active, hlater.documents, fun p hp => ?_, hlater.tail⟩
      rcases hpending p hp with hp | ⟨rfl, hdata⟩
      · exact hlater.pending p hp
      · exact ⟨hframe, hdata⟩
    | take b b' hactive htakes =>
      refine ⟨fun c hc => ?_, hlater.documents, hlater.pending, hlater.tail⟩
      obtain rfl := Option.some.inj hc
      exact h.takes frame rest b b' hframe (hold.active b hactive) htakes
    | complete b pending hpending hactive hcloses hentries =>
      have hset : Holds frames (fun _ _ => True) Q { a with active := some (b.addFrame frame) } rest :=
        ⟨fun _ _ => trivial, hlater.documents, hlater.pending, hlater.tail⟩
      have hfinished := hset.finishActive maxDocuments true fun c n hc => by
        obtain rfl := Option.some.inj hc
        exact h.closes frame rest b n hframe (hold.active b hactive) hcloses hentries
      refine ⟨fun c hc => ?_, hfinished.documents, fun p hp => hlater.pending p (hpending p hp),
        hlater.tail⟩
      dsimp only at hc
      rw [Assembler.finishActive_active] at hc
      cases hc
    | opens b pending hpending hopens =>
      have hfinished := hlater.finishActive maxDocuments false
        fun c n hc => h.ends rest c n (hlater.active c hc)
      refine ⟨fun c hc => ?_, hfinished.documents, fun p hp => hlater.pending p (hpending p hp),
        hlater.tail⟩
      obtain rfl := Option.some.inj hc
      exact h.opens a.pendingStart frame rest b hold.pending hframe hopens
  have hstart : Holds frames P Q {} frames :=
    ⟨fun _ hb => absurd hb (Option.some_ne_none _).symm, fun _ hd => absurd hd List.not_mem_nil,
      fun _ hp => absurd hp (Option.some_ne_none _).symm, [], rfl⟩
  intro budget
  have hrun := parseFrames_keeps maxDocuments (Holds frames P Q) hskip hmove hstart budget
  exact (hrun.finishActive maxDocuments false fun b n hb => h.ends [] b n
    (hrun.active b hb)).documents

end DocumentRule

end RchProxy
