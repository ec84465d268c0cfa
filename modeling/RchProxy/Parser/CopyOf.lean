import RchProxy.Parser.Subtype
import RchProxy.Py.Decimal
import RchProxy.Receipt.Moves

/-!
# What a document is a copy of

`_assign_document_subtypes` looks back over the commercial documents it has passed. A `copy_of` names
the latest one with the items and the total of the document, and the labels of a document do not
depend on those after it (`parseDocuments_subtypes`).
-/

namespace RchProxy

open Py Lib Lib.Spend

/-! ## Document ids -/

/-- The id of the document with a number. -/
def documentLabel (n : Nat) : String := "document-" ++ String.ofList (zeroPad 4 n)

theorem documentLabel_injective : Function.Injective documentLabel := by
  intro m n h
  have hlist := congrArg String.toList h
  simp only [documentLabel, String.toList_append, String.toList_ofList] at hlist
  exact zeroPad_injective 4 (List.append_cancel_left hlist)

/-- Documents are numbered in the order in which they end. -/
def Numbered (ds : List ParsedReceipt) : Prop :=
  ds.map (·.documentId) = (List.range ds.length).map fun n => documentLabel (n + 1)

namespace Numbered

variable {ds : List ParsedReceipt}

theorem concat (h : Numbered ds) {d : ParsedReceipt}
    (hd : d.documentId = documentLabel (ds.length + 1)) : Numbered (ds ++ [d]) := by
  rw [Numbered, List.map_append, h, List.length_append, List.length_singleton, List.range_succ,
    List.map_append, List.map_singleton, List.map_singleton, hd]

theorem nodup (h : Numbered ds) : (ds.map (·.documentId)).Nodup := by
  rw [h]
  exact List.nodup_range.map fun m n hmn => Nat.succ.inj (documentLabel_injective hmn)

theorem finishActive {a : Assembler} (h : Numbered a.documents) (maxDocuments : Nat)
    (complete : Bool) : Numbered (a.finishActive maxDocuments complete).documents := by
  unfold Assembler.finishActive
  cases a.active with
  | none => exact h
  | some b =>
    dsimp only
    split
    · exact h.concat rfl
    split
    · exact h
    · exact h

theorem moves {maxDocuments : Nat} {a a' : Assembler} {frame : RCHFrame} (h : Numbered a.documents)
    (hmoves : a.Moves maxDocuments frame a') : Numbered a'.documents := by
  cases hmoves with
  | stay | take => exact h
  | complete b =>
    have hset : Numbered ({ a with active := some (b.addFrame frame) } : Assembler).documents := h
    exact hset.finishActive maxDocuments true
  | opens => exact h.finishActive maxDocuments false

end Numbered

theorem parseDocuments_numbered (maxDocuments : Nat) (frames : List RCHFrame) :
    Always (parseDocuments maxDocuments frames) fun r => Numbered r.1 := by
  intro budget
  have hstart : Numbered ({} : Assembler).documents := rfl
  have hrun : Numbered ((parseFrames maxDocuments {} frames).run budget).1.documents :=
    parseFrames_keeps maxDocuments (fun a _ => Numbered a.documents) (fun _ _ _ h => h)
      (fun _ _ _ _ _ h hmoves => h.moves hmoves) hstart budget
  exact hrun.finishActive maxDocuments false

/-! ## Labels -/

/-- The label of a document, after some that are labelled. -/
inductive Labelled (prior : List ParsedReceipt) : ParsedReceipt → Prop
  | commerciale (d : ParsedReceipt) (hkind : d.documentType = .commerciale) :
      Labelled prior (d.assignSubtype .documentoCommerciale .inferred none)
  | gestionale (d : ParsedReceipt) (hkind : d.documentType = .gestionale) :
      Labelled prior (d.assignSubtype (managementSubtype d prior).1 (managementSubtype d prior).2.1
        (managementSubtype d prior).2.2)

/-- The commercial documents among some. -/
def commercialOnes (ds : List ParsedReceipt) : List ParsedReceipt :=
  ds.filter (·.documentType = .commerciale)

theorem commercialOnes_cons_commerciale {d : ParsedReceipt} (h : d.documentType = .commerciale)
    (ds : List ParsedReceipt) : commercialOnes (d :: ds) = d :: commercialOnes ds :=
  List.filter_cons_of_pos (decide_eq_true h)

theorem commercialOnes_cons_gestionale {d : ParsedReceipt} (h : d.documentType = .gestionale)
    (ds : List ParsedReceipt) : commercialOnes (d :: ds) = commercialOnes ds :=
  List.filter_cons_of_neg (by rw [h]; decide)

/-- Every document is labelled after those before it. -/
theorem labelled_of_append {prior ds before after : List ParsedReceipt} {d : ParsedReceipt}
    (h : assignDocumentSubtypes prior ds = before ++ d :: after) :
    Labelled (prior ++ commercialOnes before) d := by
  induction ds generalizing prior before with
  | nil => exact absurd h.symm (by simp [assignDocumentSubtypes])
  | cons d₀ ds ih =>
    cases hk : d₀.documentType with
    | commerciale =>
      rw [assignDocumentSubtypes_commerciale hk] at h
      cases before with
      | nil =>
        obtain ⟨rfl, -⟩ := List.cons.inj h
        exact .commerciale d₀ hk
      | cons e before =>
        obtain ⟨rfl, htail⟩ := List.cons.inj h
        rw [commercialOnes_cons_commerciale (by exact hk), List.append_cons]
        exact ih htail
    | gestionale =>
      rw [assignDocumentSubtypes_gestionale hk] at h
      cases before with
      | nil =>
        obtain ⟨rfl, -⟩ := List.cons.inj h
        rw [show commercialOnes [] = [] from rfl, List.append_nil]
        exact .gestionale d₀ hk
      | cons e before =>
        obtain ⟨rfl, htail⟩ := List.cons.inj h
        rw [commercialOnes_cons_gestionale (by exact hk)]
        exact ih htail

/-! ## Originals -/

/-- A commercial document with the items and the primary total of `d`. -/
def ParsedReceipt.Original (d c : ParsedReceipt) : Prop :=
  c.documentType = .commerciale ∧ itemSignature c = itemSignature d ∧
    primaryTotal c = primaryTotal d

/-- What a `copy_of` says of a document, after those `before` it. -/
structure ParsedReceipt.CopyOf (d : ParsedReceipt) (before : List ParsedReceipt) (id : String) :
    Prop where
  management : d.documentType = .gestionale
  literals : ∀ line ∈ d.model.lines, ¬ "COPIA CONFORME".toList <:+: upper line.text ∧
    ¬ "PRECONTO".toList <:+: upper line.text
  charged : d.model.payments ≠ [] ∨ d.model.taxes ≠ []
  signature : itemSignature d ≠ []
  total : primaryTotal d ≠ none
  original : ∃ earlier c later, before = earlier ++ c :: later ∧ c.documentId = id ∧
    d.Original c ∧ ∀ c' ∈ later, ¬ d.Original c'

/-- A literal that is in no line. -/
theorem not_infix_of_hasLiteral {model : DocumentModel} {literal : String}
    (hm : IsMarker literal.toList) (h : model.hasLiteral literal = false) :
    ∀ line ∈ model.lines, ¬ literal.toList <:+: upper line.text := by
  intro line hline hin
  rw [← infix_upper_strip hm, ← contains_iff] at hin
  rw [DocumentModel.hasLiteral, List.any_map, List.any_eq_false] at h
  exact h line hline hin

/-- The latest commercial document that is an original. -/
theorem copiedFrom_spec {d c : ParsedReceipt} {before : List ParsedReceipt}
    (h : copiedFrom d (commercialOnes before) = some c) :
    (d.model.payments ≠ [] ∨ d.model.taxes ≠ []) ∧ itemSignature d ≠ [] ∧ primaryTotal d ≠ none ∧
      ∃ earlier later, before = earlier ++ c :: later ∧ d.Original c ∧
        ∀ c' ∈ later, ¬ d.Original c' := by
  obtain ⟨hc, as, bs, hsplit, has⟩ := List.find?_eq_some_iff_append.mp h
  simp only [Bool.and_eq_true, Bool.or_eq_true, decide_eq_true_eq, Option.isSome_iff_ne_none] at hc
  obtain ⟨⟨⟨⟨hsignature, heq⟩, htotal⟩, htotals⟩, hcharged⟩ := hc
  have hprior : commercialOnes before = bs.reverse ++ c :: as.reverse := by
    have := congrArg List.reverse hsplit
    simpa using this
  obtain ⟨front, rest, rfl, -, hrest⟩ := List.filter_eq_append_iff.mp hprior
  obtain ⟨skipped, later, rfl, -, hkind, hlater⟩ := List.filter_eq_cons_iff.mp hrest
  refine ⟨hcharged, hsignature, htotal, front ++ skipped, later, by simp,
    ⟨of_decide_eq_true hkind, heq.symm, htotals.symm⟩, fun c' hc' horiginal => ?_⟩
  have hmem : c' ∈ as := by
    rw [← List.mem_reverse, ← hlater]
    exact List.mem_filter.mpr ⟨hc', decide_eq_true horiginal.1⟩
  have hno := has c' hmem
  simp only [Bool.not_eq_true', Bool.and_eq_false_iff, Bool.or_eq_false_iff,
    decide_eq_false_iff_not, Option.isSome_eq_false_iff] at hno
  rcases hno with (((hno | hno) | hno) | hno) | hno
  · exact hno hsignature
  · exact hno horiginal.2.1.symm
  · exact htotal (Option.isNone_iff_eq_none.mp hno)
  · exact hno horiginal.2.2.symm
  · exact hcharged.elim hno.1 hno.2

/-- A management document that is given a relation. -/
theorem managementSubtype_relation {d c : ParsedReceipt} {prior : List ParsedReceipt}
    (h : (managementSubtype d prior).2.2 = some c) :
    d.model.hasLiteral "COPIA CONFORME" = false ∧ d.model.hasLiteral "PRECONTO" = false ∧
      copiedFrom d prior = some c := by
  unfold managementSubtype at h
  simp only at h
  split at h
  · cases h
  next hcopy =>
  split at h
  · cases h
  split at h
  · cases h
  next hprecount =>
  refine ⟨Bool.eq_false_iff.mpr hcopy, Bool.eq_false_iff.mpr hprecount, ?_⟩
  cases hc : copiedFrom d prior with
  | some c' =>
    rw [hc] at h
    exact h
  | none =>
    rw [hc] at h
    dsimp only at h
    split at h <;> cases h

theorem Labelled.copyOf {before : List ParsedReceipt} {d : ParsedReceipt} {id : String}
    (h : Labelled (commercialOnes before) d) (hid : d.model.metadata.copyOf = some id) :
    d.CopyOf before id := by
  cases h with
  | commerciale d hkind => cases hid
  | gestionale d hkind =>
    obtain ⟨c, hc, rfl⟩ := Option.map_eq_some_iff.mp hid
    obtain ⟨hcopy, hprecount, hfrom⟩ := managementSubtype_relation hc
    obtain ⟨hcharged, hsignature, htotal, earlier, later, hbefore, horiginal, hlater⟩ :=
      copiedFrom_spec hfrom
    exact ⟨hkind, fun line hline =>
      ⟨not_infix_of_hasLiteral isMarker_copiaConforme hcopy line hline,
        not_infix_of_hasLiteral isMarker_preconto hprecount line hline⟩,
      hcharged, hsignature, htotal, earlier, c, later, hbefore, rfl, horiginal, hlater⟩

/-! ## The documents of a parse -/

/-- What the subtypes of some documents say. -/
structure SubtypesSound (ds : List ParsedReceipt) : Prop where
  ids : ((assignDocumentSubtypes [] ds).map (·.documentId)).Nodup
  commerciale : ∀ d ∈ assignDocumentSubtypes [] ds, d.documentType = .commerciale →
    d.model.metadata.subtype = some .documentoCommerciale
  copies : ∀ before d after id, assignDocumentSubtypes [] ds = before ++ d :: after →
    d.model.metadata.copyOf = some id → d.CopyOf before id
  causal : ∀ first rest others, ds = first ++ rest →
    (assignDocumentSubtypes [] (first ++ others)).take first.length =
      (assignDocumentSubtypes [] ds).take first.length

theorem subtypesSound_of_nodup {ds : List ParsedReceipt} (h : (ds.map (·.documentId)).Nodup) :
    SubtypesSound ds where
  ids := by rwa [assignDocumentSubtypes_map fun _ _ _ _ => rfl]
  commerciale d hd hkind := by
    obtain ⟨before, after, hsplit⟩ := List.append_of_mem hd
    cases labelled_of_append hsplit with
    | commerciale => rfl
    | gestionale d₀ hkind₀ => exact absurd (hkind₀.symm.trans hkind) (by decide)
  copies before d after id hsplit hid := (labelled_of_append hsplit).copyOf hid
  causal first rest others hds := by
    rw [hds, assignDocumentSubtypes_take, assignDocumentSubtypes_take, List.take_left, List.take_left]

/-- **`copy_of` is sound and causal**, before and after counters are attached. -/
theorem parseDocuments_subtypes (maxDocuments : Nat) (frames : List RCHFrame)
    (budget : SemanticBudget) :
    let documents := ((parseDocuments maxDocuments frames).run budget).1.1
    SubtypesSound documents ∧
      ∀ correlations request response m, SubtypesSound
        ((attachResponseCounters correlations request response documents).run m).1 := by
  intro documents
  have hnodup := (parseDocuments_numbered maxDocuments frames budget).nodup
  refine ⟨subtypesSound_of_nodup hnodup, fun correlations request response m =>
    subtypesSound_of_nodup ?_⟩
  rwa [attachResponseCounters_map _ _ _ fun _ _ _ => rfl]

end RchProxy
