import RchProxy.Py.Infix
import RchProxy.Receipt.Tidy

/-!
# The subtype of a management document

The worker classifies a document a second time (`_document_subtype` in `parser/worker.py`), from the
literal markers in its visible lines first and the subtype of the parser otherwise. The two subtypes
of a management document are the same unless the markers of a course sheet stand beside another
literal (`documentSubtype_eq_iff`).
-/

namespace RchProxy

open Py Lib Lib.Spend

/-- The evidence `_document_subtype` returns. -/
inductive ParserEvidence where
  | inferredFromObservedRchCommandSequence
  | observedLiteralMarker
  | semantic (evidence : Evidence)
  | conservativeDefault
  deriving DecidableEq, Repr

/-- The literal markers of `_document_subtype`, in the order in which they are looked for. -/
def literalMarkers : List (Text × DocumentSubtype) :=
  [("COPIA CONFORME".toList, .copiaConforme), ("PRECONTO".toList, .preconto),
    ("COMANDA".toList, .comanda)]

/-- The visible text of a document; the parser leaves `header` empty. -/
def DocumentModel.visible (model : DocumentModel) : Text :=
  upper (['\n'].intercalate ((model.lines ++ model.footer).map (·.text)))

/-- `_document_subtype`. -/
def documentSubtype (model : DocumentModel) (documentType : DocKind) :
    DocumentSubtype × ParserEvidence :=
  match documentType with
  | .commerciale => (.documentoCommerciale, .inferredFromObservedRchCommandSequence)
  | .gestionale =>
    match literalMarkers.find? fun marker => contains model.visible marker.1 with
    | some marker => (marker.2, .observedLiteralMarker)
    | none =>
      match model.metadata.subtype with
      | some .comanda => (.comanda, .semantic (model.metadata.subtypeEvidence.getD .inferred))
      | some .preconto => (.preconto, .semantic (model.metadata.subtypeEvidence.getD .inferred))
      | some .copiaConforme =>
        (.copiaConforme, .semantic (model.metadata.subtypeEvidence.getD .inferred))
      | _ => (.documentoGestionaleGenerico, .conservativeDefault)

/-! ## Literals and marks -/

/-- A literal in one of the lines, in any case. -/
def DocumentModel.hasLiteral (model : DocumentModel) (literal : String) : Bool :=
  (model.lines.map fun line => upper (strip line.text)).any (contains · literal.toList)

/-- A line that starts with a literal, in any case. -/
def DocumentModel.hasMark (model : DocumentModel) (literal : String) : Bool :=
  (model.lines.map fun line => upper (strip line.text)).any (startsWith · literal.toList)

/-- The marks of a course sheet: course and covers, and no total. -/
def DocumentModel.isCourseSheet (model : DocumentModel) : Bool :=
  model.hasMark "PORTATA:" && model.hasMark "COPERTI:" && decide (model.totals = [])

theorem isMarker_copiaConforme : IsMarker "COPIA CONFORME".toList :=
  ⟨by decide, ⟨'C', "OPIA CONFORME".toList, by decide, by decide⟩,
    ⟨"COPIA CONFORM".toList, 'E', by decide, by decide⟩⟩

theorem isMarker_preconto : IsMarker "PRECONTO".toList :=
  ⟨by decide, ⟨'P', "RECONTO".toList, by decide, by decide⟩,
    ⟨"PRECONT".toList, 'O', by decide, by decide⟩⟩

theorem isMarker_comanda : IsMarker "COMANDA".toList :=
  ⟨by decide, ⟨'C', "OMANDA".toList, by decide, by decide⟩,
    ⟨"COMAND".toList, 'A', by decide, by decide⟩⟩

section
variable {model : DocumentModel}

/-- Without a footer, the visible text holds the literals of the lines. -/
theorem contains_visible (hfooter : model.footer = []) {literal : String}
    (hm : IsMarker literal.toList) :
    contains model.visible literal.toList = model.hasLiteral literal := by
  rw [DocumentModel.visible, hfooter, List.append_nil, contains_upper_lines hm, List.map_map]
  rfl

/-- What the worker computes, by the literals of the lines. -/
theorem documentSubtype_gestionale (hfooter : model.footer = []) {subtype : DocumentSubtype}
    (hs : model.metadata.subtype = some subtype) (hc : subtype ≠ .documentoCommerciale) :
    (documentSubtype model .gestionale).1 =
      if model.hasLiteral "COPIA CONFORME" then .copiaConforme
      else if model.hasLiteral "PRECONTO" then .preconto
      else if model.hasLiteral "COMANDA" then .comanda
      else subtype := by
  simp only [documentSubtype, literalMarkers, List.find?_cons, List.find?_nil,
    contains_visible hfooter isMarker_copiaConforme, contains_visible hfooter isMarker_preconto,
    contains_visible hfooter isMarker_comanda, hs]
  cases model.hasLiteral "COPIA CONFORME" <;> cases model.hasLiteral "PRECONTO" <;>
    cases model.hasLiteral "COMANDA" <;> cases subtype <;> first | rfl | exact absurd rfl hc

end

/-- What the parser computes, by the literals and the marks of the lines. -/
theorem managementSubtype_eq (document : ParsedReceipt) (prior : List ParsedReceipt) :
    ∃ rest, rest ≠ .comanda ∧ rest ≠ .documentoCommerciale ∧
      (managementSubtype document prior).1 =
        if document.model.hasLiteral "COPIA CONFORME" then .copiaConforme
        else if document.model.isCourseSheet then .comanda
        else if document.model.hasLiteral "PRECONTO" then .preconto
        else rest := by
  obtain ⟨rest, hcomanda, hcommerciale, heq⟩ : ∃ rest : DocumentSubtype, rest ≠ .comanda ∧
      rest ≠ .documentoCommerciale ∧ rest = if (copiedFrom document prior).isSome then .copiaConforme
        else if document.model.items ≠ [] ∧ document.model.totals ≠ [] ∧
          document.model.payments = [] ∧ document.model.taxes = [] then .preconto
        else .documentoGestionaleGenerico := by
    refine ⟨_, ?_, ?_, rfl⟩ <;> split <;> try split
    all_goals decide
  refine ⟨rest, hcomanda, hcommerciale, ?_⟩
  rw [heq]
  unfold managementSubtype DocumentModel.isCourseSheet DocumentModel.hasLiteral DocumentModel.hasMark
  simp only
  split
  · rfl
  split
  · rfl
  split
  · rfl
  cases copiedFrom document prior with
  | some commercial => rfl
  | none => simp only [Option.isSome_none, Bool.false_eq_true, if_false, apply_ite Prod.fst]

/-! ## Agreement -/

/-- Where the two classifications of a management document agree: a literal of a copy, or no other
literal that contradicts the marks of a course sheet. -/
def DocumentModel.Unambiguous (model : DocumentModel) : Prop :=
  model.hasLiteral "COPIA CONFORME" = false →
    if model.hasLiteral "PRECONTO" then model.isCourseSheet = false
    else model.hasLiteral "COMANDA" = true → model.isCourseSheet = true

instance (model : DocumentModel) : Decidable model.Unambiguous := by
  unfold DocumentModel.Unambiguous
  infer_instance

/-- The classification of the worker, of a management document the parser has classified. -/
theorem assigned_eq_iff (document : ParsedReceipt) (prior : List ParsedReceipt)
    (hfooter : document.model.footer = []) (evidence : Evidence) (relation : Option ParsedReceipt) :
    let subtype := (managementSubtype document prior).1
    (documentSubtype (document.assignSubtype subtype evidence relation).model .gestionale).1 =
      subtype ↔ document.model.Unambiguous := by
  intro subtype
  obtain ⟨rest, hcomanda, hcommerciale, heq⟩ := managementSubtype_eq document prior
  have hsub : subtype ≠ .documentoCommerciale := by
    rw [show subtype = _ from heq]
    split
    · decide
    split
    · decide
    split
    · decide
    · exact hcommerciale
  have hfooter' : (document.assignSubtype subtype evidence relation).model.footer = [] := hfooter
  rw [documentSubtype_gestionale hfooter' rfl hsub]
  change (if document.model.hasLiteral "COPIA CONFORME" = true then _ else
    if document.model.hasLiteral "PRECONTO" = true then _ else
    if document.model.hasLiteral "COMANDA" = true then _ else _) = subtype ↔ _
  rw [show subtype = _ from heq, DocumentModel.Unambiguous]
  cases document.model.hasLiteral "COPIA CONFORME" <;>
    cases document.model.hasLiteral "PRECONTO" <;> cases document.model.hasLiteral "COMANDA" <;>
    cases document.model.isCourseSheet <;> simp [Ne.symm hcomanda]

/-! ## The documents of a parse -/

/-- A management document gets no counter. -/
theorem attachResponseCounters_footer (correlations : List RequestResponseCorrelation)
    (request response : FramingResult) {ds : List ParsedReceipt}
    (h : ∀ d ∈ ds, d.model.footer = []) :
    Always (attachResponseCounters correlations request response ds) fun ds' =>
      ∀ d ∈ ds', d.documentType = .gestionale → d.model.footer = [] := by
  induction ds with
  | nil => exact .pure fun d hd => absurd hd List.not_mem_nil
  | cons d ds ih =>
    rw [attachResponseCounters_cons]
    have hd : Always (attachResponseCounter correlations request response d) fun d' =>
        d'.documentType = .gestionale → d'.model.footer = [] := by
      unfold attachResponseCounter
      split
      · exact .pure fun _ => h d List.mem_cons_self
      · next hcomm =>
        have hkind : d.documentType = .commerciale := by
          by_contra hne
          exact hcomm (.inl hne)
        split
        · exact .pure fun _ => h d List.mem_cons_self
        · refine (Always.any _).bind fun granted _ => .pure fun hk => ?_
          cases granted <;> simp [hkind] at hk
    refine hd.bind fun d' hd' => (ih fun e he => h e (List.mem_cons_of_mem d he)).bind
      fun ds' hds' => .pure fun e he => ?_
    rcases List.mem_cons.mp he with rfl | he
    · exact hd'
    · exact hds' e he

/-- A classified management document is one of the documents with its subtype. -/
theorem mem_assignDocumentSubtypes {prior ds : List ParsedReceipt} {d : ParsedReceipt}
    (h : d ∈ assignDocumentSubtypes prior ds) (hkind : d.documentType = .gestionale) :
    ∃ d₀ ∈ ds, d₀.documentType = .gestionale ∧ ∃ prior', d = d₀.assignSubtype
      (managementSubtype d₀ prior').1 (managementSubtype d₀ prior').2.1
        (managementSubtype d₀ prior').2.2 := by
  induction ds generalizing prior with
  | nil => cases h
  | cons d₀ ds ih =>
    unfold assignDocumentSubtypes at h
    split at h
    · next hk =>
      rcases List.mem_cons.mp h with rfl | h
      · exact absurd hkind (by rw [ParsedReceipt.assignSubtype, hk]; decide)
      · obtain ⟨d₁, hd₁, hrest⟩ := ih h
        exact ⟨d₁, List.mem_cons_of_mem _ hd₁, hrest⟩
    · next hk =>
      rcases List.mem_cons.mp h with rfl | h
      · exact ⟨d₀, List.mem_cons_self, hk, prior, rfl⟩
      · obtain ⟨d₁, hd₁, hrest⟩ := ih h
        exact ⟨d₁, List.mem_cons_of_mem _ hd₁, hrest⟩

/-- **The two classifications agree** on a management document of a parse exactly where its markers
are unambiguous. -/
theorem documentSubtype_eq_iff (lim : ParserLimits) (request response : Bytes)
    (result : ProtocolCopiesResult) (hok : parseProtocolCopies lim request response = .ok result)
    (d : ParsedReceipt) (hd : d ∈ result.documents) (hkind : d.documentType = .gestionale) :
    d.model.metadata.subtype = some (documentSubtype d.model .gestionale).1 ↔
      d.model.Unambiguous := by
  obtain ⟨req, resp, -, -, hparse⟩ := parseProtocolCopies_ok lim request response
  rw [hok] at hparse
  cases hparse
  obtain ⟨d₀, hd₀, hkind₀, prior, rfl⟩ := mem_assignDocumentSubtypes hd hkind
  have hdocs := (finalAssembler_tidy lim.maxDocuments req.frames
    (.new lim.maxSemanticFields)).documents
  have hfooter : d₀.model.footer = [] :=
    attachResponseCounters_footer _ req resp hdocs _ d₀ hd₀ hkind₀
  rw [show (d₀.assignSubtype _ _ _).model.metadata.subtype =
    some (managementSubtype d₀ prior).1 from rfl, Option.some_inj, eq_comm]
  exact assigned_eq_iff d₀ prior hfooter _ _

/-! ## A course sheet -/

/-- The request frame (address `00`, class `z`, sequence `0`) of an ASCII payload. -/
def requestFrame (data : String) : Bytes :=
  let ascii (t : Text) : Bytes := t.map fun c => UInt8.ofNat c.toNat
  let head := STX :: ascii ("00".toList ++ zeroPad 3 data.length ++ ['z'] ++ data.toList ++ ['0'])
  head ++ ascii (hex2 (calculateBcc head)) ++ [ETX]

/-- A management document with the marks of a course sheet and one more line. -/
def courseSheet (last : String) : Bytes :=
  ["=o", "=\"/(PORTATA: 1)", "=\"/(COPERTI: 2)", "=\"/(" ++ last ++ ")", "=o"].flatMap requestFrame

/-- The first document of a parse, if it is a management document. -/
def managementDocument (request : Bytes) : Option ParsedReceipt :=
  match parseProtocolCopies .default request [] with
  | .ok result => result.documents.head?.filter (·.documentType = .gestionale)
  | .error _ => none

theorem managementDocument_spec {request : Bytes} {d : ParsedReceipt}
    (h : managementDocument request = some d) :
    ∃ result, parseProtocolCopies .default request [] = .ok result ∧ d ∈ result.documents ∧
      d.documentType = .gestionale := by
  unfold managementDocument at h
  split at h
  · next result hok =>
    obtain ⟨hd, hkind⟩ := Option.filter_eq_some_iff.mp h
    exact ⟨result, hok, List.mem_of_head? hd, by simpa using hkind⟩
  · cases h

theorem documentSubtype_eq_iff_courseSheet :
    ∃ d, managementDocument (courseSheet "TAVOLO 4") = some d ∧
      d.model.metadata.subtype = some (documentSubtype d.model .gestionale).1 := by
  have h : (managementDocument (courseSheet "TAVOLO 4")).any
      (fun d => decide d.model.Unambiguous) = true := by decide +kernel
  obtain ⟨d, hd, hclear⟩ := (Option.any_eq_true _ _).mp h
  obtain ⟨result, hok, hmem, hkind⟩ := managementDocument_spec hd
  exact ⟨d, hd, (documentSubtype_eq_iff .default _ [] result hok d hmem hkind).mpr
    (of_decide_eq_true hclear)⟩

/-- A course sheet with a line `PRECONTO` is a `COMANDA` for the parser and a `PRECONTO` for the
worker. -/
theorem documentSubtype_ne :
    ¬ ∀ (lim : ParserLimits) (request response : Bytes) (result : ProtocolCopiesResult),
      parseProtocolCopies lim request response = .ok result → ∀ d ∈ result.documents,
        d.documentType = .gestionale →
          d.model.metadata.subtype = some (documentSubtype d.model .gestionale).1 := by
  intro hall
  have h : (managementDocument (courseSheet "PRECONTO")).any (fun d =>
      decide (d.model.metadata.subtype ≠ some (documentSubtype d.model .gestionale).1)) = true := by
    decide +kernel
  obtain ⟨d, hd, hne⟩ := (Option.any_eq_true _ _).mp h
  obtain ⟨result, hok, hmem, hkind⟩ := managementDocument_spec hd
  exact of_decide_eq_true hne (hall .default _ [] result hok d hmem hkind)

end RchProxy
