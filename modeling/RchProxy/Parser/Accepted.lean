import RchProxy.Parser.Footprint
import RchProxy.Parser.Staging

/-!
# A parse is taken

`_validate_parser_outputs` on a directory `_write_documents` has left: every reference of
`parsed.json` is to a file that is there, and no other output is. What the writer does not look at is
the size of `parsed.json`: the directory is taken just where that is within the bound.
-/

namespace RchProxy

open Py Lib Lib.Prog

/-! ## Digests -/

theorem isHexDigit_toLower : ∀ n < 16, isHexDigit (hexDigit n).toLower = true := by decide

/-- What `sha256` gives is a digest to the validation. -/
theorem isSha256_sha256 (b : Bytes) : isSha256 (sha256 b) = true := by
  have hword : ∀ w : Sha256.Word, ∀ c ∈ Sha256.wordHex w, isHexDigit c = true := by
    intro w c hc
    obtain ⟨i, -, rfl⟩ := List.mem_map.mp hc
    exact isHexDigit_toLower _ (Nat.mod_lt _ (by decide))
  have hall : ∀ c ∈ sha256 b, isHexDigit c = true := by
    intro c hc
    obtain ⟨w, -, hc⟩ := List.mem_flatMap.mp hc
    exact hword w c hc
  rw [isSha256, sha256_length, List.all_eq_true.mpr hall]
  rfl

/-- The name of an output has no directory in it. -/
theorem isPlainName_stem {code ending : Text} {kind : DocKind} {t : LocalTime} {n : Nat}
    (hcode : isJobCode code) (hending : '/' ∉ ending) :
    isPlainName (stemOf (stemBase code kind (humanCaptureTime t).1) n ++ ending) = true := by
  obtain ⟨tail, heq, hfirst, hmore⟩ := stemOf_eq_append (stemBase code kind (humanCaptureTime t).1) n
  have htail : '/' ∉ tail := by
    by_cases hn : n = 1
    · rw [hfirst hn]
      exact List.not_mem_nil
    · rw [hmore hn]
      exact no_slash_cons (by decide) (no_slash_zeroPad 2 n)
  simp only [isJobCode, Bool.and_eq_true, decide_eq_true_eq, List.all_eq_true] at hcode
  obtain ⟨⟨hlength, -⟩, hdigits⟩ := hcode
  have hbase : '/' ∉ stemBase code kind (humanCaptureTime t).1 :=
    no_slash_append (no_slash_of_digits hdigits) (no_slash_cons (by decide)
      (no_slash_cons (by cases kind <;> decide)
        (no_slash_cons (by decide) (no_slash_humanCaptureTime t))))
  rw [heq]
  have hslash := no_slash_append (no_slash_append hbase htail) hending
  have hlong : 4 ≤ (stemBase code kind (humanCaptureTime t).1 ++ tail ++ ending).length := by
    simp only [List.length_append, stemBase_length]
    omega
  have hne : stemBase code kind (humanCaptureTime t).1 ++ tail ++ ending ≠ [] := by
    intro hnil
    rw [hnil] at hlong
    exact absurd hlong (by decide)
  have hself : stemBase code kind (humanCaptureTime t).1 ++ tail ++ ending ≠ ".".toList := by
    intro hdot
    rw [hdot] at hlong
    exact absurd hlong (by decide)
  simp only [isPlainName, Bool.and_eq_true, Bool.not_eq_true', decide_eq_true_eq,
    List.contains_eq_mem, decide_eq_false_iff_not]
  exact ⟨⟨hne, hslash⟩, hself⟩

/-! ## References -/

/-- What a reference has to be, for a document of a type and one of its two outputs. -/
structure Reference (code documentType suffix : Text) (files : Dir) (w : Written) : Prop where
  plain : isPlainName w.name = true
  output : isParserOutput w.name = true
  start : startsWith w.name (code ++ '_' :: (documentType ++ ['_'])) = true
  ending : endsWith w.name suffix = true
  held : Held files w

theorem Held.isSha256 {files : Dir} {w : Written} (h : Held files w) : isSha256 w.sha256 = true := by
  obtain ⟨data, -, hsha⟩ := h
  rw [hsha]
  exact isSha256_sha256 data

/-- The fields of a reference, as they are read back. -/
theorem written_sortKeys (w : Written) :
    ∃ fields, (Written.json (some w)).sortKeys = .obj fields ∧
      Json.text? (Json.get "name".toList fields) = some w.name ∧
      Json.text? (Json.get "sha256".toList fields) = some w.sha256 := by
  let fields : List (Text × Json) :=
    [("name".toList, .str w.name), ("sha256".toList, .str w.sha256)]
  have hnodup : (fields.map (·.1)).Nodup := by simp [fields]
  have hname : ("name".toList, .str w.name) ∈ fields := by simp [fields]
  have hsha : ("sha256".toList, .str w.sha256) ∈ fields := by simp [fields]
  exact ⟨_, rfl, congrArg Json.text? (Json.get_sortKeys hnodup hname),
    congrArg Json.text? (Json.get_sortKeys hnodup hsha)⟩

theorem Outputs.Named.reference {code : Text} {seen : List Text} {o : Outputs} {files : Dir}
    (h : o.Named code seen) (hcode : isJobCode code) (hheld : ∀ w ∈ o.written, Held files w) :
    (∀ w ∈ o.txt, Reference code [o.kind.letter] ".txt".toList files w) ∧
      ∀ w ∈ o.pdf, Reference code [o.kind.letter] ".pdf".toList files w := by
  have houtput := h.isParserOutput hcode
  obtain ⟨t, n, -, htxt, hpdf⟩ := h
  have hreference : ∀ ending : Text, '/' ∉ ending → ∀ w ∈ o.written,
      w.name = stemOf (stemBase code o.kind (humanCaptureTime t).1) n ++ ending →
      Reference code [o.kind.letter] ending files w := by
    intro ending hslash w hw hname
    refine ⟨?_, houtput w hw, ?_, ?_, hheld w hw⟩
    · rw [hname]
      exact isPlainName_stem hcode hslash
    · rw [hname]
      exact startsWith_stem n ending
    · rw [hname, endsWith, List.isSuffixOf_iff_suffix]
      exact List.suffix_append ..
  constructor
  · intro w hw
    exact hreference _ (by decide) w (List.mem_append_left _ (Option.mem_toList.mpr hw)) (htxt w hw)
  · intro w hw
    exact hreference _ (by decide) w (List.mem_append_right _ (Option.mem_toList.mpr hw)) (hpdf w hw)

namespace Job

variable {dir : Text} {manifest : Option Node} {files : Dir} {d : JobDir}

theorem answers_validateReference {code documentType suffix : Text} {output : Option Written}
    {referenced : List Text} (h : Staging dir manifest files d)
    (hw : ∀ w ∈ output, Reference code documentType suffix files w)
    (hnew : ∀ w ∈ output, w.name ∉ referenced) :
    Answers (· = output.toList.map (·.name) ++ referenced)
      (validateReference code dir documentType suffix (some (Written.json output).sortKeys)
        referenced) d := by
  cases output with
  | none => exact .pure rfl
  | some w =>
    have hreference := hw w rfl
    obtain ⟨fields, hjson, hname, hsha⟩ := written_sortKeys w
    rw [hjson]
    simp only [validateReference, hname, hsha]
    obtain ⟨data, hdata, hdigest⟩ := hreference.held
    have hread : d.read ⟨some dir, w.name⟩ = .ok data := by
      rw [read_staging h, hdata]
    refine .pass ?_ (.bind ((answers_isFile _).mono ?_))
    · simp [hreference.plain, hreference.output, hreference.start, hreference.ending,
        hreference.held.isSha256, hnew w rfl]
    rintro _ rfl
    rw [kind_staging h, hdata]
    refine .pass (by simp) (.bind ((answers_sha256File hread).mono ?_))
    rintro _ rfl
    exact .pass (fun hne => hne hdigest.symm) (.pure rfl)

/-- The two outputs of a document, as they are read back. -/
theorem outputs_sortKeys (txt pdf : Option Written) :
    ∃ fields, (Json.obj [("txt".toList, Written.json txt), ("pdf".toList, Written.json pdf)]).sortKeys =
        .obj fields ∧
      Json.get "txt".toList fields = some (Written.json txt).sortKeys ∧
      Json.get "pdf".toList fields = some (Written.json pdf).sortKeys := by
  let fields : List (Text × Json) :=
    [("txt".toList, Written.json txt), ("pdf".toList, Written.json pdf)]
  have hnodup : (fields.map (·.1)).Nodup := by simp [fields]
  have htxt : ("txt".toList, Written.json txt) ∈ fields := by simp [fields]
  have hpdf : ("pdf".toList, Written.json pdf) ∈ fields := by simp [fields]
  exact ⟨_, rfl, Json.get_sortKeys hnodup htxt, Json.get_sortKeys hnodup hpdf⟩

theorem answers_validateDocument {code : Text} {document : Json} {o : Outputs}
    {referenced : List Text} (h : Staging dir manifest files d) (hdocument : Describes document o)
    (htxt : ∀ w ∈ o.txt, Reference code [o.kind.letter] ".txt".toList files w)
    (hpdf : ∀ w ∈ o.pdf, Reference code [o.kind.letter] ".pdf".toList files w)
    (hnew : (o.written.map (·.name) ++ referenced).Nodup) :
    Answers (fun names => names.Perm (o.written.map (·.name) ++ referenced))
      (validateDocument code dir document.sortKeys referenced) d := by
  obtain ⟨-, fields, rfl, hnodup, htype, houtputs⟩ := hdocument
  obtain ⟨outputs, hsorted, hgettxt, hgetpdf⟩ := outputs_sortKeys o.txt o.pdf
  have htype' : Json.text? (Json.get "type".toList (Json.sortPairs (Json.sortFields fields))) =
      some [o.kind.letter] := congrArg Json.text? (Json.get_sortKeys hnodup htype)
  have houtputs' : Json.fields? (Json.get "outputs".toList
      (Json.sortPairs (Json.sortFields fields))) = some outputs := by
    rw [Json.get_sortKeys hnodup houtputs, hsorted]
    rfl
  simp only [Json.sortKeys, validateDocument, htype', houtputs', hgettxt, hgetpdf]
  have hletter : [o.kind.letter] = ['C'] ∨ [o.kind.letter] = ['G'] := by
    cases o.kind <;> decide
  have hnames : o.written.map (·.name) = o.txt.toList.map (·.name) ++ o.pdf.toList.map (·.name) :=
    List.map_append
  rw [hnames] at hnew ⊢
  have hperm : (o.pdf.toList.map (·.name) ++ (o.txt.toList.map (·.name) ++ referenced)).Perm
      (o.txt.toList.map (·.name) ++ o.pdf.toList.map (·.name) ++ referenced) := by
    rw [← List.append_assoc]
    exact List.perm_append_comm.append_right _
  have hnew' := hperm.nodup_iff.mpr hnew
  refine .pass (not_not.mpr hletter) (.bind ?_)
  refine (answers_validateReference h htxt fun w hw hmem => ?_).mono ?_
  · exact List.disjoint_of_nodup_append (List.nodup_append.mp hnew').2.1
      (List.mem_map_of_mem (Option.mem_toList.mpr hw)) hmem
  rintro _ rfl
  refine (answers_validateReference h hpdf fun w hw hmem => ?_).mono ?_
  · exact List.disjoint_of_nodup_append hnew' (List.mem_map_of_mem (Option.mem_toList.mpr hw)) hmem
  · rintro _ rfl
    exact hperm

/-- The documents that are described, one by one: what they reference is what was written. -/
theorem answers_validateDocuments {code : Text} {documents : List Json} {outs : List Outputs}
    {referenced : List Text} (h : Staging dir manifest files d)
    (hdescribes : List.Forall₂ Describes documents outs)
    (hreference : ∀ o ∈ outs, (∀ w ∈ o.txt, Reference code [o.kind.letter] ".txt".toList files w) ∧
      ∀ w ∈ o.pdf, Reference code [o.kind.letter] ".pdf".toList files w)
    (hnew : ((allWritten outs).map (·.name) ++ referenced).Nodup) :
    Answers (fun names => names.Perm ((allWritten outs).map (·.name) ++ referenced))
      (validateDocuments code dir (Json.sortItems documents) referenced) d := by
  induction hdescribes generalizing referenced with
  | nil => exact .pure (.refl _)
  | @cons document o documents outs hdocument _ ih =>
    have hperm : ((allWritten (o :: outs)).map (·.name) ++ referenced).Perm
        ((allWritten outs).map (·.name) ++ (o.written.map (·.name) ++ referenced)) := by
      rw [← List.append_assoc, allWritten, List.flatMap_cons, List.map_append]
      exact List.perm_append_comm.append_right _
    have hnew' := hperm.nodup_iff.mp hnew
    obtain ⟨htxt, hpdf⟩ := hreference o List.mem_cons_self
    refine .bind ((answers_validateDocument h hdocument htxt hpdf
      (List.nodup_append.mp hnew').2.1).mono fun names hnames => ?_)
    have hnames' := hnames.append_left ((allWritten outs).map (·.name))
    refine (ih (fun o ho => hreference o (List.mem_cons_of_mem _ ho))
      (hnames'.nodup_iff.mpr hnew')).mono fun names' hnames'' => ?_
    exact hnames''.trans (hnames'.trans hperm.symm)

/-! ## The directory -/

theorem answers_actualOutputs (h : Staging dir manifest files d) (names : List Text) :
    Answers (fun actual => ∀ n, n ∈ actual ↔
        n ∈ names ∧ (files.lookup n).isSome ∧ isParserOutput n = true)
      (actualOutputs dir names) d := by
  induction names with
  | nil => exact .pure (by simp)
  | cons name names ih =>
    refine .bind ((answers_isFile _).mono ?_)
    rintro _ rfl
    refine .bind (ih.mono fun actual hactual => .pure fun n => ?_)
    rw [kind_staging h]
    cases hlookup : files.lookup name with
    | none =>
      simp only [Option.map_none, Bool.false_and, Bool.false_eq_true, if_false, hactual,
        List.mem_cons]
      constructor
      · rintro ⟨hn, hrest⟩
        exact ⟨.inr hn, hrest⟩
      · rintro ⟨rfl | hn, hsome, houtput⟩
        · rw [hlookup] at hsome
          cases hsome
        · exact ⟨hn, hsome, houtput⟩
    | some data =>
      simp only [Option.map_some, Bool.true_and]
      split
      · next houtput =>
        simp only [List.mem_cons, hactual]
        constructor
        · rintro (rfl | ⟨hn, hrest⟩)
          · exact ⟨.inl rfl, by rw [hlookup]; rfl, houtput⟩
          · exact ⟨.inr hn, hrest⟩
        · rintro ⟨rfl | hn, hrest⟩
          · exact .inl rfl
          · exact .inr ⟨hn, hrest⟩
      · next houtput =>
        simp only [List.mem_cons, hactual]
        constructor
        · rintro ⟨hn, hrest⟩
          exact ⟨.inr hn, hrest⟩
        · rintro ⟨rfl | hn, hrest⟩
          · exact absurd hrest.2 houtput
          · exact ⟨hn, hrest⟩

theorem plainItems_iff {items : List Json} : Json.PlainItems items ↔ ∀ v ∈ items, v.Plain := by
  induction items with
  | nil => exact iff_of_true trivial nofun
  | cons v items ih => rw [Json.PlainItems, ih, List.forall_mem_cons]

theorem plain_parsedMetadata {r : Rendering} {code manifestHash : Text}
    {analysis : ProtocolAnalysis} {documents : List Json} (h : ∀ document ∈ documents, document.Plain) :
    (parsedMetadata r code manifestHash analysis documents).Plain := by
  have hdocuments := plainItems_iff.mpr h
  have hissues : Json.PlainItems (analysis.protocol.issues.map fun i => (r.issueToDict i).val) :=
    plainItems_iff.mpr fun v hv => by
      obtain ⟨i, -, rfl⟩ := List.mem_map.mp hv
      exact (r.issueToDict i).property
  have hcorrelations :
      Json.PlainItems (analysis.protocol.correlations.map fun c => (r.correlationToDict c).val) :=
    plainItems_iff.mpr fun v hv => by
      obtain ⟨c, -, rfl⟩ := List.mem_map.mp hv
      exact (r.correlationToDict c).property
  exact ⟨trivial, trivial, trivial, trivial, trivial, trivial, trivial, trivial, hdocuments, hissues,
    hcorrelations, ⟨trivial, trivial, trivial, trivial⟩, trivial⟩

/-- `parsed.json`, as the validation reads it. -/
structure ReadBack (code manifestHash : Text) (documents : List Json)
    (fields : List (Text × Json)) : Prop where
  schema : Json.text? (Json.get "schema".toList fields) = some parsedSchema
  codiceDoc : Json.text? (Json.get "codice_doc".toList fields) = some code
  manifest : Json.text? (Json.get "capture_manifest".toList fields) = some "../manifest.json".toList
  manifestHash : Json.text? (Json.get "capture_manifest_sha256".toList fields) = some manifestHash
  count : Json.int? (Json.get "document_count".toList fields) = some (documents.length : Int)
  documents : Json.items? (Json.get "documents".toList fields) = some (Json.sortItems documents)

theorem readBack_parsedMetadata (r : Rendering) (code manifestHash : Text)
    (analysis : ProtocolAnalysis) (documents : List Json) :
    ∃ fields, (parsedMetadata r code manifestHash analysis documents).sortKeys = .obj fields ∧
      ReadBack code manifestHash documents fields := by
  obtain ⟨unsorted, hunsorted⟩ : ∃ unsorted,
      parsedMetadata r code manifestHash analysis documents = .obj unsorted := ⟨_, rfl⟩
  have hnodup : (unsorted.map (·.1)).Nodup := by
    cases hunsorted
    simp
  have hget : ∀ key v, (key, v) ∈ unsorted →
      Json.get key (Json.sortPairs (Json.sortFields unsorted)) = some v.sortKeys :=
    fun _ _ hmem => Json.get_sortKeys hnodup hmem
  rw [hunsorted]
  cases hunsorted
  exact ⟨_, rfl, {
    schema := congrArg Json.text? (hget _ (.str parsedSchema) (by simp))
    codiceDoc := congrArg Json.text? (hget _ (.str code) (by simp))
    manifest := congrArg Json.text? (hget _ (.str "../manifest.json".toList) (by simp))
    manifestHash := congrArg Json.text? (hget _ (.str manifestHash) (by simp))
    count := congrArg Json.int? (hget _ (.int documents.length) (by simp))
    documents := congrArg Json.items? (hget _ (.arr documents) (by simp)) }⟩

theorem sortItems_length (items : List Json) : (Json.sortItems items).length = items.length := by
  induction items with
  | nil => rfl
  | cons v items ih => rw [Json.sortItems, List.length_cons, List.length_cons, ih]

section
variable {r : Rendering} {code : Text} {capture data : Bytes} {analysis : ProtocolAnalysis}
  {documents : List Json} {outs : List Outputs} {fields : List (Text × Json)}

theorem answers_validateBinding (h : Staging dir (some (.file capture)) files d)
    (hfields : ReadBack code (sha256 capture) documents fields) :
    Answers (fun _ => True) (validateBinding fields) d := by
  have hread : d.read { name := manifestName } = .ok capture := by
    simp only [JobDir.read, JobDir.node, h.manifest]
  simp only [validateBinding, hfields.manifestHash]
  refine .pass ?_ (.bind ((answers_sha256File hread).mono ?_))
  · exact not_not.mpr ⟨hfields.manifest, isSha256_sha256 capture⟩
  rintro _ rfl
  exact .pass (fun hne => hne rfl) (.pure trivial)

theorem answers_validateListing (h : Staging dir manifest files d) (hcode : isJobCode code)
    (hdelivered : Delivered r code capture analysis documents outs data files)
    (hfields : ReadBack code (sha256 capture) documents fields) :
    Answers (· = documents.length)
      (validateListing code dir (some documents.length) fields) d := by
  have hlength := sortItems_length documents
  have hkeys : d.iterdir (some dir) = .ok files.keys := by
    simp only [JobDir.iterdir, h.lookup]
  have hreference : ∀ o ∈ outs, (∀ w ∈ o.txt, Reference code [o.kind.letter] ".txt".toList files w) ∧
      ∀ w ∈ o.pdf, Reference code [o.kind.letter] ".pdf".toList files w := by
    intro o ho
    obtain ⟨seen, hnamed⟩ := hdelivered.named o ho
    exact hnamed.reference hcode fun w hw => hdelivered.held w (List.mem_flatMap.mpr ⟨o, ho, hw⟩)
  simp only [validateListing, hfields.documents]
  refine .pass (by rw [hfields.count, hlength]; exact fun hne => hne rfl) (.pass (by simp [hlength]) ?_)
  refine .bind ((answers_validateDocuments h hdelivered.describes hreference ?_).mono ?_)
  · rw [List.append_nil]
    exact hdelivered.nodup
  intro referenced hreferenced
  rw [List.append_nil] at hreferenced
  refine .bind (.bind ⟨rfl, fun _ => ⟨rfl, .ofExcept hkeys ?_⟩⟩)
  refine .bind ((answers_actualOutputs h files.keys).mono fun actual hactual => .pass ?_ (.pure hlength))
  have hall : ∀ n, n ∈ actual ↔ n ∈ referenced := by
    intro n
    rw [hactual, hreferenced.mem_iff]
    constructor
    · rintro ⟨-, hsome, houtput⟩
      exact hdelivered.only n hsome houtput
    · intro hn
      obtain ⟨w, hw, rfl⟩ := List.mem_map.mp hn
      obtain ⟨o, ho, hwo⟩ := List.mem_flatMap.mp hw
      obtain ⟨seen, hnamed⟩ := hdelivered.named o ho
      obtain ⟨data, hdata, -⟩ := hdelivered.held w hw
      have hsome : (files.lookup w.name).isSome := by rw [hdata]; rfl
      exact ⟨AList.mem_keys.mp (AList.lookup_isSome.mp hsome), hsome,
        hnamed.isParserOutput hcode w hwo⟩
  simp [hall]

/-- `parsed.json` is read where it is not too long. -/
theorem answers_readParserMetadata {p : Loc} {maxBytes : Nat} (hread : d.read p = .ok data)
    (hkind : d.kind p = some (.file data.length)) (hpos : data ≠ [])
    (hsize : data.length ≤ maxBytes) (hjson : loadsBytes data = .ok (.obj fields)) :
    Answers (· = fields) (readParserMetadata p maxBytes) d := by
  refine .bind ((answers_isFile p).mono ?_)
  rintro _ rfl
  rw [hkind]
  refine .pass (by simp) (.bind (.bind ((answers_kind p).mono ?_)))
  rintro _ rfl
  rw [hkind]
  have hvalue : Answers (· = .obj fields) (readJson p) d :=
    .bind ((answers_read hread).mono fun _ heq => .ofExcept (heq ▸ hjson) rfl)
  refine .pure (.pass ?_ (.bind (Safe.tryCatch (Safe.mono hvalue ?_ fun _ _ _ hE => hE.elim))))
  · rintro (hzero | hlong)
    · exact hpos (List.length_eq_zero_iff.mp hzero)
    · exact absurd hlong (Nat.not_lt.mpr hsize)
  · rintro _ _ - rfl
    exact .pure rfl

/-- `parsed.json` is not read where it is too long. -/
theorem refuses_readParserMetadata {p : Loc} {maxBytes : Nat}
    (hkind : d.kind p = some (.file data.length)) (hsize : maxBytes < data.length) :
    Returns (fun _ _ => False) (readParserMetadata p maxBytes) d := by
  refine .bind (returns_isFile ?_)
  rw [hkind]
  refine .ite (fun _ => .throw) fun _ => .bind (.bind (returns_kind ?_))
  rw [hkind]
  exact .pure (.ite (fun _ => .throw) fun hpass => absurd (.inr hsize) hpass)

/-- A directory as a parse leaves it is taken, where its `parsed.json` is not too long. -/
theorem answers_validateParserOutputs {config : Config} (hcode : isJobCode code)
    (h : Staging dir (some (.file capture)) files d)
    (hdelivered : Delivered r code capture analysis documents outs data files)
    (hsize : data.length ≤ config.maxPayloadBytes) :
    Answers (· = (documents.length, sha256 data))
      (validateParserOutputs config code dir (some (sha256 data)) (some documents.length)) d := by
  have hkindDir : d.kind { name := dir } = some .dir := by
    simp only [JobDir.kind, JobDir.node, h.lookup, Option.map_some]
  have hread : d.read ⟨some dir, "parsed.json".toList⟩ = .ok data := by
    rw [read_staging h, hdelivered.parsed]
  have hkind : d.kind ⟨some dir, "parsed.json".toList⟩ = some (.file data.length) := by
    rw [kind_staging h, hdelivered.parsed]
    rfl
  have hplain : ∀ document ∈ documents, document.Plain := by
    intro document hdocument
    obtain ⟨i, hi, rfl⟩ := List.getElem_of_mem hdocument
    exact (hdelivered.describes.get hi (hdelivered.describes.length_eq ▸ hi)).1
  obtain ⟨fields, hsorted, hfields⟩ :=
    readBack_parsedMetadata r code (sha256 capture) analysis documents
  have hjson : loadsBytes data = .ok (.obj fields) := by
    rw [loadsBytes_jsonBytes hdelivered.json (plain_parsedMetadata hplain), hsorted]
  have hpos : data ≠ [] := by
    rintro rfl
    cases hjson
  refine .bind ((answers_isDir hkindDir).mono ?_)
  rintro _ rfl
  refine .pass (by simp) (.bind ((answers_isFile _).mono ?_))
  rintro _ rfl
  rw [hkind]
  refine .pass (by simp) (.bind ((answers_sha256File hread).mono ?_))
  rintro _ rfl
  refine .pass (by simp) (.bind ((answers_readParserMetadata hread hkind hpos hsize hjson).mono ?_))
  rintro _ rfl
  refine .pass (not_not.mpr ⟨hfields.schema, hfields.codiceDoc⟩) ?_
  refine .bind ((answers_validateBinding h hfields).mono fun _ _ => ?_)
  refine .bind ((answers_validateListing h hcode hdelivered hfields).mono ?_)
  rintro _ rfl
  exact .pure rfl

/-- It is not taken where its `parsed.json` is too long. -/
theorem refuses_validateParserOutputs {config : Config} {digest : Option Text} {count : Option Nat}
    (hkind : d.kind ⟨some dir, "parsed.json".toList⟩ = some (.file data.length))
    (hsize : config.maxPayloadBytes < data.length) :
    Returns (fun _ _ => False) (validateParserOutputs config code dir digest count) d := by
  refine .bind (returns_isDir (.ite (fun _ => .throw) fun _ => .bind (returns_isFile ?_)))
  refine .ite (fun _ => .throw) fun _ => .bind (returns_sha256File fun _ _ => ?_)
  refine .ite (fun _ => .throw) fun _ => .bind ((refuses_readParserMetadata hkind hsize).mono ?_)
  exact fun _ _ hfalse => hfalse.elim

end

end Job

/--
The directory a parse has left is taken, with the count and the digest it was given, if and only if
its `parsed.json` is no longer than the bound on a captured payload.
-/
theorem validateParserOutputs_writeDocuments (r : Rendering) (config : Config)
    (loaded : LoadedSpoolJob) (hcode : isJobCode loaded.jobDir) (token : LeaseToken)
    (cs : List Choice) (d d' : JobDir) (count : Nat) (digest : Text)
    (hrun : run JobDir.exec cs (Job.writeDocuments r config loaded token) d =
      some (.ok (count, digest), d')) :
    Succeeds JobDir.exec (Job.validateParserOutputs config loaded.jobDir (stagingName token)
        (some digest) (some count)) d' (count, digest) ↔
      ∃ data, d'.read ⟨some (stagingName token), "parsed.json".toList⟩ = .ok data ∧
        data.length ≤ config.maxPayloadBytes := by
  obtain ⟨answer, heq, capture, analysis, documents, outs, data, files, h, hdelivered, hanswer⟩ :=
    (Safe.run (Job.returns_writeDocuments r config hcode token d) hrun).resolve_right nofun
  cases heq
  cases hanswer
  have hread : d'.read ⟨some (stagingName token), "parsed.json".toList⟩ = .ok data := by
    rw [Job.read_staging h, hdelivered.parsed]
  constructor
  · intro hsucceeds
    refine ⟨data, hread, Nat.not_lt.mp fun hlong => ?_⟩
    have hkind : d'.kind ⟨some (stagingName token), "parsed.json".toList⟩ =
        some (.file data.length) := by
      rw [Job.kind_staging h, hdelivered.parsed]
      rfl
    exact Safe.not_succeeds (Job.refuses_validateParserOutputs hkind hlong) hsucceeds
  · rintro ⟨data', hdata', hsize⟩
    rw [hread] at hdata'
    cases hdata'
    exact Safe.succeeds (Job.answers_validateParserOutputs hcode h hdelivered hsize)

/-! ## A run -/

/-- A rendering that writes little, for a run. -/
def Rendering.brief : Rendering where
  fromisoformat := fun _ => none
  astimezone := fun _ => .ok ⟨"1970-01-01".toList, 0, 0, 0, 0, "+0000".toList⟩
  renderCleanText := fun header _ => header.headD []
  renderPdf := fun _ _ => .ok (encodeUtf8 "%PDF-1.4".toList)
  receiptToDict := fun document => ⟨.obj [("document_id".toList, .str document.documentId.toList),
    ("complete".toList, .bool document.complete)], trivial, trivial, trivial⟩
  issueToDict := fun issue => ⟨.obj [("detail".toList, .str issue.detail.toList),
    ("evidence".toList, .str issue.evidence.text)], trivial, trivial, trivial⟩
  correlationToDict := fun c => ⟨.obj [("request_frame_id".toList, .int c.requestFrameId)],
    trivial, trivial⟩

/-- A management document that opens and closes, as it is loaded. -/
def sampleLoaded : LoadedSpoolJob where
  jobDir := "0001".toList
  manifest := [("schema".toList, .str captureSchema), ("codice_doc".toList, .str "0001".toList),
    ("timeline_event_count".toList, .int 1)]
  request := [2, 48, 48, 48, 48, 50, 122, 61, 111, 48, 50, 56, 3] ++
    [2, 48, 48, 48, 48, 50, 122, 61, 111, 49, 50, 57, 3]
  response := [6]
  timelinePath := "timeline.jsonl".toList
  codiceDoc := rfl

/-- The bytes of a value on a line. -/
def jsonLine (v : Json) : Bytes :=
  match Json.dumps .compact v with
  | .ok line => encodeUtf8 (line ++ ['\n'])
  | .error _ => []

/-- Its directory, claimed by a worker. -/
def sampleClaimed : JobDir :=
  (((∅ : JobDir).insert manifestName (.file (jsonLine (.obj sampleLoaded.manifest)))).insert
      sampleLoaded.timelinePath (.file (jsonLine (.obj [
        ("direction".toList, .str (StreamDirection.text .clientToRch)),
        ("job_offset".toList, .int 0), ("byte_count".toList, .int sampleLoaded.request.length),
        ("received_unix_ns".toList, .int 0)])))).insert
    StateFile.processing.name (.file (jsonLine (.obj [("schema".toList, .str processingSchema),
      ("token".toList, .str Choice.quiet.uuid.val)])))

/-- The size of `parsed.json` after a parse of the sample job. -/
def sampleParsedSize (config : Config) : Option Nat :=
  match run JobDir.exec (List.replicate 64 Choice.quiet)
      (Job.writeDocuments .brief config sampleLoaded Choice.quiet.uuid) sampleClaimed with
  | some (.ok _, d') =>
    (d'.read ⟨some (stagingName Choice.quiet.uuid), "parsed.json".toList⟩).toOption.map List.length
  | _ => none

/-- A parser that allows 64 KiB takes the parse of the sample job. -/
theorem validateParserOutputs_sample :
    let config := { Config.sample .abort with
      maxPayloadBytes := 65536
      maxPayloadBytes_range := by decide }
    ∃ count digest d', run JobDir.exec (List.replicate 64 Choice.quiet)
        (Job.writeDocuments .brief config sampleLoaded Choice.quiet.uuid) sampleClaimed =
          some (.ok (count, digest), d') ∧
      Succeeds JobDir.exec (Job.validateParserOutputs config sampleLoaded.jobDir
        (stagingName Choice.quiet.uuid) (some digest) (some count)) d' (count, digest) := by
  intro config
  have hsize : (sampleParsedSize config).any (· ≤ 65536) = true := by decide +kernel
  unfold sampleParsedSize at hsize
  split at hsize
  · next answer d' hrun =>
    cases hread : d'.read ⟨some (stagingName Choice.quiet.uuid), "parsed.json".toList⟩ with
    | error e =>
      rw [hread] at hsize
      cases hsize
    | ok data =>
      rw [hread] at hsize
      exact ⟨answer.1, answer.2, d', hrun, (validateParserOutputs_writeDocuments .brief config
        sampleLoaded (by decide) _ _ _ _ _ _ hrun).mpr ⟨data, hread, of_decide_eq_true hsize⟩⟩
  · cases hsize

end RchProxy
