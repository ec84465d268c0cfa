import RchProxy.Capture.Recorder
import RchProxy.Storage.Published

/-!
# Loading what was published

A capture that is published is loaded back as it was written: `load_spool_job` returns its RAW bytes
and its manifest, unless one of three sizes is over its limit (`loadSpoolJob_published`).
-/

namespace RchProxy

open Py Lib Lib.Prog

/-- What a job is loaded as. -/
def LoadedSpoolJob.view (job : LoadedSpoolJob) : Text × List (Text × Json) × Bytes × Bytes × Text :=
  (job.jobDir, job.manifest, job.request, job.response, job.timelinePath)

/-- A size of a load is within its limit. -/
def JobDir.Fits (d : JobDir) (name : Text) (limit : Nat) : Prop :=
  ∀ n, d.kind { name := name } = some (.file n) → n ≤ limit

namespace Job

variable {α β : Type} {d : JobDir} {P : Prop}

/-- The program only looks: it returns a value with `Q` where `P` holds, and raises where it does
not. -/
abbrev Decides (P : Prop) (Q : α → Prop) (m : Job α) (d : JobDir) : Prop :=
  Safe JobDir.exec (· = d) (fun a _ => P ∧ Q a) (fun _ _ => ¬ P) m d

variable {Q : α → Prop}

/-- First a program that returns, whatever is chosen. -/
theorem Decides.after {m : Job β} {f : β → Job α} (h : Answers (fun b => Decides P Q (f b) d) m d) :
    Decides P Q (m >>= f) d := by
  refine Safe.bind (Safe.mono h ?_ fun _ _ _ h => h.elim)
  rintro b _ rfl h
  exact h

/-- A check. -/
theorem Decides.check {c : Prop} [Decidable c] {e : Error} {m : Job α} (hc : P → ¬ c)
    (h : ¬ c → Decides P Q m d) : Decides P Q (if c then throw e else m) d := by
  split
  · next hfail => exact Safe.throw rfl fun hP => hc hP hfail
  · next hpass => exact h hpass

theorem Decides.pure {a : α} (hP : P) (hQ : Q a) : Decides P Q (Pure.pure a : Job α) d :=
  Safe.pure rfl ⟨hP, hQ⟩

theorem answers_size {p : Loc} {n : Nat} (h : d.kind p = some (.file n)) :
    Answers (· = n) (size p) d := by
  refine .bind ((answers_kind p).mono ?_)
  rintro _ rfl
  rw [h]
  exact .pure rfl

theorem answers_readJson {p : Loc} {data : Bytes} {v : Json} (hread : d.read p = .ok data)
    (hv : loadsBytes data = .ok v) : Answers (· = v) (readJson p) d := by
  refine .bind ((answers_read hread).mono ?_)
  rintro _ rfl
  exact .ofExcept hv rfl

theorem Answers.tryCatch {m : Job α} {handle : Error → Job α} (h : Answers Q m d) :
    Answers Q (Prog.tryCatch m handle) d :=
  Safe.tryCatch (Safe.mono h (fun _ _ _ hQ => hQ) fun _ _ _ hE => hE.elim)

theorem answers_safeArtifact {name : Text} {n : Nat} (hplain : isPlainName name = true)
    (h : d.kind { name := name } = some (.file n)) :
    Answers (· = name) (safeArtifact (some (.str name))) d := by
  simp only [safeArtifact, Json.text?, hplain, Bool.not_true, Bool.false_eq_true, if_false]
  refine .bind ((answers_isFile _).mono ?_)
  rintro _ rfl
  rw [h]
  exact .pure rfl

theorem answers_checkDigest {hashes : List (Text × Json)} {key : Artifact} {name : Text}
    {data : Bytes} (hread : d.read { name := name } = .ok data)
    (hdigest : Json.text? (Json.get key.key hashes) = some (sha256 data)) :
    Answers (fun _ => True) (checkDigest hashes key name) d := by
  refine .bind ((answers_sha256File hread).mono ?_)
  rintro _ rfl
  refine .pass (not_not.mpr hdigest) (.pure trivial)

end Job

-- from here on a program is taken apart by the rules only
attribute [local irreducible] Safe

namespace PublishedCapture

variable {config : Config} {job : CapturedJob} {code : Text} {figures : Figures}
  {content : Artifact → Bytes} {names : FileNames} {d : JobDir} {maxBytes : Nat}

/-- The manifest, as it is read back. -/
def manifest (config : Config) (job : CapturedJob) (code : Text) (names : FileNames)
    (figures : Figures) : List (Text × Json) :=
  Json.sortPairs
    (Json.sortFields (captureManifest config job code names (publishedStatus job) figures))

theorem mem_captureManifest :
    ("schema".toList, Json.str captureSchema) ∈
        captureManifest config job code names (publishedStatus job) figures ∧
      ("codice_doc".toList, .str code) ∈
        captureManifest config job code names (publishedStatus job) figures ∧
      ("files".toList, artifactMap names.get) ∈
        captureManifest config job code names (publishedStatus job) figures ∧
      ("sha256".toList, (figures.sha256.map artifactMap).getD (.obj [])) ∈
        captureManifest config job code names (publishedStatus job) figures :=
  ⟨List.mem_of_getElem? (i := 0) rfl, List.mem_of_getElem? (i := 2) rfl,
    List.mem_of_getElem? (i := 30) rfl, List.mem_of_getElem? (i := 31) rfl⟩

theorem get_manifest {key : Text} {v : Json}
    (h : (key, v) ∈ captureManifest config job code names (publishedStatus job) figures) :
    Json.get key (manifest config job code names figures) = some v.sortKeys :=
  Json.get_sortKeys (captureManifest_nodup config job code names (publishedStatus job) figures) h

/-- A map of the manifest, as it is read back. -/
def artifactFields (value : Artifact → Text) : List (Text × Json) :=
  Json.sortPairs (Json.sortFields [(Artifact.key .requestRaw, .str (value .requestRaw)),
    (Artifact.key .responseRaw, .str (value .responseRaw)),
    (Artifact.key .timeline, .str (value .timeline))])

theorem sortKeys_artifactMap (value : Artifact → Text) :
    (artifactMap value).sortKeys = .obj (artifactFields value) := rfl

theorem get_artifactFields (value : Artifact → Text) (key : Artifact) :
    Json.get key.key (artifactFields value) = some (.str (value key)) := by
  have hnodup : [Artifact.key .requestRaw, Artifact.key .responseRaw, Artifact.key .timeline].Nodup := by
    decide
  refine Json.get_sortKeys (v := .str (value key)) (by simpa using hnodup) ?_
  cases key <;> simp

end PublishedCapture

/-! ## The load -/

namespace Job

variable {P : Prop} {code : Text} {content : Artifact → Bytes} {names : FileNames} {d : JobDir}
  {maxBytes : Nat} {value files hashes ready : List (Text × Json)} {readyBytes manifestBytes : Bytes}

theorem file_kind {name : Text} {data : Bytes} (h : d.lookup name = some (.file data)) :
    d.kind { name := name } = some (.file data.length) := by
  simp only [JobDir.kind, JobDir.node, h, Option.map_some]

/-- The capture files are taken where the two RAW files are not too long together. -/
theorem decides_loadArtifacts
    (hcode : Json.text? (Json.get "codice_doc".toList value) = some code)
    (hfiles : Json.get "files".toList value = some (.obj files))
    (hhashes : Json.get "sha256".toList value = some (.obj hashes))
    (hnames : ∀ key : Artifact, Json.get key.key files = some (.str (names.get key)))
    (hdigest : ∀ key : Artifact, Json.get key.key hashes = some (.str (sha256 (content key))))
    (hplain : ∀ key, isPlainName (names.get key))
    (hfile : ∀ key, d.lookup (names.get key) = some (.file (content key))) :
    Decides ((content .requestRaw).length + (content .responseRaw).length ≤ maxBytes)
      (fun loaded => loaded.view = (code, value, content .requestRaw, content .responseRaw,
        names.timeline))
      (loadArtifacts code maxBytes value hcode) d := by
  have hread : ∀ key, d.read { name := names.get key } = .ok (content key) :=
    fun key => read_file (hfile key)
  have hkind : ∀ key, d.kind { name := names.get key } = some (.file (content key).length) :=
    fun key => file_kind (hfile key)
  have hhash : ∀ key : Artifact,
      Json.text? (Json.get key.key hashes) = some (sha256 (content key)) := by
    intro key
    rw [hdigest]
    rfl
  unfold loadArtifacts
  simp only [hfiles, hhashes, Json.fields?, hnames]
  refine Decides.after ((answers_safeArtifact (hplain _) (hkind .requestRaw)).mono ?_)
  rintro _ rfl
  refine Decides.after ((answers_safeArtifact (hplain _) (hkind .responseRaw)).mono ?_)
  rintro _ rfl
  refine Decides.after ((answers_safeArtifact (hplain _) (hkind .timeline)).mono ?_)
  rintro _ rfl
  refine Decides.after ((answers_size (hkind .requestRaw)).mono ?_)
  rintro _ rfl
  refine Decides.after ((answers_size (hkind .responseRaw)).mono ?_)
  rintro _ rfl
  refine Decides.check Nat.not_lt.mpr fun htotal => ?_
  refine Decides.after ((answers_read (hread .requestRaw)).mono ?_)
  rintro _ rfl
  refine Decides.after ((answers_read (hread .responseRaw)).mono ?_)
  rintro _ rfl
  refine Decides.after ((answers_checkDigest (hread .requestRaw) (hhash _)).mono fun _ _ => ?_)
  refine Decides.after ((answers_checkDigest (hread .responseRaw) (hhash _)).mono fun _ _ => ?_)
  refine Decides.after ((answers_checkDigest (hread .timeline) (hhash _)).mono fun _ _ => ?_)
  exact Decides.pure (Nat.not_lt.mp htotal) rfl

/-- The job is taken where the markers are not too long either. -/
theorem decides_loadSpoolJob {loaded : LoadedSpoolJob → Prop}
    (hready : d.lookup ".ready".toList = some (.file readyBytes))
    (hmanifest : d.lookup "manifest.json".toList = some (.file manifestBytes))
    (hreadyJson : loadsBytes readyBytes = .ok (.obj ready))
    (hmanifestJson : loadsBytes manifestBytes = .ok (.obj value))
    (hmarker : Json.text? (Json.get "schema".toList ready) = some captureSchema ∧
      Json.text? (Json.get "codice_doc".toList ready) = some code ∧
      Json.text? (Json.get "manifest_sha256".toList ready) = some (sha256 manifestBytes))
    (hschema : Json.text? (Json.get "schema".toList value) = some captureSchema)
    (hcode : Json.text? (Json.get "codice_doc".toList value) = some code)
    (hartifacts : Decides P loaded (loadArtifacts code maxBytes value hcode) d) :
    Decides (readyBytes.length ≤ 65536 ∧ manifestBytes.length ≤ 1048576 ∧ P) loaded
      (loadSpoolJob code maxBytes) d := by
  unfold loadSpoolJob
  refine Decides.after ((answers_isFile _).mono ?_)
  rintro _ rfl
  rw [file_kind hready]
  refine Decides.check (fun _ => Bool.false_ne_true) fun _ => ?_
  refine Decides.after ((answers_size (file_kind hready)).mono ?_)
  rintro _ rfl
  refine Decides.check (fun hP => Nat.not_lt.mpr hP.1) fun hreadySize => ?_
  refine Decides.after ((answers_safeArtifact (by decide) (file_kind hmanifest)).mono ?_)
  rintro _ rfl
  refine Decides.after ((answers_size (file_kind hmanifest)).mono ?_)
  rintro _ rfl
  refine Decides.check (fun hP => Nat.not_lt.mpr hP.2.1) fun hmanifestSize => ?_
  refine Decides.after ((Answers.tryCatch (answers_readJson (read_file hready) hreadyJson)).mono ?_)
  rintro _ rfl
  simp only [Json.fields?]
  refine Decides.after ((answers_sha256File (read_file hmanifest)).mono ?_)
  rintro _ rfl
  refine Decides.check (fun _ => not_not.mpr hmarker) fun _ => ?_
  refine Decides.after ((answers_readJson (read_file hmanifest) hmanifestJson).mono ?_)
  rintro _ rfl
  refine Decides.check (fun _ => not_not.mpr hschema) fun _ => ?_
  rw [dif_pos hcode]
  refine Safe.mono hartifacts (fun a _ _ hQ => ?_) fun _ _ _ hE hP => hE hP.2.2
  exact ⟨⟨Nat.not_lt.mp hreadySize, Nat.not_lt.mp hmanifestSize, hQ.1⟩, hQ.2⟩

end Job

/-! ## Captures -/

theorem LoadedSpoolJob.eq_mk_iff {loaded : LoadedSpoolJob} {jobDir : Text}
    {manifest : List (Text × Json)} {request response : Bytes} {timelinePath : Text}
    {hcode : Json.text? (Json.get "codice_doc".toList manifest) = some jobDir} :
    loaded = ⟨jobDir, manifest, request, response, timelinePath, hcode⟩ ↔
      loaded.view = (jobDir, manifest, request, response, timelinePath) := by
  constructor
  · rintro rfl
    rfl
  · intro h
    cases loaded
    cases h
    rfl

/-- What a load checks of a capture: the two markers and the RAW files are not too long. -/
structure Within (payload : StreamDirection → Bytes) (maxBytes : Nat) (d : JobDir) : Prop where
  ready : d.Fits ".ready".toList 65536
  manifest : d.Fits "manifest.json".toList 1048576
  total : (payload .clientToRch).length + (payload .rchToClient).length ≤ maxBytes

theorem JobDir.fits_iff {d : JobDir} {name : Text} {data : Bytes} {limit : Nat}
    (h : d.lookup name = some (.file data)) : d.Fits name limit ↔ data.length ≤ limit := by
  rw [Fits, Job.file_kind h]
  constructor
  · intro hfits
    exact hfits _ rfl
  · intro hle n hn
    cases hn
    exact hle

/-- The ready marker, as it is read back. -/
theorem get_readyMarker (code manifestSha256 publishedAt : Text) {key value : Text}
    (h : (key, Json.str value) ∈ readyMarker code manifestSha256 publishedAt) :
    Json.text? (Json.get key (Json.sortPairs
      (Json.sortFields (readyMarker code manifestSha256 publishedAt)))) = some value := by
  have hnodup : ((readyMarker code manifestSha256 publishedAt).map (·.1)).Nodup := by
    change ["schema".toList, "codice_doc".toList, "manifest_sha256".toList,
      "published_at".toList].Nodup
    decide
  rw [Json.get_sortKeys hnodup h]
  rfl

theorem plain_readyMarker (code manifestSha256 publishedAt : Text) :
    (Json.obj (readyMarker code manifestSha256 publishedAt)).Plain :=
  ⟨trivial, trivial, trivial, trivial, trivial⟩

/-- What decides about a load of a capture that is published. -/
theorem PublishedCapture.decides {config : Config} {job : CapturedJob} {code : Text} {figures : Figures}
    {content : Artifact → Bytes} {names : FileNames} {d : JobDir}
    (h : PublishedCapture config job code figures content names d)
    (hdigests : figures.sha256 = some fun key => sha256 (content key)) (maxBytes : Nat) :
    ∃ hcode, Job.Decides (d.Fits ".ready".toList 65536 ∧ d.Fits "manifest.json".toList 1048576 ∧
        (content .requestRaw).length + (content .responseRaw).length ≤ maxBytes)
      (· = ⟨code, manifest config job code names figures, content .requestRaw,
        content .responseRaw, names.timeline, hcode⟩)
      (Job.loadSpoolJob code maxBytes) d := by
  obtain ⟨bytes, publishedAt, ready, hmanifest, hready, hmanifestFile, hreadyFile⟩ := h.markers
  obtain ⟨hschema, hcode, hfiles, hhashes⟩ := @mem_captureManifest config job code figures names
  rw [hdigests] at hhashes
  have hcodeGet := get_manifest hcode
  have hschemaGet := get_manifest hschema
  have hfilesGet := get_manifest hfiles
  have hhashesGet := get_manifest hhashes
  rw [sortKeys_artifactMap] at hfilesGet
  rw [Option.map_some, Option.getD_some, sortKeys_artifactMap] at hhashesGet
  have hmanifestJson : loadsBytes bytes = .ok (.obj (manifest config job code names figures)) :=
    loadsBytes_jsonBytes hmanifest (plain_captureManifest _ _ _ _ _ _)
  have hreadyJson := loadsBytes_jsonBytes hready (plain_readyMarker code (sha256 bytes) publishedAt)
  generalize manifest config job code names figures = value at *
  have hcodeText : Json.text? (Json.get "codice_doc".toList value) = some code := by
    rw [hcodeGet]
    rfl
  have hschemaText : Json.text? (Json.get "schema".toList value) = some captureSchema := by
    rw [hschemaGet]
    rfl
  refine ⟨hcodeText, ?_⟩
  have hartifacts := @Job.decides_loadArtifacts code content names d maxBytes _ _ _ hcodeText
    hfilesGet hhashesGet (get_artifactFields names.get)
    (get_artifactFields fun key => sha256 (content key)) (finalNames_final h.final).plain h.file
  have hload := Job.decides_loadSpoolJob hreadyFile hmanifestFile hreadyJson hmanifestJson
    ⟨get_readyMarker _ _ _ (by simp [readyMarker]), get_readyMarker _ _ _ (by simp [readyMarker]),
      get_readyMarker _ _ _ (by simp [readyMarker])⟩ hschemaText hcodeText hartifacts
  rw [JobDir.fits_iff hreadyFile, JobDir.fits_iff hmanifestFile]
  exact Safe.mono hload (fun loaded _ _ hQ => ⟨hQ.1, LoadedSpoolJob.eq_mk_iff.mpr hQ.2⟩)
    fun _ _ _ hE => hE

/-- When a load of a published capture returns, and what. -/
theorem PublishedCapture.loads {config : Config} {job : CapturedJob} {code : Text} {figures : Figures}
    {content : Artifact → Bytes} {names : FileNames} {d : JobDir}
    (h : PublishedCapture config job code figures content names d)
    (hdigests : figures.sha256 = some fun key => sha256 (content key))
    {payload : StreamDirection → Bytes}
    (hcontent : ∀ direction : StreamDirection, content direction.artifact = payload direction)
    (maxBytes : Nat) (loaded : LoadedSpoolJob) :
    Prog.Succeeds JobDir.exec (Job.loadSpoolJob code maxBytes) d loaded ↔
      Within payload maxBytes d ∧ loaded.view =
        (code, manifest config job code names figures, payload .clientToRch, payload .rchToClient,
          names.timeline) := by
  obtain ⟨hcode, hdecides⟩ := h.decides hdigests maxBytes
  have hrequest : content .requestRaw = payload .clientToRch := hcontent .clientToRch
  have hresponse : content .responseRaw = payload .rchToClient := hcontent .rchToClient
  rw [Safe.succeeds_iff hdecides, LoadedSpoolJob.eq_mk_iff, hrequest, hresponse]
  refine and_congr_left' ⟨fun hlimits => ?_, fun hwithin => ?_⟩
  · obtain ⟨hready, hmanifest, htotal⟩ := hlimits
    exact ⟨hready, hmanifest, htotal⟩
  · exact ⟨hwithin.ready, hwithin.manifest, hwithin.total⟩

/-- A capture is loaded back as it was given, unless it is too long: a load returns in exactly this
case, and it returns the bytes of the capture and its manifest. -/
theorem loadSpoolJob_captured {config : Config} {code : Text} {payload : StreamDirection → Bytes}
    {d : JobDir} (h : Captured config code payload d) :
    ∃ job figures names, finalNames job = .ok names ∧ ∀ maxBytes loaded,
      Prog.Succeeds JobDir.exec (Job.loadSpoolJob code maxBytes) d loaded ↔
        Within payload maxBytes d ∧ loaded.view =
          (code, PublishedCapture.manifest config job code names figures, payload .clientToRch,
            payload .rchToClient, names.timeline) := by
  obtain ⟨job, figures, content, names, hpublished, hdigests, hcontent⟩ := h.published
  refine ⟨job, figures, names, hpublished.final, fun maxBytes loaded => ?_⟩
  exact hpublished.loads hdigests hcontent maxBytes loaded

/-- A directory with the files and the markers of an archive. -/
def archiveDir (names : FileNames) (content : Artifact → Bytes) (manifest ready : Bytes) : JobDir :=
  AList.insert ".ready".toList (.file ready)
    (AList.insert "manifest.json".toList (.file manifest)
      (AList.insert names.timeline (.file (content .timeline))
        (AList.insert names.responseRaw (.file (content .responseRaw))
          (AList.insert names.requestRaw (.file (content .requestRaw)) ∅))))

/-- Every job whose manifest can be written has a capture. -/
theorem exists_archived {config : Config} {job : CapturedJob} {code : Text} {names : FileNames}
    {content : Artifact → Bytes} (hnames : finalNames job = .ok names)
    (hcontent : archiveFiles job = .ok content)
    (hwritable : (Json.obj (captureManifest config job code names (publishedStatus job)
      (archiveFigures content))).Writable = true) : ∃ d, Archived config job code d := by
  have hfinal := finalNames_final hnames
  obtain ⟨manifest, hmanifest⟩ := jsonBytes_ok hwritable
  obtain ⟨ready, hready⟩ : ∃ ready,
      jsonBytes (.obj (readyMarker code (sha256 manifest) Choice.quiet.now)) = .ok ready :=
    jsonBytes_ok rfl
  have hne : ∀ a b, a ≠ b → names.get a ≠ names.get b :=
    fun a b hab heq => hab (hfinal.injective heq)
  have hfile : ∀ key, (archiveDir names content manifest ready).lookup (names.get key) =
      some (.file (content key)) := by
    intro key
    rw [archiveDir, AList.lookup_insert_ne (hfinal.ready key),
      AList.lookup_insert_ne (hfinal.manifest key)]
    cases key with
    | requestRaw =>
      refine (AList.lookup_insert_ne (hne .requestRaw .timeline (by decide))).trans ?_
      refine (AList.lookup_insert_ne (hne .requestRaw .responseRaw (by decide))).trans ?_
      exact AList.lookup_insert _
    | responseRaw =>
      refine (AList.lookup_insert_ne (hne .responseRaw .timeline (by decide))).trans ?_
      exact AList.lookup_insert _
    | timeline => exact AList.lookup_insert _
  refine ⟨archiveDir names content manifest ready, content, names, hcontent, hnames, hfile,
    ⟨manifest, _, ready, hmanifest, hready, ?_, AList.lookup_insert _⟩, fun n hn => ?_⟩
  · exact (AList.lookup_insert_ne (by decide)).trans (AList.lookup_insert _)
  · by_contra hnot
    rw [not_or, not_or, not_exists] at hnot
    obtain ⟨hmanifestName, hreadyName, hkey⟩ := hnot
    refine hn ?_
    rw [archiveDir, AList.lookup_insert_ne hreadyName, AList.lookup_insert_ne hmanifestName]
    refine (AList.lookup_insert_ne (hkey .timeline)).trans ?_
    refine (AList.lookup_insert_ne (hkey .responseRaw)).trans ?_
    refine (AList.lookup_insert_ne (hkey .requestRaw)).trans ?_
    rfl

/-- The job of a session that saw nothing, archived. -/
theorem archived_sample : ∃ job d,
    Archived (Connection.sampleSession .abort).config job "0001".toList d := by
  have hrun : (do
      let job := Connection.newJob (Connection.sampleSession .abort) 5 Connection.sampleClock
      let names ← finalNames job
      let content ← archiveFiles job
      return (Json.obj (captureManifest (Connection.sampleSession .abort).config job "0001".toList
        names (publishedStatus job) (archiveFigures content))).Writable) = .ok true := by
    decide +kernel
  simp only [bind_eq_ok] at hrun
  obtain ⟨names, hnames, content, hcontent, hwritable⟩ := hrun
  exact ⟨_, exists_archived hnames hcontent (Except.ok.inj hwritable)⟩

theorem loadSpoolJob_captured_sample : ∃ config d payload,
    Captured config "0001".toList payload d ∧
      ∃ job figures names, finalNames job = .ok names ∧ ∀ maxBytes loaded,
        Prog.Succeeds JobDir.exec (Job.loadSpoolJob "0001".toList maxBytes) d loaded ↔
          Within payload maxBytes d ∧ loaded.view =
            ("0001".toList, PublishedCapture.manifest config job "0001".toList names figures,
              payload .clientToRch, payload .rchToClient, names.timeline) := by
  obtain ⟨job, d, hd⟩ := archived_sample
  exact ⟨_, d, _, .archive hd, loadSpoolJob_captured (.archive hd)⟩

end RchProxy
