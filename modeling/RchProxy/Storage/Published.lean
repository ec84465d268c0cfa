import RchProxy.Py.Decimal
import RchProxy.Storage.Outcome
import RchProxy.Storage.Spool

/-!
# Captures are published whole

What a directory has in it that takes the name of its code. While the capture is written, its three
files have names that end in `.partial` and a description beside them (`Staged`); where the files
have their final names and the two markers are written, the directory is a published capture
(`PublishedCapture`), and only then is it renamed. So a name that is new in the date directory is that
of a published capture, wherever `archive` or a live capture stops (`safe_archive`,
`safe_liveCapture`).
-/

namespace RchProxy

open Py Lib Lib.Prog

/-! ## Names -/

/-- The name of a file that is not final. -/
abbrev IsPartial (name : Text) : Prop := ".partial".toList <:+ name

theorem isPartial_captureMetaName : IsPartial captureMetaName := ⟨"capture-meta.json".toList, rfl⟩

theorem isPartial_partialName (key : Artifact) : IsPartial key.partialName := by
  cases key with
  | requestRaw => exact ⟨"request.raw".toList, rfl⟩
  | responseRaw => exact ⟨"response.raw".toList, rfl⟩
  | timeline => exact ⟨"timeline.jsonl".toList, rfl⟩

theorem isPartial_archivePartial (names : FileNames) (key : Artifact) :
    IsPartial (Job.archivePartial names key) := List.suffix_append _ _

/-- What has another ending is final. -/
theorem not_isPartial {name : Text} (ending : Text) (hending : ending <:+ name)
    (hlength : ending.length ≤ ".partial".toList.length) (hne : ¬ ending <:+ ".partial".toList) :
    ¬ IsPartial name := by
  intro h
  exact hne (List.suffix_of_suffix_length_le hending h hlength)

/-- Names for the files of a capture that is published: different ones, none of them that of a
marker or of a partial file. -/
structure FileNames.Final (names : FileNames) : Prop where
  injective : Function.Injective names.get
  final : ∀ key, ¬ IsPartial (names.get key)
  manifest : ∀ key, names.get key ≠ "manifest.json".toList
  ready : ∀ key, names.get key ≠ ".ready".toList
  plain : ∀ key, isPlainName (names.get key)

/-- How the final name of a file begins. -/
def Artifact.stem : Artifact → Text
  | .requestRaw => "file_".toList
  | .responseRaw => "response_".toList
  | .timeline => "timeline_".toList

/-- How the final name of a file ends. -/
def Artifact.suffix : Artifact → Text
  | .requestRaw => ".raw".toList
  | .responseRaw => ".raw".toList
  | .timeline => ".jsonl".toList

theorem no_slash_epochStamp {unixNs : Int} {stamp : Text} (h : epochStamp unixNs = .ok stamp) :
    '/' ∉ stamp := by
  have hdigit : ∀ c, c.isDigit = true → c ≠ '/' := by
    rintro c hc rfl
    exact absurd hc (by decide)
  unfold epochStamp at h
  split at h
  · cases h
  · cases h
    intro hmem
    rcases List.mem_append.mp hmem with hmem | hmem
    · rcases List.mem_append.mp hmem with hmem | hmem
      · exact hdigit _ (Nat.isDigit_of_mem_toDigits (by decide) (by decide) hmem) rfl
      · exact absurd (List.mem_singleton.mp hmem) (by decide)
    · exact hdigit _ (zeroPad_isDigit hmem) rfl

theorem finalNames_get {job : CapturedJob} {names : FileNames} (h : finalNames job = .ok names)
    (key : Artifact) : ∃ stamp, '/' ∉ stamp ∧ names.get key = key.stem ++ stamp ++ key.suffix := by
  simp only [finalNames, bind_eq_ok] at h
  obtain ⟨request, hrequest, response, hresponse, h⟩ := h
  cases h
  cases key with
  | requestRaw => exact ⟨request, no_slash_epochStamp hrequest, rfl⟩
  | responseRaw => exact ⟨response, no_slash_epochStamp hresponse, rfl⟩
  | timeline => exact ⟨request, no_slash_epochStamp hrequest, rfl⟩

theorem finalNames_final {job : CapturedJob} {names : FileNames} (h : finalNames job = .ok names) :
    names.Final := by
  have hhead : ∀ key, (names.get key).head? = key.stem.head? := by
    intro key
    obtain ⟨stamp, -, hname⟩ := finalNames_get h key
    rw [hname]
    cases key <;> rfl
  refine ⟨fun a b hab => ?_, fun key => ?_, fun key hkey => ?_, fun key hkey => ?_, fun key => ?_⟩
  · have hstem : a.stem.head? = b.stem.head? := by rw [← hhead, ← hhead, hab]
    cases a <;> cases b <;> first | rfl | exact absurd hstem (by decide)
  · obtain ⟨stamp, -, hname⟩ := finalNames_get h key
    refine not_isPartial key.suffix (hname ▸ List.suffix_append _ _) ?_ ?_
    · cases key <;> decide
    · cases key <;> decide
  · have hstem := hhead key
    rw [hkey] at hstem
    cases key <;> exact absurd hstem (by decide)
  · have hstem := hhead key
    rw [hkey] at hstem
    cases key <;> exact absurd hstem (by decide)
  · obtain ⟨stamp, hstamp, hname⟩ := finalNames_get h key
    have hslash : '/' ∉ names.get key := by
      rw [hname]
      intro hmem
      rcases List.mem_append.mp hmem with hmem | hmem
      · rcases List.mem_append.mp hmem with hmem | hmem
        · cases key <;> exact absurd hmem (by decide)
        · exact hstamp hmem
      · cases key <;> exact absurd hmem (by decide)
    have hne : names.get key ≠ [] ∧ names.get key ≠ ".".toList := by
      have hstem := hhead key
      refine ⟨fun hnil => ?_, fun hdot => ?_⟩
      · rw [hnil] at hstem
        cases key <;> exact absurd hstem (by decide)
      · rw [hdot] at hstem
        cases key <;> exact absurd hstem (by decide)
    simp only [isPlainName, Bool.and_eq_true, decide_eq_true_eq, Bool.not_eq_true',
      List.contains_eq_mem, decide_eq_false_iff_not]
    exact ⟨⟨hne.1, hslash⟩, hne.2⟩

/-! ## Files under way -/

/-- The files of a capture that is written, by the names they have now: different names, none of them
that of the description. -/
structure Staged (src : Artifact → Text) (files : Artifact → Option Bytes) (d : JobDir) : Prop where
  injective : Function.Injective src
  apart : ∀ key, src key ≠ captureMetaName
  file : ∀ key, d.lookup (src key) = (files key).map Node.file
  description : ∃ data, d.lookup captureMetaName = some (.file data)
  only : ∀ n, d.lookup n ≠ none → n = captureMetaName ∨ ∃ key, n = src key

theorem Job.Wrote.insert (name : Text) (data : Bytes) (d : JobDir) :
    Job.Wrote name data d (d.insert name (.file data)) :=
  ⟨AList.lookup_insert d, fun _ hn => AList.lookup_insert_ne hn⟩

namespace Staged

variable {src : Artifact → Text} {files : Artifact → Option Bytes} {d d' : JobDir} {key : Artifact}
  {data : Bytes}

/-- The description is there, and nothing else. -/
theorem start (hinjective : Function.Injective src) (hsrc : ∀ key, src key ≠ captureMetaName)
    (h : Job.Wrote captureMetaName data ∅ d) : Staged src (fun _ => none) d where
  injective := hinjective
  apart := hsrc
  file key := h.other _ (hsrc key)
  description := ⟨data, h.target⟩
  only n hn := by
    by_cases hmeta : n = captureMetaName
    · exact .inl hmeta
    · exact absurd (h.other n hmeta) hn

/-- A file is written. -/
theorem wrote (key : Artifact) (h : Staged src files d) (hwrote : Job.Wrote (src key) data d d') :
    Staged src (Function.update files key (some data)) d' where
  injective := h.injective
  apart := h.apart
  file k := by
    by_cases hk : k = key
    · subst hk
      rw [hwrote.target, Function.update_self]
      rfl
    · rw [hwrote.other _ (fun heq => hk (h.injective heq)), h.file, Function.update_of_ne hk]
  description := by
    obtain ⟨old, hold⟩ := h.description
    exact ⟨old, by rw [hwrote.other _ (h.apart key).symm, hold]⟩
  only n hn := by
    by_cases hkey : n = src key
    · exact .inr ⟨key, hkey⟩
    · rw [hwrote.other n hkey] at hn
      exact h.only n hn

/-- A file gets another name. -/
theorem rename (h : Staged src files d) (hdata : files key = some data) {dst : Text}
    (hfresh : ∀ k, src k ≠ dst) (hmeta : dst ≠ captureMetaName)
    (hrename : d.rename none (src key) dst = .ok d') :
    Staged (Function.update src key dst) files d' := by
  have hsrc : d.lookup (src key) = some (.file data) := by rw [h.file, hdata]; rfl
  have hdst : d.lookup dst = none := by
    by_contra hn
    rcases h.only dst hn with heq | ⟨k, hk⟩
    · exact hmeta heq
    · exact hfresh k hk.symm
  obtain rfl := Job.rename_temp hsrc hrename
  have hlookup : ∀ n, n ≠ dst → n ≠ src key →
      ((d.erase (src key)).insert dst (.file data)).lookup n = d.lookup n := by
    intro n hn hn'
    rw [AList.lookup_insert_ne hn, AList.lookup_erase_ne hn']
  refine ⟨fun a b hab => ?_, fun k => ?_, fun k => ?_, ?_, fun n hn => ?_⟩
  · by_cases ha : a = key
    · by_cases hb : b = key
      · rw [ha, hb]
      · rw [ha, Function.update_self, Function.update_of_ne hb] at hab
        exact absurd hab.symm (hfresh b)
    · by_cases hb : b = key
      · rw [hb, Function.update_self, Function.update_of_ne ha] at hab
        exact absurd hab (hfresh a)
      · rw [Function.update_of_ne ha, Function.update_of_ne hb] at hab
        exact h.injective hab
  · by_cases hk : k = key
    · rw [hk, Function.update_self]
      exact hmeta
    · rw [Function.update_of_ne hk]
      exact h.apart k
  · by_cases hk : k = key
    · rw [hk, Function.update_self, AList.lookup_insert, hdata]
      rfl
    · rw [Function.update_of_ne hk, hlookup _ (hfresh k) (fun heq => hk (h.injective heq)), h.file]
  · obtain ⟨old, hold⟩ := h.description
    exact ⟨old, by rw [hlookup _ hmeta.symm (h.apart key).symm, hold]⟩
  · by_cases hkey : n = dst
    · exact .inr ⟨key, by rw [hkey, Function.update_self]⟩
    · rw [AList.lookup_insert_ne hkey] at hn
      have hne : n ≠ src key := by
        rintro rfl
        exact hn (AList.lookup_erase _ d)
      rw [AList.lookup_erase_ne hne] at hn
      refine (h.only n hn).imp_right ?_
      rintro ⟨k, rfl⟩
      exact ⟨k, by rw [Function.update_of_ne (fun heq => hne (congrArg src heq))]⟩

end Staged

/-! ## Published captures -/

section
-- from here on a program is taken apart by the rules only
attribute [local irreducible] Safe

/-- A capture that is published: its files under their final names, the manifest that describes them
and the marker that authenticates the manifest, and nothing else. -/
structure PublishedCapture (config : Config) (job : CapturedJob) (code : Text) (figures : Figures)
    (content : Artifact → Bytes) (names : FileNames) (d : JobDir) : Prop where
  final : finalNames job = .ok names
  file : ∀ key, d.lookup (names.get key) = some (.file (content key))
  markers : ∃ manifest publishedAt ready,
    jsonBytes (.obj (captureManifest config job code names (publishedStatus job) figures)) =
      .ok manifest ∧
    jsonBytes (.obj (readyMarker code (sha256 manifest) publishedAt)) = .ok ready ∧
    d.lookup "manifest.json".toList = some (.file manifest) ∧
    d.lookup ".ready".toList = some (.file ready)
  only : ∀ n, d.lookup n ≠ none →
    n = "manifest.json".toList ∨ n = ".ready".toList ∨ ∃ key, n = names.get key

namespace Job

variable {config : Config} {job : CapturedJob} {code : Text} {names : FileNames}
  {src : Artifact → Text} {content : Artifact → Bytes} {d : JobDir}

theorem returns_atomicWrite (name : Text) (data : Bytes) (d : JobDir) :
    Returns (fun _ d' => Wrote name data d d') (atomicWriteBytes ⟨none, name⟩ data) d :=
  (safe_atomicWriteBytes name data d).weaken fun _ _ => trivial

theorem returns_renameFile {Q : Unit → JobDir → Prop} {name dst : Text}
    (h : ∀ d', d.rename none name dst = .ok d' → Q () d') : Returns Q (rename none name dst) d :=
  .bind (.perform fun _ => returns_attempt h)

theorem returns_unlinkFile {Q : Unit → JobDir → Prop} {p : Loc}
    (h : ∀ d', d.unlink p = .ok d' → Q () d') : Returns Q (unlink p) d :=
  .bind (.perform fun _ => returns_attempt h)

theorem read_file {name : Text} {data : Bytes} (h : d.lookup name = some (.file data)) :
    d.read { name := name } = .ok data := by
  simp only [JobDir.read, JobDir.node, h]

theorem unlink_file {name : Text} {data : Bytes} (h : d.lookup name = some (.file data)) :
    d.unlink { name := name } = .ok (d.erase name) := by
  simp only [JobDir.unlink, h]

theorem returns_writeCaptureMeta (status : ManifestStatus) (figures : Figures)
    (more : List (Text × Json)) (d : JobDir) :
    Returns (fun _ d' => ∃ data, Wrote captureMetaName data d d')
      (writeCaptureMeta config job code names status figures more) d := by
  unfold writeCaptureMeta
  generalize jsonBytes _ = encoded
  exact .bind (.ofExcept fun data _ =>
    (returns_atomicWrite captureMetaName data d).mono fun _ _ h => ⟨data, h⟩)

/-- One rename of `promote`. -/
theorem returns_renameStaged (key : Artifact) (dst : Text)
    (h : Staged src (fun key => some (content key)) d) (hfresh : ∀ k, src k ≠ dst)
    (hmeta : dst ≠ captureMetaName) :
    Returns (fun _ d' => Staged (Function.update src key dst) (fun key => some (content key)) d')
      (rename none (src key) dst) d :=
  returns_renameFile fun _ hrename => h.rename rfl hfresh hmeta hrename

/-- The files have their final names. -/
theorem returns_promote (h : Staged src (fun key => some (content key)) d)
    (hsrc : ∀ key, IsPartial (src key)) (hnames : names.Final) :
    Returns (fun _ d' => Staged names.get (fun key => some (content key)) d') (promote src names)
      d := by
  have hfinal : ∀ key k, src k ≠ names.get key := fun key k heq => hnames.final key (heq ▸ hsrc k)
  have hmeta : ∀ key, names.get key ≠ captureMetaName :=
    fun key heq => hnames.final key (heq ▸ isPartial_captureMetaName)
  have hne : ∀ a b, a ≠ b → names.get a ≠ names.get b :=
    fun a b hab heq => hab (hnames.injective heq)
  refine .bind ((returns_renameStaged .requestRaw _ h (hfinal .requestRaw)
    (hmeta .requestRaw)).mono ?_)
  intro _ d₁ h₁
  refine .bind ((returns_renameStaged .responseRaw (names.get .responseRaw) h₁ (fun k => ?_)
    (hmeta .responseRaw)).mono ?_)
  · cases k with
    | requestRaw => exact hne .requestRaw .responseRaw (by decide)
    | responseRaw => exact hfinal _ .responseRaw
    | timeline => exact hfinal _ .timeline
  intro _ d₂ h₂
  refine (returns_renameStaged .timeline (names.get .timeline) h₂ (fun k => ?_)
    (hmeta .timeline)).mono ?_
  · cases k with
    | requestRaw => exact hne .requestRaw .timeline (by decide)
    | responseRaw => exact hne .responseRaw .timeline (by decide)
    | timeline => exact hfinal _ .timeline
  intro _ d₃ h₃
  convert h₃ using 1
  funext key
  cases key <;> rfl

/-- Reading a file of the capture. -/
theorem returns_digest (h : Staged src (fun key => some (content key)) d) (key : Artifact) :
    Returns (fun digest d' => d' = d ∧ digest = sha256 (content key))
      (sha256File { name := src key }) d := by
  refine returns_sha256File fun data hdata => ⟨rfl, ?_⟩
  rw [read_file (h.file key), Except.ok.injEq] at hdata
  rw [hdata]

theorem returns_hashFiles (h : Staged names.get (fun key => some (content key)) d) :
    Returns (fun figures d' => d' = d ∧ figures = archiveFigures content) (hashFiles names) d := by
  refine .bind ((returns_digest h .requestRaw).mono ?_)
  rintro _ _ ⟨rfl, rfl⟩
  refine .bind ((returns_digest h .responseRaw).mono ?_)
  rintro _ _ ⟨rfl, rfl⟩
  refine .bind ((returns_digest h .timeline).mono ?_)
  rintro _ _ ⟨rfl, rfl⟩
  refine .pure ⟨rfl, ?_⟩
  simp only [archiveFigures, Figures.mk.injEq, Option.some.injEq, and_self, and_true]
  funext key
  cases key <;> rfl

/-- The markers make it a published capture. -/
theorem returns_publishMarkers (figures : Figures)
    (h : Staged names.get (fun key => some (content key)) d) (hnames : finalNames job = .ok names) :
    Returns (fun _ d' => PublishedCapture config job code figures content names d')
      (publishMarkers config job code names figures) d := by
  have hfinal := finalNames_final hnames
  unfold publishMarkers
  generalize hmanifest : jsonBytes (.obj (captureManifest _ _ _ _ _ _)) = encoded
  refine .bind (.ofExcept fun manifest heq => .bind
    ((returns_atomicWrite "manifest.json".toList manifest d).mono fun _ d₁ h₁ => ?_))
  rw [heq] at hmanifest
  have hmanifest₁ : d₁.lookup "manifest.json".toList = some (.file manifest) := h₁.target
  have hdescription : captureMetaName ≠ "manifest.json".toList := by decide
  obtain ⟨old, hold⟩ := h.description
  refine .bind (returns_unlinkFile fun d₂ hunlink => ?_)
  rw [unlink_file (by rw [h₁.other _ hdescription, hold]), Except.ok.injEq] at hunlink
  subst hunlink
  have hmanifest₂ : (d₁.erase captureMetaName).lookup "manifest.json".toList =
      some (.file manifest) := by rw [AList.lookup_erase_ne hdescription.symm, hmanifest₁]
  refine .bind (returns_sha256File fun data hdata => ?_)
  rw [read_file hmanifest₂, Except.ok.injEq] at hdata
  subst hdata
  refine .bind (.perform fun c => ?_)
  dsimp only [JobDir.exec]
  generalize hready : jsonBytes (.obj (readyMarker _ _ _)) = encodedReady
  refine .bind (.ofExcept fun ready heqReady => .bind
    ((returns_atomicWrite ".ready".toList ready _).mono fun _ d₃ h₃ => returns_fsync ?_))
  rw [heqReady] at hready
  refine ⟨hnames, fun key => ?_, ⟨manifest, c.now, ready, hmanifest, hready, ?_, h₃.target⟩,
    fun n hn => ?_⟩
  · rw [h₃.other _ (hfinal.ready key), AList.lookup_erase_ne (h.apart key),
      h₁.other _ (hfinal.manifest key), h.file]
    rfl
  · rw [h₃.other _ (by decide), hmanifest₂]
  · by_cases hready' : n = ".ready".toList
    · exact .inr (.inl hready')
    rw [h₃.other n hready'] at hn
    have hmeta : n ≠ captureMetaName := by
      rintro rfl
      exact hn (AList.lookup_erase _ d₁)
    rw [AList.lookup_erase_ne hmeta] at hn
    by_cases hman : n = "manifest.json".toList
    · exact .inl hman
    rw [h₁.other n hman] at hn
    exact .inr (.inr ((h.only n hn).resolve_left hmeta))

/-! ## Archives -/

/-- The files of an archive, written one after the other. -/
theorem returns_archiveStaged (config : Config) (job : CapturedJob) (code : Text) :
    Returns (fun _ d' => ∃ content names, archiveFiles job = .ok content ∧
        PublishedCapture config job code (archiveFigures content) content names d')
      (archiveStaged config job code) ∅ := by
  unfold archiveStaged
  refine Returns.bind (Returns.ofExcept fun names hnames => ?_)
  have hfinal := finalNames_final hnames
  have hstaged := isPartial_archivePartial names
  have hinjective : Function.Injective (archivePartial names) :=
    fun a b hab => hfinal.injective (List.append_cancel_right hab)
  have hmeta : ∀ key, archivePartial names key ≠ captureMetaName := by
    intro key heq
    obtain ⟨stamp, -, hname⟩ := finalNames_get hnames key
    have hhead : (archivePartial names key).head? = key.stem.head? := by
      rw [archivePartial, hname]
      cases key <;> rfl
    rw [heq] at hhead
    cases key <;> exact absurd hhead (by decide)
  refine Returns.bind ((returns_writeCaptureMeta _ _ _ _).mono ?_)
  rintro _ d₁ ⟨data, hwrote⟩
  have h₁ := Staged.start hinjective hmeta hwrote
  refine Returns.bind ((returns_atomicWrite _ _ _).mono fun _ d₂ hrequest => ?_)
  have h₂ := h₁.wrote .requestRaw hrequest
  refine Returns.bind ((returns_atomicWrite _ _ _).mono fun _ d₃ hresponse => ?_)
  have h₃ := h₂.wrote .responseRaw hresponse
  refine Returns.bind (Returns.ofExcept fun text htext => ?_)
  refine Returns.bind ((returns_atomicWrite _ _ _).mono fun _ d₄ htimeline => ?_)
  have h₄ := h₃.wrote .timeline htimeline
  obtain ⟨content, hcontent, hfiles⟩ : ∃ content, archiveFiles job = .ok content ∧
      Staged (archivePartial names) (fun key => some (content key)) d₄ := by
    refine ⟨_, by rw [archiveFiles, htext]; rfl, ?_⟩
    convert h₄ using 1
    funext key
    cases key <;> rfl
  refine Returns.bind ((returns_promote hfiles hstaged hfinal).mono fun _ d₅ h₅ => ?_)
  refine Returns.bind ((returns_hashFiles h₅).mono ?_)
  rintro _ _ ⟨rfl, rfl⟩
  exact (returns_publishMarkers _ h₅ hnames).mono fun _ _ h => ⟨content, names, hcontent, h⟩

/-! ## Live captures -/

theorem Returns.result {α : Type} {m : Job α} {Q : Except Error α → JobDir → Prop}
    (h : Returns (fun a d' => Q (.ok a) d') m d) (herr : ∀ e d', Q (.error e) d') :
    Returns Q (Prog.result m) d :=
  Safe.result (Safe.mono h (fun _ _ _ hQ => hQ) fun e d' _ _ => herr e d')

/-- Bytes are appended to a partial file, one by one. -/
theorem returns_appendAll {key : Artifact} (data : Bytes)
    (h : Staged src (fun k => some (content k)) d) :
    Returns (fun _ d' => Staged src
        (fun k => some (Function.update content key (content key ++ data) k)) d')
      (appendAll { name := src key } data) d := by
  induction data generalizing content d with
  | nil =>
    rw [List.append_nil, Function.update_eq_self]
    exact .pure h
  | cons b data ih =>
    have hwrite : d.write { name := src key } [b] =
        d.insert (src key) (.file (content key ++ [b])) := by
      simp only [JobDir.write, h.file, Option.map_some]
    refine .bind (.bind (.perform fun c => returns_attempt fun d' hd' => ?_))
    cases hd'
    have hnext : Staged src (fun k => some (Function.update content key (content key ++ [b]) k))
        (d.write { name := src key } [b]) := by
      rw [hwrite]
      convert h.wrote key (Wrote.insert (src key) (content key ++ [b]) d) using 1
      funext k
      by_cases hk : k = key
      · subst hk
        simp
      · simp [hk]
    refine (ih hnext).mono fun _ d' h' => ?_
    rw [Function.update_idem, Function.update_self, List.append_assoc] at h'
    exact h'

theorem returns_performWrites (writes : List (Artifact × Bytes)) (events : Nat)
    (h : Staged Artifact.partialName (fun k => some (content k)) d) :
    Returns (fun r d' => r.2 = none →
        Staged Artifact.partialName (fun k => some (content k ++ output writes k)) d')
      (performWrites writes events) d := by
  induction writes generalizing content d events with
  | nil =>
    refine .pure fun _ => ?_
    simpa using h
  | cons w writes ih =>
    obtain ⟨key, data⟩ := w
    refine .bind (.result ((returns_appendAll data h).mono fun _ d' h' => ?_) fun e d' => ?_)
    · refine (ih _ h').mono fun r d'' hr hnone => ?_
      convert hr hnone using 1
      funext k
      rw [show (key, data) :: writes = [(key, data)] ++ writes from rfl, output_append,
        ← List.append_assoc]
      by_cases hk : k = key
      · subst hk
        simp [output]
      · simp [output, hk, Ne.symm hk]
    · exact .pure fun hnone => by cases hnone

theorem returns_createFile {name : Text} {Q : Unit → JobDir → Prop}
    (h : Q () (d.insert name (.file []))) : Returns Q (create { name := name }) d := by
  refine .bind (.perform fun c => returns_attempt fun d' hd' => ?_)
  simp only [JobDir.create] at hd'
  split at hd'
  · cases hd'
  · cases hd'
    exact h

/-- The files are there, and empty. -/
theorem returns_openLive (config : Config) (live : LiveSpoolCapture) (job : CapturedJob) :
    Returns (fun _ d' => Staged Artifact.partialName (fun _ => some []) d') (openLive config live job)
      ∅ := by
  unfold openLive
  refine Returns.bind (Returns.ofExcept fun names hnames => ?_)
  refine Returns.bind ((returns_writeCaptureMeta _ _ _ _).mono ?_)
  rintro _ d₁ ⟨data, hwrote⟩
  have hinjective : Function.Injective Artifact.partialName := by
    intro a b hab
    cases a <;> cases b <;> first | rfl | exact absurd hab (by decide)
  have h₁ := Staged.start hinjective (fun key => by cases key <;> decide) hwrote
  have h₂ := h₁.wrote .requestRaw (Wrote.insert _ [] d₁)
  have h₃ := h₂.wrote .responseRaw (Wrote.insert _ [] _)
  have h₄ := h₃.wrote .timeline (Wrote.insert _ [] _)
  have hcreate : Returns (fun _ d' => Staged Artifact.partialName (fun _ => some []) d')
      (do
        create { name := Artifact.partialName .requestRaw }
        create { name := Artifact.partialName .responseRaw }
        create { name := Artifact.partialName .timeline }) d₁ := by
    refine Returns.bind (returns_createFile (Returns.bind (returns_createFile (returns_createFile ?_))))
    convert h₄ using 1
    funext key
    cases key <;> rfl
  refine Safe.tryCatch (Safe.mono hcreate (fun _ _ _ h => h) fun e d' _ _ => ?_)
  exact Safe.bind (Safe.mono (Safe.trivial _ d') (fun _ _ _ _ => Returns.throw) fun _ _ _ h => h)

/-- A call that raises nothing has written what it says. -/
theorem returns_performCall (live : LiveSpoolCapture) (call : LiveCall)
    (h : Staged Artifact.partialName (fun k => some (content k)) d) :
    Returns (fun r d' => r.2 = none → r.1 = call.live ∧ call.error = none ∧
        Staged Artifact.partialName (fun k => some (content k ++ output call.writes k)) d')
      (performCall live call) d := by
  refine .bind ((returns_performWrites call.writes live.timelineEvents h).mono fun r d' hr => ?_)
  obtain ⟨events, e | e⟩ := r
  · exact .pure fun hnone => ⟨rfl, hnone, hr rfl⟩
  · exact .pure fun hnone => by cases hnone

/-- The rest of the timeline is written. -/
theorem returns_flushAndSync (live : LiveSpoolCapture) (hclosed : live.closed = false)
    (h : Staged Artifact.partialName (fun k => some (content k)) d) :
    Returns (fun r d' => r.2 = none → r.1 = live.syncAndClose.live ∧ live.syncAndClose.error = none ∧
        Staged Artifact.partialName
          (fun k => some (content k ++ output live.syncAndClose.writes k)) d')
      (flushAndSync live) d := by
  refine .bind ((returns_performCall live (live.flushReadyTimeline true) h).mono fun r d' hr => ?_)
  obtain ⟨live', e | e⟩ := r
  · obtain ⟨rfl, herror, h'⟩ := hr rfl
    have hsync : live.syncAndClose =
        { live.flushReadyTimeline true with
          live := { (live.flushReadyTimeline true).live with closed := true } } := by
      rw [LiveSpoolCapture.syncAndClose, if_neg (by simp [hclosed])]
      simp [LiveCall.andThen, herror]
    refine .bind (.result (.bind (returns_fsync (.bind (returns_fsync (returns_fsync ?_))))) ?_)
    · exact .pure fun _ => by rw [hsync]; exact ⟨rfl, herror, h'⟩
    · exact fun e d' => .pure fun hnone => by cases hnone
  · exact .pure fun hnone => by cases hnone

/-- The files of a live capture get their final names and the markers. -/
theorem returns_finalFiles (config : Config) (job : CapturedJob) (code : Text) (figures : Figures)
    (h : Staged Artifact.partialName (fun k => some (content k)) d) :
    Returns (fun _ d' => ∃ names, PublishedCapture config job code figures content names d')
      (do
        let names ← Prog.ofExcept (finalNames job)
        promote Artifact.partialName names
        publishMarkers config job code names figures) d := by
  refine Returns.bind (Returns.ofExcept fun names hnames => Returns.bind ?_)
  refine (returns_promote h isPartial_partialName (finalNames_final hnames)).mono fun _ d' h' => ?_
  exact (returns_publishMarkers figures h' hnames).mono fun _ _ hpublished => ⟨names, hpublished⟩

end Job

end

/-! ## What a live capture writes -/

namespace LiveCommand

/-- The state in which the commands leave a capture that is then closed, if none of them raises. -/
def closing : List LiveCommand → LiveSpoolCapture → Option LiveSpoolCapture
  | [], live => if live.syncAndClose.error = none then some live.syncAndClose.live else none
  | command :: commands, live =>
    if (command.call live).error = none then closing commands (command.call live).live else none

/-- The RAW bytes of a command. -/
def raw (d : StreamDirection) : LiveCommand → Bytes
  | .append _ d' data _ => if d' = d then data else []
  | .markLocalWriteDrain .. => []

theorem call_follows (command : LiveCommand) (live : LiveSpoolCapture) :
    (command.call live).Follows live := by
  cases command with
  | append sequence direction data chunk => exact live.append_follows sequence direction data chunk
  | markLocalWriteDrain sequence completed drainUnixNs error =>
    exact (live.markLocalWriteDrain_follows sequence completed drainUnixNs error).follows

/-- A command that raises nothing leaves the capture open and writes its bytes to the RAW file of
their direction. -/
theorem call_ok {command : LiveCommand} {live : LiveSpoolCapture}
    (h : (command.call live).error = none) :
    (command.call live).live.closed = live.closed ∧
      ∀ d, output (command.call live).writes d.artifact = command.raw d := by
  cases command with
  | append sequence direction data chunk =>
    obtain ⟨hopen, -, hclosed, -, hout⟩ := LiveSpoolCapture.append_ok h
    refine ⟨hclosed.trans hopen.symm, fun d => ?_⟩
    refine (hout d.artifact (LiveSpoolCapture.artifact_ne_timeline d)).trans ?_
    cases d <;> cases direction <;> rfl
  | markLocalWriteDrain sequence completed drainUnixNs error =>
    have honly := live.markLocalWriteDrain_follows sequence completed drainUnixNs error
    exact ⟨honly.closed, fun d => honly.output_eq_nil (LiveSpoolCapture.artifact_ne_timeline d)⟩

/-- The RAW files of a capture that is closed have the bytes of the commands, in their order. -/
theorem closing_raw {commands : List LiveCommand} {live live' : LiveSpoolCapture}
    (h : closing commands live = some live') (d : StreamDirection) :
    live'.hashers d.artifact = live.hashers d.artifact ++ commands.flatMap (raw d) := by
  induction commands generalizing live with
  | nil =>
    rw [closing] at h
    split at h
    · cases h
      rw [live.syncAndClose_follows.hashers,
        live.syncAndClose_output (LiveSpoolCapture.artifact_ne_timeline d), List.flatMap_nil]
    · cases h
  | cons command commands ih =>
    rw [closing] at h
    split at h
    · next herror =>
      rw [ih h, (call_follows command live).hashers, (call_ok herror).2, List.flatMap_cons,
        List.append_assoc]
    · cases h

end LiveCommand

/-! ## The date directory -/

namespace Day

variable {s : Day} {name : Text} {d : JobDir} {α : Type}

/-- What a program does in a directory. -/
theorem safe_inside {I : Day → Prop} {E : Error → Day → Prop} {Q : α → JobDir → Prop} {m : Job α}
    (h : Job.Returns Q m d) (hI : ∀ d', I (Function.update s name (some d')))
    (hE : ∀ e d', E e (Function.update s name (some d'))) :
    Safe exec I (fun a s' => ∃ d', s' = Function.update s name (some d') ∧ Q a d') E
      (DayJob.inside name m) (Function.update s name (some d)) := by
  induction m generalizing d with
  | ret a => exact .pure (hI d) ⟨d, rfl, h.2⟩
  | raise e => exact .throw (hI d) (hE e d)
  | call op next ih =>
    refine ⟨hI d, fun c => ?_⟩
    simp only [exec, Function.update_self, Function.update_idem]
    exact ih _ (h.2 c)

/-- A program in another directory keeps what does not depend on this one. -/
theorem safe_inside_of_frame {I : Day → Prop} (m : Job α) (hs : I s)
    (hframe : ∀ s d, I s → I (Function.update s name (some d))) :
    Safe exec I (fun _ _ => True) (fun _ _ => True) (DayJob.inside name m) s := by
  induction m generalizing s with
  | ret a => exact .pure hs trivial
  | raise e => exact .throw hs trivial
  | call op next ih =>
    refine ⟨hs, fun c => ?_⟩
    simp only [exec]
    split
    · next d hd => exact ih _ (hframe s _ hs)
    · exact ih _ hs

section
variable {I : Day → Prop} {E : Error → Day → Prop} {Q : Unit → Day → Prop}

/-- An operation that changes the directory, or fails and leaves it. -/
theorem safe_attempt {fault : Option Errno} {result : Except Error Day} (hI : I s)
    (hok : ∀ s', result = .ok s' → I s' ∧ Q () s') (hE : ∀ e, E e s) :
    I (s.attempt fault result).2 ∧
      Safe exec I Q E (Prog.ofExcept (s.attempt fault result).1) (s.attempt fault result).2 := by
  cases fault with
  | some e => exact ⟨hI, hI, hE _⟩
  | none =>
    cases result with
    | error e => exact ⟨hI, hI, hE _⟩
    | ok s' =>
      obtain ⟨hI', hQ⟩ := hok s' rfl
      exact ⟨hI', hI', hQ⟩

theorem safe_mkdir (hI : I s) (hok : ∀ s', s.mkdir name = .ok s' → I s' ∧ Q () s')
    (hE : ∀ e, E e s) : Safe exec I Q E (DayJob.mkdir name) s :=
  Safe.bind (Safe.perform hI fun _ => safe_attempt hI hok hE)

theorem safe_replace {src dst : Text} (hI : I s)
    (hok : ∀ s', s.replace src dst = .ok s' → I s' ∧ Q () s') (hE : ∀ e, E e s) :
    Safe exec I Q E (DayJob.replace src dst) s :=
  Safe.bind (Safe.perform hI fun _ => safe_attempt hI hok hE)

theorem safe_fsync (hI : I s) (hQ : Q () s) (hE : ∀ e, E e s) :
    Safe exec I Q E DayJob.fsync s := by
  refine Safe.bind (Safe.perform hI fun _ => safe_attempt hI (fun s' hs' => ?_) hE)
  cases hs'
  exact ⟨hI, hQ⟩

theorem safe_exist {Q : Bool → Day → Prop} (hI : I s) (hQ : Q (s name).isSome s) :
    Safe exec I Q E (DayJob.exist name) s :=
  Safe.perform hI fun _ => ⟨hI, hQ⟩

end

end Day

/-! ## Programs that list a capture -/

/-- The code is as it was, or it was free and is now that of a directory with `Good`. -/
def Lists (code : Text) (Good : JobDir → Prop) (s s' : Day) : Prop :=
  s' code = s code ∨ s code = none ∧ ∃ d, s' code = some d ∧ Good d

theorem partialDirName_ne (code : Text) (jobId : Label) : code ≠ partialDirName code jobId := by
  intro h
  have hlength := congrArg List.length h
  simp only [partialDirName, List.length_cons, List.length_append] at hlength
  omega

section
variable {config : Config} {job : CapturedJob} {code dir : Text} {Good : JobDir → Prop} {s : Day}

/-- Nothing but the hidden directory has changed. -/
theorem Lists.hidden (hdir : code ≠ dir) (d : Option JobDir) :
    Lists code Good s (Function.update s dir d) :=
  .inl (Function.update_of_ne hdir _ _)

theorem Lists.update (hdir : code ≠ dir) {s' : Day} (h : Lists code Good s s') (d : JobDir) :
    Lists code Good s (Function.update s' dir (some d)) := by
  have hsame : (Function.update s' dir (some d)) code = s' code := Function.update_of_ne hdir _ _
  rw [Lists, hsame]
  exact h

/-- A code that is taken is left alone; for one that is free there is an empty directory. -/
theorem safe_prepareCapture (code : Text) (jobId : Label) (Good : JobDir → Prop) (s : Day) :
    Safe Day.exec (Lists code Good s)
      (fun _ s' => s code = none ∧ s' = Function.update s (partialDirName code jobId) (some ∅))
      (fun _ _ => True) (prepareCapture code jobId) s := by
  have hI : Lists code Good s s := .inl rfl
  unfold prepareCapture
  refine Safe.bind (Day.safe_exist hI ?_)
  cases hcode : s code with
  | some d => exact Safe.throw hI trivial
  | none =>
    refine Safe.bind (Day.safe_exist hI ?_)
    cases hdir : s (partialDirName code jobId) with
    | some d => exact Safe.throw hI trivial
    | none =>
      refine Safe.bind (Day.safe_mkdir hI (fun s' hs' => ?_) fun _ => trivial)
      simp only [Day.mkdir, hdir, Except.ok.injEq] at hs'
      subst hs'
      have hI' := @Lists.hidden code _ Good s (partialDirName_ne code jobId) (some ∅)
      exact ⟨hI', Day.safe_fsync hI' ⟨rfl, rfl⟩ fun _ => trivial⟩

/-- The hidden directory takes the name of the code. -/
theorem safe_list (hdir : code ≠ dir) {d : JobDir} (hcode : s code = none) (hgood : Good d) :
    Safe Day.exec (Lists code Good s) (fun _ s' => ∃ d, s' code = some d ∧ Good d)
      (fun _ _ => True) (do DayJob.replace dir code; DayJob.fsync)
      (Function.update s dir (some d)) := by
  have hI := @Lists.hidden code dir Good s hdir (some d)
  refine Safe.bind (Day.safe_replace hI (fun s' hs' => ?_) fun _ => trivial)
  have hnone : (Function.update s dir (some d)) code = none := by
    rw [Function.update_of_ne hdir, hcode]
  simp only [Day.replace, Function.update_self, hnone, Option.all_none, if_true,
    Except.ok.injEq] at hs'
  have hlisted : s' code = some d := by rw [← hs', Function.update_self]
  have hI' : Lists code Good s s' := .inr ⟨hcode, d, hlisted, hgood⟩
  exact ⟨hI', Day.safe_fsync hI' ⟨d, hlisted, hgood⟩ fun _ => trivial⟩

end

/-- What `archive` publishes. -/
def Archived (config : Config) (job : CapturedJob) (code : Text) (d : JobDir) : Prop :=
  ∃ content names, archiveFiles job = .ok content ∧
    PublishedCapture config job code (archiveFigures content) content names d

/-- Wherever `archive` stops, the code is free still or that of the job it was given, whole. -/
theorem safe_archive (config : Config) (job : CapturedJob) (code : Text) (s : Day) :
    Safe Day.exec (Lists code (Archived config job code) s)
      (fun _ s' => ∃ d, s' code = some d ∧ Archived config job code d) (fun _ _ => True)
      (archive config job code) s := by
  have hdir := partialDirName_ne code job.jobId
  unfold archive
  refine Safe.bind ((safe_prepareCapture code job.jobId _ s).mono ?_ fun _ _ _ h => h)
  rintro _ _ - ⟨hcode, rfl⟩
  refine Safe.bind ((Day.safe_inside (Job.returns_archiveStaged config job code)
    (fun d => Lists.hidden hdir (some d)) fun _ _ => trivial).mono ?_ fun _ _ _ h => h)
  rintro _ _ - ⟨d, rfl, h⟩
  exact safe_list hdir hcode h

/-! ## Live captures that end -/

/-- What a live capture publishes: nothing was lost, and the files have what its commands wrote. -/
def LiveTask.Finalized (task : LiveTask) (config : Config) (code : Text) (live : LiveSpoolCapture)
    (commands : List LiveCommand) (d : JobDir) : Prop :=
  task.degraded = none ∧ ∃ live' names, LiveCommand.closing commands live = some live' ∧
    PublishedCapture config task.final code live'.figures live'.hashers names d

namespace LiveTask

variable {task : LiveTask} {config : Config} {code dir : Text} {live : LiveSpoolCapture}
  {content : Artifact → Bytes} {d : JobDir} {s s' : Day} {Good : JobDir → Prop}

/-- A capture that failed is never listed. -/
theorem safe_fail (hdir : code ≠ dir) (e : Error) (hs : Lists code Good s s') :
    Safe Day.exec (Lists code Good s) (fun _ _ => True) (fun _ _ => True)
      (task.fail config dir live e) s' :=
  Day.safe_inside_of_frame _ hs fun _ d h => h.update hdir d

/-- `finalize`, after the files are closed. -/
theorem safe_finalizeClosed (hdir : code ≠ dir) (hcode : live.code = code)
    (hgood : ∀ d names, PublishedCapture config task.final code live.figures content names d → Good d)
    (h : Staged Artifact.partialName (fun k => some (content k)) d) :
    Safe Day.exec (Lists code Good s) (fun _ _ => True) (fun _ _ => True)
      (finalizeClosed config live task.final dir) (Function.update s dir (some d)) := by
  have hI : ∀ d, Lists code Good s (Function.update s dir (some d)) :=
    fun d => Lists.hidden hdir (some d)
  unfold finalizeClosed
  refine Safe.bind ((Day.safe_inside (Job.returns_fsync (Q := fun _ d' => d' = d) rfl) hI
    fun _ _ => trivial).mono ?_ fun _ _ _ h => h)
  rintro _ _ - ⟨d, rfl, rfl⟩
  refine Safe.bind (Day.safe_exist (hI _) ?_)
  rw [hcode, Function.update_of_ne hdir]
  cases hfree : s code with
  | some d' => exact Safe.throw (hI _) trivial
  | none =>
    refine Safe.bind ((Day.safe_inside (Job.returns_finalFiles config task.final code live.figures h)
      hI fun _ _ => trivial).mono ?_ fun _ _ _ h => h)
    rintro _ _ - ⟨d', rfl, names, h'⟩
    exact (safe_list hdir hfree (hgood d' names h')).mono (fun _ _ _ _ => trivial) fun _ _ _ h => h

/-- When the commands are done. -/
theorem safe_finish (hdir : code ≠ dir) (hcode : live.code = code) (hclosed : live.closed = false)
    (hhashers : live.hashers = content)
    (h : Staged Artifact.partialName (fun k => some (content k)) d) :
    Safe Day.exec (Lists code (task.Finalized config code live []) s) (fun _ _ => True)
      (fun _ _ => True) (task.finish config dir live) (Function.update s dir (some d)) := by
  have hI : ∀ d, Lists code (task.Finalized config code live []) s (Function.update s dir (some d)) :=
    fun d => Lists.hidden hdir (some d)
  unfold finish
  cases hdegraded : task.degraded with
  | some reason => exact Day.safe_inside_of_frame _ (hI d) fun _ d h => h.update hdir d
  | none =>
    refine Safe.bind ((Day.safe_inside (Job.returns_flushAndSync live hclosed h) hI
      fun _ _ => trivial).mono ?_ fun _ _ _ h => h)
    rintro ⟨live', e | e⟩ _ - ⟨d', rfl, h'⟩
    · obtain ⟨rfl, herror, hstaged⟩ := h' rfl
      have hcontent : (fun key => content key ++ output live.syncAndClose.writes key) =
          live.syncAndClose.live.hashers := by
        funext key
        rw [live.syncAndClose_follows.hashers, hhashers]
      have hplace := congrArg (·.1) live.syncAndClose_follows.place
      refine Safe.bind (Safe.result ((safe_finalizeClosed hdir (hplace.trans hcode) ?_ hstaged).mono
        (fun _ _ hI _ => Safe.pure hI trivial) fun e _ hI _ => safe_fail hdir e hI))
      intro d names hd
      rw [hcontent] at hd
      exact ⟨hdegraded, live.syncAndClose.live, names, if_pos herror, hd⟩
    · exact safe_fail hdir e (hI d')

/-- The commands, one after the other. -/
theorem safe_run (hdir : code ≠ dir) (commands : List LiveCommand) (hcode : live.code = code)
    (hclosed : live.closed = false) (hhashers : live.hashers = content)
    (h : Staged Artifact.partialName (fun k => some (content k)) d) :
    Safe Day.exec (Lists code (task.Finalized config code live commands) s) (fun _ _ => True)
      (fun _ _ => True) (task.run config dir commands live) (Function.update s dir (some d)) := by
  induction commands generalizing live content d with
  | nil => exact safe_finish hdir hcode hclosed hhashers h
  | cons command commands ih =>
    have hI : ∀ d, Lists code (task.Finalized config code live (command :: commands)) s
        (Function.update s dir (some d)) := fun d => Lists.hidden hdir (some d)
    refine Safe.bind ((Day.safe_inside (Job.returns_performCall live (command.call live) h) hI
      fun _ _ => trivial).mono ?_ fun _ _ _ h => h)
    rintro ⟨live', e | e⟩ _ - ⟨d', rfl, h'⟩
    · obtain ⟨rfl, herror, hstaged⟩ := h' rfl
      have hfollows := command.call_follows live
      have hnext := ih ((congrArg (·.1) hfollows.place).trans hcode)
        ((LiveCommand.call_ok herror).1.trans hclosed) rfl (by
          convert hstaged using 2
          rw [hfollows.hashers, hhashers])
      have hsame : task.Finalized config code live (command :: commands) =
          task.Finalized config code (command.call live).live commands := by
        funext d
        rw [Finalized, Finalized, LiveCommand.closing, if_pos herror]
      rw [hsame]
      exact hnext
    · exact safe_fail hdir e (hI d')

end LiveTask

/-- Wherever a live capture stops, the code is free still or that of what its commands wrote,
whole. -/
theorem safe_liveCapture (config : Config) (job : CapturedJob) (code : Text) (parent : Path)
    (task : LiveTask) (commands : List LiveCommand) (s : Day) :
    Safe Day.exec
      (Lists code (task.Finalized config code (.opened job code parent) commands) s)
      (fun _ _ => True) (fun _ _ => True) (liveCapture config job code parent task commands) s := by
  have hdir := partialDirName_ne code job.jobId
  unfold liveCapture
  refine Safe.bind ((safe_prepareCapture code job.jobId _ s).mono ?_ fun _ _ _ h => h)
  rintro _ _ - ⟨hcode, rfl⟩
  refine Safe.bind ((Day.safe_inside (Job.returns_openLive config (.opened job code parent) job)
    (fun d => Lists.hidden hdir (some d)) fun _ _ => trivial).mono ?_ fun _ _ _ h => h)
  rintro _ _ - ⟨d, rfl, h⟩
  exact LiveTask.safe_run hdir commands rfl rfl rfl h

/-- A whole capture, with the RAW bytes it was given: those of the job of an archive, or those of the
commands of a live capture that lost nothing. -/
inductive Captured (config : Config) (code : Text) : (StreamDirection → Bytes) → JobDir → Prop where
  | archive {job : CapturedJob} {d : JobDir} (h : Archived config job code d) :
    Captured config code job.payload d
  | live {job : CapturedJob} {parent : Path} {task : LiveTask} {commands : List LiveCommand}
    {d : JobDir} (h : task.Finalized config code (.opened job code parent) commands d) :
    Captured config code (fun direction => commands.flatMap (LiveCommand.raw direction)) d

/-- What every capture is, whatever it was given. -/
theorem Captured.published {config : Config} {code : Text} {payload : StreamDirection → Bytes}
    {d : JobDir} (h : Captured config code payload d) :
    ∃ job figures content names, PublishedCapture config job code figures content names d ∧
      figures.sha256 = some (fun key => sha256 (content key)) ∧
      ∀ direction : StreamDirection, content direction.artifact = payload direction := by
  cases h with
  | @archive job d h =>
    obtain ⟨content, names, hcontent, hpublished⟩ := h
    refine ⟨job, _, content, names, hpublished, rfl, fun direction => ?_⟩
    simp only [archiveFiles, bind_eq_ok] at hcontent
    obtain ⟨text, -, hcontent⟩ := hcontent
    cases hcontent
    cases direction <;> rfl
  | @live job parent task commands d h =>
    obtain ⟨-, live, names, hclosing, hpublished⟩ := h
    exact ⟨task.final, _, live.hashers, names, hpublished, rfl,
      fun direction => LiveCommand.closing_raw hclosing direction⟩

end RchProxy
