import RchProxy.Parser.Stems
import RchProxy.Storage.Outcome

/-!
# What a parse leaves in its staging directory

A program that writes into one directory of a job, followed along the files of that directory
(`Staging`): each write leaves a file whole under its name and the other names alone, but for the
temporary file. Where `_write_documents` returns, the directory holds the outputs it has described,
and no other output.
-/

namespace RchProxy

open Py Lib Lib.Prog

/-- The path of the capture manifest. -/
def manifestName : Text := "manifest.json".toList

/-- A directory of a job holds the given files, and the manifest is the given one. -/
structure Staging (dir : Text) (manifest : Option Node) (files : Dir) (d : JobDir) : Prop where
  lookup : d.lookup dir = some (.dir files)
  manifest : d.lookup manifestName = manifest

namespace Staging

variable {dir : Text} {manifest : Option Node} {files files' : Dir} {d d' : JobDir}

theorem insert (h : Staging dir manifest files d) (hdir : dir ≠ manifestName) :
    Staging dir manifest files' (d.insert dir (.dir files')) where
  lookup := AList.lookup_insert d
  manifest := (AList.lookup_insert_ne hdir.symm).trans h.manifest

/-- A change of the files of the directory. -/
theorem within (h : Staging dir manifest files d) (hdir : dir ≠ manifestName)
    {f : Dir → Except Error Dir} (hd' : d.within dir f = .ok d') :
    ∃ files', f files = .ok files' ∧ Staging dir manifest files' d' := by
  simp only [JobDir.within, h.lookup] at hd'
  cases hf : f files with
  | error e =>
    rw [hf] at hd'
    cases hd'
  | ok files' =>
    rw [hf] at hd'
    cases hd'
    exact ⟨files', rfl, h.insert hdir⟩

end Staging

namespace Job

variable {α β : Type} {dir : Text} {manifest : Option Node} {files : Dir} {d : JobDir}

/-! ## Files of the directory -/

section
variable (hdir : dir ≠ manifestName) (h : Staging dir manifest files d) {n : Text} {data : Bytes}
  {Q : Unit → JobDir → Prop}
include hdir h

theorem returns_create
    (hQ : ∀ d', files.lookup n = none → Staging dir manifest (files.insert n []) d' → Q () d') :
    Returns Q (create ⟨some dir, n⟩) d := by
  refine .bind (.perform fun c => returns_attempt fun d' hd' => ?_)
  obtain ⟨files', hfiles, hstaging⟩ := h.within hdir hd'
  split at hfiles
  · cases hfiles
  · next hnone =>
    cases hfiles
    exact hQ d' hnone hstaging

theorem returns_write {old : Bytes} (hold : files.lookup n = some old)
    (hQ : ∀ d', Staging dir manifest (files.insert n (old ++ data)) d' → Q () d') :
    Returns Q (write ⟨some dir, n⟩ data) d := by
  refine .bind (.perform fun c => returns_attempt fun d' hd' => hQ d' ?_)
  have hwrite : d.write ⟨some dir, n⟩ data = d.insert dir (.dir (files.insert n (old ++ data))) := by
    simp only [JobDir.write, h.lookup, hold]
  rw [hwrite] at hd'
  cases hd'
  exact h.insert hdir

theorem returns_store (hQ : ∀ d', Staging dir manifest (files.insert n data) d' → Q () d') :
    Returns Q (store dir n data) d := by
  refine .bind (.perform fun c => returns_attempt fun d' hd' => ?_)
  obtain ⟨files', hfiles, hstaging⟩ := h.within hdir hd'
  cases hfiles
  exact hQ d' hstaging

theorem returns_rename {src : Text} (hsrc : files.lookup src = some data)
    (hQ : ∀ d', Staging dir manifest ((files.erase src).insert n data) d' → Q () d') :
    Returns Q (rename (some dir) src n) d := by
  refine .bind (.perform fun c => returns_attempt fun d' hd' => ?_)
  obtain ⟨files', hfiles, hstaging⟩ := h.within hdir hd'
  rw [hsrc] at hfiles
  cases hfiles
  exact hQ d' hstaging

theorem returns_unlink (hQ : ∀ d', Staging dir manifest (files.erase n) d' → Q () d') :
    Returns Q (unlink ⟨some dir, n⟩) d := by
  refine .bind (.perform fun c => returns_attempt fun d' hd' => ?_)
  obtain ⟨files', hfiles, hstaging⟩ := h.within hdir hd'
  split at hfiles
  · cases hfiles
    exact hQ d' hstaging
  · cases hfiles

end

/-- A temporary file that has been renamed is gone. -/
theorem returns_unlinkTemp {n : Text} {Q : Unit → JobDir → Prop}
    (h : Staging dir manifest files d) (hn : files.lookup n = none) (hQ : Q () d) :
    Returns Q (unlinkTemp ⟨some dir, n⟩) d := by
  refine .bind (.perform fun c => ?_)
  have hunlink : d.unlink ⟨some dir, n⟩ = .error (.osError .fileNotFound) := by
    simp only [JobDir.unlink, JobDir.within, h.lookup, hn]
    rfl
  rw [JobDir.exec, hunlink]
  cases hfault : c.fault with
  | none => exact .pure hQ
  | some errno =>
    simp only [attempt]
    split
    · exact .pure hQ
    · exact .pure hQ
    · exact .throw

theorem read_staging (h : Staging dir manifest files d) (n : Text) :
    d.read ⟨some dir, n⟩ =
      match files.lookup n with
      | some data => .ok data
      | none => .error (.osError .fileNotFound) := by
  simp only [JobDir.read, JobDir.node, h.lookup]
  cases files.lookup n <;> rfl

/-! ## Writes -/

/-- What a write leaves: the file, and the other files but for a temporary one. -/
def Put (name : Text) (data : Bytes) (files files' : Dir) : Prop :=
  files'.lookup name = some data ∧
    ∀ other, other ≠ name → (∀ uuid, other ≠ tempName name uuid) →
      files'.lookup other = files.lookup other

/-- A temporary file takes its place. -/
theorem returns_publish (hdir : dir ≠ manifestName) {name : Text} (uuid : LeaseToken) {data : Bytes}
    {files' : Dir} (h : Staging dir manifest files' d)
    (htemp : files'.lookup (tempName name uuid) = some data)
    (hother : ∀ other, other ≠ tempName name uuid → files'.lookup other = files.lookup other) :
    Returns (fun _ d' => Returns (fun _ d' => ∃ files', Put name data files files' ∧
        Staging dir manifest files' d') (unlinkTemp ⟨some dir, tempName name uuid⟩) d')
      (do
        fsync
        rename (some dir) (tempName name uuid) name
        fsync) d := by
  have hne := tempName_ne name uuid
  refine .bind (returns_fsync (.bind (returns_rename hdir h htemp fun d' h' => ?_)))
  refine returns_fsync (returns_unlinkTemp h' ?_ ⟨_, ⟨AList.lookup_insert _, ?_⟩, h'⟩)
  · rw [AList.lookup_insert_ne hne, AList.lookup_erase]
  · intro other hname huuid
    rw [AList.lookup_insert_ne hname, AList.lookup_erase_ne (huuid uuid), hother _ (huuid uuid)]

theorem returns_ensureDirectory (h : Staging dir manifest files d) {Q : Unit → JobDir → Prop}
    (hQ : Q () d) : Returns Q (ensureDirectory dir) d := by
  refine .bind (.perform fun c => ?_)
  have hmkdir : d.mkdir dir = .error (.osError .fileExists) := by
    simp only [JobDir.mkdir, h.lookup]
  rw [JobDir.exec, hmkdir]
  cases c.fault <;>
  · simp only [attempt]
    refine .bind (returns_isDir ?_)
    split
    · exact .pure hQ
    · exact .throw

theorem returns_atomicWriteBytes (hdir : dir ≠ manifestName) (h : Staging dir manifest files d)
    {name : Text} (data : Bytes) :
    Returns (fun _ d' => ∃ files', Put name data files files' ∧ Staging dir manifest files' d')
      (atomicWriteBytes ⟨some dir, name⟩ data) d := by
  refine .bind (returns_ensureDirectory h (.bind (.perform fun c => ?_)))
  refine .bind (returns_create hdir h fun d' _ h' => .tryFinally (.bind ?_))
  refine returns_write hdir h' (AList.lookup_insert _) fun d'' h'' => ?_
  refine returns_publish hdir _ h'' (AList.lookup_insert _) fun other hother => ?_
  rw [AList.lookup_insert_ne hother, AList.lookup_insert_ne hother]

theorem returns_atomicGenerate (hdir : dir ≠ manifestName) (h : Staging dir manifest files d)
    {name : Text} (generator : Except Error Bytes) :
    Returns (fun _ d' => ∃ data files', Put name data files files' ∧ Staging dir manifest files' d')
      (atomicGenerate dir name generator) d := by
  refine .bind (returns_ensureDirectory h (.bind (.perform fun c => ?_)))
  refine .bind (returns_create hdir h fun d' _ h' => .tryFinally (.bind ?_))
  refine .ofExcept fun data _ => .bind (returns_store hdir h' fun d'' h'' => ?_)
  refine (returns_publish hdir _ h'' (AList.lookup_insert _) fun other hother => ?_).mono
    fun _ _ hunlink => hunlink.mono fun _ _ ⟨files', hput, hstaging⟩ => ⟨data, files', hput, hstaging⟩
  rw [AList.lookup_insert_ne hother, AList.lookup_insert_ne hother]

end Job

/-! ## Outputs -/

/-- What is written for a document. -/
structure Outputs where
  kind : DocKind
  txt : Option Written
  pdf : Option Written

/-- The files of a document. -/
def Outputs.written (o : Outputs) : List Written := o.txt.toList ++ o.pdf.toList

/-- The files of all documents. -/
def allWritten (outs : List Outputs) : List Written := outs.flatMap Outputs.written

/-- A file is in the directory with its digest. -/
def Held (files : Dir) (w : Written) : Prop :=
  ∃ data, files.lookup w.name = some data ∧ w.sha256 = sha256 data

/-- The files of a document have one stem, which was issued for its kind. -/
def Outputs.Named (code : Text) (seen : List Text) (o : Outputs) : Prop :=
  ∃ (t : LocalTime) (n : Nat), let base := stemBase code o.kind (humanCaptureTime t).1
    n ≤ seen.count base ∧ (∀ w ∈ o.txt, w.name = stemOf base n ++ ".txt".toList) ∧
      ∀ w ∈ o.pdf, w.name = stemOf base n ++ ".pdf".toList

/-- An entry of `parsed.json` describes the outputs of a document. -/
def Describes (document : Json) (o : Outputs) : Prop :=
  document.Plain ∧ ∃ fields, document = .obj fields ∧ (fields.map (·.1)).Nodup ∧
    ("type".toList, .str [o.kind.letter]) ∈ fields ∧
    ("outputs".toList, .obj [("txt".toList, Written.json o.txt), ("pdf".toList, Written.json o.pdf)]) ∈
      fields

/-- The documents written so far: their entries, and their files in the directory. -/
structure Job.Progress.Staged (code : Text) (progress : Job.Progress) (outs : List Outputs)
    (files : Dir) : Prop where
  documents : List.Forall₂ Describes progress.documents outs
  expected : ∀ name, name ∈ progress.expectedFiles ↔ name ∈ (allWritten outs).map (·.name)
  named : ∀ o ∈ outs, o.Named code progress.seen
  nodup : ((allWritten outs).map (·.name)).Nodup
  held : ∀ w ∈ allWritten outs, Held files w

theorem plain_written (w : Option Written) : (Written.json w).Plain := by
  cases w with
  | none => trivial
  | some w => exact ⟨trivial, trivial, trivial⟩

theorem plain_documentEntry (r : Rendering) (config : Config) (index : Nat) (parsed : ParsedReceipt)
    (event : TimelineEvent) (display : Text) (txt pdf : Option Written) :
    (documentEntry r config index parsed event display txt pdf).Plain := by
  have hframes : ∀ ids : List Nat, Json.PlainItems (ids.map fun n => .int n) := by
    intro ids
    induction ids with
    | nil => trivial
    | cons _ _ ih => exact ⟨trivial, ih⟩
  exact ⟨trivial, trivial, trivial, trivial, trivial, trivial, trivial, trivial, trivial, trivial,
    ⟨trivial, trivial, hframes _, trivial, plain_ofInt? _, trivial⟩,
    ⟨plain_written txt, plain_written pdf, trivial⟩, (r.receiptToDict parsed).property, trivial⟩

theorem describes_documentEntry (r : Rendering) (config : Config) (index : Nat)
    (parsed : ParsedReceipt) (event : TimelineEvent) (display : Text) (txt pdf : Option Written) :
    Describes (documentEntry r config index parsed event display txt pdf)
      ⟨parsed.model.kind, txt, pdf⟩ := by
  refine ⟨plain_documentEntry .., _, rfl, ?_, ?_, ?_⟩
  · simp
  · simp
  · simp

theorem not_isParserOutput_temp (name : Text) (uuid : LeaseToken) :
    isParserOutput (Job.tempName name uuid) = false := rfl

theorem Outputs.Named.isParserOutput {code : Text} {seen : List Text} {o : Outputs}
    (h : o.Named code seen) (hcode : isJobCode code) : ∀ w ∈ o.written, isParserOutput w.name = true := by
  obtain ⟨t, n, -, htxt, hpdf⟩ := h
  intro w hw
  rcases List.mem_append.mp hw with hw | hw
  · rw [htxt w (Option.mem_toList.mp hw)]
    exact isParserOutput_stem hcode (by simp [outputEndings])
  · rw [hpdf w (Option.mem_toList.mp hw)]
    exact isParserOutput_stem hcode (by simp [outputEndings])

theorem Held.put {name : Text} {data : Bytes} {files files' : Dir} {w : Written} (h : Held files w)
    (hput : Job.Put name data files files') (hne : w.name ≠ name)
    (houtput : RchProxy.isParserOutput w.name = true) : Held files' w := by
  obtain ⟨data', hdata, hsha⟩ := h
  refine ⟨data', ?_, hsha⟩
  rw [hput.2 w.name hne fun uuid heq => ?_, hdata]
  rw [heq, not_isParserOutput_temp] at houtput
  cases houtput

/-- A file was saved under the name, if the configuration asks for it. -/
def Saved (name : Text) (files : Dir) (w : Option Written) (files' : Dir) : Prop :=
  match w with
  | none => files' = files
  | some w => w.name = name ∧ ∃ data, w.sha256 = sha256 data ∧ Job.Put name data files files'

theorem Held.saved {name : Text} {files files' : Dir} {w : Written} {saved : Option Written}
    (h : Held files w) (hsaved : Saved name files saved files') (hne : w.name ≠ name)
    (houtput : RchProxy.isParserOutput w.name = true) : Held files' w := by
  cases saved with
  | none =>
    cases hsaved
    exact h
  | some w' =>
    obtain ⟨-, data, -, hput⟩ := hsaved
    exact h.put hput hne houtput

theorem Saved.held {name : Text} {files files' : Dir} {saved : Option Written}
    (h : Saved name files saved files') : ∀ w ∈ saved, Held files' w := by
  rintro w rfl
  obtain ⟨hname, data, hsha, hput⟩ := h
  exact ⟨data, by rw [hname]; exact hput.1, hsha⟩

theorem Saved.name {name : Text} {files files' : Dir} {saved : Option Written}
    (h : Saved name files saved files') : ∀ w ∈ saved, w.name = name := by
  rintro w rfl
  exact h.1

/-- The names of two stems differ, whatever their endings. -/
theorem stem_ending_ne {stem stem' ending ending' : Text} (hne : stem ≠ stem')
    (hending : ending ∈ outputEndings) (hending' : ending' ∈ outputEndings) :
    stem ++ ending ≠ stem' ++ ending' := by
  have hlength : ∀ e ∈ outputEndings, e.length = 4 := by decide
  intro h
  exact hne (List.append_inj_left' h ((hlength _ hending).trans (hlength _ hending').symm))

theorem Outputs.Named.name_eq {code : Text} {seen : List Text} {o : Outputs} (h : o.Named code seen) :
    ∃ (t : LocalTime) (n : Nat), n ≤ seen.count (stemBase code o.kind (humanCaptureTime t).1) ∧
      ∀ w ∈ o.written, ∃ ending ∈ outputEndings,
        w.name = stemOf (stemBase code o.kind (humanCaptureTime t).1) n ++ ending := by
  obtain ⟨t, n, hn, htxt, hpdf⟩ := h
  refine ⟨t, n, hn, fun w hw => ?_⟩
  rcases List.mem_append.mp hw with hw | hw
  · exact ⟨_, by simp [outputEndings], htxt w (Option.mem_toList.mp hw)⟩
  · exact ⟨_, by simp [outputEndings], hpdf w (Option.mem_toList.mp hw)⟩

/-- One document more. -/
theorem Job.Progress.Staged.step {code : Text} {progress : Job.Progress} {outs : List Outputs}
    {files files₁ files₂ : Dir} (h : progress.Staged code outs files) (hcode : isJobCode code)
    (kind : DocKind) (t : LocalTime) {document : Json} {txt pdf : Option Written}
    (htxt : Saved ((uniqueStem code kind (humanCaptureTime t).1 progress.seen).1 ++ ".txt".toList)
      files txt files₁)
    (hpdf : Saved ((uniqueStem code kind (humanCaptureTime t).1 progress.seen).1 ++ ".pdf".toList)
      files₁ pdf files₂)
    (hdocument : Describes document ⟨kind, txt, pdf⟩) :
    Job.Progress.Staged code
      { seen := (uniqueStem code kind (humanCaptureTime t).1 progress.seen).2
        expectedFiles := (txt.toList ++ pdf.toList).map (·.name) ++ progress.expectedFiles
        documents := progress.documents ++ [document] }
      (outs ++ [⟨kind, txt, pdf⟩]) files₂ := by
  have hall : allWritten (outs ++ [⟨kind, txt, pdf⟩]) =
      allWritten outs ++ (txt.toList ++ pdf.toList) := by
    simp [allWritten, Outputs.written]
  let base := stemBase code kind (humanCaptureTime t).1
  let stem := stemOf base (progress.seen.count base + 1)
  have htxtEnding : ".txt".toList ∈ outputEndings := by simp [outputEndings]
  have hpdfEnding : ".pdf".toList ∈ outputEndings := by simp [outputEndings]
  have hnew : Outputs.Named code (base :: progress.seen) ⟨kind, txt, pdf⟩ :=
    ⟨t, progress.seen.count base + 1, (List.count_cons_self ..).ge, htxt.name, hpdf.name⟩
  -- no earlier file has the new stem
  have hfresh : ∀ w ∈ allWritten outs, ∀ ending ∈ outputEndings, w.name ≠ stem ++ ending := by
    intro w hw ending hending
    obtain ⟨o, ho, hw⟩ := List.mem_flatMap.mp hw
    obtain ⟨t', n, hn, hname⟩ := (h.named o ho).name_eq
    obtain ⟨ending', hending', heq⟩ := hname w hw
    rw [heq]
    refine stem_ending_ne (fun hstem => ?_) hending' hending
    obtain ⟨hbase, rfl⟩ := stemOf_injective
      (by rw [stemBase_length, stemBase_length, humanCaptureTime_length, humanCaptureTime_length])
      hstem
    rw [hbase] at hn
    exact absurd hn (Nat.not_succ_le_self _)
  have houtput : ∀ w ∈ allWritten outs, isParserOutput w.name = true := by
    intro w hw
    obtain ⟨o, ho, hw⟩ := List.mem_flatMap.mp hw
    exact (h.named o ho).isParserOutput hcode w hw
  have hnewOutput : ∀ w ∈ txt.toList ++ pdf.toList, isParserOutput w.name = true :=
    hnew.isParserOutput hcode
  have htxtNe : ∀ w ∈ txt, w.name ≠ stem ++ ".pdf".toList := by
    intro w hw heq
    rw [htxt.name w hw] at heq
    exact absurd (List.append_cancel_left heq) (by decide)
  refine ⟨List.rel_append h.documents (.cons hdocument .nil), fun name => ?_, ?_, ?_, ?_⟩
  · have hnames : (allWritten outs ++ (txt.toList ++ pdf.toList)).map (·.name) =
        (allWritten outs).map (·.name) ++ (txt.toList ++ pdf.toList).map (·.name) := List.map_append
    rw [hall, hnames, List.mem_append, List.mem_append, h.expected, or_comm]
  · intro o ho
    rcases List.mem_append.mp ho with ho | ho
    · obtain ⟨t', n, hn, hname⟩ := h.named o ho
      exact ⟨t', n, hn.trans List.count_le_count_cons, hname⟩
    · rw [List.mem_singleton.mp ho]
      exact hnew
  · rw [hall, List.map_append, List.nodup_append]
    refine ⟨h.nodup, ?_, ?_⟩
    · cases txt with
      | none => cases pdf <;> simp
      | some txt =>
        cases pdf with
        | none => simp
        | some pdf =>
          have hne : txt.name ≠ pdf.name := fun heq => htxtNe txt rfl (heq.trans hpdf.1)
          simpa using hne
    · intro name hname name' hname' heq
      obtain ⟨w, hw, rfl⟩ := List.mem_map.mp hname
      obtain ⟨w', hw', rfl⟩ := List.mem_map.mp hname'
      rcases List.mem_append.mp hw' with hw' | hw'
      · exact hfresh w hw _ htxtEnding (heq.trans (htxt.name w' (Option.mem_toList.mp hw')))
      · exact hfresh w hw _ hpdfEnding (heq.trans (hpdf.name w' (Option.mem_toList.mp hw')))
  · intro w hw
    rw [hall] at hw
    rcases List.mem_append.mp hw with hw | hw
    · exact ((h.held w hw).saved htxt (hfresh w hw _ htxtEnding) (houtput w hw)).saved hpdf
        (hfresh w hw _ hpdfEnding) (houtput w hw)
    · have hwritten := hnewOutput w hw
      rcases List.mem_append.mp hw with hw | hw
      · exact (htxt.held w (Option.mem_toList.mp hw)).saved hpdf (htxtNe w (Option.mem_toList.mp hw))
          hwritten
      · exact hpdf.held w (Option.mem_toList.mp hw)

namespace Job

variable {dir : Text} {manifest : Option Node} {files : Dir} {d : JobDir}

/-! ## A claim that is refreshed -/

theorem keeps_readSmallJson (name : Text) : Keeps (readSmallJson name) d := by
  refine (keeps_isFile _).seq fun file => ?_
  split
  · exact .throw
  refine Keeps.seq (.bind (returns_kind ?_)) fun size => ?_
  · split
    · exact .pure rfl
    · exact .pure rfl
    · exact .throw
  dsimp only
  split
  · exact .throw
  refine Keeps.seq (.bind (returns_read fun data _ => .ofExcept fun _ _ => rfl)) fun value => ?_
  split
  · exact .pure rfl
  · exact .throw

theorem keeps_requireCurrentClaim (token : LeaseToken) : Keeps (requireCurrentClaim token) d := by
  refine (keeps_isFile _).seq fun file => ?_
  split
  · exact .throw
  refine Keeps.seq (Safe.tryCatch (Safe.mono (keeps_readSmallJson _) (fun _ _ _ h => h)
    fun _ _ _ _ => Returns.throw)) fun state => ?_
  split
  · exact .throw
  · exact .pure rfl

theorem keeps_refreshClaim (token : LeaseToken) : Keeps (refreshClaim token) d := by
  refine .bind (.perform fun c => ?_)
  refine .tryFinally ((Keeps.seq (keeps_requireCurrentClaim token) fun _ => ?_).mono ?_)
  · refine .bind (.perform fun c => returns_attempt fun d' hd' => ?_)
    split at hd' <;> cases hd'
    rfl
  · rintro _ d' rfl
    exact ⟨.intro, fun _ => ⟨.intro, rfl⟩⟩

/-! ## The outputs of a document -/

theorem returns_writeText (hdir : dir ≠ manifestName) (h : Staging dir manifest files d)
    (name text : Text) :
    Returns (fun w d' => ∃ files', Saved name files (some w) files' ∧ Staging dir manifest files' d')
      (writeText dir name text) d := by
  refine .bind ((returns_atomicWriteBytes hdir h (encodeUtf8 text)).mono ?_)
  rintro _ d' ⟨files', hput, h'⟩
  refine .bind (returns_sha256File fun data hdata => .pure ⟨files', ⟨rfl, _, ?_, hput⟩, h'⟩)
  rw [read_staging h', hput.1] at hdata
  cases hdata
  rfl

theorem returns_writePdf (hdir : dir ≠ manifestName) (h : Staging dir manifest files d)
    (name : Text) (pdf : Except Error Bytes) :
    Returns (fun w d' => ∃ files', Saved name files (some w) files' ∧ Staging dir manifest files' d')
      (writePdf dir name pdf) d := by
  refine .bind ((returns_atomicGenerate hdir h pdf).mono ?_)
  rintro _ d' ⟨data, files', hput, h'⟩
  refine .bind (returns_sha256File fun data' hdata => .pure ⟨files', ⟨rfl, data, ?_, hput⟩, h'⟩)
  rw [read_staging h', hput.1] at hdata
  cases hdata
  rfl

theorem returns_whenSaved {name : Text} (save : Bool) {m : Job Written}
    (h : Staging dir manifest files d)
    (hm : Returns (fun w d' => ∃ files', Saved name files (some w) files' ∧
      Staging dir manifest files' d') m d) :
    Returns (fun w d' => ∃ files', Saved name files w files' ∧ Staging dir manifest files' d')
      (whenSaved save m) d := by
  cases save with
  | false => exact .pure ⟨files, rfl, h⟩
  | true =>
    change Returns _ (some <$> m) d
    rw [map_eq_pure_bind]
    exact .bind (hm.mono fun w d' hw => .pure hw)

theorem stagingName_ne (token : LeaseToken) : stagingName token ≠ manifestName := by
  intro h
  cases h

theorem returns_writeDocument (r : Rendering) (config : Config) {code : Text}
    (hcode : isJobCode code) (token : LeaseToken) (timeline : List TimelineEvent)
    {progress : Progress} (parsed : ParsedReceipt) {outs : List Outputs}
    (h : Staging (stagingName token) manifest files d) (hstaged : progress.Staged code outs files) :
    Returns (fun progress' d' => ∃ outs' files', progress'.Staged code outs' files' ∧
        Staging (stagingName token) manifest files' d')
      (writeDocument r config code token timeline progress parsed) d := by
  refine .bind ((keeps_refreshClaim token).mono ?_)
  rintro _ d' rfl
  refine .bind (.ofExcept fun event _ => .bind (.ofExcept fun t _ => ?_))
  refine .ite (fun _ => .throw) fun _ => ?_
  refine .bind ((returns_whenSaved _ h (returns_writeText (stagingName_ne token) h _ _)).mono ?_)
  rintro txt d₁ ⟨files₁, htxt, h₁⟩
  refine .bind ((returns_whenSaved _ h₁ (returns_writePdf (stagingName_ne token) h₁ _ _)).mono ?_)
  rintro pdf d₂ ⟨files₂, hpdf, h₂⟩
  exact .pure ⟨_, files₂, hstaged.step hcode parsed.model.kind t htxt hpdf
    (describes_documentEntry ..), h₂⟩

theorem returns_writeAll (r : Rendering) (config : Config) {code : Text} (hcode : isJobCode code)
    (token : LeaseToken) (timeline : List TimelineEvent) (documents : List ParsedReceipt)
    {progress : Progress} {outs : List Outputs} (h : Staging (stagingName token) manifest files d)
    (hstaged : progress.Staged code outs files) :
    Returns (fun progress' d' => ∃ outs' files', progress'.Staged code outs' files' ∧
        Staging (stagingName token) manifest files' d')
      (writeAll r config code token timeline documents progress) d := by
  induction documents generalizing progress outs files d with
  | nil => exact .pure ⟨outs, files, hstaged, h⟩
  | cons parsed rest ih =>
    refine .bind ((returns_writeDocument r config hcode token timeline parsed h hstaged).mono ?_)
    rintro progress' d' ⟨outs', files', hstaged', h'⟩
    exact ih h' hstaged'

/-! ## Nothing else -/

/-- A file of the directory is one to `is_file`. -/
theorem kind_staging (h : Staging dir manifest files d) (n : Text) :
    d.kind ⟨some dir, n⟩ = (files.lookup n).map fun data => .file data.length := by
  simp only [JobDir.kind, JobDir.node, h.lookup]
  cases files.lookup n <;> rfl

theorem returns_removeUnreferenced (hdir : dir ≠ manifestName) (expected names : List Text)
    (h : Staging dir manifest files d) :
    Returns (fun _ d' => ∃ files', Staging dir manifest files' d' ∧
        (∀ n ∈ expected, files'.lookup n = files.lookup n) ∧
        ∀ n, (files'.lookup n).isSome → (files.lookup n).isSome ∧
          (n ∈ names → isParserOutput n = true → n ∈ expected))
      (removeUnreferenced dir expected names) d := by
  induction names generalizing files d with
  | nil => exact .pure ⟨files, h, fun _ _ => rfl, fun n hn => ⟨hn, fun hmem => nomatch hmem⟩⟩
  | cons name names ih =>
    -- what the rest of the loop makes of the files the first name leaves
    have hrest : ∀ files' d', Staging dir manifest files' d' →
        (∀ n ∈ expected, files'.lookup n = files.lookup n) →
        (∀ n, (files'.lookup n).isSome → (files.lookup n).isSome) →
        ((files'.lookup name).isSome → isParserOutput name = true → name ∈ expected) →
        Returns (fun _ d' => ∃ files', Staging dir manifest files' d' ∧
          (∀ n ∈ expected, files'.lookup n = files.lookup n) ∧
          ∀ n, (files'.lookup n).isSome → (files.lookup n).isSome ∧
            (n ∈ name :: names → isParserOutput n = true → n ∈ expected))
        (removeUnreferenced dir expected names) d' := by
      intro files' d' h' hkept hsub hname
      refine (ih h').mono ?_
      rintro _ d'' ⟨files'', h'', hkept', honly⟩
      refine ⟨files'', h'', fun n hn => (hkept' n hn).trans (hkept n hn), fun n hn => ?_⟩
      obtain ⟨hn', hmem⟩ := honly n hn
      refine ⟨hsub n hn', fun hcons houtput => ?_⟩
      rcases List.mem_cons.mp hcons with rfl | hcons
      · exact hname hn' houtput
      · exact hmem hcons houtput
    refine .bind (returns_isFile ?_)
    rw [kind_staging h]
    cases hlookup : files.lookup name with
    | none =>
      exact hrest files d h (fun _ _ => rfl) (fun _ hn => hn) fun hn => by
        rw [hlookup] at hn
        cases hn
    | some data =>
      refine .ite (fun _ => .ite (fun hremove => ?_) fun hkeep => ?_) fun hfile => absurd rfl hfile
      · rw [Bool.and_eq_true, Bool.not_eq_true', List.contains_eq_mem, decide_eq_false_iff_not] at hremove
        refine .bind (returns_unlink hdir h fun d' h' => hrest _ d' h' (fun n hn => ?_) (fun n hn => ?_) ?_)
        · exact AList.lookup_erase_ne (by rintro rfl; exact hremove.2 hn)
        · exact AList.lookup_isSome.mpr (AList.mem_erase.mp (AList.lookup_isSome.mp hn)).2
        · rw [AList.lookup_erase]
          nofun
      · refine .bind (.pure (hrest files d h (fun _ _ => rfl) (fun _ hn => hn) fun _ houtput => ?_))
        by_contra hmem
        exact hkeep (by simp [houtput, hmem])

theorem returns_removeUnreferencedOutputs (hdir : dir ≠ manifestName) (expected : List Text)
    (h : Staging dir manifest files d) :
    Returns (fun _ d' => ∃ files', Staging dir manifest files' d' ∧
        (∀ n ∈ expected, files'.lookup n = files.lookup n) ∧
        ∀ n, (files'.lookup n).isSome → isParserOutput n = true → n ∈ expected)
      (removeUnreferencedOutputs dir expected) d := by
  have hnames : d.iterdir (some dir) = .ok files.keys := by
    simp only [JobDir.iterdir, h.lookup]
  refine .bind (.bind (.perform fun c => .ofExcept fun names hlisting => ?_))
  rw [JobDir.exec, hnames] at hlisting
  cases hlisting
  refine .bind ((returns_removeUnreferenced hdir expected files.keys h).mono ?_)
  rintro _ d' ⟨files', h', hkept, honly⟩
  refine returns_fsync ⟨files', h', hkept, fun n hn houtput => ?_⟩
  obtain ⟨hn', hmem⟩ := honly n hn
  exact hmem (AList.mem_keys.mp (AList.lookup_isSome.mp hn')) houtput

/-! ## The staging directory of a parse -/

/-- The directory is there when `ensure_directory` returns, and the manifest is what it was. -/
theorem returns_makeDirectory (hdir : dir ≠ manifestName) (d : JobDir) :
    Returns (fun _ d' => ∃ files, Staging dir (d.lookup manifestName) files d')
      (ensureDirectory dir) d := by
  refine .bind (.perform fun c => ?_)
  have hmissing : ∀ e, Returns (fun _ d' => ∃ files, Staging dir (d.lookup manifestName) files d')
      (do if ← isDir { name := dir } then return () else throw e : Job Unit) d := by
    intro e
    refine .bind (returns_isDir (.ite (fun hkind => .pure ?_) fun _ => .throw))
    have hlookup : ∃ files, d.lookup dir = some (.dir files) := by
      have hkind := of_decide_eq_true hkind
      simp only [JobDir.kind, JobDir.node] at hkind
      cases hnode : d.lookup dir with
      | none =>
        rw [hnode] at hkind
        cases hkind
      | some node =>
        cases node with
        | file =>
          rw [hnode] at hkind
          cases hkind
        | dir files => exact ⟨files, rfl⟩
    obtain ⟨files, hfiles⟩ := hlookup
    exact ⟨files, hfiles, rfl⟩
  cases hfault : c.fault with
  | some errno =>
    rw [JobDir.exec, hfault]
    exact hmissing _
  | none =>
    rw [JobDir.exec, hfault]
    cases hlookup : d.lookup dir with
    | some node =>
      rw [JobDir.mkdir, hlookup]
      exact hmissing _
    | none =>
      rw [JobDir.mkdir, hlookup]
      exact .pure ⟨∅, AList.lookup_insert d, AList.lookup_insert_ne hdir.symm⟩

end Job

/-- A directory as a parse leaves it: `parsed.json` holds the metadata, the files it references are
there with their digests, and there is no other output. -/
structure Delivered (r : Rendering) (code : Text) (manifest : Bytes) (analysis : ProtocolAnalysis)
    (documents : List Json) (outs : List Outputs) (data : Bytes) (files : Dir) : Prop where
  parsed : files.lookup "parsed.json".toList = some data
  json : jsonBytes (parsedMetadata r code (sha256 manifest) analysis documents) = .ok data
  describes : List.Forall₂ Describes documents outs
  named : ∀ o ∈ outs, ∃ seen, o.Named code seen
  nodup : ((allWritten outs).map (·.name)).Nodup
  held : ∀ w ∈ allWritten outs, Held files w
  only : ∀ n, (files.lookup n).isSome → isParserOutput n = true →
    n ∈ (allWritten outs).map (·.name)

/-- `parsed.json`, written beside the outputs of all documents. -/
theorem Job.Progress.Staged.delivered {r : Rendering} {code : Text} {progress : Job.Progress}
    {outs : List Outputs} {files files₁ files₂ : Dir} {manifest data : Bytes}
    {analysis : ProtocolAnalysis} (h : progress.Staged code outs files) (hcode : isJobCode code)
    (hkept : ∀ n ∈ progress.expectedFiles, files₁.lookup n = files.lookup n)
    (honly : ∀ n, (files₁.lookup n).isSome → isParserOutput n = true → n ∈ progress.expectedFiles)
    (hjson : jsonBytes (parsedMetadata r code (sha256 manifest) analysis progress.documents) =
      .ok data)
    (hput : Job.Put "parsed.json".toList data files₁ files₂) :
    Delivered r code manifest analysis progress.documents outs data files₂ := by
  -- no output is `parsed.json` or its temporary file
  have hlookup : ∀ n, isParserOutput n = true → files₂.lookup n = files₁.lookup n := by
    intro n houtput
    refine hput.2 n ?_ fun uuid => ?_
    · rintro rfl
      exact absurd houtput (by decide)
    · rintro rfl
      rw [not_isParserOutput_temp] at houtput
      cases houtput
  refine ⟨hput.1, hjson, h.documents, fun o ho => ⟨_, h.named o ho⟩, h.nodup, ?_, ?_⟩
  · intro w hw
    obtain ⟨data', hdata', hsha⟩ := h.held w hw
    obtain ⟨o, ho, hwo⟩ := List.mem_flatMap.mp hw
    have hexpected := (h.expected w.name).mpr (List.mem_map_of_mem hw)
    refine ⟨data', ?_, hsha⟩
    rw [hlookup _ ((h.named o ho).isParserOutput hcode w hwo), hkept _ hexpected, hdata']
  · intro n hn houtput
    rw [hlookup n houtput] at hn
    exact (h.expected n).mp (honly n hn houtput)

namespace Job

/-- Where `_write_documents` returns, it answers with what it has left in its staging directory. -/
theorem returns_writeDocuments (r : Rendering) (config : Config) {loaded : LoadedSpoolJob}
    (hcode : isJobCode loaded.jobDir) (token : LeaseToken) (d : JobDir) :
    Returns (fun answer d' => ∃ manifest analysis documents outs data files,
        Staging (stagingName token) (some (.file manifest)) files d' ∧
        Delivered r loaded.jobDir manifest analysis documents outs data files ∧
        answer = (documents.length, sha256 data))
      (writeDocuments r config loaded token) d := by
  have hdir := stagingName_ne token
  refine .bind (.ofExcept fun analysis _ => .ite (fun _ => .throw) fun _ => ?_)
  refine .bind (returns_read fun timelineData _ => .bind (.ofExcept fun timeline _ => ?_))
  refine .bind ((returns_makeDirectory hdir d).mono ?_)
  rintro _ d₁ ⟨files₁, h₁⟩
  refine .bind ((@returns_writeAll _ _ _ r config _ hcode token timeline _ _ [] h₁ ?_).mono ?_)
  · exact ⟨.nil, by simp [allWritten], nofun, .nil, nofun⟩
  rintro progress d₂ ⟨outs, files₂, hstaged, h₂⟩
  refine .bind ((returns_removeUnreferencedOutputs hdir _ h₂).mono ?_)
  rintro _ d₃ ⟨files₃, h₃, hkept, honly⟩
  refine .bind (returns_sha256File fun manifest hmanifest => ?_)
  -- a closed value of JSON would be evaluated here
  generalize hmetadata : parsedMetadata r loaded.jobDir (sha256 manifest) analysis
    progress.documents = metadata
  refine .bind (.ofExcept fun data hjson => ?_)
  subst hmetadata
  refine .bind ((returns_atomicWriteBytes hdir h₃ data).mono ?_)
  rintro _ d₄ ⟨files₄, hput, h₄⟩
  refine .bind (returns_sha256File fun data' hdata' => .pure ?_)
  have hlookup : d₃.lookup manifestName = some (.file manifest) := by
    simp only [JobDir.read, JobDir.node] at hmanifest
    split at hmanifest
    · next hnode =>
      cases hmanifest
      exact hnode
    · cases hmanifest
    · cases hmanifest
  rw [h₃.manifest] at hlookup
  rw [read_staging h₄, hput.1] at hdata'
  cases hdata'
  exact ⟨manifest, analysis, _, outs, data, files₄, hlookup ▸ h₄,
    hstaged.delivered hcode hkept honly hjson hput, rfl⟩

end Job

end RchProxy
