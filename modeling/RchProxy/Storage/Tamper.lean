import Mathlib.Tactic.IntervalCases
import RchProxy.Storage.Load

/-!
# Loading a job that others write to

`load_spool_job` reads a capture file, and reads it again to compare its digest with the manifest's.
Here other programs change the directory before every operation of a load (`Turn`), in any file but
the two markers. The bytes a load returns are those the manifest authenticates exactly when the
file had the same digest at both reads. A read that is torn by a write gives bytes the file could
have held at that moment, so that a read is one operation.
-/

namespace RchProxy

open Py Lib

/-- A change another program makes to a file of the job that is not one of the two markers: what it
leaves there, if anything. -/
structure ExternalWrite where
  name : Text
  node : Option Node
  notReady : name ≠ ".ready".toList
  notManifest : name ≠ "manifest.json".toList

/-- The directory after the change. -/
def ExternalWrite.apply (w : ExternalWrite) (s : JobDir) : JobDir :=
  match w.node with
  | some node => s.insert w.name node
  | none => s.erase w.name

/-- The changes before an operation, and what the operation leaves open. -/
structure Turn where
  writes : List ExternalWrite := []
  choice : Choice

namespace JobDir

/-- The directory after some changes. -/
def written (s : JobDir) (writes : List ExternalWrite) : JobDir :=
  writes.foldl (fun s w => w.apply s) s

/-- An operation, after the changes that come before it. -/
def execAmid (t : Turn) (op : Op) (s : JobDir) : op.Res × JobDir :=
  exec t.choice op (s.written t.writes)

/-- The directory that operation `n` of a program that changes nothing finds. -/
def before (s : JobDir) (turns : List Turn) (n : Nat) : JobDir :=
  (turns.take (n + 1)).foldl (fun s t => s.written t.writes) s

/-- The digest of a capture file. -/
def digest (s : JobDir) (name : Text) : Option Text :=
  (s.read { name := name }).toOption.map sha256

/-- The manifest. -/
def manifest (s : JobDir) : Option (List (Text × Json)) := do
  let data ← (s.read { name := "manifest.json".toList }).toOption
  Json.fields? (loadsBytes data).toOption

/-- The name the manifest gives a capture file. -/
def artifactName (s : JobDir) (key : Artifact) : Option Text := do
  let files ← Json.fields? (Json.get "files".toList (← s.manifest))
  Json.text? (Json.get key.key files)

end JobDir

/-- The operation of `load_spool_job` that reads a RAW file into memory. -/
def StreamDirection.readAt : StreamDirection → Nat
  | .clientToRch => 12
  | .rchToClient => 13

/-- The operation of `load_spool_job` that reads a RAW file to compute its digest. -/
def StreamDirection.hashedAt : StreamDirection → Nat
  | .clientToRch => 14
  | .rchToClient => 15

/-- The RAW file of a direction has one digest at the two reads a load makes of it. -/
def JobDir.Steady (s : JobDir) (turns : List Turn) (d : StreamDirection) : Prop :=
  ∀ name, s.artifactName d.artifact = some name →
    (s.before turns d.readAt).digest name = (s.before turns d.hashedAt).digest name

namespace LoadedSpoolJob

/-- The digest the manifest has for a capture file. -/
def sha256Of (job : LoadedSpoolJob) (key : Artifact) : Option Text := do
  let hashes ← Json.fields? (Json.get "sha256".toList job.manifest)
  Json.text? (Json.get key.key hashes)

/-- The bytes returned for a direction. -/
def payload (job : LoadedSpoolJob) : StreamDirection → Bytes
  | .clientToRch => job.request
  | .rchToClient => job.response

/-- The manifest returned is the one in the directory, and the ready marker has its digest. -/
def ManifestAuthentic (s : JobDir) (job : LoadedSpoolJob) : Prop :=
  ∃ readyBytes manifestBytes ready,
    s.read { name := ".ready".toList } = .ok readyBytes ∧
    s.read { name := "manifest.json".toList } = .ok manifestBytes ∧
    loadsBytes readyBytes = .ok (.obj ready) ∧ loadsBytes manifestBytes = .ok (.obj job.manifest) ∧
    Json.text? (Json.get "manifest_sha256".toList ready) = some (sha256 manifestBytes)

/-- Only bytes that the ready marker authenticates are returned. -/
def Authentic (s : JobDir) (job : LoadedSpoolJob) : Prop :=
  job.ManifestAuthentic s ∧ ∀ d : StreamDirection,
    job.sha256Of d.artifact = some (sha256 (job.payload d))

end LoadedSpoolJob

/-! ## What the changes leave -/

namespace JobDir

variable {s : JobDir} {writes : List ExternalWrite} {turns : List Turn}

theorem lookup_apply {w : ExternalWrite} {name : Text} (h : name ≠ w.name) :
    (w.apply s).lookup name = s.lookup name := by
  unfold ExternalWrite.apply
  split
  · exact AList.lookup_insert_ne h
  · exact AList.lookup_erase_ne h

/-- A file no change is about. -/
theorem read_written {name : Text} (h : ∀ w ∈ writes, name ≠ w.name) :
    (s.written writes).read { name := name } = s.read { name := name } := by
  induction writes generalizing s with
  | nil => rfl
  | cons w writes ih =>
    have hhead : (w.apply s).read { name := name } = s.read { name := name } := by
      simp only [read, node, lookup_apply (h w List.mem_cons_self)]
    rw [← hhead]
    exact ih fun w hw => h w (List.mem_cons_of_mem _ hw)

@[simp] theorem read_ready_written :
    (s.written writes).read { name := ".ready".toList } = s.read { name := ".ready".toList } :=
  read_written fun w _ => w.notReady.symm

@[simp] theorem read_manifest_written : (s.written writes).read { name := "manifest.json".toList } =
    s.read { name := "manifest.json".toList } :=
  read_written fun w _ => w.notManifest.symm

theorem kind_of_read {p : Loc} {data : Bytes} (h : s.read p = .ok data) :
    s.kind p = some (.file data.length) := by
  unfold read at h
  split at h
  next found hnode =>
    cases h
    rw [kind, hnode]
    rfl
  next => cases h
  next => cases h

/-- A file no change in between is about has the digest it had. -/
theorem digest_before_add {name : Text} {n k : Nat}
    (h : ∀ t ∈ (turns.drop (n + 1)).take k, ∀ w ∈ t.writes, name ≠ w.name) :
    (s.before turns (n + k)).digest name = (s.before turns n).digest name := by
  rw [before, before, show n + k + 1 = (n + 1) + k by omega, List.take_add, List.foldl_append]
  generalize (turns.drop (n + 1)).take k = later at h
  generalize (turns.take (n + 1)).foldl _ s = s
  induction later generalizing s with
  | nil => rfl
  | cons t later ih =>
    have hhead : (s.written t.writes).digest name = s.digest name := by
      rw [digest, digest, read_written (h t List.mem_cons_self)]
    rw [List.foldl_cons, ih (fun t ht => h t (List.mem_cons_of_mem _ ht)), hhead]

@[simp] theorem before_zero (t : Turn) : s.before (t :: turns) 0 = s.written t.writes := rfl

@[simp] theorem before_succ (t : Turn) (n : Nat) :
    s.before (t :: turns) (n + 1) = (s.written t.writes).before turns n := rfl

end JobDir

/-! ## The operations of a load that returns -/

namespace Job

open Prog

variable {α : Type} {turns : List Turn} {s s' : JobDir} {p : Loc} {b : α}

theorem run_isFile {f : Bool → Job α}
    (h : run JobDir.execAmid turns (isFile p >>= f) s = some (.ok b, s')) :
    ∃ t rest found, turns = t :: rest ∧
      run JobDir.execAmid rest (f found) (s.written t.writes) = some (.ok b, s') := by
  rw [isFile, kind, bind_assoc] at h
  obtain ⟨t, rest, rfl, hrest⟩ := run_perform_bind h
  split at hrest
  · exact ⟨t, rest, true, rfl, hrest⟩
  · exact ⟨t, rest, false, rfl, hrest⟩

theorem run_size {f : Nat → Job α}
    (h : run JobDir.execAmid turns (size p >>= f) s = some (.ok b, s')) :
    ∃ t rest n, turns = t :: rest ∧
      run JobDir.execAmid rest (f n) (s.written t.writes) = some (.ok b, s') := by
  rw [size, kind, bind_assoc] at h
  obtain ⟨t, rest, rfl, hrest⟩ := run_perform_bind h
  split at hrest
  · exact ⟨t, rest, _, rfl, hrest⟩
  · exact ⟨t, rest, _, rfl, hrest⟩
  · exact (run_throw hrest).elim

theorem run_read {f : Bytes → Job α}
    (h : run JobDir.execAmid turns (read p >>= f) s = some (.ok b, s')) :
    ∃ t rest data, turns = t :: rest ∧ (s.written t.writes).read p = .ok data ∧
      run JobDir.execAmid rest (f data) (s.written t.writes) = some (.ok b, s') := by
  rw [read, bind_assoc] at h
  obtain ⟨t, rest, rfl, h⟩ := run_perform_bind h
  obtain ⟨data, hread, h⟩ := run_ofExcept_bind h
  exact ⟨t, rest, data, rfl, hread, h⟩

theorem run_sha256File {f : Text → Job α}
    (h : run JobDir.execAmid turns (sha256File p >>= f) s = some (.ok b, s')) :
    ∃ t rest data, turns = t :: rest ∧ (s.written t.writes).read p = .ok data ∧
      run JobDir.execAmid rest (f (sha256 data)) (s.written t.writes) = some (.ok b, s') := by
  rw [sha256File, bind_assoc] at h
  exact run_read h

theorem run_readJson {f : Json → Job α}
    (h : run JobDir.execAmid turns (readJson p >>= f) s = some (.ok b, s')) :
    ∃ t rest data v, turns = t :: rest ∧ (s.written t.writes).read p = .ok data ∧
      loadsBytes data = .ok v ∧
      run JobDir.execAmid rest (f v) (s.written t.writes) = some (.ok b, s') := by
  rw [readJson, bind_assoc] at h
  obtain ⟨t, rest, data, rfl, hread, h⟩ := run_read h
  obtain ⟨v, hv, h⟩ := run_ofExcept_bind h
  exact ⟨t, rest, data, v, rfl, hread, hv, h⟩

/-- `readJson`, where every error is raised again in some form. -/
theorem run_readJson_except {f : Json → Job α} {handle : Error → Job Json}
    (hraise : ∀ e, ∃ e', handle e = throw e')
    (h : run JobDir.execAmid turns (Prog.tryCatch (readJson p) handle >>= f) s =
      some (.ok b, s')) :
    ∃ t rest data v, turns = t :: rest ∧ (s.written t.writes).read p = .ok data ∧
      loadsBytes data = .ok v ∧
      run JobDir.execAmid rest (f v) (s.written t.writes) = some (.ok b, s') := by
  obtain - | ⟨t, rest⟩ := turns
  · cases h
  change run JobDir.execAmid rest (Prog.tryCatch
    (Prog.bind (Prog.ofExcept ((s.written t.writes).read p)) fun data =>
      Prog.ofExcept (loadsBytes data)) handle >>= f) (s.written t.writes) = _ at h
  have hfail : ∀ e, run JobDir.execAmid rest (handle e >>= f) (s.written t.writes) ≠
      some (.ok b, s') := by
    intro e he
    obtain ⟨e', heq⟩ := hraise e
    rw [heq, throw_bind] at he
    exact run_throw he
  cases hread : (s.written t.writes).read p with
  | error e =>
    rw [hread] at h
    exact (hfail e h).elim
  | ok data =>
    rw [hread] at h
    cases hv : loadsBytes data with
    | error e =>
      simp only [Prog.ofExcept, Prog.bind, hv] at h
      exact (hfail e h).elim
    | ok v =>
      simp only [Prog.ofExcept, Prog.bind, hv] at h
      exact ⟨t, rest, data, v, rfl, hread, hv, h⟩

theorem run_safeArtifact {name : Option Json} {f : Text → Job α}
    (h : run JobDir.execAmid turns (safeArtifact name >>= f) s = some (.ok b, s')) :
    ∃ t rest path, turns = t :: rest ∧ Json.text? name = some path ∧
      run JobDir.execAmid rest (f path) (s.written t.writes) = some (.ok b, s') := by
  unfold safeArtifact at h
  split at h
  next path hpath =>
    split at h
    · exact (run_throw h).elim
    · rw [bind_assoc] at h
      obtain ⟨t, rest, found, rfl, hrest⟩ := run_isFile h
      split at hrest
      · exact (run_throw hrest).elim
      · exact ⟨t, rest, path, rfl, hpath, hrest⟩
  next => exact (run_throw h).elim

theorem run_checkDigest {hashes : List (Text × Json)} {key : Artifact} {name : Text}
    {f : Unit → Job α}
    (h : run JobDir.execAmid turns (checkDigest hashes key name >>= f) s = some (.ok b, s')) :
    ∃ t rest data, turns = t :: rest ∧ (s.written t.writes).read { name := name } = .ok data ∧
      Json.text? (Json.get key.key hashes) = some (sha256 data) ∧
      run JobDir.execAmid rest (f ()) (s.written t.writes) = some (.ok b, s') := by
  rw [checkDigest, bind_assoc] at h
  obtain ⟨t, rest, data, rfl, hread, hrest⟩ := run_sha256File h
  split at hrest
  next => exact (run_throw hrest).elim
  next hdigest => exact ⟨t, rest, data, rfl, hread, not_not.mp hdigest, hrest⟩

/-- The capture files: the first seven operations of the load came before. -/
theorem run_loadArtifacts {jobDir : Text} {maxBytes : Nat} {value : List (Text × Json)}
    {hcode : Json.text? (Json.get "codice_doc".toList value) = some jobDir} {job : LoadedSpoolJob}
    (h : run JobDir.execAmid turns (loadArtifacts jobDir maxBytes value hcode) s =
      some (.ok job, s')) :
    job.manifest = value ∧ ∃ files, Json.fields? (Json.get "files".toList value) = some files ∧
      ∀ d : StreamDirection, ∃ name hashed,
        Json.text? (Json.get d.artifact.key files) = some name ∧
        (s.before turns (d.readAt - 7)).read { name := name } = .ok (job.payload d) ∧
        (s.before turns (d.hashedAt - 7)).read { name := name } = .ok hashed ∧
        job.sha256Of d.artifact = some (sha256 hashed) := by
  unfold loadArtifacts at h
  split at h
  next files hfiles =>
    split at h
    next hashes hhashes =>
      obtain ⟨t7, rest, requestPath, rfl, hrequestPath, h8⟩ := run_safeArtifact h
      obtain ⟨t8, rest, responsePath, rfl, hresponsePath, h9⟩ := run_safeArtifact h8
      obtain ⟨t9, rest, timelinePath, rfl, -, h10⟩ := run_safeArtifact h9
      obtain ⟨t10, rest, requestSize, rfl, h11⟩ := run_size h10
      obtain ⟨t11, rest, responseSize, rfl, h12⟩ := run_size h11
      simp only at h12
      split at h12
      · exact (run_throw h12).elim
      obtain ⟨t12, rest, request, rfl, hrequest, h13⟩ := run_read h12
      obtain ⟨t13, rest, response, rfl, hresponse, h14⟩ := run_read h13
      obtain ⟨t14, rest, request', rfl, hrequest', hrequestDigest, h15⟩ := run_checkDigest h14
      obtain ⟨t15, rest, response', rfl, hresponse', hresponseDigest, h16⟩ := run_checkDigest h15
      obtain ⟨t16, rest, timeline, rfl, -, -, h17⟩ := run_checkDigest h16
      obtain ⟨rfl, rfl⟩ := run_pure h17
      refine ⟨rfl, files, hfiles, fun d => ?_⟩
      cases d with
      | clientToRch =>
        refine ⟨requestPath, request', hrequestPath, hrequest, hrequest', ?_⟩
        simp only [LoadedSpoolJob.sha256Of, hhashes]
        exact hrequestDigest
      | rchToClient =>
        refine ⟨responsePath, response', hresponsePath, hresponse, hresponse', ?_⟩
        simp only [LoadedSpoolJob.sha256Of, hhashes]
        exact hresponseDigest
    next => exact (run_throw h).elim
  next => exact (run_throw h).elim

/-- What a load of a job that returns has read: operation by operation, with the changes between
them. -/
theorem run_loadSpoolJob {jobDir : Text} {maxBytes : Nat} {job : LoadedSpoolJob}
    (h : run JobDir.execAmid turns (loadSpoolJob jobDir maxBytes) s = some (.ok job, s')) :
    job.ManifestAuthentic s ∧ ∀ d : StreamDirection, ∃ name hashed,
      s.artifactName d.artifact = some name ∧
      (s.before turns d.readAt).read { name := name } = .ok (job.payload d) ∧
      (s.before turns d.hashedAt).read { name := name } = .ok hashed ∧
      job.sha256Of d.artifact = some (sha256 hashed) := by
  unfold loadSpoolJob at h
  obtain ⟨t0, rest, found, rfl, h1⟩ := run_isFile h
  split at h1
  · exact (run_throw h1).elim
  obtain ⟨t1, rest, size, rfl, h2⟩ := run_size h1
  split at h2
  · exact (run_throw h2).elim
  obtain ⟨t2, rest, manifestPath, rfl, hpath, h3⟩ := run_safeArtifact h2
  cases hpath
  obtain ⟨t3, rest, size, rfl, h4⟩ := run_size h3
  split at h4
  · exact (run_throw h4).elim
  obtain ⟨t4, rest, readyBytes, readyValue, rfl, hready, hreadyValue, h5⟩ :=
    run_readJson_except (fun e => by cases e <;> exact ⟨_, rfl⟩) h4
  split at h5
  next ready hfields =>
    obtain ⟨t5, rest, manifestBytes, rfl, hmanifest, h6⟩ := run_sha256File h5
    split at h6
    next => exact (run_throw h6).elim
    next hmarker =>
      obtain ⟨-, -, hdigest⟩ := not_not.mp hmarker
      obtain ⟨t6, rest, manifestBytes', json, rfl, hmanifest', hjson, h7⟩ := run_readJson h6
      split at h7
      next value hvalue =>
        dsimp only at h7
        split at h7
        · exact (run_throw h7).elim
        split at h7
        next hcode =>
          obtain ⟨hjob, files, hfiles, hraw⟩ := run_loadArtifacts h7
          simp only [JobDir.read_ready_written] at hready
          simp only [JobDir.read_manifest_written] at hmanifest hmanifest'
          cases hmanifest.symm.trans hmanifest'
          obtain rfl : json = .obj value := Json.fields?_eq_some.mp hvalue
          obtain rfl : readyValue = .obj ready := Json.fields?_eq_some.mp hfields
          have hmanifestOf : s.manifest = some value := by
            simp only [JobDir.manifest, hmanifest, Except.toOption, Option.bind_eq_bind,
              Option.bind_some, hjson]
            exact hvalue
          refine ⟨⟨readyBytes, manifestBytes, ready, hready, hmanifest, hreadyValue, ?_, hdigest⟩,
            fun d => ?_⟩
          · rw [hjson, hjob]
          · obtain ⟨name, hashed, hname, hread, hhashed, hsha⟩ := hraw d
            refine ⟨name, hashed, ?_, ?_, ?_, hsha⟩
            · simp only [JobDir.artifactName, hmanifestOf, Option.bind_eq_bind, Option.bind_some,
                hfiles]
              exact hname
            · cases d <;> exact hread
            · cases d <;> exact hhashed
        next => exact (run_throw h7).elim
      next => exact (run_throw h7).elim
  next => exact (run_throw h5).elim

end Job

/-! ## What is authenticated -/

/-- A load that returns gives bytes that the ready marker authenticates exactly when each RAW file
has, where it is hashed, the digest it had where it was read. -/
theorem loadSpoolJob_authentic_iff {s s' : JobDir} {turns : List Turn} {jobDir : Text}
    {maxBytes : Nat} {job : LoadedSpoolJob}
    (h : Prog.run JobDir.execAmid turns (Job.loadSpoolJob jobDir maxBytes) s =
      some (.ok job, s')) :
    job.Authentic s ↔ ∀ d : StreamDirection, s.Steady turns d := by
  obtain ⟨hmanifest, hraw⟩ := Job.run_loadSpoolJob h
  have hiff : ∀ d : StreamDirection,
      job.sha256Of d.artifact = some (sha256 (job.payload d)) ↔ s.Steady turns d := by
    intro d
    obtain ⟨name, hashed, hname, hread, hhashed, hsha⟩ := hraw d
    have hsteady : s.Steady turns d ↔ sha256 (job.payload d) = sha256 hashed := by
      simp [JobDir.Steady, hname, JobDir.digest, hread, hhashed, Except.toOption]
    rw [hsteady, hsha, Option.some.injEq]
    exact eq_comm
  constructor
  · intro hauthentic d
    exact (hiff d).mp (hauthentic.2 d)
  · intro hsteady
    exact ⟨hmanifest, fun d => (hiff d).mpr (hsteady d)⟩

/-- It is enough that no change between the two reads of a RAW file is about that file. -/
theorem steady_of_unwritten {s : JobDir} {turns : List Turn} {d : StreamDirection}
    (h : ∀ name, s.artifactName d.artifact = some name →
      ∀ t ∈ (turns.drop (d.readAt + 1)).take 2, ∀ w ∈ t.writes, name ≠ w.name) :
    s.Steady turns d := by
  intro name hname
  have hadd : d.hashedAt = d.readAt + 2 := by cases d <;> rfl
  rw [hadd]
  exact (JobDir.digest_before_add (h name hname)).symm

/-! ## Loads that return -/

namespace Job

open Prog

variable {α : Type} {t : Turn} {turns : List Turn} {s : JobDir} {p : Loc} {data : Bytes}

theorem run_isFile_of_read {f : Bool → Job α} (h : (s.written t.writes).read p = .ok data) :
    run JobDir.execAmid (t :: turns) (isFile p >>= f) s =
      run JobDir.execAmid turns (f true) (s.written t.writes) := by
  rw [isFile, kind, bind_assoc]
  have hkind : (JobDir.execAmid t (Op.kind p) s).1 = some (.file data.length) :=
    JobDir.kind_of_read h
  rw [run_perform_cons, hkind]
  rfl

theorem run_size_of_read {f : Nat → Job α} (h : (s.written t.writes).read p = .ok data) :
    run JobDir.execAmid (t :: turns) (size p >>= f) s =
      run JobDir.execAmid turns (f data.length) (s.written t.writes) := by
  rw [size, kind, bind_assoc]
  have hkind : (JobDir.execAmid t (Op.kind p) s).1 = some (.file data.length) :=
    JobDir.kind_of_read h
  rw [run_perform_cons, hkind]
  rfl

theorem run_read_of_read {f : Bytes → Job α} (h : (s.written t.writes).read p = .ok data) :
    run JobDir.execAmid (t :: turns) (read p >>= f) s =
      run JobDir.execAmid turns (f data) (s.written t.writes) := by
  rw [read, bind_assoc]
  change run JobDir.execAmid turns (Prog.ofExcept ((s.written t.writes).read p) >>= f) _ = _
  rw [h]
  rfl

theorem run_safeArtifact_of_read {name : Text} {f : Text → Job α} (hname : isPlainName name)
    (h : (s.written t.writes).read { name := name } = .ok data) :
    run JobDir.execAmid (t :: turns) (safeArtifact (some (.str name)) >>= f) s =
      run JobDir.execAmid turns (f name) (s.written t.writes) := by
  have hplain : (!isPlainName name) = false := by rw [hname]; rfl
  simp only [safeArtifact, Json.text?, hplain, Bool.false_eq_true, if_false, bind_assoc]
  rw [run_isFile_of_read h]
  rfl

theorem run_readJson_of_read {f : Json → Job α} {v : Json}
    (h : (s.written t.writes).read p = .ok data) (hv : loadsBytes data = .ok v) :
    run JobDir.execAmid (t :: turns) (readJson p >>= f) s =
      run JobDir.execAmid turns (f v) (s.written t.writes) := by
  rw [readJson, bind_assoc, run_read_of_read h, hv]
  rfl

theorem run_readJson_except_of_read {f : Json → Job α} {v : Json} {handle : Error → Job Json}
    (h : (s.written t.writes).read p = .ok data) (hv : loadsBytes data = .ok v) :
    run JobDir.execAmid (t :: turns) (Prog.tryCatch (readJson p) handle >>= f) s =
      run JobDir.execAmid turns (f v) (s.written t.writes) := by
  change run JobDir.execAmid turns (Prog.tryCatch
    (Prog.bind (Prog.ofExcept ((s.written t.writes).read p)) fun data =>
      Prog.ofExcept (loadsBytes data)) handle >>= f) (s.written t.writes) = _
  simp only [h, Prog.ofExcept, Prog.bind, hv]
  rfl

theorem run_checkDigest_of_read {hashes : List (Text × Json)} {key : Artifact} {name : Text}
    {f : Unit → Job α} (h : (s.written t.writes).read { name := name } = .ok data)
    (hdigest : Json.text? (Json.get key.key hashes) = some (sha256 data)) :
    run JobDir.execAmid (t :: turns) (checkDigest hashes key name >>= f) s =
      run JobDir.execAmid turns (f ()) (s.written t.writes) := by
  rw [checkDigest, bind_assoc, sha256File, bind_assoc, run_read_of_read h, pure_bind,
    if_neg (not_not.mpr hdigest), pure_bind]

/-- The two markers of a job agree. -/
structure Markers (s : JobDir) (jobDir : Text) (ready value : List (Text × Json))
    (readyBytes manifestBytes : Bytes) : Prop where
  readReady : s.read { name := ".ready".toList } = .ok readyBytes
  readManifest : s.read { name := "manifest.json".toList } = .ok manifestBytes
  readySize : readyBytes.length ≤ 65536
  manifestSize : manifestBytes.length ≤ 1048576
  readyJson : loadsBytes readyBytes = .ok (.obj ready)
  manifestJson : loadsBytes manifestBytes = .ok (.obj value)
  readySchema : Json.text? (Json.get "schema".toList ready) = some captureSchema
  readyCode : Json.text? (Json.get "codice_doc".toList ready) = some jobDir
  digest : Json.text? (Json.get "manifest_sha256".toList ready) = some (sha256 manifestBytes)
  schema : Json.text? (Json.get "schema".toList value) = some captureSchema
  code : Json.text? (Json.get "codice_doc".toList value) = some jobDir

/-- The first seven operations of a load of a job whose markers agree. -/
theorem run_loadSpoolJob_of_markers {jobDir : Text} (maxBytes : Nat) (turns : List Turn)
    {ready value : List (Text × Json)} {readyBytes manifestBytes : Bytes}
    (h : Markers s jobDir ready value readyBytes manifestBytes) (t0 t1 t2 t3 t4 t5 t6 : Turn) :
    run JobDir.execAmid (t0 :: t1 :: t2 :: t3 :: t4 :: t5 :: t6 :: turns)
      (loadSpoolJob jobDir maxBytes) s =
    run JobDir.execAmid turns (loadArtifacts jobDir maxBytes value h.code)
      (s.before [t0, t1, t2, t3, t4, t5, t6] 6) := by
  have hready (s' : JobDir) (t : Turn) (h : s'.read { name := ".ready".toList } = .ok readyBytes) :
      (s'.written t.writes).read { name := ".ready".toList } = .ok readyBytes := by
    rw [JobDir.read_ready_written, h]
  have hmanifest (s' : JobDir) (t : Turn)
      (h : s'.read { name := "manifest.json".toList } = .ok manifestBytes) :
      (s'.written t.writes).read { name := "manifest.json".toList } = .ok manifestBytes := by
    rw [JobDir.read_manifest_written, h]
  have r0 := hready s t0 h.readReady
  have r1 := hready _ t1 r0
  have m2 := hmanifest _ t2 (hmanifest _ t1 (hmanifest s t0 h.readManifest))
  have m3 := hmanifest _ t3 m2
  have r4 := hready _ t4 (hready _ t3 (hready _ t2 r1))
  have m5 := hmanifest _ t5 (hmanifest _ t4 m3)
  have m6 := hmanifest _ t6 m5
  unfold loadSpoolJob
  rw [run_isFile_of_read r0, if_neg (by decide), run_size_of_read r1,
    if_neg (Nat.not_lt.mpr h.readySize), run_safeArtifact_of_read rfl m2, run_size_of_read m3,
    if_neg (Nat.not_lt.mpr h.manifestSize), run_readJson_except_of_read r4 h.readyJson]
  simp only [Json.fields?]
  rw [sha256File, bind_assoc, run_read_of_read m5, pure_bind,
    if_neg (not_not.mpr ⟨h.readySchema, h.readyCode, h.digest⟩), run_readJson_of_read m6 h.manifestJson]
  simp only
  rw [if_neg (not_not.mpr h.schema), dif_pos h.code]
  rfl

/-- The capture files: the last ten operations of a load, where `content` is what each operation
finds. -/
theorem run_loadArtifacts_of {jobDir : Text} (maxBytes : Nat) {value files hashes : List (Text × Json)}
    (hcode : Json.text? (Json.get "codice_doc".toList value) = some jobDir)
    {names : Artifact → Text} {content : Artifact → Nat → Bytes} (hlen : turns.length = 10)
    (hfiles : Json.get "files".toList value = some (.obj files))
    (hhashes : Json.get "sha256".toList value = some (.obj hashes))
    (hnames : ∀ key, Json.get key.key files = some (.str (names key)))
    (hplain : ∀ key, isPlainName (names key))
    (hread : ∀ key, ∀ n < 10,
      (s.before turns n).read { name := names key } = .ok (content key n))
    (hsize : (content .requestRaw 3).length + (content .responseRaw 4).length ≤ maxBytes)
    (hrequest : Json.text? (Json.get (Artifact.key .requestRaw) hashes) =
      some (sha256 (content .requestRaw 7)))
    (hresponse : Json.text? (Json.get (Artifact.key .responseRaw) hashes) =
      some (sha256 (content .responseRaw 8)))
    (htimeline : Json.text? (Json.get (Artifact.key .timeline) hashes) =
      some (sha256 (content .timeline 9))) :
    run JobDir.execAmid turns (loadArtifacts jobDir maxBytes value hcode) s =
      some (.ok ⟨jobDir, value, content .requestRaw 5, content .responseRaw 6, names .timeline, hcode⟩,
        s.before turns 9) := by
  match turns, hlen with
  | [t7, t8, t9, t10, t11, t12, t13, t14, t15, t16], _ =>
    unfold loadArtifacts
    simp only [hfiles, hhashes, Json.fields?, hnames]
    rw [run_safeArtifact_of_read (hplain _) (hread .requestRaw 0 (by decide)),
      run_safeArtifact_of_read (hplain _) (hread .responseRaw 1 (by decide)),
      run_safeArtifact_of_read (hplain _) (hread .timeline 2 (by decide)),
      run_size_of_read (hread .requestRaw 3 (by decide)),
      run_size_of_read (hread .responseRaw 4 (by decide)), if_neg (Nat.not_lt.mpr hsize),
      run_read_of_read (hread .requestRaw 5 (by decide)),
      run_read_of_read (hread .responseRaw 6 (by decide)),
      run_checkDigest_of_read (hread .requestRaw 7 (by decide)) hrequest,
      run_checkDigest_of_read (hread .responseRaw 8 (by decide)) hresponse,
      run_checkDigest_of_read (hread .timeline 9 (by decide)) htimeline]
    rfl

end Job

/-! ## A load in between two writes -/

/-- The files of the sample job. -/
def sampleNames : FileNames :=
  ⟨"file_1.000000000.raw".toList, "response_1.000000000.raw".toList,
    "timeline_1.000000000.jsonl".toList⟩

/-- A manifest with the request `b"\x02"` and two empty files. -/
def sampleManifest : List (Text × Json) :=
  [("codice_doc".toList, .str "0001".toList), ("files".toList, artifactMap sampleNames.get),
    ("schema".toList, .str captureSchema),
    ("sha256".toList, artifactMap fun key => sha256 (if key = .requestRaw then [2] else []))]

/-- The ready marker of a manifest. -/
def sampleReady (manifest : Bytes) : List (Text × Json) :=
  [("codice_doc".toList, .str "0001".toList), ("manifest_sha256".toList, .str (sha256 manifest)),
    ("schema".toList, .str captureSchema)]

/-- A job with the given markers. -/
def sampleJobDir (ready manifest request : Bytes) : JobDir :=
  [⟨".ready".toList, .file ready⟩, ⟨"manifest.json".toList, .file manifest⟩,
   ⟨sampleNames.requestRaw, .file request⟩, ⟨sampleNames.responseRaw, .file []⟩,
   ⟨sampleNames.timeline, .file []⟩].toAList

/-- A turn that puts the given bytes into the request file. -/
def sampleWrite (request : Bytes) : Turn where
  writes := [⟨sampleNames.requestRaw, some (.file request), by decide, by decide⟩]
  choice := .quiet

/-- A turn without a change. -/
def sampleTurn : Turn := { choice := .quiet }

theorem sampleMarkers : ∃ ready manifest, ∀ request,
    Job.Markers (sampleJobDir ready manifest request) "0001".toList (sampleReady manifest)
      sampleManifest ready manifest := by
  obtain ⟨manifest, hmanifest⟩ : ∃ data, jsonBytes (.obj sampleManifest) = .ok data := ⟨_, rfl⟩
  obtain ⟨ready, hready⟩ : ∃ data, jsonBytes (.obj (sampleReady manifest)) = .ok data := ⟨_, rfl⟩
  refine ⟨ready, manifest, fun request => ?_⟩
  have hreadySize : Json.weight (.indented 2) 0 (.obj (sampleReady manifest)) + 1 ≤ 65536 := by
    simp only [sampleReady, Json.weight, Json.weightFields, sha256_length]
    decide
  have hmanifestSize : Json.weight (.indented 2) 0 (.obj sampleManifest) + 1 ≤ 1048576 := by
    simp only [sampleManifest, artifactMap, Json.weight, Json.weightFields, sha256_length]
    decide
  exact {
    readReady := rfl
    readManifest := rfl
    readySize := le_trans (jsonBytes_length hready) hreadySize
    manifestSize := le_trans (jsonBytes_length hmanifest) hmanifestSize
    readyJson := loadsBytes_jsonBytes hready ⟨trivial, trivial, trivial, trivial⟩
    manifestJson := loadsBytes_jsonBytes hmanifest
      ⟨trivial, plain_artifactMap _, trivial, plain_artifactMap _, trivial⟩
    readySchema := rfl
    readyCode := rfl
    digest := rfl
    schema := rfl
    code := rfl }

/-- The request file of the sample job, when operation `n` after the markers finds it. -/
def sampleContent (writes : Bool) : Artifact → Nat → Bytes
  | .requestRaw, n => if writes && (n = 5 || n = 6) then [1] else [2]
  | _, _ => []

/-- The turns of a load of the sample job: with the changes, `b"\x01"` is in the request file when
it is read, and `b"\x02"` is back when it is hashed. -/
def sampleTurns (writes : Bool) : List Turn :=
  List.replicate 12 sampleTurn ++ if writes then [sampleWrite [1], sampleTurn, sampleWrite [2],
    sampleTurn, sampleTurn] else List.replicate 5 sampleTurn

theorem run_sample (writes : Bool) : ∃ ready manifest, ∃ job s',
    Prog.run JobDir.execAmid (sampleTurns writes) (Job.loadSpoolJob "0001".toList 1024)
      (sampleJobDir ready manifest [2]) = some (.ok job, s') ∧
    job.manifest = sampleManifest ∧ job.request = if writes then [1] else [2] := by
  obtain ⟨ready, manifest, hmarkers⟩ := sampleMarkers
  have hread : ∀ key, ∀ n < 10, ((sampleJobDir ready manifest [2]).before
      ((sampleTurns writes).drop 7) n).read { name := sampleNames.get key } =
        .ok (sampleContent writes key n) := by
    intro key n hn
    cases writes <;> cases key <;> interval_cases n <;> rfl
  have hload := Job.run_loadSpoolJob_of_markers 1024 ((sampleTurns writes).drop 7) (hmarkers [2])
    sampleTurn sampleTurn sampleTurn sampleTurn sampleTurn sampleTurn sampleTurn
  have hartifacts := Job.run_loadArtifacts_of 1024 (hmarkers [2]).code
    (by cases writes <;> rfl) rfl rfl (fun key => by cases key <;> rfl)
    (fun key => by cases key <;> rfl) hread (by cases writes <;> decide)
    (by cases writes <;> rfl) (by cases writes <;> rfl) (by cases writes <;> rfl)
  refine ⟨ready, manifest, _, _, hload.trans hartifacts, rfl, ?_⟩
  cases writes <;> rfl

theorem sha256Of_sample {job : LoadedSpoolJob} (h : job.manifest = sampleManifest) :
    job.sha256Of .requestRaw = some (sha256 [2]) := by
  rw [LoadedSpoolJob.sha256Of, h]
  rfl

theorem loadSpoolJob_authentic_iff_sample : ∃ s turns job s',
    Prog.run JobDir.execAmid turns (Job.loadSpoolJob "0001".toList 1024) s = some (.ok job, s') ∧
      job.Authentic s := by
  obtain ⟨ready, manifest, job, s', hrun, -, -⟩ := run_sample false
  refine ⟨_, _, job, s', hrun, (loadSpoolJob_authentic_iff hrun).mpr fun d =>
    steady_of_unwritten fun name _ t ht w hw => ?_⟩
  have hturns : t = sampleTurn := by
    have hmem : t ∈ List.replicate 17 sampleTurn := List.mem_of_mem_drop (List.mem_of_mem_take ht)
    exact List.eq_of_mem_replicate hmem
  rw [hturns] at hw
  cases hw

/-- The request file is changed before it is read, and put back before it is hashed. -/
theorem unauthenticated_bytes_loaded :
    ¬ ∀ s s' turns jobDir maxBytes job,
      Prog.run JobDir.execAmid turns (Job.loadSpoolJob jobDir maxBytes) s = some (.ok job, s') →
        job.Authentic s := by
  intro h
  obtain ⟨ready, manifest, job, s', hrun, hmanifest, hrequest⟩ := run_sample true
  have hsha := (h _ _ _ _ _ _ hrun).2 .clientToRch
  change job.sha256Of .requestRaw = some (sha256 job.request) at hsha
  rw [sha256Of_sample hmanifest, hrequest, Option.some.injEq] at hsha
  exact absurd hsha (by decide +kernel)

end RchProxy
