import RchProxy.Lib.Threads
import RchProxy.Py.Decimal
import RchProxy.Tools.Reparse

/-!
# What the parser touches

Every name the programs of the parser create, write, rename or remove is one of their own: a state
file or its temporary file, the lock, and the directories of output (`ParserOwned`). The programs are
followed call by call, for every answer an operation can give.
-/

namespace RchProxy

open Py Lib Lib.Prog

/-! ## Names -/

/-- A name a directory can hold. -/
structure IsFileName (name : Text) : Prop where
  ne_nil : name ≠ []
  no_slash : '/' ∉ name
  ne_self : name ≠ ".".toList
  ne_parent : name ≠ "..".toList

/-- The lock of a job directory. -/
def lockName : Text := ".parser.lock".toList

/-- The names the parser uses in a job directory. -/
inductive ParserOwned : Text → Prop where
  | state (file : StateFile) : ParserOwned file.name
  | temp (file : StateFile) (uuid : LeaseToken) : ParserOwned (Job.tempName file.name uuid)
  | lock : ParserOwned lockName
  | output : ParserOwned pharsedDirname
  | staging (token : LeaseToken) : ParserOwned (stagingName token)
  | superseded (token : LeaseToken) : ParserOwned (supersededName token)
  | backup {t : LocalTime} (h : isDate t.date) : ParserOwned (backupName t)

/-- The directories of output. -/
inductive OutputName : Text → Prop where
  | output : OutputName pharsedDirname
  | staging (token : LeaseToken) : OutputName (stagingName token)
  | superseded (token : LeaseToken) : OutputName (supersededName token)

theorem OutputName.parserOwned {name : Text} (h : OutputName name) : ParserOwned name := by
  cases h with
  | output => exact .output
  | staging token => exact .staging token
  | superseded token => exact .superseded token

/-- The names a worker needs besides the results of its job: the lock, the claim and the directories
of output. -/
structure Claiming (own : Text → Prop) : Prop where
  lock : own lockName
  processing : own StateFile.processing.name
  stale : own StateFile.processingStale.name
  output : ∀ name, OutputName name → own name

theorem ParserOwned.claiming : Claiming ParserOwned :=
  ⟨.lock, .state _, .state _, fun _ => OutputName.parserOwned⟩

/-- The parser's names start in one of four ways. -/
theorem ParserOwned.start {name : Text} (h : ParserOwned name) :
    ∃ rest, name = 'P' :: rest ∨ name = '.' :: 'p' :: rest ∨ name = '.' :: 'P' :: rest ∨
      name = '.' :: '.' :: 'p' :: rest := by
  cases h with
  | state file => cases file <;> exact ⟨_, .inr (.inl rfl)⟩
  | temp file uuid => cases file <;> exact ⟨_, .inr (.inr (.inr rfl))⟩
  | lock => exact ⟨_, .inr (.inl rfl)⟩
  | output => exact ⟨_, .inl rfl⟩
  | staging token => exact ⟨_, .inr (.inr (.inl rfl))⟩
  | superseded token => exact ⟨_, .inr (.inr (.inl rfl))⟩
  | backup h => exact ⟨_, .inl rfl⟩

theorem no_slash_of_digits {t : Text} (h : ∀ c ∈ t, c.isDigit) : '/' ∉ t := fun hmem =>
  absurd (h _ hmem) (by decide)

theorem LeaseToken.no_slash (token : LeaseToken) : '/' ∉ token.val := fun hmem =>
  absurd (List.all_eq_true.mp token.2.2 _ hmem) (by decide)

theorem no_slash_zeroPad (width n : Nat) : '/' ∉ zeroPad width n :=
  no_slash_of_digits fun _ => zeroPad_isDigit

theorem no_slash_append {s t : Text} (hs : '/' ∉ s) (ht : '/' ∉ t) : '/' ∉ s ++ t :=
  List.not_mem_append hs ht

theorem no_slash_cons {c : Char} {t : Text} (hc : '/' ≠ c) (ht : '/' ∉ t) : '/' ∉ c :: t :=
  List.not_mem_cons_of_ne_of_not_mem hc ht

theorem no_slash_humanCaptureTime (t : LocalTime) : '/' ∉ (humanCaptureTime t).1 :=
  have pad := no_slash_zeroPad
  no_slash_append (no_slash_append (no_slash_append (pad 2 t.hour)
    (no_slash_cons (by decide) (pad 2 t.minute))) (no_slash_cons (by decide) (pad 2 t.second)))
    (no_slash_cons (by decide) (pad 3 (t.microsecond / 1000)))

theorem no_slash_of_isDate {date : Text} (h : isDate date) : '/' ∉ date := by
  unfold isDate at h
  split at h
  · simp only [List.all_cons, List.all_nil, Bool.and_true, Bool.and_eq_true] at h
    have hne : ∀ c : Char, c.isDigit → '/' ≠ c := fun c hc hslash =>
      absurd (hslash ▸ hc) (by decide)
    simp [hne, h]
  · cases h

theorem ParserOwned.no_slash {name : Text} (h : ParserOwned name) : '/' ∉ name := by
  have htoken (token : LeaseToken) {suffix : Text} (hsuffix : '/' ∉ suffix) :
      '/' ∉ '.' :: pharsedDirname ++ '.' :: token.val ++ suffix :=
    no_slash_append (no_slash_append (by decide) (no_slash_cons (by decide) token.no_slash)) hsuffix
  cases h with
  | state file => cases file <;> decide
  | temp file uuid =>
    have hbase : '/' ∉ '.' :: file.name := by cases file <;> decide
    exact no_slash_append (no_slash_append hbase (no_slash_cons (by decide) uuid.no_slash))
      (by decide)
  | lock => decide
  | output => decide
  | staging token => exact htoken token (by decide)
  | superseded token => exact htoken token (by decide)
  | backup hdate =>
    exact no_slash_append (no_slash_append (by decide) (no_slash_of_isDate hdate))
      (no_slash_cons (by decide) (no_slash_humanCaptureTime _))

theorem ParserOwned.isFileName {name : Text} (h : ParserOwned name) : IsFileName name := by
  have hslash := h.no_slash
  refine ⟨?_, hslash, ?_, ?_⟩ <;> rintro rfl <;> obtain ⟨rest, h | h | h | h⟩ := h.start <;> cases h

/-! ## Operations -/

/-- The name in the job directory that a path goes through. -/
def Loc.top (p : Loc) : Text := p.dir.getD p.name

/-- The names in the job directory whose file or directory an operation may change. -/
def Op.changes : Op → List Text
  | .mkdir name | .rmdir name => [name]
  | .create p | .write p _ | .unlink p | .utime p => [p.top]
  | .store d _ _ => [d]
  | .rename none src dst => [src, dst]
  | .rename (some d) _ _ => [d]
  | .lock => [lockName]
  | _ => []

/-- The names in a directory below it that an operation uses to change something. -/
def Op.inner : Op → List Text
  | .create ⟨some _, name⟩ | .write ⟨some _, name⟩ _ | .unlink ⟨some _, name⟩ |
    .utime ⟨some _, name⟩ => [name]
  | .store _ name _ => [name]
  | .rename (some _) src dst => [src, dst]
  | _ => []

/-- The operation changes what the names in `own` name, under names that do not lead elsewhere. -/
structure Op.Confined (own : Text → Prop) (op : Op) : Prop where
  changes : ∀ name ∈ op.changes, own name
  inner : ∀ name ∈ op.inner, IsFileName name
  unlock : op = .unlock → own lockName

/-- An answer a directory can give. -/
def Op.Legal : (op : Op) → op.Res → Prop
  | .iterdir _, .ok names => ∀ name ∈ names, IsFileName name
  | _, _ => True

theorem Op.Confined.of_reads {own : Text → Prop} {op : Op} (hchanges : op.changes = [])
    (hinner : op.inner = []) (hunlock : op ≠ .unlock) : op.Confined own :=
  ⟨fun _ h => absurd h (hchanges ▸ List.not_mem_nil), fun _ h => absurd h (hinner ▸ List.not_mem_nil),
    fun h => absurd h hunlock⟩

namespace Job

variable {α β : Type} {own : Text → Prop}

/-- The program keeps to what the names in `own` name. -/
abbrev Confined (own : Text → Prop) (m : Job α) (Q : α → Prop := fun _ => True) : Prop :=
  Calls (Op.Confined own) Op.Legal Q m

theorem Confined.seq {m : Job α} {f : α → Job β} {Q : β → Prop} (h : Confined own m)
    (hf : ∀ a, Confined own (f a) Q) : Confined own (m >>= f) Q :=
  Calls.bind (h.mono fun a _ => hf a)

theorem confined_perform {op : Op} (h : op.Confined own) :
    Confined own (Prog.perform op : Job op.Res) := ⟨h, fun _ _ => trivial⟩

/-- An operation that raises its error. -/
theorem confined_attempt {op : Op} (hres : op.Res = Except Error α) (h : op.Confined own) :
    Confined own (Prog.perform op >>= fun r => Prog.ofExcept (cast hres r)) :=
  Calls.bind ⟨h, fun _ _ => Calls.ofExcept fun _ _ => trivial⟩

theorem confined_read (p : Loc) : Confined own (read p) :=
  confined_attempt rfl (.of_reads rfl rfl nofun)

theorem confined_kind (p : Loc) : Confined own (kind p) :=
  ⟨.of_reads rfl rfl nofun, fun _ _ => trivial⟩

theorem confined_iterdir (d : Option Text) :
    Confined own (iterdir d) fun names => ∀ name ∈ names, IsFileName name :=
  Calls.bind ⟨.of_reads rfl rfl nofun, fun r hr => Calls.ofExcept fun names h => by
    rw [h] at hr
    exact hr⟩

theorem confined_isFile (p : Loc) : Confined own (isFile p) :=
  (confined_kind p).seq fun k => by split <;> trivial

theorem confined_isDir (p : Loc) : Confined own (isDir p) := (confined_kind p).seq fun _ => trivial

theorem confined_exist (p : Loc) : Confined own (exist p) := (confined_kind p).seq fun _ => trivial

theorem confined_size (p : Loc) : Confined own (size p) :=
  (confined_kind p).seq fun k => by split <;> trivial

theorem confined_sha256File (p : Loc) : Confined own (sha256File p) :=
  (confined_read p).seq fun _ => trivial

theorem confined_readJson (p : Loc) : Confined own (readJson p) :=
  (confined_read p).seq fun _ => Calls.ofExcept fun _ _ => trivial

theorem confined_mkdir {name : Text} (h : own name) : Confined own (mkdir name) :=
  confined_attempt rfl ⟨by simpa [Op.changes] using h, nofun, nofun⟩

/-- A path whose file or directory is named in `own`. -/
structure Owned (own : Text → Prop) (p : Loc) : Prop where
  top : own p.top
  inner : p.dir.isSome → IsFileName p.name

theorem owned_top {name : Text} (hown : own name) : Owned own { name } := ⟨hown, nofun⟩

theorem owned_state (file : StateFile) : Owned ParserOwned { name := file.name } :=
  owned_top (.state file)

theorem owned_temp (file : StateFile) (uuid : LeaseToken) :
    Owned ParserOwned { name := tempName file.name uuid } :=
  ⟨.temp file uuid, nofun⟩

theorem owned_within {d name : Text} (hown : own d) (h : IsFileName name) : Owned own ⟨some d, name⟩ :=
  ⟨hown, fun _ => h⟩

theorem Owned.confined {p : Loc} (h : Owned own p) {op : Op} (hchanges : op.changes = [p.top])
    (hinner : ∀ name ∈ op.inner, p.dir.isSome ∧ name = p.name) : op.Confined own :=
  ⟨by simpa [hchanges] using h.top, fun name hname => by
    obtain ⟨hdir, rfl⟩ := hinner name hname
    exact h.inner hdir, by rintro rfl; cases hchanges⟩

theorem confined_create {p : Loc} (h : Owned own p) : Confined own (create p) :=
  confined_attempt rfl (h.confined rfl (by rcases p with ⟨_ | d, name⟩ <;> simp [Op.inner]))

theorem confined_write {p : Loc} (h : Owned own p) (data : Bytes) : Confined own (write p data) :=
  confined_attempt rfl (h.confined rfl (by rcases p with ⟨_ | d, name⟩ <;> simp [Op.inner]))

theorem confined_unlink {p : Loc} (h : Owned own p) : Confined own (unlink p) :=
  confined_attempt rfl (h.confined rfl (by rcases p with ⟨_ | d, name⟩ <;> simp [Op.inner]))

theorem confined_utime {p : Loc} (h : Owned own p) : Confined own (utime p) :=
  confined_attempt rfl (h.confined rfl (by rcases p with ⟨_ | d, name⟩ <;> simp [Op.inner]))

theorem confined_store {d name : Text} (h : Owned own ⟨some d, name⟩) (data : Bytes) :
    Confined own (store d name data) :=
  confined_attempt rfl (h.confined rfl (by simp [Op.inner]))

theorem confined_rmdir {name : Text} (h : own name) : Confined own (rmdir name) :=
  confined_attempt rfl ⟨by simpa [Op.changes] using h, nofun, nofun⟩

theorem confined_fsync : Confined own fsync := confined_attempt rfl (.of_reads rfl rfl nofun)

theorem confined_uuid4 : Confined own (Prog.perform .uuid4) := confined_perform (.of_reads rfl rfl nofun)

theorem confined_now : Confined own (Prog.perform .now) := confined_perform (.of_reads rfl rfl nofun)

theorem confined_rename {src dst : Text} (hsrc : own src) (hdst : own dst) :
    Confined own (rename none src dst) :=
  confined_attempt rfl ⟨by simp [Op.changes, hsrc, hdst], nofun, nofun⟩

theorem confined_renameWithin {d src dst : Text} (hsrc : Owned own ⟨some d, src⟩)
    (hdst : Owned own ⟨some d, dst⟩) : Confined own (rename (some d) src dst) :=
  confined_attempt rfl ⟨by simpa [Op.changes, Loc.top] using hsrc.top, by
    simp [Op.inner, hsrc.inner rfl, hdst.inner rfl], nofun⟩

/-! ## Storage helpers -/

theorem confined_withLock {m : Job α} {Q : α → Prop} (hown : own lockName) (h : Confined own m Q) :
    Confined own (withLock m) Q := by
  have hlock : Op.Confined own .lock := ⟨fun name hname => by
    rw [List.mem_singleton.mp hname]
    exact hown, nofun, nofun⟩
  have hunlock : Op.Confined own .unlock := ⟨nofun, nofun, fun _ => hown⟩
  refine (confined_perform hlock).seq fun locked => ?_
  split
  · exact Calls.tryFinally h (confined_perform hunlock)
  · trivial

theorem confined_ensureDirectory {d : Text} (h : own d) : Confined own (ensureDirectory d) := by
  have hop : Op.Confined own (.mkdir d) := ⟨by simpa [Op.changes] using h, nofun, nofun⟩
  refine (confined_perform hop).seq fun r => ?_
  split
  · trivial
  · refine (confined_isDir _).seq fun b => ?_
    split <;> trivial

theorem confined_unlinkTemp {p : Loc} (h : Owned own p) : Confined own (unlinkTemp p) := by
  have hop : Op.Confined own (.unlink p) :=
    h.confined rfl (by rcases p with ⟨_ | d, name⟩ <;> simp [Op.inner])
  refine (confined_perform hop).seq fun r => ?_
  split <;> trivial

theorem confined_ensureParent {p : Loc} (h : Owned own p) : Confined own (ensureParent p) := by
  unfold ensureParent
  split
  · next d hd =>
    refine confined_ensureDirectory ?_
    have htop := h.top
    rwa [Loc.top, hd] at htop
  · trivial

theorem confined_renameBeside {p : Loc} {temp : Text} (hp : Owned own p) (htemp : Owned own ⟨p.dir, temp⟩) :
    Confined own (rename p.dir temp p.name) := by
  rcases p with ⟨_ | d, name⟩
  · exact confined_rename htemp.top hp.top
  · exact confined_renameWithin htemp hp

theorem confined_atomicWriteBytes {p : Loc} (h : Owned own p)
    (htemp : ∀ uuid, Owned own ⟨p.dir, tempName p.name uuid⟩) (data : Bytes) :
    Confined own (atomicWriteBytes p data) := by
  unfold atomicWriteBytes
  refine (confined_ensureParent h).seq fun _ => ?_
  refine confined_uuid4.seq fun uuid => ?_
  refine (confined_create (htemp uuid)).seq fun _ => ?_
  refine Calls.tryFinally ?_ (confined_unlinkTemp (htemp uuid))
  refine (confined_write (htemp uuid) data).seq fun _ => ?_
  refine confined_fsync.seq fun _ => ?_
  refine (confined_renameBeside h (htemp uuid)).seq fun _ => ?_
  exact confined_fsync

theorem confined_atomicGenerate {d name : Text} (h : Owned own ⟨some d, name⟩)
    (htemp : ∀ uuid, Owned own ⟨some d, tempName name uuid⟩) (generator : Except Error Bytes) :
    Confined own (atomicGenerate d name generator) := by
  unfold atomicGenerate
  refine (confined_ensureDirectory h.top).seq fun _ => ?_
  refine confined_uuid4.seq fun uuid => ?_
  refine (confined_create (htemp uuid)).seq fun _ => ?_
  refine Calls.tryFinally ?_ (confined_unlinkTemp (htemp uuid))
  refine Calls.bind (Calls.ofExcept fun data _ => ?_)
  refine (confined_store (htemp uuid) data).seq fun _ => ?_
  refine confined_fsync.seq fun _ => ?_
  refine (confined_renameWithin (htemp uuid) h).seq fun _ => ?_
  exact confined_fsync

theorem confined_unlinkAll {d : Text} (hd : own d) {names : List Text}
    (h : ∀ name ∈ names, IsFileName name) : Confined own (unlinkAll d names) := by
  induction names with
  | nil => trivial
  | cons name names ih =>
    have howned : Owned own ⟨some d, name⟩ := ⟨hd, fun _ => h name List.mem_cons_self⟩
    refine (confined_unlink howned).seq fun _ => ?_
    exact ih fun name' hname => h name' (List.mem_cons_of_mem _ hname)

theorem confined_rmtree {d : Text} (h : own d) : Confined own (rmtree d) := by
  refine Calls.bind ((confined_iterdir (some d)).mono fun names hnames => ?_)
  exact (confined_unlinkAll h hnames).seq fun _ => confined_rmdir h

theorem confined_safeArtifact (name : Option Json) : Confined own (safeArtifact name) := by
  unfold safeArtifact
  split
  · split
    · trivial
    refine (confined_isFile _).seq fun file => ?_
    split <;> trivial
  · trivial

theorem confined_checkDigest (hashes : List (Text × Json)) (key : Artifact) (name : Text) :
    Confined own (checkDigest hashes key name) := by
  unfold checkDigest
  refine (confined_sha256File _).seq fun digest => ?_
  split <;> trivial

theorem confined_loadArtifacts {jobDir : Text} {value : List (Text × Json)} (maxBytes : Nat)
    (hcode : Json.text? (Json.get "codice_doc".toList value) = some jobDir) :
    Confined own (loadArtifacts jobDir maxBytes value hcode) fun loaded => loaded.jobDir = jobDir := by
  unfold loadArtifacts
  split
  · split
    · refine (confined_safeArtifact _).seq fun requestPath => ?_
      refine (confined_safeArtifact _).seq fun responsePath => ?_
      refine (confined_safeArtifact _).seq fun timelinePath => ?_
      refine (confined_size _).seq fun requestSize => ?_
      refine (confined_size _).seq fun responseSize => ?_
      dsimp only
      split
      · trivial
      refine (confined_read _).seq fun request => ?_
      refine (confined_read _).seq fun response => ?_
      refine (confined_checkDigest _ _ _).seq fun _ => ?_
      refine (confined_checkDigest _ _ _).seq fun _ => ?_
      refine (confined_checkDigest _ _ _).seq fun _ => ?_
      exact rfl
    · trivial
  · trivial

theorem confined_loadSpoolJob (jobDir : Text) (maxBytes : Nat) :
    Confined own (loadSpoolJob jobDir maxBytes) fun loaded => loaded.jobDir = jobDir := by
  unfold loadSpoolJob
  refine (confined_isFile _).seq fun file => ?_
  split
  · trivial
  refine (confined_size _).seq fun readySize => ?_
  split
  · trivial
  refine (confined_safeArtifact _).seq fun manifestPath => ?_
  refine (confined_size _).seq fun manifestSize => ?_
  split
  · trivial
  refine Confined.seq (Calls.tryCatch (confined_readJson _) fun e => by split <;> trivial) fun ready => ?_
  split
  · refine (confined_sha256File _).seq fun digest => ?_
    split
    · trivial
    refine (confined_readJson _).seq fun value => ?_
    split
    · dsimp only
      split
      · trivial
      split
      · exact confined_loadArtifacts maxBytes _
      · trivial
    · trivial
  · trivial

/-! ## Claims -/

theorem confined_unlinkParserState {file : StateFile} (hown : own file.name) :
    Confined own (unlinkParserState file) := by
  have hop : Op.Confined own (.unlink { name := file.name }) :=
    (owned_top hown).confined rfl (by simp [Op.inner])
  refine (confined_perform hop).seq fun r => ?_
  split
  · exact confined_fsync
  · trivial
  · trivial

theorem confined_readSmallJson (name : Text) : Confined own (readSmallJson name) := by
  unfold readSmallJson
  refine (confined_isFile _).seq fun file => ?_
  split
  · trivial
  refine (confined_size _).seq fun n => ?_
  split
  · trivial
  refine (confined_readJson _).seq fun value => ?_
  split <;> trivial

theorem confined_validateCaptureCommit (jobDir : Text) : Confined own (validateCaptureCommit jobDir) := by
  unfold validateCaptureCommit
  refine (confined_readSmallJson _).seq fun ready => ?_
  split
  · trivial
  dsimp only
  split
  · trivial
  split
  · trivial
  refine (confined_isFile _).seq fun file => ?_
  split
  · trivial
  refine (confined_sha256File _).seq fun digest => ?_
  split <;> trivial

theorem confined_revalidateArtifact (files hashes : List (Text × Json)) (key : Artifact) :
    Confined own (revalidateArtifact files hashes key) := by
  unfold revalidateArtifact
  split
  · split
    · trivial
    refine (confined_isFile _).seq fun file => ?_
    split
    · trivial
    refine (confined_sha256File _).seq fun digest => ?_
    split <;> trivial
  · trivial

theorem confined_revalidateLoadedInputs (loaded : LoadedSpoolJob) :
    Confined own (revalidateLoadedInputs loaded) := by
  unfold revalidateLoadedInputs
  split
  · refine (confined_revalidateArtifact _ _ _).seq fun _ => ?_
    refine (confined_revalidateArtifact _ _ _).seq fun _ => ?_
    exact confined_revalidateArtifact _ _ _
  · trivial

theorem confined_requireCurrentClaim (token : LeaseToken) : Confined own (requireCurrentClaim token) := by
  unfold requireCurrentClaim
  refine (confined_isFile _).seq fun file => ?_
  split
  · trivial
  refine Confined.seq (Calls.tryCatch (confined_readSmallJson _) fun _ => trivial) fun state => ?_
  split <;> trivial

theorem confined_createProcessingMarker (hown : Claiming own) (p : Parser) (token : LeaseToken) :
    Confined own (createProcessingMarker p token) := by
  have hprocessing := owned_top hown.processing
  refine confined_now.seq fun now => ?_
  refine Calls.bind (Calls.ofExcept fun payload _ => ?_)
  refine (confined_create hprocessing).seq fun _ => ?_
  refine (confined_write hprocessing payload).seq fun _ => ?_
  refine confined_fsync.seq fun _ => ?_
  exact confined_fsync

theorem confined_clearParserOutputs : Confined ParserOwned clearParserOutputs := by
  have hunlink : Confined ParserOwned (do
      unlinkParserState .parsed
      unlinkParserState .parseFailed
      unlinkParserState .parseAttempts) := by
    refine (confined_unlinkParserState (.state _)).seq fun _ => ?_
    refine (confined_unlinkParserState (.state _)).seq fun _ => ?_
    exact confined_unlinkParserState (.state _)
  unfold clearParserOutputs
  refine (confined_exist _).seq fun present => ?_
  split
  · refine (confined_isDir _).seq fun directory => ?_
    split
    · trivial
    · exact hunlink
  · exact hunlink

theorem parserStaging?_eq {name : Text} {token : LeaseToken} (h : parserStaging? name = some token) :
    name = stagingName token := by
  unfold parserStaging? at h
  dsimp only at h
  split at h
  · split at h
    · next heq =>
      cases h
      exact heq
    · cases h
  · cases h

theorem confined_cleanupLoop (hown : ∀ name, OutputName name → own name)
    (currentToken : Option LeaseToken) (names : List Text) (removed : Bool) :
    Confined own (cleanupLoop currentToken names removed) := by
  induction names generalizing removed with
  | nil => trivial
  | cons name names ih =>
    unfold cleanupLoop
    split
    · exact ih removed
    · next token htoken =>
      split
      · exact ih removed
      refine (confined_isDir _).seq fun directory => ?_
      split
      · trivial
      · refine (confined_rmtree ?_).seq fun _ => ih true
        rw [parserStaging?_eq htoken]
        exact hown _ (.staging token)

theorem confined_cleanupOrphanParserStaging (hown : ∀ name, OutputName name → own name)
    (currentToken : Option LeaseToken) :
    Confined own (cleanupOrphanParserStaging currentToken) := by
  refine Calls.bind ((confined_iterdir none).mono fun names _ => ?_)
  refine (confined_cleanupLoop hown currentToken names false).seq fun removed => ?_
  split
  · exact confined_fsync
  · trivial

theorem confined_checkPartials (unsafeStaging unfinished : Error) (names : List Text) :
    Confined own (checkPartials unsafeStaging unfinished names) := by
  induction names with
  | nil => trivial
  | cons name names ih =>
    unfold checkPartials
    split
    · split
      · trivial
      refine (confined_isDir _).seq fun directory => ?_
      split
      · trivial
      · exact ih
    · exact ih

theorem confined_isStale : Confined own isStale := by
  refine (confined_kind _).seq fun k => ?_
  split
  · trivial
  · exact confined_perform (.of_reads rfl rfl nofun)

theorem confined_displaceStale (hown : Claiming own) : Confined own displaceStale := by
  unfold displaceStale
  refine (confined_exist _).seq fun present => ?_
  split
  · trivial
  refine (confined_isFile _).seq fun file => ?_
  split
  · trivial
  refine confined_isStale.seq fun stale => ?_
  split
  · trivial
  refine (confined_rename hown.processing hown.stale).seq fun _ => ?_
  exact confined_fsync.seq fun _ => trivial

theorem confined_takeClaim (hown : Claiming own) (p : Parser) : Confined own (takeClaim p) := by
  refine confined_uuid4.seq fun token => ?_
  exact (confined_createProcessingMarker hown p token).seq fun _ => trivial

theorem confined_refreshClaim (hown : Claiming own) (token : LeaseToken) :
    Confined own (refreshClaim token) :=
  confined_withLock hown.lock ((confined_requireCurrentClaim token).seq fun _ =>
    confined_utime (owned_top hown.processing))

theorem confined_releaseClaim (hown : Claiming own) (token : LeaseToken) :
    Confined own (releaseClaim token) := by
  refine confined_withLock hown.lock ((confined_exist _).seq fun present => ?_)
  split
  · trivial
  refine Confined.seq (Calls.result (confined_requireCurrentClaim token |>.mono fun _ _ => trivial)
    fun _ => trivial) fun r => ?_
  split
  · exact confined_unlinkParserState hown.processing
  · trivial
  · trivial

/-! ## Outputs -/

theorem confined_readParserMetadata (p : Loc) (maxBytes : Nat) :
    Confined own (readParserMetadata p maxBytes) := by
  unfold readParserMetadata
  refine (confined_isFile _).seq fun file => ?_
  split
  · trivial
  refine (confined_size _).seq fun n => ?_
  split
  · trivial
  refine Confined.seq (Calls.tryCatch (confined_readJson _) fun e => by split <;> trivial) fun value => ?_
  split <;> trivial

theorem confined_validateReference (jobDir outputDir documentType suffix : Text)
    (output : Option Json) (referenced : List Text) :
    Confined own (validateReference jobDir outputDir documentType suffix output referenced) := by
  unfold validateReference
  split
  · trivial
  · trivial
  · split
    · split
      · trivial
      refine (confined_isFile _).seq fun file => ?_
      split
      · trivial
      refine (confined_sha256File _).seq fun digest => ?_
      split <;> trivial
    · trivial
  · trivial

theorem confined_validateDocument (jobDir outputDir : Text) (document : Json)
    (referenced : List Text) : Confined own (validateDocument jobDir outputDir document referenced) := by
  unfold validateDocument
  split
  · split
    · split
      · trivial
      refine (confined_validateReference _ _ _ _ _ _).seq fun referenced => ?_
      exact confined_validateReference _ _ _ _ _ _
    · trivial
  · trivial

theorem confined_validateDocuments (jobDir outputDir : Text) (documents : List Json)
    (referenced : List Text) : Confined own (validateDocuments jobDir outputDir documents referenced) := by
  induction documents generalizing referenced with
  | nil => trivial
  | cons document documents ih =>
    exact (confined_validateDocument jobDir outputDir document referenced).seq fun referenced =>
      ih referenced

theorem confined_actualOutputs (outputDir : Text) (names : List Text) :
    Confined own (actualOutputs outputDir names) := by
  induction names with
  | nil => trivial
  | cons name names ih => exact (confined_isFile _).seq fun file => ih.seq fun rest => trivial

theorem confined_validateBinding (metadata : List (Text × Json)) :
    Confined own (validateBinding metadata) := by
  unfold validateBinding
  split
  · trivial
  dsimp only
  split
  · trivial
  refine (confined_sha256File _).seq fun manifestHash => ?_
  split <;> trivial

theorem confined_validateListing (jobDir outputDir : Text) (expectedDocumentCount : Option Nat)
    (metadata : List (Text × Json)) :
    Confined own (validateListing jobDir outputDir expectedDocumentCount metadata) := by
  unfold validateListing
  split
  · trivial
  dsimp only
  split
  · trivial
  split
  · trivial
  refine (confined_validateDocuments _ _ _ _).seq fun referenced => ?_
  refine Confined.seq ((confined_iterdir _).mono fun _ _ => trivial) fun names => ?_
  refine (confined_actualOutputs _ _).seq fun actual => ?_
  split <;> trivial

theorem confined_validateParserOutputs (config : Config) (jobDir outputDir : Text)
    (expectedMetadataHash : Option Text) (expectedDocumentCount : Option Nat) :
    Confined own (validateParserOutputs config jobDir outputDir expectedMetadataHash
      expectedDocumentCount) := by
  unfold validateParserOutputs
  refine (confined_isDir _).seq fun directory => ?_
  split
  · trivial
  refine (confined_isFile _).seq fun file => ?_
  split
  · trivial
  refine (confined_sha256File _).seq fun metadataHash => ?_
  dsimp only
  split
  · trivial
  refine (confined_readParserMetadata _ _).seq fun metadata => ?_
  split
  · trivial
  refine (confined_validateBinding _).seq fun _ => ?_
  exact (confined_validateListing _ _ _ _).seq fun _ => trivial

theorem confined_validateParsedMarker (config : Config) (jobDir : Text) :
    Confined own (validateParsedMarker config jobDir) := by
  unfold validateParsedMarker
  refine (confined_readSmallJson _).seq fun marker => ?_
  split
  · trivial
  dsimp only
  split
  · trivial
  refine (confined_validateParserOutputs _ _ _ _ _).seq fun r => ?_
  split <;> trivial

/-! ## Documents -/

theorem isFileName_of_start {c : Char} {name : Text} (hdot : c ≠ '.') (hslash : '/' ∉ c :: name) :
    IsFileName (c :: name) := by
  refine ⟨List.cons_ne_nil _ _, hslash, ?_, ?_⟩ <;> rintro heq <;> cases heq <;> exact hdot rfl

theorem isFileName_temp {name : Text} (h : IsFileName name) (uuid : LeaseToken) :
    IsFileName (tempName name uuid) := by
  have hlength : 3 ≤ (tempName name uuid).length := by simp [tempName]; omega
  refine ⟨List.cons_ne_nil _ _, ?_, ?_, ?_⟩
  · exact no_slash_append (no_slash_append (no_slash_cons (by decide) h.no_slash)
      (no_slash_cons (by decide) uuid.no_slash)) (by decide)
  · intro heq
    rw [heq] at hlength
    exact absurd hlength (by decide)
  · intro heq
    rw [heq] at hlength
    exact absurd hlength (by decide)

theorem isFileName_parsedJson : IsFileName "parsed.json".toList :=
  ⟨by decide, by decide, by decide, by decide⟩

/-- A stem is a file name behind a job code. -/
theorem isFileName_stem {code clock suffix : Text} {kind : DocKind} {seen : List Text}
    (hcode : isJobCode code) (hclock : '/' ∉ clock) (hsuffix : '/' ∉ suffix) :
    IsFileName ((uniqueStem code kind clock seen).1 ++ suffix) := by
  obtain ⟨occurrence, hoccurrence, heq⟩ := uniqueStem_eq code kind clock seen
  have hslash : '/' ∉ occurrence := by
    rcases hoccurrence with rfl | ⟨n, -, rfl⟩
    · exact List.not_mem_nil
    · exact no_slash_cons (by decide) (no_slash_zeroPad 2 n)
  have htail : '/' ∉ '_' :: kind.letter :: '_' :: (clock ++ occurrence) :=
    no_slash_cons (by decide) (no_slash_cons (by cases kind <;> decide)
      (no_slash_cons (by decide) (no_slash_append hclock hslash)))
  simp only [isJobCode, Bool.and_eq_true, decide_eq_true_eq, List.all_eq_true] at hcode
  obtain ⟨⟨hlength, -⟩, hdigits⟩ := hcode
  rw [heq]
  cases code with
  | nil => exact absurd hlength (by decide)
  | cons c code =>
    refine isFileName_of_start ?_
      (no_slash_append (no_slash_append (no_slash_of_digits hdigits) htail) hsuffix)
    rintro rfl
    exact absurd (hdigits '.' List.mem_cons_self) (by decide)

theorem confined_writeText {d name : Text} (hown : own d) (h : IsFileName name) (text : Text) :
    Confined own (writeText d name text) :=
  (confined_atomicWriteBytes (owned_within hown h)
    (fun uuid => owned_within hown (isFileName_temp h uuid)) _).seq fun _ =>
      (confined_sha256File _).seq fun _ => trivial

theorem confined_writePdf {d name : Text} (hown : own d) (h : IsFileName name)
    (pdf : Except Error Bytes) : Confined own (writePdf d name pdf) :=
  (confined_atomicGenerate (owned_within hown h)
    (fun uuid => owned_within hown (isFileName_temp h uuid)) _).seq fun _ =>
      (confined_sha256File _).seq fun _ => trivial

theorem confined_whenSaved (save : Bool) {m : Job Written} (h : Confined own m) :
    Confined own (whenSaved save m) := by
  unfold whenSaved
  split
  · exact Calls.map (h.mono fun _ _ => trivial)
  · trivial

/-- A document is written behind a heartbeat, into the staging directory. -/
theorem writeDocument_eq (r : Rendering) (config : Config) {code : Text} (hcode : isJobCode code)
    (token : LeaseToken) (timeline : List TimelineEvent) (progress : Progress)
    (parsed : ParsedReceipt) :
    ∃ rest : Job Progress, writeDocument r config code token timeline progress parsed =
      (refreshClaim token >>= fun _ => rest) ∧
      ∀ own : Text → Prop, own (stagingName token) → Confined own rest := by
  refine ⟨_, rfl, fun own hown => ?_⟩
  refine Calls.bind (Calls.ofExcept fun event _ => ?_)
  refine Calls.bind (Calls.ofExcept fun t _ => ?_)
  have hstem {suffix : Text} (hsuffix : '/' ∉ suffix) : IsFileName ((uniqueStem code
      parsed.model.kind (humanCaptureTime t).1 progress.seen).1 ++ suffix) :=
    isFileName_stem hcode (no_slash_humanCaptureTime t) hsuffix
  dsimp only
  refine Calls.ite (fun _ => trivial) fun _ => ?_
  refine (confined_whenSaved _ (confined_writeText hown (hstem (by decide)) _)).seq fun txt => ?_
  refine (confined_whenSaved _ (confined_writePdf hown (hstem (by decide)) _)).seq fun pdf => ?_
  trivial

theorem confined_writeDocument (hown : Claiming own) (r : Rendering) (config : Config) {code : Text}
    (hcode : isJobCode code) (token : LeaseToken) (timeline : List TimelineEvent)
    (progress : Progress) (parsed : ParsedReceipt) :
    Confined own (writeDocument r config code token timeline progress parsed) := by
  obtain ⟨rest, heq, hrest⟩ := writeDocument_eq r config hcode token timeline progress parsed
  rw [heq]
  exact (confined_refreshClaim hown token).seq fun _ => hrest _ (hown.output _ (.staging token))

theorem confined_writeAll (hown : Claiming own) (r : Rendering) (config : Config) {code : Text}
    (hcode : isJobCode code) (token : LeaseToken) (timeline : List TimelineEvent)
    (documents : List ParsedReceipt) (progress : Progress) :
    Confined own (writeAll r config code token timeline documents progress) := by
  induction documents generalizing progress with
  | nil => trivial
  | cons parsed rest ih =>
    exact (confined_writeDocument hown r config hcode token timeline progress parsed).seq
      fun progress => ih progress

theorem confined_removeUnreferenced {d : Text} (hown : own d) (expected : List Text)
    {names : List Text} (h : ∀ name ∈ names, IsFileName name) :
    Confined own (removeUnreferenced d expected names) := by
  induction names with
  | nil => trivial
  | cons name names ih =>
    have hrest := ih fun name' hname => h name' (List.mem_cons_of_mem _ hname)
    have hname := owned_within hown (h name List.mem_cons_self)
    unfold removeUnreferenced
    refine (confined_isFile _).seq fun file => ?_
    dsimp only
    split
    · split
      · exact (confined_unlink hname).seq fun _ => hrest
      · exact hrest
    · exact hrest

theorem confined_removeUnreferencedOutputs {d : Text} (hown : own d) (expected : List Text) :
    Confined own (removeUnreferencedOutputs d expected) :=
  Calls.bind ((confined_iterdir _).mono fun _ hnames =>
    (confined_removeUnreferenced hown expected hnames).seq fun _ => confined_fsync)

theorem confined_writeDocuments (hown : Claiming own) (r : Rendering) (config : Config)
    {loaded : LoadedSpoolJob} (hcode : isJobCode loaded.jobDir) (token : LeaseToken) :
    Confined own (writeDocuments r config loaded token) := by
  have hstaging := hown.output _ (.staging token)
  unfold writeDocuments
  refine Calls.bind (Calls.ofExcept fun analysis _ => ?_)
  split
  · trivial
  refine (confined_read _).seq fun data => ?_
  refine Calls.bind (Calls.ofExcept fun timeline _ => ?_)
  refine (confined_ensureDirectory hstaging).seq fun _ => ?_
  refine (confined_writeAll hown r config hcode token timeline _ {}).seq fun progress => ?_
  refine (confined_removeUnreferencedOutputs hstaging _).seq fun _ => ?_
  refine (confined_sha256File _).seq fun manifestHash => ?_
  refine Calls.bind (Calls.ofExcept fun data _ => ?_)
  refine (confined_atomicWriteBytes (owned_within hstaging isFileName_parsedJson) (fun uuid =>
    owned_within hstaging (isFileName_temp isFileName_parsedJson uuid)) data).seq fun _ => ?_
  exact (confined_sha256File _).seq fun _ => trivial

/-! ## Jobs -/

theorem confined_claimIdle (p : Parser) (jobDir : Text) (force : Bool) :
    Confined ParserOwned (claimIdle p jobDir force) := by
  unfold claimIdle
  refine (confined_cleanupOrphanParserStaging (fun _ => OutputName.parserOwned) none).seq fun _ => ?_
  split
  · exact confined_clearParserOutputs.seq fun _ => confined_takeClaim ParserOwned.claiming p
  refine (confined_isFile _).seq fun parsed => ?_
  split
  · refine (confined_validateCaptureCommit jobDir).seq fun _ => ?_
    exact (confined_validateParsedMarker p.config jobDir).seq fun _ => trivial
  refine (confined_isFile _).seq fun failed => ?_
  split
  · trivial
  · exact confined_takeClaim ParserOwned.claiming p

/-- A job that can be claimed is named by its code. -/
theorem confined_claimJob (p : Parser) (jobDir : Text) (force : Bool) :
    Confined ParserOwned (claimJob p jobDir force) fun _ => isJobCode jobDir := by
  unfold claimJob
  split
  · trivial
  next hcode =>
  refine (confined_isFile _).seq fun ready => ?_
  split
  · trivial
  refine Calls.bind ((confined_iterdir none).mono fun names _ => ?_)
  refine (confined_checkPartials _ _ names).seq fun _ => ?_
  have hcode : isJobCode jobDir := by simpa using hcode
  refine confined_withLock .lock ((confined_displaceStale ParserOwned.claiming).seq fun idle => ?_)
  split
  · exact (confined_claimIdle p jobDir force).mono fun _ _ => hcode
  · exact hcode

theorem confined_writeState (file : StateFile) (data : Bytes) :
    Confined ParserOwned (atomicWriteBytes { name := file.name } data) :=
  confined_atomicWriteBytes (owned_state file) (fun uuid => owned_temp file uuid) data

theorem confined_failureCount : Confined own failureCount := by
  unfold failureCount
  refine (confined_exist _).seq fun present => ?_
  split
  · trivial
  refine (confined_readSmallJson _).seq fun value => ?_
  split <;> trivial

theorem confined_recordFailure (config : Config) (error : Error) :
    Confined ParserOwned (recordFailure config error) := by
  unfold recordFailure
  refine confined_failureCount.seq fun attempts => ?_
  refine confined_now.seq fun now => ?_
  refine Calls.bind (Calls.ofExcept fun data _ => ?_)
  refine (confined_writeState .parseAttempts data).seq fun _ => ?_
  dsimp only
  split
  · refine Calls.bind (Calls.ofExcept fun data _ => ?_)
    exact (confined_writeState .parseFailed data).seq fun _ => trivial
  · trivial

theorem confined_recordFailureIfOwned (config : Config) (token : LeaseToken) (error : Error) :
    Confined ParserOwned (recordFailureIfOwned config token error) :=
  confined_withLock .lock ((confined_requireCurrentClaim token).seq fun _ =>
    confined_recordFailure config error)

theorem confined_supersede (hown : ∀ name, OutputName name → own name) (token : LeaseToken) :
    Confined own (supersede token) := by
  unfold supersede
  refine (confined_exist _).seq fun leftover => ?_
  dsimp only
  split
  · trivial
  refine (confined_exist _).seq fun present => ?_
  split
  · refine (confined_isDir _).seq fun directory => ?_
    split
    · trivial
    · exact (confined_rename (hown _ .output) (hown _ (.superseded token))).seq fun _ => confined_fsync
  · trivial

theorem confined_swapOutputs (hown : ∀ name, OutputName name → own name) (token : LeaseToken) :
    Confined own (swapOutputs token) := by
  have houtput : own pharsedDirname := hown _ .output
  refine Calls.tryCatch ((confined_rename (hown _ (.staging token)) houtput).seq fun _ => confined_fsync)
    fun e => ?_
  refine (confined_isDir _).seq fun aside => ?_
  dsimp only
  split
  · refine (confined_exist _).seq fun present => ?_
    split
    · exact (confined_rename (hown _ (.superseded token)) houtput).seq fun _ => confined_fsync.seq fun _ => trivial
    · trivial
  · trivial

/-- A directory of the parser is removed, and a failure logged. -/
theorem confined_removeLogged {name : Text} (h : own name) : Confined own (do
    if ← isDir { name } then
      Prog.tryCatch
        (do
          rmtree name
          fsync)
        fun
          | .osError _ => return ()
          | e => throw e) := by
  refine (confined_isDir _).seq fun directory => ?_
  split
  · refine Calls.tryCatch ((confined_rmtree h).seq fun _ => confined_fsync) fun e => ?_
    split <;> trivial
  · trivial

theorem confined_commitSuccess (config : Config) (jobDir : Text) (token : LeaseToken)
    (loaded : LoadedSpoolJob) (count : Nat) (metadataHash : Text) :
    Confined ParserOwned (commitSuccess config jobDir token loaded count metadataHash) := by
  refine confined_withLock .lock ((confined_requireCurrentClaim token).seq fun _ => ?_)
  refine (confined_cleanupOrphanParserStaging (fun _ => OutputName.parserOwned) _).seq fun _ => ?_
  refine (confined_validateCaptureCommit jobDir).seq fun _ => ?_
  refine (confined_revalidateLoadedInputs loaded).seq fun _ => ?_
  refine (confined_validateParserOutputs _ _ _ _ _).seq fun _ => ?_
  refine (confined_supersede (fun _ => OutputName.parserOwned) token).seq fun _ => ?_
  refine (confined_swapOutputs (fun _ => OutputName.parserOwned) token).seq fun _ => ?_
  refine (confined_validateParserOutputs _ _ _ _ _).seq fun _ => ?_
  refine (confined_unlinkParserState (.state _)).seq fun _ => ?_
  refine (confined_unlinkParserState (.state _)).seq fun _ => ?_
  refine confined_now.seq fun now => ?_
  refine Calls.bind (Calls.ofExcept fun data _ => ?_)
  refine (confined_writeState .parsed data).seq fun _ => ?_
  exact confined_removeLogged (.superseded token)

theorem confined_parseClaimed (r : Rendering) (p : Parser) {jobDir : Text} (hcode : isJobCode jobDir)
    (token : LeaseToken) : Confined ParserOwned (parseClaimed r p jobDir token) := by
  unfold parseClaimed
  refine (confined_validateCaptureCommit jobDir).seq fun _ => ?_
  refine Calls.bind ((confined_loadSpoolJob jobDir _).mono fun loaded hloaded => ?_)
  refine (confined_refreshClaim ParserOwned.claiming token).seq fun _ => ?_
  refine (confined_exist _).seq fun leftover => ?_
  dsimp only
  split
  · trivial
  refine (confined_mkdir (.staging token)).seq fun _ => ?_
  refine confined_fsync.seq fun _ => ?_
  refine (confined_writeDocuments ParserOwned.claiming r p.config (hloaded ▸ hcode) token).seq fun written => ?_
  exact (confined_commitSuccess _ _ _ _ _ _).seq fun _ => trivial

theorem confined_reportFailure (p : Parser) (jobDir : Text) (token : LeaseToken) (error : Error) :
    Confined ParserOwned (reportFailure p jobDir token error) := by
  refine Confined.seq (Calls.result ((confined_recordFailureIfOwned p.config token error).mono
    fun _ _ => trivial) fun _ => trivial) fun outcome => ?_
  split <;> trivial

theorem confined_giveUp (hown : Claiming own) (token : LeaseToken) : Confined own (giveUp token) := by
  have hrelease : Confined own (do let _ ← Prog.result (releaseClaim token)) :=
    Confined.seq (Calls.result ((confined_releaseClaim hown token).mono fun _ _ => trivial)
      fun _ => trivial) fun _ => trivial
  unfold giveUp
  refine (confined_isDir _).seq fun directory => ?_
  dsimp only
  split
  · refine Confined.seq (Calls.tryCatch ((confined_rmtree (hown.output _ (.staging token))).seq fun _ =>
      confined_fsync) fun e => ?_) fun _ => hrelease
    split <;> trivial
  · exact hrelease

theorem confined_processJob (r : Rendering) (p : Parser) (jobDir : Text) (force : Bool) :
    Confined ParserOwned (processJob r p jobDir force) := by
  refine Calls.bind (Calls.result ((confined_claimJob p jobDir force).mono fun claim hcode => ?_)
    fun e => trivial)
  cases claim with
  | claimed token =>
    refine Calls.tryFinally ?_ (confined_giveUp ParserOwned.claiming token)
    refine Confined.seq (Calls.result ((confined_parseClaimed r p hcode token).mono
      fun _ _ => trivial) fun _ => trivial) fun outcome => ?_
    split
    · trivial
    · exact confined_reportFailure _ _ _ _
  | busy => trivial
  | alreadyParsed => trivial
  | parseFailed => trivial

/-! ## Reparses -/

theorem confined_containedReadyJob (jobDir : Text) : Confined own (containedReadyJob jobDir) := by
  unfold containedReadyJob
  refine (confined_isFile _).seq fun file => ?_
  split
  · trivial
  refine (confined_size _).seq fun n => ?_
  split
  · trivial
  refine Confined.seq (Calls.tryCatch (confined_readJson _) fun e => by split <;> trivial) fun ready => ?_
  split
  · dsimp only
    split
    · trivial
    refine (confined_isFile _).seq fun manifest => ?_
    split
    · trivial
    split
    · trivial
    refine (confined_sha256File _).seq fun digest => ?_
    split
    · trivial
    exact Confined.seq ((confined_iterdir none).mono fun _ _ => trivial) fun names =>
      confined_checkPartials _ _ names
  · trivial

theorem confined_snapshotOf (names : List Text) : Confined own (snapshotOf names) := by
  induction names with
  | nil => trivial
  | cons name names ih =>
    unfold snapshotOf
    refine (confined_isFile _).seq fun file => ?_
    dsimp only
    split
    · trivial
    exact (confined_sha256File _).seq fun digest => ih.seq fun _ => trivial

theorem confined_captureSnapshot (loaded : LoadedSpoolJob) : Confined own (captureSnapshot loaded) := by
  unfold captureSnapshot
  split
  · trivial
  refine Calls.bind (Calls.ofExcept fun request _ => ?_)
  refine Calls.bind (Calls.ofExcept fun response _ => ?_)
  refine Calls.bind (Calls.ofExcept fun timeline _ => ?_)
  exact confined_snapshotOf _

theorem confined_validateParserPaths : Confined own validateParserPaths := by
  have hparsed : Confined own (do
      if ← exist { name := StateFile.parsed.name } then
        if !(← isFile { name := StateFile.parsed.name }) then
          throw (.valueError "Parser state is not a regular file")) := by
    refine (confined_exist _).seq fun present => ?_
    split
    · refine (confined_isFile _).seq fun file => ?_
      split <;> trivial
    · trivial
  have houtput : Confined own (do
      if ← exist { name := pharsedDirname } then
        if !(← isDir { name := pharsedDirname }) then
          throw (.valueError "Parser output is not a directory")
      if ← exist { name := StateFile.parsed.name } then
        if !(← isFile { name := StateFile.parsed.name }) then
          throw (.valueError "Parser state is not a regular file")) := by
    refine (confined_exist _).seq fun present => ?_
    dsimp only
    split
    · refine (confined_isDir _).seq fun directory => ?_
      split
      · trivial
      · exact hparsed
    · exact hparsed
  unfold validateParserPaths
  refine (confined_exist _).seq fun present => ?_
  dsimp only
  split
  · refine (confined_isFile _).seq fun file => ?_
    split
    · trivial
    refine confined_isStale.seq fun stale => ?_
    split
    · trivial
    · exact houtput
  · exact houtput

theorem confined_backUp {name : Text} (h : ParserOwned name) : Confined ParserOwned (backUp name) := by
  refine confined_withLock .lock (confined_validateParserPaths.seq fun _ => ?_)
  refine (confined_exist _).seq fun present => ?_
  dsimp only
  split
  · trivial
  refine (confined_unlinkParserState (.state _)).seq fun _ => ?_
  exact (confined_rename .output h).seq fun _ => confined_fsync

theorem confined_checkEvidence (config : Config) (jobDir : Text) (before : List (Text × Text)) :
    Confined own (checkEvidence config jobDir before) := by
  refine Confined.seq ((confined_loadSpoolJob _ _).mono fun _ _ => trivial) fun reloaded => ?_
  refine (confined_captureSnapshot _).seq fun after => ?_
  split <;> trivial

theorem confined_planBackup (r : Rendering) (backupExisting : Bool) (now : Int) :
    Confined own (planBackup r backupExisting now) fun name => ∀ n, name = some n → ParserOwned n := by
  unfold planBackup
  refine (confined_exist _).seq fun present => ?_
  dsimp only
  split
  · trivial
  refine (confined_exist _).seq fun present => ?_
  split
  · refine Calls.bind (Calls.bind (Calls.ofExcept fun t _ => ?_))
    split
    · next hdate =>
      refine Calls.pure ((confined_exist _).seq fun present => ?_)
      split
      · trivial
      · intro n hn
        cases hn
        exact .backup hdate
    · trivial
  · nofun

theorem confined_reparseReadyJob (r : Rendering) (p : Parser) (jobDir : Text)
    (dryRun backupExisting : Bool) (codeFilter : Option Text) (now : Int) :
    Confined ParserOwned (reparseReadyJob r p jobDir dryRun backupExisting codeFilter now) := by
  unfold reparseReadyJob
  refine (confined_containedReadyJob jobDir).seq fun _ => ?_
  refine Calls.bind (Calls.ofExcept fun expected _ => ?_)
  dsimp only
  split
  · trivial
  refine Confined.seq ((confined_loadSpoolJob _ _).mono fun _ _ => trivial) fun loaded => ?_
  refine (confined_captureSnapshot loaded).seq fun before => ?_
  refine confined_validateParserPaths.seq fun _ => ?_
  refine Calls.bind ((confined_planBackup r backupExisting now).mono fun backupPath hbackup => ?_)
  have hprocess : Confined ParserOwned (do
      let result ← Prog.tryFinally (processJob r p jobDir true)
        (checkEvidence p.config jobDir before)
      return ({ jobDir, dryRun := false, backupPath, parserResult := some result } :
        ReparseResult)) :=
    Confined.seq (Calls.tryFinally (confined_processJob r p jobDir true)
      (confined_checkEvidence _ _ _)) fun _ => trivial
  split
  · trivial
  split
  · exact (confined_backUp (hbackup _ rfl)).seq fun _ => hprocess
  · exact hprocess

end Job

end RchProxy
