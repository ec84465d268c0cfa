import RchProxy.Parser.Accounting
import RchProxy.Storage.Outcome

/-!
# What a call leaves behind

A call of `process_job` that has the job to itself, on a disk where any operation may fail, and which
may stop anywhere. A job is never marked as parsed and as failed, as long as it is retried at least
once (`processJob_markers`); and where a call returns, its result is what the markers say.
-/

namespace RchProxy

open Py Lib Lib.Prog

/-- A choice whose fault is not that a file is missing: that one is told by the directory. -/
abbrev DiskChoice := { c : Choice // c.fault ≠ some .fileNotFound }

/-- One operation on a disk that may fail. -/
abbrev JobDir.execDisk (c : DiskChoice) : (op : Op) → JobDir → op.Res × JobDir := JobDir.exec c.val

namespace JobDir

variable {d d' d'' : JobDir}

theorem exec_edits (c : Choice) (op : Op) (d : JobDir) :
    Edits op.changes op.inner d (d.exec c op).2 := by
  cases op with
  | lock => exact .refl
  | _ => exact execShared_edits c _ d

theorem legal_exec (hd : d.WellNamed) (c : Choice) (op : Op) : op.Legal (d.exec c op).1 := by
  cases op with
  | lock => trivial
  | _ => exact legal_execShared hd c _

/-! ## Marks -/

/-- A state file is there. -/
def Has (d : JobDir) (file : StateFile) : Prop := ∃ data, d.lookup file.name = some (.file data)

/-- The job is not both parsed and failed. -/
def Exclusive (d : JobDir) : Prop := ¬ (d.Has .parsed ∧ d.Has .parseFailed)

/-- The job is neither parsed nor failed. -/
structure Open (d : JobDir) : Prop where
  parsed : ¬ d.Has .parsed
  failed : ¬ d.Has .parseFailed

/-- The job has not failed, and if it is parsed, its failures are forgotten. -/
structure Settling (d : JobDir) : Prop where
  failed : ¬ d.Has .parseFailed
  attempts : d.Has .parsed → d.lookup StateFile.parseAttempts.name = none

theorem Open.settling (h : d.Open) : d.Settling := ⟨h.failed, fun hparsed => absurd hparsed h.parsed⟩

theorem Settling.exclusive (h : d.Settling) : d.Exclusive := fun hboth => h.failed hboth.2

/-! ## What an operation leaves alone -/

/-- The names of the parser but those of what a call leaves behind. -/
structure Aside (name : Text) : Prop where
  owned : ParserOwned name
  parsed : name ≠ StateFile.parsed.name
  parseFailed : name ≠ StateFile.parseFailed.name
  parseAttempts : name ≠ StateFile.parseAttempts.name

theorem aside_output {name : Text} (h : OutputName name) : Aside name := by
  have hne : ∀ file : StateFile, name ≠ file.name := by
    rintro file rfl
    exact h.not_stateName (.file file)
  exact ⟨h.parserOwned, hne _, hne _, hne _⟩

theorem aside_claiming : Claiming Aside where
  lock := ⟨.lock, by decide, by decide, by decide⟩
  processing := ⟨.state _, by decide, by decide, by decide⟩
  stale := ⟨.state _, by decide, by decide, by decide⟩
  output _ := aside_output

/-- The marks are as they were. -/
structure Kept (d d' : JobDir) : Prop where
  wellNamed : d'.WellNamed
  parsed : d'.lookup StateFile.parsed.name = d.lookup StateFile.parsed.name
  parseFailed : d'.lookup StateFile.parseFailed.name = d.lookup StateFile.parseFailed.name
  parseAttempts : d'.lookup StateFile.parseAttempts.name = d.lookup StateFile.parseAttempts.name

namespace Kept

theorem refl (hd : d.WellNamed) : Kept d d := ⟨hd, rfl, rfl, rfl⟩

theorem trans (h : Kept d d') (h' : Kept d' d'') : Kept d d'' :=
  ⟨h'.wellNamed, h'.parsed.trans h.parsed, h'.parseFailed.trans h.parseFailed,
    h'.parseAttempts.trans h.parseAttempts⟩

theorem has_parsed (h : Kept d d') : d'.Has .parsed ↔ d.Has .parsed := by rw [Has, Has, h.parsed]

theorem has_parseFailed (h : Kept d d') : d'.Has .parseFailed ↔ d.Has .parseFailed := by
  rw [Has, Has, h.parseFailed]

theorem exclusive (h : Kept d d') (hd : d.Exclusive) : d'.Exclusive := by
  rw [Exclusive, h.has_parsed, h.has_parseFailed]
  exact hd

theorem opened (h : Kept d d') (hd : d.Open) : d'.Open :=
  ⟨fun hp => hd.parsed (h.has_parsed.mp hp), fun hf => hd.failed (h.has_parseFailed.mp hf)⟩

theorem settling (h : Kept d d') (hd : d.Settling) : d'.Settling := by
  refine ⟨fun hf => hd.failed (h.has_parseFailed.mp hf), fun hp => ?_⟩
  rw [h.parseAttempts]
  exact hd.attempts (h.has_parsed.mp hp)

end Kept

end JobDir

namespace Job

variable {α β : Type} {d d' : JobDir}

open JobDir

/-- Files that are missing are told by the directory only. -/
theorem safe_disk {m : Job α} {I : JobDir → Prop} {Q : α → JobDir → Prop} {E : Error → JobDir → Prop}
    (h : Safe JobDir.exec I Q E m d) : Safe JobDir.execDisk I Q E m d :=
  h.restrict (Subtype.val (p := fun c : Choice => c.fault ≠ some .fileNotFound))

/-- A step with an invariant of its own. -/
theorem safe_seq {m : Job α} {f : α → Job β} {I I' : JobDir → Prop} {Q : α → JobDir → Prop}
    {R : β → JobDir → Prop} (h : Safe JobDir.execDisk I' Q (fun _ _ => True) m d)
    (hI : ∀ d', I' d' → I d')
    (hf : ∀ a d', I' d' → Q a d' → Safe JobDir.execDisk I R (fun _ _ => True) (f a) d') :
    Safe JobDir.execDisk I R (fun _ _ => True) (m >>= f) d :=
  Safe.bind ((h.mono hf fun _ _ _ _ => trivial).weaken hI)

/-- A program that is confined keeps the names a directory can hold, and leaves what it does not own. -/
theorem safe_confined {m : Job α} {Q : α → Prop} (h : Confined Aside m Q) (hd : d.WellNamed) :
    Safe JobDir.execDisk (Kept d) (fun a _ => Q a) (fun _ _ => True) m d := by
  have hall : ∀ d', Kept d d' → Safe JobDir.execDisk (Kept d) (fun a _ => Q a) (fun _ _ => True) m d' := by
    induction m with
    | ret a => exact fun d' hkept => ⟨hkept, h⟩
    | raise e => exact fun d' hkept => ⟨hkept, trivial⟩
    | call op next ih =>
      intro d' hkept
      refine ⟨hkept, fun c => ih _ (h.2 _ (legal_exec hkept.wellNamed c.val op)) _ (hkept.trans ?_)⟩
      have hedits := exec_edits c.val op d'
      have hchanges : ∀ name ∈ op.changes, Aside name := h.1.changes
      exact {
        wellNamed := hedits.wellNamed hkept.wellNamed
          (fun name hname => (hchanges name hname).owned.isFileName) h.1.inner
        parsed := hedits.lookup fun hname => (hchanges _ hname).parsed rfl
        parseFailed := hedits.lookup fun hname => (hchanges _ hname).parseFailed rfl
        parseAttempts := hedits.lookup fun hname => (hchanges _ hname).parseAttempts rfl }
  exact hall d (.refl hd)

/-- A program that is confined keeps the names a directory can hold. -/
theorem safe_wellNamed {m : Job α} (h : Confined ParserOwned m) (hd : d.WellNamed) :
    Safe JobDir.execDisk WellNamed (fun _ _ => True) (fun _ _ => True) m d := by
  induction m generalizing d with
  | ret a => exact ⟨hd, trivial⟩
  | raise e => exact ⟨hd, trivial⟩
  | call op next ih =>
    refine ⟨hd, fun c => ih _ (h.2 _ (legal_exec hd c.val op)) ?_⟩
    exact (exec_edits c.val op d).wellNamed hd (fun name hname => (h.1.changes name hname).isFileName)
      h.1.inner

/-- One state file has changed, or not yet. -/
structure Changing (file : StateFile) (after : Option Node → Prop) (d d' : JobDir) : Prop where
  wellNamed : d'.WellNamed
  target : d'.lookup file.name = d.lookup file.name ∨ after (d'.lookup file.name)
  other : ∀ file', file' ≠ file → d'.lookup file'.name = d.lookup file'.name

/-- A state file is removed, if it is there. -/
theorem safe_unlinkParserState (file : StateFile) (hd : d.WellNamed) :
    Safe JobDir.execDisk (Changing file (· = none) d) (fun _ d' => d'.lookup file.name = none)
      (fun _ _ => True) (unlinkParserState file) d := by
  have hinjective : ∀ file', file' ≠ file → file'.name ≠ file.name := by
    intro file' hne heq
    exact hne (StateFile.slot_injective (Subtype.ext heq))
  have hstart : Changing file (· = none) d d := ⟨hd, .inl rfl, fun _ _ => rfl⟩
  refine Safe.bind (Safe.perform hstart fun c => ?_)
  have hwell := (exec_edits c.val (.unlink { name := file.name }) d).wellNamed hd
    (fun name hname => by
      rw [List.mem_singleton.mp hname]
      exact (ParserOwned.state file).isFileName)
    (fun name hname => by cases hname)
  have hfsync : ∀ d', Changing file (· = none) d d' → d'.lookup file.name = none →
      Safe JobDir.execDisk (Changing file (· = none) d) (fun _ d' => d'.lookup file.name = none)
        (fun _ _ => True) fsync d' := by
    intro d' hd' hnone
    refine Safe.bind (Safe.perform hd' fun c => ?_)
    change Changing file (· = none) d (attempt c.val.fault d' (.ok d')).2 ∧
      Safe JobDir.execDisk _ _ _ (Prog.ofExcept (attempt c.val.fault d' (.ok d')).1)
        (attempt c.val.fault d' (.ok d')).2
    cases c.val.fault with
    | some e => exact ⟨hd', hd', trivial⟩
    | none => exact ⟨hd', hd', hnone⟩
  have hcases : (∃ e, (d.exec c.val (.unlink { name := file.name })) =
        ((.error e : Except Error Unit), d) ∧
        (e = .osError .fileNotFound → d.lookup file.name = none)) ∨
      d.exec c.val (.unlink { name := file.name }) =
        ((.ok () : Except Error Unit), d.erase file.name) := by
    change (∃ e, attempt c.val.fault d (d.unlink { name := file.name }) = (.error e, d) ∧ _) ∨
      attempt c.val.fault d (d.unlink { name := file.name }) = (.ok (), d.erase file.name)
    have hfault := c.property
    revert hfault
    cases c.val.fault with
    | some e =>
      intro hfault
      refine .inl ⟨_, rfl, fun heq => ?_⟩
      cases heq
      exact absurd rfl hfault
    | none =>
      intro _
      simp only [JobDir.unlink]
      split
      · exact .inr rfl
      · refine .inl ⟨_, rfl, fun heq => ?_⟩
        cases heq
      · next hnone => exact .inl ⟨_, rfl, fun _ => hnone⟩
  rcases hcases with ⟨e, heq, hmissing⟩ | heq
  · rw [JobDir.execDisk, heq]
    refine ⟨hstart, ?_⟩
    split
    · next hok => cases hok
    · next herror =>
      cases herror
      exact ⟨hstart, hmissing rfl⟩
    · exact ⟨hstart, trivial⟩
  · rw [JobDir.execDisk, heq]
    rw [heq] at hwell
    have hgone : Changing file (· = none) d (d.erase file.name) :=
      ⟨hwell, .inr (AList.lookup_erase _ _), fun file' hne =>
        AList.lookup_erase_ne (hinjective file' hne)⟩
    exact ⟨hgone, hfsync _ hgone (AList.lookup_erase _ _)⟩

/-- A state file is written. -/
theorem safe_writeState (file : StateFile) (data : Bytes) (hd : d.WellNamed) :
    Safe JobDir.execDisk (Changing file (· = some (.file data)) d)
      (fun _ d' => d'.lookup file.name = some (.file data)) (fun _ _ => True)
      (atomicWriteBytes { name := file.name } data) d := by
  have hwritten := safe_disk (safe_atomicWriteBytes file.name data d)
  have hnamed := safe_wellNamed (confined_writeState file data) hd
  refine ((hwritten.and hnamed).weaken fun d' h => ?_).mono (fun _ _ _ h => h.1.target)
    fun _ _ _ _ => trivial
  obtain ⟨hwriting, hwell⟩ := h
  refine ⟨hwell, hwriting.target, fun file' hne => hwriting.other _ ?_ fun uuid heq => ?_⟩
  · intro heq
    exact hne (StateFile.slot_injective (Subtype.ext heq))
  · exact file.temp_ne_slot file' uuid (Subtype.ext heq.symm)

/-- Files that are removed are not there afterwards, and no other appears. -/
theorem Changing.has {file file' : StateFile} (h : Changing file (· = none) d d')
    (hhas : d'.Has file') : d.Has file' := by
  obtain ⟨data, hdata⟩ := hhas
  refine ⟨data, ?_⟩
  by_cases heq : file' = file
  · subst heq
    rcases h.target with hsame | hnone
    · rw [← hsame, hdata]
    · rw [hnone] at hdata
      cases hdata
  · rw [← h.other file' heq, hdata]

theorem Changing.exclusive {file : StateFile} (h : Changing file (· = none) d d')
    (hd : d.Exclusive) : d'.Exclusive := fun hboth => hd ⟨h.has hboth.1, h.has hboth.2⟩

theorem Changing.opened {file : StateFile} (h : Changing file (· = none) d d') (hd : d.Open) :
    d'.Open := ⟨fun hp => hd.parsed (h.has hp), fun hf => hd.failed (h.has hf)⟩

theorem not_has_of_none {file : StateFile} (h : d.lookup file.name = none) : ¬ d.Has file := by
  rintro ⟨data, hdata⟩
  rw [h] at hdata
  cases hdata

/-- A program that leaves the marks alone. -/
theorem safe_kept {m : Job α} {Q' : α → Prop} (h : Confined Aside m Q') (hd : d.WellNamed)
    {I : JobDir → Prop} {Q : α → JobDir → Prop} (hI : ∀ d', Kept d d' → I d')
    (hQ : ∀ a d', Kept d d' → Q' a → Q a d') :
    Safe JobDir.execDisk I Q (fun _ _ => True) m d :=
  ((safe_confined h hd).mono hQ fun _ _ _ _ => trivial).weaken hI

theorem safe_isFile {file : StateFile} {I : JobDir → Prop} {Q : Bool → JobDir → Prop} (hI : I d)
    (hQ : ∀ b, (b = true ↔ d.Has file) → Q b d) :
    Safe JobDir.execDisk I Q (fun _ _ => True) (isFile { name := file.name }) d := by
  refine ((safe_disk (answers_isFile { name := file.name })).mono ?_ fun _ _ _ h => h.elim).weaken ?_
  · rintro b d' rfl rfl
    refine hQ _ ?_
    cases hnode : d'.lookup file.name with
    | none => simp [JobDir.kind, JobDir.node, Has, hnode]
    | some node => cases node <;> simp [JobDir.kind, JobDir.node, Has, hnode]
  · rintro d' rfl
    exact hI

/-- A section under the lock, which is free. -/
theorem safe_withLock {m : Job α} {I : JobDir → Prop} {Q : α → JobDir → Prop} (hI : I d)
    (h : Safe JobDir.execDisk I Q (fun _ _ => True) m d) :
    Safe JobDir.execDisk I Q (fun _ _ => True) (withLock m) d := by
  refine Safe.bind ⟨hI, fun c => ⟨hI, ?_⟩⟩
  exact Safe.tryFinally (h.mono (fun _ _ hI' hQ => ⟨hI', fun _ => ⟨hI', hQ⟩⟩)
    fun _ _ hI' _ => ⟨hI', fun _ => ⟨hI', trivial⟩⟩)

/-! ## Claims -/

/-- In order: the names are those of a directory, and the job is not both parsed and failed. -/
structure Orderly (d : JobDir) : Prop where
  wellNamed : d.WellNamed
  exclusive : d.Exclusive

/-- What a claim says of the marks. -/
def ClaimTells : Claim → JobDir → Prop
  | .claimed _, d => d.Open
  | .alreadyParsed, d => d.Has .parsed
  | .parseFailed, d => d.Has .parseFailed
  | .busy, _ => True

theorem Orderly.kept (hd : Orderly d) (h : Kept d d') : Orderly d' :=
  ⟨h.wellNamed, h.exclusive hd.exclusive⟩

/-- A step that leaves the marks alone, in order. -/
theorem Orderly.seq {m : Job α} {f : α → Job β} {Q' : α → Prop} {R : β → JobDir → Prop}
    (h : Confined Aside m Q') (hd : Orderly d)
    (hf : ∀ a d', Q' a → Kept d d' → Orderly d' →
      Safe JobDir.execDisk Orderly R (fun _ _ => True) (f a) d') :
    Safe JobDir.execDisk Orderly R (fun _ _ => True) (m >>= f) d :=
  Safe.bind (safe_kept h hd.wellNamed (fun _ => hd.kept) fun a d' hkept hQ =>
    hf a d' hQ hkept (hd.kept hkept))

theorem safe_takeClaim (p : Parser) (hd : Orderly d) (hopen : d.Open) :
    Safe JobDir.execDisk Orderly ClaimTells (fun _ _ => True) (takeClaim p) d := by
  refine hd.seq confined_uuid4 fun token d₁ _ h₁ hd₁ => ?_
  refine hd₁.seq (confined_createProcessingMarker aside_claiming p token) fun _ d₂ _ h₂ hd₂ => ?_
  exact ⟨hd₂, h₂.opened (h₁.opened hopen)⟩

/-- A file of the marks is removed. -/
theorem Orderly.unlink {file : StateFile} {f : Unit → Job β} {R : β → JobDir → Prop} (hd : Orderly d)
    (hf : ∀ d', Changing file (· = none) d d' → ¬ d'.Has file → Orderly d' →
      Safe JobDir.execDisk Orderly R (fun _ _ => True) (f ()) d') :
    Safe JobDir.execDisk Orderly R (fun _ _ => True) (unlinkParserState file >>= f) d := by
  have hkept : ∀ d', Changing file (· = none) d d' → Orderly d' := fun d' h =>
    ⟨h.wellNamed, h.exclusive hd.exclusive⟩
  refine safe_seq (safe_unlinkParserState file hd.wellNamed) hkept fun _ d' h hnone => ?_
  exact hf d' h (not_has_of_none hnone) (hkept d' h)

/-- A forced claim starts from no marks. -/
theorem safe_clearParserOutputs (hd : Orderly d) :
    Safe JobDir.execDisk Orderly (fun _ d' => d'.Open) (fun _ _ => True) clearParserOutputs d := by
  have hclear : ∀ d, Orderly d → Safe JobDir.execDisk Orderly (fun _ d' => d'.Open) (fun _ _ => True)
      (do
        unlinkParserState .parsed
        unlinkParserState .parseFailed
        unlinkParserState .parseAttempts) d := by
    intro d hd
    refine hd.unlink fun d₁ h₁ hparsed hd₁ => ?_
    refine hd₁.unlink fun d₂ h₂ hfailed hd₂ => ?_
    have hopen : d₂.Open := ⟨fun hp => hparsed (h₂.has hp), hfailed⟩
    rw [← bind_pure (unlinkParserState .parseAttempts)]
    exact hd₂.unlink fun d₃ h₃ _ hd₃ => ⟨hd₃, h₃.opened hopen⟩
  unfold clearParserOutputs
  refine hd.seq (confined_exist _) fun present d₁ _ _ hd₁ => ?_
  dsimp only
  split
  · refine hd₁.seq (confined_isDir _) fun directory d₂ _ _ hd₂ => ?_
    split
    · exact ⟨hd₂, trivial⟩
    · exact hclear d₂ hd₂
  · exact hclear d₁ hd₁

theorem safe_claimIdle (p : Parser) (jobDir : Text) (force : Bool) (hd : Orderly d) :
    Safe JobDir.execDisk Orderly ClaimTells (fun _ _ => True) (claimIdle p jobDir force) d := by
  unfold claimIdle
  refine hd.seq (confined_cleanupOrphanParserStaging aside_claiming.output none)
    fun _ d₁ _ _ hd₁ => ?_
  split
  · exact safe_seq (safe_clearParserOutputs hd₁) (fun _ h => h) fun _ d₂ hd₂ hopen =>
      safe_takeClaim p hd₂ hopen
  refine Safe.bind (safe_isFile hd₁ fun parsed hparsed => ?_)
  split
  · next htrue =>
    refine hd₁.seq (confined_validateCaptureCommit jobDir) fun _ d₂ _ h₂ hd₂ => ?_
    refine hd₂.seq (confined_validateParsedMarker _ _) fun _ d₃ _ h₃ hd₃ => ?_
    exact ⟨hd₃, h₃.has_parsed.mpr (h₂.has_parsed.mpr (hparsed.mp htrue))⟩
  · next hfalse =>
    refine Safe.bind (safe_isFile hd₁ fun failed hfailed => ?_)
    split
    · next htrue => exact ⟨hd₁, hfailed.mp htrue⟩
    · next hnot =>
      exact safe_takeClaim p hd₁ ⟨fun hp => hfalse (hparsed.mpr hp), fun hf => hnot (hfailed.mpr hf)⟩

theorem safe_claimJob (p : Parser) (jobDir : Text) (force : Bool) (hd : Orderly d) :
    Safe JobDir.execDisk Orderly (fun claim d' => isJobCode jobDir = true ∧ ClaimTells claim d')
      (fun _ _ => True) (claimJob p jobDir force) d := by
  unfold claimJob
  split
  · exact ⟨hd, trivial⟩
  next hcode =>
  have hcode : isJobCode jobDir = true := by simpa using hcode
  refine hd.seq (confined_isFile _) fun ready d₁ _ _ hd₁ => ?_
  dsimp only
  split
  · exact ⟨hd₁, trivial⟩
  refine hd₁.seq (confined_iterdir none) fun names d₂ _ _ hd₂ => ?_
  refine hd₂.seq (confined_checkPartials _ _ names) fun _ d₃ _ _ hd₃ => ?_
  refine safe_withLock hd₃ (hd₃.seq (confined_displaceStale aside_claiming) fun idle d₄ _ _ hd₄ => ?_)
  split
  · exact (safe_claimIdle p jobDir force hd₄).mono (fun _ _ _ h => ⟨hcode, h⟩) fun _ _ _ h => h
  · exact ⟨hd₄, hcode, trivial⟩

/-! ## Commits -/

/-- Under a claim: the job has not failed, and is not parsed unless its failures are forgotten. -/
structure Settled (d : JobDir) : Prop where
  wellNamed : d.WellNamed
  settling : d.Settling

/-- A step that leaves the marks alone, before there are any. -/
theorem open_seq {m : Job α} {f : α → Job β} {Q' : α → Prop} {R : β → JobDir → Prop}
    (h : Confined Aside m Q') (hd : d.WellNamed) (hopen : d.Open)
    (hf : ∀ a d', Q' a → d'.WellNamed → d'.Open →
      Safe JobDir.execDisk Settled R (fun _ _ => True) (f a) d') :
    Safe JobDir.execDisk Settled R (fun _ _ => True) (m >>= f) d :=
  Safe.bind (safe_kept h hd (fun _ hkept => ⟨hkept.wellNamed, (hkept.opened hopen).settling⟩)
    fun a d' hkept hQ => hf a d' hQ hkept.wellNamed (hkept.opened hopen))

/-- The marks of a commit: the failures are forgotten before the job is marked as parsed. -/
theorem safe_markParsed (token : LeaseToken) (code : Text) (count : Nat) (metadataHash : Text)
    (hd : d.WellNamed) (hopen : d.Open) :
    Safe JobDir.execDisk Settled (fun _ d' => d'.Has .parsed) (fun _ _ => True)
      (do
        unlinkParserState .parseAttempts
        unlinkParserState .parseFailed
        let marker := parsedMarker code count metadataHash (← Prog.perform .now)
        atomicWriteBytes { name := StateFile.parsed.name } (← Prog.ofExcept (jsonBytes marker))
        removeSuperseded token) d := by
  refine safe_seq (safe_unlinkParserState .parseAttempts hd)
    (fun d₁ h₁ => ⟨h₁.wellNamed, (h₁.opened hopen).settling⟩) fun _ d₁ h₁ hattempts => ?_
  have hopen₁ := h₁.opened hopen
  refine safe_seq (safe_unlinkParserState .parseFailed h₁.wellNamed)
    (fun d₂ h₂ => ⟨h₂.wellNamed, (h₂.opened hopen₁).settling⟩) fun _ d₂ h₂ _ => ?_
  have hopen₂ := h₂.opened hopen₁
  have hattempts₂ : d₂.lookup StateFile.parseAttempts.name = none :=
    (h₂.other .parseAttempts (by decide)).trans hattempts
  refine Safe.bind (safe_kept confined_now h₂.wellNamed
    (fun d₃ h₃ => ⟨h₃.wellNamed, (h₃.opened hopen₂).settling⟩) fun now d₃ h₃ _ => ?_)
  have hopen₃ := h₃.opened hopen₂
  have hattempts₃ := h₃.parseAttempts.trans hattempts₂
  have hsettled₃ : Settled d₃ := ⟨h₃.wellNamed, hopen₃.settling⟩
  refine Safe.bind (Safe.ofExcept hsettled₃ (fun data _ => ?_) fun _ _ => trivial)
  -- the mark is written: no failure is there, whether it has appeared or not
  have hwriting : ∀ d', Changing .parsed (· = some (.file data)) d₃ d' → Settled d' := by
    intro d' h
    refine ⟨h.wellNamed, fun hfailed => hopen₃.failed ?_, fun _ => ?_⟩
    · obtain ⟨bytes, hbytes⟩ := hfailed
      exact ⟨bytes, (h.other .parseFailed (by decide)).symm.trans hbytes⟩
    · exact (h.other .parseAttempts (by decide)).trans hattempts₃
  refine safe_seq (safe_writeState .parsed data h₃.wellNamed) hwriting fun _ d₄ h₄ hparsed => ?_
  have hsettled₄ := hwriting d₄ h₄
  refine safe_kept (confined_removeLogged (aside_output (.superseded token))) h₄.wellNamed
    (fun d₅ h₅ => ⟨h₅.wellNamed, h₅.settling hsettled₄.settling⟩) fun _ d₅ h₅ _ => ?_
  exact h₅.has_parsed.mpr ⟨data, hparsed⟩

theorem safe_commitSuccess (config : Config) (jobDir : Text) (token : LeaseToken)
    (loaded : LoadedSpoolJob) (count : Nat) (metadataHash : Text) (hd : d.WellNamed)
    (hopen : d.Open) :
    Safe JobDir.execDisk Settled (fun _ d' => d'.Has .parsed) (fun _ _ => True)
      (commitSuccess config jobDir token loaded count metadataHash) d := by
  refine safe_withLock ⟨hd, hopen.settling⟩ ?_
  refine open_seq (confined_requireCurrentClaim token) hd hopen fun _ d₁ _ hd₁ hopen₁ => ?_
  refine open_seq (confined_cleanupOrphanParserStaging aside_claiming.output _) hd₁ hopen₁
    fun _ d₂ _ hd₂ hopen₂ => ?_
  refine open_seq (confined_validateCaptureCommit jobDir) hd₂ hopen₂ fun _ d₃ _ hd₃ hopen₃ => ?_
  refine open_seq (confined_revalidateLoadedInputs loaded) hd₃ hopen₃ fun _ d₄ _ hd₄ hopen₄ => ?_
  refine open_seq (confined_validateParserOutputs _ _ _ _ _) hd₄ hopen₄
    fun _ d₅ _ hd₅ hopen₅ => ?_
  refine open_seq (confined_supersede aside_claiming.output token) hd₅ hopen₅
    fun _ d₆ _ hd₆ hopen₆ => ?_
  refine open_seq (confined_swapOutputs aside_claiming.output token) hd₆ hopen₆
    fun _ d₇ _ hd₇ hopen₇ => ?_
  refine open_seq (confined_validateParserOutputs _ _ _ _ _) hd₇ hopen₇
    fun _ d₈ _ hd₈ hopen₈ => ?_
  exact safe_markParsed token loaded.jobDir count metadataHash hd₈ hopen₈

theorem safe_parseClaimed (r : Rendering) (p : Parser) {jobDir : Text} (hcode : isJobCode jobDir)
    (token : LeaseToken) (hd : d.WellNamed) (hopen : d.Open) :
    Safe JobDir.execDisk Settled (fun _ d' => d'.Has .parsed) (fun _ _ => True)
      (parseClaimed r p jobDir token) d := by
  unfold parseClaimed
  refine open_seq (confined_validateCaptureCommit jobDir) hd hopen fun _ d₁ _ hd₁ hopen₁ => ?_
  refine open_seq (confined_loadSpoolJob jobDir _) hd₁ hopen₁ fun loaded d₂ hloaded hd₂ hopen₂ => ?_
  refine open_seq (confined_refreshClaim aside_claiming token) hd₂ hopen₂
    fun _ d₃ _ hd₃ hopen₃ => ?_
  refine open_seq (confined_exist _) hd₃ hopen₃ fun leftover d₄ _ hd₄ hopen₄ => ?_
  dsimp only
  split
  · exact ⟨⟨hd₄, hopen₄.settling⟩, trivial⟩
  refine open_seq (confined_mkdir (aside_output (.staging token))) hd₄ hopen₄
    fun _ d₅ _ hd₅ hopen₅ => ?_
  refine open_seq confined_fsync hd₅ hopen₅ fun _ d₆ _ hd₆ hopen₆ => ?_
  refine open_seq (confined_writeDocuments aside_claiming r p.config (hloaded ▸ hcode) token) hd₆
    hopen₆ fun written d₇ _ hd₇ hopen₇ => ?_
  exact safe_seq (safe_commitSuccess _ _ _ _ _ _ hd₇ hopen₇) (fun _ h => h) fun _ d₈ hd₈ hparsed =>
    ⟨hd₈, hparsed⟩

/-! ## Failures -/

/-- The failures before this one, which are none where they are forgotten. -/
theorem safe_failureCount (hd : d.WellNamed) :
    Safe JobDir.execDisk (Kept d) (fun attempts _ =>
      d.lookup StateFile.parseAttempts.name = none → attempts = 0) (fun _ _ => True) failureCount d := by
  by_cases hnone : d.lookup StateFile.parseAttempts.name = none
  · have hkind : d.kind { name := StateFile.parseAttempts.name } = none := by
      simp [JobDir.kind, JobDir.node, hnone]
    have hexist : Answers (· = false) (exist { name := StateFile.parseAttempts.name }) d :=
      .bind ((answers_kind _).mono fun kind heq => .pure (by rw [heq, hkind]; rfl))
    refine Safe.bind (((safe_disk hexist).mono ?_ fun _ _ _ h => h.elim).weaken ?_)
    · rintro _ _ rfl rfl
      exact ⟨.refl hd, fun _ => rfl⟩
    · rintro _ rfl
      exact .refl hd
  · exact (safe_confined confined_failureCount hd).mono (fun _ _ _ _ h => absurd h hnone)
      fun _ _ _ h => h

theorem Changing.has_iff {file file' : StateFile} {after : Option Node → Prop}
    (h : Changing file after d d') (hne : file' ≠ file) : d'.Has file' ↔ d.Has file' := by
  rw [Has, Has, h.other file' hne]

/-- A failure is recorded: the job counts as failed only when it is not parsed. -/
theorem safe_recordFailure {config : Config} (hretry : 1 ≤ config.parserRetryCount) (error : Error)
    (hd : Settled d) :
    Safe JobDir.execDisk Orderly (fun exhausted d' => exhausted = true ↔ d'.Has .parseFailed)
      (fun _ _ => True) (recordFailure config error) d := by
  unfold recordFailure
  refine safe_seq (safe_failureCount hd.wellNamed)
    (fun d' h => ⟨h.wellNamed, (h.settling hd.settling).exclusive⟩) fun n d₁ h₁ hn => ?_
  have hfailed₁ : ¬ d₁.Has .parseFailed := fun h => hd.settling.failed (h₁.has_parseFailed.mp h)
  have hcount₁ : d₁.Has .parsed → n = 0 := fun hp =>
    hn (hd.settling.attempts (h₁.has_parsed.mp hp))
  have hd₁ : Orderly d₁ := ⟨h₁.wellNamed, fun hboth => hfailed₁ hboth.2⟩
  refine hd₁.seq confined_now fun now d₂ _ h₂ hd₂ => ?_
  refine Safe.bind (Safe.ofExcept hd₂ (fun data _ => ?_) fun _ _ => trivial)
  have hwriting : ∀ d', Changing .parseAttempts (· = some (.file data)) d₂ d' →
      Orderly d' ∧ ¬ d'.Has .parseFailed ∧ (d'.Has .parsed → n = 0) := by
    intro d' h
    rw [h.has_iff (by decide), h₂.has_parseFailed, h.has_iff (by decide), h₂.has_parsed]
    refine ⟨⟨h.wellNamed, fun hboth => hfailed₁ ?_⟩, hfailed₁, hcount₁⟩
    exact h₂.has_parseFailed.mp ((h.has_iff (by decide)).mp hboth.2)
  refine safe_seq (safe_writeState .parseAttempts data hd₂.wellNamed) (fun d' h => (hwriting d' h).1)
    fun _ d₃ h₃ _ => ?_
  obtain ⟨hd₃, hfailed₃, hcount₃⟩ := hwriting d₃ h₃
  dsimp only
  split
  · next hexhausted =>
    -- with a retry left to a first failure, this is not the first: the job is not parsed
    have hparsed₃ : ¬ d₃.Has .parsed := by
      intro hp
      have hzero := hcount₃ hp
      omega
    refine Safe.bind (Safe.ofExcept hd₃ (fun failure _ => ?_) fun _ _ => trivial)
    have hmarking : ∀ d', Changing .parseFailed (· = some (.file failure)) d₃ d' → Orderly d' := by
      intro d' h
      exact ⟨h.wellNamed, fun hboth => hparsed₃ ((h.has_iff (by decide)).mp hboth.1)⟩
    refine safe_seq (safe_writeState .parseFailed failure hd₃.wellNamed) hmarking
      fun _ d₄ h₄ hmark => ?_
    exact ⟨hmarking d₄ h₄, iff_of_true (decide_eq_true hexhausted) ⟨failure, hmark⟩⟩
  · next hleft =>
    exact ⟨hd₃, iff_of_false (fun h => hleft (of_decide_eq_true h)) hfailed₃⟩

/-! ## Calls -/

/-- What a result says of the marks. -/
def Tells : ProcessStatus → JobDir → Prop
  | .parsed, d => d.Has .parsed
  | .alreadyParsed, d => d.Has .parsed
  | .parseFailed, d => d.Has .parseFailed
  | .retryPending, d => ¬ d.Has .parseFailed
  | _, _ => True

theorem Tells.kept {status : ProcessStatus} (h : Tells status d) (hkept : Kept d d') :
    Tells status d' := by
  cases status with
  | parsed => exact hkept.has_parsed.mpr h
  | alreadyParsed => exact hkept.has_parsed.mpr h
  | parseFailed => exact hkept.has_parseFailed.mpr h
  | retryPending => exact fun hf => h (hkept.has_parseFailed.mp hf)
  | claimError | busy | claimLost | failureStateError => exact h

theorem safe_reportFailure {p : Parser} (hretry : 1 ≤ p.config.parserRetryCount) (jobDir : Text)
    (token : LeaseToken) (error : Error) (hd : Settled d) :
    Safe JobDir.execDisk Orderly (fun result d' => Tells result.status d') (fun _ _ => True)
      (reportFailure p jobDir token error) d := by
  have hkept : ∀ d', Kept d d' → Settled d' := fun d' h => ⟨h.wellNamed, h.settling hd.settling⟩
  have horderly : ∀ d', Settled d' → Orderly d' := fun d' h => ⟨h.wellNamed, h.settling.exclusive⟩
  have hrecord : Safe JobDir.execDisk Orderly (fun exhausted d' => exhausted = true ↔
      d'.Has .parseFailed) (fun _ _ => True) (recordFailureIfOwned p.config token error) d := by
    refine safe_withLock (horderly d hd) ?_
    refine Safe.bind (safe_kept (confined_requireCurrentClaim token) hd.wellNamed
      (fun d' h => horderly d' (hkept d' h)) fun _ d' h _ => ?_)
    exact safe_recordFailure hretry error (hkept d' h)
  refine safe_seq hrecord.result_ok (fun _ h => h) fun outcome d' hd' htells => ?_
  split
  · next exhausted =>
    refine ⟨hd', ?_⟩
    have hiff := htells exhausted rfl
    cases exhausted with
    | true => exact hiff.mp rfl
    | false => exact fun hf => absurd (hiff.mpr hf) (by decide)
  · exact ⟨hd', trivial⟩
  · exact ⟨hd', trivial⟩

/-- A call, in order: wherever it stops, the job is not both parsed and failed, and what it returns is
what the marks say. -/
theorem safe_processJob (r : Rendering) {p : Parser} (hretry : 1 ≤ p.config.parserRetryCount)
    (jobDir : Text) (force : Bool) (hd : Orderly d) :
    Safe JobDir.execDisk Orderly (fun result d' => Tells result.status d') (fun _ _ => True)
      (processJob r p jobDir force) d := by
  refine safe_seq (safe_claimJob p jobDir force hd).result_ok (fun _ h => h)
    fun outcome d₁ hd₁ htells => ?_
  split
  · next token =>
    obtain ⟨hcode, hopen⟩ := htells _ rfl
    refine Safe.tryFinally (Safe.mono (Q := fun result d' => Tells result.status d')
      (E := fun _ _ => True) ?_ (fun result d₂ hd₂ hresult => ?_) fun e d₂ hd₂ _ => ?_)
    · refine safe_seq (safe_parseClaimed r p hcode token hd₁.wellNamed hopen).result_ok
        (fun d' h => ⟨h.wellNamed, h.settling.exclusive⟩) fun outcome d₂ hd₂ hparsed => ?_
      split
      · next count =>
        exact ⟨⟨hd₂.wellNamed, hd₂.settling.exclusive⟩, hparsed count rfl⟩
      · exact safe_reportFailure hretry jobDir token _ hd₂
    · exact safe_kept (confined_giveUp aside_claiming token) hd₂.wellNamed (fun _ => hd₂.kept)
        fun _ d₃ h₃ _ => hresult.kept h₃
    · exact safe_kept (confined_giveUp aside_claiming token) hd₂.wellNamed (fun _ => hd₂.kept)
        fun _ _ _ _ => trivial
  · exact ⟨hd₁, trivial⟩
  · exact ⟨hd₁, (htells _ rfl).2⟩
  · exact ⟨hd₁, (htells _ rfl).2⟩
  · exact ⟨hd₁, trivial⟩

end Job

/-! ## Series of calls -/

/-- A call on a job of a parser that retries. -/
inductive RetryingCall : Job ProcessResult → Prop where
  | call (r : Rendering) (p : Parser) (hretry : 1 ≤ p.config.parserRetryCount) (jobDir : Text)
    (force : Bool) : RetryingCall (Job.processJob r p jobDir force)

/-- A call that ends or stops, for good or because it crashed. -/
def CallStops (d d' : JobDir) : Prop :=
  ∃ m, RetryingCall m ∧ Prog.Visits JobDir.execDisk m d d'

/-- A job whose retries are used up. -/
def sampleExhausted : JobDir :=
  sampleUnready.insert StateFile.parseAttempts.name (.file (encodeUtf8 "\x7b\"attempts\": 3\x7d".toList))

theorem sampleExhausted_wellNamed : sampleExhausted.WellNamed := by
  let names := [".ready".toList, StateFile.parseAttempts.name]
  have hready : JobDir.Edits names [] ∅ sampleUnready := .insert .refl List.mem_cons_self trivial
  have hedits : JobDir.Edits names [] ∅ sampleExhausted :=
    .insert hready (List.mem_cons_of_mem _ List.mem_cons_self) trivial
  refine hedits.wellNamed (fun _ _ hlookup => by cases hlookup) (fun name hname => ?_) nofun
  simp only [names, List.mem_cons, List.not_mem_nil, or_false] at hname
  rcases hname with rfl | rfl <;> exact ⟨by decide, by decide, by decide, by decide⟩

/-- A call on it. -/
def sampleExhaustedCall : Option (Except Error ProcessResult × JobDir) :=
  Prog.run JobDir.execDisk (List.replicate 200 ⟨.quiet, by decide⟩)
    (Job.processJob .sample .sample "0001".toList false) sampleExhausted

end RchProxy
