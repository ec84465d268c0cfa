import RchProxy.Parser.Balance

/-!
# The sections of a call

A call of `process_job`, section by section: each section leaves the books balanced, whatever the other
calls have left it, and what the call has entered in the log is told by the way it ends
(`fenced_processJob`).
-/

namespace RchProxy

open Py Lib Lib.Prog

namespace Books

variable {retry call : Nat} {v : Books} {n : Slot} {node : Option Node}

/-- A call that has done nothing but change the two files. -/
def Untold (call : Nat) (v : Books) : Prop := ∀ e ∈ entriesOf call v.log, e = .changed call

/-- The books a section leaves that claims the job, or does not. -/
def Claims (retry call : Nat) (force : Bool) : Claim → Books → Prop
  | .claimed token, v => (v.enter (.claimed call token force)).Balanced retry ∧ v.Untold call ∧
      (force = false → entriesOf call v.log = [] ∧ v.files (StateFile.slot .parseFailed) = none)
  | _, v => v.Balanced retry ∧ entriesOf call v.log = []

theorem Untold.put (h : v.Untold call) : (v.put call n node).Untold call := by
  rcases v.log_step call (Function.update v.files n node) with hlog | hlog
  · exact fun e he => h e ((congrArg (e ∈ entriesOf call ·) hlog).mp he)
  · intro e he
    have he : e ∈ entriesOf call (.changed call :: v.log) :=
      (congrArg (e ∈ entriesOf call ·) hlog).mp he
    rw [entriesOf_cons_self (show (Entry.changed call).call = call from rfl)] at he
    rcases List.mem_cons.mp he with rfl | he
    · rfl
    · exact h e he

end Books

namespace Job

variable {I : Books → Prop} {call retry : Nat} {α : Type} {v : Books} {mine : List Entry}
  {Q : α → Side Books (List Entry) → Prop} {E : Error → Side Books (List Entry) → Prop}

/-! ## Sections -/

theorem fenced_withLock {m : Job α} (h : ∀ v, I v → entriesOf call v.log = mine →
      Fenced I call ((booksFence I).Restored call Q) ((booksFence I).Restored call E) m (.inside v)) :
    Fenced I call Q E (withLock m) (.outside mine) :=
  Fenced.bind (fenced_lock fun v hv hmine =>
    Fenced.section (fun _ hv' _ hR => fenced_unlock hv' hR) (h v hv hmine))

/-- A program that keeps to the output directories, outside the lock. -/
theorem fenced_idle {m : Job α} {P : α → Prop} (h : Confined OutputName m P)
    (hQ : ∀ a, P a → Q a (.outside mine)) (hE : ∀ e, E e (.outside mine)) :
    Fenced I call Q E m (.outside mine) := by
  refine (fenced_of_confined h (.outside mine)).mono ?_ ?_
  · rintro a _ ⟨rfl, ha⟩
    exact hQ a ha
  · rintro e _ rfl
    exact hE e

/-- A program that keeps to the output directories, in a section. -/
theorem fenced_busy {m : Job α} {P : α → Prop} (h : Confined OutputName m P)
    (hQ : ∀ a, P a → Q a (.inside v)) (hE : ∀ e, E e (.inside v)) :
    Fenced I call Q E m (.inside v) := by
  refine (fenced_of_confined h (.inside v)).mono ?_ ?_
  · rintro a _ ⟨rfl, ha⟩
    exact hQ a ha
  · rintro e _ rfl
    exact hE e

theorem fenced_utime {R : Unit → Side Books (List Entry) → Prop} {p : Loc}
    (hR : R () (.inside v)) (hE : ∀ e, E e (.inside v)) :
    Fenced I call R E (utime p) (.inside v) := by
  refine Fenced.bind (fenced_same nofun nofun fun d c _ hquiet _ _ => ?_)
  by_cases hp : (d.node p).isSome
  · rw [JobDir.exec, if_pos hp, attempt_ok hquiet]
    exact ⟨rfl, hR⟩
  · rw [JobDir.exec, if_neg hp, hquiet]
    exact ⟨rfl, hE _⟩

/-- A heartbeat changes nothing. -/
theorem fenced_refreshClaim {R : Unit → Side Books (List Entry) → Prop} (token : LeaseToken)
    (hR : R () (.outside mine)) (hE : ∀ e, E e (.outside mine)) :
    Fenced I call R E (refreshClaim token) (.outside mine) := by
  refine fenced_withLock fun v hv hmine => ?_
  subst hmine
  refine Fenced.bind (fenced_requireCurrentClaim (fun _ => ?_) fun _ message => ?_)
  · exact fenced_utime ⟨v, rfl, hv, hR⟩ fun e => ⟨v, rfl, hv, hE e⟩
  · exact ⟨v, rfl, hv, hE _⟩

/-- Giving a claim back leaves nobody a lease. -/
theorem fenced_releaseClaim {R : Unit → Side Books (List Entry) → Prop} (token : LeaseToken)
    (hR : R () (.outside mine)) :
    Fenced (Books.Balanced retry) call R E (releaseClaim token) (.outside mine) := by
  refine fenced_withLock fun v hv hmine => ?_
  subst hmine
  refine Fenced.bind (fenced_exist (n := StateFile.slot .processing) ?_)
  split
  · exact ⟨v, rfl, hv, hR⟩
  refine Fenced.bind (Fenced.result (fenced_requireCurrentClaim (fun _ => ?_) fun _ message => ?_))
  · refine fenced_unlinkParserState (hv.places .processing) ?_
    have hcounts : ¬ (StateFile.slot .processing).Counts := by
      rw [StateFile.counts_slot]
      exact nofun
    rw [Books.put_eq_set call hcounts]
    exact ⟨_, rfl, hv.set hcounts noDir_none fun _ _ => rfl, hR⟩
  · exact ⟨v, rfl, hv, hR⟩

/-- What a call gives up in the end: its staging directory, and its claim. -/
theorem fenced_giveUp {R : Unit → Side Books (List Entry) → Prop} (token : LeaseToken)
    (hR : R () (.outside mine)) (hE : ∀ e, E e (.outside mine)) :
    Fenced (Books.Balanced retry) call R E (giveUp token) (.outside mine) := by
  have hrelease : Fenced (Books.Balanced retry) call R E
      (do let _ ← Prog.result (releaseClaim token)) (.outside mine) :=
    Fenced.bind (Fenced.result (fenced_releaseClaim token hR))
  unfold giveUp
  refine Fenced.bind (fenced_idle (confined_isDir _) (fun directory _ => ?_) hE)
  dsimp only
  split
  · refine Fenced.bind (fenced_idle (Calls.tryCatch
      ((confined_rmtree (.staging token)).seq fun _ => confined_fsync) fun e => ?_)
      (fun _ _ => hrelease) hE)
    split <;> trivial
  · exact hrelease

/-! ## Attempts -/

theorem fenced_writeAll {R : Progress → Side Books (List Entry) → Prop} (r : Rendering)
    (config : Config) {code : Text} (hcode : isJobCode code) (token : LeaseToken)
    (timeline : List TimelineEvent) (documents : List ParsedReceipt) (progress : Progress)
    (hR : ∀ progress, R progress (.outside mine)) (hE : ∀ e, E e (.outside mine)) :
    Fenced I call R E (writeAll r config code token timeline documents progress) (.outside mine) := by
  induction documents generalizing progress with
  | nil => exact hR progress
  | cons parsed rest ih =>
    obtain ⟨after, heq, hafter⟩ := writeDocument_eq r config hcode token timeline progress parsed
    unfold writeAll
    rw [heq]
    refine Fenced.bind (Fenced.bind (fenced_refreshClaim token ?_ hE))
    exact fenced_idle (hafter _ (.staging token)) (fun progress _ => ih progress) hE

/-- The documents are written outside the lock; how many there are can be written too. -/
theorem fenced_writeDocuments {R : Nat × Text → Side Books (List Entry) → Prop} (r : Rendering)
    (config : Config) {loaded : LoadedSpoolJob} (hcode : isJobCode loaded.jobDir)
    (token : LeaseToken)
    (hR : ∀ (count : Nat) hash, (Json.int count).Writable = true → R (count, hash) (.outside mine))
    (hE : ∀ e, E e (.outside mine)) :
    Fenced I call R E (writeDocuments r config loaded token) (.outside mine) := by
  unfold writeDocuments
  refine Fenced.bind (Fenced.ofExcept (fun analysis _ => ?_) fun e _ => hE e)
  split
  · exact hE _
  refine Fenced.bind (fenced_idle (confined_read _) (fun data _ => ?_) hE)
  refine Fenced.bind (Fenced.ofExcept (fun timeline _ => ?_) fun e _ => hE e)
  refine Fenced.bind (fenced_idle (confined_ensureDirectory (.staging token)) (fun _ _ => ?_) hE)
  refine Fenced.bind (fenced_writeAll r config hcode token timeline _ {} (fun progress => ?_) hE)
  refine Fenced.bind (fenced_idle (confined_removeUnreferencedOutputs (.staging token) _)
    (fun _ _ => ?_) hE)
  refine Fenced.bind (fenced_idle (confined_sha256File _) (fun manifestHash _ => ?_) hE)
  refine Fenced.bind (Fenced.ofExcept (fun data hdata => ?_) fun e _ => hE e)
  refine Fenced.bind (fenced_idle (confined_atomicWriteBytes
    (owned_within (.staging token) isFileName_parsedJson) (fun uuid =>
      owned_within (.staging token) (isFileName_temp isFileName_parsedJson uuid)) data)
    (fun _ _ => ?_) hE)
  refine Fenced.bind (fenced_idle (confined_sha256File _) (fun hash _ => hR _ hash ?_) hE)
  have hwritable := writable_of_jsonBytes hdata
  simp only [parsedMetadata, Json.Writable, Json.WritableFields, Bool.and_eq_true] at hwritable
  exact hwritable.2.2.2.2.2.2.2.1

/-! ## Old outputs -/

theorem iterdir_error {d : JobDir} {dir : Option Text} {e : Error} (h : d.iterdir dir = .error e) :
    ∃ errno, e = .osError errno := by
  cases dir with
  | none => cases h
  | some name =>
    simp only [JobDir.iterdir] at h
    split at h <;> cases h <;> exact ⟨_, rfl⟩

theorem rmdir_error {d : JobDir} {name : Text} {e : Error} (h : d.rmdir name = .error e) :
    ∃ errno, e = .osError errno := by
  unfold JobDir.rmdir at h
  split at h
  · split at h <;> cases h
    exact ⟨_, rfl⟩
  all_goals
    cases h
    exact ⟨_, rfl⟩

theorem unlink_error {d : JobDir} {dir name : Text} {e : Error}
    (h : d.unlink ⟨some dir, name⟩ = .error e) : ∃ errno, e = .osError errno := by
  simp only [JobDir.unlink, JobDir.within] at h
  split at h
  · next files _ =>
    cases hfile : files.lookup name with
    | none =>
      rw [hfile] at h
      cases h
      exact ⟨_, rfl⟩
    | some data =>
      rw [hfile] at h
      cases h
  all_goals
    cases h
    exact ⟨_, rfl⟩

theorem attempt_error {d : JobDir} {fault : Option Errno} {result : Except Error JobDir} {e : Error}
    (h : (attempt fault d result).1 = .error e)
    (hresult : result = .error e → ∃ errno, e = .osError errno) : ∃ errno, e = .osError errno := by
  cases fault with
  | some errno =>
    cases h
    exact ⟨errno, rfl⟩
  | none =>
    cases result with
    | ok d' => cases h
    | error e' =>
      cases h
      exact hresult rfl

/-- Removing a directory fails with an `OSError` only. -/
theorem fenced_rmtree {name : Text} (hname : OutputName name) (side : Side Books (List Entry)) :
    Fenced I call (fun _ side' => side' = side)
      (fun e side' => (∃ errno, e = .osError errno) ∧ side' = side) (rmtree name) side := by
  have hrmdir : Fenced I call (fun _ side' => side' = side)
      (fun e side' => (∃ errno, e = .osError errno) ∧ side' = side) (rmdir name) side := by
    refine Fenced.bind (fenced_confinedOp ⟨by simpa [Op.changes] using hname, by simp [Op.inner],
      by rintro ⟨⟩⟩
      fun d c _ => Fenced.ofExcept (fun _ _ => rfl) fun e he => ⟨attempt_error he rmdir_error, rfl⟩)
  have hunlink : ∀ names, (∀ file ∈ names, IsFileName file) →
      Fenced I call (fun _ side' => side' = side)
        (fun e side' => (∃ errno, e = .osError errno) ∧ side' = side) (unlinkAll name names) side := by
    intro names hnames
    induction names with
    | nil => rfl
    | cons file names ih =>
      refine Fenced.bind (Fenced.bind (fenced_confinedOp ?_ fun d c _ => Fenced.ofExcept
        (fun _ _ => ih fun file hfile => hnames file (List.mem_cons_of_mem _ hfile))
        fun e he => ⟨attempt_error he unlink_error, rfl⟩))
      exact (owned_within hname (hnames file List.mem_cons_self)).confined rfl (by simp [Op.inner])
  refine Fenced.bind (Fenced.bind (fenced_confinedOp (.of_reads rfl rfl (by rintro ⟨⟩)) fun d c hlegal =>
    Fenced.ofExcept (fun names hlist => Fenced.bind ((hunlink names ?_).mono ?_ ?_))
      fun e he => ⟨iterdir_error (show d.iterdir (some name) = .error e from he), rfl⟩))
  · rw [hlist] at hlegal
    exact hlegal
  · rintro _ _ rfl
    exact hrmdir
  · exact fun _ _ h => h

theorem fenced_removeSuperseded {R : Unit → Side Books (List Entry) → Prop} (token : LeaseToken)
    (hR : R () (.inside v)) : Fenced I call R E (removeSuperseded token) (.inside v) := by
  unfold removeSuperseded
  refine Fenced.bind (Fenced.bind (fenced_confinedOp (.of_reads rfl rfl nofun) fun d c _ =>
    Fenced.pure ?_))
  split
  · refine Fenced.tryCatch (Fenced.bind ((fenced_rmtree (.superseded token) (.inside v)).mono ?_ ?_))
    · rintro _ _ rfl
      exact fenced_fsync hR
    · rintro _ _ ⟨⟨errno, rfl⟩, rfl⟩
      exact hR
  · exact hR

/-! ## Claims -/

theorem fenced_takeClaim {R : Claim → Side Books (List Entry) → Prop} {p : Parser}
    (hpid : p.pid < 2 ^ 32) (hn : v.files (StateFile.slot .processing) = none)
    (h : ∀ token data, (∀ u force, .claimed u token force ∉ v.log) →
      R (.claimed token) (.inside (v.set (StateFile.slot .processing) (some (.file data))))) :
    Fenced I call R E (takeClaim p) (.inside v) :=
  Fenced.bind (fenced_uuid4 fun token hfresh => Fenced.bind
    (fenced_createProcessingMarker hpid token hn fun data => h token data hfresh))

/-- A forced claim begins with a job as it was captured, but for what stands in its way. -/
theorem fenced_clearParserOutputs {R : Unit → Side Books (List Entry) → Prop}
    (hplaces : ∀ file : StateFile, NoDir (v.files file.slot))
    (h : R () (.inside (((v.set (StateFile.slot .parsed) none).put call
      (StateFile.slot .parseFailed) none).put call (StateFile.slot .parseAttempts) none)))
    (hE : ∀ e, E e (.inside v)) : Fenced I call R E clearParserOutputs (.inside v) := by
  have hunlink : Fenced I call R E (do
      unlinkParserState .parsed
      unlinkParserState .parseFailed
      unlinkParserState .parseAttempts) (.inside v) := by
    have hcounts : ¬ (StateFile.slot .parsed).Counts := by
      rw [StateFile.counts_slot]
      exact nofun
    refine Fenced.bind (fenced_unlinkParserState (hplaces .parsed) ?_)
    rw [Books.put_eq_set call hcounts]
    refine Fenced.bind (fenced_unlinkParserState ?_ (fenced_unlinkParserState ?_ h))
    · rw [Books.set_files, update_slot (by decide)]
      exact hplaces .parseFailed
    · rw [Books.put_files, update_slot (by decide), Books.set_files, update_slot (by decide)]
      exact hplaces .parseAttempts
  unfold clearParserOutputs
  refine Fenced.bind (fenced_busy (confined_exist _) (fun present _ => ?_) hE)
  dsimp only
  split
  · refine Fenced.bind (fenced_busy (confined_isDir _) (fun directory _ => ?_) hE)
    split
    · exact hE _
    · exact hunlink
  · exact hunlink

/-- Only a forced claim removes the two files, and the books are balanced when it is entered. -/
theorem fenced_claimIdle {p : Parser} (jobDir : Text) (force : Bool) (hpid : p.pid < 2 ^ 32)
    (hv : v.Balanced retry) (hmine : entriesOf call v.log = [])
    (hprocessing : v.files (StateFile.slot .processing) = none) :
    Fenced I call (fun claim side => ∃ v', side = .inside v' ∧ v'.Claims retry call force claim)
      (fun _ side => ∃ v', side = .inside v' ∧ v'.Balanced retry ∧ entriesOf call v'.log = [])
      (claimIdle p jobDir force) (.inside v) := by
  unfold claimIdle
  refine Fenced.bind (fenced_busy (confined_cleanupOrphanParserStaging (fun _ h => h) none)
    (fun _ _ => ?_) fun _ => ⟨v, rfl, hv, hmine⟩)
  split
  · next hforce =>
    subst hforce
    refine Fenced.bind (fenced_clearParserOutputs hv.places ?_ fun _ => ⟨v, rfl, hv, hmine⟩)
    refine fenced_takeClaim hpid ?_ fun token data hfresh => ⟨_, rfl, ?_⟩
    · rw [Books.put_files, update_slot (by decide), Books.put_files, update_slot (by decide),
        Books.set_files, update_slot (by decide)]
      exact hprocessing
    · refine ⟨Books.Orderly.force (Books.Orderly.put (Books.Orderly.put ?_ .parseFailed noDir_none)
        .parseAttempts noDir_none) ?_ ?_ hfresh data, ?_, nofun⟩
      · have hparsed : ¬ (StateFile.slot .parsed).Counts := by
          rw [StateFile.counts_slot]
          exact nofun
        exact (hv.set hparsed noDir_none nofun).toOrderly
      · rw [Books.put_files, Function.update_self]
      · rw [Books.put_files, update_slot (by decide), Books.put_files, Function.update_self]
      · have huntold : v.Untold call := fun e he => by
          rw [hmine] at he
          cases he
        exact (Books.Untold.put (Books.Untold.put (v := v.set _ none) huntold) :)
  · next hforce =>
    refine Fenced.bind (fenced_isFile (n := StateFile.slot .parsed) ?_)
    split
    · refine Fenced.bind (fenced_busy (confined_validateCaptureCommit jobDir) (fun _ _ => ?_)
        fun _ => ⟨v, rfl, hv, hmine⟩)
      exact Fenced.bind (fenced_busy (confined_validateParsedMarker p.config jobDir)
        (fun _ _ => ⟨v, rfl, hv, hmine⟩) fun _ => ⟨v, rfl, hv, hmine⟩)
    refine Fenced.bind (fenced_isFile (n := StateFile.slot .parseFailed) ?_)
    split
    · exact ⟨v, rfl, hv, hmine⟩
    · next hfailed =>
      refine fenced_takeClaim hpid hprocessing fun token data hfresh => ⟨_, rfl, ?_, ?_, ?_⟩
      · rw [Bool.not_eq_true] at hforce
        subst hforce
        exact hv.claim (none_of_not_holdsFile (hv.places .parseFailed) hfailed) hfresh data
      · exact fun e he => absurd (hmine ▸ he) List.not_mem_nil
      · rw [Books.set_files, update_slot (by decide)]
        exact fun _ => ⟨hmine, none_of_not_holdsFile (hv.places .parseFailed) hfailed⟩

/-- The section of a claim. -/
theorem fenced_claimSection {p : Parser} (jobDir : Text) (force : Bool) (hpid : p.pid < 2 ^ 32)
    (hv : v.Balanced retry) (hmine : entriesOf call v.log = []) :
    Fenced I call (fun claim side => ∃ v', side = .inside v' ∧ v'.Claims retry call force claim)
      (fun _ side => ∃ v', side = .inside v' ∧ v'.Balanced retry ∧ entriesOf call v'.log = [])
      (do if ← displaceStale then claimIdle p jobDir force else return .busy) (.inside v) := by
  refine Fenced.bind (fenced_displaceStale (hv.places _) (hv.places _) ⟨v, rfl, hv, hmine⟩
    (fun hfree => fenced_claimIdle jobDir force hpid hv hmine hfree) fun data => ?_)
  have hother : ∀ file ∈ [StateFile.processing, .processingStale], ¬ (file.slot).Counts := by
    intro file hfile
    rw [StateFile.counts_slot]
    rintro (rfl | rfl) <;> exact absurd hfile (by decide)
  have haside := (hv.set (hother .processing (by decide)) noDir_none fun _ _ => rfl).set
    (hother .processingStale (by decide)) (noDir_file data) nofun
  refine fenced_claimIdle jobDir force hpid haside hmine ?_
  rw [Books.set_files, update_slot (by decide), Books.files_set_self]

end Job

namespace Noted

open Job

variable {I : Books → Prop} {call retry : Nat} {α : Type} {v : Books} {mine : List Entry}
  {Q : α → Side Books (List Entry) → Prop} {E : Error → Side Books (List Entry) → Prop}

/-- A call that takes notes, followed along the books. -/
abbrev Fenced (I : Books → Prop) (call : Nat) (Q : α → Side Books (List Entry) → Prop)
    (E : Error → Side Books (List Entry) → Prop) (m : Noted α) (side : Side Books (List Entry)) :
    Prop :=
  Prog.Fenced (booksFence I) Ledger.Exec call Q E m side

/-! ## Notes -/

/-- A note under the lock enters the log. -/
theorem fenced_note {n : Note} {R : Unit → Side Books (List Entry) → Prop} {v' : Books}
    (hexec : ∀ s s', s.books = v → Ledger.Exec call (.note n) s () s' →
      s'.holder = s.holder ∧ s'.books = v')
    (hallowed : (booksFence I).Allowed v v')
    (hother : ∀ u, u ≠ call → entriesOf u v'.log = entriesOf u v.log) (h : R () (.inside v')) :
    Fenced I call R E (Prog.note n) (.inside v) := by
  intro s r s' hat hinv hstep
  obtain ⟨hholder, hview⟩ := hexec s s' hat.2 hstep
  subst hview
  exact ⟨.inside s'.books, .act (hholder.trans hat.1) hallowed hother, h⟩

theorem fenced_claimed {R : Unit → Side Books (List Entry) → Prop} {token : LeaseToken} {force : Bool}
    (hfailed : force = false → v.files (StateFile.slot .parseFailed) = none)
    (h : R () (.inside (v.enter (.claimed call token force)))) :
    Fenced I call R E (Prog.note (.claimed token force)) (.inside v) := by
  refine fenced_note (fun s s' hs hstep => ?_) (fun u token' hlog => ?_)
    (fun u hu => entriesOf_cons_ne (Ne.symm hu) _) h
  · cases hstep
    subst hs
    exact ⟨rfl, rfl⟩
  · cases (List.cons.inj hlog).1
    exact hfailed rfl

theorem fenced_committed {R : Unit → Side Books (List Entry) → Prop}
    (h : R () (.inside (v.enter (.committed call)))) :
    Fenced I call R E (Prog.note .committed) (.inside v) := by
  refine fenced_note (fun s s' hs hstep => ?_) (fun u token hlog => by cases (List.cons.inj hlog).1)
    (fun u hu => entriesOf_cons_ne (Ne.symm hu) _) h
  cases hstep
  subst hs
  exact ⟨rfl, rfl⟩

/-- A failed attempt is entered if its token has the lease. -/
theorem fenced_failing {R : Unit → Side Books (List Entry) → Prop} {token : LeaseToken}
    (hheld : leases (v.files (StateFile.slot .processing)) token = true →
      R () (.inside (v.enter (.failed call))))
    (hlost : leases (v.files (StateFile.slot .processing)) token = false → R () (.inside v)) :
    Fenced I call R E (Prog.note (.failing token)) (.inside v) := by
  cases hlease : leases (v.files (StateFile.slot .processing)) token with
  | true =>
    refine fenced_note (fun s s' hs hstep => ?_)
      (fun u token hlog => by cases (List.cons.inj hlog).1)
      (fun u hu => entriesOf_cons_ne (Ne.symm hu) _) (hheld hlease)
    subst hs
    cases hstep
    exact ⟨rfl, congrArg (Books.mk _) (if_pos hlease)⟩
  | false =>
    refine fenced_note (fun s s' hs hstep => ?_)
      (fun u token hlog => absurd hlog (List.cons_ne_self _ _).symm) (fun _ _ => rfl) (hlost hlease)
    subst hs
    cases hstep
    have hnot : ¬ leases (s.books.files (StateFile.slot .processing)) token = true := by
      rw [hlease]
      exact nofun
    exact ⟨rfl, congrArg (Books.mk _) (if_neg hnot)⟩

theorem fenced_withLock {m : Noted α} (h : ∀ v, I v → entriesOf call v.log = mine →
      Fenced I call ((booksFence I).Restored call Q) ((booksFence I).Restored call E) m (.inside v)) :
    Fenced I call Q E (withLock m) (.outside mine) :=
  Fenced.bind (Fenced.silent (fenced_lock fun v hv hmine =>
    Fenced.section (fun _ hv' _ hR => Fenced.silent (fenced_unlock hv' hR)) (h v hv hmine)))

/-! ## What a call has entered -/

/-- The entries of a call that has claimed the job: its claim, and before a forced one that it has
removed the two files. -/
def Opened (call : Nat) (token : LeaseToken) (force : Bool) (mine : List Entry) : Prop :=
  ∃ before, mine = .claimed call token force :: before ∧ (∀ e ∈ before, e = .changed call) ∧
    (force = false → before = [])

theorem Opened.mem {token : LeaseToken} {force : Bool} (h : Opened call token force mine) :
    .claimed call token force ∈ mine := by
  obtain ⟨before, rfl, -, -⟩ := h
  exact List.mem_cons_self

theorem Opened.not_failed {token : LeaseToken} {force : Bool} (h : Opened call token force mine) :
    .failed call ∉ mine := by
  obtain ⟨before, rfl, hbefore, -⟩ := h
  intro hmem
  rcases List.mem_cons.mp hmem with heq | hmem
  · cases heq
  · cases hbefore _ hmem

/-- The entries of a call after its claim section. -/
def After (call : Nat) (force : Bool) : Claim → List Entry → Prop
  | .claimed token, mine => Opened call token force mine
  | _, mine => mine = []

/-- What a call that has returned has entered. -/
def Settled (call : Nat) (force : Bool) (mine : List Entry) : ProcessStatus → Prop
  | .busy | .alreadyParsed | .claimError => mine = []
  | .parseFailed => mine = [] ∨ ∃ token, .claimed call token force ∈ mine
  | .claimLost => ∃ token, Opened call token force mine
  | .parsed | .retryPending | .failureStateError => ∃ token, .claimed call token force ∈ mine

/-! ## Sections of a call -/

theorem fenced_claimJob {p : Parser} (jobDir : Text) (force : Bool) (hpid : p.pid < 2 ^ 32) :
    Fenced (Books.Balanced retry) call
      (fun claim side => ∃ mine, side = .outside mine ∧ isJobCode jobDir ∧
        After call force claim mine)
      (fun _ side => side = .outside []) (claimJob p jobDir force) (.outside []) := by
  unfold claimJob
  split
  · rfl
  next hcode =>
  have hcode : isJobCode jobDir := by simpa using hcode
  refine Fenced.bind (Fenced.silent (fenced_idle (confined_isFile _) (fun ready _ => ?_)
    fun _ => rfl))
  split
  · rfl
  refine Fenced.bind (Fenced.silent (fenced_idle (confined_iterdir _) (fun names _ => ?_)
    fun _ => rfl))
  refine Fenced.bind (Fenced.silent (fenced_idle (confined_checkPartials _ _ names) (fun _ _ => ?_)
    fun _ => rfl))
  refine fenced_withLock fun v hv hmine => Fenced.bind (Fenced.silent
    ((fenced_claimSection jobDir force hpid hv hmine).mono ?_ ?_))
  · rintro claim _ ⟨v', rfl, hclaims⟩
    cases claim with
    | claimed token =>
      obtain ⟨hbalanced, huntold, hfailed⟩ := hclaims
      refine Fenced.bind (fenced_claimed (fun hforce => (hfailed hforce).2)
        ⟨_, rfl, hbalanced, _, rfl, hcode, _, entriesOf_cons_self rfl _, huntold, fun hforce =>
          (hfailed hforce).1⟩)
    | _ => exact ⟨v', rfl, hclaims.1, _, rfl, hcode, hclaims.2⟩
  · rintro e _ ⟨v', rfl, hbalanced, hmine⟩
    exact ⟨v', rfl, hbalanced, congrArg _ hmine⟩

/-- A call that has claimed the job and not failed yet counts its failure, unless the claim is no
longer its own. -/
theorem fenced_recordFailureIfOwned {config : Config} {token : LeaseToken} {force : Bool}
    (error : Error) (hconfig : config.parserRetryCount ≤ 100)
    (hclaimed : .claimed call token force ∈ mine) (hopen : .failed call ∉ mine) :
    Fenced (Books.Balanced config.parserRetryCount) call
      (fun _ side => ∃ mine', side = .outside mine' ∧ .claimed call token force ∈ mine')
      (fun e side => (∃ message, e = .parserClaimLost message) ∧ side = .outside mine)
      (recordFailureIfOwned config token error) (.outside mine) := by
  refine fenced_withLock fun v hv hmine => ?_
  subst hmine
  have hmem : .claimed call token force ∈ v.log := List.mem_of_mem_filter hclaimed
  have hnot : .failed call ∉ v.log := fun hfailed =>
    hopen (List.mem_filter.mpr ⟨hfailed, decide_eq_true rfl⟩)
  refine Fenced.bind (fenced_failing (fun hheld => ?_) fun hlost => ?_)
  · have hleft : failures v.log ≤ config.parserRetryCount :=
      hv.lease call token force hmem hheld hnot
    have hfailed : v.files (StateFile.slot .parseFailed) = none := by
      rw [← Option.not_isSome_iff_eq_none, hv.failed]
      exact Nat.not_lt.mpr hleft
    refine Fenced.silent (Fenced.bind (fenced_requireCurrentClaim (fun _ => ?_) fun hlost _ => ?_))
    · refine fenced_recordFailure config error hconfig hv.attempts hleft hfailed hv.temps hv.places
        fun data mark hdata hmark hexhausted => ?_
      refine ⟨_, rfl, hv.fail hmem hheld hnot hmark hdata hexhausted, _, rfl, ?_⟩
      exact List.mem_filter.mpr ⟨Books.mem_log_put (Books.mem_log_put (List.mem_cons_of_mem _ hmem)),
        decide_eq_true rfl⟩
    · exact absurd (hlost.symm.trans hheld) nofun
  · refine Fenced.silent (Fenced.bind (fenced_requireCurrentClaim (fun hheld => ?_)
      fun _ message => ⟨v, rfl, hv, ⟨message, rfl⟩, rfl⟩))
    exact absurd (hlost.symm.trans hheld) nofun

/-- A commit publishes the output and removes the two files, or leaves the books. -/
theorem fenced_commitSuccess {config : Config} {jobDir : Text} {token : LeaseToken} {force : Bool}
    {loaded : LoadedSpoolJob} {count : Nat} {metadataHash : Text}
    (hcount : (Json.int count).Writable = true) (hclaimed : .claimed call token force ∈ mine) :
    Fenced (Books.Balanced retry) call
      (fun _ side => ∃ mine', side = .outside mine' ∧ .claimed call token force ∈ mine')
      (fun _ side => side = .outside mine)
      (commitSuccess config jobDir token loaded count metadataHash) (.outside mine) := by
  refine fenced_withLock fun v hv hmine => ?_
  subst hmine
  have hmem : .claimed call token force ∈ v.log := List.mem_of_mem_filter hclaimed
  have herror : ∀ e : Error, (booksFence (Books.Balanced retry)).Restored call
      (fun (_ : Error) side => side = .outside (entriesOf call v.log)) e (.inside v) :=
    fun _ => ⟨v, rfl, hv, rfl⟩
  have hown : ∀ name, OutputName name → OutputName name := fun _ h => h
  refine Fenced.bind (Fenced.silent ?_)
  refine Fenced.bind (fenced_requireCurrentClaim (fun _ => ?_) fun _ _ => herror _)
  refine Fenced.bind (fenced_busy (confined_cleanupOrphanParserStaging hown _) (fun _ _ => ?_) herror)
  refine Fenced.bind (fenced_busy (confined_validateCaptureCommit _) (fun _ _ => ?_) herror)
  refine Fenced.bind (fenced_busy (confined_revalidateLoadedInputs _) (fun _ _ => ?_) herror)
  refine Fenced.bind (fenced_busy (confined_validateParserOutputs ..) (fun _ _ => ?_) herror)
  refine Fenced.bind (fenced_busy (confined_supersede hown _) (fun _ _ => ?_) herror)
  refine Fenced.bind (fenced_busy (confined_swapOutputs hown _) (fun _ _ => ?_) herror)
  refine Fenced.bind (fenced_busy (confined_validateParserOutputs ..) (fun _ _ => ?_) herror)
  refine Fenced.bind (fenced_unlinkParserState (hv.places _) ?_)
  have hfirst : (v.put call (StateFile.slot .parseAttempts) none).Orderly :=
    hv.toOrderly.put .parseAttempts noDir_none
  have hboth : ((v.put call (StateFile.slot .parseAttempts) none).put call
      (StateFile.slot .parseFailed) none).Orderly := hfirst.put .parseFailed noDir_none
  refine Fenced.bind (fenced_unlinkParserState (hfirst.places _) (Fenced.bind (fenced_now
    fun now _ => Fenced.bind (Fenced.ofExcept (fun data _ => ?_) fun e he => ?_))))
  · refine fenced_atomicWriteBytes data (hboth.temps _) (hboth.places _)
      (Fenced.bind (fenced_committed (Fenced.silent (fenced_removeSuperseded token ?_))))
    have hpublished : (((v.put call (StateFile.slot .parseAttempts) none).put call
        (StateFile.slot .parseFailed) none).put call (StateFile.slot .parsed)
        (some (.file data))).Orderly := hboth.put .parsed (noDir_file data)
    have hmarked := hpublished.enter (e := .committed call) nofun
    refine ⟨_, rfl, hmarked.balanced ?_ ?_ rfl, _, rfl, ?_⟩
    · rw [Books.enter_files, Books.put_files, update_slot (by decide), Books.put_files,
        update_slot (by decide), Books.put_files, Function.update_self]
    · rw [Books.enter_files, Books.put_files, update_slot (by decide), Books.put_files,
        Function.update_self]
    · exact List.mem_filter.mpr ⟨List.mem_cons_of_mem _ (Books.mem_log_put (Books.mem_log_put
        (Books.mem_log_put hmem))), decide_eq_true rfl⟩
  · obtain ⟨data, hdata⟩ := jsonBytes_ok (v := parsedMarker loaded.jobDir count metadataHash now) (by
      simpa [parsedMarker, Json.Writable, Json.WritableFields] using hcount)
    exact absurd (hdata.symm.trans he) nofun

/-- An attempt ends with a commit, or leaves the books. -/
theorem fenced_parseClaimed {r : Rendering} {p : Parser} {jobDir : Text} {token : LeaseToken}
    {force : Bool} (hcode : isJobCode jobDir) (hclaimed : .claimed call token force ∈ mine) :
    Fenced (Books.Balanced retry) call
      (fun _ side => ∃ mine', side = .outside mine' ∧ .claimed call token force ∈ mine')
      (fun _ side => side = .outside mine) (parseClaimed r p jobDir token) (.outside mine) := by
  refine Fenced.bind (Fenced.silent ?_)
  refine Fenced.bind (fenced_idle (confined_validateCaptureCommit jobDir) (fun _ _ => ?_) fun _ => rfl)
  refine Fenced.bind (fenced_idle (confined_loadSpoolJob jobDir _) (fun loaded hloaded => ?_)
    fun _ => rfl)
  refine Fenced.bind (fenced_refreshClaim token ?_ fun _ => rfl)
  refine Fenced.bind (fenced_idle (confined_exist _) (fun leftover _ => ?_) fun _ => rfl)
  split
  · rfl
  refine Fenced.bind (fenced_idle (confined_mkdir (.staging token)) (fun _ _ => ?_) fun _ => rfl)
  refine Fenced.bind (fenced_idle confined_fsync (fun _ _ => ?_) fun _ => rfl)
  subst hloaded
  refine Fenced.bind (fenced_writeDocuments r p.config hcode token (fun count hash hcount => ?_)
    fun _ => rfl)
  exact Fenced.bind (fenced_commitSuccess hcount hclaimed)

theorem fenced_reportFailure {p : Parser} (jobDir : Text) {token : LeaseToken} {force : Bool}
    (error : Error) (hconfig : p.config.parserRetryCount ≤ 100)
    (hopened : Opened call token force mine) :
    Fenced (Books.Balanced p.config.parserRetryCount) call
      (fun result side => ∃ mine', side = .outside mine' ∧ Settled call force mine' result.status)
      E (reportFailure p jobDir token error) (.outside mine) := by
  refine Fenced.bind (Fenced.result ((fenced_recordFailureIfOwned error hconfig hopened.mem
    hopened.not_failed).mono ?_ ?_))
  · rintro exhausted _ ⟨mine', rfl, hclaimed⟩
    refine ⟨mine', rfl, ?_⟩
    cases exhausted with
    | true => exact .inr ⟨token, hclaimed⟩
    | false => exact ⟨token, hclaimed⟩
  · rintro _ _ ⟨⟨message, rfl⟩, rfl⟩
    exact ⟨mine, rfl, token, hopened⟩

theorem fenced_processClaimed {r : Rendering} {p : Parser} {jobDir : Text} {token : LeaseToken}
    {force : Bool} (hcode : isJobCode jobDir) (hconfig : p.config.parserRetryCount ≤ 100)
    (hopened : Opened call token force mine) :
    Fenced (Books.Balanced p.config.parserRetryCount) call
      (fun result side => ∃ mine', side = .outside mine' ∧ Settled call force mine' result.status)
      (fun _ _ => True) (processClaimed r p jobDir token) (.outside mine) := by
  have hgiveUp : ∀ (result : ProcessResult) (side : Side Books (List Entry)),
      (∃ mine', side = .outside mine' ∧ Settled call force mine' result.status) →
      Fenced (Books.Balanced p.config.parserRetryCount) call
        (fun _ side => ∃ mine', side = .outside mine' ∧ Settled call force mine' result.status)
        (fun _ _ => True) (Prog.silent (giveUp token)) side := by
    rintro result _ ⟨mine', rfl, hsettled⟩
    exact Fenced.silent (fenced_giveUp token ⟨mine', rfl, hsettled⟩ fun _ => trivial)
  refine Fenced.tryFinally (Fenced.mono (Q := fun result side =>
    ∃ mine', side = .outside mine' ∧ Settled call force mine' result.status) (E := fun _ _ => False)
    ?_ (fun result side h => hgiveUp result side h) fun _ _ h => h.elim)
  refine Fenced.bind (Fenced.result ((fenced_parseClaimed hcode hopened.mem).mono ?_ ?_))
  · rintro count _ ⟨mine', rfl, hclaimed⟩
    exact ⟨mine', rfl, token, hclaimed⟩
  · rintro e _ rfl
    exact fenced_reportFailure jobDir e hconfig hopened

/-- A call leaves the books balanced whenever it gives the lock back, and its result tells what it
has entered. -/
theorem fenced_processJob {r : Rendering} {p : Parser} (jobDir : Text) (force : Bool)
    (hpid : p.pid < 2 ^ 32) (hconfig : p.config.parserRetryCount ≤ 100) :
    Fenced (Books.Balanced p.config.parserRetryCount) call
      (fun result side => ∃ mine, side = .outside mine ∧ Settled call force mine result.status)
      (fun _ _ => True) (processJob r p jobDir force) (.outside []) := by
  refine Fenced.bind (Fenced.result ((fenced_claimJob jobDir force hpid).mono ?_ ?_))
  · rintro claim _ ⟨mine, rfl, hcode, hafter⟩
    cases claim with
    | claimed token => exact fenced_processClaimed hcode hconfig hafter
    | busy | alreadyParsed => exact ⟨mine, rfl, hafter⟩
    | parseFailed => exact ⟨mine, rfl, .inl hafter⟩
  · rintro e _ rfl
    exact ⟨[], rfl, rfl⟩

end Noted

end RchProxy
