import RchProxy.Capture.Control
import RchProxy.Parser.Footprint
import RchProxy.Storage.Tamper

/-!
# Capture evidence

Any number of calls of `process_job` and `reparse_ready_job`, and their heartbeats, side by side on a
spool. Every operation may fail, the lock may be granted to anyone at any time, a claim may look
stale, and a call may crash between two operations: whatever happens, nothing that is not the
parser's changes, in the directory the calls work on or in any other (`evidence_untouched`).
-/

namespace RchProxy

open Py Lib

/-! ## The spool -/

/-- A file or directory with names a directory can hold. -/
def Node.WellNamed : Node → Prop
  | .file _ => True
  | .dir files => ∀ name ∈ files.keys, IsFileName name

/-- A directory with names a directory can hold. -/
def JobDir.WellNamed (d : JobDir) : Prop :=
  ∀ name node, d.lookup name = some node → IsFileName name ∧ node.WellNamed

/-- The directories of captures below the spool root, by their paths: published jobs, and those the
dumper still writes. -/
structure Spool where
  dirs : Path → Option JobDir
  wellNamed : ∀ path d, dirs path = some d → d.WellNamed

/-- An operation on a job directory, beside other programs: it makes the lock file, and may wait for
the lock in vain. -/
def JobDir.execShared (c : Choice) : (op : Op) → JobDir → op.Res × JobDir
  | .lock, d => (!c.timeout,
      match d.lookup lockName with
      | some _ => d
      | none => d.insert lockName (.file []))
  | op, d => d.exec c op

/-! ## What an operation changes -/

/-- The names in a directory below the job are among `inner`, or were in one before. -/
def Node.From (inner : List Text) (d : JobDir) : Node → Prop
  | .file _ => True
  | .dir files => ∀ name ∈ files.keys, name ∈ inner ∨
      ∃ dir old, d.lookup dir = some (.dir old) ∧ name ∈ old.keys

/-- A directory after changes of some of its names. -/
inductive JobDir.Edits (changes inner : List Text) (d : JobDir) : JobDir → Prop where
  | refl : Edits changes inner d d
  | insert {d' : JobDir} {name : Text} {node : Node} (h : Edits changes inner d d')
    (hname : name ∈ changes) (hnode : node.From inner d) :
    Edits changes inner d (d'.insert name node)
  | erase {d' : JobDir} {name : Text} (h : Edits changes inner d d') (hname : name ∈ changes) :
    Edits changes inner d (d'.erase name)

namespace JobDir

variable {d d' : JobDir} {name : Text} {changes inner : List Text}

/-- A name that is not changed keeps its file or directory. -/
theorem Edits.lookup (h : Edits changes inner d d') (hname : name ∉ changes) :
    d'.lookup name = d.lookup name := by
  induction h with
  | refl => rfl
  | insert _ hmem _ ih =>
    rw [AList.lookup_insert_ne (by rintro rfl; exact hname hmem), ih]
  | erase _ hmem ih =>
    rw [AList.lookup_erase_ne (by rintro rfl; exact hname hmem), ih]

theorem Edits.wellNamed (h : Edits changes inner d d') (hd : d.WellNamed)
    (hchanges : ∀ name ∈ changes, IsFileName name) (hinner : ∀ name ∈ inner, IsFileName name) :
    d'.WellNamed := by
  induction h with
  | refl => exact hd
  | @insert d' name node _ hmem hnode ih =>
    intro name' node' hlookup
    by_cases heq : name' = name
    · subst heq
      rw [AList.lookup_insert] at hlookup
      cases hlookup
      refine ⟨hchanges name' hmem, ?_⟩
      cases node with
      | file => trivial
      | dir files =>
        intro m hm
        rcases hnode m hm with hm | ⟨dir, old, hold, hm⟩
        · exact hinner m hm
        · exact (hd dir _ hold).2 m hm
    · rw [AList.lookup_insert_ne heq] at hlookup
      exact ih name' node' hlookup
  | @erase d' name _ hmem ih =>
    intro name' node' hlookup
    by_cases heq : name' = name
    · subst heq
      rw [AList.lookup_erase] at hlookup
      cases hlookup
    · rw [AList.lookup_erase_ne heq] at hlookup
      exact ih name' node' hlookup

/-- A node that was there. -/
theorem from_of_lookup {node : Node} (h : d.lookup name = some node) : node.From inner d := by
  cases node with
  | file => trivial
  | dir files => exact fun m hm => .inr ⟨name, files, h, hm⟩

/-- The files of a directory after one of them was written. -/
theorem from_insert {dir : Text} {files : Dir} {data : Bytes} (h : d.lookup dir = some (.dir files))
    (hname : name ∈ inner) : (Node.dir (files.insert name data)).From inner d := by
  intro m hm
  rcases AList.mem_insert _ |>.mp hm with rfl | hm
  · exact .inl hname
  · exact .inr ⟨dir, files, h, hm⟩

theorem from_erase {dir : Text} {files : Dir} (h : d.lookup dir = some (.dir files)) :
    (Node.dir (files.erase name)).From inner d := fun _ hm =>
  .inr ⟨dir, files, h, (AList.mem_erase.mp hm).2⟩

theorem edits_within {dir : Text} {f : Dir → Except Error Dir} (h : d.within dir f = .ok d')
    (hdir : dir ∈ changes) (hf : ∀ files files', d.lookup dir = some (.dir files) →
      f files = .ok files' → (Node.dir files').From inner d) : Edits changes inner d d' := by
  unfold within at h
  split at h
  · next files hfiles =>
    rw [bind_eq_ok] at h
    obtain ⟨files', hfiles', h⟩ := h
    cases h
    exact Edits.refl.insert hdir (hf files files' hfiles hfiles')
  · cases h
  · cases h

theorem edits_attempt {fault : Option Errno} {result : Except Error JobDir}
    (h : ∀ d', result = .ok d' → Edits changes inner d d') :
    Edits changes inner d (attempt fault d result).2 := by
  unfold attempt
  split
  · exact .refl
  · cases result with
    | ok d' => exact h d' rfl
    | error e => exact .refl

theorem edits_mkdir (h : d.mkdir name = .ok d') : Edits [name] inner d d' := by
  unfold mkdir at h
  split at h
  · cases h
  · cases h
    exact Edits.refl.insert (List.mem_singleton_self _) nofun

theorem edits_create {p : Loc} (h : d.create p = .ok d') :
    Edits [p.top] (Op.inner (.create p)) d d' := by
  rcases p with ⟨_ | dir, name⟩
  · simp only [create] at h
    split at h
    · cases h
    · cases h
      exact Edits.refl.insert (List.mem_singleton_self _) trivial
  · refine edits_within h (List.mem_singleton_self _) fun files files' hfiles hf => ?_
    split at hf
    · cases hf
    · cases hf
      exact from_insert hfiles (List.mem_singleton_self _)

theorem edits_write (p : Loc) (data : Bytes) :
    Edits [p.top] (Op.inner (.write p data)) d (d.write p data) := by
  rcases p with ⟨_ | dir, name⟩
  · simp only [write]
    split
    · exact Edits.refl.insert (List.mem_singleton_self _) trivial
    · exact .refl
  · simp only [write]
    split
    · next files hfiles =>
      split
      · exact Edits.refl.insert (List.mem_singleton_self _)
          (from_insert hfiles (List.mem_singleton_self _))
      · exact .refl
    · exact .refl

theorem edits_store {dir : Text} {data : Bytes} (h : d.store dir name data = .ok d') :
    Edits [dir] [name] d d' := by
  refine edits_within h (List.mem_singleton_self _) fun files files' hfiles hf => ?_
  cases hf
  exact from_insert hfiles (List.mem_singleton_self _)

theorem edits_rename {dir : Option Text} {src dst : Text} (h : d.rename dir src dst = .ok d') :
    Edits (Op.changes (.rename dir src dst)) (Op.inner (.rename dir src dst)) d d' := by
  cases dir with
  | none =>
    have hmove {node : Node} (hnode : d.lookup src = some node) :
        Edits [src, dst] [] d ((d.erase src).insert dst node) :=
      (Edits.refl.erase List.mem_cons_self).insert (List.mem_cons_of_mem _ (List.mem_singleton_self _))
        (from_of_lookup hnode)
    simp only [rename] at h
    split at h
    · cases h
    · cases h
    · cases h
    · next hsrc _ =>
      split at h
      · cases h
        exact hmove hsrc
      · cases h
    · next hsrc _ _ _ =>
      cases h
      exact hmove hsrc
  | some dir =>
    refine edits_within h (List.mem_singleton_self _) fun files files' hfiles hf => ?_
    split at hf
    · cases hf
    · cases hf
      intro m hm
      rcases AList.mem_insert _ |>.mp hm with rfl | hm
      · exact .inl (List.mem_cons_of_mem _ (List.mem_singleton_self _))
      · exact .inr ⟨dir, files, hfiles, (AList.mem_erase.mp hm).2⟩

theorem edits_unlink {p : Loc} (h : d.unlink p = .ok d') :
    Edits [p.top] (Op.inner (.unlink p)) d d' := by
  rcases p with ⟨_ | dir, name⟩
  · simp only [unlink] at h
    split at h
    · cases h
      exact Edits.refl.erase (List.mem_singleton_self _)
    · cases h
    · cases h
  · refine edits_within h (List.mem_singleton_self _) fun files files' hfiles hf => ?_
    split at hf
    · cases hf
      exact from_erase hfiles
    · cases hf

theorem edits_rmdir (h : d.rmdir name = .ok d') : Edits [name] inner d d' := by
  unfold rmdir at h
  split at h
  · split at h
    · cases h
      exact Edits.refl.erase (List.mem_singleton_self _)
    · cases h
  · cases h
  · cases h

/-- An operation edits the names it changes. -/
theorem execShared_edits (c : Choice) (op : Op) (d : JobDir) :
    Edits op.changes op.inner d (d.execShared c op).2 := by
  cases op with
  | mkdir name => exact edits_attempt fun _ => edits_mkdir
  | create p => exact edits_attempt fun _ => edits_create
  | write p data => exact edits_attempt fun d' h => by cases h; exact edits_write p data
  | store dir name data => exact edits_attempt fun _ => edits_store
  | fsync => exact edits_attempt fun d' h => by cases h; exact .refl
  | rename dir src dst => exact edits_attempt fun _ => edits_rename
  | unlink p => exact edits_attempt fun _ => edits_unlink
  | rmdir name => exact edits_attempt fun _ => edits_rmdir
  | utime p =>
    refine edits_attempt fun d' h => ?_
    split at h
    · cases h
      exact .refl
    · cases h
  | lock =>
    simp only [execShared]
    split
    · exact .refl
    · exact Edits.refl.insert (List.mem_singleton_self _) trivial
  | kind | read | iterdir | unlock | uuid4 | now | stale => exact .refl

/-- A listing names what is there. -/
theorem legal_execShared (hd : d.WellNamed) (c : Choice) (op : Op) : op.Legal (d.execShared c op).1 := by
  cases op with
  | iterdir dir =>
    change Op.Legal (.iterdir dir) (d.iterdir dir)
    cases dir with
    | none =>
      intro name hname
      obtain ⟨node, hnode⟩ := Option.isSome_iff_exists.mp (AList.lookup_isSome.mpr hname)
      exact (hd name node hnode).1
    | some dir =>
      simp only [iterdir]
      split
      · next files hfiles => exact (hd dir _ hfiles).2
      · trivial
      · trivial
  | _ => trivial

end JobDir

/-! ## Calls side by side -/

/-- The components of the path an operation uses. -/
def Op.names : Op → List Text
  | .kind p | .read p | .create p | .write p _ | .unlink p | .utime p => p.name :: p.dir.toList
  | .iterdir dir => dir.toList
  | .mkdir name | .rmdir name => [name]
  | .store dir name _ => [dir, name]
  | .rename dir src dst => src :: dst :: dir.toList
  | _ => []

/-- The file or directory under a name. -/
def Spool.entry (s : Spool) (path : Path) (name : Text) : Option Node :=
  (s.dirs path).bind fun d => d.lookup name

/-- One operation of a program on the directory at `path`. A component that is no file name leads
elsewhere: what the operation finds or changes there is not said. -/
inductive Spool.Exec (path : Path) : (op : Op) → Spool → op.Res → Spool → Prop where
  | inside {op : Op} {s s' : Spool} {d : JobDir} (c : Choice)
    (hnames : ∀ name ∈ op.names, IsFileName name) (hd : s.dirs path = some d)
    (hdirs : s'.dirs = Function.update s.dirs path (some (d.execShared c op).2)) :
    Exec path op s (d.execShared c op).1 s'
  | absent {op : Op} {s : Spool} {r : op.Res} (hd : s.dirs path = none) (hr : op.Legal r) :
    Exec path op s r s
  | outside {op : Op} {s s' : Spool} {r : op.Res} (hnames : ¬ ∀ name ∈ op.names, IsFileName name)
    (hreads : op.changes = [] → s' = s) (hr : op.Legal r) : Exec path op s r s'

/-- What the parser runs on a job: a worker's call and its heartbeats, and an operator's. -/
inductive ParserCall (jobDir : Text) : Job Unit → Prop where
  | process (r : Rendering) (p : Parser) (force : Bool) :
    ParserCall jobDir ((fun _ => ()) <$> Job.processJob r p jobDir force)
  | heartbeat (token : LeaseToken) : ParserCall jobDir (Job.refreshClaim token)
  | reparse (r : Rendering) (p : Parser) (dryRun backupExisting : Bool) (codeFilter : Option Text)
    (now : Int) : ParserCall jobDir
      ((fun _ => ()) <$> Job.reparseReadyJob r p jobDir dryRun backupExisting codeFilter now)

/-- The calls on the directories in `on`. -/
def StartsOn (on : Path → Prop) (path : Path) (m : Job Unit) : Prop :=
  on path ∧ ∃ jobDir parent, path = jobDir :: parent ∧ ParserCall jobDir m

/-- A spool with parser calls at work in it. -/
abbrev ParserSystem := Threads Op Op.Res Error Unit Path Spool

/-- The states reached by any calls on the directories in `on`, in any order, with crashes. -/
abbrev ParserReaches (on : Path → Prop) : ParserSystem → ParserSystem → Prop :=
  Threads.Reaches (StartsOn on) Spool.Exec

theorem ParserCall.confined {jobDir : Text} {m : Job Unit} (h : ParserCall jobDir m) :
    Job.Confined ParserOwned m := by
  cases h with
  | process r p force =>
    exact Prog.Calls.map ((Job.confined_processJob r p jobDir force).mono fun _ _ => trivial)
  | heartbeat token => exact Job.confined_refreshClaim ParserOwned.claiming token
  | reparse r p dryRun backupExisting codeFilter now =>
    exact Prog.Calls.map ((Job.confined_reparseReadyJob r p jobDir dryRun backupExisting codeFilter
      now).mono fun _ _ => trivial)

/-- The components of an operation that changes something are among those it changes and those
below. -/
theorem Op.Confined.names {op : Op} (h : op.Confined ParserOwned) (hchanges : op.changes ≠ []) :
    ∀ name ∈ op.names, IsFileName name := by
  have hsubset : ∀ name ∈ op.names, name ∈ op.changes ∨ name ∈ op.inner := by
    cases op with
    | create p | write p | unlink p | utime p =>
      rcases p with ⟨_ | d, name⟩ <;> simp [Op.names, Op.changes, Op.inner, Loc.top]
    | rename dir src dst => cases dir <;> simp [Op.names, Op.changes, Op.inner]
    | mkdir | rmdir | store | lock => simp [Op.names, Op.changes, Op.inner]
    | _ => exact absurd rfl hchanges
  intro name hname
  rcases hsubset name hname with hname | hname
  · exact (h.changes name hname).isFileName
  · exact h.inner name hname

/-- What is the same in two spools: the directories no call works on, and what is not the parser's in
the others. -/
structure Spool.Same (on : Path → Prop) (s s' : Spool) : Prop where
  dirs : ∀ path, ¬ on path → s'.dirs path = s.dirs path
  entry : ∀ path name, ¬ ParserOwned name → s'.entry path name = s.entry path name

/-- An operation of the parser leaves everything else, and gets an answer of a directory. -/
theorem Spool.Exec.same {on : Path → Prop} {path : Path} {op : Op} {s s' : Spool} {r : op.Res}
    (h : Exec path op s r s') (hpath : on path) (hop : op.Confined ParserOwned) : Same on s s' ∧ op.Legal r := by
  cases h with
  | @inside _ d c hnames hd hdirs =>
    refine ⟨⟨fun path' hpath' => ?_, fun path' name hname => ?_⟩,
      JobDir.legal_execShared (s.wellNamed path d hd) c op⟩
    · rw [hdirs, Function.update_of_ne (by rintro rfl; exact hpath' hpath)]
    · by_cases heq : path' = path
      · subst heq
        have hlookup := (d.execShared_edits c op).lookup fun hmem => hname (hop.changes name hmem)
        simp only [Spool.entry, hdirs, Function.update_self, hd, Option.bind_some, hlookup]
      · simp only [Spool.entry, hdirs, Function.update_of_ne heq]
  | absent hd hr => exact ⟨⟨fun _ _ => rfl, fun _ _ _ => rfl⟩, hr⟩
  | outside hnames hreads hr =>
    have heq := hreads (by
      by_contra hchanges
      exact hnames (hop.names hchanges))
    subst heq
    exact ⟨⟨fun _ _ => rfl, fun _ _ _ => rfl⟩, hr⟩

theorem Spool.Same.trans {on : Path → Prop} {s₁ s₂ s₃ : Spool} (h : Same on s₁ s₂)
    (h' : Same on s₂ s₃) : Same on s₁ s₃ :=
  ⟨fun path hpath => (h'.dirs path hpath).trans (h.dirs path hpath),
    fun path name hname => (h'.entry path name hname).trans (h.entry path name hname)⟩

/-- Whatever the calls do, in whatever order, the spool stays the same but for what is the
parser's. -/
theorem ParserReaches.same {on : Path → Prop} {a b : ParserSystem} (h : ParserReaches on a b)
    (ha : a.running = []) : Spool.Same on a.state b.state := by
  refine Threads.invariant (P := fun path op => on path ∧ op.Confined ParserOwned) (L := Op.Legal)
    (I := fun s => Spool.Same on a.state s) ?_ ?_ h ⟨fun _ _ => rfl, fun _ _ _ => rfl⟩ ?_
  · rintro path m ⟨hpath, jobDir, parent, -, hcall⟩
    exact hcall.confined.weaken fun op hop => ⟨hpath, hop⟩
  · rintro path op s r s' hsame ⟨hpath, hop⟩ hexec
    obtain ⟨hsame', hlegal⟩ := hexec.same hpath hop
    exact ⟨hsame.trans hsame', hlegal⟩
  · intro p hp
    rw [ha] at hp
    cases hp

/-! ## The evidence of a job -/

/-- The directory the dumper writes a capture in. -/
def captureStaging (code jobId : Text) : Text := '.' :: code ++ '.' :: jobId ++ ".partial".toList

/-- The names of the evidence in a job directory. -/
def evidenceNames (names : FileNames) : List Text :=
  [names.requestRaw, names.responseRaw, names.timeline, "manifest.json".toList, ".ready".toList]

theorem not_parserOwned_evidence {job : CapturedJob} {names : FileNames}
    (hnames : finalNames job = .ok names) : ∀ name ∈ evidenceNames names, ¬ ParserOwned name := by
  simp only [finalNames, bind_eq_ok] at hnames
  obtain ⟨request, -, response, -, hnames⟩ := hnames
  cases hnames
  intro name hname howned
  obtain ⟨rest, hstart⟩ := howned.start
  simp only [evidenceNames, List.mem_cons, List.not_mem_nil, or_false] at hname
  rcases hname with rfl | rfl | rfl | rfl | rfl <;>
    rcases hstart with h | h | h | h <;> cases h

/-- Whatever calls of the parser work on a published job, in any order, with any failure or crash:
its evidence, every other directory and in particular the dumper's staging directories are what they
were. -/
theorem evidence_untouched {job : CapturedJob} {names : FileNames} {code : Text} {parent : Path}
    (hnames : finalNames job = .ok names) (hcode : isJobCode code) {a b : ParserSystem}
    (ha : a.running = []) (h : ParserReaches (· = code :: parent) a b) :
    (∀ name ∈ evidenceNames names,
      b.state.entry (code :: parent) name = a.state.entry (code :: parent) name) ∧
    (∀ path, path ≠ code :: parent → b.state.dirs path = a.state.dirs path) ∧
    ∀ path code jobId, b.state.dirs (captureStaging code jobId :: path) =
      a.state.dirs (captureStaging code jobId :: path) := by
  have hsame := h.same ha
  refine ⟨fun name hname => hsame.entry _ name (not_parserOwned_evidence hnames name hname),
    hsame.dirs, fun path code' jobId => hsame.dirs _ ?_⟩
  intro heq
  -- A job code has no dot.
  obtain ⟨hstaging, -⟩ := List.cons_eq_cons.mp heq
  rw [← hstaging] at hcode
  simp [isJobCode, captureStaging] at hcode

/-! ## A run -/

/-- A directory of empty files. -/
def emptyFiles (names : List Text) : JobDir :=
  names.foldr (fun name d => d.insert name (.file [])) ∅

theorem emptyFiles_wellNamed {names : List Text} (h : ∀ name ∈ names, IsFileName name) :
    (emptyFiles names).WellNamed := by
  have hedits : JobDir.Edits names [] ∅ (emptyFiles names) := by
    have hsubset : ∀ some ⊆ names, JobDir.Edits names [] ∅ (emptyFiles some) := by
      intro some hsome
      induction some with
      | nil => exact .refl
      | cons name rest ih =>
        exact (ih fun n hn => hsome (List.mem_cons_of_mem _ hn)).insert (hsome List.mem_cons_self)
          trivial
    exact hsubset names fun _ hn => hn
  exact hedits.wellNamed (fun _ _ hlookup => by cases hlookup) h nofun

/-- The path of the sample job. -/
def samplePath : Path := ["0001".toList]

/-- A spool with one directory. -/
def singleSpool (d : JobDir) (hd : d.WellNamed) : Spool where
  dirs := Function.update (fun _ => none) samplePath (some d)
  wellNamed := by
    intro path d' hd'
    by_cases heq : path = samplePath
    · subst heq
      rw [Function.update_self] at hd'
      cases hd'
      exact hd
    · rw [Function.update_of_ne heq] at hd'
      cases hd'

theorem sampleNames_wellNamed : (emptyFiles (evidenceNames sampleNames)).WellNamed := by
  refine emptyFiles_wellNamed fun name hname => ?_
  simp only [evidenceNames, List.mem_cons, List.not_mem_nil, or_false] at hname
  rcases hname with rfl | rfl | rfl | rfl | rfl <;>
    exact ⟨by decide, by decide, by decide, by decide⟩

/-- A heartbeat takes the lock of the sample job and crashes. -/
theorem evidence_untouched_heartbeat :
    ∃ a b : ParserSystem, ParserReaches (· = samplePath) a b ∧
      b.state.entry samplePath lockName = some (.file []) ∧
      a.state.entry samplePath lockName = none ∧
      ∀ name ∈ evidenceNames sampleNames,
        b.state.entry samplePath name = a.state.entry samplePath name := by
  let d := emptyFiles (evidenceNames sampleNames)
  let d' := (d.execShared .quiet .lock).2
  have hd' : d'.WellNamed := (d.execShared_edits .quiet .lock).wellNamed sampleNames_wellNamed
    (fun name hname => by
      rw [List.mem_singleton.mp hname]
      exact ParserOwned.lock.isFileName) nofun
  let s := singleSpool d sampleNames_wellNamed
  let s' := singleSpool d' hd'
  obtain ⟨next, hcall⟩ : ∃ next, Job.refreshClaim Choice.quiet.uuid = .call .lock next := ⟨_, rfl⟩
  have hstart : Threads.Step (StartsOn (· = samplePath)) Spool.Exec ⟨s, []⟩
      ⟨s, [(samplePath, .call .lock next)]⟩ :=
    .start ⟨rfl, _, _, rfl, hcall ▸ .heartbeat _⟩
  have hexec : Spool.Exec samplePath .lock s (d.execShared .quiet .lock).1 s' :=
    .inside .quiet nofun (by simp [s, singleSpool]) (by
      funext path
      by_cases heq : path = samplePath
      · subst heq
        simp [s', singleSpool, d']
      · simp [s, s', singleSpool, Function.update_of_ne heq])
  have hturn : Threads.Step (StartsOn (· = samplePath)) Spool.Exec
      ⟨s, [] ++ (samplePath, .call .lock next) :: []⟩ ⟨s', [] ++ (samplePath, next _) :: []⟩ :=
    .turn hexec
  have hstop : Threads.Step (StartsOn (· = samplePath)) Spool.Exec
      ⟨s', [] ++ (samplePath, next (d.execShared .quiet .lock).1) :: []⟩ ⟨s', [] ++ []⟩ := .stop
  have hreach : ParserReaches (· = samplePath) ⟨s, []⟩ ⟨s', []⟩ :=
    ((Relation.ReflTransGen.single hstart).tail hturn).tail hstop
  have hnames : finalNames (Connection.newJob (Connection.sampleSession .abort) 1000000000
      Connection.sampleClock) = .ok sampleNames := by decide
  refine ⟨_, _, hreach, ?_, ?_, (evidence_untouched hnames (by decide) rfl hreach).1⟩
  · rfl
  · rfl

end RchProxy
