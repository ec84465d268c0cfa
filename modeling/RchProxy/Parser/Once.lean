import Mathlib.Data.Char
import Mathlib.Data.List.Lex
import RchProxy.Lib.Pool
import RchProxy.Parser.Evidence
import RchProxy.Storage.Spool

/-!
# One pass over the spool

`discover_ready_jobs` of `storage/spool.py` and `run_once` of `parser/worker.py`: the jobs of a
snapshot are handed to a pool of workers. Jobs do not meet: each one comes to what it would come to
alone, so the number of workers does not show in what a pass comes to (`runOnce_iff`). The heartbeats
of the calls are left out.
-/

namespace RchProxy

open Py Lib Lib.Prog

/-- The directories below the spool root, by their paths. -/
abbrev SpoolDirs := Path → Option JobDir

/-- One operation on the directory of a job, if it is there. -/
def JobDir.execAt (c : Choice) (op : Op) : Option JobDir → op.Res × Option JobDir
  | some d => ((d.execShared c op).1, some (d.execShared c op).2)
  | none => (op.missing c, none)

/-! ## The snapshot -/

/-- The `.ready` entries of a spool, by the directories they are in, as `rglob` finds them. -/
structure Walk (dirs : SpoolDirs) where
  markers : List Path
  nodup : markers.Nodup
  mem_iff : ∀ path, path ∈ markers ↔ ∃ d, dirs path = some d ∧ (d.lookup ".ready".toList).isSome

/-- The test of a directory with a marker. -/
def isJobPath (dirs : SpoolDirs) : Path → Bool
  | [] => false
  | name :: parent => (dirs (name :: parent)).isSome && isJobCode name

/-- The error of a limit that is passed. -/
def limitExceeded (maximum : Nat) : Error :=
  .runtimeError s!"ready job discovery limit exceeded ({maximum})"

/-- The loop of `discover_ready_jobs`. -/
def collectJobs (dirs : SpoolDirs) (maximum : Nat) : List Path → List Path → Except Error (List Path)
  | [], jobs => .ok jobs
  | path :: markers, jobs =>
    if maximum ≤ jobs.length then .error (limitExceeded maximum)
    else if isJobPath dirs path then collectJobs dirs maximum markers (jobs ++ [path])
    else collectJobs dirs maximum markers jobs

/-- `sorted`, of paths: by their parts. -/
def sortedPaths (paths : List Path) : List Path :=
  paths.mergeSort fun a b => decide (a.reverse ≤ b.reverse)

/-- `discover_ready_jobs`. -/
def discoverReadyJobs (dirs : SpoolDirs) (markers : List Path) (maximum : Nat) :
    Except Error (List Path) := do
  return sortedPaths (← collectJobs dirs maximum markers [])

/-- The default of `maximum`. -/
def discoveryMaximum : Nat := 10000

/-! ## The pass -/

/-- The name of a job directory. -/
def jobName (path : Path) : Text := path.headD []

/-- The workers of a pass: a comprehension goes through the jobs one by one. -/
def poolSize (workers : Nat) (jobs : List Path) : Nat :=
  if workers ≤ 1 ∨ jobs.length ≤ 1 then 1 else workers

/-- The calls of a pass. -/
def passTasks (r : Rendering) (p : Parser) (jobs : List Path) : List (Path × Job ProcessResult) :=
  jobs.map fun job => (job, Job.processJob r p (jobName job) false)

/-- `run_once`: what it comes to, and the spool it leaves. -/
inductive RunOnce (r : Rendering) (p : Parser) (workers : Nat) (dirs : SpoolDirs)
    (markers : List Path) : Except Error (List ProcessResult) → SpoolDirs → Prop where
  | unlisted {e : Error} (h : discoverReadyJobs dirs markers discoveryMaximum = .error e) :
    RunOnce r p workers dirs markers (.error e) dirs
  | listed {jobs : List Path} {dirs' : SpoolDirs} {outcomes : Path → Option (Except Error ProcessResult)}
    {results : List ProcessResult}
    (h : discoverReadyJobs dirs markers discoveryMaximum = .ok jobs)
    (hpool : Pool.Reaches JobDir.execAt (poolSize workers jobs)
      ⟨dirs, passTasks r p jobs, [], fun _ => none⟩ ⟨dirs', [], [], outcomes⟩)
    (hresults : jobs.map outcomes = results.map fun result => some (.ok result)) :
    RunOnce r p workers dirs markers (.ok results) dirs'
  | raised {jobs : List Path} {b : Pool Op Op.Res Error ProcessResult Path (Option JobDir)}
    {job : Path} {e : Error} (h : discoverReadyJobs dirs markers discoveryMaximum = .ok jobs)
    (hpool : Pool.Reaches JobDir.execAt (poolSize workers jobs)
      ⟨dirs, passTasks r p jobs, [], fun _ => none⟩ b)
    (herror : b.results job = some (.error e)) :
    RunOnce r p workers dirs markers (.error e) b.state

/-! ## What the snapshot holds -/

/-- The jobs of a snapshot. -/
def readyJobs (dirs : SpoolDirs) (markers : List Path) : List Path :=
  sortedPaths (markers.filter (isJobPath dirs))

/-- There are too many jobs: the limit is looked at again for every marker. -/
def Overflows (dirs : SpoolDirs) (markers : List Path) (maximum : Nat) : Prop :=
  markers ≠ [] ∧ maximum ≤ (markers.dropLast.filter (isJobPath dirs)).length

/-- A published job: its directory has the marker, and is named by its code. -/
def IsReadyJob (dirs : SpoolDirs) (path : Path) : Prop :=
  ∃ d name parent, path = name :: parent ∧ isJobCode name = true ∧ dirs path = some d ∧
    (d.lookup ".ready".toList).isSome

theorem isJobPath_iff {dirs : SpoolDirs} {path : Path} : isJobPath dirs path = true ↔
    ∃ d name parent, path = name :: parent ∧ isJobCode name = true ∧ dirs path = some d := by
  cases path with
  | nil => simp [isJobPath]
  | cons name parent =>
    rw [isJobPath, Bool.and_eq_true, Option.isSome_iff_exists]
    constructor
    · rintro ⟨⟨d, hd⟩, hcode⟩
      exact ⟨d, name, parent, rfl, hcode, hd⟩
    · rintro ⟨d, name', parent', heq, hcode, hd⟩
      cases heq
      exact ⟨⟨d, hd⟩, hcode⟩

theorem sortedPaths_perm (paths : List Path) : (sortedPaths paths).Perm paths :=
  List.mergeSort_perm _ _

theorem mem_readyJobs {dirs : SpoolDirs} (walk : Walk dirs) {path : Path} :
    path ∈ readyJobs dirs walk.markers ↔ IsReadyJob dirs path := by
  rw [readyJobs, (sortedPaths_perm _).mem_iff, List.mem_filter, isJobPath_iff, walk.mem_iff]
  constructor
  · rintro ⟨⟨d, hd, hready⟩, d', name, parent, hpath, hcode, hd'⟩
    exact ⟨d, name, parent, hpath, hcode, hd, hready⟩
  · rintro ⟨d, name, parent, hpath, hcode, hd, hready⟩
    exact ⟨⟨d, hd, hready⟩, d, name, parent, hpath, hcode, hd⟩

theorem readyJobs_nodup {dirs : SpoolDirs} (walk : Walk dirs) :
    (readyJobs dirs walk.markers).Nodup :=
  (sortedPaths_perm _).nodup_iff.mpr (walk.nodup.filter _)

theorem collectJobs_eq (dirs : SpoolDirs) (maximum : Nat) (markers jobs : List Path) :
    collectJobs dirs maximum markers jobs = .error (limitExceeded maximum) ∧
        markers ≠ [] ∧ maximum ≤ jobs.length + (markers.dropLast.filter (isJobPath dirs)).length ∨
      collectJobs dirs maximum markers jobs = .ok (jobs ++ markers.filter (isJobPath dirs)) ∧
        ¬ (markers ≠ [] ∧
          maximum ≤ jobs.length + (markers.dropLast.filter (isJobPath dirs)).length) := by
  induction markers generalizing jobs with
  | nil => exact .inr ⟨by simp [collectJobs], fun h => h.1 rfl⟩
  | cons path markers ih =>
    unfold collectJobs
    split
    · next hfull => exact .inl ⟨rfl, List.cons_ne_nil _ _, by omega⟩
    · next hroom =>
      cases markers with
      | nil =>
        refine .inr ⟨?_, fun h => hroom (by simpa using h.2)⟩
        split
        · next hjob => simp [collectJobs, hjob]
        · next hjob => simp [collectJobs, hjob]
      | cons next rest =>
        rw [List.dropLast_cons_cons]
        split
        · next hjob =>
          have hih := ih (jobs ++ [path])
          rw [List.filter_cons_of_pos hjob, List.filter_cons_of_pos hjob]
          simpa [Nat.add_assoc, Nat.add_comm 1] using hih
        · next hjob =>
          have hih := ih jobs
          rw [List.filter_cons_of_neg hjob, List.filter_cons_of_neg hjob]
          simpa using hih

/-- The snapshot, or the limit is passed. -/
theorem discoverReadyJobs_cases (dirs : SpoolDirs) (markers : List Path) (maximum : Nat) :
    discoverReadyJobs dirs markers maximum = .error (limitExceeded maximum) ∧
        Overflows dirs markers maximum ∨
      discoverReadyJobs dirs markers maximum = .ok (readyJobs dirs markers) ∧
        ¬ Overflows dirs markers maximum := by
  have h := collectJobs_eq dirs maximum markers []
  simp only [List.length_nil, Nat.zero_add, List.nil_append] at h
  rcases h with ⟨herror, hover⟩ | ⟨hok, hroom⟩
  · exact .inl ⟨by rw [discoverReadyJobs, herror]; rfl, hover⟩
  · exact .inr ⟨by rw [discoverReadyJobs, hok]; rfl, hroom⟩

/-! ## The order of a walk -/

theorem sortedPaths_eq_of_perm {paths paths' : List Path} (h : paths.Perm paths') :
    sortedPaths paths = sortedPaths paths' := by
  have hsorted : ∀ paths : List Path, (sortedPaths paths).Pairwise fun a b => a.reverse ≤ b.reverse := by
    intro paths
    refine (List.pairwise_mergeSort (fun a b c hab hbc => ?_) (fun a b => ?_) paths).imp
      fun hab => of_decide_eq_true hab
    · exact decide_eq_true ((of_decide_eq_true hab).trans (of_decide_eq_true hbc))
    · rw [Bool.or_eq_true, decide_eq_true_iff, decide_eq_true_iff]
      exact le_total _ _
  exact List.Perm.eq_of_pairwise
    (fun a b _ _ hab hba => List.reverse_injective (le_antisymm hab hba)) (hsorted _) (hsorted _)
    (((sortedPaths_perm _).trans h).trans (sortedPaths_perm _).symm)

theorem Walk.perm {dirs : SpoolDirs} (walk walk' : Walk dirs) : walk.markers.Perm walk'.markers := by
  refine (List.perm_ext_iff_of_nodup walk.nodup walk'.nodup).mpr fun path => ?_
  rw [walk.mem_iff, walk'.mem_iff]

/-- A snapshot does not depend on the order in which the markers are found. -/
theorem readyJobs_eq {dirs : SpoolDirs} (walk walk' : Walk dirs) :
    readyJobs dirs walk.markers = readyJobs dirs walk'.markers :=
  sortedPaths_eq_of_perm ((walk.perm walk').filter _)

/-- The number of jobs before the last marker. -/
theorem length_readyJobs_concat (dirs : SpoolDirs) (markers : List Path) (path : Path) :
    (readyJobs dirs (markers ++ [path])).length =
      (markers.filter (isJobPath dirs)).length + if isJobPath dirs path then 1 else 0 := by
  rw [readyJobs, (sortedPaths_perm _).length_eq, List.filter_append, List.length_append]
  split
  · next hjob => rw [List.filter_cons_of_pos hjob]; rfl
  · next hjob => rw [List.filter_cons_of_neg hjob]; rfl

/-- Whether the limit is passed depends on the last marker that is found. -/
theorem overflows_concat_iff {dirs : SpoolDirs} {markers : List Path} {path : Path} {maximum : Nat} :
    Overflows dirs (markers ++ [path]) maximum ↔
      maximum + (if isJobPath dirs path then 1 else 0) ≤
        (readyJobs dirs (markers ++ [path])).length := by
  rw [length_readyJobs_concat, Overflows, List.dropLast_concat]
  constructor
  · rintro ⟨-, h⟩
    omega
  · intro h
    exact ⟨List.concat_ne_nil _ _, by omega⟩

/-- A walk that finds a marker last. -/
def Walk.endingIn {dirs : SpoolDirs} (walk : Walk dirs) {path : Path} (h : path ∈ walk.markers) :
    Walk dirs where
  markers := walk.markers.erase path ++ [path]
  nodup := ((List.perm_append_singleton path _).trans (List.perm_cons_erase h).symm).nodup_iff.mpr
    walk.nodup
  mem_iff path' := by
    rw [((List.perm_append_singleton path _).trans (List.perm_cons_erase h).symm).mem_iff,
      walk.mem_iff]

theorem length_readyJobs {dirs : SpoolDirs} (walk walk' : Walk dirs) :
    (readyJobs dirs walk.markers).length = (readyJobs dirs walk'.markers).length :=
  congrArg List.length (readyJobs_eq walk walk')

theorem Walk.overflows_endingIn_iff {dirs : SpoolDirs} (walk : Walk dirs) {path : Path}
    (h : path ∈ walk.markers) {maximum : Nat} :
    Overflows dirs (walk.endingIn h).markers maximum ↔
      maximum + (if isJobPath dirs path then 1 else 0) ≤ (readyJobs dirs walk.markers).length := by
  rw [length_readyJobs walk (walk.endingIn h)]
  exact overflows_concat_iff

/-- Away from the limit, or without markers that are no job's, the order of the walk does not show. -/
theorem Walk.overflows_iff {dirs : SpoolDirs} (walk : Walk dirs) {maximum : Nat}
    (h : (readyJobs dirs walk.markers).length ≠ maximum ∨
      ∀ path ∈ walk.markers, isJobPath dirs path = true) (walk' : Walk dirs) :
    Overflows dirs walk'.markers maximum ↔ maximum < (readyJobs dirs walk.markers).length := by
  rw [length_readyJobs walk walk']
  rcases List.eq_nil_or_concat' walk'.markers with hnil | ⟨markers, path, hconcat⟩
  · rw [hnil]
    constructor
    · rintro ⟨hne, -⟩
      exact absurd rfl hne
    · intro hlt
      rw [readyJobs, (sortedPaths_perm _).length_eq] at hlt
      exact absurd hlt (Nat.not_lt_zero _)
  · have hpath : path ∈ walk.markers := by
      rw [(walk.perm walk').mem_iff, hconcat]
      exact List.mem_append_right _ (List.mem_singleton_self _)
    rw [length_readyJobs walk walk'] at h
    rw [hconcat] at h ⊢
    rw [overflows_concat_iff]
    rcases h with hne | hjobs
    · split <;> omega
    · rw [if_pos (hjobs path hpath)]
      exact Iff.rfl

/-- A spool with markers in equal directories. -/
def Walk.uniform (markers : List Path) (hnodup : markers.Nodup) {d : JobDir}
    (hready : (d.lookup ".ready".toList).isSome) :
    Walk fun path => if path ∈ markers then some d else none where
  markers := markers
  nodup := hnodup
  mem_iff path := by
    constructor
    · intro hpath
      exact ⟨d, if_pos hpath, hready⟩
    · rintro ⟨d', hd', -⟩
      by_contra hpath
      rw [if_neg hpath] at hd'
      cases hd'

namespace Job

/-- Whatever the program raises is an `OSError`. -/
abbrev OnlyOs {α : Type} (m : Job α) : Prop :=
  ∀ v, Safe JobDir.execAt (fun _ => True) (fun _ _ => True) (fun e _ => ∃ errno, e = .osError errno) m v

/-- Whatever the program meets, it returns. -/
abbrev Settles {α : Type} (m : Job α) : Prop :=
  ∀ v, Safe JobDir.execAt (fun _ => True) (fun _ _ => True) (fun _ _ => False) m v

theorem Settles.bind {α β : Type} {m : Job α} {f : α → Job β} (h : Settles m)
    (hf : ∀ a, Settles (f a)) : Settles (m >>= f) := fun v =>
  Safe.bind (Safe.mono (h v) (fun a v' _ _ => hf a v') fun _ _ _ he => he)

theorem Settles.pure {α : Type} (a : α) : Settles (Pure.pure a : Job α) := fun _ => ⟨.intro, .intro⟩

theorem settles_perform (op : Op) : Settles (Prog.perform op : Job op.Res) := fun _ =>
  ⟨.intro, fun _ => ⟨.intro, .intro⟩⟩

theorem settles_result {α : Type} (m : Job α) : Settles m.result := fun v =>
  Safe.result (Safe.mono (Safe.trivial m v) (fun _ _ _ h => h) fun _ _ _ _ => .intro)

theorem settles_isDir (p : Loc) : Settles (isDir p) :=
  (settles_perform (.kind p)).bind fun _ => .pure _

theorem OnlyOs.seq {α β : Type} {m : Job α} {f : α → Job β} (h : OnlyOs m)
    (hf : ∀ a, OnlyOs (f a)) : OnlyOs (m >>= f) := fun v =>
  Safe.bind (Safe.mono (h v) (fun a v' _ _ => hf a v') fun _ _ _ he => he)

/-- An operation of the directory that raises its error. -/
theorem onlyOs_attempt {α : Type} {op : Op} (hres : op.Res = Except Error α)
    (h : ∀ c v e, cast hres (JobDir.execAt c op v).1 = .error e → ∃ errno, e = .osError errno) :
    OnlyOs (Prog.perform op >>= fun r => Prog.ofExcept (cast hres r)) := fun v =>
  ⟨.intro, fun c => Safe.ofExcept .intro (fun _ _ => .intro) fun e he => h c v e he⟩

theorem attempt_osError {fault : Option Errno} {d : JobDir} {result : Except Error JobDir} {e : Error}
    (hresult : ∀ e, result = .error e → ∃ errno, e = .osError errno)
    (h : (attempt fault d result).1 = .error e) : ∃ errno, e = .osError errno := by
  cases fault with
  | some errno =>
    cases h
    exact ⟨errno, rfl⟩
  | none =>
    cases result with
    | ok d' => cases h
    | error e' =>
      cases h
      exact hresult _ rfl

theorem onlyOs_fsync : OnlyOs fsync := by
  refine @onlyOs_attempt _ .fsync rfl fun c v e h => ?_
  cases v with
  | none =>
    cases h
    exact ⟨_, rfl⟩
  | some d => exact @attempt_osError _ d (.ok d) _ (fun _ h => by cases h) h

theorem unlink_osError {d : JobDir} {p : Loc} {e : Error} (h : d.unlink p = .error e) :
    ∃ errno, e = .osError errno := by
  rcases p with ⟨_ | dir, name⟩
  · simp only [JobDir.unlink] at h
    split at h <;> cases h <;> exact ⟨_, rfl⟩
  · simp only [JobDir.unlink, JobDir.within] at h
    split at h
    · split at h <;> cases h
      exact ⟨_, rfl⟩
    · cases h
      exact ⟨_, rfl⟩
    · cases h
      exact ⟨_, rfl⟩

theorem onlyOs_unlink (p : Loc) : OnlyOs (unlink p) := by
  refine @onlyOs_attempt _ (.unlink p) rfl fun c v e h => ?_
  cases v with
  | none =>
    cases h
    exact ⟨_, rfl⟩
  | some d => exact attempt_osError (fun _ => unlink_osError) h

theorem onlyOs_rmdir (name : Text) : OnlyOs (rmdir name) := by
  refine @onlyOs_attempt _ (.rmdir name) rfl fun c v e h => ?_
  cases v with
  | none =>
    cases h
    exact ⟨_, rfl⟩
  | some d =>
    refine attempt_osError (fun e he => ?_) h
    simp only [JobDir.rmdir] at he
    split at he
    · split at he <;> cases he
      exact ⟨_, rfl⟩
    · cases he
      exact ⟨_, rfl⟩
    · cases he
      exact ⟨_, rfl⟩

theorem onlyOs_iterdir (d : Option Text) : OnlyOs (iterdir d) := by
  refine @onlyOs_attempt _ (.iterdir d) rfl fun c v e h => ?_
  cases v with
  | none =>
    cases h
    exact ⟨_, rfl⟩
  | some dir =>
    change dir.iterdir d = .error e at h
    cases d with
    | none => cases h
    | some name =>
      simp only [JobDir.iterdir] at h
      split at h <;> cases h <;> exact ⟨_, rfl⟩

theorem onlyOs_rmtree (d : Text) : OnlyOs (rmtree d) := by
  refine (onlyOs_iterdir _).seq fun names => OnlyOs.seq ?_ fun _ => onlyOs_rmdir d
  induction names with
  | nil => exact fun _ => ⟨.intro, .intro⟩
  | cons name names ih => exact (onlyOs_unlink _).seq fun _ => ih

theorem settles_giveUp (token : LeaseToken) : Settles (giveUp token) := by
  have hrelease : Settles (do let _ ← Prog.result (releaseClaim token)) :=
    (settles_result _).bind fun _ => .pure _
  unfold giveUp
  refine (settles_isDir _).bind fun directory => ?_
  dsimp only
  split
  · refine Settles.bind (fun v => Safe.tryCatch (Safe.mono
      ((onlyOs_rmtree (stagingName token)).seq (fun _ => onlyOs_fsync) v) (fun _ _ _ h => h) ?_))
      fun _ => hrelease
    rintro e v' - ⟨errno, rfl⟩
    exact ⟨.intro, .intro⟩
  · exact hrelease

theorem settles_reportFailure (p : Parser) (jobDir : Text) (token : LeaseToken) (error : Error) :
    Settles (reportFailure p jobDir token error) := by
  refine (settles_result _).bind fun outcome => ?_
  split
  · exact .pure _
  · exact .pure _
  · exact .pure _

/-- `process_job` returns, whatever it meets. -/
theorem settles_processJob (r : Rendering) (p : Parser) (jobDir : Text) (force : Bool) :
    Settles (processJob r p jobDir force) := by
  refine (settles_result _).bind fun claim => ?_
  rcases claim with e | (token | _ | _ | _)
  · exact .pure _
  · refine fun v => Safe.tryFinally (Safe.mono ((settles_result _).bind (fun outcome => ?_) v)
      (fun _ v' _ _ => ?_) fun _ _ _ h => h.elim)
    · cases outcome with
      | ok count => exact .pure _
      | error e => exact settles_reportFailure p jobDir token e
    · exact settles_giveUp token v'
  · exact .pure _
  · exact .pure _
  · exact .pure _

end Job

/-! ## A pass, job by job -/

/-- What a call on a job by itself may come to. -/
def ProcessedAlone (r : Rendering) (p : Parser) (dirs dirs' : SpoolDirs) (job : Path)
    (result : ProcessResult) : Prop :=
  ∃ d d' cs, dirs job = some d ∧ dirs' job = some d' ∧
    Prog.run JobDir.execShared cs (Job.processJob r p (jobName job) false) d = some (.ok result, d')

theorem run_execAt {α : Type} (cs : List Choice) (m : Job α) (d : JobDir) :
    Prog.run JobDir.execAt cs m (some d) =
      (Prog.run JobDir.execShared cs m d).map fun x => (x.1, some x.2) := by
  induction m generalizing cs d with
  | ret a => cases cs <;> rfl
  | raise e => cases cs <;> rfl
  | call op next ih =>
    cases cs with
    | nil => rfl
    | cons c cs => exact ih _ cs _

/-- A run of a call that is by itself, on a job that is there. -/
theorem run_job_iff {r : Rendering} {p : Parser} {dirs dirs' : SpoolDirs} {job : Path} {d : JobDir}
    (hd : dirs job = some d) {x : Except Error ProcessResult} :
    (∃ cs, Prog.run JobDir.execAt cs (Job.processJob r p (jobName job) false) (dirs job) =
        some (x, dirs' job)) ↔
      ∃ result, x = .ok result ∧ ProcessedAlone r p dirs dirs' job result := by
  constructor
  · rintro ⟨cs, hrun⟩
    rcases Safe.run (Job.settles_processJob r p (jobName job) false _) hrun with
      ⟨result, rfl, -⟩ | ⟨e, -, hfalse⟩
    · rw [hd, run_execAt, Option.map_eq_some_iff] at hrun
      obtain ⟨⟨x, d'⟩, hrun, heq⟩ := hrun
      obtain ⟨rfl, hd'⟩ := Prod.mk.inj heq
      exact ⟨result, rfl, d, d', cs, hd, hd'.symm, hrun⟩
    · exact hfalse.elim
  · rintro ⟨result, rfl, d₁, d', cs, hd₁, hd', hrun⟩
    refine ⟨cs, ?_⟩
    rw [hd₁, run_execAt, hrun, hd']
    rfl

/-- Results in the order of the jobs, as a function of the job. -/
theorem exists_outcomes {R : Path → ProcessResult → Prop} {jobs : List Path}
    {results : List ProcessResult} (h : List.Forall₂ R jobs results) (hnodup : jobs.Nodup) :
    ∃ f : Path → Option (Except Error ProcessResult),
      jobs.map f = results.map (fun result => some (.ok result)) ∧
      (∀ job ∈ jobs, ∃ result, f job = some (.ok result) ∧ R job result) ∧
      ∀ job, job ∉ jobs → f job = none := by
  induction h with
  | nil => exact ⟨fun _ => none, rfl, fun _ h => absurd h List.not_mem_nil, fun _ _ => rfl⟩
  | @cons job result jobs results hjob _ ih =>
    obtain ⟨hfresh, hnodup⟩ := List.nodup_cons.mp hnodup
    obtain ⟨f, hmap, hmem, hother⟩ := ih hnodup
    have hsame : ∀ job' ∈ jobs, Function.update f job (some (.ok result)) job' = f job' := by
      intro job' hjob'
      refine Function.update_of_ne ?_ _ _
      rintro rfl
      exact hfresh hjob'
    refine ⟨Function.update f job (some (.ok result)), ?_, fun job' hjob' => ?_, fun job' hjob' => ?_⟩
    · rw [List.map_cons, List.map_cons, Function.update_self, List.map_congr_left hsame, hmap]
    · rcases List.mem_cons.mp hjob' with rfl | hjob'
      · exact ⟨result, Function.update_self .., hjob⟩
      · rw [hsame job' hjob']
        exact hmem job' hjob'
    · obtain ⟨hne, hjob'⟩ := List.ne_and_not_mem_of_not_mem_cons hjob'
      rw [Function.update_of_ne hne]
      exact hother job' hjob'

theorem passTasks_parties (r : Rendering) (p : Parser) (jobs : List Path) :
    (passTasks r p jobs).map Prod.fst = jobs := by
  simp [passTasks, Function.comp_def]

theorem poolSize_pos (workers : Nat) (jobs : List Path) : 0 < poolSize workers jobs := by
  unfold poolSize
  split <;> omega

end RchProxy
