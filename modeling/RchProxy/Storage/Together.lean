import RchProxy.Capture.Recorder
import RchProxy.Lib.Parts
import RchProxy.Storage.Published

/-!
# Captures side by side

Any number of captures of one date directory at once, each under a code of its own (the allocator
gives no code twice): they start, write and stop in any order, in the middle of a write too. A name
belongs to one code at most (`JobCode.Owns`), and no capture touches a name of another's.
-/

namespace RchProxy

open Py Lib Lib.Prog

/-- A CODICE_DOC. -/
abbrev JobCode := { code : Text // isJobCode code = true }

/-- The names that belong to a code: its directory's, and those of its hidden directories. -/
def JobCode.Owns (code : JobCode) (name : Text) : Prop :=
  name = code.val ∨ '.' :: code.val ++ ['.'] <+: name

instance (code : JobCode) (name : Text) : Decidable (code.Owns name) :=
  inferInstanceAs (Decidable (_ ∨ _))

/-- The names an operation is about. -/
def DayOp.names : DayOp → List Text
  | .exist name => [name]
  | .mkdir name => [name]
  | .within name _ => [name]
  | .replace src dst => [src, dst]
  | .fsync => []

/-- What a capture may do: it keeps to its own names. -/
def JobCode.May (code : JobCode) (op : DayOp) : Prop := ∀ name ∈ op.names, code.Owns name

namespace Day

/-- The part of the date directory that belongs to a code. -/
def part (code : JobCode) (s : Day) : Day := fun name => if code.Owns name then s name else none

/-- One operation of any capture. -/
def Turn (_ : JobCode) (op : DayOp) (s : Day) (r : op.Res) (s' : Day) : Prop :=
  ∃ c, exec c op s = (r, s')

end Day

/-! ## Names -/

namespace JobCode

theorem dot_not_mem (code : JobCode) : '.' ∉ code.val := by
  intro hmem
  have h := code.2
  simp only [isJobCode, Bool.and_eq_true, List.all_eq_true] at h
  exact absurd (h.2 _ hmem) (by decide)

theorem owns_self (code : JobCode) : code.Owns code.val := .inl rfl

theorem owns_partialDirName (code : JobCode) (jobId : Label) :
    code.Owns (partialDirName code.val jobId) := by
  refine .inr ⟨jobId.val ++ ".partial".toList, ?_⟩
  simp only [partialDirName, List.cons_append, List.append_assoc, List.nil_append]

/-- What stands between the dots of a hidden name is the code. -/
theorem Owns.takeWhile {code : JobCode} {name : Text} (h : code.Owns name) :
    (name.dropWhile (· = '.')).takeWhile (· ≠ '.') = code.val := by
  have hdigits : ∀ c ∈ code.val, decide (c ≠ '.') = true := by
    intro c hc
    exact decide_eq_true fun heq => code.dot_not_mem (heq ▸ hc)
  have hdrop : ∀ rest : Text, (code.val ++ rest).dropWhile (· = '.') = code.val ++ rest := by
    intro rest
    cases hcode : code.val with
    | nil => exact absurd code.2 (by rw [hcode]; decide)
    | cons c cs =>
      have hc : decide (c = '.') = false :=
        decide_eq_false fun heq => code.dot_not_mem (by rw [hcode, heq]; exact List.mem_cons_self)
      rw [List.cons_append, List.dropWhile_cons, hc, if_neg Bool.false_ne_true]
  rcases h with rfl | ⟨rest, rfl⟩
  · rw [← List.append_nil code.val, hdrop, List.takeWhile_append_of_pos hdigits]
    rfl
  · rw [List.cons_append, List.cons_append, List.dropWhile_cons, if_pos (by decide),
      List.append_assoc, hdrop, List.takeWhile_append_of_pos hdigits]
    simp

theorem Owns.unique {code code' : JobCode} {name : Text} (h : code.Owns name)
    (h' : code'.Owns name) : code = code' :=
  Subtype.ext (h.takeWhile.symm.trans h'.takeWhile)

end JobCode

/-! ## Operations on a part -/

namespace Day

variable {code : JobCode} {s s' : Day} {name : Text}

theorem part_apply (h : code.Owns name) : s.part code name = s name := if_pos h

theorem part_update (h : code.Owns name) (d : Option JobDir) :
    part code (Function.update s name d) = Function.update (s.part code) name d := by
  funext n
  by_cases hn : n = name
  · subst hn
    rw [part_apply h, Function.update_self, Function.update_self]
  · rw [Function.update_of_ne hn, part, part, Function.update_of_ne hn]

theorem part_attempt (fault : Option Errno) (result : Except Error Day) :
    (s.part code).attempt fault (result.map (part code)) =
      ((s.attempt fault result).1, part code (s.attempt fault result).2) := by
  cases fault with
  | some e => rfl
  | none => cases result <;> rfl

theorem part_mkdir (h : code.Owns name) : (s.part code).mkdir name = (s.mkdir name).map (part code) := by
  rw [mkdir, mkdir, part_apply h]
  cases s name with
  | some d => rfl
  | none => exact congrArg Except.ok (part_update h _).symm

theorem part_replace {src dst : Text} (hsrc : code.Owns src) (hdst : code.Owns dst) :
    (s.part code).replace src dst = (s.replace src dst).map (part code) := by
  rw [replace, replace, part_apply hsrc, part_apply hdst]
  cases s src with
  | none => rfl
  | some dir =>
    dsimp only
    split
    · rw [← part_update hsrc, ← part_update hdst]
      rfl
    · rfl

/-- An operation of a capture does to the capture's part what it does to the whole. -/
theorem exec_part {op : DayOp} (h : code.May op) (c : Choice) :
    exec c op (s.part code) = ((exec c op s).1, (exec c op s).2.part code) := by
  cases op with
  | exist name => simp only [exec, part_apply (h name (by simp [DayOp.names]))]
  | mkdir name =>
    simp only [exec]
    rw [part_mkdir (h name (by simp [DayOp.names])), part_attempt]
  | within name op =>
    have hname := h name (by simp [DayOp.names])
    simp only [exec, part_apply hname]
    cases s name with
    | none => rfl
    | some d => exact Prod.ext rfl (part_update hname _).symm
  | replace src dst =>
    simp only [exec]
    rw [part_replace (h src (by simp [DayOp.names])) (h dst (by simp [DayOp.names])), part_attempt]
  | fsync => exact part_attempt c.fault (.ok s)

theorem attempt_other {fault : Option Errno} {result : Except Error Day}
    (h : ∀ s', result = .ok s' → s' name = s name) : (s.attempt fault result).2 name = s name := by
  cases fault with
  | some e => rfl
  | none =>
    cases result with
    | error e => rfl
    | ok s' => exact h s' rfl

/-- An operation leaves the names it is not about. -/
theorem exec_other {op : DayOp} (h : name ∉ op.names) (c : Choice) :
    (exec c op s).2 name = s name := by
  cases op with
  | exist other => rfl
  | mkdir other =>
    have hne : name ≠ other := by simpa [DayOp.names] using h
    refine attempt_other fun s' hs' => ?_
    unfold mkdir at hs'
    split at hs'
    · cases hs'
    · cases hs'
      exact Function.update_of_ne hne _ _
  | within other op =>
    have hne : name ≠ other := by simpa [DayOp.names] using h
    simp only [exec]
    split
    · exact Function.update_of_ne hne _ _
    · rfl
  | replace src dst =>
    obtain ⟨hsrc, hdst⟩ : name ≠ src ∧ name ≠ dst := by simpa [DayOp.names] using h
    refine attempt_other fun s' hs' => ?_
    unfold replace at hs'
    split at hs'
    · cases hs'
    split at hs'
    · cases hs'
      rw [Function.update_of_ne hdst, Function.update_of_ne hsrc]
    · cases hs'
  | fsync =>
    refine attempt_other fun s' hs' => ?_
    cases hs'
    rfl

/-- A capture works on its own part. -/
theorem parts_local : Threads.Local part exec JobCode.May Turn where
  own hmay hturn := by
    obtain ⟨c, hc⟩ := hturn
    exact ⟨c, by rw [exec_part hmay, hc]⟩
  other := by
    rintro code op s r s' other hmay ⟨c, hc⟩ hne
    funext name
    rw [part, part]
    split
    · next howns =>
      have hname : name ∉ op.names := fun hmem => hne (howns.unique (hmay name hmem))
      have hsame := exec_other (s := s) hname c
      rw [hc] at hsame
      exact hsame
    · rfl

end Day

/-! ## The captures -/

/-- A capture with a code: `archive` of a job, or a live capture with any commands. -/
inductive Starts (config : Config) (code : JobCode) : DayJob Unit → Prop where
  | archive (job : CapturedJob) : Starts config code (archive config job code.val)
  | live (job : CapturedJob) (parent : Path) (task : LiveTask) (commands : List LiveCommand) :
    Starts config code (liveCapture config job code.val parent task commands)

/-- A directory that is a whole capture. -/
def IsCapture (config : Config) (code : Text) (d : JobDir) : Prop :=
  ∃ payload, Captured config code payload d

section
variable {code : JobCode}

theorem calls_inside {α : Type} {name : Text} {Q : α → Prop} {m : Job α} (h : code.Owns name)
    (hm : m.Calls (fun _ => True) (fun _ _ => True) Q) :
    (DayJob.inside name m).Calls code.May (fun _ _ => True) Q := by
  induction m with
  | ret a => exact hm
  | raise e => trivial
  | call op next ih =>
    refine ⟨fun n hn => ?_, fun r _ => ih r (hm.2 r trivial)⟩
    rw [List.mem_singleton.mp hn]
    exact h

theorem calls_any {α : Type} (m : Job α) :
    m.Calls (fun _ => True) (fun _ _ => True) (fun _ => True) := by
  induction m with
  | ret a => trivial
  | raise e => trivial
  | call op next ih => exact ⟨trivial, fun r _ => ih r⟩

theorem calls_exist {name : Text} (h : code.Owns name) :
    (DayJob.exist name).Calls code.May (fun _ _ => True) (fun _ => True) := by
  refine ⟨fun n hn => ?_, fun _ _ => trivial⟩
  rw [List.mem_singleton.mp hn]
  exact h

theorem calls_fsync : DayJob.fsync.Calls code.May (fun _ _ => True) (fun _ => True) :=
  Calls.bind ⟨fun _ hn => absurd hn List.not_mem_nil, fun _ _ => Calls.ofExcept fun _ _ => trivial⟩

theorem calls_seq {α β : Type} {m : DayJob α} {f : α → DayJob β}
    (h : m.Calls code.May (fun _ _ => True) (fun _ => True))
    (hf : ∀ a, (f a).Calls code.May (fun _ _ => True) (fun _ => True)) :
    (m >>= f).Calls code.May (fun _ _ => True) (fun _ => True) :=
  Calls.bind (h.mono fun a _ => hf a)

theorem calls_prepareCapture (jobId : Label) :
    (prepareCapture code.val jobId).Calls code.May (fun _ _ => True) (fun _ => True) := by
  have hdir := code.owns_partialDirName jobId
  refine calls_seq (calls_exist code.owns_self) fun found => ?_
  refine Calls.ite (fun _ => trivial) fun _ => ?_
  refine calls_seq (calls_exist hdir) fun found => ?_
  refine Calls.ite (fun _ => trivial) fun _ => ?_
  refine calls_seq (Calls.bind ⟨fun n hn => ?_,
    fun _ _ => Calls.ofExcept fun _ _ => trivial⟩) fun _ => calls_fsync
  rw [List.mem_singleton.mp hn]
  exact hdir

/-- The last two operations of a capture. -/
theorem calls_list {dir : Text} (h : code.Owns dir) :
    (do DayJob.replace dir code.val; DayJob.fsync : DayJob Unit).Calls code.May (fun _ _ => True)
      (fun _ => True) := by
  refine calls_seq (Calls.bind ⟨fun n hn => ?_,
    fun _ _ => Calls.ofExcept fun _ _ => trivial⟩) fun _ => calls_fsync
  rcases List.mem_cons.mp hn with rfl | hn
  · exact h
  · rw [List.mem_singleton.mp hn]
    exact code.owns_self

theorem calls_archive (config : Config) (job : CapturedJob) :
    (archive config job code.val).Calls code.May (fun _ _ => True) (fun _ => True) := by
  have hdir := code.owns_partialDirName job.jobId
  refine calls_seq (calls_prepareCapture job.jobId) fun _ => ?_
  exact calls_seq (calls_inside hdir (calls_any _)) fun _ => calls_list hdir

theorem calls_finalizeClosed (config : Config) {live : LiveSpoolCapture} (job : CapturedJob)
    {dir : Text} (hcode : live.code = code.val) (h : code.Owns dir) :
    (finalizeClosed config live job dir).Calls code.May (fun _ _ => True) (fun _ => True) := by
  unfold finalizeClosed
  rw [hcode]
  refine calls_seq (calls_inside h (calls_any _)) fun _ => ?_
  refine calls_seq (calls_exist code.owns_self) fun found => ?_
  refine Calls.ite (fun _ => trivial) fun _ => ?_
  exact calls_seq (calls_inside h (calls_any _)) fun _ => calls_list h

/-- A call leaves the capture's code. -/
theorem calls_performCall (live : LiveSpoolCapture) {call : LiveCall} (h : call.Follows live) :
    (Job.performCall live call).Calls (fun _ => True) (fun _ _ => True) (·.1.code = live.code) := by
  have hcode : call.live.code = live.code := congrArg (·.1) h.place
  refine Calls.bind ((calls_any _).mono fun r _ => ?_)
  obtain ⟨events, e | e⟩ := r
  · exact hcode
  · exact hcode

theorem calls_flushAndSync (live : LiveSpoolCapture) :
    (Job.flushAndSync live).Calls (fun _ => True) (fun _ _ => True) (·.1.code = live.code) := by
  have hflush := (live.flushReadyTimeline_timelineOnly true).follows
  refine Calls.bind ((calls_performCall live hflush).mono fun r hr => ?_)
  obtain ⟨live', e | e⟩ := r
  · refine Calls.bind (Calls.result ((calls_any _).mono fun _ _ => hr) fun _ => hr)
  · exact hr

/-- The commands of a live capture, and what comes after them. -/
theorem calls_run (task : LiveTask) (config : Config) {dir : Text} (h : code.Owns dir)
    (commands : List LiveCommand) {live : LiveSpoolCapture} (hcode : live.code = code.val) :
    (task.run config dir commands live).Calls code.May (fun _ _ => True) (fun _ => True) := by
  have hfail : ∀ live e, (task.fail config dir live e).Calls code.May (fun _ _ => True)
      (fun _ => True) := fun live e => calls_inside h (calls_any _)
  induction commands generalizing live with
  | nil =>
    unfold LiveTask.run LiveTask.finish
    cases task.degraded with
    | some reason => exact calls_inside h (calls_any _)
    | none =>
      refine Calls.bind ((calls_inside h (calls_flushAndSync live)).mono fun r hr => ?_)
      obtain ⟨live', e | e⟩ := r
      · exact Calls.bind (Calls.result ((calls_finalizeClosed config task.final (hr.trans hcode)
          h).mono fun _ _ => trivial) fun e => hfail live' e)
      · exact hfail live' e
  | cons command commands ih =>
    refine Calls.bind ((calls_inside h (calls_performCall live (command.call_follows live))).mono
      fun r hr => ?_)
    obtain ⟨live', e | e⟩ := r
    · exact ih (hr.trans hcode)
    · exact hfail live' e

theorem calls_liveCapture (config : Config) (job : CapturedJob) (parent : Path) (task : LiveTask)
    (commands : List LiveCommand) :
    (liveCapture config job code.val parent task commands).Calls code.May (fun _ _ => True)
      (fun _ => True) := by
  have hdir := code.owns_partialDirName job.jobId
  refine calls_seq (calls_prepareCapture job.jobId) fun _ => ?_
  refine calls_seq (calls_inside hdir (calls_any _)) fun _ => ?_
  exact calls_run task config hdir commands rfl

end

/-- A code that was free at first and is now. -/
theorem Lists.trans {code : Text} {Good Good' : JobDir → Prop} {s s' s'' : Day}
    (h : Lists code Good s s') (h' : Lists code Good' s' s'') (hgood : ∀ d, Good' d → Good d) :
    Lists code Good s s'' := by
  rcases h' with heq | ⟨hnone, d, hd, hgood'⟩
  · rw [Lists, heq]
    exact h
  · rcases h with heq | ⟨-, d', hd', -⟩
    · exact .inr ⟨heq ▸ hnone, d, hd, hgood d hgood'⟩
    · rw [hnone] at hd'
      cases hd'

/-- A capture keeps its own part of the date directory in order. -/
theorem Starts.keeps {config : Config} {code : JobCode} {m : DayJob Unit} (h : Starts config code m)
    (s : Day) {v : Day} (hv : Lists code.val (IsCapture config code.val) (s.part code) v) :
    Threads.Keeps Day.exec JobCode.May
      (fun code v => Lists code.val (IsCapture config code.val) (s.part code) v) code m v := by
  cases h with
  | archive job =>
    refine ⟨calls_archive config job, ?_⟩
    refine Safe.mono (Safe.weaken (safe_archive config job code.val v) fun v' h' => ?_)
      (fun _ _ _ _ => trivial) fun _ _ _ _ => trivial
    exact hv.trans h' fun d hd => ⟨_, .archive hd⟩
  | live job parent task commands =>
    refine ⟨calls_liveCapture config job parent task commands, ?_⟩
    refine Safe.weaken (safe_liveCapture config job code.val parent task commands v) fun v' h' => ?_
    exact hv.trans h' fun d hd => ⟨_, .live hd⟩

/-- Captures side by side, each on the part of the date directory that belongs to its code. -/
theorem Starts.parts {config : Config} {a b : Threads DayOp DayOp.Res Error Unit JobCode Day}
    (h : Relation.ReflTransGen (Threads.Apart (Starts config) Day.Turn) a b)
    (ha : a.running = []) (code : JobCode) :
    Lists code.val (IsCapture config code.val) (a.state.part code) (b.state.part code) := by
  refine Threads.Apart.parts
    (I := fun code v => Lists code.val (IsCapture config code.val) (a.state.part code) v)
    Day.parts_local (fun t m hm v hv => hm.keeps a.state hv) h ⟨?_, fun t => .inl rfl, ?_⟩ code
  · rw [ha]
    exact List.nodup_nil
  · intro p hp
    rw [ha] at hp
    cases hp

theorem Lists.of_part {code : JobCode} {Good : JobDir → Prop} {s s' : Day}
    (h : Lists code.val Good (s.part code) (s'.part code)) : Lists code.val Good s s' := by
  rw [Lists, Day.part_apply code.owns_self, Day.part_apply code.owns_self] at h
  exact h

/-- Captures side by side: wherever each of them is, or stopped, a code that was taken at first has
the directory it had, and one that was not is still free, or that of a whole capture. -/
theorem captures_listed {config : Config}
    {a b : Threads DayOp DayOp.Res Error Unit JobCode Day}
    (h : Relation.ReflTransGen (Threads.Apart (Starts config) Day.Turn) a b)
    (ha : a.running = []) (code : JobCode) :
    Lists code.val (IsCapture config code.val) a.state b.state :=
  (Starts.parts h ha code).of_part

/-- Two archives are started in an empty date directory, and the first one has looked whether its code
is free. -/
theorem captures_listed_sample : ∃ (config : Config) (code code' : JobCode)
    (b : Threads DayOp DayOp.Res Error Unit JobCode Day), code ≠ code' ∧ b.running.length = 2 ∧
      Lists code.val (IsCapture config code.val) (fun _ => none) b.state := by
  obtain ⟨code, code', hne⟩ : ∃ code code' : JobCode, code ≠ code' :=
    ⟨⟨"0001".toList, by decide⟩, ⟨"0002".toList, by decide⟩,
      fun heq => absurd (congrArg Subtype.val heq) (by decide)⟩
  obtain ⟨config, job⟩ : Config × CapturedJob := ((Connection.sampleSession .abort).config,
    Connection.newJob (Connection.sampleSession .abort) 5 Connection.sampleClock)
  have hstart : Threads.Apart (Starts config) Day.Turn ⟨fun _ => none, []⟩
      ⟨fun _ => none, [(code, archive config job code.val)]⟩ :=
    ⟨.start (.archive job), List.nodup_singleton _⟩
  have hstart' : Threads.Apart (Starts config) Day.Turn
      ⟨fun _ => none, [(code, archive config job code.val)]⟩
      ⟨fun _ => none, [(code', archive config job code'.val), (code, archive config job code.val)]⟩ :=
    ⟨.start (.archive job), by simpa using hne.symm⟩
  obtain ⟨next, hnext⟩ : ∃ next, archive config job code.val = .call (.exist code.val) next :=
    ⟨_, rfl⟩
  have hturn : Threads.Apart (Starts config) Day.Turn
      ⟨fun _ => none, [(code', archive config job code'.val), (code, archive config job code.val)]⟩
      ⟨fun _ => none, [(code', archive config job code'.val), (code, next false)]⟩ := by
    rw [hnext]
    exact ⟨@Threads.Step.turn _ _ _ _ _ _ _ _ _ _ [(code', _)] [] code _ next _
      ⟨.quiet, rfl⟩, by simpa using hne.symm⟩
  exact ⟨config, code, code', _, hne, rfl, captures_listed
    (((Relation.ReflTransGen.single hstart).tail hstart').tail hturn) rfl code⟩

end RchProxy
