import RchProxy.Parser.Ledger

/-!
# The books of a job

What the lock of a job protects: the parser's state files, their temporary files, and the log
(`Books`). One rule for each program that reads or changes a state file under the lock; a program that
keeps to the output directories leaves the books alone, on either side (`fenced_of_confined`).
-/

namespace RchProxy

open Py Lib Lib.Prog

/-! ## State files -/

/-- The names of the state files and their temporary files. -/
inductive StateName : Text → Prop where
  | file (file : StateFile) : StateName file.name
  | temp (file : StateFile) (uuid : LeaseToken) : StateName (Job.tempName file.name uuid)

/-- A place for a state file. -/
abbrev Slot := { name : Text // StateName name }

/-- The place of a state file. -/
def StateFile.slot (file : StateFile) : Slot := ⟨file.name, .file file⟩

/-- The place of a temporary file. -/
def StateFile.temp (file : StateFile) (uuid : LeaseToken) : Slot := ⟨_, .temp file uuid⟩

/-- One of the two files of the retry accounting. -/
def Slot.Counts (n : Slot) : Prop :=
  n = StateFile.slot .parseAttempts ∨ n = StateFile.slot .parseFailed

theorem StateFile.slot_injective {f g : StateFile} (h : f.slot = g.slot) : f = g := by
  have hname : f.name = g.name := congrArg Subtype.val h
  cases f <;> cases g <;> first | rfl | exact absurd hname (by decide)

theorem StateFile.temp_ne_slot (f g : StateFile) (uuid : LeaseToken) : f.temp uuid ≠ g.slot := by
  intro h
  have hsecond : (Job.tempName f.name uuid)[1]? = g.name[1]? :=
    congrArg (fun n : Slot => n.val[1]?) h
  cases f <;> cases g <;> cases hsecond

theorem StateFile.not_counts_temp (f : StateFile) (uuid : LeaseToken) : ¬ (f.temp uuid).Counts := by
  rintro (h | h) <;> exact f.temp_ne_slot _ uuid h

theorem StateFile.counts_slot {f : StateFile} :
    f.slot.Counts ↔ f = .parseAttempts ∨ f = .parseFailed := by
  constructor
  · rintro (h | h)
    · exact .inl (slot_injective h)
    · exact .inr (slot_injective h)
  · rintro (rfl | rfl)
    · exact .inl rfl
    · exact .inr rfl

theorem StateName.start {name : Text} (h : StateName name) :
    ∃ rest, name = '.' :: 'p' :: rest ∨ name = '.' :: '.' :: rest := by
  cases h with
  | file file => cases file <;> exact ⟨_, .inl rfl⟩
  | temp file uuid => cases file <;> exact ⟨_, .inr rfl⟩

theorem StateName.parserOwned {name : Text} (h : StateName name) : ParserOwned name := by
  cases h with
  | file file => exact .state file
  | temp file uuid => exact .temp file uuid

/-- A change of one state file leaves the others. -/
theorem update_slot {files : Slot → Option Node} {f g : StateFile} (h : g ≠ f) (node : Option Node) :
    Function.update files f.slot node g.slot = files g.slot :=
  Function.update_of_ne (fun heq => h (StateFile.slot_injective heq)) ..

/-- A change of a state file leaves the temporary files. -/
theorem update_slot_temp {files : Slot → Option Node} (f g : StateFile) (uuid : LeaseToken)
    (node : Option Node) :
    Function.update files f.slot node (g.temp uuid) = files (g.temp uuid) :=
  Function.update_of_ne (g.temp_ne_slot f uuid) ..

/-- An output directory is no state file. -/
theorem OutputName.not_stateName {name : Text} (h : OutputName name) : ¬ StateName name := by
  intro hstate
  obtain ⟨rest, hstart⟩ := hstate.start
  cases h <;> rcases hstart with hstart | hstart <;> cases hstart

theorem not_stateName_lockName : ¬ StateName lockName := by
  intro h
  generalize hname : lockName = name at h
  cases h with
  | file file => cases file <;> exact absurd hname (by decide)
  | temp file uuid =>
    have hsecond : lockName[1]? = (Job.tempName file.name uuid)[1]? := by rw [hname]
    cases file <;> cases hsecond

/-! ## Books -/

/-- The state files by their places, and the log. -/
structure Books where
  files : Slot → Option Node
  log : List Entry

namespace Books

variable (v : Books) (call : Nat)

/-- The two files of the retry accounting. -/
def accounts : Option Node × Option Node :=
  (v.files (StateFile.slot .parseAttempts), v.files (StateFile.slot .parseFailed))

/-- The books after an operation of a call. -/
def step (files : Slot → Option Node) : Books where
  files
  log := if (⟨files, v.log⟩ : Books).accounts = v.accounts then v.log else .changed call :: v.log

/-- The books after a change of a file that is none of the two. -/
def set (n : Slot) (node : Option Node) : Books := { v with files := Function.update v.files n node }

/-- The books after a change of a file. -/
def put (n : Slot) (node : Option Node) : Books := v.step call (Function.update v.files n node)

@[simp] theorem set_log (n : Slot) (node : Option Node) : (v.set n node).log = v.log := rfl

@[simp] theorem set_files (n : Slot) (node : Option Node) :
    (v.set n node).files = Function.update v.files n node := rfl

theorem files_set_self (n : Slot) (node : Option Node) : (v.set n node).files n = node :=
  Function.update_self ..

@[simp] theorem put_files (n : Slot) (node : Option Node) :
    (v.put call n node).files = Function.update v.files n node := rfl

@[simp] theorem step_self : v.step call v.files = v := by
  simp [step, accounts]

@[simp] theorem set_set (n : Slot) (node node' : Option Node) :
    (v.set n node).set n node' = v.set n node' := by
  simp [set]

variable {v} in
theorem set_self {n : Slot} {node : Option Node} (h : v.files n = node) : v.set n node = v := by
  subst h
  simp [set]

variable {v} in
theorem put_self {n : Slot} {node : Option Node} (h : v.files n = node) : v.put call n node = v := by
  subst h
  simp [put]

variable {v call} in
/-- A change of a file that is none of the two does not count. -/
theorem step_set {n : Slot} (h : ¬ n.Counts) (node : Option Node) (files : Slot → Option Node) :
    (v.set n node).step call files = v.step call files := by
  have hattempts : StateFile.slot .parseAttempts ≠ n := fun heq => h (.inl heq.symm)
  have hfailed : StateFile.slot .parseFailed ≠ n := fun heq => h (.inr heq.symm)
  simp [step, set, accounts, Function.update_of_ne hattempts, Function.update_of_ne hfailed]

variable {v} in
theorem put_eq_set {n : Slot} (h : ¬ n.Counts) (node : Option Node) :
    v.put call n node = v.set n node := by
  have hstep : (v.set n node).step call (v.set n node).files = v.set n node :=
    (v.set n node).step_self call
  rwa [step_set h] at hstep

/-- The log says that a call changed one of the two files, at most. -/
theorem log_step (files : Slot → Option Node) :
    (v.step call files).log = v.log ∨ (v.step call files).log = .changed call :: v.log := by
  unfold step
  split
  · exact .inl rfl
  · exact .inr rfl

end Books

namespace JobDir

variable (d : JobDir)

/-- The state files of a directory. -/
def slots : Slot → Option Node := fun n => d.lookup n.val

@[simp] theorem lookup_slot (n : Slot) : d.lookup n.val = d.slots n := rfl

@[simp] theorem slots_insert (n : Slot) (node : Node) :
    JobDir.slots (d.insert n.val node) = Function.update d.slots n (some node) := by
  funext m
  by_cases h : m = n
  · subst h
    simp [slots]
  · rw [Function.update_of_ne h]
    exact AList.lookup_insert_ne fun heq => h (Subtype.ext heq)

@[simp] theorem slots_erase (n : Slot) :
    JobDir.slots (d.erase n.val) = Function.update d.slots n none := by
  funext m
  by_cases h : m = n
  · subst h
    simp [slots]
  · rw [Function.update_of_ne h]
    exact AList.lookup_erase_ne fun heq => h (Subtype.ext heq)

variable {d}

theorem Edits.slots {changes inner : List Text} {d' : JobDir} (h : Edits changes inner d d')
    (hchanges : ∀ name ∈ changes, ¬ StateName name) : d'.slots = d.slots := by
  funext n
  exact h.lookup fun hmem => hchanges _ hmem n.2

theorem execShared_eq {op : Op} (h : op ≠ .lock) (c : Choice) : d.execShared c op = d.exec c op := by
  cases op with
  | lock => exact absurd rfl h
  | _ => rfl

end JobDir

/-- What `stat` says about a file or directory. -/
def Node.kind : Node → Kind
  | .file data => .file data.length
  | .dir _ => .dir

/-- There is no directory. -/
def NoDir (node : Option Node) : Prop := ∀ files, node ≠ some (.dir files)

theorem noDir_none : NoDir none := nofun

theorem noDir_file (data : Bytes) : NoDir (some (.file data)) := fun _ h => by cases h

/-- Whether there is a file. -/
def holdsFile : Option Node → Bool
  | some (.file _) => true
  | _ => false

theorem none_of_not_holdsFile {node : Option Node} (hn : NoDir node) (h : ¬ holdsFile node = true) :
    node = none := by
  cases node with
  | none => rfl
  | some node =>
    cases node with
    | file data => exact absurd rfl h
    | dir files => exact absurd rfl (hn files)

/-- The books of a ledger. -/
def Ledger.books (s : Ledger) : Books := ⟨s.dir.slots, s.log⟩

/-- The entries of a call. -/
def entriesOf (call : Nat) (log : List Entry) : List Entry := log.filter (·.call = call)

theorem entriesOf_cons_self {call : Nat} {e : Entry} (h : e.call = call) (log : List Entry) :
    entriesOf call (e :: log) = e :: entriesOf call log := by
  simp [entriesOf, h]

theorem entriesOf_cons_ne {call : Nat} {e : Entry} (h : e.call ≠ call) (log : List Entry) :
    entriesOf call (e :: log) = entriesOf call log := by
  simp [entriesOf, h]

/-- The books behind the lock, where they have to be in order. No claim that is not forced is entered
while there is a `.parse_failed`. -/
def booksFence (I : Books → Prop) : Fence Nat Ledger Books (List Entry) where
  holder := Ledger.holder
  view := Ledger.books
  own := fun call v => entriesOf call v.log
  Inv := I
  Allowed := fun v v' => ∀ call token, v'.log = .claimed call token false :: v.log →
    v.files (StateFile.slot .parseFailed) = none

/-- What a call does to the job by its operations. -/
abbrev Ledger.ExecOp (call : Nat) (op : Op) : Ledger → op.Res → Ledger → Prop := Exec call (.op op)

namespace Job

variable {I : Books → Prop} {call : Nat} {α : Type} {v : Books} {mine : List Entry}

/-- A program of a call, followed along the books. -/
abbrev Fenced (I : Books → Prop) (call : Nat) (Q : α → Side Books (List Entry) → Prop)
    (E : Error → Side Books (List Entry) → Prop) (m : Job α) (side : Side Books (List Entry)) : Prop :=
  Prog.Fenced (booksFence I) Ledger.ExecOp call Q E m side

variable {E : Error → Side Books (List Entry) → Prop}

/-! ## Operations -/

/-- Taking the lock. -/
theorem fenced_lock {R : Bool → Side Books (List Entry) → Prop}
    (h : ∀ v, I v → entriesOf call v.log = mine → R true (.inside v)) :
    Fenced I call R E (perform Op.lock) (.outside mine) := by
  intro s r s' hat hinv hexec
  cases hexec with
  | lock hfree =>
    have hslots : (s.dir.execShared .quiet .lock).2.slots = s.dir.slots :=
      (s.dir.execShared_edits .quiet .lock).slots fun name hname => by
        rw [List.mem_singleton.mp hname]
        exact not_stateName_lockName
    refine ⟨.inside s.books, .enter hfree rfl ?_, h _ (hinv hfree) hat.2⟩
    exact congrArg (Books.mk · s.log) hslots
  | op c hlock => exact absurd rfl hlock

/-- Giving it back. -/
theorem fenced_unlock {R : Unit → Side Books (List Entry) → Prop} (hv : I v)
    (h : R () (.outside (entriesOf call v.log))) :
    Fenced I call R E (perform Op.unlock) (.inside v) := by
  intro s r s' hat hinv hexec
  cases hexec with
  | unlock hheld => exact ⟨_, .leave rfl hat.2 hv, h⟩
  | op c _ hunlock => exact absurd rfl hunlock

/-- An operation under the lock, by what it does to the state files. -/
theorem fenced_inside {op : Op} {R : op.Res → Side Books (List Entry) → Prop} (hlock : op ≠ .lock)
    (hunlock : op ≠ .unlock)
    (h : ∀ (d : JobDir) (c : Choice), d.slots = v.files → c.fault = none →
      (∀ u force, .claimed u c.uuid force ∉ v.log) → c.now.length ≤ 32 →
      R (d.exec c op).1 (.inside (v.step call (d.exec c op).2.slots))) :
    Fenced I call R E (perform op) (.inside v) := by
  intro s r s' hat hinv hexec
  cases hexec with
  | lock => exact absurd rfl hlock
  | unlock => exact absurd rfl hunlock
  | op c _ _ hquiet hfresh hnow hlegal =>
    obtain ⟨hholder, rfl⟩ := hat
    refine ⟨_, .act hholder (fun u token hlog => ?_) fun u hu => ?_,
      h s.dir c rfl hquiet hfresh hnow⟩
    · change ite _ _ _ = Entry.claimed u token false :: s.log at hlog
      split at hlog
      · exact absurd hlog (List.cons_ne_self _ _).symm
      · cases (List.cons.inj hlog).1
    · change entriesOf u (ite _ _ _) = entriesOf u s.log
      split
      · rfl
      · exact entriesOf_cons_ne (Ne.symm hu) _

/-- An operation under the lock that changes no state file. -/
theorem fenced_same {op : Op} {R : op.Res → Side Books (List Entry) → Prop} (hlock : op ≠ .lock)
    (hunlock : op ≠ .unlock)
    (h : ∀ (d : JobDir) (c : Choice), d.slots = v.files → c.fault = none →
      (∀ u force, .claimed u c.uuid force ∉ v.log) → c.now.length ≤ 32 →
      (d.exec c op).2.slots = d.slots ∧ R (d.exec c op).1 (.inside v)) :
    Fenced I call R E (perform op) (.inside v) := by
  refine fenced_inside hlock hunlock fun d c hd hquiet hfresh hnow => ?_
  obtain ⟨hslots, hR⟩ := h d c hd hquiet hfresh hnow
  rwa [hslots, hd, Books.step_self]

theorem fenced_uuid4 {R : LeaseToken → Side Books (List Entry) → Prop}
    (h : ∀ uuid, (∀ u force, .claimed u uuid force ∉ v.log) → R uuid (.inside v)) :
    Fenced I call R E (perform Op.uuid4) (.inside v) :=
  fenced_same nofun nofun fun _ c _ _ hfresh _ => ⟨rfl, h c.uuid hfresh⟩

theorem fenced_now {R : Text → Side Books (List Entry) → Prop}
    (h : ∀ now : Text, now.length ≤ 32 → R now (.inside v)) :
    Fenced I call R E (perform Op.now) (.inside v) :=
  fenced_same nofun nofun fun _ c _ _ _ hnow => ⟨rfl, h c.now hnow⟩

theorem exec_fsync (d : JobDir) {c : Choice} (h : c.fault = none) : d.exec c .fsync = (.ok (), d) := by
  simp only [JobDir.exec, attempt, h]

theorem fenced_fsync {R : Unit → Side Books (List Entry) → Prop} (h : R () (.inside v)) :
    Fenced I call R E fsync (.inside v) :=
  Fenced.bind (fenced_same nofun nofun fun d c _ hquiet _ _ => by
    rw [exec_fsync d hquiet]
    exact ⟨rfl, h⟩)

/-! ## Programs that leave the books alone -/

theorem not_outputName_lockName : ¬ OutputName lockName := by
  intro h
  generalize hname : lockName = name at h
  cases h <;> cases hname

/-- An operation that keeps to the output directories leaves the books, on either side. -/
theorem fenced_confinedOp {op : Op} {R : op.Res → Side Books (List Entry) → Prop}
    {side : Side Books (List Entry)} (hop : op.Confined OutputName)
    (h : ∀ (d : JobDir) (c : Choice), op.Legal (d.exec c op).1 → R (d.exec c op).1 side) :
    Fenced I call R E (perform op) side := by
  intro s r s' hat hinv hexec
  cases hexec with
  | lock => exact absurd (hop.changes lockName List.mem_cons_self) not_outputName_lockName
  | unlock => exact absurd (hop.unlock rfl) not_outputName_lockName
  | op c hlock hunlock _ _ _ hlegal =>
    have hslots : (s.dir.exec c op).2.slots = s.dir.slots := by
      rw [← JobDir.execShared_eq hlock]
      exact (s.dir.execShared_edits c op).slots fun name hname =>
        (hop.changes name hname).not_stateName
    have hview : s.books.step call (s.dir.exec c op).2.slots = s.books := by
      rw [hslots]
      exact s.books.step_self call
    exact ⟨side, .stay rfl hview, h s.dir c hlegal⟩

/-- So does a program of such operations. -/
theorem fenced_of_confined {m : Job α} {Q : α → Prop} (h : Confined OutputName m Q)
    (side : Side Books (List Entry)) :
    Fenced I call (fun a side' => side' = side ∧ Q a) (fun _ side' => side' = side) m side := by
  induction m with
  | ret a => exact ⟨rfl, h⟩
  | raise e => exact rfl
  | call op next ih =>
    exact Fenced.bind (m := perform op) (f := next)
      (fenced_confinedOp h.1 fun d c hlegal => ih _ (h.2 _ hlegal))

/-! ## State files under the lock -/

theorem kind_slot (d : JobDir) (n : Slot) :
    d.kind { name := n.val } = (d.slots n).map Node.kind := by
  rw [JobDir.kind, JobDir.node]
  congr 1

variable {n : Slot}

theorem fenced_kind {R : Option Kind → Side Books (List Entry) → Prop}
    (h : R ((v.files n).map Node.kind) (.inside v)) :
    Fenced I call R E (kind { name := n.val }) (.inside v) :=
  fenced_same nofun nofun fun d c hd _ _ _ => ⟨rfl, by
    change R (d.kind { name := n.val }) _
    rwa [kind_slot, hd]⟩

theorem fenced_isFile {R : Bool → Side Books (List Entry) → Prop}
    (h : R (holdsFile (v.files n)) (.inside v)) :
    Fenced I call R E (isFile { name := n.val }) (.inside v) := by
  refine Fenced.bind (fenced_kind ?_)
  cases hnode : v.files n with
  | none =>
    rw [hnode] at h
    exact h
  | some node =>
    rw [hnode] at h
    cases node <;> exact h

theorem fenced_exist {R : Bool → Side Books (List Entry) → Prop}
    (h : R (v.files n).isSome (.inside v)) :
    Fenced I call R E (exist { name := n.val }) (.inside v) := by
  refine Fenced.bind (fenced_kind ?_)
  rw [← Option.isSome_map (f := Node.kind)] at h
  exact h

theorem fenced_size {R : Nat → Side Books (List Entry) → Prop} {data : Bytes}
    (hn : v.files n = some (.file data)) (h : R data.length (.inside v)) :
    Fenced I call R E (size { name := n.val }) (.inside v) := by
  refine Fenced.bind (fenced_kind ?_)
  rw [hn]
  exact h

theorem fenced_read {R : Bytes → Side Books (List Entry) → Prop} {data : Bytes}
    (hn : v.files n = some (.file data)) (h : R data (.inside v)) :
    Fenced I call R E (read { name := n.val }) (.inside v) := by
  refine Fenced.bind (fenced_same nofun nofun fun d c hd _ _ _ => ⟨rfl, ?_⟩)
  have hnode : d.node { name := n.val } = some (.file data) := by
    rw [← hn, ← hd]
    rfl
  change Fenced I call R E (Prog.ofExcept (d.read { name := n.val })) (.inside v)
  rw [JobDir.read, hnode]
  exact h

/-- A small JSON file is read as the books have it. -/
theorem fenced_readSmallJson {R : List (Text × Json) → Side Books (List Entry) → Prop}
    (hok : ∀ fields, smallJson (v.files n) = .ok fields → R fields (.inside v))
    (herr : ∀ e, smallJson (v.files n) = .error e → E e (.inside v)) :
    Fenced I call R E (readSmallJson n.val) (.inside v) := by
  refine Fenced.bind (fenced_isFile ?_)
  cases hnode : v.files n with
  | none => exact herr _ (by rw [hnode]; rfl)
  | some node =>
    cases node with
    | dir files => exact herr _ (by rw [hnode]; rfl)
    | file data =>
      refine Fenced.bind (fenced_size hnode ?_)
      dsimp only
      split
      · next hlarge =>
        exact herr _ (by simp [hnode, smallJson, hlarge])
      next hsmall =>
      refine Fenced.bind (Fenced.bind (fenced_read hnode (Fenced.ofExcept (fun value hvalue => ?_)
        fun e he => ?_)))
      · cases value with
        | obj fields => exact hok fields (by simp [hnode, smallJson, hsmall, hvalue])
        | _ => exact herr _ (by simp [hnode, smallJson, hsmall, hvalue])
      · exact herr e (by simp [hnode, smallJson, hsmall, he])

/-! ## Changes of state files -/

/-- An operation that changes the directory as `result` says, where nothing fails. -/
theorem attempt_ok {d d' : JobDir} {fault : Option Errno} (h : fault = none) :
    attempt fault d (.ok d') = (.ok (), d') := by
  rw [h]
  rfl

theorem fenced_create {R : Unit → Side Books (List Entry) → Prop} (hn : v.files n = none)
    (h : R () (.inside (v.put call n (some (.file []))))) :
    Fenced I call R E (create { name := n.val }) (.inside v) := by
  refine Fenced.bind (fenced_inside nofun nofun fun d c hd hquiet _ _ => ?_)
  have hcreate : d.create { name := n.val } = .ok (d.insert n.val (.file [])) := by
    rw [← hd] at hn
    simp only [JobDir.create, JobDir.lookup_slot, hn]
  rw [JobDir.exec, hcreate, attempt_ok hquiet, JobDir.slots_insert, hd]
  exact h

theorem fenced_write {R : Unit → Side Books (List Entry) → Prop} {old : Bytes} (data : Bytes)
    (hn : v.files n = some (.file old))
    (h : R () (.inside (v.put call n (some (.file (old ++ data)))))) :
    Fenced I call R E (write { name := n.val } data) (.inside v) := by
  refine Fenced.bind (fenced_inside nofun nofun fun d c hd hquiet _ _ => ?_)
  have hwrite : d.write { name := n.val } data = d.insert n.val (.file (old ++ data)) := by
    rw [← hd] at hn
    simp only [JobDir.write, JobDir.lookup_slot, hn]
  rw [JobDir.exec, hwrite, attempt_ok hquiet, JobDir.slots_insert, hd]
  exact h

/-- A file takes another place, where there is no directory. -/
theorem fenced_rename {R : Unit → Side Books (List Entry) → Prop} {data : Bytes}
    (src dst : Slot)     (hsrc : v.files src = some (.file data)) (hdst : NoDir (v.files dst))
    (hcounts : ¬ src.Counts)
    (h : R () (.inside ((v.set src none).put call dst (some (.file data))))) :
    Fenced I call R E (rename none src.val dst.val) (.inside v) := by
  refine Fenced.bind (fenced_inside nofun nofun fun d c hd hquiet _ _ => ?_)
  have hrename : d.rename none src.val dst.val =
      .ok ((d.erase src.val).insert dst.val (.file data)) := by
    rw [← hd] at hsrc hdst
    simp only [JobDir.rename, JobDir.lookup_slot, hsrc]
    cases hnode : d.slots dst with
    | none => rfl
    | some node =>
      rw [hnode] at hdst
      cases node with
      | file => rfl
      | dir files => exact absurd rfl (hdst files)
  rw [JobDir.exec, hrename, attempt_ok hquiet, JobDir.slots_insert, JobDir.slots_erase, hd]
  rwa [Books.put, Books.step_set hcounts] at h

/-- A file is unlinked, where there is one. -/
theorem fenced_unlink {R : Except Error Unit → Side Books (List Entry) → Prop}
    (hn : NoDir (v.files n))
    (hnone : v.files n = none → R (.error (.osError .fileNotFound)) (.inside v))
    (hfile : R (.ok ()) (.inside (v.put call n none))) :
    Fenced I call R E (perform (Op.unlink { name := n.val })) (.inside v) := by
  refine fenced_inside nofun nofun fun d c hd hquiet _ _ => ?_
  cases hnode : v.files n with
  | none =>
    have hunlink : d.unlink { name := n.val } = .error (.osError .fileNotFound) := by
      rw [← hd] at hnode
      simp only [JobDir.unlink, JobDir.lookup_slot, hnode]
    rw [JobDir.exec, hunlink, hquiet]
    change R (.error (.osError .fileNotFound)) (.inside (v.step call d.slots))
    rw [hd, Books.step_self]
    exact hnone hnode
  | some node =>
    cases node with
    | dir files => exact absurd hnode (hn files)
    | file data =>
      have hunlink : d.unlink { name := n.val } = .ok (d.erase n.val) := by
        rw [← hd] at hnode
        simp only [JobDir.unlink, JobDir.lookup_slot, hnode]
      rw [JobDir.exec, hunlink, attempt_ok hquiet, JobDir.slots_erase, hd]
      exact hfile

theorem fenced_unlinkParserState {R : Unit → Side Books (List Entry) → Prop} {file : StateFile}
    (hn : NoDir (v.files file.slot)) (h : R () (.inside (v.put call file.slot none))) :
    Fenced I call R E (unlinkParserState file) (.inside v) := by
  refine Fenced.bind (fenced_unlink (n := file.slot) hn (fun hnone => ?_) (fenced_fsync h))
  rw [Books.put_self call hnone] at h
  exact h

theorem fenced_unlinkTemp {R : Unit → Side Books (List Entry) → Prop} (hn : v.files n = none)
    (h : R () (.inside v)) : Fenced I call R E (unlinkTemp { name := n.val }) (.inside v) := by
  refine Fenced.bind (fenced_unlink (by rw [hn]; exact nofun) (fun _ => h) ?_)
  rw [Books.put_self call hn]
  exact h

/-- A state file is written through a temporary file that is not there before and not after. -/
theorem fenced_atomicWriteBytes {R : Unit → Side Books (List Entry) → Prop} {file : StateFile}
    (data : Bytes) (htemps : ∀ uuid, v.files (file.temp uuid) = none)
    (hn : NoDir (v.files file.slot))
    (h : R () (.inside (v.put call file.slot (some (.file data))))) :
    Fenced I call R E (atomicWriteBytes { name := file.name } data) (.inside v) := by
  refine Fenced.bind (Fenced.pure (Fenced.bind (fenced_uuid4 fun uuid _ => ?_)))
  have hcounts := file.not_counts_temp uuid
  have hne : file.slot ≠ file.temp uuid := (file.temp_ne_slot file uuid).symm
  refine Fenced.bind (fenced_create (n := file.temp uuid) (htemps uuid) ?_)
  rw [Books.put_eq_set call hcounts]
  refine Fenced.tryFinally (Fenced.bind (fenced_write (n := file.temp uuid) data
    (Books.files_set_self ..) ?_))
  rw [List.nil_append, Books.put_eq_set call hcounts, Books.set_set]
  refine Fenced.bind (fenced_fsync (Fenced.bind (fenced_rename (file.temp uuid)
    file.slot (Books.files_set_self ..) ?_ hcounts (fenced_fsync ?_))))
  · rw [Books.set_files, Function.update_of_ne hne]
    exact hn
  rw [Books.set_set, Books.set_self (htemps uuid)]
  refine fenced_unlinkTemp (n := file.temp uuid) ?_ h
  rw [Books.put_files, Function.update_of_ne hne.symm]
  exact htemps uuid

/-! ## The claim -/

theorem fenced_requireCurrentClaim {R : Unit → Side Books (List Entry) → Prop} {token : LeaseToken}
    (hheld : leases (v.files (StateFile.slot .processing)) token → R () (.inside v))
    (hlost : leases (v.files (StateFile.slot .processing)) token = false → ∀ message,
      E (.parserClaimLost message) (.inside v)) :
    Fenced I call R E (requireCurrentClaim token) (.inside v) := by
  have hfields : ∀ fields, smallJson (v.files (StateFile.slot .processing)) = .ok fields →
      leases (v.files (StateFile.slot .processing)) token =
        (Json.text? (Json.get "schema".toList fields) = some processingSchema &&
          Json.text? (Json.get "token".toList fields) = some token.val) := by
    intro fields h
    rw [leases, h]
  have hnone : ∀ e, smallJson (v.files (StateFile.slot .processing)) = .error e →
      leases (v.files (StateFile.slot .processing)) token = false := by
    intro e h
    rw [leases, h]
  refine Fenced.bind (fenced_isFile (n := StateFile.slot .processing) ?_)
  split
  · next hmissing =>
    refine hlost (hnone (.parserJobError "unsafe parser state file") ?_) _
    cases hnode : v.files (StateFile.slot .processing) with
    | none => rfl
    | some node =>
      cases node with
      | dir files => rfl
      | file data =>
        rw [hnode] at hmissing
        cases hmissing
  refine Fenced.bind (Fenced.tryCatch (fenced_readSmallJson (n := StateFile.slot .processing)
    (fun fields hread => ?_) fun e hread => hlost (hnone e hread) _))
  have hiff := hfields fields hread
  split
  · next hother => exact hlost (by rw [hiff]; simpa using hother) _
  · next hsame => exact hheld (by rw [hiff]; simpa using hsame)

/-- The marker of a new claim. -/
theorem fenced_createProcessingMarker {R : Unit → Side Books (List Entry) → Prop} {p : Parser}
    (hpid : p.pid < 2 ^ 32) (token : LeaseToken)
    (hn : v.files (StateFile.slot .processing) = none)
    (h : ∀ data, R () (.inside (v.set (StateFile.slot .processing) (some (.file data))))) :
    Fenced I call R E (createProcessingMarker p token) (.inside v) := by
  have hcounts : ¬ (StateFile.slot .processing).Counts := by
    rw [StateFile.counts_slot]
    exact nofun
  refine Fenced.bind (fenced_now fun now _ => Fenced.bind (Fenced.ofExcept (fun payload _ => ?_)
    fun e he => ?_))
  · refine Fenced.bind (fenced_create (n := StateFile.slot .processing) hn ?_)
    rw [Books.put_eq_set call hcounts]
    refine Fenced.bind (fenced_write (n := StateFile.slot .processing) payload
      (Books.files_set_self ..) (Fenced.bind (fenced_fsync (fenced_fsync ?_))))
    rw [List.nil_append, Books.put_eq_set call hcounts, Books.set_set]
    exact h payload
  · -- The process number is short enough to be written.
    have hwritable : (processingMarker p token now).Writable = true := by
      simpa [processingMarker, Json.Writable, Json.WritableFields] using
        Json.writable_nat (lt_trans hpid (by decide))
    obtain ⟨payload, hpayload⟩ := jsonBytes_ok hwritable
    exact absurd (hpayload.symm.trans he) nofun

/-- A stale claim is put aside. -/
theorem fenced_displaceStale {R : Bool → Side Books (List Entry) → Prop}
    (hprocessing : NoDir (v.files (StateFile.slot .processing)))
    (hstale : NoDir (v.files (StateFile.slot .processingStale)))
    (hbusy : R false (.inside v))
    (hfree : v.files (StateFile.slot .processing) = none → R true (.inside v))
    (haside : ∀ data, R true (.inside ((v.set (StateFile.slot .processing) none).set
      (StateFile.slot .processingStale) (some (.file data))))) :
    Fenced I call R E displaceStale (.inside v) := by
  refine Fenced.bind (fenced_exist (n := StateFile.slot .processing) ?_)
  cases hnode : v.files (StateFile.slot .processing) with
  | none => exact hfree hnode
  | some node =>
    cases node with
    | dir files => exact absurd hnode (hprocessing files)
    | file data =>
      refine Fenced.bind (fenced_isFile (n := StateFile.slot .processing) ?_)
      rw [hnode]
      refine Fenced.bind (Fenced.bind (fenced_kind (n := StateFile.slot .processing) ?_))
      rw [hnode]
      refine fenced_same nofun nofun fun d c _ _ _ _ => ⟨rfl, ?_⟩
      change Fenced I call R E (if !c.stale then pure false else do
        rename none StateFile.processing.name StateFile.processingStale.name
        fsync
        return true) (.inside v)
      cases c.stale with
      | false => exact hbusy
      | true =>
        refine Fenced.bind (fenced_rename (StateFile.slot .processing)
          (StateFile.slot .processingStale) hnode hstale ?_ (Fenced.bind (fenced_fsync ?_)))
        · rw [StateFile.counts_slot]
          exact nofun
        · rw [Books.put_eq_set call (by rw [StateFile.counts_slot]; exact nofun)]
          exact haside data

end Job

end RchProxy
