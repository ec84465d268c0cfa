import RchProxy.Parser.Books

/-!
# Balanced books

The invariant of the retry accounting (`Books.Balanced`): between two sections under the lock,
`.parse_attempts.json` counts the attempts that failed on their lease since the last commit or forced
claim, and `.parse_failed` is there exactly when they are more than `parser_retry_count`. What each
change of the books does to it, and what `_record_failure` does to the books.
-/

namespace RchProxy

open Py Lib Lib.Prog

/-! ## The invariant -/

/-- What holds of the books within a section too: no temporary file is left over, no directory has
the name of a state file, and every token is that of one call. -/
structure Books.Orderly (v : Books) : Prop where
  temps : ∀ (file : StateFile) (uuid : LeaseToken), v.files (file.temp uuid) = none
  places : ∀ file : StateFile, NoDir (v.files file.slot)
  tokens : ∀ call call' token force force', .claimed call token force ∈ v.log →
    .claimed call' token force' ∈ v.log → call = call'

/-- What holds of the books between the sections: the two files tell how many attempts have failed,
and a call that holds the lease and has not failed yet has a retry left. -/
structure Books.Balanced (retry : Nat) (v : Books) : Prop extends v.Orderly where
  attempts : attemptsOf (v.files (StateFile.slot .parseAttempts)) = some (failures v.log)
  failed : (v.files (StateFile.slot .parseFailed)).isSome ↔ retry < failures v.log
  bounded : failures v.log ≤ retry + 1
  lease : ∀ call token force, .claimed call token force ∈ v.log →
    leases (v.files (StateFile.slot .processing)) token → .failed call ∉ v.log →
    failures v.log ≤ retry

namespace Books

variable {retry : Nat} {v : Books} {call : Nat}

/-- The books after a note. -/
def enter (v : Books) (e : Entry) : Books := { v with log := e :: v.log }

@[simp] theorem enter_files (e : Entry) : (v.enter e).files = v.files := rfl

@[simp] theorem enter_log (e : Entry) : (v.enter e).log = e :: v.log := rfl

theorem Orderly.enter (h : v.Orderly) {e : Entry}
    (he : ∀ call token force, e ≠ .claimed call token force) : (v.enter e).Orderly where
  temps := h.temps
  places := h.places
  tokens := by
    intro call call' token force force' hmem hmem'
    rcases List.mem_cons.mp hmem with heq | hmem
    · exact absurd heq.symm (he _ _ _)
    rcases List.mem_cons.mp hmem' with heq | hmem'
    · exact absurd heq.symm (he _ _ _)
    exact h.tokens call call' token force force' hmem hmem'

theorem Orderly.files (h : v.Orderly) {files : Slot → Option Node}
    (htemps : ∀ (file : StateFile) (uuid : LeaseToken), files (file.temp uuid) = none)
    (hplaces : ∀ file : StateFile, NoDir (files file.slot)) :
    (⟨files, v.log⟩ : Books).Orderly where
  temps := htemps
  places := hplaces
  tokens := h.tokens

/-- A state file is written, or unlinked. -/
theorem Orderly.put (h : v.Orderly) (file : StateFile) {node : Option Node} (hnode : NoDir node) :
    (v.put call file.slot node).Orderly := by
  have hfiles : (⟨Function.update v.files file.slot node, v.log⟩ : Books).Orderly := by
    refine h.files (fun other uuid => ?_) fun other => ?_
    · rw [update_slot_temp]
      exact h.temps other uuid
    · by_cases heq : other = file
      · rw [heq, Function.update_self]
        exact hnode
      · rw [update_slot heq]
        exact h.places other
  change (⟨_, ite _ _ _⟩ : Books).Orderly
  split
  · exact hfiles
  · exact hfiles.enter (e := .changed call) nofun

/-- A call claims the job with a new token. -/
theorem Orderly.claim (h : v.Orderly) {token : LeaseToken} {force : Bool}
    (hfresh : ∀ u force, .claimed u token force ∉ v.log) :
    (v.enter (.claimed call token force)).Orderly where
  temps := h.temps
  places := h.places
  tokens := by
    intro u u' token' force' force'' hmem hmem'
    rcases List.mem_cons.mp hmem with heq | hmem
    · cases heq
      rcases List.mem_cons.mp hmem' with heq' | hmem'
      · cases heq'
        rfl
      · exact absurd hmem' (hfresh _ _)
    · rcases List.mem_cons.mp hmem' with heq' | hmem'
      · cases heq'
        exact absurd hmem (hfresh _ _)
      · exact h.tokens u u' token' force' force'' hmem hmem'

/-- Without the two files, and after a commit or a forced claim. -/
theorem Orderly.balanced (h : v.Orderly)
    (hattempts : v.files (StateFile.slot .parseAttempts) = none)
    (hfailed : v.files (StateFile.slot .parseFailed) = none) (hlog : failures v.log = 0) :
    v.Balanced retry where
  toOrderly := h
  attempts := by rw [hattempts, hlog]; rfl
  failed := by simp [hfailed, hlog]
  bounded := by omega
  lease := fun _ _ _ _ _ _ => by omega

/-- A change that is none of the two files', and leaves nobody a lease. -/
theorem Balanced.set (h : v.Balanced retry) {file : StateFile} (hcounts : ¬ file.slot.Counts)
    {node : Option Node} (hnode : NoDir node)
    (hlease : file = .processing → ∀ token, leases node token = false) :
    (v.set file.slot node).Balanced retry where
  toOrderly := by
    rw [← put_eq_set 0 hcounts]
    exact h.toOrderly.put file hnode
  attempts := by
    rw [set_files, Function.update_of_ne fun heq => hcounts (.inl heq.symm)]
    exact h.attempts
  failed := by
    rw [set_files, Function.update_of_ne fun heq => hcounts (.inr heq.symm)]
    exact h.failed
  bounded := h.bounded
  lease := by
    intro call token force hmem hheld hnot
    by_cases hfile : file = .processing
    · subst hfile
      rw [files_set_self, hlease rfl token] at hheld
      cases hheld
    · rw [set_files, update_slot (Ne.symm hfile)] at hheld
      exact h.lease call token force hmem hheld hnot

/-- A call claims a job with a retry left. -/
theorem Balanced.claim (h : v.Balanced retry) {token : LeaseToken}
    (hfailed : v.files (StateFile.slot .parseFailed) = none)
    (hfresh : ∀ u force, .claimed u token force ∉ v.log) (data : Bytes) :
    ((v.set (StateFile.slot .processing) (some (.file data))).enter
      (.claimed call token false)).Balanced retry := by
  have hcounts : ¬ (StateFile.slot .processing).Counts := by
    rw [StateFile.counts_slot]
    exact nofun
  have hretry : failures v.log ≤ retry := by
    by_contra hlt
    have hsome := h.failed.mpr (Nat.lt_of_not_le hlt)
    rw [hfailed] at hsome
    cases hsome
  refine ⟨Orderly.claim ?_ hfresh, ?_, ?_, h.bounded, fun _ _ _ _ _ _ => hretry⟩
  · rw [← put_eq_set call hcounts]
    exact h.toOrderly.put .processing (noDir_file data)
  · rw [enter_files, set_files, Function.update_of_ne fun heq => hcounts (.inl heq.symm)]
    exact h.attempts
  · rw [enter_files, set_files, Function.update_of_ne fun heq => hcounts (.inr heq.symm)]
    exact h.failed

/-- A call claims a job by force, where the two files are gone. -/
theorem Orderly.force (h : v.Orderly) {token : LeaseToken}
    (hattempts : v.files (StateFile.slot .parseAttempts) = none)
    (hfailed : v.files (StateFile.slot .parseFailed) = none)
    (hfresh : ∀ u force, .claimed u token force ∉ v.log) (data : Bytes) :
    ((v.set (StateFile.slot .processing) (some (.file data))).enter
      (.claimed call token true)).Balanced retry := by
  have hcounts : ¬ (StateFile.slot .processing).Counts := by
    rw [StateFile.counts_slot]
    exact nofun
  refine Orderly.balanced (Orderly.claim ?_ hfresh) ?_ ?_ rfl
  · rw [← put_eq_set call hcounts]
    exact h.put .processing (noDir_file data)
  · rw [enter_files, set_files, Function.update_of_ne fun heq => hcounts (.inl heq.symm)]
    exact hattempts
  · rw [enter_files, set_files, Function.update_of_ne fun heq => hcounts (.inr heq.symm)]
    exact hfailed

end Books

/-! ## The two files -/

/-- The attempts that are written are read back. -/
theorem failureState_attempts (config : Config) (attempts : Nat) (error : Error) {now : Text}
    (hretry : config.parserRetryCount ≤ 100) (hattempts : attempts ≤ 101) (hnow : now.length ≤ 32) :
    ∃ data, jsonBytes (.obj (failureState config attempts error now)) = .ok data ∧
      attemptsOf (some (.file data)) = some attempts := by
  have hwritable : (Json.obj (failureState config attempts error now)).Writable = true := by
    simpa [failureState, Json.Writable, Json.WritableFields] using
      And.intro (Json.writable_nat (show attempts < 10 ^ 10 by omega))
        (Json.writable_nat (show config.parserRetryCount < 10 ^ 10 by omega))
  obtain ⟨data, hdata⟩ := jsonBytes_ok hwritable
  have hsize : data.length ≤ 65536 := by
    refine (jsonBytes_length hdata).trans ?_
    have hmessage : (error.describe.take 2000).length ≤ 2000 := by
      rw [List.length_take]
      exact Nat.min_le_left _ _
    have hconstants : 2 + ((Json.Style.indented 2).newline 0).length +
        5 * (1 + ((Json.Style.indented 2).newline (0 + 1)).length + 4) + 6 * ("schema".toList.length +
          "attempts".toList.length + "retry_count".toList.length + "last_error".toList.length +
          "last_failed_at".toList.length + failureSchema.length) + 2 * Json.maxStrDigits +
        9 ≤ 20000 := by decide
    simp only [failureState, Json.weight, Json.weightFields]
    omega
  have hplain : (Json.obj (failureState config attempts error now)).Plain :=
    ⟨trivial, trivial, trivial, trivial, trivial, trivial⟩
  have hget : Json.get "attempts".toList
      (Json.sortPairs (Json.sortFields (failureState config attempts error now))) =
      some (.int attempts) :=
    Json.get_sortKeys (v := .int attempts) (by simp [failureState])
      (List.mem_cons_of_mem _ List.mem_cons_self)
  refine ⟨data, hdata, ?_⟩
  have hread : smallJson (some (.file data)) =
      .ok (Json.sortPairs (Json.sortFields (failureState config attempts error now))) := by
    rw [smallJson, if_neg (Nat.not_lt.mpr hsize), loadsBytes_jsonBytes hdata hplain]
    rfl
  rw [attemptsOf, hread]
  · simp only [hget]
    rfl
  · rintro ⟨⟩

/-- A marker is one token's at most. -/
theorem leases_unique {marker : Option Node} {token token' : LeaseToken} (h : leases marker token)
    (h' : leases marker token') : token = token' := by
  unfold leases at h h'
  cases hread : smallJson marker with
  | error e =>
    rw [hread] at h
    cases h
  | ok state =>
    rw [hread] at h h'
    simp only [Bool.and_eq_true, decide_eq_true_eq] at h h'
    exact Subtype.ext (Option.some.inj (h.2.symm.trans h'.2))

namespace Books

variable {retry : Nat} {v : Books} {call : Nat} {n : Slot} {node : Option Node}

@[simp] theorem failures_put : failures (v.put call n node).log = failures v.log := by
  rcases v.log_step call (Function.update v.files n node) with h | h
  · exact congrArg failures h
  · exact (congrArg failures h).trans (failures_changed _ _)

theorem mem_log_put {e : Entry} (h : e ∈ v.log) : e ∈ (v.put call n node).log := by
  rcases v.log_step call (Function.update v.files n node) with hlog | hlog
  · exact (congrArg (e ∈ ·) hlog).mpr h
  · exact (congrArg (e ∈ ·) hlog).mpr (List.mem_cons_of_mem _ h)

theorem claimed_mem_log_put {u : Nat} {token : LeaseToken} {force : Bool} :
    .claimed u token force ∈ (v.put call n node).log ↔ .claimed u token force ∈ v.log := by
  refine ⟨fun h => ?_, mem_log_put⟩
  rcases v.log_step call (Function.update v.files n node) with hlog | hlog
  · exact (congrArg (_ ∈ ·) hlog).mp h
  · exact (List.mem_cons.mp ((congrArg (_ ∈ ·) hlog).mp h)).resolve_left nofun

/-- What a failed attempt leaves: one attempt more, and the mark where the retries are used up. -/
theorem Balanced.fail (h : v.Balanced retry) {token : LeaseToken} {force : Bool}
    (hclaimed : .claimed call token force ∈ v.log)
    (hheld : leases (v.files (StateFile.slot .processing)) token)
    (hopen : .failed call ∉ v.log) {data : Bytes} {mark : Option Node} (hmark : NoDir mark)
    (hdata : attemptsOf (some (.file data)) = some (failures v.log + 1))
    (hexhausted : mark.isSome ↔ retry < failures v.log + 1) :
    (((v.enter (.failed call)).put call (StateFile.slot .parseAttempts) (some (.file data))).put call
      (StateFile.slot .parseFailed) mark).Balanced retry := by
  have hretry := h.lease call token force hclaimed hheld hopen
  refine ⟨((h.toOrderly.enter (e := .failed call) nofun).put .parseAttempts (noDir_file data)).put
    .parseFailed hmark, ?_, ?_, ?_, ?_⟩
  · rw [put_files, update_slot (by decide), put_files, Function.update_self, failures_put,
      failures_put, enter_log, failures_failed]
    exact hdata
  · rw [put_files, Function.update_self, failures_put, failures_put, enter_log, failures_failed]
    exact hexhausted
  · rw [failures_put, failures_put, enter_log, failures_failed]
    omega
  · intro u token' force' hmem hheld' hnot
    rw [claimed_mem_log_put, claimed_mem_log_put] at hmem
    have hmem : .claimed u token' force' ∈ v.log := (List.mem_cons.mp hmem).resolve_left nofun
    rw [put_files, update_slot (by decide), put_files, update_slot (by decide), enter_files] at hheld'
    rw [leases_unique hheld' hheld] at hmem
    rw [h.tokens u call token force' force hmem hclaimed] at hnot
    exact absurd (mem_log_put (mem_log_put List.mem_cons_self)) hnot

end Books

/-! ## Failures -/

namespace Job

variable {I : Books → Prop} {call retry : Nat} {v : Books}
  {E : Error → Side Books (List Entry) → Prop}

theorem fenced_failureCount {R : Nat → Side Books (List Entry) → Prop} {attempts : Nat}
    (hattempts : attemptsOf (v.files (StateFile.slot .parseAttempts)) = some attempts)
    (h : R attempts (.inside v)) : Fenced I call R E failureCount (.inside v) := by
  refine Fenced.bind (fenced_exist (n := StateFile.slot .parseAttempts) ?_)
  cases hnode : v.files (StateFile.slot .parseAttempts) with
  | none =>
    rw [hnode] at hattempts
    cases hattempts
    exact h
  | some node =>
    have hread : ∃ fields, smallJson (some node) = .ok fields ∧
        Json.int? (Json.get "attempts".toList fields) = some (.ofNat attempts) := by
      rw [hnode, attemptsOf] at hattempts
      · split at hattempts
        · next fields hfields =>
          split at hattempts
          · next hint =>
            cases hattempts
            exact ⟨fields, hfields, hint⟩
          · cases hattempts
        · cases hattempts
      · exact nofun
    obtain ⟨fields, hfields, hint⟩ := hread
    refine Fenced.bind (fenced_readSmallJson (n := StateFile.slot .parseAttempts)
      (fun fields' hfields' => ?_) fun e he => ?_)
    · rw [hnode, hfields] at hfields'
      cases hfields'
      rw [hint]
      exact h
    · rw [hnode, hfields] at he
      cases he

/-- A failure under a lease is counted, and marked where the retries are used up. -/
theorem fenced_recordFailure {R : Bool → Side Books (List Entry) → Prop} (config : Config)
    (error : Error) (hconfig : config.parserRetryCount ≤ 100) {attempts : Nat}
    (hattempts : attemptsOf (v.files (StateFile.slot .parseAttempts)) = some attempts)
    (hretry : attempts ≤ config.parserRetryCount)
    (hfailed : v.files (StateFile.slot .parseFailed) = none)
    (htemps : ∀ (file : StateFile) (uuid : LeaseToken), v.files (file.temp uuid) = none)
    (hplaces : ∀ file : StateFile, NoDir (v.files file.slot))
    (h : ∀ data mark, attemptsOf (some (.file data)) = some (attempts + 1) → NoDir mark →
      (mark.isSome ↔ config.parserRetryCount < attempts + 1) →
      R (config.parserRetryCount < attempts + 1) (.inside ((v.put call
        (StateFile.slot .parseAttempts) (some (.file data))).put call
        (StateFile.slot .parseFailed) mark))) :
    Fenced I call R E (recordFailure config error) (.inside v) := by
  refine Fenced.bind (fenced_failureCount hattempts (Fenced.bind (fenced_now fun now hnow => ?_)))
  obtain ⟨data, hdata, hread⟩ := failureState_attempts config (attempts + 1) error
    hconfig (by omega) hnow
  have hwritable : ∃ data', jsonBytes (.obj (failureState config (attempts + 1) error now ++
      [("status".toList, .str "parse_failed_retries_exhausted".toList)])) = .ok data' := by
    refine jsonBytes_ok ?_
    simpa [failureState, Json.Writable, Json.WritableFields] using
      And.intro (Json.writable_nat (show attempts + 1 < 10 ^ 10 by omega))
        (Json.writable_nat (show config.parserRetryCount < 10 ^ 10 by omega))
  refine Fenced.bind (Fenced.ofExcept (fun data' hdata' => ?_) fun e he => ?_)
  · cases hdata.symm.trans hdata'
    refine Fenced.bind (fenced_atomicWriteBytes data (htemps .parseAttempts)
      (hplaces .parseAttempts) ?_)
    have hother : (v.put call (StateFile.slot .parseAttempts) (some (.file data))).files
        (StateFile.slot .parseFailed) = v.files (StateFile.slot .parseFailed) := by
      rw [Books.put_files, update_slot (by decide)]
    dsimp only
    split
    · next hexhausted =>
      refine Fenced.bind (Fenced.ofExcept (fun data' _ => ?_) fun e he => ?_)
      · refine Fenced.bind (fenced_atomicWriteBytes data' (fun uuid => ?_) ?_ ?_)
        · rw [Books.put_files, update_slot_temp]
          exact htemps .parseFailed uuid
        · rw [hother]
          exact hplaces .parseFailed
        · exact h data _ hread (noDir_file data') (iff_of_true rfl hexhausted)
      · obtain ⟨data', hdata'⟩ := hwritable
        exact absurd (hdata'.symm.trans he) nofun
    · next hleft =>
      have hmark := h data none hread noDir_none (iff_of_false nofun hleft)
      rw [Books.put_self call (hother.trans hfailed)] at hmark
      exact hmark
  · exact absurd (hdata.symm.trans he) nofun

end Job

end RchProxy
