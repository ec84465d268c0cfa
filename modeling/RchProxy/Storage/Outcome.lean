import RchProxy.Storage.Load

/-!
# What a program on a job directory comes to

Three rules for a program that has the directory to itself, each with its cases: what holds where it
returns (`Returns`), that it returns and only looks (`Answers`), and that a file it writes appears
whole, wherever it stops (`safe_atomicWriteBytes`).
-/

namespace RchProxy

open Py Lib Lib.Prog

instance : Inhabited Choice := ⟨.quiet⟩

namespace Job

variable {α β : Type} {d : JobDir}

/-! ## Programs that return -/

/-- Wherever the program returns, `Q` holds. -/
abbrev Returns (Q : α → JobDir → Prop) (m : Job α) (d : JobDir) : Prop :=
  Safe JobDir.exec (fun _ => True) Q (fun _ _ => True) m d

variable {Q : α → JobDir → Prop}

theorem Returns.mono {Q' : α → JobDir → Prop} {m : Job α} (h : Returns Q m d)
    (hQ : ∀ a d', Q a d' → Q' a d') : Returns Q' m d :=
  Safe.mono h (fun a d' _ h => hQ a d' h) fun _ _ _ h => h

theorem Returns.ofExcept {x : Except Error α} (h : ∀ a, x = .ok a → Q a d) :
    Returns Q (Prog.ofExcept x) d := Safe.ofExcept .intro h fun _ _ => .intro

theorem Returns.perform {op : Op} {Q : op.Res → JobDir → Prop}
    (h : ∀ c, Q (d.exec c op).1 (d.exec c op).2) : Returns Q (Prog.perform op) d :=
  Safe.perform .intro fun c => ⟨.intro, h c⟩

theorem Returns.pure {a : α} (h : Q a d) : Returns Q (Pure.pure a : Job α) d := Safe.pure .intro h

theorem Returns.throw {e : Error} : Returns Q (throw e : Job α) d := Safe.throw .intro .intro

theorem Returns.ite {c : Prop} [Decidable c] {m m' : Job α} (h : c → Returns Q m d)
    (h' : ¬ c → Returns Q m' d) : Returns Q (if c then m else m') d := by
  split
  · next hc => exact h hc
  · next hc => exact h' hc

theorem Returns.bind {m : Job α} {f : α → Job β} {R : β → JobDir → Prop}
    (h : Returns (fun a d' => Returns R (f a) d') m d) : Returns R (m >>= f) d := Safe.bind h

theorem Returns.tryFinally {m : Job α} {cleanup : Job Unit}
    (h : Returns (fun a d' => Returns (fun _ d' => Q a d') cleanup d') m d) :
    Returns Q (Prog.tryFinally m cleanup) d :=
  Safe.tryFinally (Safe.mono h (fun _ _ _ h => h) fun _ d' _ _ => Safe.trivial cleanup d')

/-- An operation that changes the directory, where it returns. -/
theorem returns_attempt {fault : Option Errno} {result : Except Error JobDir}
    {Q : Unit → JobDir → Prop} (h : ∀ d', result = .ok d' → Q () d') :
    Returns Q (Prog.ofExcept (attempt fault d result).1) (attempt fault d result).2 := by
  refine Returns.ofExcept fun a ha => ?_
  cases fault with
  | some e => cases ha
  | none =>
    cases result with
    | ok d' => exact h d' rfl
    | error e => cases ha

theorem returns_fsync {Q : Unit → JobDir → Prop} (hQ : Q () d) : Returns Q fsync d :=
  .bind (.perform fun c => returns_attempt fun d' hd' => by
    cases hd'
    exact hQ)

/-- Reading a file. -/
theorem returns_read {Q : Bytes → JobDir → Prop} {p : Loc} (hQ : ∀ data, d.read p = .ok data → Q data d) :
    Returns Q (read p) d :=
  .bind (.perform fun _ => .ofExcept hQ)

theorem returns_sha256File {Q : Text → JobDir → Prop} {p : Loc}
    (hQ : ∀ data, d.read p = .ok data → Q (sha256 data) d) : Returns Q (sha256File p) d :=
  .bind (returns_read fun data hdata => .pure (hQ data hdata))

theorem returns_kind {Q : Option Kind → JobDir → Prop} {p : Loc} (hQ : Q (d.kind p) d) :
    Returns Q (kind p) d := ⟨.intro, fun _ => ⟨.intro, hQ⟩⟩

theorem returns_isDir {Q : Bool → JobDir → Prop} {p : Loc} (hQ : Q (d.kind p = some .dir) d) :
    Returns Q (isDir p) d := .bind (returns_kind (.pure hQ))

theorem returns_isFile {Q : Bool → JobDir → Prop} {p : Loc}
    (hQ : Q (match d.kind p with | some (.file _) => true | _ => false) d) :
    Returns Q (isFile p) d := by
  refine .bind (returns_kind ?_)
  split
  · next hkind =>
    rw [hkind] at hQ
    exact .pure hQ
  · next hkind =>
    split at hQ
    · next hfile => exact absurd hfile (hkind _)
    · exact .pure hQ

/-- The program leaves the directory as it is. -/
abbrev Keeps {α : Type} (m : Job α) (d : JobDir) : Prop := Returns (fun _ d' => d' = d) m d

theorem Keeps.seq {α β : Type} {m : Job α} {f : α → Job β} (h : Keeps m d) (hf : ∀ a, Keeps (f a) d) :
    Keeps (m >>= f) d :=
  .bind (h.mono fun a _ heq => heq ▸ hf a)

theorem keeps_isFile (p : Loc) : Keeps (isFile p) d := returns_isFile rfl

/-! ## Programs that look -/

section
/-- The program returns a value with `Q`, and leaves the directory as it is. -/
abbrev Answers (Q : α → Prop) (m : Job α) (d : JobDir) : Prop :=
  Safe JobDir.exec (· = d) (fun a _ => Q a) (fun _ _ => False) m d

variable {Q : α → Prop}

theorem Answers.bind {m : Job α} {f : α → Job β} {R : β → Prop}
    (h : Answers (fun a => Answers R (f a) d) m d) : Answers R (m >>= f) d := by
  refine Safe.bind (Safe.mono h ?_ fun _ _ _ h => h)
  rintro a _ rfl h
  exact h

theorem Answers.mono {Q' : α → Prop} {m : Job α} (h : Answers Q m d) (hQ : ∀ a, Q a → Q' a) :
    Answers Q' m d :=
  Safe.mono h (fun a _ _ h => hQ a h) fun _ _ _ h => h

theorem Answers.pure {a : α} (h : Q a) : Answers Q (Pure.pure a : Job α) d := Safe.pure rfl h

/-- A check that passes. -/
theorem Answers.pass {c : Prop} [Decidable c] {m m' : Job α} (hc : ¬ c) (h : Answers Q m' d) :
    Answers Q (if c then m else m') d := by
  rw [if_neg hc]
  exact h

theorem Answers.ofExcept {a : α} {x : Except Error α} (hx : x = .ok a) (h : Q a) :
    Answers Q (Prog.ofExcept x) d := by
  rw [hx]
  exact ⟨rfl, h⟩

theorem answers_kind (p : Loc) : Answers (· = d.kind p) (kind p) d :=
  ⟨rfl, fun _ => ⟨rfl, rfl⟩⟩

theorem answers_isDir {p : Loc} (h : d.kind p = some .dir) : Answers (· = true) (isDir p) d :=
  .bind ((answers_kind p).mono fun _ heq => .pure (by rw [heq, h]; rfl))

theorem answers_isFile (p : Loc) :
    Answers (· = match d.kind p with | some (.file _) => true | _ => false) (isFile p) d := by
  refine .bind ((answers_kind p).mono ?_)
  rintro _ rfl
  cases d.kind p with
  | none => exact .pure rfl
  | some kind => cases kind <;> exact .pure rfl

theorem answers_read {p : Loc} {data : Bytes} (h : d.read p = .ok data) :
    Answers (· = data) (read p) d :=
  .bind ⟨rfl, fun _ => ⟨rfl, .ofExcept h rfl⟩⟩

theorem answers_sha256File {p : Loc} {data : Bytes} (h : d.read p = .ok data) :
    Answers (· = sha256 data) (sha256File p) d :=
  .bind ((answers_read h).mono fun _ heq => .pure (congrArg sha256 heq))

end

/-! ## Files that appear whole -/

theorem tempName_ne (name : Text) (uuid : LeaseToken) : tempName name uuid ≠ name := by
  intro h
  have hlength := congrArg List.length h
  simp only [tempName, List.length_cons, List.length_append, List.cons_append] at hlength
  omega

/-- In the middle of a write: the name has what it had or the new bytes, and no other name has
changed but one of a temporary file. -/
structure Writing (name : Text) (data : Bytes) (d d' : JobDir) : Prop where
  target : d'.lookup name = d.lookup name ∨ d'.lookup name = some (.file data)
  other : ∀ n, n ≠ name → (∀ uuid, n ≠ tempName name uuid) → d'.lookup n = d.lookup n

/-- After a write: the name has the new bytes, and no other name has changed. -/
structure Wrote (name : Text) (data : Bytes) (d d' : JobDir) : Prop where
  target : d'.lookup name = some (.file data)
  other : ∀ n, n ≠ name → d'.lookup n = d.lookup n

namespace Writing

variable {name temp : Text} {data : Bytes} {d' : JobDir}

theorem refl : Writing name data d d := ⟨.inl rfl, fun _ _ _ => rfl⟩

/-- A temporary file has changed. -/
theorem insert (h : Writing name data d d') (uuid : LeaseToken) (node : Node) :
    Writing name data d (d'.insert (tempName name uuid) node) where
  target := by
    rw [AList.lookup_insert_ne (tempName_ne name uuid).symm]
    exact h.target
  other n hname htemp := by rw [AList.lookup_insert_ne (htemp uuid), h.other n hname htemp]

theorem erase (h : Writing name data d d') (uuid : LeaseToken) :
    Writing name data d (d'.erase (tempName name uuid)) where
  target := by
    rw [AList.lookup_erase_ne (tempName_ne name uuid).symm]
    exact h.target
  other n hname htemp := by rw [AList.lookup_erase_ne (htemp uuid), h.other n hname htemp]

/-- The temporary file has taken its place. -/
theorem publish (h : Writing name data d d') : Writing name data d (d'.insert name (.file data)) where
  target := .inr (AList.lookup_insert d')
  other n hname htemp := by rw [AList.lookup_insert_ne hname, h.other n hname htemp]

end Writing

section
variable {I : JobDir → Prop} {E : Error → JobDir → Prop} {Q : Unit → JobDir → Prop}

/-- An operation that changes the directory, or fails and leaves it. -/
theorem safe_attempt {fault : Option Errno} {result : Except Error JobDir} (hI : I d)
    (hok : ∀ d', result = .ok d' → I d' ∧ Q () d') (hE : ∀ e, E e d) :
    I (attempt fault d result).2 ∧ Safe JobDir.exec I Q E
      (Prog.ofExcept (attempt fault d result).1) (attempt fault d result).2 := by
  cases fault with
  | some e => exact ⟨hI, hI, hE _⟩
  | none =>
    cases result with
    | error e => exact ⟨hI, hI, hE _⟩
    | ok d' =>
      obtain ⟨hI', hQ⟩ := hok d' rfl
      exact ⟨hI', hI', hQ⟩

end

variable {name : Text} {data : Bytes} {d' : JobDir}

/-- A temporary file is removed, if it is there. -/
theorem safe_unlinkTemp (h : Writing name data d d') (uuid : LeaseToken) :
    Safe JobDir.exec (Writing name data d)
      (fun _ d'' => d'.lookup (tempName name uuid) = none → d'' = d') (fun _ _ => True)
      (unlinkTemp ⟨none, tempName name uuid⟩) d' := by
  have hresult : ∀ c : Choice,
      let r := attempt c.fault d' (d'.unlink ⟨none, tempName name uuid⟩)
      Writing name data d r.2 ∧ (d'.lookup (tempName name uuid) = none → r.2 = d') := by
    intro c
    cases c.fault with
    | some e => exact ⟨h, fun _ => rfl⟩
    | none =>
      simp only [JobDir.unlink]
      split
      · next hfile => exact ⟨h.erase uuid, fun hnone => by rw [hnone] at hfile; cases hfile⟩
      · exact ⟨h, fun _ => rfl⟩
      · exact ⟨h, fun _ => rfl⟩
  refine Safe.bind (Safe.perform h fun c => ?_)
  obtain ⟨hwriting, hsame⟩ := hresult c
  refine ⟨hwriting, ?_⟩
  split
  · exact ⟨hwriting, hsame⟩
  · exact ⟨hwriting, hsame⟩
  · exact ⟨hwriting, trivial⟩

/-- The temporary file, renamed to its name. -/
theorem rename_temp {temp : Text} (htemp : d'.lookup temp = some (.file data)) {d'' : JobDir}
    (h : d'.rename none temp name = .ok d'') : d'' = (d'.erase temp).insert name (.file data) := by
  simp only [JobDir.rename, htemp] at h
  split at h
  · next hfile => cases hfile
  · cases h
  · next hdir _ => cases hdir
  · next hdir _ => cases hdir
  · next hfile _ _ _ =>
    cases hfile
    cases h
    rfl

/-- A temporary file is filled and takes its place. -/
theorem safe_fillTemp (uuid : LeaseToken) (hnew : d.lookup (tempName name uuid) = none) :
    Safe JobDir.exec (Writing name data d)
      (fun _ d' => d'.lookup (tempName name uuid) = none ∧ Wrote name data d d') (fun _ _ => True)
      (do
        write ⟨none, tempName name uuid⟩ data
        fsync
        rename none (tempName name uuid) name
        fsync)
      (d.insert (tempName name uuid) (.file [])) := by
  have hne := tempName_ne name uuid
  have h₁ : Writing name data d (d.insert (tempName name uuid) (.file [])) :=
    Writing.refl.insert uuid _
  have hwrite : JobDir.write (d.insert (tempName name uuid) (.file []))
      ⟨none, tempName name uuid⟩ data =
        (d.insert (tempName name uuid) (.file [])).insert (tempName name uuid) (.file data) := by
    simp only [JobDir.write, AList.lookup_insert, List.nil_append]
  refine Safe.bind (Safe.bind ⟨h₁, fun c => safe_attempt h₁ ?_ fun _ => trivial⟩)
  rintro d₂ heq
  rw [hwrite] at heq
  cases heq
  have h₂ := h₁.insert uuid (.file data)
  refine ⟨h₂, Safe.bind (Safe.bind ⟨h₂, fun c => safe_attempt h₂ ?_ fun _ => trivial⟩)⟩
  rintro d₃ heq
  cases heq
  refine ⟨h₂, Safe.bind (Safe.bind ⟨h₂, fun c => safe_attempt h₂ ?_ fun _ => trivial⟩)⟩
  rintro d₄ hrename
  rw [rename_temp (AList.lookup_insert _) hrename]
  have h₄ := (h₂.erase uuid).publish
  refine ⟨h₄, Safe.bind ⟨h₄, fun c => safe_attempt h₄ ?_ fun _ => trivial⟩⟩
  rintro d₅ heq
  cases heq
  refine ⟨h₄, ?_, AList.lookup_insert _, fun n hn => ?_⟩
  · rw [AList.lookup_insert_ne hne, AList.lookup_erase]
  · rw [AList.lookup_insert_ne hn]
    by_cases htemp : n = tempName name uuid
    · rw [htemp, AList.lookup_erase, hnew]
    · rw [AList.lookup_erase_ne htemp, AList.lookup_insert_ne htemp, AList.lookup_insert_ne htemp]

/-- A file that is written appears whole: wherever the write stops, the name has what it had or the
new bytes, and where it returns it has the new bytes and nothing else is left. -/
theorem safe_atomicWriteBytes (name : Text) (data : Bytes) (d : JobDir) :
    Safe JobDir.exec (Writing name data d) (fun _ d' => Wrote name data d d') (fun _ _ => True)
      (atomicWriteBytes ⟨none, name⟩ data) d := by
  have hstart : Writing name data d d := .refl
  refine Safe.bind (Safe.pure hstart (Safe.bind ⟨hstart, fun c => ⟨hstart, ?_⟩⟩))
  refine Safe.bind (Safe.bind ⟨hstart, fun c' => safe_attempt hstart ?_ fun _ => trivial⟩)
  intro d₁ hcreate
  -- the temporary file is new
  obtain ⟨hnew, rfl⟩ : d.lookup (tempName name c.uuid) = none ∧
      d₁ = d.insert (tempName name c.uuid) (.file []) := by
    change d.create ⟨none, tempName name c.uuid⟩ = .ok d₁ at hcreate
    simp only [JobDir.create] at hcreate
    split at hcreate
    · cases hcreate
    · next hnone =>
      cases hcreate
      exact ⟨hnone, rfl⟩
  have hfill := @safe_fillTemp d name data c.uuid hnew
  refine ⟨hstart.insert c.uuid _, Safe.tryFinally (Safe.mono hfill ?_ ?_)⟩
  · rintro _ d' h ⟨hnone, hwrote⟩
    refine Safe.mono (safe_unlinkTemp h c.uuid) (fun _ d'' _ hsame => ?_) fun _ _ _ h => h
    rw [hsame hnone]
    exact hwrote
  · rintro _ d' h -
    exact Safe.mono (safe_unlinkTemp h c.uuid) (fun _ _ _ _ => trivial) fun _ _ _ h => h

end Job

end RchProxy
