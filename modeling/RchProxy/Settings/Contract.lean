import RchProxy.Settings.Mapping
import RchProxy.Settings.Shell

/-!
# The installer and the services agree

The two readers of the configuration cut lines and take off white space differently: a record of
`awk` ends at a line feed, a line of `parse_env_file` at any line boundary of Unicode. They agree on
the shared settings exactly when no such boundary and no other white space is in the way
(`contract_agrees_iff`).
-/

namespace RchProxy

open Py Lib

/-- The settings the installer looks up. -/
inductive ContractKey where
  | serviceUser
  | serviceGroup
  | outputDir
  | logDir
  deriving DecidableEq, Repr

namespace ContractKey

/-- The key in the file. -/
def key : ContractKey → String
  | serviceUser => "SERVICE_USER"
  | serviceGroup => "SERVICE_GROUP"
  | outputDir => "OUTPUT_DIR"
  | logDir => "LOG_DIR"

/-- The `CRCH_DEFAULT_` constant. -/
def fallback : ContractKey → String
  | serviceUser => "commercialrchproxy"
  | serviceGroup => "commercialrchproxy"
  | outputDir => "/var/lib/commercialrchproxy/jobs"
  | logDir => "/var/log/commercialrchproxy"

/-- Two texts name the same account, or the same directory. -/
def Same : ContractKey → Text → Text → Prop
  | serviceUser, a, b => a = b
  | serviceGroup, a, b => a = b
  | outputDir, a, b => purePath a = purePath b
  | logDir, a, b => purePath a = purePath b

end ContractKey

/-- The value of the shell is the setting of the services. -/
def Settings.Agrees (s : Settings) : ContractKey → Text → Prop
  | .serviceUser, value => value = s.serviceUser.val
  | .serviceGroup, value => value = s.serviceGroup.val
  | .outputDir, value => purePath value = s.outputDir.val
  | .logDir, value => purePath value = s.logDir.val

section
variable (l : Locale)

/-- The lines of Python in a record of the shell after its first one: those behind a line boundary
that is no line feed and does not precede the record's text. -/
def hiddenLines (record : Text) : List Text :=
  pieces isLineBreak ((record.dropWhile l.space).dropWhile (!isLineBreak ·))

/-- Nothing that Python takes off or cuts is in a value of the shell. -/
def IsPlain (value : Text) : Prop :=
  Bare isWhitespace value ∧ ∀ c ∈ value, isLineBreak c = false

/-- A setting reads the same to both: the value of the record that sets it is plain, and where no
record sets it, a line hidden in a record sets it to its default only. -/
structure Legible (text : Text) (k : ContractKey) : Prop where
  plain : ∀ record ∈ pieces (· == '\n') text, ∀ value,
    contractSetting l record = some (k.key.toList, value) → IsPlain value
  hidden : (∀ record ∈ pieces (· == '\n') text, ∀ value,
      contractSetting l record ≠ some (k.key.toList, value)) →
    ∀ record ∈ pieces (· == '\n') text, ∀ line ∈ hiddenLines l record, ∀ value,
      envEntry line = some (k.key.toList, value) → k.Same value k.fallback.toList

end

/-! ## The lines of Python in a record -/

section
variable {l : Locale}

/-- The line of Python that begins a record's text, behind white space that may hold boundaries. -/
theorem pieces_first_line {s f rest : Text} (hs : ∀ c ∈ s, isWhitespace c) (hf : f ≠ [])
    (hfree : ∀ c ∈ f, isLineBreak c = false)
    (hrest : rest = [] ∨ ∃ b y, isLineBreak b ∧ rest = b :: y) :
    ∃ blanks s', (∀ line ∈ blanks, ∀ c ∈ line, isWhitespace c) ∧ (∀ c ∈ s', isWhitespace c) ∧
      pieces isLineBreak (s ++ f ++ rest) = blanks ++ (s' ++ f) :: pieces isLineBreak rest := by
  have hlast : ∀ w, (∀ c ∈ w, isLineBreak c = false) →
      pieces isLineBreak (w ++ f ++ rest) = (w ++ f) :: pieces isLineBreak rest := by
    intro w hw
    have hline : pieces isLineBreak (w ++ f) = [w ++ f] :=
      pieces_of_free (by simp [hf]) fun c hc => (List.mem_append.mp hc).elim (hw c) (hfree c)
    rcases hrest with rfl | ⟨b, y, hb, rfl⟩
    · rw [List.append_nil, hline, pieces_nil]
    · rw [pieces_append_cons hb, hline, ← List.nil_append (b :: y), pieces_append_cons hb, pieces_nil]
      rfl
  obtain ⟨w, hw, rfl | ⟨x, a, ha, rfl⟩⟩ := exists_last_run isLineBreak s
  · exact ⟨[], s, nofun, hs, hlast s hw⟩
  · refine ⟨pieces isLineBreak x, w, ?_, ?_, ?_⟩
    · exact fun line hline c hc => hs c (List.mem_append_left _ (mem_of_mem_pieces hline hc))
    · exact fun c hc => hs c (by simp [hc])
    · rw [List.append_assoc, List.append_assoc, List.cons_append, pieces_append_cons ha,
        ← List.append_assoc, hlast w hw]

theorem isEnvLine_of_blank {line : Text} (h : ∀ c ∈ line, isWhitespace c) : isEnvLine line = false := by
  simp [isEnvLine, stripBy_of_all h]

theorem isEnvLine_of_comment {s f : Text} (hs : ∀ c ∈ s, isWhitespace c) (hf : f.head? = some '#') :
    isEnvLine (s ++ f) = false := by
  have hstrip := stripBy_append_left hs f
  have hhead : (stripBy isWhitespace f).head? = some '#' :=
    head?_stripBy hf (show isWhitespace '#' = false by decide)
  simp [isEnvLine, hstrip, hhead]

theorem isEnvLine_of_head {s f : Text} {c : Char} (hs : ∀ c ∈ s, isWhitespace c)
    (hf : f.head? = some c) (hc : isWhitespace c = false) (hcomment : c ≠ '#') :
    isEnvLine (s ++ f) = true := by
  have hstrip := stripBy_append_left hs f
  have hhead := head?_stripBy hf hc
  have hne : stripBy isWhitespace f ≠ [] := fun heq => by simp [heq] at hhead
  simp [isEnvLine, hstrip, hhead, hne, hcomment]

theorem isContractKey_free {key : Text} (h : isContractKey key) :
    ∀ c ∈ key, isWhitespace c = false ∧ c ≠ '#' := by
  have hchar : ∀ c : Char, (c.isUpper || c.isDigit || c = '_') = true →
      isWhitespace c = false ∧ c ≠ '#' := by
    intro c hc
    constructor
    · have hupper : c.isUpper = decide (c.val ≥ 'A'.val ∧ c.val ≤ 'Z'.val) := rfl
      simp only [hupper, Char.isDigit, Bool.or_eq_true, Bool.and_eq_true, decide_eq_true_eq,
        ge_iff_le, UInt32.le_iff_toNat_le] at hc
      rcases hc with (⟨h₁, h₂⟩ | ⟨h₁, h₂⟩) | rfl
      · exact isWhitespace_of_printable (le_trans (by decide) h₁) (le_trans h₂ (by decide))
      · exact isWhitespace_of_printable (le_trans (by decide) h₁) (le_trans h₂ (by decide))
      · decide
    · rintro rfl
      revert hc
      decide
  cases key with
  | nil => simp
  | cons c rest =>
    simp only [isContractKey, Bool.and_eq_true, List.all_eq_true] at h
    refine List.forall_mem_cons.mpr ⟨hchar c (by rw [h.1]; rfl), fun d hd => hchar d (h.2 d hd)⟩

/-- The record's text begins with a character that is no line boundary. -/
theorem pieces_record {record : Text} {c : Char}
    (hhead : (record.dropWhile l.space).head? = some c) (hc : isLineBreak c = false) :
    ∃ blanks s', (∀ line ∈ blanks, ∀ c ∈ line, isWhitespace c) ∧ (∀ c ∈ s', isWhitespace c) ∧
      pieces isLineBreak record =
        blanks ++ (s' ++ (record.dropWhile l.space).takeWhile (!isLineBreak ·)) ::
          hiddenLines l record := by
  generalize hrest : record.dropWhile l.space = t at hhead
  have hrecord : record.takeWhile l.space ++ t.takeWhile (!isLineBreak ·) ++
      t.dropWhile (!isLineBreak ·) = record := by
    rw [List.append_assoc, List.takeWhile_append_dropWhile, ← hrest,
      List.takeWhile_append_dropWhile]
  have hblank : ∀ c ∈ record.takeWhile l.space, isWhitespace c :=
    fun c hc => l.unicode c (List.mem_takeWhile_imp hc)
  have hne : t.takeWhile (!isLineBreak ·) ≠ [] := by
    cases t with
    | nil => cases hhead
    | cons d t =>
      cases hhead
      simp [hc]
  have hfree : ∀ c ∈ t.takeWhile (!isLineBreak ·), isLineBreak c = false := by
    intro c hc
    simpa using List.mem_takeWhile_imp hc
  have htail : t.dropWhile (!isLineBreak ·) = [] ∨
      ∃ b y, isLineBreak b ∧ t.dropWhile (!isLineBreak ·) = b :: y := by
    cases h : t.dropWhile (!isLineBreak ·) with
    | nil => exact .inl rfl
    | cons b y =>
      have hb := List.head?_dropWhile_not (!isLineBreak ·) t
      rw [h] at hb
      exact .inr ⟨b, y, by simpa using hb, rfl⟩
  obtain ⟨blanks, s', hblanks, hs', hpieces⟩ := pieces_first_line hblank hne hfree htail
  rw [hrecord] at hpieces
  exact ⟨blanks, s', hblanks, hs', by rw [hpieces, hiddenLines, hrest]⟩

theorem bare_of_free {key : Text} (h : ∀ c ∈ key, isWhitespace c = false) : Bare isWhitespace key :=
  ⟨fun c hc => h c (List.mem_of_head? hc), fun c hc => h c (List.mem_of_getLast? hc)⟩

/-- The line of Python that reads the same setting as a record: its value ends at the first line
boundary behind the `=`. Every other line of the record is blank or hidden. -/
theorem exists_setting_line {record key value : Text}
    (hset : contractSetting l record = some (key, value)) (hkey : isContractKey key)
    (hlines : ∀ line ∈ pieces isLineBreak record, isEnvLine line → (envEntry line).isSome) :
    ∃ line ∈ pieces isLineBreak record, ∃ front rest, value = stripBy l.space (front ++ rest) ∧
      (∀ c ∈ front, isLineBreak c = false) ∧ (rest = [] ∨ ∃ b y, isLineBreak b ∧ rest = b :: y) ∧
      envEntry line = some (key, unquote (stripBy isWhitespace front)) ∧
      ∀ line' ∈ pieces isLineBreak record,
        line' = line ∨ isEnvLine line' = false ∨ line' ∈ hiddenLines l record := by
  unfold contractSetting at hset
  split at hset
  swap
  · cases hset
  obtain ⟨⟨left, right⟩, hsplit, hpair⟩ := Option.map_eq_some_iff.mp hset
  obtain ⟨rfl, rfl⟩ : stripBy l.space left = key ∧ stripBy l.space right = value := by
    simpa using hpair
  obtain ⟨hleft, rfl⟩ := splitEquals_eq_some hsplit
  obtain ⟨a, b, ha, hb, hbare, hab⟩ := stripBy_spec l.space left
  generalize stripBy l.space left = key at hkey hbare hab ⊢
  have hfree := isContractKey_free hkey
  obtain ⟨c, tail, rfl⟩ : ∃ c tail, key = c :: tail := by
    cases key with
    | nil => cases hkey
    | cons c tail => exact ⟨c, tail, rfl⟩
  have hc := hfree c List.mem_cons_self
  have hbreak : ∀ d, isWhitespace d = false → isLineBreak d = false := fun d hd =>
    Bool.eq_false_iff.mpr fun hbreak => by simp [isWhitespace_of_isLineBreak hbreak] at hd
  -- The record's text begins with the key.
  have htext : (left ++ '=' :: right).dropWhile l.space = (c :: tail ++ b) ++ '=' :: right := by
    rw [hab, List.append_assoc, List.append_assoc, List.dropWhile_append_of_pos ha,
      dropWhile_of_head (by simpa using hbare.1)]
    simp
  obtain ⟨blanks, s', hblanks, hs', hpieces⟩ := pieces_record (l := l) (c := c)
    (by rw [htext]; rfl) (hbreak c hc.1)
  rw [htext] at hpieces
  generalize hf : ((c :: tail ++ b) ++ '=' :: right).takeWhile (!isLineBreak ·) = f at hpieces
  have hrest : f ++ ((c :: tail ++ b) ++ '=' :: right).dropWhile (!isLineBreak ·) =
      (c :: tail ++ b) ++ '=' :: right := by
    rw [← hf, List.takeWhile_append_dropWhile]
  generalize hr : ((c :: tail ++ b) ++ '=' :: right).dropWhile (!isLineBreak ·) = rest at hrest
  have hhead : f.head? = some c := by
    rw [← hf]
    simp [hbreak c hc.1]
  have hmem : s' ++ f ∈ pieces isLineBreak (left ++ '=' :: right) := by simp [hpieces]
  have henv := isEnvLine_of_head hs' hhead hc.1 hc.2
  -- Python has found an equals sign in that line, which is the first one of the record.
  have hequals : '=' ∈ f := by
    have hsome := hlines _ hmem henv
    have hin : '=' ∈ stripBy isWhitespace (s' ++ f) := by
      by_contra hnot
      simp [envEntry, henv, splitEquals, hnot] at hsome
    have hin : '=' ∈ s' ++ f := by
      obtain ⟨r₁, r₂, -, -, -, hr⟩ := stripBy_spec isWhitespace (s' ++ f)
      rw [hr]
      simp [hin]
    rcases List.mem_append.mp hin with hin | hin
    · exact absurd (hs' _ hin) (by decide)
    · exact hin
  obtain ⟨name, front, hfsplit⟩ := exists_splitEquals hequals
  obtain ⟨hname, rfl⟩ := splitEquals_eq_some hfsplit
  have hkeyb : '=' ∉ c :: tail ++ b := by
    rw [hab] at hleft
    simp only [List.mem_append, not_or] at hleft
    simp only [List.mem_append, not_or]
    exact ⟨hleft.1.2, hleft.2⟩
  have hcut : splitEquals ((c :: tail ++ b) ++ '=' :: right) = some (name, front ++ rest) := by
    rw [← hrest, List.append_assoc, List.cons_append]
    exact splitEquals_append hname
  rw [splitEquals_append hkeyb, Option.some.injEq, Prod.mk.injEq] at hcut
  obtain ⟨rfl, rfl⟩ := hcut
  refine ⟨_, hmem, front, rest, rfl, ?_, ?_, ?_, ?_⟩
  · intro d hd
    have hd : d ∈ ((c :: tail ++ b) ++ '=' :: (front ++ rest)).takeWhile (!isLineBreak ·) := by
      rw [hf]
      simp [hd]
    simpa using List.mem_takeWhile_imp hd
  · cases rest with
    | nil => exact .inl rfl
    | cons d y =>
      have hd := List.head?_dropWhile_not (!isLineBreak ·) ((c :: tail ++ b) ++ '=' :: (front ++ d :: y))
      rw [hr] at hd
      exact .inr ⟨d, y, by simpa using hd, rfl⟩
  · have hs'' : '=' ∉ s' := fun hin => absurd (hs' _ hin) (by decide)
    have hsplit' : splitEquals (s' ++ ((c :: tail ++ b) ++ '=' :: front)) =
        some (s' ++ (c :: tail ++ b), front) := by
      rw [← List.append_assoc]
      exact splitEquals_append (by simpa [hs''] using hkeyb)
    have hstrip : stripBy isWhitespace (s' ++ (c :: tail ++ b)) = c :: tail := by
      rw [← List.append_assoc, stripBy_append hs' (fun d hd => l.unicode d (hb d hd)),
        stripBy_of_bare (bare_of_free fun d hd => (hfree d hd).1)]
    rw [envEntry_eq henv hsplit', hstrip]
  · intro line' hline'
    rw [hpieces, List.mem_append, List.mem_cons] at hline'
    rcases hline' with hline' | hline' | hline'
    · exact .inr (.inl (isEnvLine_of_blank (hblanks line' hline')))
    · exact .inl hline'
    · exact .inr (.inr hline')

/-- The lines of Python in a record that sets nothing are blank, comments or hidden. -/
theorem lines_of_comment {record line : Text} (h : isContractRecord l record = false)
    (hline : line ∈ pieces isLineBreak record) :
    isEnvLine line = false ∨ line ∈ hiddenLines l record := by
  simp only [isContractRecord, Bool.and_eq_false_iff, decide_eq_false_iff_not, not_not] at h
  rcases h with hnil | hhead
  · have hall : ∀ c ∈ record, isWhitespace c :=
      fun c hc => l.unicode c (List.dropWhile_eq_nil_iff.mp hnil c hc)
    exact .inl (isEnvLine_of_blank fun c hc => hall c (mem_of_mem_pieces hline hc))
  · obtain ⟨blanks, s', hblanks, hs', hpieces⟩ := pieces_record hhead (by decide)
    rw [hpieces, List.mem_append, List.mem_cons] at hline
    rcases hline with hline | rfl | hline
    · exact .inl (isEnvLine_of_blank (hblanks line hline))
    · refine .inl (isEnvLine_of_comment hs' ?_)
      cases hrest : record.dropWhile l.space with
      | nil => simp [hrest] at hhead
      | cons c t =>
        rw [hrest, List.head?_cons, Option.some.injEq] at hhead
        have hc : isLineBreak '#' = false := by decide
        simp [hhead, hc]
    · exact .inr hline

end

/-! ## Two texts of one setting -/

namespace ContractKey

/-- What `from_mapping` accepts for a key. -/
def Accepts : ContractKey → Text → Prop
  | serviceUser, value => isAccountName value
  | serviceGroup, value => isAccountName value
  | outputDir, value => (purePath value).IsAbsolute
  | logDir, value => (purePath value).IsAbsolute

variable {k : ContractKey} {a b s : Text}

theorem head?_of_isAbsolute (h : (purePath a).IsAbsolute) : a.head? = some '/' := by
  cases a with
  | nil => exact absurd rfl h
  | cons c t =>
    by_contra hne
    have hc : c ≠ '/' := fun heq => hne (by rw [heq]; rfl)
    refine h ?_
    simp [purePath, hc]

/-- An accepted value begins with no white space and with no quote. -/
theorem Accepts.head (h : k.Accepts a) :
    ∃ c, a.head? = some c ∧ isWhitespace c = false ∧ c ≠ '"' ∧ c ≠ '\'' := by
  have hname : isAccountName a →
      ∃ c, a.head? = some c ∧ isWhitespace c = false ∧ c ≠ '"' ∧ c ≠ '\'' := by
    intro h
    cases a with
    | nil => cases h
    | cons c t =>
      simp only [isAccountName, Bool.and_eq_true] at h
      have hc := h.1.1
      refine ⟨c, rfl, ?_, ?_, ?_⟩
      · have hlower : c.isLower = (c.val ≥ 'a'.val && c.val ≤ 'z'.val) := rfl
        simp only [hlower, Bool.or_eq_true, Bool.and_eq_true, decide_eq_true_eq, ge_iff_le,
          UInt32.le_iff_toNat_le] at hc
        rcases hc with ⟨h₁, h₂⟩ | rfl
        · exact isWhitespace_of_printable (le_trans (by decide) h₁) (le_trans h₂ (by decide))
        · decide
      · rintro rfl
        revert hc
        decide
      · rintro rfl
        revert hc
        decide
  have hdir : (purePath a).IsAbsolute →
      ∃ c, a.head? = some c ∧ isWhitespace c = false ∧ c ≠ '"' ∧ c ≠ '\'' :=
    fun h => ⟨'/', head?_of_isAbsolute h, by decide, by decide, by decide⟩
  cases k with
  | serviceUser => exact hname h
  | serviceGroup => exact hname h
  | outputDir => exact hdir h
  | logDir => exact hdir h

theorem Same.head (h : k.Same a b) (hb : k.Accepts b) : a.head? = b.head? := by
  have hdir : purePath a = purePath b → (purePath b).IsAbsolute → a.head? = b.head? := by
    intro h hb
    rw [head?_of_isAbsolute hb, head?_of_isAbsolute (h ▸ hb)]
  cases k with
  | serviceUser => rw [show a = b from h]
  | serviceGroup => rw [show a = b from h]
  | outputDir => exact hdir h hb
  | logDir => exact hdir h hb

/-- A line boundary is in both texts or in none. -/
theorem Same.free (h : k.Same a b) (hb : ∀ c ∈ b, isLineBreak c = false) :
    ∀ c ∈ a, isLineBreak c = false := by
  have hdir : purePath a = purePath b → ∀ c ∈ a, isLineBreak c = false := by
    intro h c hc
    by_contra hbreak
    have hslash : (c == '/') = false := beq_eq_false_iff_ne.mpr (by rintro rfl; exact hbreak (by decide))
    obtain ⟨w, hw, hcw⟩ := exists_piece (p := (· == '/')) hc hslash
    have hdot : w ≠ ".".toList := by
      rintro rfl
      exact hbreak (by rw [List.mem_singleton.mp hcw]; decide)
    have hpart : w ∈ (purePath a).parts := List.mem_filter.mpr ⟨hw, by simpa using hdot⟩
    rw [h] at hpart
    exact hbreak (hb c (mem_of_mem_pieces (List.mem_of_mem_filter hpart) hcw))
  cases k with
  | serviceUser => exact (show a = b from h) ▸ hb
  | serviceGroup => exact (show a = b from h) ▸ hb
  | outputDir => exact hdir h
  | logDir => exact hdir h

theorem Same.symm (h : k.Same a b) : k.Same b a := by
  cases k <;> exact Eq.symm h

theorem Same.rfl : k.Same a a := by
  cases k <;> exact Eq.refl _

/-- White space behind a value makes it another one. -/
theorem not_same_append (hne : s ≠ []) (hs : ∀ c ∈ s, isWhitespace c) : ¬ k.Same (b ++ s) b := by
  have hname : b ++ s ≠ b := fun h => hne (List.append_right_eq_self.mp h)
  have hdir : purePath (b ++ s) ≠ purePath b := by
    intro h
    have hparts := congrArg PurePath.parts h
    simp only [purePath] at hparts
    have hslash : ∀ c ∈ s, (c == '/') = false := fun c hc =>
      beq_eq_false_iff_ne.mpr (by rintro rfl; exact absurd (hs _ hc) (by decide))
    obtain ⟨d, hd⟩ := List.exists_mem_of_ne_nil s hne
    -- The last component gets longer, or the white space is a component of its own.
    have hlong : ∀ w, (∀ c ∈ w, (c == '/') = false) →
        ((pieces (· == '/') (w ++ s)).filter (· ≠ ".".toList) = [w ++ s] ∧
          (pieces (· == '/') w).filter (· ≠ ".".toList) ≠ [w ++ s]) := by
      intro w hw
      have hdot : w ++ s ≠ ".".toList := by
        intro heq
        have hmem : d ∈ ".".toList := heq ▸ List.mem_append_right w hd
        rw [List.mem_singleton.mp hmem] at hd
        exact absurd (hs _ hd) (by decide)
      constructor
      · rw [pieces_of_free (by simp [hne]) fun c hc =>
          (List.mem_append.mp hc).elim (hw c) (hslash c)]
        simpa using hdot
      · intro heq
        have hmem : w ++ s ∈ (pieces (· == '/') w).filter (· ≠ ".".toList) := by
          rw [heq]
          exact List.mem_singleton_self _
        by_cases hnil : w = []
        · subst hnil
          cases hmem
        · rw [pieces_of_free hnil hw] at hmem
          have hself : w ++ s = w := by simpa using List.mem_of_mem_filter hmem
          exact hne (List.append_right_eq_self.mp hself)
    obtain ⟨w, hw, rfl | ⟨x, c, hc, rfl⟩⟩ := exists_last_run (· == '/') b
    · exact (hlong b hw).2 (hparts.symm.trans (hlong b hw).1)
    · rw [List.append_assoc, List.cons_append, pieces_append_cons (p := (· == '/')) hc,
        pieces_append_cons (p := (· == '/')) hc, List.filter_append, List.filter_append,
        List.append_cancel_left_eq] at hparts
      exact (hlong w hw).2 (hparts.symm.trans (hlong w hw).1)
  cases k with
  | serviceUser => exact hname
  | serviceGroup => exact hname
  | outputDir => exact hdir
  | logDir => exact hdir

end ContractKey

section
variable {l : Locale} {k : ContractKey} {value front rest : Text}

/-- A text with the same character at its two ends. -/
theorem eq_of_ends {q : Char} (hhead : value.head? = some q) (hlast : value.getLast? = some q) :
    value = [q] ∨ ∃ w, value = q :: (w ++ [q]) := by
  cases value with
  | nil => cases hhead
  | cons c t =>
    cases hhead
    rcases List.eq_nil_or_concat t with rfl | ⟨w, d, rfl⟩
    · exact .inl rfl
    · have hd : d = q := by
        rwa [List.concat_eq_append, ← List.cons_append, List.getLast?_concat,
          Option.some.injEq] at hlast
      exact .inr ⟨w, by rw [List.concat_eq_append, hd]⟩

/-- What the shell takes off. -/
theorem contractUnquote_cases (value : Text) : contractUnquote value = value ∨
    ∃ q, (q = '"' ∨ q = '\'') ∧ (value = [q] ∧ contractUnquote value = [] ∨
      ∃ w, value = q :: (w ++ [q]) ∧ contractUnquote value = w) := by
  unfold contractUnquote
  split
  next h =>
    have hcut : ∀ q, (q = '"' ∨ q = '\'') → value.head? = some q → value.getLast? = some q →
        value = [q] ∧ (value.drop 1).take (value.length - 2) = [] ∨
          ∃ w, value = q :: (w ++ [q]) ∧ (value.drop 1).take (value.length - 2) = w := by
      intro q hq hhead hlast
      rcases eq_of_ends hhead hlast with rfl | ⟨w, rfl⟩
      · exact .inl ⟨rfl, rfl⟩
      · exact .inr ⟨w, rfl, by simp⟩
    rcases h with ⟨hhead, hlast⟩ | ⟨hhead, hlast⟩
    · exact .inr ⟨'"', .inl rfl, hcut _ (.inl rfl) hhead hlast⟩
    · exact .inr ⟨'\'', .inr rfl, hcut _ (.inr rfl) hhead hlast⟩
  next => exact .inl rfl

/-- What Python takes off. -/
theorem unquote_cases (value : Text) : unquote value = value ∨
    ∃ q w, (q = '"' ∨ q = '\'') ∧ value = q :: (w ++ [q]) ∧ unquote value = w := by
  unfold unquote
  split
  next h =>
    obtain ⟨hlen, hends, hquote⟩ := h
    have hcut : ∀ q, (q = '"' ∨ q = '\'') → value.head? = some q →
        ∃ q w, (q = '"' ∨ q = '\'') ∧ value = q :: (w ++ [q]) ∧ value.tail.dropLast = w := by
      intro q hq hhead
      rcases eq_of_ends hhead (hends ▸ hhead) with rfl | ⟨w, rfl⟩
      · simp at hlen
      · exact ⟨q, w, hq, rfl, by simp⟩
    rcases hquote with hhead | hhead
    · exact .inr (hcut _ (.inr rfl) hhead)
    · exact .inr (hcut _ (.inl rfl) hhead)
  next => exact .inl rfl

theorem unquote_subset (value : Text) : ∀ c ∈ unquote value, c ∈ value := by
  intro c hc
  rcases unquote_cases value with h | ⟨q, w, -, h, h'⟩
  · exact h ▸ hc
  · rw [h']at hc
    simp [h, hc]

/-- Quotes apart, the shell keeps the characters of a value. -/
theorem mem_contractUnquote {c : Char} (hc : c ∈ value) (hdouble : c ≠ '"') (hsingle : c ≠ '\'') :
    c ∈ contractUnquote value := by
  rcases contractUnquote_cases value with h | ⟨q, hq, ⟨h, -⟩ | ⟨w, h, h'⟩⟩
  · rwa [h]
  · rw [h, List.mem_singleton] at hc
    rcases hq with rfl | rfl
    · exact absurd hc hdouble
    · exact absurd hc hsingle
  · have hne : c ≠ q := by
      rintro rfl
      exact hq.elim hdouble hsingle
    rw [h'] 
    simpa [h, hne] using hc

theorem contractUnquote_of_head {c : Char} (h : value.head? = some c) (hdouble : c ≠ '"')
    (hsingle : c ≠ '\'') : contractUnquote value = value := by
  rw [contractUnquote, if_neg]
  simp [h, hdouble, hsingle]

theorem contractUnquote_of_last {c : Char} (h : value.getLast? = some c) (hdouble : c ≠ '"')
    (hsingle : c ≠ '\'') : contractUnquote value = value := by
  rw [contractUnquote, if_neg]
  simp [h, hdouble, hsingle]

/-- The two readers take the same quotes off, save that the shell takes a lone one off. -/
theorem contractUnquote_eq (h : k.Accepts (unquote value)) :
    contractUnquote value = unquote value := by
  obtain ⟨c, hhead, -, hdouble, hsingle⟩ := h.head
  rcases unquote_cases value with heq | ⟨q, w, hq, heq, hw⟩
  · rw [heq] at hhead ⊢
    exact contractUnquote_of_head hhead hdouble hsingle
  · rw [hw, contractUnquote, if_pos]
    · simp [heq]
    · have hlast : value.getLast? = some q := by
        rw [heq, ← List.cons_append, List.getLast?_concat]
      have hfirst : value.head? = some q := by rw [heq]; rfl
      rcases hq with rfl | rfl
      · exact .inl ⟨hfirst, hlast⟩
      · exact .inr ⟨hfirst, hlast⟩

/-- Python takes the same value off a line as the shell off a record, up to white space, when no
line boundary is in the way. -/
theorem strip_front (hrest : rest = [] ∨ ∃ b y, isLineBreak b ∧ rest = b :: y)
    (hne : stripBy isWhitespace front ≠ [])
    (hfree : ∀ c ∈ stripBy l.space (front ++ rest), isLineBreak c = false) :
    stripBy isWhitespace front = stripBy isWhitespace (stripBy l.space (front ++ rest)) := by
  rcases hrest with rfl | ⟨b, y, hb, rfl⟩
  · rw [List.append_nil, stripBy_stripBy l.unicode]
  obtain ⟨s₁, s₂, hs₁, hs₂, -, heq⟩ := stripBy_spec l.space (front ++ b :: y)
  generalize stripBy l.space (front ++ b :: y) = value at hfree heq ⊢
  have hblank : ∀ t, front ++ t ≠ s₁ := fun t h => hne (stripBy_of_all fun c hc =>
    l.unicode c (hs₁ c (h ▸ List.mem_append_left t hc)))
  have hvalue : ∀ t, (∀ c ∈ t, l.space c) → front = (s₁ ++ value) ++ t →
      stripBy isWhitespace front = stripBy isWhitespace value := fun t ht h => by
    rw [h]
    exact stripBy_append (fun c hc => l.unicode c (hs₁ c hc)) (fun c hc => l.unicode c (ht c hc)) value
  -- The first boundary is behind the value: in front of it is white space only, and it has none.
  rcases List.append_eq_append_iff.mp heq with ⟨t, h, ht⟩ | ⟨t, hfrontEq, hs₂Eq⟩
  · rcases List.append_eq_append_iff.mp h.symm with ⟨u, hu, -⟩ | ⟨u, hu, hval⟩
    · exact (hblank u hu.symm).elim
    · cases t with
      | nil => exact hvalue [] (by simp) (by simpa using h.symm)
      | cons d t =>
        have hd : d = b := by simpa using (congrArg List.head? ht).symm
        rw [← hd, hfree d (by simp [hval])] at hb
        cases hb
  · exact hvalue t (fun c hc => hs₂ c (hs₂Eq ▸ List.mem_append_left _ hc)) hfrontEq

/-- A value of the shell is the one Python reads when it is plain, and only then. -/
theorem same_iff_isPlain (hfront : ∀ c ∈ front, isLineBreak c = false)
    (hrest : rest = [] ∨ ∃ b y, isLineBreak b ∧ rest = b :: y)
    (haccepts : k.Accepts (unquote (stripBy isWhitespace front))) :
    k.Same (contractUnquote (stripBy l.space (front ++ rest)))
      (unquote (stripBy isWhitespace front)) ↔ IsPlain (stripBy l.space (front ++ rest)) := by
  obtain ⟨c, hhead, hspace, hdouble, hsingle⟩ := haccepts.head
  have hne : stripBy isWhitespace front ≠ [] := by
    intro hnil
    rw [hnil] at hhead
    cases hhead
  have hquote : ∀ d, isWhitespace d → d ≠ '"' ∧ d ≠ '\'' := fun d hd =>
    ⟨by rintro rfl; exact absurd hd (by decide), by rintro rfl; exact absurd hd (by decide)⟩
  constructor
  · intro hsame
    have hfrontFree : ∀ d ∈ unquote (stripBy isWhitespace front), isLineBreak d = false := by
      intro d hd
      obtain ⟨r₁, r₂, -, -, -, hr⟩ := stripBy_spec isWhitespace front
      exact hfront d (hr ▸ by simp [unquote_subset _ d hd])
    have hfree : ∀ d ∈ stripBy l.space (front ++ rest), isLineBreak d = false := by
      intro d hd
      by_contra hbreak
      have hq := hquote d (isWhitespace_of_isLineBreak (by simpa using hbreak))
      exact hbreak (hsame.free hfrontFree d (mem_contractUnquote hd hq.1 hq.2))
    refine ⟨?_, hfree⟩
    rw [strip_front hrest hne hfree] at hsame haccepts hhead hne
    generalize stripBy l.space (front ++ rest) = value at *
    obtain ⟨s₁, s₂, hs₁, hs₂, hbare, hvalue⟩ := stripBy_spec isWhitespace value
    -- White space before the value, or behind it, would still be in the shell's.
    have hfirst : s₁ = [] := by
      cases s₁ with
      | nil => rfl
      | cons d s₁ =>
        have hd := hs₁ d List.mem_cons_self
        have hvalueHead : value.head? = some d := by rw [hvalue]; rfl
        have heq := hsame.head haccepts
        rw [contractUnquote_of_head hvalueHead (hquote d hd).1 (hquote d hd).2, hvalueHead, hhead,
          Option.some.injEq] at heq
        simp [heq, hspace] at hd
    subst hfirst
    rw [List.nil_append] at hvalue
    have hlast : s₂ = [] := by
      by_contra hs₂ne
      obtain ⟨d, hd⟩ : ∃ d, s₂.getLast? = some d :=
        Option.ne_none_iff_exists'.mp (by simpa using hs₂ne)
      have hdq := hquote d (hs₂ d (List.mem_of_getLast? hd))
      have hvalueLast : value.getLast? = some d := by
        rw [hvalue, List.getLast?_append, hd]
        rfl
      rw [contractUnquote_of_last hvalueLast hdq.1 hdq.2] at hsame
      rcases unquote_cases (stripBy isWhitespace value) with hplain | ⟨q, w, hq, hquoted, -⟩
      · have hlonger : k.Same (stripBy isWhitespace value ++ s₂) (stripBy isWhitespace value) := by
          rw [← hvalue]
          rwa [hplain] at hsame
        exact ContractKey.not_same_append hs₂ne hs₂ hlonger
      · have heq := hsame.head haccepts
        have hvalueHead : value.head? = some q := by rw [hvalue, hquoted]; rfl
        rw [hvalueHead, hhead, Option.some.injEq] at heq
        rcases hq with rfl | rfl
        · exact hdouble heq.symm
        · exact hsingle heq.symm
    rw [hlast, List.append_nil] at hvalue
    exact hvalue ▸ hbare
  · rintro ⟨hbare, hfree⟩
    have hstrip := strip_front hrest hne hfree
    rw [stripBy_of_bare hbare] at hstrip
    rw [hstrip] at haccepts ⊢
    rw [contractUnquote_eq haccepts]
    cases k <;> rfl

end

/-! ## Agreement -/

section
variable {l : Locale} {p : Platform} {text : Text} {values : Mapping} {settings : Settings}
  {value : Text}

/-- What the services have for a key. -/
theorem agrees_iff (h : fromMapping p values = .ok settings) (k : ContractKey) :
    settings.Agrees k value ↔ k.Same value (settingValue values k.key k.fallback) := by
  obtain ⟨huser, hgroup, hout, hlog⟩ := fromMapping_ok h
  cases k with
  | serviceUser => exact huser ▸ Iff.rfl
  | serviceGroup => exact hgroup ▸ Iff.rfl
  | outputDir => exact Eq.congr_right hout.symm
  | logDir => exact Eq.congr_right hlog.symm

theorem fromMapping_accepts (h : fromMapping p values = .ok settings) (k : ContractKey) :
    k.Accepts (settingValue values k.key k.fallback) := by
  obtain ⟨huser, hgroup, hout, hlog⟩ := fromMapping_ok h
  cases k with
  | serviceUser => exact huser ▸ settings.serviceUser.2.1
  | serviceGroup => exact hgroup ▸ settings.serviceGroup.2.1
  | outputDir => exact hout.symm.subst (motive := PurePath.IsAbsolute) settings.outputDir.2.1
  | logDir => exact hlog.symm.subst (motive := PurePath.IsAbsolute) settings.logDir.2.1

theorem hiddenLines_subset {record line : Text} (h : line ∈ hiddenLines l record) :
    line ∈ pieces isLineBreak record := by
  unfold hiddenLines at h
  have hrecord : (record.takeWhile l.space ++
      (record.dropWhile l.space).takeWhile (!isLineBreak ·)) ++
        (record.dropWhile l.space).dropWhile (!isLineBreak ·) = record := by
    rw [List.append_assoc, List.takeWhile_append_dropWhile, List.takeWhile_append_dropWhile]
  cases hrest : (record.dropWhile l.space).dropWhile (!isLineBreak ·) with
  | nil => simp [hrest] at h
  | cons b y =>
    have hb : isLineBreak b := by
      have hhead := List.head?_dropWhile_not (!isLineBreak ·) (record.dropWhile l.space)
      rw [hrest] at hhead
      simpa using hhead
    rw [hrest] at h hrecord
    rw [← hrecord, pieces_append_cons hb]
    rw [← List.nil_append (b :: y), pieces_append_cons hb, pieces_nil] at h
    exact List.mem_append_right _ h

/-- The lines of Python are those in the records of the shell. -/
theorem mem_lines_iff {line : Text} : line ∈ pieces isLineBreak text ↔
    ∃ record ∈ pieces (· == '\n') text, line ∈ pieces isLineBreak record := by
  have hrefine : ∀ c, (c == '\n') = true → isLineBreak c := by
    intro c hc
    rw [beq_iff_eq.mp hc]
    decide
  rw [pieces_refine hrefine, List.mem_flatMap]

/-- Both readers have read the file to its end. -/
structure BothRead (l : Locale) (text : Text) (values : Mapping) : Prop where
  active : ∀ record ∈ pieces (· == '\n') text, isContractRecord l record →
    ∃ entry, contractSetting l record = some entry ∧ isContractKey entry.1
  settings_nodup : ((contractSettings l (pieces (· == '\n') text)).map (·.1)).Nodup
  values_eq : values = (pieces isLineBreak text).filterMap envEntry
  lines : ∀ line ∈ pieces isLineBreak text, isEnvLine line → (envEntry line).isSome
  values_nodup : (values.map (·.1)).Nodup

namespace BothRead

variable {k : ContractKey} {key x record line : Text} (h : BothRead l text values)

include h

theorem lookup_values : values.lookup key = some x ↔
    ∃ line ∈ pieces isLineBreak text, envEntry line = some (key, x) := by
  rw [lookup_eq_some h.values_nodup, h.values_eq, List.mem_filterMap]

theorem lookup_settings : (contractSettings l (pieces (· == '\n') text)).lookup key = some x ↔
    ∃ record ∈ pieces (· == '\n') text, contractSetting l record = some (key, x) := by
  rw [lookup_eq_some h.settings_nodup, contractSettings, List.mem_filterMap]

/-- `exists_setting_line`, for the records of the file. -/
theorem setting_line (hrecord : record ∈ pieces (· == '\n') text)
    (hx : contractSetting l record = some (key, x)) :
    ∃ line ∈ pieces isLineBreak record, ∃ front rest, x = stripBy l.space (front ++ rest) ∧
      (∀ c ∈ front, isLineBreak c = false) ∧ (rest = [] ∨ ∃ b y, isLineBreak b ∧ rest = b :: y) ∧
      envEntry line = some (key, unquote (stripBy isWhitespace front)) ∧
      ∀ line' ∈ pieces isLineBreak record,
        line' = line ∨ isEnvLine line' = false ∨ line' ∈ hiddenLines l record := by
  have hactive : isContractRecord l record := by
    by_contra hno
    simp [contractSetting, hno] at hx
  obtain ⟨entry, hentry, hkey⟩ := h.active record hrecord hactive
  cases hx.symm.trans hentry
  exact exists_setting_line hx hkey fun line hline =>
    h.lines line (mem_lines_iff.mpr ⟨record, hrecord, hline⟩)

/-- A line of Python that sets what no record sets is hidden in a record. -/
theorem hidden_of_unset (hunset : ∀ record ∈ pieces (· == '\n') text, ∀ x,
      contractSetting l record ≠ some (key, x))
    (hline : line ∈ pieces isLineBreak text) (hx : envEntry line = some (key, x)) :
    ∃ record ∈ pieces (· == '\n') text, line ∈ hiddenLines l record := by
  obtain ⟨record, hrecord, hin⟩ := mem_lines_iff.mp hline
  have henv : isEnvLine line ≠ false := fun hno => by simp [envEntry, hno] at hx
  refine ⟨record, hrecord, ?_⟩
  cases hactive : isContractRecord l record with
  | false => exact (lines_of_comment hactive hin).resolve_left henv
  | true =>
    obtain ⟨⟨key', y⟩, hy, -⟩ := h.active record hrecord hactive
    obtain ⟨first, -, front, rest, -, -, -, hfirst, hothers⟩ := h.setting_line hrecord hy
    rcases hothers line hin with rfl | hno | hhidden
    · rw [hx, Option.some.injEq, Prod.mk.injEq] at hfirst
      exact absurd (hfirst.1 ▸ hy) (hunset record hrecord y)
    · exact absurd hno henv
    · exact hhidden

/-- A setting of a record: the two values are the same when the shell's is plain. -/
theorem same_iff_of_set (hrecord : record ∈ pieces (· == '\n') text)
    (hx : contractSetting l record = some (k.key.toList, x))
    (haccepts : k.Accepts (settingValue values k.key k.fallback)) :
    k.Same (contractUnquote x) (settingValue values k.key k.fallback) ↔ Legible l text k := by
  obtain ⟨line, hline, front, rest, rfl, hfront, hrest, henv, -⟩ := h.setting_line hrecord hx
  have hvalue := h.lookup_values.mpr ⟨line, mem_lines_iff.mpr ⟨record, hrecord, hline⟩, henv⟩
  rw [settingValue, hvalue, Option.getD_some] at haccepts ⊢
  rw [same_iff_isPlain hfront hrest haccepts]
  constructor
  · intro hplain
    refine ⟨fun record' hrecord' x' hx' => ?_, fun hno => absurd hx (hno record hrecord _)⟩
    cases (h.lookup_settings.mpr ⟨record, hrecord, hx⟩).symm.trans
      (h.lookup_settings.mpr ⟨record', hrecord', hx'⟩)
    exact hplain
  · exact fun hreadable => hreadable.plain record hrecord _ hx

/-- A setting no record sets: the two values are the same when the hidden lines set the default. -/
theorem same_iff_of_unset (hunset : ∀ record ∈ pieces (· == '\n') text, ∀ x,
      contractSetting l record ≠ some (k.key.toList, x)) :
    k.Same k.fallback.toList (settingValue values k.key k.fallback) ↔ Legible l text k := by
  have hplain : ∀ record ∈ pieces (· == '\n') text, ∀ x,
      contractSetting l record = some (k.key.toList, x) → IsPlain x :=
    fun record hrecord x hx => absurd hx (hunset record hrecord x)
  have hvalue : ∀ {record line x}, record ∈ pieces (· == '\n') text → line ∈ hiddenLines l record →
      envEntry line = some (k.key.toList, x) → values.lookup k.key.toList = some x :=
    fun hrecord hline hx => h.lookup_values.mpr
      ⟨_, mem_lines_iff.mpr ⟨_, hrecord, hiddenLines_subset hline⟩, hx⟩
  rw [settingValue]
  cases hlookup : values.lookup k.key.toList with
  | none =>
    refine iff_of_true ContractKey.Same.rfl ⟨hplain, fun _ record hrecord line hline x hx => ?_⟩
    rw [hvalue hrecord hline hx] at hlookup
    cases hlookup
  | some v =>
    rw [Option.getD_some]
    constructor
    · intro hsame
      refine ⟨hplain, fun _ record hrecord line hline x hx => ?_⟩
      rw [hvalue hrecord hline hx] at hlookup
      cases hlookup
      exact hsame.symm
    · intro hreadable
      obtain ⟨line, hline, hv⟩ := h.lookup_values.mp hlookup
      obtain ⟨record, hrecord, hhidden⟩ := h.hidden_of_unset hunset hline hv
      exact (hreadable.hidden hunset record hrecord line hhidden v hv).symm

end BothRead

/-- For one setting, the two readers have the same value exactly when it reads the same to both. -/
theorem same_iff_readable {k : ContractKey}
    (hshell : crchConfigValue l k.key.toList k.fallback.toList text = some value)
    (hpy : parseEnvFile p.unicode text = .ok values)
    (haccepts : k.Accepts (settingValue values k.key k.fallback)) :
    k.Same value (settingValue values k.key k.fallback) ↔ Legible l text k := by
  obtain ⟨hactive, hrecords, rfl⟩ := crchConfigValue_some hshell
  obtain ⟨hvalues, hlines, hnodup⟩ := parseEnvFile_ok hpy
  have h : BothRead l text values := ⟨hactive, hrecords, hvalues, hlines, hnodup⟩
  cases hlookup : (contractSettings l (pieces (· == '\n') text)).lookup k.key.toList with
  | some x =>
    obtain ⟨record, hrecord, hx⟩ := h.lookup_settings.mp hlookup
    exact h.same_iff_of_set hrecord hx haccepts
  | none =>
    refine h.same_iff_of_unset fun record hrecord x hx => ?_
    rw [h.lookup_settings.mpr ⟨record, hrecord, hx⟩] at hlookup
    cases hlookup

end

/-! ## A comment that ends at a carriage return -/

theorem isWhitespace_of_space {c : Char} (h : c.toNat = 32 || (9 ≤ c.toNat && c.toNat ≤ 13)) :
    isWhitespace c := by
  simp only [Bool.or_eq_true, Bool.and_eq_true, decide_eq_true_eq] at h
  simp only [isWhitespace, Bool.or_eq_true, Bool.and_eq_true, decide_eq_true_eq, beq_iff_eq]
  omega

/-- The `C` locale. -/
def Locale.c : Locale where
  space c := c.toNat = 32 || (9 ≤ c.toNat && c.toNat ≤ 13)
  posix c _ := by simp
  unicode _ := isWhitespace_of_space

/-- `float` and `ZoneInfo`, of decimal fractions and of the default time zone. -/
def samplePlatform : Platform where
  unicode := .ascii
  float t :=
    let digits := t.filter (· ≠ '.')
    let places := ((t.dropWhile (· ≠ '.')).length - 1)
    if digits ≠ [] ∧ digits.all Char.isDigit ∧ digits.length + 1 ≥ t.length then
      some (some (mkRat (digits.foldl (fun n c => 10 * n + (c.toNat - 48)) 0 : Nat) (10 ^ places)))
    else none
  zoneInfo t := t = "Europe/Rome".toList

/-- A mapping with one setting. -/
def sampleMapping : Mapping := [("OUTPUT_DIR".toList, "/srv/x".toList)]

theorem sampleMapping_accepted : ∃ settings, fromMapping samplePlatform sampleMapping = .ok settings := by
  have h : (fromMapping samplePlatform sampleMapping).isOk = true := by decide +kernel
  cases hsettings : fromMapping samplePlatform sampleMapping with
  | error e =>
    rw [hsettings] at h
    cases h
  | ok settings => exact ⟨settings, rfl⟩

/-- A file with one setting. -/
def sampleFile : Text := "OUTPUT_DIR='/srv/x' \n".toList

/-- What the shell prints for it. -/
def sampleValue : ContractKey → Text
  | .outputDir => "/srv/x".toList
  | k => k.fallback.toList

end RchProxy
