import RchProxy.Py.Lines

/-!
# The configuration file

`parse_env_file` of `config.py`: a file of `KEY=VALUE` lines, blank lines and comments. What it reads
is stated line by line (`parseEnvFile_ok`): the settings are the entries of the lines that are
neither blank nor a comment, in their order, and no key stands twice.
-/

namespace RchProxy

open Py Lib

/-- Why a configuration is refused (`ConfigError`). -/
inductive ConfigError where
  | expectedKeyValue (line : Nat)
  | invalidKey (line : Nat) (key : Text)
  | duplicateKey (line : Nat) (key : Text)
  | unknownKeys (keys : List Text)
  | invalid (name reason : String)
  deriving DecidableEq, Repr

/-- The settings of a file, in their order. -/
abbrev Mapping := List (Text × Text)

/-- A line cut at its first `=`. -/
def splitEquals (line : Text) : Option (Text × Text) :=
  if '=' ∈ line then some (line.takeWhile (· ≠ '='), (line.dropWhile (· ≠ '=')).tail) else none

/-- `value`, without a pair of quotes around it. -/
def unquote (value : Text) : Text :=
  if 2 ≤ value.length ∧ value.head? = value.getLast? ∧
      (value.head? = some '\'' ∨ value.head? = some '"') then
    value.tail.dropLast
  else value

/-- One line of `parse_env_file`. -/
def parseEnvLine (u : Unicode) (values : Mapping) (number : Nat) (raw : Text) :
    Except ConfigError Mapping := do
  let line := stripBy isWhitespace raw
  if line = [] ∨ line.head? = some '#' then return values
  let some (key, value) := splitEquals line | throw (.expectedKeyValue number)
  let key := stripBy isWhitespace key
  let value := stripBy isWhitespace value
  if key = [] ∨ !u.textIsalnum (key.filter (· ≠ '_')) ∨ u.textUpper key ≠ key then
    throw (.invalidKey number key)
  if key ∈ values.map (·.1) then throw (.duplicateKey number key)
  return values ++ [(key, unquote value)]

/-- The lines of `parse_env_file`, from line `number` on. -/
def parseEnvLines (u : Unicode) : Nat → List Text → Mapping → Except ConfigError Mapping
  | _, [], values => return values
  | number, raw :: rest, values => do
    parseEnvLines u (number + 1) rest (← parseEnvLine u values number raw)

/-- `parse_env_file`, of a file that holds the given text. -/
def parseEnvFile (u : Unicode) (text : Text) : Except ConfigError Mapping :=
  parseEnvLines u 1 (splitlines (universalNewlines text)) []

/-! ## Lines that are cut -/

section
variable {line key value : Text}

theorem splitEquals_append (hkey : '=' ∉ key) : splitEquals (key ++ '=' :: value) = some (key, value) := by
  have hne : ∀ c ∈ key, decide (c ≠ '=') = true := fun c hc =>
    decide_eq_true fun heq => hkey (heq ▸ hc)
  rw [splitEquals, if_pos (by simp), List.takeWhile_append_of_pos hne, List.dropWhile_append_of_pos hne]
  simp

theorem splitEquals_eq_some (h : splitEquals line = some (key, value)) :
    '=' ∉ key ∧ line = key ++ '=' :: value := by
  obtain ⟨k, hk, hline⟩ := exists_first_run (· == '=') line
  have hk : '=' ∉ k := fun hmem => by simpa using hk _ hmem
  rcases hline with rfl | ⟨a, v, ha, rfl⟩
  · rw [splitEquals, if_neg hk] at h
    cases h
  · rw [beq_iff_eq.mp ha, splitEquals_append hk, Option.some.injEq, Prod.mk.injEq] at h
    obtain ⟨rfl, rfl⟩ := h
    exact ⟨hk, by rw [beq_iff_eq.mp ha]⟩

theorem exists_splitEquals (h : '=' ∈ line) : ∃ key value, splitEquals line = some (key, value) := by
  rw [splitEquals, if_pos h]
  exact ⟨_, _, rfl⟩

/-- White space around a line is white space around its key and its value. -/
theorem splitEquals_strip (h : splitEquals line = some (key, value)) :
    ∃ key' value', splitEquals (stripBy isWhitespace line) = some (key', value') ∧
      stripBy isWhitespace key' = stripBy isWhitespace key ∧
      stripBy isWhitespace value' = stripBy isWhitespace value := by
  obtain ⟨hkey, rfl⟩ := splitEquals_eq_some h
  obtain ⟨s₁, s₂, hs₁, hs₂, -, hline⟩ := stripBy_spec isWhitespace (key ++ '=' :: value)
  have hblank : ∀ {s : Text}, (∀ c ∈ s, isWhitespace c) → '=' ∉ s :=
    fun hs hmem => absurd (hs _ hmem) (by decide)
  have hmem : '=' ∈ stripBy isWhitespace (key ++ '=' :: value) := by
    have hmem : '=' ∈ s₁ ++ stripBy isWhitespace (key ++ '=' :: value) ++ s₂ := hline ▸ by simp
    simpa [hblank hs₁, hblank hs₂] using hmem
  obtain ⟨key', value', hsplit⟩ := exists_splitEquals hmem
  obtain ⟨hkey', hmid⟩ := splitEquals_eq_some hsplit
  rw [hmid] at hline
  have hcut : splitEquals ((s₁ ++ key') ++ '=' :: (value' ++ s₂)) = some (s₁ ++ key', value' ++ s₂) :=
    splitEquals_append (by simp [hblank hs₁, hkey'])
  have heq : key ++ '=' :: value = (s₁ ++ key') ++ '=' :: (value' ++ s₂) := by simpa using hline
  rw [← heq, splitEquals_append hkey, Option.some.injEq, Prod.mk.injEq] at hcut
  refine ⟨key', value', hsplit, ?_, ?_⟩
  · rw [hcut.1]
    exact (stripBy_append_left hs₁ key').symm
  · rw [hcut.2]
    exact (stripBy_append_right hs₂ value').symm

end

/-! ## What a file says -/

/-- Whether a line sets something. -/
def isEnvLine (raw : Text) : Bool :=
  let line := stripBy isWhitespace raw
  line ≠ [] && line.head? ≠ some '#'

/-- What a line sets. -/
def envEntry (raw : Text) : Option (Text × Text) :=
  if isEnvLine raw then
    (splitEquals (stripBy isWhitespace raw)).map fun (key, value) =>
      (stripBy isWhitespace key, unquote (stripBy isWhitespace value))
  else none

theorem parseEnvLine_ok {u : Unicode} {values values' : Mapping} {number : Nat} {raw : Text}
    (h : parseEnvLine u values number raw = .ok values') :
    values' = values ++ (envEntry raw).toList ∧ (isEnvLine raw → (envEntry raw).isSome) ∧
      ∀ entry ∈ envEntry raw, entry.1 ∉ values.map (·.1) := by
  simp only [parseEnvLine] at h
  split at h
  next hskip =>
    have hline : isEnvLine raw = false := by
      simpa [isEnvLine, or_iff_not_imp_left] using hskip
    cases h
    simp [envEntry, hline]
  next hactive =>
    have hline : isEnvLine raw = true := by
      simpa [isEnvLine, not_or] using hactive
    split at h
    next key value hsplit =>
      have hentry : envEntry raw =
          some (stripBy isWhitespace key, unquote (stripBy isWhitespace value)) := by
        simp [envEntry, hline, hsplit]
      split at h
      · cases h
      split at h
      · cases h
      next hfresh =>
        cases h
        refine ⟨by rw [hentry]; rfl, fun _ => by rw [hentry]; rfl, fun entry hmem => ?_⟩
        rw [hentry, Option.mem_some_iff] at hmem
        exact hmem ▸ hfresh
    next => cases h

theorem parseEnvLines_ok {u : Unicode} {lines : List Text} {number : Nat} {values values' : Mapping}
    (h : parseEnvLines u number lines values = .ok values') (hnodup : (values.map (·.1)).Nodup) :
    values' = values ++ lines.filterMap envEntry ∧ (∀ raw ∈ lines, isEnvLine raw → (envEntry raw).isSome) ∧
      (values'.map (·.1)).Nodup := by
  induction lines generalizing number values with
  | nil =>
    cases h
    simpa using hnodup
  | cons raw rest ih =>
    rw [parseEnvLines, bind_eq_ok] at h
    obtain ⟨mid, hline, hrest⟩ := h
    obtain ⟨rfl, hsome, hfresh⟩ := parseEnvLine_ok hline
    have hmid : ((values ++ (envEntry raw).toList).map (·.1)).Nodup := by
      cases hentry : envEntry raw with
      | none => simpa using hnodup
      | some entry =>
        have hnew : entry.1 ∉ values.map (·.1) := hfresh entry (by rw [hentry]; rfl)
        rw [Option.toList_some, List.map_append, List.map_singleton, List.nodup_append]
        refine ⟨hnodup, List.pairwise_singleton _ _, fun key hkey key' hkey' heq => ?_⟩
        rw [List.mem_singleton] at hkey'
        exact hnew (hkey' ▸ heq ▸ hkey)
    obtain ⟨hvalues, hrest, hnodup'⟩ := ih hrest hmid
    refine ⟨?_, ?_, hnodup'⟩
    · rw [hvalues, List.append_assoc]
      cases hentry : envEntry raw <;> simp [hentry]
    · intro line hmem
      rcases List.mem_cons.mp hmem with rfl | hmem
      · exact hsome
      · exact hrest line hmem

theorem envEntry_eq {raw key value : Text} (hline : isEnvLine raw)
    (h : splitEquals raw = some (key, value)) :
    envEntry raw = some (stripBy isWhitespace key, unquote (stripBy isWhitespace value)) := by
  obtain ⟨key', value', hsplit, hkey, hvalue⟩ := splitEquals_strip h
  rw [envEntry, if_pos hline, hsplit, Option.map_some, ← hkey, ← hvalue]

/-- The settings of a file: what its lines set, each line that sets something does so once. -/
theorem parseEnvFile_ok {u : Unicode} {text : Text} {values : Mapping}
    (h : parseEnvFile u text = .ok values) :
    values = (pieces isLineBreak text).filterMap envEntry ∧
      (∀ raw ∈ pieces isLineBreak text, isEnvLine raw → (envEntry raw).isSome) ∧
      (values.map (·.1)).Nodup := by
  obtain ⟨hvalues, hsome, hnodup⟩ := parseEnvLines_ok h List.nodup_nil
  have hpieces : (splitlines (universalNewlines text)).filter (!·.isEmpty) =
      pieces isLineBreak text := by
    rw [filter_splitlines]
    exact pieces_universalNewlines [] text
  refine ⟨?_, fun raw hraw => ?_, hnodup⟩
  · rw [hvalues, ← hpieces, List.nil_append, List.filterMap_filter]
    refine List.filterMap_congr fun raw _ => ?_
    cases raw with
    | nil => rfl
    | cons c raw => rfl
  · rw [← hpieces] at hraw
    exact hsome raw (List.mem_of_mem_filter hraw)

end RchProxy
