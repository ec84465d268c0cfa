import RchProxy.Settings.EnvFile

/-!
# The installer's reading of the configuration

`crch_config_value` of `scripts/config_contract.sh`, an `awk` program that looks up one key in the
file the services read. A call that succeeds has read every record (`crchConfigValue_some`): each
one that is neither blank nor a comment sets a key of its own.
-/

namespace RchProxy

open Py Lib

/-- The class `[[:space:]]` of a locale: of ASCII what POSIX says, and beyond it white space. -/
structure Locale where
  space : Char → Bool
  posix : ∀ c, c.toNat < 128 → (space c ↔ c.toNat = 32 ∨ 9 ≤ c.toNat ∧ c.toNat ≤ 13)
  unicode : ∀ c, space c → isWhitespace c

/-- The variables of the `awk` program between two records. -/
structure ContractState where
  invalid : Bool := false
  seen : List Text := []
  result : Option Text := none

/-- `^[A-Z0-9][A-Z0-9_]*$`. -/
def isContractKey (key : Text) : Bool :=
  match key with
  | [] => false
  | c :: rest => (c.isUpper || c.isDigit) && rest.all fun c => c.isUpper || c.isDigit || c = '_'

/-- The value, without the quotes at its two ends (`substr(value, 2, length(value) - 2)`). -/
def contractUnquote (value : Text) : Text :=
  if value.head? = some '"' ∧ value.getLast? = some '"' ∨
      value.head? = some '\'' ∧ value.getLast? = some '\'' then
    (value.drop 1).take (value.length - 2)
  else value

section
variable (l : Locale)

/-- Whether a record is neither blank nor a comment. -/
def isContractRecord (record : Text) : Bool :=
  let rest := record.dropWhile l.space
  rest ≠ [] && rest.head? ≠ some '#'

/-- One record of `crch_config_value`. -/
def contractRecord (wanted : Text) (st : ContractState) (record : Text) : ContractState :=
  if !isContractRecord l record then st
  else
    match splitEquals record with
    | none => { st with invalid := true }
    | some (key, value) =>
      let key := stripBy l.space key
      let value := stripBy l.space value
      if !isContractKey key then { st with invalid := true }
      else if key ∈ st.seen then { st with invalid := true }
      else
        { st with
          seen := key :: st.seen
          result := if key = wanted then some (contractUnquote value) else st.result }

/-- `crch_config_value`: what it prints, or nothing where it exits with status 2. The empty record
after a final line feed is blank. -/
def crchConfigValue (wanted fallback text : Text) : Option Text :=
  let final := (text.splitOnP (· == '\n')).foldl (contractRecord l wanted) {}
  if final.invalid then none else some (final.result.getD fallback)

/-- The key and the value of a record of the shell, with their white space off. -/
def contractSetting (record : Text) : Option (Text × Text) :=
  if isContractRecord l record then
    (splitEquals record).map fun (key, value) => (stripBy l.space key, stripBy l.space value)
  else none

/-- The settings of the records, in their order. -/
def contractSettings (records : List Text) : Mapping := records.filterMap (contractSetting l)

end

/-! ## The records of the shell -/

section
variable {l : Locale} {wanted fallback text x : Text}

theorem contractRecord_valid {st : ContractState} {record : Text}
    (h : (contractRecord l wanted st record).invalid = false) :
    st.invalid = false ∧ contractRecord l wanted st record =
      match contractSetting l record with
      | none => st
      | some (key, value) =>
        { st with
          seen := key :: st.seen
          result := if key = wanted then some (contractUnquote value) else st.result } := by
  unfold contractRecord at h ⊢
  unfold contractSetting
  cases hrecord : isContractRecord l record with
  | false =>
    simp only [hrecord, Bool.not_false, if_true] at h
    exact ⟨h, rfl⟩
  | true =>
    simp only [hrecord, Bool.not_true, Bool.false_eq_true, if_false, if_true] at h ⊢
    cases hsplit : splitEquals record with
    | none => simp [hsplit] at h
    | some entry =>
      simp only [hsplit] at h ⊢
      split at h
      · cases h
      next hkey =>
        split at h
        · cases h
        next hnew =>
          rw [if_neg hkey, if_neg hnew]
          exact ⟨h, rfl⟩

theorem contractRecord_setting {st : ContractState} {record : Text}
    (h : (contractRecord l wanted st record).invalid = false) (hrecord : isContractRecord l record) :
    ∃ entry, contractSetting l record = some entry ∧ isContractKey entry.1 ∧ entry.1 ∉ st.seen := by
  unfold contractRecord at h
  unfold contractSetting
  simp only [hrecord, Bool.not_true, Bool.false_eq_true, if_false, if_true] at h ⊢
  cases hsplit : splitEquals record with
  | none => simp [hsplit] at h
  | some entry =>
    simp only [hsplit] at h
    split at h
    · cases h
    next hkey =>
      split at h
      · cases h
      next hnew => exact ⟨_, rfl, by simpa using hkey, hnew⟩

theorem foldl_contractRecord_invalid {st : ContractState} {records : List Text}
    (h : (records.foldl (contractRecord l wanted) st).invalid = false) : st.invalid = false := by
  induction records generalizing st with
  | nil => exact h
  | cons record rest ih => exact (contractRecord_valid (ih h)).1

/-- The records of a run that ends well: every one that is neither blank nor a comment sets a key of
its own. -/
theorem foldl_contractRecord {st : ContractState} {records : List Text}
    (h : (records.foldl (contractRecord l wanted) st).invalid = false) :
    (∀ record ∈ records, isContractRecord l record →
      ∃ entry, contractSetting l record = some entry ∧ isContractKey entry.1) ∧
    ((contractSettings l records).map (·.1)).Nodup ∧
    (∀ entry ∈ contractSettings l records, entry.1 ∉ st.seen) ∧
    (records.foldl (contractRecord l wanted) st).result =
      (((contractSettings l records).lookup wanted).map contractUnquote).or st.result := by
  induction records generalizing st with
  | nil => exact ⟨nofun, List.nodup_nil, nofun, rfl⟩
  | cons record rest ih =>
    rw [List.foldl_cons] at h
    obtain ⟨hactive, hnodup, hnew, hresult⟩ := ih h
    have hvalid := foldl_contractRecord_invalid h
    obtain ⟨-, hstep⟩ := contractRecord_valid hvalid
    have hhead : isContractRecord l record → ∃ entry, contractSetting l record = some entry ∧
        isContractKey entry.1 := by
      intro hrecord
      obtain ⟨entry, hentry, hkey, -⟩ := contractRecord_setting hvalid hrecord
      exact ⟨entry, hentry, hkey⟩
    refine ⟨List.forall_mem_cons.mpr ⟨hhead, hactive⟩, ?_⟩
    simp only [contractSettings, List.filterMap_cons, List.foldl_cons] at hnodup hnew hresult ⊢
    cases hsetting : contractSetting l record with
    | none =>
      simp only [hsetting] at hstep
      rw [hstep] at hnew hresult ⊢
      exact ⟨hnodup, hnew, hresult⟩
    | some entry =>
      obtain ⟨key, value⟩ := entry
      simp only [hsetting] at hstep ⊢
      have hrecord : isContractRecord l record := by
        by_contra hrecord
        simp [contractSetting, hrecord] at hsetting
      obtain ⟨entry, hentry, -, hseen⟩ := contractRecord_setting hvalid hrecord
      cases hsetting.symm.trans hentry
      rw [hstep] at hnew hresult ⊢
      simp only [List.mem_cons, not_or] at hnew
      refine ⟨?_, ?_, ?_⟩
      · rw [List.map_cons, List.nodup_cons]
        refine ⟨fun hmem => ?_, hnodup⟩
        obtain ⟨entry, hentry, hkey⟩ := List.mem_map.mp hmem
        exact (hnew entry hentry).1 hkey
      · exact List.forall_mem_cons.mpr ⟨hseen, fun entry hentry => (hnew entry hentry).2⟩
      · rw [hresult, List.lookup_cons]
        by_cases hkey : key = wanted
        · have hnone : (rest.filterMap (contractSetting l)).lookup wanted = none := by
            rw [List.lookup_eq_none_iff]
            intro entry hentry
            exact bne_iff_ne.mpr fun heq => (hnew entry hentry).1 (heq.symm.trans hkey.symm)
          simp [hkey, hnone]
        · have hbeq : (wanted == key) = false := beq_eq_false_iff_ne.mpr (Ne.symm hkey)
          simp [hkey, hbeq]

theorem lookup_eq_some {entries : Mapping} (hnodup : (entries.map (·.1)).Nodup) {key value : Text} :
    entries.lookup key = some value ↔ (key, value) ∈ entries := by
  induction entries with
  | nil => simp
  | cons entry rest ih =>
    obtain ⟨k, v⟩ := entry
    rw [List.map_cons, List.nodup_cons] at hnodup
    rw [List.lookup_cons, List.mem_cons, Prod.mk.injEq, ← ih hnodup.2]
    by_cases hkey : key = k
    · have hrest : rest.lookup key = none := by
        rw [List.lookup_eq_none_iff]
        intro entry hentry
        exact bne_iff_ne.mpr fun heq => hnodup.1 (hkey ▸ heq ▸ List.mem_map.mpr ⟨entry, hentry, rfl⟩)
      simp [hkey, eq_comm, hkey ▸ hrest]
    · have hbeq : (key == k) = false := beq_eq_false_iff_ne.mpr hkey
      simp [hkey, hbeq]

/-- What a successful call of `crch_config_value` has found. -/
theorem crchConfigValue_some (h : crchConfigValue l wanted fallback text = some x) :
    (∀ record ∈ pieces (· == '\n') text, isContractRecord l record →
      ∃ entry, contractSetting l record = some entry ∧ isContractKey entry.1) ∧
    ((contractSettings l (pieces (· == '\n') text)).map (·.1)).Nodup ∧
    x = (((contractSettings l (pieces (· == '\n') text)).lookup wanted).map contractUnquote).getD
      fallback := by
  have hsettings : contractSettings l (pieces (· == '\n') text) =
      contractSettings l (text.splitOnP (· == '\n')) := by
    rw [contractSettings, contractSettings, pieces, List.filterMap_filter]
    refine List.filterMap_congr fun record _ => ?_
    cases record with
    | nil => rfl
    | cons c record => rfl
  simp only [crchConfigValue] at h
  split at h
  · cases h
  next hvalid =>
    obtain ⟨hactive, hnodup, -, hresult⟩ := foldl_contractRecord (by simpa using hvalid)
    rw [hsettings]
    refine ⟨fun record hrecord => hactive record (List.mem_of_mem_filter hrecord), hnodup, ?_⟩
    rw [hresult, Option.or_none, Option.some.injEq] at h
    exact h.symm

end

end RchProxy
