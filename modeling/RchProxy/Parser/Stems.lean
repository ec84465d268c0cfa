import RchProxy.Parser.Documents
import RchProxy.Py.Decimal

/-!
# The names of the outputs

The stems of one parse are pairwise distinct (`uniqueStems_nodup`): the bases all have one length, so
a stem determines its base and the occurrence behind it. Each stem, with an ending, is a name the
validation of the outputs takes (`isParserOutput_stem`).
-/

namespace RchProxy

open Py

/-- The base of a stem. -/
def stemBase (code : Text) (kind : DocKind) (clock : Text) : Text :=
  code ++ '_' :: kind.letter :: '_' :: clock

/-- The stem of an occurrence of a base. -/
def stemOf (base : Text) (occurrence : Nat) : Text :=
  if occurrence = 1 then base else base ++ '_' :: zeroPad 2 occurrence

/-- The stems of successive calls of `_unique_stem` that share one dictionary. -/
def uniqueStems (code : Text) : List (DocKind × Text) → (seen : List Text) → List Text
  | [], _ => []
  | (kind, clock) :: calls, seen =>
    let (stem, seen) := uniqueStem code kind clock seen
    stem :: uniqueStems code calls seen

section
variable {code clock : Text} {kind : DocKind} {seen : List Text}

theorem uniqueStems_cons (calls : List (DocKind × Text)) :
    uniqueStems code ((kind, clock) :: calls) seen =
      stemOf (stemBase code kind clock) (seen.count (stemBase code kind clock) + 1) ::
        uniqueStems code calls (stemBase code kind clock :: seen) := rfl

theorem stemBase_length : (stemBase code kind clock).length = code.length + clock.length + 3 := by
  simp only [stemBase, List.length_append, List.length_cons]
  omega

/-! ## Distinct -/

/-- A stem starts with its base. -/
theorem stemOf_eq_append (base : Text) (n : Nat) : ∃ tail, stemOf base n = base ++ tail ∧
    (n = 1 → tail = []) ∧ (n ≠ 1 → tail = '_' :: zeroPad 2 n) := by
  by_cases hn : n = 1
  · exact ⟨[], by rw [stemOf, if_pos hn, List.append_nil], fun _ => rfl, fun h => absurd hn h⟩
  · exact ⟨'_' :: zeroPad 2 n, by rw [stemOf, if_neg hn], fun h => absurd h hn, fun _ => rfl⟩

/-- Stems over bases of one length differ where the bases or the occurrences do. -/
theorem stemOf_injective {base base' : Text} {n n' : Nat} (hlength : base.length = base'.length)
    (h : stemOf base n = stemOf base' n') : base = base' ∧ n = n' := by
  obtain ⟨tail, heq, hfirst, hmore⟩ := stemOf_eq_append base n
  obtain ⟨tail', heq', hfirst', hmore'⟩ := stemOf_eq_append base' n'
  rw [heq, heq'] at h
  obtain ⟨hbase, htail⟩ := List.append_inj h hlength
  refine ⟨hbase, ?_⟩
  by_cases hn : n = 1 <;> by_cases hn' : n' = 1
  · rw [hn, hn']
  · rw [hfirst hn, hmore' hn'] at htail
    cases htail
  · rw [hmore hn, hfirst' hn'] at htail
    cases htail
  · rw [hmore hn, hmore' hn'] at htail
    exact zeroPad_injective 2 (List.cons.inj htail).2

/-- Every stem of the calls is an occurrence of a base that was not issued before. -/
theorem mem_uniqueStems {size : Nat} {calls : List (DocKind × Text)}
    (hsize : ∀ call ∈ calls, call.2.length = size) {stem : Text}
    (h : stem ∈ uniqueStems code calls seen) :
    ∃ base n, base.length = code.length + size + 3 ∧ seen.count base < n ∧ stem = stemOf base n := by
  induction calls generalizing seen with
  | nil => cases h
  | cons call calls ih =>
    obtain ⟨kind, clock⟩ := call
    have hclock : clock.length = size := hsize _ List.mem_cons_self
    rw [uniqueStems_cons] at h
    rcases List.mem_cons.mp h with rfl | h
    · exact ⟨stemBase code kind clock, _, by rw [stemBase_length, hclock], Nat.lt_succ_self _, rfl⟩
    · obtain ⟨base, n, hlength, hcount, heq⟩ :=
        ih (fun call hcall => hsize call (List.mem_cons_of_mem _ hcall)) h
      exact ⟨base, n, hlength, Nat.lt_of_le_of_lt List.count_le_count_cons hcount, heq⟩

/-- Stems with clocks of one length are pairwise distinct. -/
theorem uniqueStems_nodup {size : Nat} {calls : List (DocKind × Text)}
    (hsize : ∀ call ∈ calls, call.2.length = size) : (uniqueStems code calls seen).Nodup := by
  induction calls generalizing seen with
  | nil => exact List.nodup_nil
  | cons call calls ih =>
    obtain ⟨kind, clock⟩ := call
    have hrest : ∀ call ∈ calls, call.2.length = size :=
      fun call hcall => hsize call (List.mem_cons_of_mem _ hcall)
    have hclock : clock.length = size := hsize _ List.mem_cons_self
    rw [uniqueStems_cons]
    refine List.nodup_cons.mpr ⟨fun hmem => ?_, ih hrest⟩
    -- the base is counted once more when the later stems are issued
    obtain ⟨base, n, hlength, hcount, heq⟩ := mem_uniqueStems hrest hmem
    obtain ⟨rfl, rfl⟩ := stemOf_injective (by rw [stemBase_length, hlength, hclock]) heq
    rw [List.count_cons_self] at hcount
    exact absurd hcount (Nat.lt_irrefl _)

/-! ## Recognised -/

theorem zero_le_of_isDigit {c : Char} (h : c.isDigit = true) : '0' ≤ c := by
  simp only [Char.isDigit, Bool.and_eq_true, decide_eq_true_eq, ge_iff_le] at h
  exact h.1

theorem char_le_of_toNat {a b : Char} (h : a.toNat ≤ b.toNat) : a ≤ b :=
  Char.le_def.mpr (UInt32.le_iff_toNat_le.mpr h)

/-- The clock `_human_capture_time` writes is one the pattern takes. -/
theorem isClockSuffix_humanCaptureTime (t : LocalTime) (rest : Text) :
    isClockSuffix ((humanCaptureTime t).1 ++ rest) = isOutputSuffix rest := by
  have hhour : (t.hour : Nat) < 10 * 3 := by omega
  have hminute : (t.minute : Nat) < 10 * 6 := by omega
  have hsecond : (t.second : Nat) < 10 * 6 := by omega
  obtain ⟨h₁, h₂, hhour, hh₁, hh₂, hh⟩ := zeroPad_two hhour (by decide)
  obtain ⟨m₁, m₂, hminute, hm₁, hm₂, hm⟩ := zeroPad_two hminute (by decide)
  obtain ⟨s₁, s₂, hsecond, hs₁, hs₂, hs⟩ := zeroPad_two hsecond (by decide)
  have hlength : (zeroPad 3 (t.microsecond / 1000)).length = 3 :=
    zeroPad_length (by decide) (by omega)
  obtain ⟨f₁, f₂, f₃, hmillis⟩ := List.length_eq_three.mp hlength
  have hf : ∀ c ∈ [f₁, f₂, f₃], c.isDigit = true := by
    rw [← hmillis]
    exact fun c => zeroPad_isDigit
  have hclock : (humanCaptureTime t).1 =
      [h₁, h₂, '.', m₁, m₂, '.', s₁, s₂, '.', f₁, f₂, f₃] := by
    simp only [humanCaptureTime, hhour, hminute, hsecond, hmillis, List.cons_append, List.nil_append]
  have hh' : h₁ ≤ '2' := char_le_of_toNat (Nat.le_of_lt_succ hh)
  have hm' : m₁ ≤ '5' := char_le_of_toNat (Nat.le_of_lt_succ hm)
  have hs' : s₁ ≤ '5' := char_le_of_toNat (Nat.le_of_lt_succ hs)
  rw [hclock]
  simp only [List.cons_append, List.nil_append, isClockSuffix, zero_le_of_isDigit hh₁, hh', hh₂,
    zero_le_of_isDigit hm₁, hm', hm₂, zero_le_of_isDigit hs₁, hs', hs₂, hf f₁ (by simp),
    hf f₂ (by simp), hf f₃ (by simp), decide_true, Bool.and_self, Bool.true_and]

theorem humanCaptureTime_length (t : LocalTime) : (humanCaptureTime t).1.length = 12 := by
  have hhour : (zeroPad 2 t.hour).length = 2 := zeroPad_length (by decide) (by omega)
  have hminute : (zeroPad 2 t.minute).length = 2 := zeroPad_length (by decide) (by omega)
  have hsecond : (zeroPad 2 t.second).length = 2 := zeroPad_length (by decide) (by omega)
  have hmillis : (zeroPad 3 (t.microsecond / 1000)).length = 3 :=
    zeroPad_length (by decide) (by omega)
  simp only [humanCaptureTime, List.length_append, List.length_cons, hhour, hminute, hsecond, hmillis]

/-- The endings of an output. -/
def outputEndings : List Text := [".txt".toList, ".pdf".toList]

/-- Nothing, or an occurrence, stands between the clock and the ending. -/
theorem isOutputSuffix_stem {tail ending : Text} {n : Nat} (hfirst : n = 1 → tail = [])
    (hmore : n ≠ 1 → tail = '_' :: zeroPad 2 n) (hending : ending ∈ outputEndings) :
    isOutputSuffix (tail ++ ending) = true := by
  have hending' : ending = ".txt".toList ∨ ending = ".pdf".toList := by
    simpa [outputEndings] using hending
  by_cases hn : n = 1
  · rw [hfirst hn, List.nil_append]
    rcases hending' with rfl | rfl <;> decide
  · obtain ⟨rest, hrest⟩ : ∃ rest, ending = '.' :: rest := by
      rcases hending' with rfl | rfl <;> exact ⟨_, rfl⟩
    have hdigits : ∀ c ∈ zeroPad 2 n, c.isDigit = true := fun _ => zeroPad_isDigit
    have htake : (zeroPad 2 n ++ ending).takeWhile Char.isDigit = zeroPad 2 n := by
      rw [List.takeWhile_append_of_pos hdigits, hrest, List.takeWhile_cons_of_neg (by decide),
        List.append_nil]
    have hdrop : (zeroPad 2 n ++ ending).dropWhile Char.isDigit = ending := by
      rw [List.dropWhile_append_of_pos hdigits, hrest, List.dropWhile_cons_of_neg (by decide)]
    have hoccurrence := le_zeroPad_length 2 n
    rw [hmore hn, List.cons_append, isOutputSuffix]
    simp only [htake, hdrop]
    rcases hending' with rfl | rfl <;> simp [hoccurrence]

/-- A stem with an ending is a name of an output. -/
theorem isParserOutput_stem {t : LocalTime} {n : Nat} {ending : Text} (hcode : isJobCode code = true)
    (hending : ending ∈ outputEndings) :
    isParserOutput (stemOf (stemBase code kind (humanCaptureTime t).1) n ++ ending) = true := by
  obtain ⟨tail, heq, hfirst, hmore⟩ := stemOf_eq_append (stemBase code kind (humanCaptureTime t).1) n
  have hdigits : ∀ c ∈ code, c.isDigit = true := by
    simp only [isJobCode, Bool.and_eq_true, List.all_eq_true] at hcode
    exact hcode.2
  have hname : stemOf (stemBase code kind (humanCaptureTime t).1) n ++ ending =
      code ++ '_' :: kind.letter :: '_' :: ((humanCaptureTime t).1 ++ (tail ++ ending)) := by
    rw [heq]
    simp only [stemBase, List.append_assoc, List.cons_append]
  have hkind : kind.letter = 'C' ∨ kind.letter = 'G' := by cases kind <;> decide
  rw [hname, isParserOutput, List.takeWhile_append_of_pos hdigits,
    List.dropWhile_append_of_pos hdigits, List.takeWhile_cons_of_neg (by decide),
    List.dropWhile_cons_of_neg (by decide), List.append_nil, hcode]
  simp only [isClockSuffix_humanCaptureTime, isOutputSuffix_stem hfirst hmore hending]
  rcases hkind with hkind | hkind <;> rw [hkind] <;> decide

/-- A stem starts with the job and the kind of its document. -/
theorem startsWith_stem (n : Nat) (ending : Text) :
    startsWith (stemOf (stemBase code kind clock) n ++ ending)
      (code ++ '_' :: kind.letter :: ['_']) = true := by
  obtain ⟨tail, heq, -, -⟩ := stemOf_eq_append (stemBase code kind clock) n
  rw [startsWith, List.isPrefixOf_iff_prefix, heq]
  exact ⟨clock ++ (tail ++ ending), by simp [stemBase]⟩

end

/--
The stems of one parse never collide, and every file written under one of them is a name the
validation of the outputs takes, for any number of documents in one millisecond.
-/
theorem uniqueStems_recognised {code : Text} (hcode : isJobCode code = true)
    (calls : List (DocKind × LocalTime)) :
    (uniqueStems code (calls.map fun call => (call.1, (humanCaptureTime call.2).1)) []).Nodup ∧
      List.Forall₂ (fun call stem => ∀ ending ∈ outputEndings,
          isParserOutput (stem ++ ending) = true ∧
            startsWith (stem ++ ending) (code ++ '_' :: call.1.letter :: ['_']) = true)
        calls (uniqueStems code (calls.map fun call => (call.1, (humanCaptureTime call.2).1)) []) := by
  have hsize : ∀ call ∈ calls.map fun call => (call.1, (humanCaptureTime call.2).1),
      call.2.length = 12 := by
    intro call hcall
    obtain ⟨c, -, rfl⟩ := List.mem_map.mp hcall
    exact humanCaptureTime_length c.2
  refine ⟨uniqueStems_nodup hsize, ?_⟩
  -- whatever was issued before
  clear hsize
  generalize ([] : List Text) = seen
  induction calls generalizing seen with
  | nil => exact .nil
  | cons call calls ih =>
    refine .cons (fun ending hending => ?_) (ih _)
    exact ⟨isParserOutput_stem hcode hending, startsWith_stem _ ending⟩

/-- Two documents of one millisecond. -/
theorem uniqueStems_recognised_twice :
    let noon : LocalTime := ⟨"2026-11-19".toList, 12, 0, 0, 500, "+0100".toList⟩
    uniqueStems "0001".toList ([(DocKind.commerciale, noon), (.commerciale, noon)].map
        fun call => (call.1, (humanCaptureTime call.2).1)) [] =
          ["0001_C_12.00.00.000".toList, "0001_C_12.00.00.000_02".toList] ∧
      (uniqueStems "0001".toList ([(DocKind.commerciale, noon), (.commerciale, noon)].map
        fun call => (call.1, (humanCaptureTime call.2).1)) []).Nodup :=
  ⟨by decide, (uniqueStems_recognised (by decide) _).1⟩

end RchProxy
