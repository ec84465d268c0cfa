import RchProxy.Parser.Subtype
import RchProxy.Receipt.Lifecycle

/-!
# Two readings of a total

A total command is read twice: `_parse_documents` matches a payload from its start, where `$` also
stands before a final line feed, and `_attach_response_counters` matches the whole of it. On the
frames of a document the two readings agree exactly where no total ends in a line feed
(`totals_agree_iff`).
-/

namespace RchProxy

open Py Lib Lib.Regex

/-! ## The pattern -/

/-- What a match of `_COMMERCIAL_TOTAL_RE` reads: digits at its end, and perhaps a line feed left. -/
theorem mem_run_commercialTotal {t : Text} {e : Match}
    (h : e ∈ Pattern.commercialTotal.run ⟨[], t, []⟩) :
    (e.after = [] ∨ e.after = ['\n']) ∧
      ∃ front digits, t = front ++ digits ++ e.after ∧ digits ≠ [] ∧
        ∀ x ∈ digits, isDecimal x = true := by
  obtain ⟨u, hu, h⟩ := mem_run_lit.mp (run_look h)
  obtain ⟨c₁, hcode, h⟩ := mem_run_seq.mp h
  obtain ⟨v, hv, h⟩ := mem_run_lit.mp h
  obtain ⟨c₂, hamount, h⟩ := mem_run_seq.mp h
  obtain ⟨hend, rfl⟩ := mem_run_look.mp h
  -- the code, then the amount with its sign
  obtain ⟨d, hd, rfl⟩ := mem_run_group.mp hcode
  obtain ⟨code, w, hw, -, -, rfl⟩ := mem_run_plus_one.mp hd
  obtain ⟨d, hd, rfl⟩ := mem_run_group.mp hamount
  obtain ⟨c₃, hsign, hd⟩ := mem_run_seq.mp hd
  obtain ⟨digits, rest, hrest, hne, hdigits, rfl⟩ := mem_run_plus_one.mp hd
  have hsign : ∃ sign, v = sign ++ c₃.after := by
    rcases mem_run_opt.mp hsign with hs | rfl
    · obtain ⟨x, y, hy, -, rfl⟩ := mem_run_one.mp hs
      exact ⟨[x], hy⟩
    · exact ⟨[], rfl⟩
  obtain ⟨sign, rfl⟩ := hsign
  have htext : t = "=T".toList ++ code ++ "/$".toList ++ sign ++ digits ++ rest := by
    have hu : t = "=T".toList ++ u := hu
    have hw : u = code ++ w := hw
    have hv : w = "/$".toList ++ (sign ++ c₃.after) := hv
    rw [hu, hw, hv, hrest]
    simp only [List.append_assoc]
  refine ⟨?_, _, digits, htext, hne, hdigits⟩
  rcases Bool.or_eq_true_iff.mp hend with hnil | hline
  · exact .inl (eq_of_beq hnil)
  · exact .inr (eq_of_beq hline)

/-- The whole payload is a total where it is one from its start and does not end in a line feed. -/
theorem fullMatch_commercialTotal (t : Text) :
    (Pattern.commercialTotal.fullMatch t).isSome = true ↔
      (matchTotal t).isSome = true ∧ t.getLast? ≠ some '\n' := by
  rw [matchTotal, Option.isSome_map, matchStart, List.isSome_head?, fullMatch, List.find?_isSome]
  constructor
  · rintro ⟨e, he, hend⟩
    obtain ⟨-, front, digits, ht, hne, hdigits⟩ := mem_run_commercialTotal he
    rw [List.isEmpty_iff.mp hend, List.append_nil] at ht
    refine ⟨by simpa using List.ne_nil_of_mem he, fun hlast => ?_⟩
    -- the last character is a digit
    rw [ht, List.getLast?_append_of_ne_nil _ hne] at hlast
    exact absurd (hdigits _ (List.mem_of_getLast? hlast)) (by decide)
  · rintro ⟨hmatch, hlast⟩
    obtain ⟨e, he⟩ := List.exists_mem_of_ne_nil _ (by simpa using hmatch)
    obtain ⟨hend | hend, front, digits, ht, -⟩ := mem_run_commercialTotal he
    · exact ⟨e, he, List.isEmpty_iff.mpr hend⟩
    · rw [hend] at ht
      exact absurd (by rw [ht, List.getLast?_concat]) hlast

/-- No earlier test takes a total. -/
theorem command_of_matchTotal {t : Text} {c : TotalCommand} (h : matchTotal t = some c) :
    command t = .total c := by
  obtain ⟨u, rfl⟩ := matchTotal_front (by rw [h]; simp)
  have hline : matchManagementLine ("=T".toList ++ u) = none := by
    by_contra hne
    obtain ⟨v, hv⟩ := matchManagementLine_front hne
    simp at hv
  have hitem : matchItem ("=T".toList ++ u) = none := by
    by_contra hne
    obtain ⟨v, hv⟩ := matchItem_front hne
    simp at hv
  have htext : matchCommercialText ("=T".toList ++ u) = none := by
    by_contra hne
    obtain ⟨v, hv⟩ := matchCommercialText_front hne
    simp at hv
  rw [command, if_neg (by simp [startsWith]), if_neg (by simp), if_neg (by simp), hline, hitem,
    htext, h]

theorem command_total_iff (t : Text) :
    (∃ c, command t = .total c) ↔ (matchTotal t).isSome = true := by
  constructor
  · rintro ⟨c, hc⟩
    cases h : matchTotal t with
    | some c => rfl
    | none =>
      unfold command at hc
      simp only [h] at hc
      revert hc
      repeat' split
      all_goals nofun
  · intro h
    obtain ⟨c, hc⟩ := Option.isSome_iff_exists.mp h
    exact ⟨c, command_of_matchTotal hc⟩

/-! ## Recognisers -/

/-- `_parse_documents` applies `_apply_commercial_total` at the frame: its step is that of a total
(`parseStep_eq`). -/
def RCHFrame.AppliesTotal (f : RCHFrame) : Prop :=
  f.expectedRequest = true ∧ ∃ c, command f.dataText = .total c

/-- `_attach_response_counters` sets `payment_seen` at the frame with the id. -/
def SetsPaymentSeen (correlations : List RequestResponseCorrelation)
    (request response : FramingResult) (candidates : List (RCHFrame × Text)) (id : Nat) : Prop :=
  (counterStep correlations request response (false, candidates) id).1 = true

/-- The two recognisers agree on the frames of a document. -/
def ParsedReceipt.TotalsAgree (d : ParsedReceipt) (correlations : List RequestResponseCorrelation)
    (request response : FramingResult) (candidates : List (RCHFrame × Text)) : Prop :=
  ∀ f ∈ request.frames, f.frameId ∈ d.frameIds →
    (SetsPaymentSeen correlations request response candidates f.frameId ↔ f.AppliesTotal)

theorem lookup_some {α : Type} {key : α → Nat} {l : List α} {k : Nat} {x : α}
    (h : lookup key l k = some x) : x ∈ l ∧ key x = k :=
  ⟨List.mem_reverse.mp (List.mem_of_find?_eq_some h), by simpa using List.find?_some h⟩

/-- A dictionary has the only entry of a key. -/
theorem lookup_of_unique {α : Type} {key : α → Nat} {l : List α} {x : α} (hx : x ∈ l)
    (hunique : ∀ y ∈ l, key y = key x → y = x) : lookup key l (key x) = some x := by
  have hsome : (lookup key l (key x)).isSome := by
    rw [lookup, List.find?_isSome]
    exact ⟨x, List.mem_reverse.mpr hx, beq_self_eq_true _⟩
  obtain ⟨y, hy⟩ := Option.isSome_iff_exists.mp hsome
  obtain ⟨hmem, hkey⟩ := lookup_some hy
  rw [hy, hunique y hmem hkey]

/-- The payments that the counters see. -/
theorem setsPaymentSeen_iff {correlations : List RequestResponseCorrelation}
    {request response : FramingResult} {candidates : List (RCHFrame × Text)} {f : RCHFrame}
    (hf : lookup (·.frameId) request.frames f.frameId = some f) :
    SetsPaymentSeen correlations request response candidates f.frameId ↔
      f.expectedRequest = true ∧ (Pattern.commercialTotal.fullMatch f.dataText).isSome = true := by
  rw [SetsPaymentSeen, counterStep, hf]
  dsimp only
  cases f.expectedRequest with
  | false => simp
  | true =>
    by_cases htotal : (Pattern.commercialTotal.fullMatch f.dataText).isSome = true
    · simp [htotal]
    · by_cases hquery : (!false || decide (f.data ≠ [0x3C, 0x3C, 0x2F, 0x3F, 0x73])) = true
      · simp [htotal]
      · simp at hquery

theorem getLast?_dataText (f : RCHFrame) :
    f.dataText.getLast? = some '\n' ↔ f.data.getLast? = some 0x0A := by
  have hline : '\n' = Char.ofNat (0x0A : UInt8).toNat := by decide
  rw [RCHFrame.dataText, latin1, List.getLast?_map, hline]
  cases f.data.getLast? with
  | none => simp
  | some x =>
    rw [Option.map_some, Option.some_inj, Option.some_inj]
    constructor
    · intro h
      have hcode := congrArg Char.toNat h
      rw [toNat_ofNat_byte, toNat_ofNat_byte] at hcode
      exact UInt8.toNat_inj.mp hcode
    · rintro rfl
      rfl

/-- **The two recognisers of a total** agree on the frames of a document exactly where no total among
them ends in a line feed. -/
theorem totals_agree_iff (lim : FramerLimits) (retain : Bool) (chunks : List Bytes)
    (maxDocuments : Nat) (budget : SemanticBudget) :
    ∃ request, frameChunks lim retain chunks = .ok request ∧
      ∀ correlations response candidates,
        ∀ d ∈ ((parseDocuments maxDocuments request.frames).run budget).1.1,
          d.documentType = .commerciale → d.complete = true →
          (d.TotalsAgree correlations request response candidates ↔
            ∀ f ∈ request.frames, f.frameId ∈ d.frameIds → (matchTotal f.dataText).isSome = true →
              f.data.getLast? ≠ some 0x0A) := by
  obtain ⟨f, hf, -⟩ := Framer.feedAll_reached lim retain chunks
  have hrun : frameChunks lim retain chunks = .ok (f.finish lim).1 := by rw [frameChunks, hf]; rfl
  have hbefore := frameChunks_frames_before hrun
  refine ⟨_, hrun, fun correlations response candidates d hd _ _ => ?_⟩
  generalize (f.finish lim).1 = request at hbefore hd
  refine forall₃_congr fun g hg hown => ?_
  have hlookup : lookup (·.frameId) request.frames g.frameId = some g :=
    lookup_of_unique hg fun y hy hid => frames_unique hbefore hy hg hid
  have hexpected : g.expectedRequest = true := by
    obtain ⟨g', hg', he, hid⟩ := parseDocuments_frameIds maxDocuments budget _ d hd _ hown
    rwa [frames_unique hbefore hg' hg hid] at he
  rw [setsPaymentSeen_iff hlookup, RCHFrame.AppliesTotal, command_total_iff,
    fullMatch_commercialTotal, Ne, getLast?_dataText]
  simp only [hexpected, true_and]
  exact ⟨fun h htotal => (h.mpr htotal).2, fun h => ⟨And.left, fun htotal => ⟨htotal, h htotal⟩⟩⟩

/-- A sale that closes after one payload. -/
def saleOf (data : String) : Bytes := ["=K", data, "<</?"].flatMap requestFrame

/-- A total that ends in a line feed is applied, and no payment is seen. -/
theorem totals_not_agree :
    ¬ ∀ (lim : FramerLimits) (retain : Bool) (chunks : List Bytes) (maxDocuments : Nat)
      (budget : SemanticBudget) (request : FramingResult),
      frameChunks lim retain chunks = .ok request →
      ∀ correlations response candidates,
        ∀ d ∈ ((parseDocuments maxDocuments request.frames).run budget).1.1,
          d.documentType = .commerciale → d.complete = true →
          d.TotalsAgree correlations request response candidates := by
  intro hall
  have hcheck : (match frameChunks .default true [saleOf "=T1/$100\n"] with
      | .ok request =>
        (((parseDocuments 1 request.frames).run (.new 9)).1.1.any fun d =>
          d.documentType = .commerciale && d.complete &&
            request.frames.any fun f => d.frameIds.contains f.frameId && f.expectedRequest &&
              (matchTotal f.dataText).isSome &&
              !(counterStep [] request request (false, []) f.frameId).1)
      | .error _ => false) = true := by decide +kernel
  split at hcheck
  · next request hrun =>
    obtain ⟨d, hd, h⟩ := List.any_eq_true.mp hcheck
    simp only [Bool.and_eq_true, decide_eq_true_eq, List.any_eq_true] at h
    obtain ⟨⟨hkind, hcomplete⟩, f, hf, ⟨⟨hown, hexpected⟩, htotal⟩, hseen⟩ := h
    have hagree := hall .default true _ 1 (.new 9) request hrun [] request [] d hd hkind hcomplete f hf
      (by simpa using hown)
    have happlies := hagree.mpr ⟨hexpected, (command_total_iff _).mpr htotal⟩
    rw [SetsPaymentSeen] at happlies
    simp [happlies] at hseen
  · cases hcheck

end RchProxy
