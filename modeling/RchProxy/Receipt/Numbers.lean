import RchProxy.Receipt.Analysis
import RchProxy.Receipt.Ownership
import RchProxy.Receipt.Silence
import RchProxy.Receipt.Totals

/-!
# The numbers of receipts

A counter query stands before and after a payment, and the first one is answered with the number of
the receipt before. `_attach_response_counters` takes the last answer to a query behind a total of
the same document, so the number comes from a response to a frame of the document, and no response
gives two documents a number (`counter_from_own_response`).
-/

namespace RchProxy

open Py Lib Lib.Regex Lib.Spend

/-! ## The text of a response -/

/-- `s`, six digits, `RE` and the four digits of the counter, and perhaps a line feed. -/
def CounterText (t counter : Text) : Prop :=
  ∃ digits tail, t = "s".toList ++ digits ++ "RE".toList ++ counter ++ tail ∧
    (digits.length = 6 ∧ ∀ c ∈ digits, isDecimal c = true) ∧
    (counter.length = 4 ∧ ∀ c ∈ counter, isDecimal c = true) ∧ (tail = [] ∨ tail = ['\n'])

theorem CounterText.eq {t counter : Text} (h : CounterText t counter) :
    counter = (t.drop 9).take 4 := by
  obtain ⟨digits, tail, rfl, ⟨hlen, -⟩, ⟨hlen', -⟩, -⟩ := h
  have hfront : ("s".toList ++ digits ++ "RE".toList).length = 9 := by simp [hlen]
  rw [List.append_assoc _ counter, ← hfront, List.drop_left, ← hlen', List.take_left]

theorem mem_run_responseCounter {t : Text} {e : Match}
    (h : e ∈ Pattern.responseCounter.run ⟨[], t, []⟩) : CounterText t (groupText e .counter) := by
  obtain ⟨u, hu, h⟩ := mem_run_lit.mp (run_look h)
  obtain ⟨c₁, hsix, h⟩ := mem_run_seq.mp h
  obtain ⟨digits, v, hv, hlen, hdigits, rfl⟩ := (mem_run_rep_one (Nat.le_refl 6)).mp hsix
  obtain ⟨w, hw, h⟩ := mem_run_lit.mp h
  obtain ⟨c₂, hgroup, h⟩ := mem_run_seq.mp h
  obtain ⟨hend, rfl⟩ := mem_run_look.mp h
  obtain ⟨d, hd, rfl⟩ := mem_run_group.mp hgroup
  obtain ⟨counter, tail, htail, hlen', hcounter, rfl⟩ := (mem_run_rep_one (Nat.le_refl 4)).mp hd
  change CounterText t (Cursor.textTo _ _)
  rw [Cursor.textTo_of_after htail rfl]
  have hu : t = "s".toList ++ u := hu
  have hv : u = digits ++ v := hv
  have hw : v = "RE".toList ++ w := hw
  have htail : w = counter ++ tail := htail
  refine ⟨digits, tail, ?_, ⟨by omega, hdigits⟩, ⟨by omega, hcounter⟩, ?_⟩
  · rw [hu, hv, hw, htail]
    simp only [List.append_assoc]
  · rcases Bool.or_eq_true_iff.mp hend with hnil | hline
    · exact .inl (eq_of_beq hnil)
    · exact .inr (eq_of_beq hline)

/-- What `_RESPONSE_COUNTER_RE` reads from a response. -/
theorem matchResponseCounter_iff (t counter : Text) :
    matchResponseCounter t = some counter ↔ CounterText t counter := by
  have hread : ∀ {x}, matchResponseCounter t = some x → CounterText t x := by
    intro x h
    obtain ⟨e, he, rfl⟩ := Option.map_eq_some_iff.mp h
    exact mem_run_responseCounter (List.mem_of_head? he)
  refine ⟨hread, fun h => ?_⟩
  have hmatch : matchResponseCounter t ≠ none := by
    obtain ⟨digits, tail, rfl, ⟨hlen, hdigits⟩, ⟨hlen', hcounter⟩, htail⟩ := h
    rw [matchResponseCounter, Ne, Option.map_eq_none_iff, matchStart, List.head?_eq_none_iff]
    refine List.ne_nil_of_mem (mem_run_seq.mpr ⟨_, mem_run_look.mpr ⟨rfl, rfl⟩, mem_run_lit.mpr
      ⟨_, by simp only [List.append_assoc],
        mem_run_seq.mpr ⟨_, (mem_run_rep_one (Nat.le_refl 6)).mpr
        ⟨digits, _, rfl, by omega, hdigits, rfl⟩, mem_run_lit.mpr ⟨_, rfl, mem_run_seq.mpr
          ⟨_, mem_run_group.mpr ⟨_, (mem_run_rep_one (Nat.le_refl 4)).mpr
            ⟨counter, tail, rfl, by omega, hcounter, rfl⟩, rfl⟩, mem_run_look.mpr ⟨?_, rfl⟩⟩⟩⟩⟩⟩)
    rcases htail with rfl | rfl <;> rfl
  obtain ⟨x, hx⟩ := Option.ne_none_iff_exists'.mp hmatch
  rw [hx, h.eq, (hread hx).eq]

/-! ## The loop over the frames of a document -/

/-- `<</?s`, which asks for the counter. -/
def counterQuery : Bytes := [0x3C, 0x3C, 0x2F, 0x3F, 0x73]

/-- The frame with the id is a whole total. -/
def PaysAt (request : FramingResult) (id : Nat) : Prop :=
  ∃ f, lookup (·.frameId) request.frames id = some f ∧ f.expectedRequest = true ∧
    (Pattern.commercialTotal.fullMatch f.dataText).isSome = true

/-- The frame with the id asks for the counter. -/
def AsksAt (request : FramingResult) (id : Nat) : Prop :=
  ∃ f, lookup (·.frameId) request.frames id = some f ∧ f.expectedRequest = true ∧
    f.data = counterQuery

section
variable (correlations : List RequestResponseCorrelation) (request response : FramingResult)

/-- What one turn does: it sees a payment, passes, or takes the answer to a query. -/
theorem counterStep_cases (st : Bool × List (RCHFrame × Text)) (id : Nat) :
    PaysAt request id ∧ ¬ AsksAt request id ∧
        counterStep correlations request response st id = (true, st.2) ∨
      (AsksAt request id → st.1 = false) ∧
        counterStep correlations request response st id = st ∨
      AsksAt request id ∧ st.1 = true ∧
        counterStep correlations request response st id =
          (true, st.2 ++ (counterOf correlations response id).toList) := by
  have hquery : Pattern.commercialTotal.fullMatch (latin1 counterQuery) = none := by decide
  obtain ⟨seen, candidates⟩ := st
  rw [counterStep]
  cases hf : lookup (·.frameId) request.frames id with
  | none =>
    refine .inr (.inl ⟨?_, rfl⟩)
    rintro ⟨f, hsome, -⟩
    cases hf.symm.trans hsome
  | some f =>
    dsimp only
    have hasks : AsksAt request id → f.expectedRequest = true ∧ f.data = counterQuery := by
      rintro ⟨g, hg, h⟩
      cases hf.symm.trans hg
      exact h
    split
    · next hexp =>
      refine .inr (.inl ⟨fun h => ?_, rfl⟩)
      rw [(hasks h).1] at hexp
      cases hexp
    next hexp =>
    have hexp : f.expectedRequest = true := by simpa using hexp
    split
    · next htotal =>
      refine .inl ⟨⟨f, hf, hexp, htotal⟩, fun h => ?_, rfl⟩
      rw [RCHFrame.dataText, (hasks h).2, hquery] at htotal
      cases htotal
    split
    · next hpass =>
      refine .inr (.inl ⟨fun h => ?_, rfl⟩)
      rcases Bool.or_eq_true_iff.mp hpass with hpass | hpass
      · simpa using hpass
      · exact absurd (hasks h).2 (of_decide_eq_true hpass)
    · next htake =>
      rw [Bool.or_eq_true, not_or, decide_eq_true_eq, not_not] at htake
      have hseen : seen = true := by simpa using htake.1
      exact .inr (.inr ⟨⟨f, hf, hexp, htake.2⟩, hseen, by rw [hseen]⟩)

/-- A payment that is seen stays seen. -/
theorem counterFold_seen {st : Bool × List (RCHFrame × Text)} (h : st.1 = true) (ids : List Nat) :
    (ids.foldl (counterStep correlations request response) st).1 = true := by
  induction ids generalizing st with
  | nil => exact h
  | cons id ids ih =>
    refine ih ?_
    rcases counterStep_cases correlations request response st id with
      ⟨-, -, hstep⟩ | ⟨-, hstep⟩ | ⟨-, -, hstep⟩ <;> rw [hstep]
    exact h

/-- A payment is seen at a total. -/
theorem counterFold_pays {ids : List Nat}
    (h : (ids.foldl (counterStep correlations request response) (false, [])).1 = true) :
    ∃ id ∈ ids, PaysAt request id := by
  induction ids using List.reverseRecOn with
  | nil => cases h
  | append_singleton ids id ih =>
    rw [List.foldl_append, List.foldl_cons, List.foldl_nil] at h
    have hbefore : (ids.foldl (counterStep correlations request response) (false, [])).1 = true →
        ∃ id' ∈ ids ++ [id], PaysAt request id' := fun hseen =>
      (ih hseen).imp fun id' hid => ⟨List.mem_append_left _ hid.1, hid.2⟩
    rcases counterStep_cases correlations request response
      (ids.foldl (counterStep correlations request response) (false, [])) id with
      ⟨hpays, -, -⟩ | ⟨-, hstep⟩ | ⟨-, hseen, -⟩
    · exact ⟨id, by simp, hpays⟩
    · rw [hstep] at h
      exact hbefore h
    · exact hbefore hseen

/-- The last answer that the loop takes: that of the last query behind a payment that has one. -/
theorem counterFold_last {ids : List Nat} {answer : RCHFrame × Text}
    (h : (ids.foldl (counterStep correlations request response) (false, [])).2.getLast? =
      some answer) :
    ∃ before id after, ids = before ++ id :: after ∧
      (before.foldl (counterStep correlations request response) (false, [])).1 = true ∧
      AsksAt request id ∧ counterOf correlations response id = some answer ∧
      ∀ id' ∈ after, AsksAt request id' → counterOf correlations response id' = none := by
  induction ids using List.reverseRecOn with
  | nil => cases h
  | append_singleton ids last ih =>
    rw [List.foldl_append, List.foldl_cons, List.foldl_nil] at h
    -- an answer before the last frame stands, unless the last frame brings one
    have hkeep : (ids.foldl (counterStep correlations request response) (false, [])).2.getLast? =
          some answer →
        (AsksAt request last →
          (ids.foldl (counterStep correlations request response) (false, [])).1 = false ∨
            counterOf correlations response last = none) →
        ∃ before id after, ids ++ [last] = before ++ id :: after ∧
          (before.foldl (counterStep correlations request response) (false, [])).1 = true ∧
          AsksAt request id ∧ counterOf correlations response id = some answer ∧
          ∀ id' ∈ after, AsksAt request id' → counterOf correlations response id' = none := by
      intro hlast hpass
      obtain ⟨before, id, after, rfl, hpaid, hasks, hanswer, hafter⟩ := ih hlast
      refine ⟨before, id, after ++ [last], by simp, hpaid, hasks, hanswer, ?_⟩
      intro id' hid' hasks'
      rcases List.mem_append.mp hid' with hid' | hid'
      · exact hafter id' hid' hasks'
      · obtain rfl := List.mem_singleton.mp hid'
        refine (hpass hasks').resolve_left fun hfalse => ?_
        rw [List.foldl_append, counterFold_seen correlations request response hpaid] at hfalse
        cases hfalse
    rcases counterStep_cases correlations request response
      (ids.foldl (counterStep correlations request response) (false, [])) last with
      ⟨-, hno, hstep⟩ | ⟨hpass, hstep⟩ | ⟨hasks, hseen, hstep⟩ <;> rw [hstep] at h
    · exact hkeep h fun hasks => absurd hasks hno
    · exact hkeep h fun hasks => .inl (hpass hasks)
    · cases hanswer : counterOf correlations response last with
      | none =>
        rw [hanswer, Option.toList_none, List.append_nil] at h
        exact hkeep h fun _ => .inr hanswer
      | some answer' =>
        rw [hanswer, Option.toList_some, List.getLast?_concat, Option.some_inj] at h
        exact ⟨ids, last, [], rfl, hseen, hasks, hanswer.trans (congrArg some h), nofun⟩

end

/-! ## The answer to a query -/

/-- A response is in sequence where it counts eight on from the request, modulo ten. -/
theorem sequenceMatches_iff (c c' : Char) :
    sequenceMatches (expectedResponseSequence c) (some c') = some true ↔
      ∃ n < 10, c = digitChar n ∧ c' = digitChar ((n + 8) % 10) := by
  rw [expectedResponseSequence]
  constructor
  · intro h
    split at h
    · next hdigit =>
      have hrange : 48 ≤ c.toNat ∧ c.toNat ≤ 57 := by simpa [isDecimal] using hdigit
      have hc : digitChar (c.toNat - 48) = c := by
        rw [digitChar, Nat.add_sub_cancel' hrange.1, Char.ofNat_toNat]
      refine ⟨c.toNat - 48, by omega, hc.symm, ?_⟩
      simp only [sequenceMatches, Option.some_inj, beq_iff_eq] at h
      exact h.symm
    · cases h
  · rintro ⟨n, hn, rfl, rfl⟩
    obtain ⟨hdecimal, hcode⟩ := digitChar_decimal n hn
    rw [if_pos hdecimal, hcode, Nat.add_sub_cancel_left]
    simp [sequenceMatches, digitChar]

section
variable {request response : FramingResult}

/-- The correlation of the request frame at a position. -/
theorem lookup_correlation (maxIssues : Nat) (hreq : request.frames.Pairwise RCHFrame.Before)
    {n : Nat} {q : RCHFrame} (hq : request.frames[n]? = some q) :
    lookup (·.requestFrameId) (correlateDirections maxIssues request response).1 q.frameId =
      some (correlation q response.acks[n]? response.frames[n]?) := by
  have hmem : ∀ c, c ∈ (correlateDirections maxIssues request response).1 ↔
      ∃ (i : Nat) (f : RCHFrame), request.frames[i]? = some f ∧
        c = correlation f response.acks[i]? response.frames[i]? := by
    intro c
    simp only [correlateDirections, paired, List.map_map, List.mem_map, Prod.exists,
      List.mem_zipIdx_iff_getElem?, Function.comp]
    constructor
    · rintro ⟨f, i, hf, h⟩
      exact ⟨i, f, hf, h.symm⟩
    · rintro ⟨i, f, hf, h⟩
      exact ⟨f, i, hf, h.symm⟩
  refine @lookup_of_unique _ (·.requestFrameId) _ _ ((hmem _).mpr ⟨n, q, hq, rfl⟩) ?_
  intro c hc hid
  obtain ⟨i, f, hf, rfl⟩ := (hmem c).mp hc
  have hid : f.frameId = q.frameId := hid
  -- frames at other positions have other ids
  obtain rfl : i = n := by
    rcases Nat.lt_trichotomy i n with hlt | heq | hlt
    · exact absurd hid (Nat.ne_of_lt (frameId_lt hreq hlt hf hq))
    · exact heq
    · exact absurd hid (Nat.ne_of_gt (frameId_lt hreq hlt hq hf))
  rw [Option.some_inj.mp (hf.symm.trans hq)]

/-- The answer to a request frame: the frame at its position, if that is a counter in sequence. -/
theorem counterOf_iff (maxIssues : Nat) (hreq : request.frames.Pairwise RCHFrame.Before)
    (hresp : response.frames.Pairwise RCHFrame.Before) {n : Nat} {q : RCHFrame}
    (hq : request.frames[n]? = some q) (g : RCHFrame) (counter : Text) :
    counterOf (correlateDirections maxIssues request response).1 response q.frameId =
        some (g, counter) ↔
      response.frames[n]? = some g ∧
        sequenceMatches (expectedResponseSequence q.sequence) (some g.sequence) = some true ∧
        g.expectedResponse = true ∧ matchResponseCounter g.dataText = some counter := by
  rw [counterOf, lookup_correlation maxIssues hreq hq, Option.bind_eq_bind, Option.bind_some]
  cases hg : response.frames[n]? with
  | none => simp [correlation]
  | some g' =>
    have hlookup : lookup (·.frameId) response.frames g'.frameId = some g' :=
      lookup_of_unique (List.mem_of_getElem? hg) fun f hf hid =>
        frames_unique hresp hf (List.mem_of_getElem? hg) hid
    simp only [correlation, Option.map_some, Option.bind_eq_bind, Option.bind_some, hlookup,
      Option.some_inj, Option.pure_def]
    constructor
    · intro h
      split at h
      · cases h
      next hseq =>
      split at h
      · cases h
      next hexp =>
      obtain ⟨x, hread, heq⟩ := Option.bind_eq_some_iff.mp h
      cases heq
      exact ⟨rfl, not_not.mp hseq, by simpa using hexp, hread⟩
    · rintro ⟨rfl, hseq, hexp, hread⟩
      simp [hseq, hexp, hread]

/-- Of two frames of a stream, the one with the smaller id stands before the other. -/
theorem before_of_frameId_lt {frames : List RCHFrame} (h : frames.Pairwise RCHFrame.Before)
    {f g : RCHFrame} (hf : f ∈ frames) (hg : g ∈ frames) (hlt : f.frameId < g.frameId) :
    f.Before g := by
  obtain ⟨i, hi, rfl⟩ := List.mem_iff_getElem.mp hf
  obtain ⟨j, hj, rfl⟩ := List.mem_iff_getElem.mp hg
  have hpair := List.pairwise_iff_getElem.mp h
  rcases Nat.lt_trichotomy i j with hij | rfl | hij
  · exact hpair i j hi hj hij
  · exact absurd hlt (Nat.lt_irrefl _)
  · exact absurd hlt (Nat.lt_asymm (hpair j i hj hi hij).frameId)

end

/-! ## The number of a document -/

/-- The response frame `g` answers the frame `q`, one of those with the ids, with the counter: `q`
asks for it behind a total among them, and `g` stands at its position, in its profile and in
sequence. -/
structure AnswersQuery (request response : FramingResult) (ids : List Nat) (q g : RCHFrame)
    (counter : Text) : Prop where
  owned : q ∈ request.frames ∧ q.frameId ∈ ids
  query : q.data = counterQuery
  paid : ∃ t ∈ request.frames, t.frameId ∈ ids ∧ t.AppliesTotal ∧ t.Before q
  position : ∃ n : Nat, request.frames[n]? = some q ∧ response.frames[n]? = some g
  profile : g.bccValid = true ∧ g.address = "01".toList ∧ g.frameClass = 'N'
  sequence : ∃ n < 10, q.sequence = digitChar n ∧ g.sequence = digitChar ((n + 8) % 10)
  counter : CounterText g.dataText counter

section
variable {request response : FramingResult} {ids : List Nat}

/-- A whole total is applied. -/
theorem PaysAt.appliesTotal {id : Nat} (h : PaysAt request id) :
    ∃ t ∈ request.frames, t.frameId = id ∧ t.AppliesTotal := by
  obtain ⟨t, ht, hexp, htotal⟩ := h
  obtain ⟨hmem, hid⟩ := lookup_some ht
  exact ⟨t, hmem, hid, hexp, (command_total_iff _).mpr ((fullMatch_commercialTotal _).mp htotal).1⟩

/-- The loop takes the last answer among the frames of a document. -/
theorem counterFold_answers (maxIssues : Nat) (hreq : request.frames.Pairwise RCHFrame.Before)
    (hresp : response.frames.Pairwise RCHFrame.Before) (hinc : ids.Pairwise (· < ·))
    (hexp : ∀ f ∈ request.frames, f.frameId ∈ ids → f.expectedRequest = true)
    {g : RCHFrame} {counter : Text}
    (h : (ids.foldl (counterStep
          (correlateDirections maxIssues request response).1 request response)
        (false, [])).2.getLast? = some (g, counter)) :
    ∃ q, AnswersQuery request response ids q g counter ∧
      ∀ q' g' counter', AnswersQuery request response ids q' g' counter' →
        q'.frameId ≤ q.frameId := by
  obtain ⟨before, id, after, rfl, hpaid, ⟨q, hq, -, hdata⟩, hanswer, hafter⟩ :=
    counterFold_last _ request response h
  obtain ⟨hmem, rfl⟩ := lookup_some hq
  obtain ⟨paidId, hpaidId, hpays⟩ := counterFold_pays _ request response hpaid
  obtain ⟨t, ht, rfl, happlies⟩ := hpays.appliesTotal
  obtain ⟨n, hn⟩ := List.mem_iff_getElem?.mp hmem
  obtain ⟨hg, hseq, hprofile, hread⟩ := (counterOf_iff maxIssues hreq hresp hn g counter).mp hanswer
  have hsplit := List.pairwise_append.mp hinc
  refine ⟨q, ⟨⟨hmem, by simp⟩, hdata, ⟨t, ht, by simp [hpaidId], happlies, ?_⟩, ⟨n, hn, hg⟩, ?_,
    (sequenceMatches_iff _ _).mp hseq, (matchResponseCounter_iff _ _).mp hread⟩, ?_⟩
  · exact before_of_frameId_lt hreq ht hmem (hsplit.2.2 _ hpaidId _ List.mem_cons_self)
  · simpa [RCHFrame.expectedResponse, and_assoc] using hprofile
  · intro q' g' counter' h'
    by_contra hlt
    -- a later answer would have been taken
    have hlater : q'.frameId ∈ after := by
      have hnot : ∀ m ∈ before ++ [q.frameId], q'.frameId ≠ m := by
        intro m hm heq
        rcases List.mem_append.mp hm with hm | hm
        · exact hlt (heq ▸ (hsplit.2.2 m hm _ List.mem_cons_self).le)
        · exact hlt (heq ▸ (List.mem_singleton.mp hm).le)
      have hown := h'.owned.2
      rw [List.append_cons, List.mem_append] at hown
      exact hown.resolve_left fun hm => hnot _ hm rfl
    have hlookup : lookup (·.frameId) request.frames q'.frameId = some q' :=
      lookup_of_unique h'.owned.1 fun f hf hid => frames_unique hreq hf h'.owned.1 hid
    obtain ⟨n', hn', hg'⟩ := h'.position
    have hanswer' := (counterOf_iff maxIssues hreq hresp hn' g' counter').mpr
      ⟨hg', (sequenceMatches_iff _ _).mpr h'.sequence,
        by simpa [RCHFrame.expectedResponse, and_assoc] using h'.profile,
        (matchResponseCounter_iff _ _).mpr h'.counter⟩
    have hasks : AsksAt request q'.frameId :=
      ⟨q', hlookup, hexp q' h'.owned.1 h'.owned.2, h'.query⟩
    cases (hafter _ hlater hasks).symm.trans hanswer'

/-- A response frame answers one request frame. -/
theorem AnswersQuery.unique (hresp : response.frames.Pairwise RCHFrame.Before) {ids' : List Nat}
    {q q' g : RCHFrame} {counter counter' : Text}
    (h : AnswersQuery request response ids q g counter)
    (h' : AnswersQuery request response ids' q' g counter') : q = q' := by
  obtain ⟨n, hq, hg⟩ := h.position
  obtain ⟨n', hq', hg'⟩ := h'.position
  obtain rfl : n = n' := by
    rcases Nat.lt_trichotomy n n' with hlt | heq | hlt
    · exact absurd (frameId_lt hresp hlt hg hg') (Nat.lt_irrefl _)
    · exact heq
    · exact absurd (frameId_lt hresp hlt hg' hg) (Nat.lt_irrefl _)
  exact Option.some_inj.mp (hq.symm.trans hq')

end

/-- Documents with counters are the documents before, or complete commercial ones with the last of
their counters. -/
theorem mem_attachResponseCounters (correlations : List RequestResponseCorrelation)
    (request response : FramingResult) (ds : List ParsedReceipt) :
    Always (attachResponseCounters correlations request response ds) fun ds' =>
      ∀ d' ∈ ds', ∃ d ∈ ds, d' = d ∨
        d.documentType = .commerciale ∧ d.complete = true ∧ ∃ frame suffix,
          (d.frameIds.foldl (counterStep correlations request response) (false, [])).2.getLast? =
            some (frame, suffix) ∧
          d' = { d with model := d.model.attachCounter frame suffix } := by
  induction ds with
  | nil => exact .pure fun d hd => absurd hd List.not_mem_nil
  | cons d ds ih =>
    rw [attachResponseCounters_cons]
    refine (attachResponseCounter_cases correlations request response d).bind fun d' hd' =>
      ih.bind fun ds' hds' => .pure fun e he => ?_
    rcases List.mem_cons.mp he with rfl | he
    · exact ⟨d, List.mem_cons_self, hd'⟩
    · obtain ⟨d₀, hd₀, h⟩ := hds' e he
      exact ⟨d₀, List.mem_cons_of_mem d hd₀, h⟩

section
variable (lim : ParserLimits) (request response : FramingResult) (m : SemanticBudget)

/-- A document with a counter in the result is a complete commercial one, and the last answer among
its frames is the counter. -/
theorem reconstruct_counter {d : ParsedReceipt}
    (hd : d ∈ ((reconstruct lim request response).run m).1.1) {counter : Text}
    (hcounter : d.model.responseCounterSuffix = some counter) :
    d.documentType = .commerciale ∧ d.complete = true ∧ ∃ g,
      (d.frameIds.foldl (counterStep
          (correlateDirections lim.framer.maxIssues request response).1 request response)
        (false, [])).2.getLast? = some (g, counter) ∧
      d.model.metadata.documentNumberSource = some { g.source with direction := .response } := by
  -- a subtype leaves what is said here as it is
  let said (d : ParsedReceipt) := (d.documentType, d.complete, d.frameIds,
    d.model.responseCounterSuffix, d.model.metadata.documentNumberSource)
  have hsaid : ((reconstruct lim request response).run m).1.1.map said = _ :=
    assignDocumentSubtypes_map (fun _ _ _ _ => rfl) [] _
  have hmem := List.mem_map_of_mem (f := said) hd
  rw [hsaid] at hmem
  obtain ⟨d', hd', hsame⟩ := List.mem_map.mp hmem
  simp only [said, Prod.mk.injEq] at hsame
  obtain ⟨hkind, hcomplete, hids, hsuffix, hsource⟩ := hsame
  obtain ⟨d₀, hd₀, rfl | ⟨hkind₀, hcomplete₀, g, suffix, hlast, rfl⟩⟩ :=
    mem_attachResponseCounters _ request response _ _ d' hd'
  · have hnone := (finalAssembler_tidy lim.maxDocuments request.frames m).suffixes d' hd₀
    cases hnone.symm.trans (hsuffix.trans hcounter)
  · obtain rfl : suffix = counter := Option.some_inj.mp (hsuffix.trans hcounter)
    exact ⟨hkind ▸ hkind₀, hcomplete ▸ hcomplete₀, g, hids ▸ hlast, hsource.symm⟩

theorem reconstruct_frameIds :
    ((reconstruct lim request response).run m).1.1.map (·.frameIds) =
      ((parseDocuments lim.maxDocuments request.frames).run m).1.1.map (·.frameIds) := by
  have h := congrArg (List.map Records.frameIds) (reconstruct_records lim request response m)
  rwa [List.map_map, List.map_map] at h

end

/-- Of disjoint lists, one that shares an entry with another is the same one. -/
theorem eq_of_shared {ls : List (List Nat)} (h : ls.Pairwise fun l l' => ∀ n ∈ l, n ∉ l')
    {i j : Nat} {l l' : List Nat} (hi : ls[i]? = some l) (hj : ls[j]? = some l') {n : Nat}
    (hn : n ∈ l) (hn' : n ∈ l') : i = j := by
  obtain ⟨hil, rfl⟩ := List.getElem?_eq_some_iff.mp hi
  obtain ⟨hjl, rfl⟩ := List.getElem?_eq_some_iff.mp hj
  have hpair := List.pairwise_iff_getElem.mp h
  rcases Nat.lt_trichotomy i j with hlt | heq | hlt
  · exact absurd hn' (hpair i j hil hjl hlt n hn)
  · exact heq
  · exact absurd hn (hpair j i hjl hil hlt n hn')

/-- **The number of a receipt** comes from a response to a query that the receipt has behind its
payment, the last one with an answer, and no response answers queries of two documents. -/
theorem counter_from_own_response (lim : ParserLimits) (request response : Bytes) :
    ∃ r, parseProtocolCopies lim request response = .ok r ∧
      (∀ d ∈ r.documents, ∀ counter, d.model.responseCounterSuffix = some counter →
        d.documentType = .commerciale ∧ d.complete = true ∧
        ∃ q g, AnswersQuery r.requestFraming r.responseFraming d.frameIds q g counter ∧
          d.model.metadata.documentNumberSource = some { g.source with direction := .response } ∧
          ∀ q' g' counter',
            AnswersQuery r.requestFraming r.responseFraming d.frameIds q' g' counter' →
            q'.frameId ≤ q.frameId) ∧
      ∀ (i j : Nat) (d d' : ParsedReceipt), r.documents[i]? = some d → r.documents[j]? = some d' →
        ∀ q q' g counter counter',
          AnswersQuery r.requestFraming r.responseFraming d.frameIds q g counter →
          AnswersQuery r.requestFraming r.responseFraming d'.frameIds q' g counter' → i = j := by
  obtain ⟨req, resp, hreq, hresp, hrun⟩ := parseProtocolCopies_ok lim request response
  have hreq := frameStream_frames_before hreq
  have hresp := frameStream_frames_before hresp
  have hids := reconstruct_frameIds lim req resp (.new lim.maxSemanticFields)
  obtain ⟨hinc, hdisjoint⟩ := parseDocuments_frameIds_disjoint lim.maxDocuments
    (.new lim.maxSemanticFields) hreq
  refine ⟨_, hrun, ?_, ?_⟩
  · intro d hd counter hcounter
    rw [parseFramedCopies_documents] at hd
    obtain ⟨hkind, hcomplete, g, hlast, hsource⟩ := reconstruct_counter lim req resp _ hd hcounter
    have hmem := List.mem_map_of_mem (f := ParsedReceipt.frameIds) hd
    rw [hids] at hmem
    obtain ⟨d₀, hd₀, hids₀⟩ := List.mem_map.mp hmem
    have hexp : ∀ f ∈ req.frames, f.frameId ∈ d.frameIds → f.expectedRequest = true := by
      intro f hf hown
      rw [← hids₀] at hown
      obtain ⟨f', hf', hexp', hid⟩ := parseDocuments_frameIds lim.maxDocuments _ _ d₀ hd₀ _ hown
      rwa [frames_unique hreq hf' hf hid] at hexp'
    obtain ⟨q, hanswers, hlater⟩ := counterFold_answers lim.framer.maxIssues hreq hresp
      (hids₀ ▸ hinc d₀ hd₀) hexp hlast
    exact ⟨hkind, hcomplete, q, g, hanswers, hsource, hlater⟩
  · intro i j d d' hd hd' q q' g counter counter' h h'
    obtain rfl := h.unique hresp h'
    rw [parseFramedCopies_documents] at hd hd'
    rw [← hids] at hdisjoint
    exact eq_of_shared hdisjoint ((List.getElem?_map ..).trans (congrArg (Option.map _) hd))
      ((List.getElem?_map ..).trans (congrArg (Option.map _) hd')) h.owned.2 h'.owned.2

end RchProxy
