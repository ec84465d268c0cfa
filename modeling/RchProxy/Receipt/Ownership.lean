import RchProxy.Framing.Resync
import RchProxy.Receipt.Records

/-!
# The frames of a document

A request frame is attached to a document in nine branches, when a document opens, and, for a
remembered `<</?s`, by the `=K` that comes later. `Shape.Owned` relates the frames the finished
documents hold, those of the active one and the remembered one: each list increases, no two share a
frame, and the remembered frame is in none. Every command keeps it, so no frame ends up in two
documents (`parseDocuments_ownership`).
-/

namespace RchProxy

open Py

/-- The frame ids that documents hold: the finished ones, then the active one. -/
def Shape.holdings (s : Shape) : List (List Nat) :=
  s.spans.map (·.frameIds) ++ s.active.toList.map fun e => e.frames.map (·.frameId)

/-- What is known of the ids that are held, with the frames still to come. -/
structure Shape.Owned (s : Shape) (rest : List RCHFrame) : Prop where
  increasing : ∀ l ∈ s.holdings, l.Pairwise (· < ·)
  disjoint : s.holdings.Pairwise fun l l' => ∀ n ∈ l, n ∉ l'
  before : ∀ l ∈ s.holdings, ∀ n ∈ l, ∀ g ∈ rest, n < g.frameId
  pendingFree : ∀ p ∈ s.pending, ∀ l ∈ s.holdings, p.frameId ∉ l
  pendingBefore : ∀ p ∈ s.pending, ∀ g ∈ rest, p.frameId < g.frameId

/-- The ids of a document after one more frame. -/
theorem Extent.ids_addFrame (e : Extent) (frame : RCHFrame) :
    (e.addFrame frame).frames.map (·.frameId) = e.frames.map (·.frameId) ∨
      (e.addFrame frame).frames.map (·.frameId) = e.frames.map (·.frameId) ++ [frame.frameId] := by
  unfold Extent.addFrame
  split
  · exact .inl rfl
  · exact .inr (by simp [Extent.frames])

/-- A list that increases up to a bound increases with the bound behind it. -/
theorem pairwise_concat {l : List Nat} {n : Nat} (hl : l.Pairwise (· < ·)) (hn : ∀ m ∈ l, m < n) :
    (l ++ [n]).Pairwise (· < ·) := by
  rw [List.pairwise_append]
  refine ⟨hl, List.pairwise_singleton _ _, fun m hm k hk => ?_⟩
  rw [List.mem_singleton.mp hk]
  exact hn m hm

namespace Shape.Owned

variable (maxDocuments : Nat) {s : Shape} {frame : RCHFrame} {rest : List RCHFrame}

theorem initial (frames : List RCHFrame) : Owned {} frames :=
  ⟨nofun, .nil, nofun, nofun, nofun⟩

/-- Documents that go leave the others as they are. -/
theorem sublist (h : s.Owned rest) {s' : Shape} (hs : s'.holdings.Sublist s.holdings)
    (hp : s'.pending = s.pending) : s'.Owned rest where
  increasing l hl := h.increasing l (hs.subset hl)
  disjoint := h.disjoint.sublist hs
  before l hl := h.before l (hs.subset hl)
  pendingFree := by
    rw [hp]
    exact fun p hm l hl => h.pendingFree p hm l (hs.subset hl)
  pendingBefore := by
    rw [hp]
    exact h.pendingBefore

theorem skip (h : s.Owned (frame :: rest)) : s.Owned rest where
  increasing := h.increasing
  disjoint := h.disjoint
  before l hl n hn g hg := h.before l hl n hn g (List.mem_cons_of_mem _ hg)
  pendingFree := h.pendingFree
  pendingBefore p hp g hg := h.pendingBefore p hp g (List.mem_cons_of_mem _ hg)

theorem close (h : s.Owned rest) (complete : Bool) :
    (s.close maxDocuments complete).Owned rest := by
  refine h.sublist ?_ (Tracks.close_pending maxDocuments s complete)
  unfold Shape.close
  cases ha : s.active with
  | none => exact List.Sublist.refl _
  | some e =>
    have hspan : s.holdings = s.spans.map (·.frameIds) ++ [e.frames.map (·.frameId)] := by
      rw [holdings, ha]
      rfl
    rw [hspan, holdings]
    simp only [Option.toList_none, List.map_nil, List.append_nil]
    split
    · rw [List.map_append]
      exact List.Sublist.refl _
    · exact List.sublist_append_left _ _

/-- The active document takes a frame that stands behind all that is held. -/
theorem take (h : s.Owned (frame :: rest)) (hb : ∀ g ∈ rest, frame.frameId < g.frameId) :
    (s.take frame).Owned rest := by
  cases ha : s.active with
  | none =>
    have hs : s.take frame = s := by rw [Shape.take, ha, Option.map_none, ← ha]
    rw [hs]
    exact h.skip
  | some e =>
    have hold : s.holdings = s.spans.map (·.frameIds) ++ [e.frames.map (·.frameId)] := by
      rw [holdings, ha]
      rfl
    have hnew : (s.take frame).holdings =
        s.spans.map (·.frameIds) ++ [(e.addFrame frame).frames.map (·.frameId)] := by
      rw [holdings, Shape.take, ha]
      rfl
    rcases e.ids_addFrame frame with hids | hids
    · rw [hids, ← hold] at hnew
      exact h.skip.sublist (hnew ▸ List.Sublist.refl _) rfl
    rw [hids] at hnew
    -- the ids that are held stand before the new one
    have hlt : ∀ l ∈ s.holdings, ∀ n ∈ l, n < frame.frameId :=
      fun l hl n hn => h.before l hl n hn frame (by simp)
    have hspans : ∀ l ∈ s.spans.map (·.frameIds), l ∈ s.holdings := by
      rw [hold]
      exact fun l hl => List.mem_append_left _ hl
    have hlast : e.frames.map (·.frameId) ∈ s.holdings := by rw [hold]; simp
    have hcases : ∀ l ∈ (s.take frame).holdings, l ∈ s.spans.map (·.frameIds) ∨
        l = e.frames.map (·.frameId) ++ [frame.frameId] := by
      rw [hnew]
      intro l hl
      simpa using hl
    refine ⟨?_, ?_, ?_, ?_, h.skip.pendingBefore⟩
    · intro l hl
      rcases hcases l hl with hl | rfl
      · exact h.increasing l (hspans l hl)
      · exact pairwise_concat (h.increasing _ hlast) (hlt _ hlast)
    · rw [hnew, List.pairwise_append]
      have hd := h.disjoint
      rw [hold, List.pairwise_append] at hd
      refine ⟨hd.1, List.pairwise_singleton _ _, fun l hl l' hl' n hn hn' => ?_⟩
      rw [List.mem_singleton.mp hl', List.mem_append, List.mem_singleton] at hn'
      rcases hn' with hn' | rfl
      · exact hd.2.2 l hl _ (by simp) n hn hn'
      · exact Nat.lt_irrefl _ (hlt l (hspans l hl) _ hn)
    · intro l hl n hn g hg
      rcases hcases l hl with hl | rfl
      · exact h.skip.before l (hspans l hl) n hn g hg
      · rcases List.mem_append.mp hn with hn | hn
        · exact h.skip.before _ hlast n hn g hg
        · rw [List.mem_singleton.mp hn]
          exact hb g hg
    · intro p hp l hl
      rcases hcases l hl with hl | rfl
      · exact h.pendingFree p hp l (hspans l hl)
      · rw [List.mem_append, List.mem_singleton, not_or]
        exact ⟨h.pendingFree p hp _ hlast,
          Nat.ne_of_lt (h.pendingBefore p hp frame (by simp))⟩

/-- A document opens with ids that no other document holds. -/
theorem opened (h : s.Owned (frame :: rest)) (ha : s.active = none) {e : Extent} {l : List Nat}
    (hl : e.frames.map (·.frameId) = l) (hinc : l.Pairwise (· < ·))
    (hfree : ∀ l' ∈ s.holdings, ∀ n ∈ l', n ∉ l)
    (hbefore : ∀ n ∈ l, ∀ g ∈ rest, n < g.frameId) {pending : Option RCHFrame}
    (hpending : ∀ p ∈ pending, s.pending = some p ∧ p.frameId ∉ l) :
    Owned { s with active := some e, pending := pending } rest := by
  have hold : s.holdings = s.spans.map (·.frameIds) := by
    rw [holdings, ha]
    simp
  have hnew : Shape.holdings { s with active := some e, pending := pending } = s.holdings ++ [l] := by
    rw [hold, holdings, ← hl]
    rfl
  have hcases : ∀ l' ∈ s.holdings ++ [l], l' ∈ s.holdings ∨ l' = l := by
    intro l' hl'
    simpa using hl'
  refine ⟨?_, ?_, ?_, ?_, ?_⟩
  · rw [hnew]
    intro l' hl'
    rcases hcases l' hl' with hl' | rfl
    · exact h.increasing l' hl'
    · exact hinc
  · rw [hnew, List.pairwise_append]
    refine ⟨h.disjoint, List.pairwise_singleton _ _, fun l' hl' l'' hl'' => ?_⟩
    rw [List.mem_singleton.mp hl'']
    exact hfree l' hl'
  · rw [hnew]
    intro l' hl'
    rcases hcases l' hl' with hl' | rfl
    · exact h.skip.before l' hl'
    · exact hbefore
  · rw [hnew]
    intro p hp l' hl'
    obtain ⟨hp, hpl⟩ := hpending p hp
    rcases hcases l' hl' with hl' | rfl
    · exact h.pendingFree p hp l' hl'
    · exact hpl
  · intro p hp
    exact h.skip.pendingBefore p (hpending p hp).1

/-- A document opens at the frame that is read. -/
theorem openAt (h : s.Owned (frame :: rest)) (hb : ∀ g ∈ rest, frame.frameId < g.frameId)
    (ha : s.active = none) (kind : DocKind) {pending : Option RCHFrame}
    (hp : pending = s.pending ∨ pending = none) :
    Owned { s with active := some ⟨kind, frame, []⟩, pending := pending } rest := by
  refine h.opened ha (l := [frame.frameId]) rfl (List.pairwise_singleton _ _) ?_ ?_ ?_
  · intro l hl n hn hn'
    rw [List.mem_singleton.mp hn'] at hn
    exact Nat.lt_irrefl _ (h.before l hl _ hn frame (by simp))
  · intro n hn
    rw [List.mem_singleton.mp hn]
    exact hb
  · intro p hm
    rcases hp with rfl | rfl
    · rw [List.mem_singleton]
      exact ⟨hm, Nat.ne_of_lt (h.pendingBefore p hm frame (by simp))⟩
    · cases hm

/-- A commercial document opens, at the remembered frame if there is one. -/
theorem start (h : s.Owned (frame :: rest)) (hb : ∀ g ∈ rest, frame.frameId < g.frameId)
    (ha : s.active = none) :
    Owned { s with
      active := some ((⟨.commerciale, s.pending.getD frame, []⟩ : Extent).addFrame frame)
      pending := none } rest := by
  cases hp : s.pending with
  | none =>
    rw [Option.getD_none, Extent.addFrame_self]
    exact h.openAt hb ha .commerciale (.inr rfl)
  | some p =>
    have hlt : p.frameId < frame.frameId := h.pendingBefore p hp frame (by simp)
    refine h.opened ha (l := [p.frameId, frame.frameId]) ?_ (by simpa using hlt) ?_ ?_ nofun
    · have hne : ¬ (⟨.commerciale, p, []⟩ : Extent).lastFrame.frameId = frame.frameId :=
        Nat.ne_of_lt hlt
      rw [Option.getD_some, Extent.addFrame, if_neg hne]
      rfl
    · intro l hl n hn hn'
      rcases List.mem_cons.mp hn' with rfl | hn'
      · exact h.pendingFree p hp l hl hn
      · rw [List.mem_singleton.mp hn'] at hn
        exact Nat.lt_irrefl _ (h.before l hl _ hn frame (by simp))
    · intro n hn g hg
      rcases List.mem_cons.mp hn with rfl | hn
      · exact h.skip.pendingBefore p hp g hg
      · rw [List.mem_singleton.mp hn]
        exact hb g hg

theorem into (h : s.Owned (frame :: rest)) (hb : ∀ g ∈ rest, frame.frameId < g.frameId)
    (kind : DocKind) : (s.into maxDocuments frame kind).Owned rest := by
  rw [Shape.into]
  split
  · exact h.take hb
  · exact (h.close maxDocuments false).openAt hb (Tracks.close_active _ _ _) kind (.inl rfl)

/-- One command. -/
theorem step (h : s.Owned (frame :: rest)) (hb : ∀ g ∈ rest, frame.frameId < g.frameId)
    (c : Command) : (s.step maxDocuments frame c).Owned rest := by
  have forget : ∀ {s : Shape}, s.Owned rest → Owned { s with pending := none } rest :=
    fun h => ⟨h.increasing, h.disjoint, h.before, nofun, nofun⟩
  cases c with
  | control dataText =>
    rw [Shape.step]
    split
    · split
      · exact (h.take hb).close maxDocuments true
      · exact h.take hb
    · split
      · -- the frame is remembered: it stands behind all that is held
        refine ⟨h.increasing, h.disjoint, h.skip.before, ?_, ?_⟩
        · rintro p hp l hl hm
          cases hp
          exact Nat.lt_irrefl _ (h.before l hl _ hm frame (by simp))
        · rintro p hp
          cases hp
          exact hb
      · exact forget h.skip
  | start => exact (h.close maxDocuments false).start hb (Tracks.close_active _ _ _)
  | boundary =>
    rw [Shape.step]
    split
    · exact forget ((h.take hb).close maxDocuments true)
    · exact (h.close maxDocuments false).openAt hb (Tracks.close_active _ _ _) .gestionale (.inr rfl)
  | line c => exact h.into maxDocuments hb .gestionale
  | item c => exact h.into maxDocuments hb .commerciale
  | total c => exact h.into maxDocuments hb .commerciale
  | text c => exact h.take hb
  | display => exact h.skip
  | unknown => exact h.take hb

/-- Frames in order, one after the other. -/
theorem run {frames : List RCHFrame} (hf : frames.Pairwise RCHFrame.Before) (h : s.Owned frames) :
    (frames.foldl (Shape.read maxDocuments) s).Owned [] := by
  induction frames generalizing s with
  | nil => exact h
  | cons f fs ih =>
    obtain ⟨hb, hfs⟩ := List.pairwise_cons.mp hf
    refine ih hfs ?_
    rw [Shape.read]
    split
    · exact h.step maxDocuments (fun g hg => (hb g hg).frameId) _
    · exact h.skip

end Shape.Owned

/-- The frames of a framing result come in order, with increasing ids. -/
theorem frameChunks_frames_before {lim : FramerLimits} {retain : Bool} {chunks : List Bytes}
    {r : FramingResult} (h : frameChunks lim retain chunks = .ok r) :
    r.frames.Pairwise RCHFrame.Before := by
  obtain ⟨f, hf, hreach⟩ := Framer.feedAll_reached lim retain chunks
  rw [frameChunks, hf] at h
  obtain rfl : (f.finish lim).1 = r := Except.ok.inj h
  cases retain with
  | true =>
    rw [hreach.finish, FramingResult.frames, resultOf_events]
    exact (eventsOf_frames_before 0 0 0 _).sublist ((List.take_sublist _ _).filterMap _)
  | false =>
    have hnone : f.events = [] := by rw [← hreach.forgot rfl]; rfl
    rw [FramingResult.frames, hreach.finish_events, hnone]
    exact .nil

/-- The frame ids of each document increase, and no two documents share one. -/
theorem parseDocuments_frameIds_disjoint (maxDocuments : Nat) (budget : SemanticBudget)
    {frames : List RCHFrame} (hbefore : frames.Pairwise RCHFrame.Before) :
    (∀ d ∈ ((parseDocuments maxDocuments frames).run budget).1.1, d.frameIds.Pairwise (· < ·)) ∧
      (((parseDocuments maxDocuments frames).run budget).1.1.map (·.frameIds)).Pairwise
        fun l l' => ∀ n ∈ l, n ∉ l' := by
  have howned := ((Shape.Owned.initial frames).run maxDocuments hbefore).close maxDocuments false
  have hspans := parseDocuments_spans maxDocuments budget frames
  have hids : ((parseDocuments maxDocuments frames).run budget).1.1.map (·.frameIds) =
      (((frames.foldl (Shape.read maxDocuments) {}).close maxDocuments false).holdings) := by
    rw [Shape.holdings, Tracks.close_active, ← hspans]
    simp [ParsedReceipt.span]
  have hinc := howned.increasing
  have hdis := howned.disjoint
  rw [← hids] at hinc hdis
  exact ⟨fun d hd => hinc _ (List.mem_map_of_mem hd), hdis⟩

/-- **Frame ownership.** Of whatever framing of the request: the frame ids of each document
increase, each of them is that of a frame with a valid BCC, address `00` and class `z`, and no two
documents share one. -/
theorem parseDocuments_ownership (lim : FramerLimits) (retain : Bool) (chunks : List Bytes)
    (maxDocuments : Nat) (budget : SemanticBudget) :
    ∃ r, frameChunks lim retain chunks = .ok r ∧
      (∀ d ∈ ((parseDocuments maxDocuments r.frames).run budget).1.1,
        d.frameIds.Pairwise (· < ·) ∧
        (∀ n ∈ d.frameIds, ∃ f ∈ r.frames, f.frameId = n) ∧
        ∀ f ∈ r.frames, f.frameId ∈ d.frameIds →
          f.bccValid = true ∧ f.address = "00".toList ∧ f.frameClass = 'z') ∧
      ((parseDocuments maxDocuments r.frames).run budget).1.1.Pairwise
        fun d d' => ∀ n ∈ d.frameIds, n ∉ d'.frameIds := by
  obtain ⟨f, hf, -⟩ := Framer.feedAll_reached lim retain chunks
  have hrun : frameChunks lim retain chunks = .ok (f.finish lim).1 := by rw [frameChunks, hf]; rfl
  have hbefore := frameChunks_frames_before hrun
  refine ⟨_, hrun, ?_⟩
  generalize (f.finish lim).1.frames = frames at hbefore
  obtain ⟨hinc, hdis⟩ := parseDocuments_frameIds_disjoint maxDocuments budget hbefore
  refine ⟨fun d hd => ⟨hinc d hd, ?_, ?_⟩, List.pairwise_map.mp hdis⟩
  · intro n hn
    obtain ⟨g, hg, -, hid⟩ := parseDocuments_frameIds maxDocuments budget frames d hd n hn
    exact ⟨g, hg, hid⟩
  · intro g hg hn
    obtain ⟨g', hg', he, hid⟩ := parseDocuments_frameIds maxDocuments budget frames d hd _ hn
    obtain rfl := frames_unique hbefore hg' hg hid
    simp only [RCHFrame.expectedRequest, Bool.and_eq_true, beq_iff_eq] at he
    exact ⟨he.1.1, he.1.2, he.2⟩

end RchProxy
