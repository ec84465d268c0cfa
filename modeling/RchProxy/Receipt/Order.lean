import Mathlib.Data.List.Nodup
import RchProxy.Framing.Tiling
import RchProxy.Receipt.Shape

/-!
# The order of the documents in the stream

A document starts at a `=K` frame or at the `<</?s` frame remembered before it. The remembered frame
is not forgotten when a line, an item or a total opens a document without an opener, so a later
`=K` may start at a frame older than the frames of the documents in between (`Watch.stale`).
`Watch` reads the commands only; the documents are in order exactly when it sees no stale start
(`parseDocuments_ordered_iff`). The invariant `Tracks` relates it to the frames that documents hold.
-/

namespace RchProxy

open Py Lib

/-- The first frame ends before the second one starts. -/
structure RCHFrame.Before (f g : RCHFrame) : Prop where
  frameId : f.frameId < g.frameId
  offset : f.endOffset ≤ g.streamOffset

/-! ## The frames of a stream are in order -/

theorem frameId_of_eventsOf {ec fc o : Nat} {ts : List Token} {f : RCHFrame}
    (h : f ∈ framesIn (eventsOf ec fc o ts)) : fc < f.frameId ∧ o ≤ f.streamOffset := by
  induction ts generalizing ec fc o with
  | nil => cases h
  | cons t ts ih =>
    cases t with
    | ack =>
      have := ih (by simpa [eventsOf] using h)
      omega
    | skip code raw detail =>
      have := @ih ec _ _ (by simpa [eventsOf] using h)
      omega
    | frame raw =>
      simp only [eventsOf, framesIn_frame, List.mem_cons] at h
      rcases h with rfl | h
      · simp [RCHFrame.ofRaw]
      · have := ih h
        omega

theorem eventsOf_frames_before (ec fc o : Nat) (ts : List Token) :
    (framesIn (eventsOf ec fc o ts)).Pairwise RCHFrame.Before := by
  induction ts generalizing ec fc o with
  | nil => exact .nil
  | cons t ts ih =>
    cases t with
    | ack => simpa [eventsOf] using ih _ _ _
    | skip code raw detail => simpa [eventsOf] using ih _ _ _
    | frame raw =>
      simp only [eventsOf, framesIn_frame, List.pairwise_cons]
      refine ⟨fun g hg => ?_, ih _ _ _⟩
      obtain ⟨h1, h2⟩ := frameId_of_eventsOf hg
      exact ⟨h1, h2⟩

/-- The frames of a stream come in order, with increasing ids. -/
theorem frameStream_frames_before {lim : FramerLimits} {p : Bytes} {r : FramingResult}
    (h : frameStream lim p = .ok r) : r.frames.Pairwise RCHFrame.Before := by
  obtain ⟨ss, -, hrun⟩ := frameChunks_eq lim [p]
  rw [frameStream, hrun] at h
  cases h
  rw [FramingResult.frames, resultOf_events]
  exact (eventsOf_frames_before 0 0 0 _).sublist ((List.take_sublist _ _).filterMap _)

/-- In a list of frames in order, a frame is known by its id. -/
theorem frames_unique {frames : List RCHFrame} (h : frames.Pairwise RCHFrame.Before)
    {f g : RCHFrame} (hf : f ∈ frames) (hg : g ∈ frames) (hid : f.frameId = g.frameId) :
    f = g := by
  have hnodup : (frames.map (·.frameId)).Nodup := by
    rw [List.Nodup, List.pairwise_map]
    exact h.imp fun hb => Nat.ne_of_lt hb.frameId
  exact List.inj_on_of_nodup_map hnodup hf hg hid

/-- A frame of a stream is known by its id. -/
theorem frameStream_frames_unique {lim : FramerLimits} {p : Bytes} {r : FramingResult}
    (h : frameStream lim p = .ok r) {f g : RCHFrame} (hf : f ∈ r.frames) (hg : g ∈ r.frames)
    (hid : f.frameId = g.frameId) : f = g :=
  frames_unique (frameStream_frames_before h) hf hg hid

/-! ## Stretches -/

/-- The part of the stream a document says it occupies. -/
structure Stretch where
  frameIds : List Nat
  startOffset : Nat
  endOffset : Nat
  deriving DecidableEq, Repr

/-- Every frame of the first stretch stands before the second one. -/
def Stretch.Before (d d' : Stretch) : Prop :=
  (∀ m ∈ d.frameIds, ∀ n ∈ d'.frameIds, m < n) ∧ d.endOffset ≤ d'.startOffset

instance (d d' : Stretch) : Decidable (d.Before d') :=
  inferInstanceAs (Decidable (_ ∧ _))

/-- The stretch ends before the frame starts. -/
def Stretch.BeforeFrame (d : Stretch) (f : RCHFrame) : Prop :=
  (∀ m ∈ d.frameIds, m < f.frameId) ∧ d.endOffset ≤ f.streamOffset

/-- The stretch of a document. -/
def ParsedReceipt.stretch (d : ParsedReceipt) : Stretch := ⟨d.frameIds, d.startOffset, d.endOffset⟩

/-- The stretch of a finished document. -/
def Span.stretch (s : Span) : Stretch := ⟨s.frameIds, s.startOffset, s.endOffset⟩

/-- The stretch of a document that is being assembled. -/
def Extent.stretch (e : Extent) : Stretch :=
  ⟨e.frames.map (·.frameId), e.startFrame.streamOffset, e.lastFrame.endOffset⟩

namespace Extent

variable {e : Extent} {d : Stretch} {f frame : RCHFrame}

/-- A document of one frame. -/
theorem before_single {kind : DocKind} (h : d.BeforeFrame frame) :
    d.Before (stretch ⟨kind, frame, []⟩) := by
  refine ⟨fun m hm n hn => ?_, h.2⟩
  obtain rfl : n = frame.frameId := by simpa [stretch, frames] using hn
  exact h.1 m hm

theorem single_beforeFrame {kind : DocKind} {g : RCHFrame} (h : frame.Before g) :
    (stretch ⟨kind, frame, []⟩).BeforeFrame g :=
  ⟨by simpa [stretch, frames] using h.frameId, h.offset⟩

/-- Adding a frame behind a stretch changes nothing for it. -/
theorem before_addFrame (h : d.BeforeFrame frame) :
    d.Before (e.addFrame frame).stretch ↔ d.Before e.stretch := by
  unfold addFrame
  split
  · rfl
  · simp only [Stretch.Before, stretch, frames, List.map_cons, List.map_append, List.mem_cons,
      List.mem_append, List.map_nil]
    constructor
    · rintro ⟨h1, h2⟩
      exact ⟨fun m hm n hn => h1 m hm n (hn.imp id .inl), h2⟩
    · rintro ⟨h1, h2⟩
      refine ⟨fun m hm n hn => ?_, h2⟩
      rcases hn with rfl | hn | hn
      · exact h1 m hm _ (.inl rfl)
      · exact h1 m hm n (.inr hn)
      · obtain rfl : n = frame.frameId := by simpa using hn
        exact h.1 m hm

/-- A document that takes a frame still ends before what comes after the frame. -/
theorem addFrame_beforeFrame {g : RCHFrame} (h : e.stretch.BeforeFrame g) (hf : frame.Before g) :
    (e.addFrame frame).stretch.BeforeFrame g := by
  unfold addFrame
  split
  · exact h
  · refine ⟨?_, by simpa [stretch, lastFrame] using hf.offset⟩
    intro m hm
    simp only [stretch, frames, List.map_cons, List.map_append, List.mem_cons, List.mem_append,
      List.map_nil, List.not_mem_nil, or_false] at hm
    rcases hm with rfl | hm | rfl
    · exact h.1 _ (by simp [stretch, frames])
    · exact h.1 _ (by simp only [stretch, frames, List.map_cons, List.mem_cons]; exact .inr hm)
    · exact hf.frameId

/-- The id of a frame that was added. -/
theorem frameId_mem_addFrame : frame.frameId ∈ (e.addFrame frame).stretch.frameIds := by
  obtain ⟨f, hf, hid⟩ := e.addFrame_mem frame
  exact List.mem_map.mpr ⟨f, hf, hid⟩

end Extent

/-! ## Watching the commands -/

/-- What decides the order of the documents: the kind of the active one, whether a start is
remembered and whether a document has taken a frame since, how many documents have ended, and
whether a kept document was started at a remembered frame older than another document's frame. -/
structure Watch where
  phase : Option DocKind := none
  pending : Option Bool := none
  closed : Nat := 0
  stale : Bool := false
  deriving DecidableEq, Repr

namespace Watch

variable (maxDocuments : Nat) (w : Watch)

/-- The active document ends. -/
def close : Watch :=
  { w with closed := w.closed + (if w.phase.isSome then 1 else 0), phase := none }

/-- The active document takes a frame. -/
def take : Watch := { w with pending := if w.phase.isSome then w.pending.map fun _ => true else w.pending }

/-- A document starts at the frame that is read. -/
def openAt (kind : DocKind) : Watch :=
  { w with phase := some kind, pending := w.pending.map fun _ => true }

/-- A frame for a document of the given kind. -/
def into (kind : DocKind) : Watch :=
  if w.phase = some kind then w.take else w.close.openAt kind

/-- A document starts at the remembered frame, if there is one. -/
def start : Watch :=
  { w with
    phase := some .commerciale
    pending := none
    stale := w.stale || (w.pending == some true && decide (w.closed < maxDocuments)) }

/-- The step for a command. -/
def step : Command → Watch
  | .control dataText =>
    if w.phase = some .commerciale then
      if isClosingControl dataText then w.take.close else w.take
    else { w with pending := if dataText = "<</?s".toList then some false else none }
  | .start => w.close.start maxDocuments
  | .boundary =>
    if w.phase = some .gestionale then { w.take.close with pending := none }
    else { w.close.openAt .gestionale with pending := none }
  | .line _ => w.into .gestionale
  | .item _ => w.into .commerciale
  | .total _ => w.into .commerciale
  | .text _ => w.take
  | .display => w
  | .unknown => w.take

/-- The step for a frame. -/
def read (frame : RCHFrame) : Watch :=
  if frame.expectedRequest then w.step maxDocuments (command frame.dataText) else w

end Watch

/-- Some `=K` starts a document that is kept at a remembered `<</?s` frame after which a document
has already taken a frame. -/
def usesStaleStart (maxDocuments : Nat) (frames : List RCHFrame) : Bool :=
  (frames.foldl (Watch.read maxDocuments) {}).stale

/-! ## What the watch knows -/

/-- The documents that are kept so far, the active one included. -/
def Shape.kept (maxDocuments : Nat) (s : Shape) : List Stretch :=
  s.spans.map Span.stretch ++
    (if s.spans.length < maxDocuments then s.active.toList.map Extent.stretch else [])

/-- The watch and the frames that documents hold, with the frames still to come. -/
structure Tracks (maxDocuments : Nat) (w : Watch) (s : Shape) (rest : List RCHFrame) : Prop where
  phase : s.active.map (·.kind) = w.phase
  count : s.spans.length = min w.closed maxDocuments
  omitted : s.omitted = decide (maxDocuments < w.closed)
  forgot : w.pending = none → s.pending = none
  fresh : w.pending = some false →
    ∃ p, s.pending = some p ∧ ∀ d ∈ s.kept maxDocuments, d.BeforeFrame p
  taken : w.pending = some true → ∃ p, s.pending = some p ∧
    (w.closed < maxDocuments → ∃ d ∈ s.kept maxDocuments, ∃ n ∈ d.frameIds, p.frameId < n)
  keptBefore : ∀ g ∈ rest, ∀ d ∈ s.kept maxDocuments, d.BeforeFrame g
  pendingBefore : ∀ g ∈ rest, ∀ p ∈ s.pending, p.Before g
  ordered : (s.kept maxDocuments).Pairwise Stretch.Before ↔ w.stale = false

namespace Tracks

variable {maxDocuments : Nat} {w : Watch} {s : Shape} {frame : RCHFrame} {rest : List RCHFrame}

theorem isSome_phase (h : Tracks maxDocuments w s rest) : w.phase.isSome = s.active.isSome := by
  rw [← h.phase, Option.isSome_map]

theorem pending_some (h : Tracks maxDocuments w s rest) (hw : w.pending ≠ none) :
    ∃ p, s.pending = some p := by
  rcases hp : w.pending with _ | _ | _
  · exact absurd hp hw
  · exact (h.fresh hp).imp fun _ => And.left
  · exact (h.taken hp).imp fun _ => And.left

/-- A document past the limit is not kept. -/
theorem kept_lt (h : Tracks maxDocuments w s rest) :
    s.spans.length < maxDocuments ↔ w.closed < maxDocuments := by
  rw [h.count]; omega

/-- Ending a document keeps what is kept. -/
theorem kept_close (maxDocuments : Nat) (s : Shape) (complete : Bool) :
    (s.close maxDocuments complete).kept maxDocuments = s.kept maxDocuments := by
  unfold Shape.close
  cases ha : s.active with
  | none => rfl
  | some e =>
    by_cases hlt : s.spans.length < maxDocuments
    · simp [Shape.kept, ha, hlt, Span.stretch, Extent.span, Extent.stretch]
    · simp [Shape.kept, hlt]

theorem close_pending (maxDocuments : Nat) (s : Shape) (complete : Bool) :
    (s.close maxDocuments complete).pending = s.pending := by
  unfold Shape.close; split <;> rfl

theorem close_active (maxDocuments : Nat) (s : Shape) (complete : Bool) :
    (s.close maxDocuments complete).active = none := by
  unfold Shape.close; split <;> simp_all

theorem close (h : Tracks maxDocuments w s rest) (complete : Bool) :
    Tracks maxDocuments w.close (s.close maxDocuments complete) rest := by
  have hkept := kept_close maxDocuments s complete
  have hpend := close_pending maxDocuments s complete
  have hle : w.closed ≤ w.close.closed := Nat.le_add_right _ _
  refine ⟨by rw [close_active]; rfl, ?_, ?_, by rw [hpend]; exact h.forgot,
    by rw [hkept, hpend]; exact h.fresh, ?_, by rw [hkept]; exact h.keptBefore,
    by rw [hpend]; exact h.pendingBefore, by rw [hkept]; exact h.ordered⟩
  · have hcount := h.count
    simp only [Watch.close, h.isSome_phase]
    unfold Shape.close
    cases ha : s.active with
    | none => simpa using hcount
    | some e =>
      by_cases hlt : s.spans.length < maxDocuments
      · simp [hlt]; omega
      · simp [hlt]; omega
  · have hcount := h.count
    simp only [Watch.close, h.isSome_phase]
    unfold Shape.close
    cases ha : s.active with
    | none => simpa using h.omitted
    | some e =>
      rw [Bool.eq_iff_iff]
      simp [h.omitted]
      omega
  · intro hp
    obtain ⟨p, hp, hd⟩ := h.taken hp
    rw [hkept, hpend]
    exact ⟨p, hp, fun hlt => hd (by omega)⟩

theorem skip (h : Tracks maxDocuments w s (frame :: rest)) : Tracks maxDocuments w s rest :=
  { h with
    keptBefore := fun g hg => h.keptBefore g (List.mem_cons_of_mem _ hg)
    pendingBefore := fun g hg => h.pendingBefore g (List.mem_cons_of_mem _ hg) }

theorem forget (h : Tracks maxDocuments w s rest) :
    Tracks maxDocuments { w with pending := none } { s with pending := none } rest :=
  { h with
    forgot := fun _ => rfl
    fresh := nofun
    taken := nofun
    pendingBefore := nofun }

theorem remember (h : Tracks maxDocuments w s (frame :: rest))
    (hb : ∀ g ∈ rest, frame.Before g) :
    Tracks maxDocuments { w with pending := some false } { s with pending := some frame } rest := by
  refine ⟨h.phase, h.count, h.omitted, nofun, fun _ => ⟨frame, rfl, h.keptBefore frame (by simp)⟩, nofun,
    h.skip.keptBefore, ?_, h.ordered⟩
  intro g hg p hp
  cases hp
  exact hb g hg

/-- What is kept after a document starts. -/
theorem kept_open (maxDocuments : Nat) {s : Shape} (ha : s.active = none) (e : Extent)
    (pending : Option RCHFrame) :
    Shape.kept maxDocuments { s with active := some e, pending := pending } =
      s.kept maxDocuments ++ if s.spans.length < maxDocuments then [e.stretch] else [] := by
  simp [Shape.kept, ha]

/-- What is kept after the active document takes a frame. -/
theorem kept_take (maxDocuments : Nat) {s : Shape} {e : Extent} (ha : s.active = some e)
    (frame : RCHFrame) :
    (s.kept maxDocuments = s.spans.map Span.stretch ++
        if s.spans.length < maxDocuments then [e.stretch] else []) ∧
    ((s.take frame).kept maxDocuments = s.spans.map Span.stretch ++
        if s.spans.length < maxDocuments then [(e.addFrame frame).stretch] else []) := by
  simp [Shape.kept, Shape.take, ha]

theorem take (h : Tracks maxDocuments w s (frame :: rest)) (hb : ∀ g ∈ rest, frame.Before g) :
    Tracks maxDocuments w.take (s.take frame) rest := by
  cases ha : s.active with
  | none =>
    have hw : w.take = w := by simp [Watch.take, h.isSome_phase, ha]
    have hs : s.take frame = s := by rw [Shape.take, ha, Option.map_none, ← ha]
    rw [hw, hs]
    exact h.skip
  | some e =>
    obtain ⟨hk, hk'⟩ := kept_take maxDocuments ha frame
    have hwt : w.take.pending = w.pending.map fun _ => true := by
      simp [Watch.take, h.isSome_phase, ha]
    have hnow := h.keptBefore frame (by simp)
    refine ⟨?_, h.count, h.omitted, ?_, ?_, ?_, ?_, h.skip.pendingBefore, ?_⟩
    · rw [Shape.take, ha, Option.map_some, Option.map_some, Extent.addFrame_kind]
      have hp := h.phase
      rwa [ha] at hp
    · rw [hwt, Option.map_eq_none_iff]
      exact h.forgot
    · rw [hwt]
      cases w.pending <;> simp
    · rw [hwt]
      intro hp
      -- the frame is behind the remembered one, and the active document now holds it
      obtain ⟨p, hp⟩ := h.pending_some (by rintro hw; simp [hw] at hp)
      refine ⟨p, hp, fun hlt => ⟨(e.addFrame frame).stretch, ?_, _, e.frameId_mem_addFrame, ?_⟩⟩
      · rw [hk', if_pos (h.kept_lt.mpr hlt)]
        simp
      · exact (h.pendingBefore frame (by simp) p hp).frameId
    · intro g hg d hd
      have hold := h.keptBefore g (List.mem_cons_of_mem _ hg)
      rw [hk', List.mem_append] at hd
      rcases hd with hd | hd
      · exact hold d (by rw [hk]; simp [hd])
      · split at hd
        · next hlt =>
          rw [List.mem_singleton.mp hd]
          exact Extent.addFrame_beforeFrame (hold _ (by rw [hk, if_pos hlt]; simp)) (hb g hg)
        · cases hd
    · rw [Watch.take, ← h.ordered, hk, hk', List.pairwise_append, List.pairwise_append]
      split
      · simp only [List.pairwise_singleton, true_and, List.mem_singleton, forall_eq]
        refine and_congr_right fun _ => forall₂_congr fun d hd => ?_
        exact Extent.before_addFrame (hnow d (by rw [hk]; simp [hd]))
      · rfl

/-- One more document at the end. -/
theorem pairwise_open {l : List Stretch} {d : Stretch} {lt : Prop} [Decidable lt] :
    (l ++ if lt then [d] else []).Pairwise Stretch.Before ↔
      l.Pairwise Stretch.Before ∧ (lt → ∀ d' ∈ l, d'.Before d) := by
  rw [List.pairwise_append]
  split
  · next h => simp [h]
  · next h => simp [h]

/-- A document starts: what its first frame has to satisfy. -/
theorem openWith (h : Tracks maxDocuments w s (frame :: rest)) (ha : s.active = none) {e : Extent} {w' : Watch} {pending : Option RCHFrame}
    (hphase : some e.kind = w'.phase) (hclosed : w'.closed = w.closed)
    (hwp : w'.pending = none ∧ pending = none ∨
      w'.pending = (w.pending.map fun _ => true) ∧ pending = s.pending)
    (hid : frame.frameId ∈ e.stretch.frameIds) (hlast : ∀ g ∈ rest, e.stretch.BeforeFrame g)
    (hmono : w.stale = true → w'.stale = true)
    (hord : w.stale = false → ((w.closed < maxDocuments →
      ∀ d ∈ s.kept maxDocuments, d.Before e.stretch) ↔ w'.stale = false)) :
    Tracks maxDocuments w' { s with active := some e, pending := pending } rest := by
  have hkept := kept_open maxDocuments ha e pending
  have hlt := h.kept_lt
  refine ⟨hphase, by rw [hclosed]; exact h.count, by rw [hclosed]; exact h.omitted,
    ?_, ?_, ?_, ?_, ?_, ?_⟩
  · rcases hwp with ⟨-, hp⟩ | ⟨hw, hp⟩
    · exact fun _ => hp
    · rw [hw, Option.map_eq_none_iff, hp]
      exact h.forgot
  · rcases hwp with ⟨hw, -⟩ | ⟨hw, -⟩ <;> rw [hw]
    · nofun
    · cases w.pending <;> simp
  · rcases hwp with ⟨hw, -⟩ | ⟨hw, hp⟩ <;> rw [hw]
    · nofun
    · intro hwt
      obtain ⟨p, hs⟩ := h.pending_some (by rintro hn; simp [hn] at hwt)
      refine ⟨p, hp.trans hs, fun hc => ⟨e.stretch, ?_, _, hid, ?_⟩⟩
      · rw [hkept, if_pos (hlt.mpr (hclosed ▸ hc))]
        simp
      · exact (h.pendingBefore frame (by simp) p hs).frameId
  · intro g hg d hd
    rw [hkept, List.mem_append] at hd
    rcases hd with hd | hd
    · exact h.skip.keptBefore g hg d hd
    · split at hd
      · rw [List.mem_singleton.mp hd]
        exact hlast g hg
      · cases hd
  · rcases hwp with ⟨-, hp⟩ | ⟨-, hp⟩ <;> subst hp
    · nofun
    · exact h.skip.pendingBefore
  · rw [hkept, pairwise_open, h.ordered, hlt]
    cases hs : w.stale with
    | false => rw [hord hs]; simp
    | true => simp [hmono hs]

theorem openAt (h : Tracks maxDocuments w s (frame :: rest)) (ha : s.active = none)
    (hb : ∀ g ∈ rest, frame.Before g) (kind : DocKind) :
    Tracks maxDocuments (w.openAt kind) { s with active := some ⟨kind, frame, []⟩ } rest := by
  refine h.openWith ha rfl rfl (.inr ⟨rfl, rfl⟩) (by simp [Extent.stretch, Extent.frames])
    (fun g hg => Extent.single_beforeFrame (hb g hg)) id fun hs => ?_
  refine iff_of_true (fun _ d hd => ?_) hs
  exact Extent.before_single (h.keptBefore frame (by simp) d hd)

/-- A commercial document starts, at the remembered frame if there is one: it stands behind the
others unless one of them has taken a frame since. -/
theorem start (h : Tracks maxDocuments w s (frame :: rest)) (ha : s.active = none)
    (hb : ∀ g ∈ rest, frame.Before g) :
    Tracks maxDocuments (w.start maxDocuments)
      { s with
        active := some ((⟨.commerciale, s.pending.getD frame, []⟩ : Extent).addFrame frame)
        pending := none } rest := by
  have hnow := h.keptBefore frame (by simp)
  refine h.openWith ha (by simp [Watch.start]) rfl (.inl ⟨rfl, rfl⟩) Extent.frameId_mem_addFrame
    ?_ (by simp +contextual [Watch.start]) fun hs => ?_
  · intro g hg
    refine Extent.addFrame_beforeFrame (Extent.single_beforeFrame ?_) (hb g hg)
    cases hp : s.pending with
    | none => exact hb g hg
    | some p => exact h.skip.pendingBefore g hg p hp
  · have hcongr : ∀ d ∈ s.kept maxDocuments,
        (d.Before ((⟨.commerciale, s.pending.getD frame, []⟩ : Extent).addFrame frame).stretch ↔
          d.Before (Extent.stretch ⟨.commerciale, s.pending.getD frame, []⟩)) :=
      fun d hd => Extent.before_addFrame (hnow d hd)
    rw [forall₂_congr hcongr]
    rcases hw : w.pending with _ | _ | _
    · rw [h.forgot hw]
      exact iff_of_true (fun _ d hd => Extent.before_single (hnow d hd))
        (by simp [Watch.start, hw, hs])
    · obtain ⟨p, hp, hd⟩ := h.fresh hw
      rw [hp]
      exact iff_of_true (fun _ d hm => Extent.before_single (hd d hm))
        (by simp [Watch.start, hw, hs])
    · obtain ⟨p, hp, hd⟩ := h.taken hw
      by_cases hlt : w.closed < maxDocuments
      · -- the document that took a frame reaches behind the start of the new one
        obtain ⟨d, hm, n, hn, hpn⟩ := hd hlt
        refine iff_of_false (fun hall => ?_) (by simp [Watch.start, hw, hlt])
        have := (hall hlt d hm).1 n hn p.frameId (by simp [Extent.stretch, Extent.frames, hp])
        omega
      · exact iff_of_true (fun hc => absurd hc hlt) (by simp [Watch.start, hw, hlt, hs])

/-- A frame for a document of some kind. -/
theorem into (h : Tracks maxDocuments w s (frame :: rest)) (hb : ∀ g ∈ rest, frame.Before g)
    (kind : DocKind) : Tracks maxDocuments (w.into kind) (s.into maxDocuments frame kind) rest := by
  rw [Watch.into, Shape.into, h.phase]
  split
  · exact h.take hb
  · exact (h.close false).openAt (close_active _ _ _) hb kind

theorem step (h : Tracks maxDocuments w s (frame :: rest)) (hb : ∀ g ∈ rest, frame.Before g)
    (c : Command) : Tracks maxDocuments (w.step maxDocuments c) (s.step maxDocuments frame c) rest := by
  cases c with
  | control dataText =>
    rw [Watch.step, Shape.step, h.phase]
    split
    · split
      · exact (h.take hb).close true
      · exact h.take hb
    · split
      · exact h.remember hb
      · exact h.skip.forget
  | start => exact (h.close false).start (close_active _ _ _) hb
  | boundary =>
    rw [Watch.step, Shape.step, h.phase]
    split
    · exact ((h.take hb).close true).forget
    · exact ((h.close false).openAt (close_active _ _ _) hb .gestionale).forget
  | line c => exact h.into hb .gestionale
  | item c => exact h.into hb .commerciale
  | total c => exact h.into hb .commerciale
  | text c => exact h.take hb
  | display => exact h.skip
  | unknown => exact h.take hb

theorem run {frames : List RCHFrame} (hf : frames.Pairwise RCHFrame.Before)
    (h : Tracks maxDocuments w s frames) :
    Tracks maxDocuments (frames.foldl (Watch.read maxDocuments) w)
      (frames.foldl (Shape.read maxDocuments) s) [] := by
  induction frames generalizing w s with
  | nil => exact h
  | cons f fs ih =>
    obtain ⟨hb, hfs⟩ := List.pairwise_cons.mp hf
    refine ih hfs ?_
    rw [Watch.read, Shape.read]
    split
    · exact h.step hb _
    · exact h.skip

theorem initial (maxDocuments : Nat) (frames : List RCHFrame) : Tracks maxDocuments {} {} frames := by
  refine ⟨rfl, by simp, by simp, fun _ => rfl, nofun, nofun, ?_, nofun, ?_⟩ <;> simp [Shape.kept]

end Tracks

/-- The documents of a list of frames in order are in order exactly when no stale start is used. -/
theorem parseDocuments_pairwise (maxDocuments : Nat) (budget : SemanticBudget)
    {frames : List RCHFrame} (hf : frames.Pairwise RCHFrame.Before) :
    (((parseDocuments maxDocuments frames).run budget).1.1.map ParsedReceipt.stretch).Pairwise
        Stretch.Before ↔ usesStaleStart maxDocuments frames = false := by
  have hmap : ∀ ds : List ParsedReceipt,
      ds.map ParsedReceipt.stretch = (ds.map ParsedReceipt.span).map Span.stretch := by
    simp [ParsedReceipt.stretch, Span.stretch, ParsedReceipt.span]
  have h := (Tracks.initial maxDocuments frames).run hf
  have hkept : ∀ s : Shape, (s.close maxDocuments false).spans.map Span.stretch =
      s.kept maxDocuments := by
    intro s
    rw [← Tracks.kept_close maxDocuments s false, Shape.kept, Tracks.close_active]
    simp
  rw [hmap, parseDocuments_spans, hkept]
  exact h.ordered

/-- **The documents of a stream are disjoint and in order** exactly when no `=K` starts a document
at a remembered frame that another document has passed. -/
theorem parseDocuments_ordered_iff (lim : FramerLimits) (maxDocuments : Nat)
    (budget : SemanticBudget) (request : Bytes) :
    ∃ r, frameStream lim request = .ok r ∧
      (((parseDocuments maxDocuments r.frames).run budget).1.1.Pairwise
          (fun d d' => (∀ m ∈ d.frameIds, ∀ n ∈ d'.frameIds, m < n) ∧
            d.endOffset ≤ d'.startOffset) ↔
        usesStaleStart maxDocuments r.frames = false) := by
  obtain ⟨ss, -, hrun⟩ := frameChunks_eq lim [request]
  refine ⟨_, hrun, ?_⟩
  rw [← parseDocuments_pairwise maxDocuments budget (frameStream_frames_before hrun),
    List.pairwise_map]
  rfl

/-- A management document, a remembered `<</?s`, a line of the management document and `=K`: the
commercial document starts at the second frame, and the management document holds the third. -/
theorem management_line_passes_remembered_start :
    ∃ frames r, ["=o", "<</?s", "=\"/(A)", "=K"].mapM (fun data : String =>
        buildFrame (.str data.toList) "00".toList (.str ['z']) (.str ['0'])) = .ok frames ∧
      frameStream .default frames.flatten = .ok r ∧
      ((parseDocuments 256 r.frames).run (.new 32768)).1.1.map ParsedReceipt.stretch =
        [⟨[1, 3], 0, 46⟩, ⟨[2, 4], 13, 59⟩] ∧
      ¬ ((parseDocuments 256 r.frames).run (.new 32768)).1.1.Pairwise
          (fun d d' => (∀ m ∈ d.frameIds, ∀ n ∈ d'.frameIds, m < n) ∧
            d.endOffset ≤ d'.startOffset) := by
  have hrun : (do
      let frames ← ["=o", "<</?s", "=\"/(A)", "=K"].mapM (fun data : String =>
        buildFrame (.str data.toList) "00".toList (.str ['z']) (.str ['0']))
      let r ← frameStream .default frames.flatten
      return ((parseDocuments 256 r.frames).run (.new 32768)).1.1.map ParsedReceipt.stretch) =
      .ok [⟨[1, 3], 0, 46⟩, ⟨[2, 4], 13, 59⟩] := by decide +kernel
  obtain ⟨frames, hframes, hrun⟩ := bind_eq_ok.mp hrun
  obtain ⟨r, hr, hrun⟩ := bind_eq_ok.mp hrun
  have hdocs := Except.ok.inj hrun
  refine ⟨frames, r, hframes, hr, hdocs, fun hord => ?_⟩
  have hpair : ([⟨[1, 3], 0, 46⟩, ⟨[2, 4], 13, 59⟩] : List Stretch).Pairwise Stretch.Before := by
    rw [← hdocs, List.pairwise_map]
    exact hord
  revert hpair
  decide

end RchProxy
