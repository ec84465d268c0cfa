import RchProxy.Parser.Once
import RchProxy.Storage.Reload
import RchProxy.Storage.Together

/-!
# From the dumper to the parser

What `discover_ready_jobs` and `load_spool_job` find of the captures that are written to a date
directory meanwhile: nothing of a capture before it has the name of its code, and from then on all of
it (`readyJobs_captured`).
-/

namespace RchProxy

open Py Lib

theorem PublishedCapture.isSome_ready {config : Config} {job : CapturedJob} {code : Text}
    {figures : Figures} {content : Artifact → Bytes} {names : FileNames} {d : JobDir}
    (h : PublishedCapture config job code figures content names d) :
    (d.lookup ".ready".toList).isSome := by
  obtain ⟨manifest, publishedAt, ready, -, -, -, hready⟩ := h.markers
  rw [hready]
  rfl

/-- A job of the date directory is in a snapshot when its directory has the marker. -/
theorem mem_readyJobs_day {dirs : SpoolDirs} (walk : Walk dirs) {parent : Path} {day : Day}
    {code : JobCode} (hday : dirs (code.val :: parent) = day code.val) :
    code.val :: parent ∈ readyJobs dirs walk.markers ↔
      ∃ d, day code.val = some d ∧ (d.lookup ".ready".toList).isSome := by
  rw [mem_readyJobs, IsReadyJob, hday]
  constructor
  · rintro ⟨d, name, parent', -, -, hd, hready⟩
    exact ⟨d, hd, hready⟩
  · rintro ⟨d, hd, hready⟩
    exact ⟨d, code.val, parent, rfl, code.property, hd, hready⟩

/-- What the parser finds of a capture, wherever the captures of its day are, or stopped: a job is in
the snapshot exactly when its directory has taken its name, and it can be loaded then. -/
theorem readyJobs_captured {config : Config} {a b : Threads DayOp DayOp.Res Error Unit JobCode Day}
    (h : Relation.ReflTransGen (Threads.Apart (Starts config) Day.Turn) a b)
    (ha : a.running = []) {code : JobCode} (hnew : a.state code.val = none) {dirs : SpoolDirs}
    (walk : Walk dirs) {parent : Path} (hday : dirs (code.val :: parent) = b.state code.val) :
    (code.val :: parent ∈ readyJobs dirs walk.markers ↔ b.state code.val ≠ none) ∧
      ∀ d, b.state code.val = some d → ∃ payload job figures names,
        Captured config code.val payload d ∧ finalNames job = .ok names ∧ ∀ maxBytes loaded,
          Prog.Succeeds JobDir.exec (Job.loadSpoolJob code.val maxBytes) d loaded ↔
            Within payload maxBytes d ∧ loaded.view =
              (code.val, PublishedCapture.manifest config job code.val names figures,
                payload .clientToRch, payload .rchToClient, names.timeline) := by
  have hcaptured : ∀ d, b.state code.val = some d → IsCapture config code.val d := by
    intro d hd
    rcases (Starts.parts h ha code).of_part with heq | ⟨-, d', hd', hcapture⟩
    · rw [heq, hnew] at hd
      cases hd
    · rw [hd] at hd'
      cases hd'
      exact hcapture
  refine ⟨?_, fun d hd => ?_⟩
  · rw [mem_readyJobs_day walk hday, Option.ne_none_iff_exists']
    constructor
    · rintro ⟨d, hd, -⟩
      exact ⟨d, hd⟩
    · rintro ⟨d, hd⟩
      obtain ⟨payload, hcapture⟩ := hcaptured d hd
      obtain ⟨job, figures, content, names, hpublished, -, -⟩ := hcapture.published
      exact ⟨d, hd, hpublished.isSome_ready⟩
  · obtain ⟨payload, hcapture⟩ := hcaptured d hd
    obtain ⟨job, figures, content, names, hpublished, hdigests, hcontent⟩ := hcapture.published
    exact ⟨payload, job, figures, names, hcapture, hpublished.final, fun maxBytes loaded =>
      hpublished.loads hdigests hcontent maxBytes loaded⟩

/-- An archive of the job of a session that saw nothing is published, and found. -/
theorem readyJobs_captured_sample : ∃ (config : Config) (code : JobCode)
    (b : Threads DayOp DayOp.Res Error Unit JobCode Day) (d : JobDir) (dirs : SpoolDirs)
    (walk : Walk dirs), b.state code.val = some d ∧ [code.val] ∈ readyJobs dirs walk.markers ∧
      ∃ payload job figures names, Captured config code.val payload d ∧
        finalNames job = .ok names ∧ ∀ maxBytes loaded,
          Prog.Succeeds JobDir.exec (Job.loadSpoolJob code.val maxBytes) d loaded ↔
            Within payload maxBytes d ∧ loaded.view =
              (code.val, PublishedCapture.manifest config job code.val names figures,
                payload .clientToRch, payload .rchToClient, names.timeline) := by
  let config := (Connection.sampleSession .abort).config
  let job := Connection.newJob (Connection.sampleSession .abort) 5 Connection.sampleClock
  let code : JobCode := ⟨"0001".toList, by decide⟩
  have hcheck : ((Prog.run Day.exec (List.replicate 100 Choice.quiet) (archive config job code.val)
      (fun _ => none)).bind fun x => (x.2 code.val).map fun d =>
        (d.lookup ".ready".toList).isSome) = some true := by
    decide +kernel
  obtain ⟨⟨x, s⟩, hrun, hcheck⟩ := Option.bind_eq_some_iff.mp hcheck
  obtain ⟨d, hd, hready⟩ := Option.map_eq_some_iff.mp hcheck
  obtain ⟨m, hreaches⟩ := @Threads.apart_run _ _ _ _ _ _ _ (Starts config) Day.Turn Day.exec code
    (fun c op s => ⟨c, rfl⟩) _ _ _ _ _ hrun
  have hstart : Threads.Apart (Starts config) Day.Turn ⟨fun _ => none, []⟩
      ⟨fun _ => none, [(code, archive config job code.val)]⟩ :=
    ⟨.start (.archive job), List.nodup_singleton _⟩
  let walk := Walk.uniform [[code.val]] (List.nodup_singleton _) hready
  obtain ⟨hmem, hloads⟩ := readyJobs_captured (hreaches.head hstart) rfl (@rfl _ none) walk
    ((if_pos (List.mem_singleton_self _)).trans hd.symm)
  have hlisted : [code.val] ∈ readyJobs _ walk.markers :=
    hmem.mpr (Option.ne_none_iff_exists'.mpr ⟨d, hd⟩)
  exact ⟨config, code, ⟨s, [(code, m)]⟩, d, _, walk, hd, hlisted, hloads d hd⟩

end RchProxy
