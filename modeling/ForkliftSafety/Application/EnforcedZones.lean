import ForkliftSafety.Application.Pipeline

/-! The zones that the live view shows next to the zones in which persons raise alerts. -/
namespace ForkliftSafety
open Transition Threads

/-- The zones that `evaluate` tests persons against. -/
def testedZones (cfg : SafetyZoneConfig) (detections : List Detection) : List SafetyZone :=
  zonesFor cfg (splitLoop [] [] detections).2

theorem evaluate_testedZones (cfg : SafetyZoneConfig) (cameraId : String) (ds : List Detection)
    (frameTs : TimePoint) :
    evaluate cfg cameraId ds frameTs =
      zoneLoop cameraId frameTs (splitLoop [] [] ds).1 [] (testedZones cfg ds) := rfl

theorem testedZones_eq (cfg : SafetyZoneConfig) (ds : List Detection) :
    testedZones cfg ds = (ds.filter Detection.isForklift).map (zoneForForklift cfg) := by
  rw [testedZones, splitLoop_eq, zonesFor_eq]
  rfl

/-- An alert carries the boxes of a tested zone. -/
theorem alert_boxes_tested {cfg : SafetyZoneConfig} {cameraId : String} {ds : List Detection}
    {frameTs : TimePoint} {a : Alert} (h : a ∈ evaluate cfg cameraId ds frameTs) :
    ∃ z ∈ testedZones cfg ds, z.forkliftBox = a.forkliftBox ∧ z.zoneBox = a.safetyZoneBox := by
  rw [evaluate_eq, List.mem_map] at h
  obtain ⟨⟨f, q⟩, hpair, rfl⟩ := h
  obtain ⟨⟨⟨hf, hcls⟩, _⟩, _⟩ := (mem_endangeredPairs_iff cfg ds f q).mp hpair
  refine ⟨zoneForForklift cfg f, ?_, rfl, rfl⟩
  rw [testedZones_eq]
  exact List.mem_map_of_mem (List.mem_filter.mpr ⟨hf, by simpa [Detection.isForklift] using hcls⟩)

section View
variable (p : Pipeline)

/-- What the sinks are to get of a frame. -/
def viewOf (frame : Frame) (detections : List Detection) : ViewerUpdate where
  frame := frame
  cameraId := p.cameraId
  detections := detections
  zones := testedZones p.safetyZone detections
  frameW := frame.image.cols
  frameH := frame.image.rows

/-- Where the pipeline has the zone service of its risk service, the filter of the loop and the
split of `evaluate` come to the same zones. -/
theorem publishView_viewer (hzones : p.viewing = some p.safetyZone) (frame : Frame)
    (ds : List Detection) : (publishView p {} frame ds).viewer = [viewOf p frame ds] := by
  have hsame : zonesFor p.safetyZone (ds.filter Detection.isForklift) =
      testedZones p.safetyZone ds := by
    rw [testedZones_eq, zonesFor_eq]
  simp only [publishView, hzones, viewOf, hsame, List.nil_append]

variable {W : ℕ}

/-- The frame that a worker is to evaluate is in the view, and so is one with the alerts that it is
to hand over. -/
def InView (g : PipelineShared W) (l : Worker) : Prop :=
  match l.pc with
  | .evaluating frame ds => viewOf p frame ds ∈ g.detailed
  | .alerting frameTs alerts =>
    ∃ frame ds, viewOf p frame ds ∈ g.detailed ∧
      ∀ a ∈ alerts, a ∈ evaluate p.safetyZone p.cameraId ds frameTs
  | _ => True

variable {p}

theorem InView.mono {g g' : PipelineShared W} {l : Worker} (h : InView p g l)
    (hgrows : g.detailed ⊆ g'.detailed) : InView p g' l := by
  unfold InView at h ⊢
  cases hpc : l.pc <;> simp only [hpc] at h ⊢
  case evaluating => exact hgrows h
  case alerting =>
    obtain ⟨frame, ds, hshown, halerts⟩ := h
    exact ⟨frame, ds, hgrows hshown, halerts⟩

theorem workerNext_detailed (hzones : p.viewing = some p.safetyZone)
    {publish : Fin W → ℕ → PublishResult} {w : Fin W} {g g' : PipelineShared W} {l l' : Worker}
    {a : WorkerStep} (h : workerNext p publish w (g, l) a = some (g', l')) :
    ∃ shown, g'.detailed = g.detailed ++ shown ∧
      ∀ u ∈ shown, ∃ frame ds, u = viewOf p frame ds := by
  cases workerNext_move p publish h with
  | @detail frame ds hpc =>
    refine ⟨[viewOf p frame ds], ?_, fun u hu => ⟨frame, ds, List.mem_singleton.mp hu⟩⟩
    rw [publishView_viewer p hzones]
  | _ => exact ⟨[], (List.append_nil _).symm, by simp⟩

theorem InView.step (hzones : p.viewing = some p.safetyZone)
    {publish : Fin W → ℕ → PublishResult} {w : Fin W} {g g' : PipelineShared W} {l l' : Worker}
    {a : WorkerStep} (h : InView p g l) (hstep : workerNext p publish w (g, l) a = some (g', l')) :
    InView p g' l' := by
  unfold InView at h
  cases workerNext_move p publish hstep
  all_goals simp only [‹l.pc = _›] at h
  case detail frame ds _ =>
    show viewOf p frame ds ∈ g.detailed ++ (publishView p {} frame ds).viewer
    rw [publishView_viewer p hzones]
    simp
  case evaluate frame ds _ => exact ⟨frame, ds, h, fun a ha => ha⟩
  case hand a rest _ =>
    obtain ⟨frame, ds, hshown, halerts⟩ := h
    exact ⟨frame, ds, hshown, fun b hb => halerts b (List.mem_cons_of_mem a hb)⟩
  case infer frame outcome _ =>
    cases outcome with
    | detections ds => simp [InView, hzones]
    | _ => trivial
  case test => unfold InView; split_ifs <;> trivial
  case check => unfold InView; split_ifs <;> trivial
  all_goals trivial

end View

section Runs
variable {p : Pipeline} {publish : Fin p.cfg.inferenceWorkers → ℕ → PublishResult} {now : TimePoint}
  {c : Config (Fin p.cfg.inferenceWorkers) (PipelineShared p.cfg.inferenceWorkers) Worker}

theorem inView_of_reachable (hzones : p.viewing = some p.safetyZone)
    (hc : (pipelineSystem p publish now).Reachable c) (w : Fin p.cfg.inferenceWorkers) :
    InView p c.shared (c.locals w) := by
  apply Program.reachable_forall (I := fun _ g l => InView p g l)
    (R := fun _ g g' => g.detailed ⊆ g'.detailed) _ _ _ _ _ hc w
  · intro w
    trivial
  · intro w g l a g' l' h hstep
    exact h.step hzones hstep
  · intro w v g l a g' l' _ hstep
    obtain ⟨shown, hshown, _⟩ := workerNext_detailed hzones hstep
    rw [hshown]
    exact List.subset_append_left _ _
  · intro w g e g' henv
    rw [(pipelineEnv_view henv).2]
    exact List.Subset.refl _
  · intro w g g' l h hgrows
    exact h.mono hgrows

/-- Every update is the view of a frame and its detections. -/
theorem detailed_of_reachable (hzones : p.viewing = some p.safetyZone)
    (hc : (pipelineSystem p publish now).Reachable c) :
    ∀ u ∈ c.shared.detailed, ∃ frame ds, u = viewOf p frame ds := by
  apply hc.invariant (I := fun c => ∀ u ∈ c.shared.detailed, ∃ frame ds, u = viewOf p frame ds)
  · intro u hu
    contradiction
  · intro c label d _ ih hstep
    cases label with
    | thread w a =>
      obtain ⟨g, l, hnext, rfl⟩ := Program.system_thread hstep
      obtain ⟨shown, hshown, hviews⟩ := workerNext_detailed hzones hnext
      intro u hu
      rw [hshown, List.mem_append] at hu
      exact hu.elim (ih u) (hviews u)
    | env e =>
      obtain ⟨g, henv, rfl⟩ := Program.system_env hstep
      rw [(pipelineEnv_view henv).2]
      exact ih

/-- Every alert that was handed over was raised on detections that the view has. -/
theorem published_of_reachable (hzones : p.viewing = some p.safetyZone)
    (hc : (pipelineSystem p publish now).Reachable c) :
    ∀ x ∈ c.shared.published, ∃ u ∈ c.shared.detailed,
      x.2 ∈ evaluate p.safetyZone p.cameraId u.detections x.2.timestamp := by
  apply hc.invariant (I := fun c => ∀ x ∈ c.shared.published, ∃ u ∈ c.shared.detailed,
    x.2 ∈ evaluate p.safetyZone p.cameraId u.detections x.2.timestamp)
  · intro x hx
    contradiction
  · intro c label d hc ih hstep
    cases label with
    | thread w a =>
      obtain ⟨g, l, hnext, rfl⟩ := Program.system_thread hstep
      obtain ⟨shown, hshown, _⟩ := workerNext_detailed hzones hnext
      obtain ⟨_, _, hpublished⟩ := workerNext_shared p hnext
      intro x hx
      rw [hpublished, List.mem_append] at hx
      rw [hshown]
      rcases hx with hold | hnew
      · obtain ⟨u, hu, hraised⟩ := ih x hold
        exact ⟨u, List.mem_append_left _ hu, hraised⟩
      · obtain ⟨b, hb, rfl⟩ := List.mem_map.mp hnew
        have hview := inView_of_reachable hzones hc w
        unfold Worker.handing at hb
        unfold InView at hview
        split at hb
        · rename_i frameTs a rest hpc
          simp only [hpc] at hview
          obtain ⟨frame, ds, hin, halerts⟩ := hview
          split_ifs at hb
          · simp at hb
          · simp only [Option.toList_some, List.mem_singleton] at hb
            have hraised := halerts a List.mem_cons_self
            rw [← hb, ← evaluate_timestamp hraised] at hraised
            exact ⟨_, List.mem_append_left _ hin, hraised⟩
        · simp at hb
    | env e =>
      obtain ⟨g, henv, rfl⟩ := Program.system_env hstep
      rw [(pipelineEnv_view henv).2, (pipelineEnv_shared henv).2.2]
      exact ih

end Runs

/-- An update shows the zones that are tested, one for each forklift, and with them the boxes of
every alert that its detections can raise. -/
structure ShowsTested (p : Pipeline) (u : ViewerUpdate) : Prop where
  tested : u.zones = testedZones p.safetyZone u.detections
  evaluated : ∀ frameTs, evaluate p.safetyZone p.cameraId u.detections frameTs =
    zoneLoop p.cameraId frameTs (splitLoop [] [] u.detections).1 [] u.zones
  forklifts : (u.zones.map fun z => (z.forkliftBox, z.forkliftTrackId)) =
    (u.detections.filter Detection.isForklift).map fun d => (d.box, d.trackId)
  boxes : ∀ frameTs, ∀ a ∈ evaluate p.safetyZone p.cameraId u.detections frameTs,
    ∃ z ∈ u.zones, z.forkliftBox = a.forkliftBox ∧ z.zoneBox = a.safetyZoneBox

theorem viewOf_showsTested (p : Pipeline) (frame : Frame) (ds : List Detection) :
    ShowsTested p (viewOf p frame ds) where
  tested := rfl
  evaluated _ := rfl
  forklifts := by
    simp only [viewOf, testedZones_eq, List.map_map]
    rfl
  boxes _ _ ha := alert_boxes_tested ha

/-- With the zone service of the risk service, every update shows the tested zones; a worker has
sent one of the frame that it turns to the alerts of, and each alert that it hands over was raised
on the detections of one. -/
theorem shown_zones_enforced {p : Pipeline}
    {publish : Fin p.cfg.inferenceWorkers → ℕ → PublishResult} {now : TimePoint}
    {c : Config (Fin p.cfg.inferenceWorkers) (PipelineShared p.cfg.inferenceWorkers) Worker}
    (hzones : p.viewing = some p.safetyZone) (hc : (pipelineSystem p publish now).Reachable c) :
    (∀ u ∈ c.shared.detailed, ShowsTested p u) ∧
      (∀ w frame ds, (c.locals w).pc = .evaluating frame ds →
        ∃ u ∈ c.shared.detailed, u.frame = frame ∧ u.detections = ds) ∧
      ∀ x ∈ c.shared.published, ∃ u ∈ c.shared.detailed,
        x.2 ∈ evaluate p.safetyZone p.cameraId u.detections x.2.timestamp := by
  refine ⟨fun u hu => ?_, fun w frame ds hpc => ?_, published_of_reachable hzones hc⟩
  · obtain ⟨frame, ds, rfl⟩ := detailed_of_reachable hzones hc u hu
    exact viewOf_showsTested p frame ds
  · have hview := inView_of_reachable hzones hc w
    simp only [InView, hpc] at hview
    exact ⟨_, hview, rfl, rfl⟩

/-- A pipeline with a viewer, and a run of it in which one frame raises an alarm. -/
def viewedPipeline : Pipeline :=
  { cameraId := "dock", cfg := { enableViewer := true }, viewerZones := some {} }

def viewedRun : List (Label (Fin 1) WorkerStep PipelineEvent) :=
  [.env (.capture none),
    .env (.capture (some { cameraId := "dock", sequence := 1, image := ⟨64, 48⟩ })),
    .env (.capture none), .thread 0 .advance, .thread 0 .advance, .thread 0 .advance,
    .thread 0 (.inferEnds (.detections (alarmScene {}))), .thread 0 .advance, .thread 0 .advance,
    .thread 0 .advance, .thread 0 .advance]

theorem shown_zones_enforced_alarm :
    ∃ c : Config (Fin 1) (PipelineShared 1) Worker,
      c.shared.published.length = 1 ∧ c.shared.detailed.length = 1 ∧
      ∀ u ∈ c.shared.detailed, ShowsTested viewedPipeline u := by
  have hrun : ((exec (pipelineProgram viewedPipeline fun _ _ => .ok ()).step
      (started viewedPipeline 0) viewedRun).map fun c : Config (Fin 1) (PipelineShared 1) Worker =>
        (c.shared.published.length, c.shared.detailed.length)) = some (1, 1) := by
    decide +kernel
  obtain ⟨c, hc, hlengths⟩ := Option.map_eq_some_iff.mp hrun
  obtain ⟨hpublished, hdetailed⟩ := Prod.mk.inj hlengths
  exact ⟨c, hpublished, hdetailed, (shown_zones_enforced rfl (reachable_of_exec hc)).1⟩

end ForkliftSafety
