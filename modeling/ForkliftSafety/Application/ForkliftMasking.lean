import ForkliftSafety.Application.InferenceLoop
import ForkliftSafety.Infrastructure.YoloV8Postprocessor

/-! Several forklifts in one frame: decoder, risk evaluation and cooldown filter composed. -/
namespace ForkliftSafety

/-- The alerts that the pass over `d` hands to `publish`, after the frames `ds`. -/
def passAlerts (p : Pipeline) (publish : ℕ → PublishResult) (ds : List Delivery) (d : Delivery) :
    List Alert :=
  (submittedLoop p publish (ds ++ [d])).state.handedAlerts.drop
    (submittedLoop p publish ds).state.handedAlerts.length

/-- Some person of the list is in the zone of the forklift. -/
def InDanger (cfg : SafetyZoneConfig) (detections : List Detection) (f : Detection) : Prop :=
  f.cls = .forklift ∧ ∃ q ∈ detections, q.cls = .person ∧
    (zoneForForklift cfg f).overlaps q.box = true

instance (cfg : SafetyZoneConfig) (detections : List Detection) (f : Detection) :
    Decidable (InDanger cfg detections f) :=
  inferInstanceAs (Decidable (_ ∧ ∃ q ∈ detections, _))

def EveryForkliftAlerted (cfg : SafetyZoneConfig) (detections : List Detection)
    (alerts : List Alert) : Prop :=
  ∀ f ∈ detections, InDanger cfg detections f → ∃ a ∈ alerts, a.forkliftBox = f.box

instance (cfg : SafetyZoneConfig) (detections : List Detection) (alerts : List Alert) :
    Decidable (EveryForkliftAlerted cfg detections alerts) :=
  inferInstanceAs (Decidable (∀ f ∈ detections, InDanger cfg detections f → _))

/-- The forklifts in danger all carry one box. -/
def OneBoxInDanger (cfg : SafetyZoneConfig) (detections : List Detection) : Prop :=
  ∀ f ∈ detections, InDanger cfg detections f →
    ∀ g ∈ detections, InDanger cfg detections g → f.box = g.box

instance (cfg : SafetyZoneConfig) (detections : List Detection) :
    Decidable (OneBoxInDanger cfg detections) :=
  inferInstanceAs (Decidable (∀ f ∈ detections, InDanger cfg detections f →
    ∀ g ∈ detections, InDanger cfg detections g → _))

theorem evaluate_reports_inDanger {cfg : SafetyZoneConfig} {detections : List Detection}
    {f : Detection} (hf : f ∈ detections) (h : InDanger cfg detections f) (cameraId : String)
    (frameTs : TimePoint) :
    ∃ a ∈ evaluate cfg cameraId detections frameTs, a.forkliftBox = f.box := by
  obtain ⟨hfc, q, hq, hqc, hzone⟩ := h
  refine ⟨alertFor cfg cameraId frameTs (f, q), ?_, rfl⟩
  rw [mem_evaluate_iff]
  exact ⟨f, q, ⟨⟨⟨hf, hfc⟩, hq, hqc⟩, hzone⟩, rfl⟩

theorem inDanger_of_mem_evaluate {cfg : SafetyZoneConfig} {cameraId : String}
    {detections : List Detection} {frameTs : TimePoint} {a : Alert}
    (ha : a ∈ evaluate cfg cameraId detections frameTs) :
    ∃ f ∈ detections, InDanger cfg detections f ∧ a.forkliftBox = f.box ∧
      a.forkliftTrackId = f.trackId := by
  obtain ⟨f, q, ⟨⟨⟨hf, hfc⟩, hq, hqc⟩, hzone⟩, rfl⟩ := (mem_evaluate_iff _ _ _ _ _).mp ha
  exact ⟨f, hf, ⟨hfc, q, hq, hqc, hzone⟩, rfl, rfl⟩

section Pass
variable (p : Pipeline) (publish : ℕ → PublishResult)

/-- A pass hands over what the throttle, as the frames before left it, admits of its offers. -/
theorem passAlerts_eq_admitted {ds : List Delivery} {d : Delivery}
    (hlive : (submittedLoop p publish ds).future = .pending) (hd : d.throws = false) :
    passAlerts p publish ds d =
      (Throttle.admitted (cooldownRule p.cfg.alertCooldown)
        (submittedLoop p publish ds).state.lastAlert (offers p d)).map Prod.fst := by
  have hds := (inferenceLoop_pending_iff p publish {} ds).mp hlive
  have hsnoc : ∀ e ∈ ds ++ [d], e.throws = false := by
    intro e he
    rcases List.mem_append.mp he with he | he
    · exact hds e he
    · rwa [List.mem_singleton.mp he]
  rw [passAlerts, handedAlerts_eq, handedAlerts_eq, submittedLoop_lastAlert,
    passed_eq_self hsnoc, passed_eq_self hds, List.flatMap_append, Throttle.admitted_append,
    List.map_append, List.drop_left]
  simp

/-- An alert is admitted when every alert published before is at least the cooldown old. -/
theorem admits_of_quiet {ds : List Delivery} {a : Alert} (elapsed : TimePoint)
    (hquiet : ∀ b ∈ (submittedLoop p publish ds).state.handedAlerts,
      p.cfg.alertCooldown * 1000000 ≤ a.timestamp - b.timestamp) :
    Throttle.admits (cooldownRule p.cfg.alertCooldown)
      (submittedLoop p publish ds).state.lastAlert (a, elapsed) = true := by
  rw [← Bool.not_eq_false, Throttle.not_admits_iff]
  rintro ⟨last, hlast, hblocked⟩
  rw [submittedLoop_lastAlert, Throttle.table_eq_getLast, Option.map_eq_some_iff] at hlast
  obtain ⟨b, hb, rfl⟩ := hlast
  have hadmitted := List.mem_of_mem_filter (List.mem_of_getLast? hb)
  have hb' : b.1 ∈ (submittedLoop p publish ds).state.handedAlerts := by
    rw [handedAlerts_eq]
    exact List.mem_map_of_mem hadmitted
  have hlt := lt_of_durationCastMs_lt (of_decide_eq_true hblocked)
  exact absurd (hquiet b.1 hb') (not_le.mpr hlt)

/-- After a quiet cooldown, a frame whose detections carry no track ids publishes exactly its
first alert. -/
theorem passAlerts_eq_take {ds : List Delivery} {d : Delivery} {detections : List Detection}
    (hcool : 0 < p.cfg.alertCooldown)
    (hlive : (submittedLoop p publish ds).future = .pending) (hframe : d.frame.empty = false)
    (hinfer : d.infer = .detections detections) (htrack : ∀ e ∈ detections, e.trackId = -1)
    (hquiet : ∀ b ∈ (submittedLoop p publish ds).state.handedAlerts,
      p.cfg.alertCooldown * 1000000 ≤ d.frameTs - b.timestamp) :
    passAlerts p publish ds d =
      (evaluate p.safetyZone p.cameraId detections d.frameTs).take 1 := by
  have hthrows : d.throws = false := by simp [Delivery.throws, hframe, hinfer]
  have hoffers : offers p d =
      (evaluate p.safetyZone p.cameraId detections d.frameTs).map (·, d.elapsed) := by
    simp [offers, hframe, hinfer]
  have hkey : ∀ b ∈ evaluate p.safetyZone p.cameraId detections d.frameTs,
      b.forkliftTrackId = -1 := by
    intro b hb
    obtain ⟨f, hf, _, _, hid⟩ := inDanger_of_mem_evaluate hb
    rw [hid, htrack f hf]
  have htime : ∀ b ∈ evaluate p.safetyZone p.cameraId detections d.frameTs,
      b.timestamp = d.frameTs := fun b hb => evaluate_timestamp hb
  rw [passAlerts_eq_admitted p publish hlive hthrows, hoffers]
  cases heval : evaluate p.safetyZone p.cameraId detections d.frameTs with
  | nil => rfl
  | cons a rest =>
    rw [heval] at hkey htime
    have ha : a.timestamp = d.frameTs := htime a List.mem_cons_self
    have hfirst := admits_of_quiet p publish d.elapsed (ha ▸ hquiet)
    have hself : withinCooldown p.cfg.alertCooldown a.timestamp a.timestamp = true := by
      rw [withinCooldown, sub_self]
      exact decide_eq_true hcool
    rw [List.map_cons, Throttle.admitted_burst _ hfirst ?_ ?_ hself]
    · rfl
    · intro b hb
      obtain ⟨c, hc, rfl⟩ := List.mem_map.mp hb
      exact (hkey c (List.mem_cons_of_mem a hc)).trans (hkey a List.mem_cons_self).symm
    · intro b hb
      obtain ⟨c, hc, rfl⟩ := List.mem_map.mp hb
      exact (htime c (List.mem_cons_of_mem a hc)).trans ha.symm

/-- After a quiet cooldown, every forklift in danger in a decoded frame gets an alert exactly
when they all carry one box: the decoder sets no track ids, so the first alert starts a cooldown
for all of them. -/
theorem everyForkliftAlerted_iff (hcool : 0 < p.cfg.alertCooldown) (nms : NmsBoxes)
    (raw : ℕ → ℚ) (numAnchors numClasses : ℕ) (params : PostprocessParams)
    (detections : List Detection)
    (hdecode : postprocessYolov8 nms raw numAnchors numClasses params = some detections)
    (ds : List Delivery) (d : Delivery)
    (hlive : (submittedLoop p publish ds).future = .pending) (hframe : d.frame.empty = false)
    (hinfer : d.infer = .detections detections)
    (hquiet : ∀ b ∈ (submittedLoop p publish ds).state.handedAlerts,
      p.cfg.alertCooldown * 1000000 ≤ d.frameTs - b.timestamp) :
    EveryForkliftAlerted p.safetyZone detections (passAlerts p publish ds d) ↔
      OneBoxInDanger p.safetyZone detections := by
  rw [passAlerts_eq_take p publish hcool hlive hframe hinfer
    (fun e he => postprocessYolov8_trackId hdecode he) hquiet]
  constructor
  · intro h f hf hfd g hg hgd
    obtain ⟨a, ha, haf⟩ := h f hf hfd
    obtain ⟨b, hb, hbg⟩ := h g hg hgd
    rw [List.take_one, Option.mem_toList] at ha hb
    rw [← haf, ← hbg, Option.mem_unique ha hb]
  · intro h f hf hfd
    obtain ⟨a, ha, _⟩ := evaluate_reports_inDanger hf hfd p.cameraId d.frameTs
    cases heval : evaluate p.safetyZone p.cameraId detections d.frameTs with
    | nil => simp [heval] at ha
    | cons b rest =>
      -- The one published alert is about some forklift in danger, hence about the box of `f`.
      obtain ⟨g, hg, hgd, hbg, _⟩ := inDanger_of_mem_evaluate
        (show b ∈ evaluate p.safetyZone p.cameraId detections d.frameTs by simp [heval])
      refine ⟨b, by simp, ?_⟩
      rw [hbg]
      exact h g hg hgd f hf hfd

end Pass

/-- Channels `cx`, `cy`, `w`, `h`, person score and forklift score of two anchors: a forklift with a
person in front of it. -/
def oneForkliftTensor (k : ℕ) : ℚ :=
  [100, 100, 100, 100, 50, 10, 50, 20, 0, 7 / 10, 9 / 10, 0].getD k 0

def oneForkliftDetections : List Detection :=
  [⟨⟨75, 75, 50, 50⟩, .forklift, 9 / 10, -1⟩, ⟨⟨95, 90, 10, 20⟩, .person, 7 / 10, -1⟩]

/-- The same channels of four anchors. -/
def twoForkliftTensor (k : ℕ) : ℚ :=
  [100, 400, 100, 400, 100, 100, 100, 100, 50, 50, 10, 10, 50, 50, 20, 20,
    0, 0, 7 / 10, 6 / 10, 9 / 10, 8 / 10, 0, 0].getD k 0

def twoForkliftDetections : List Detection :=
  [⟨⟨75, 75, 50, 50⟩, .forklift, 9 / 10, -1⟩, ⟨⟨375, 75, 50, 50⟩, .forklift, 8 / 10, -1⟩,
    ⟨⟨95, 90, 10, 20⟩, .person, 7 / 10, -1⟩, ⟨⟨395, 90, 10, 20⟩, .person, 6 / 10, -1⟩]

def firstFrame (detections : List Detection) : Delivery :=
  ⟨{ image := ⟨640, 640⟩ }, .detections detections, 0, 0⟩

theorem everyForkliftAlerted_iff_oneForklift :
    EveryForkliftAlerted {} oneForkliftDetections
      (passAlerts { cameraId := "dock" } (fun _ => .ok ()) []
        (firstFrame oneForkliftDetections)) :=
  (everyForkliftAlerted_iff { cameraId := "dock" } (fun _ => .ok ()) (by decide)
    (sortedNms BoundingBox.iou) oneForkliftTensor 2 2 crowdedParams oneForkliftDetections
    (by decide +kernel) [] (firstFrame oneForkliftDetections) rfl rfl rfl
    (fun _ hb => absurd hb List.not_mem_nil)).mpr (by decide +kernel)

/-- In the first frame of a run, the alert of the first forklift silences the second one. -/
theorem second_forklift_silenced :
    postprocessYolov8 (sortedNms BoundingBox.iou) twoForkliftTensor 4 2 crowdedParams =
      some twoForkliftDetections ∧
    ¬ EveryForkliftAlerted {} twoForkliftDetections
      (passAlerts { cameraId := "dock" } (fun _ => .ok ()) []
        (firstFrame twoForkliftDetections)) :=
  ⟨by decide +kernel, by decide +kernel⟩

end ForkliftSafety
