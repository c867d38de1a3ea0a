import Mathlib.Data.List.Perm.Basic
import Mathlib.Data.List.ProdSigma
import ForkliftSafety.Application.SafetyZone

/-! `RiskDetectionService::evaluate`, and its reading as a filtered product of forklifts and
persons. -/
namespace ForkliftSafety

def makeAlertId (cameraId : String) (forkliftTrack personTrack : ℤ) (ts : TimePoint) : String :=
  cameraId ++ ":F" ++ toString forkliftTrack ++ ":P" ++ toString personTrack ++ ":" ++ toString ts

/-- The class split: one pass that fills `persons` and `forklifts`; other classes are dropped. -/
def splitLoop : List Detection → List Detection → List Detection → List Detection × List Detection
  | persons, forklifts, [] => (persons, forklifts)
  | persons, forklifts, d :: rest =>
    match d.cls with
    | .person => splitLoop (persons ++ [d]) forklifts rest
    | .forklift => splitLoop persons (forklifts ++ [d]) rest
    | .unknown => splitLoop persons forklifts rest

/-- The inner loop over the persons, for one zone. -/
def personLoop (cameraId : String) (frameTs : TimePoint) (zone : SafetyZone) :
    List Alert → List Detection → List Alert
  | alerts, [] => alerts
  | alerts, person :: rest =>
    if zone.overlaps person.box then
      let a : Alert :=
        { alertId := makeAlertId cameraId zone.forkliftTrackId person.trackId frameTs
          cameraId := cameraId
          type := .personNearForklift
          severity := .warning
          timestamp := frameTs
          personTrackId := person.trackId
          forkliftTrackId := zone.forkliftTrackId
          personBox := person.box
          forkliftBox := zone.forkliftBox
          safetyZoneBox := zone.zoneBox
          distancePx := 0 }
      personLoop cameraId frameTs zone (alerts ++ [a]) rest
    else personLoop cameraId frameTs zone alerts rest

/-- The outer loop over the zones. -/
def zoneLoop (cameraId : String) (frameTs : TimePoint) (persons : List Detection) :
    List Alert → List SafetyZone → List Alert
  | alerts, [] => alerts
  | alerts, zone :: rest =>
    zoneLoop cameraId frameTs persons (personLoop cameraId frameTs zone alerts persons) rest

def evaluate (cfg : SafetyZoneConfig) (cameraId : String) (detections : List Detection)
    (frameTs : TimePoint) : List Alert :=
  let (persons, forklifts) := splitLoop [] [] detections
  let zones := zonesFor cfg forklifts
  zoneLoop cameraId frameTs persons [] zones

/-- The alert that reports a forklift and a person, every field read off the two detections. The
purpose of `evaluate` is one of them for each pair. -/
def alertFor (cfg : SafetyZoneConfig) (cameraId : String) (frameTs : TimePoint)
    (pair : Detection × Detection) : Alert where
  alertId := makeAlertId cameraId pair.1.trackId pair.2.trackId frameTs
  cameraId := cameraId
  type := .personNearForklift
  severity := .warning
  timestamp := frameTs
  personTrackId := pair.2.trackId
  forkliftTrackId := pair.1.trackId
  personBox := pair.2.box
  forkliftBox := pair.1.box
  safetyZoneBox := pair.1.box.expanded (cfg.padX pair.1.box) (cfg.padY pair.1.box)
  distancePx := 0

/-- The person of the pair is in the zone of its forklift. -/
def Endangers (cfg : SafetyZoneConfig) (pair : Detection × Detection) : Bool :=
  (zoneForForklift cfg pair.1).overlaps pair.2.box

def endangeredPairs (cfg : SafetyZoneConfig) (detections : List Detection) :
    List (Detection × Detection) :=
  (detections.filter Detection.isForklift ×ˢ detections.filter Detection.isPerson).filter
    (Endangers cfg)

theorem splitLoop_eq (persons forklifts ds : List Detection) :
    splitLoop persons forklifts ds =
      (persons ++ ds.filter Detection.isPerson, forklifts ++ ds.filter Detection.isForklift) := by
  induction ds generalizing persons forklifts with
  | nil => simp [splitLoop]
  | cons d ds ih =>
    rw [splitLoop]
    cases hd : d.cls <;> simp [ih, Detection.isPerson, Detection.isForklift, hd]

theorem personLoop_eq (cfg : SafetyZoneConfig) (cameraId : String) (frameTs : TimePoint)
    (f : Detection) (alerts : List Alert) (persons : List Detection) :
    personLoop cameraId frameTs (zoneForForklift cfg f) alerts persons =
      alerts ++ ((persons.map (Prod.mk f)).filter (Endangers cfg)).map
        (alertFor cfg cameraId frameTs) := by
  induction persons generalizing alerts with
  | nil => simp [personLoop]
  | cons p persons ih =>
    rw [personLoop]
    split_ifs with h
    · have hkeep : Endangers cfg (f, p) = true := h
      simp only [List.map_cons, List.filter_cons, hkeep, ↓reduceIte, ih, List.append_assoc]
      rfl
    · have hdrop : Endangers cfg (f, p) = false := by simpa [Endangers] using h
      simp only [List.map_cons, List.filter_cons, hdrop, Bool.false_eq_true, ↓reduceIte, ih]

theorem zoneLoop_eq (cfg : SafetyZoneConfig) (cameraId : String) (frameTs : TimePoint)
    (persons : List Detection) (alerts : List Alert) (forklifts : List Detection) :
    zoneLoop cameraId frameTs persons alerts (forklifts.map (zoneForForklift cfg)) =
      alerts ++ ((forklifts ×ˢ persons).filter (Endangers cfg)).map
        (alertFor cfg cameraId frameTs) := by
  induction forklifts generalizing alerts with
  | nil => simp [zoneLoop]
  | cons f forklifts ih =>
    rw [List.map_cons, zoneLoop, personLoop_eq, ih, List.product_cons, List.filter_append,
      List.map_append, List.append_assoc]

/-- The nested loops over two accumulated lists compute the filtered product. -/
theorem evaluate_eq (cfg : SafetyZoneConfig) (cameraId : String) (detections : List Detection)
    (frameTs : TimePoint) :
    evaluate cfg cameraId detections frameTs =
      (endangeredPairs cfg detections).map (alertFor cfg cameraId frameTs) := by
  simp only [evaluate, splitLoop_eq, zonesFor_eq, List.nil_append, zoneLoop_eq, endangeredPairs]

theorem mem_endangeredPairs_iff (cfg : SafetyZoneConfig) (ds : List Detection)
    (f p : Detection) :
    (f, p) ∈ endangeredPairs cfg ds ↔
      ((f ∈ ds ∧ f.cls = .forklift) ∧ p ∈ ds ∧ p.cls = .person) ∧
        (zoneForForklift cfg f).overlaps p.box = true := by
  simp [endangeredPairs, Endangers, Detection.isForklift, Detection.isPerson]

theorem mem_evaluate_iff (cfg : SafetyZoneConfig) (cameraId : String) (ds : List Detection)
    (frameTs : TimePoint) (a : Alert) :
    a ∈ evaluate cfg cameraId ds frameTs ↔
      ∃ f p, (((f ∈ ds ∧ f.cls = .forklift) ∧ p ∈ ds ∧ p.cls = .person) ∧
        (zoneForForklift cfg f).overlaps p.box = true) ∧
        alertFor cfg cameraId frameTs (f, p) = a := by
  simp only [evaluate_eq, List.mem_map, Prod.exists, mem_endangeredPairs_iff]

@[simp] theorem evaluate_timestamp {cfg : SafetyZoneConfig} {cameraId : String}
    {ds : List Detection} {frameTs : TimePoint} {a : Alert}
    (ha : a ∈ evaluate cfg cameraId ds frameTs) : a.timestamp = frameTs := by
  obtain ⟨f, p, _, rfl⟩ := (mem_evaluate_iff cfg cameraId ds frameTs a).mp ha
  rfl

theorem endangeredPairs_perm (cfg : SafetyZoneConfig) {ds es : List Detection} (h : ds.Perm es) :
    (endangeredPairs cfg ds).Perm (endangeredPairs cfg es) :=
  ((h.filter Detection.isForklift).product (h.filter Detection.isPerson)).filter (Endangers cfg)

/-- The pairs only depend on the detections of a known class. -/
theorem endangeredPairs_known (cfg : SafetyZoneConfig) (ds : List Detection) :
    endangeredPairs cfg (ds.filter fun d => d.cls ≠ .unknown) = endangeredPairs cfg ds := by
  have hf : (ds.filter fun d => d.cls ≠ .unknown).filter Detection.isForklift =
      ds.filter Detection.isForklift := by
    rw [List.filter_filter]
    apply List.filter_congr
    intro d _
    cases hd : d.cls <;> simp [Detection.isForklift, hd]
  have hp : (ds.filter fun d => d.cls ≠ .unknown).filter Detection.isPerson =
      ds.filter Detection.isPerson := by
    rw [List.filter_filter]
    apply List.filter_congr
    intro d _
    cases hd : d.cls <;> simp [Detection.isPerson, hd]
  rw [endangeredPairs, endangeredPairs, hf, hp]

/-- With more padding the same pairs endanger and perhaps others, in the same order. -/
theorem endangeredPairs_sublist {small large : SafetyZoneConfig} (ds : List Detection)
    (hzones : ∀ f ∈ ds, f.cls = .forklift →
      (zoneForForklift small f).zoneBox.Within (zoneForForklift large f).zoneBox) :
    (endangeredPairs small ds).Sublist (endangeredPairs large ds) := by
  have hkeep : ∀ pair ∈ ds.filter Detection.isForklift ×ˢ ds.filter Detection.isPerson,
      (Endangers small pair && Endangers large pair) = Endangers small pair := by
    rintro ⟨f, p⟩ hpair
    have hf : f ∈ ds ∧ f.isForklift = true := List.mem_filter.mp (List.mem_product.mp hpair).1
    cases hsmall : Endangers small (f, p) with
    | false => rfl
    | true =>
      have hcls : f.cls = .forklift := by simpa [Detection.isForklift] using hf.2
      have hover := (BoundingBox.intersects_iff _ _).mp hsmall
      exact (BoundingBox.intersects_iff _ _).mpr (hover.of_within (hzones f hf.1 hcls))
  rw [endangeredPairs, endangeredPairs, ← List.filter_congr hkeep, ← List.filter_filter]
  exact List.filter_sublist

/-- One forklift and one person in its zone, under any padding. -/
def alarmScene (cfg : SafetyZoneConfig) : List Detection :=
  let f : Detection := { box := ⟨100, 100, 40, 40⟩, cls := .forklift }
  [f, personAt cfg f]

theorem evaluate_alarmScene (cfg : SafetyZoneConfig) (cameraId : String) (frameTs : TimePoint) :
    ∃ a : Alert, evaluate cfg cameraId (alarmScene cfg) frameTs = [a] ∧
      a.forkliftTrackId = -1 ∧ a.timestamp = frameTs := by
  let f : Detection := { box := ⟨100, 100, 40, 40⟩, cls := .forklift }
  refine ⟨alertFor cfg cameraId frameTs (f, personAt cfg f), ?_, rfl, rfl⟩
  have hpairs : endangeredPairs cfg (alarmScene cfg) = [(f, personAt cfg f)] := by
    have hproduct : (alarmScene cfg).filter Detection.isForklift ×ˢ
        (alarmScene cfg).filter Detection.isPerson = [(f, personAt cfg f)] := rfl
    have hzone : Endangers cfg (f, personAt cfg f) = true := personAt_overlaps cfg f
    rw [endangeredPairs, hproduct, List.filter_cons, hzone]
    rfl
  rw [evaluate_eq, hpairs]
  rfl

/-- `evaluate` returns one alert for each forklift and person whose box meets the zone, ordered
by forklift and then by person; permuting the detections permutes the alerts, and detections of
no known class change nothing. -/
theorem evaluate_filtered_product (cfg : SafetyZoneConfig) (cameraId : String)
    (detections : List Detection) (frameTs : TimePoint) :
    evaluate cfg cameraId detections frameTs =
        ((detections.filter Detection.isForklift ×ˢ detections.filter Detection.isPerson).filter
          fun pair => (zoneForForklift cfg pair.1).overlaps pair.2.box).map
          (alertFor cfg cameraId frameTs) ∧
      (∀ other, detections.Perm other →
        (evaluate cfg cameraId detections frameTs).Perm
          (evaluate cfg cameraId other frameTs)) ∧
      ∀ other, detections.filter (fun d => d.cls ≠ .unknown) =
          other.filter (fun d => d.cls ≠ .unknown) →
        evaluate cfg cameraId detections frameTs = evaluate cfg cameraId other frameTs := by
  refine ⟨evaluate_eq cfg cameraId detections frameTs, ?_, ?_⟩
  · intro other h
    rw [evaluate_eq, evaluate_eq]
    exact (endangeredPairs_perm cfg h).map (alertFor cfg cameraId frameTs)
  · intro other h
    rw [evaluate_eq, evaluate_eq, ← endangeredPairs_known, h, endangeredPairs_known]

/-- Enlarging the margin keeps every alert: the forklift and person pairs that `evaluate` reports
under the smaller padding are a subsequence of those that it reports under the larger one, and
the zones grow on every side. -/
theorem evaluate_padding_mono {small large : SafetyZoneConfig} (hmode : small.mode = large.mode)
    (hnonneg : small.NonnegPadding) (hpads : small.PadsNoMore large) (detections : List Detection)
    (hboxes : ∀ d ∈ detections, 0 ≤ d.box.width ∧ 0 ≤ d.box.height) (cameraId : String)
    (frameTs : TimePoint) :
    evaluate small cameraId detections frameTs =
        (endangeredPairs small detections).map (alertFor small cameraId frameTs) ∧
      evaluate large cameraId detections frameTs =
        (endangeredPairs large detections).map (alertFor large cameraId frameTs) ∧
      (endangeredPairs small detections).Sublist (endangeredPairs large detections) ∧
      ∀ f ∈ detections, f.cls = .forklift →
        (zoneForForklift small f).zoneBox.Within (zoneForForklift large f).zoneBox := by
  have hzones : ∀ f ∈ detections, f.cls = .forklift →
      (zoneForForklift small f).zoneBox.Within (zoneForForklift large f).zoneBox := by
    intro f hf _
    exact zoneForForklift_within hmode hnonneg hpads (hboxes f hf).1 (hboxes f hf).2
  exact ⟨evaluate_eq small _ _ _, evaluate_eq large _ _ _,
    endangeredPairs_sublist detections hzones, hzones⟩

/-- A forklift at the image corner, with a person to its right and one below it. -/
def cornerScene : List Detection :=
  [{ box := ⟨5, 5, 40, 40⟩, cls := .forklift }, { box := ⟨60, 20, 10, 20⟩, cls := .person },
    { box := ⟨20, 100, 10, 20⟩, cls := .person }]

theorem evaluate_padding_mono_cornerScene :
    (endangeredPairs { padRatio := 1 / 2 } cornerScene).length = 1 ∧
      (endangeredPairs { padRatio := 3 / 2 } cornerScene).length = 2 ∧
      (endangeredPairs { padRatio := 1 / 2 } cornerScene).Sublist
        (endangeredPairs { padRatio := 3 / 2 } cornerScene) := by
  have hboxes : ∀ d ∈ cornerScene, 0 ≤ d.box.width ∧ 0 ≤ d.box.height := by decide
  have hmono := @evaluate_padding_mono { padRatio := 1 / 2 }
    { padRatio := 3 / 2 } rfl (by unfold SafetyZoneConfig.NonnegPadding; norm_num)
    (by unfold SafetyZoneConfig.PadsNoMore; norm_num) cornerScene hboxes "dock" 0
  exact ⟨by decide +kernel, by decide +kernel, hmono.2.2.1⟩

end ForkliftSafety
