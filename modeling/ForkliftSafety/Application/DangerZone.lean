import ForkliftSafety.Application.RiskDetection

/-! Which persons `evaluate` reports, measured against the margin the configuration asks for:
`padX` on the left and right of the forklift and `padY` above and below. -/
namespace ForkliftSafety

/-- The forklift's box with the configured margin on every side. -/
def marginBox (cfg : SafetyZoneConfig) (box : BoundingBox) : BoundingBox :=
  box.grown (cfg.padX box) (cfg.padY box)

def fixedPadding : SafetyZoneConfig := ⟨.absolutePixels, 20, 20, 0⟩

theorem fixedPadding_nonneg : fixedPadding.NonnegPadding :=
  show (0 : ℚ) ≤ 20 ∧ (0 : ℚ) ≤ 20 by norm_num

/-- A forklift near the image corner, a person across the border and a person on the floor. -/
def cornerBay : List Detection :=
  [⟨⟨5, 5, 10, 10⟩, .forklift, 1, 7⟩, ⟨⟨-8, -8, 9, 9⟩, .person, 1, 3⟩,
    ⟨⟨40, 5, 5, 5⟩, .person, 1, 4⟩]

def openFloor : List Detection :=
  [⟨⟨50, 50, 20, 20⟩, .forklift, 1, 7⟩, ⟨⟨75, 60, 4, 8⟩, .person, 1, 3⟩]

/-- No missed danger: a person that reaches the image and is within the margin of a forklift is
reported with that forklift. -/
theorem evaluate_reports_margin (cfg : SafetyZoneConfig) (hpad : cfg.NonnegPadding)
    (cameraId : String) (frameTs : TimePoint) (detections : List Detection) (p f : Detection)
    (hp : p ∈ detections) (hpc : p.cls = .person) (hf : f ∈ detections) (hfc : f.cls = .forklift)
    (hw : 0 ≤ f.box.width) (hh : 0 ≤ f.box.height) (hright : 0 < p.box.right)
    (hbottom : 0 < p.box.bottom) (hover : (marginBox cfg f.box).Overlaps p.box) :
    ∃ a ∈ evaluate cfg cameraId detections frameTs,
      (a.personBox = p.box ∧ a.forkliftBox = f.box) ∧
      (a.personTrackId = p.trackId ∧ a.forkliftTrackId = f.trackId) := by
  have hzone : (zoneForForklift cfg f).overlaps p.box = true := by
    rw [zoneForForklift_overlaps_iff]
    exact BoundingBox.Overlaps.expanded (hpad.padX_nonneg hw) (hpad.padY_nonneg hh) hw hh
      hright hbottom hover
  refine ⟨alertFor cfg cameraId frameTs (f, p), ?_, ⟨rfl, rfl⟩, rfl, rfl⟩
  rw [mem_evaluate_iff]
  exact ⟨f, p, ⟨⟨⟨hf, hfc⟩, hp, hpc⟩, hzone⟩, rfl⟩

theorem evaluate_reports_margin_cornerBay :
    ∃ a ∈ evaluate fixedPadding "dock" cornerBay 0,
      (a.personBox = ⟨-8, -8, 9, 9⟩ ∧ a.forkliftBox = ⟨5, 5, 10, 10⟩) ∧
      (a.personTrackId = 3 ∧ a.forkliftTrackId = 7) :=
  evaluate_reports_margin fixedPadding fixedPadding_nonneg "dock" 0 cornerBay
    ⟨⟨-8, -8, 9, 9⟩, .person, 1, 3⟩ ⟨⟨5, 5, 10, 10⟩, .forklift, 1, 7⟩
    (by decide +kernel) rfl (by decide +kernel) rfl (by norm_num) (by norm_num)
    (by decide +kernel) (by decide +kernel) (by decide +kernel)

/-- The alerts of one list keep to the margin. -/
def AlertsWithinMargin (cfg : SafetyZoneConfig) (alerts : List Alert) : Prop :=
  ∀ a ∈ alerts, (marginBox cfg a.forkliftBox).Overlaps a.personBox

/-- The zones of the forklifts in one list keep to the margin on every side. -/
def ZonesWithinMargin (cfg : SafetyZoneConfig) (detections : List Detection) : Prop :=
  ∀ f ∈ detections, f.cls = .forklift →
    (zoneForForklift cfg f).zoneBox.Within (marginBox cfg f.box)

instance (cfg : SafetyZoneConfig) (alerts : List Alert) :
    Decidable (AlertsWithinMargin cfg alerts) :=
  inferInstanceAs (Decidable (∀ a ∈ alerts, _))

instance (cfg : SafetyZoneConfig) (detections : List Detection) :
    Decidable (ZonesWithinMargin cfg detections) :=
  inferInstanceAs (Decidable (∀ f ∈ detections, f.cls = .forklift → _))

theorem alertsWithinMargin_iff {cfg : SafetyZoneConfig} (hpad : cfg.NonnegPadding)
    (cameraId : String) (frameTs : TimePoint) {detections : List Detection}
    (hbox : ∀ d ∈ detections, 0 ≤ d.box.width ∧ 0 ≤ d.box.height) :
    AlertsWithinMargin cfg (evaluate cfg cameraId detections frameTs) ↔
      ∀ f ∈ detections, f.cls = .forklift → ∀ p ∈ detections, p.cls = .person →
        ¬ f.box.InOvershoot (cfg.padX f.box) (cfg.padY f.box) p.box := by
  constructor
  · intro h f hf hfc p hp hpc hover
    obtain ⟨hw, hh⟩ := hbox f hf
    rw [BoundingBox.inOvershoot_iff (hpad.padX_nonneg hw) (hpad.padY_nonneg hh) hw hh,
      ← zoneForForklift_overlaps_iff] at hover
    have hmem : alertFor cfg cameraId frameTs (f, p) ∈
        evaluate cfg cameraId detections frameTs :=
      (mem_evaluate_iff _ _ _ _ _).mpr ⟨f, p, ⟨⟨⟨hf, hfc⟩, hp, hpc⟩, hover.1⟩, rfl⟩
    exact hover.2 (h _ hmem)
  · intro h a ha
    obtain ⟨f, p, ⟨⟨⟨hf, hfc⟩, hp, hpc⟩, hzone⟩, rfl⟩ := (mem_evaluate_iff _ _ _ _ _).mp ha
    obtain ⟨hw, hh⟩ := hbox f hf
    have hclear := h f hf hfc p hp hpc
    rw [BoundingBox.inOvershoot_iff (hpad.padX_nonneg hw) (hpad.padY_nonneg hh) hw hh,
      ← zoneForForklift_overlaps_iff, not_and_not_right] at hclear
    exact hclear hzone

theorem zonesWithinMargin_iff {cfg : SafetyZoneConfig} (hpad : cfg.NonnegPadding)
    {detections : List Detection}
    (hbox : ∀ d ∈ detections, 0 ≤ d.box.width ∧ 0 ≤ d.box.height) :
    ZonesWithinMargin cfg detections ↔
      ∀ f ∈ detections, f.cls = .forklift →
        cfg.padX f.box ≤ f.box.x ∧ cfg.padY f.box ≤ f.box.y := by
  apply forall₂_congr
  intro f hf
  obtain ⟨hw, hh⟩ := hbox f hf
  exact imp_congr_right fun _ =>
    BoundingBox.expanded_within_iff (hpad.padX_nonneg hw) (hpad.padY_nonneg hh) hw hh

end ForkliftSafety
