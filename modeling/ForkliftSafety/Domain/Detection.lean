import ForkliftSafety.Domain.BoundingBox

/-! The values that pass between the stages: detections, safety zones, alerts and frames. -/
namespace ForkliftSafety

/-- A `system_clock` or `steady_clock` reading, in nanoseconds. -/
abbrev TimePoint := ℤ

/-- A count of `std::chrono::milliseconds`. -/
abbrev Milliseconds := ℤ

/-- `duration_cast<milliseconds>` of a difference of readings: it drops the fraction. -/
def durationCastMs (d : ℤ) : Milliseconds := d.tdiv 1000000

/-- Less than the cooldown in whole milliseconds is less than the cooldown. -/
theorem lt_of_durationCastMs_lt {d cooldown : ℤ} (h : durationCastMs d < cooldown) :
    d < cooldown * 1000000 := by
  change d.tdiv 1000000 < cooldown at h
  rcases le_or_gt 0 d with hd | hd
  · rw [Int.tdiv_eq_ediv_of_nonneg hd] at h
    omega
  · obtain ⟨e, rfl⟩ : ∃ e, d = -e := ⟨-d, by omega⟩
    rw [Int.neg_tdiv, Int.tdiv_eq_ediv_of_nonneg (by omega)] at h
    omega

theorem durationCastMs_mono {d e : ℤ} (h : d ≤ e) : durationCastMs d ≤ durationCastMs e := by
  change d.tdiv 1000000 ≤ e.tdiv 1000000
  rcases le_or_gt 0 d with hd | hd
  · rw [Int.tdiv_eq_ediv_of_nonneg hd, Int.tdiv_eq_ediv_of_nonneg (by omega)]
    omega
  · obtain ⟨k, rfl⟩ : ∃ k, d = -k := ⟨-d, by omega⟩
    rw [Int.neg_tdiv, Int.tdiv_eq_ediv_of_nonneg (by omega)]
    rcases le_or_gt 0 e with he | he
    · rw [Int.tdiv_eq_ediv_of_nonneg he]
      omega
    · obtain ⟨l, rfl⟩ : ∃ l, e = -l := ⟨-e, by omega⟩
      rw [Int.neg_tdiv, Int.tdiv_eq_ediv_of_nonneg (by omega)]
      omega

inductive ObjectClass where
  | unknown | person | forklift
  deriving DecidableEq, Repr

def ObjectClass.toString : ObjectClass → String
  | .person => "person"
  | .forklift => "forklift"
  | .unknown => "unknown"

/-- `trackId` is -1 when no tracker is attached. -/
structure Detection where
  box : BoundingBox := {}
  cls : ObjectClass := .unknown
  confidence : ℚ := 0
  trackId : ℤ := -1
  deriving DecidableEq, Repr

def Detection.isPerson (d : Detection) : Bool := d.cls = .person

def Detection.isForklift (d : Detection) : Bool := d.cls = .forklift

structure SafetyZone where
  forkliftBox : BoundingBox := {}
  zoneBox : BoundingBox := {}
  forkliftTrackId : ℤ := -1
  deriving DecidableEq, Repr

def SafetyZone.overlaps (z : SafetyZone) (other : BoundingBox) : Bool :=
  z.zoneBox.intersects other

inductive AlertType where
  | personNearForklift
  deriving DecidableEq, Repr

inductive AlertSeverity where
  | info | warning | critical
  deriving DecidableEq, Repr

def AlertType.toString : AlertType → String
  | .personNearForklift => "person_near_forklift"

def AlertSeverity.toString : AlertSeverity → String
  | .info => "info"
  | .warning => "warning"
  | .critical => "critical"

structure Alert where
  alertId : String := ""
  cameraId : String := ""
  type : AlertType := .personNearForklift
  severity : AlertSeverity := .warning
  timestamp : TimePoint := 0
  personTrackId : ℤ := -1
  forkliftTrackId : ℤ := -1
  personBox : BoundingBox := {}
  forkliftBox : BoundingBox := {}
  safetyZoneBox : BoundingBox := {}
  distancePx : ℚ := 0
  deriving DecidableEq, Repr

/-- The part of a `cv::Mat` that the pipeline reads; pixel values only reach the engine. -/
structure Image where
  cols : ℕ := 0
  rows : ℕ := 0
  deriving DecidableEq, Repr

structure Frame where
  cameraId : String := ""
  sequence : ℕ := 0
  capturedAt : TimePoint := 0
  image : Image := {}
  deriving DecidableEq, Repr

def Frame.empty (f : Frame) : Bool := f.image.cols = 0 || f.image.rows = 0

/-- `shared::Error`. -/
structure Error where
  code : ℤ := 0
  message : String := ""
  deriving DecidableEq, Repr

end ForkliftSafety
