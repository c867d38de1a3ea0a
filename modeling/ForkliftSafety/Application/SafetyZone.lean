import ForkliftSafety.Domain.Detection

/-! `SafetyZoneService`: the zone of a forklift under the configured padding. -/
namespace ForkliftSafety

inductive PaddingMode where
  | absolutePixels | relativeToBox
  deriving DecidableEq, Repr

structure SafetyZoneConfig where
  mode : PaddingMode := .relativeToBox
  padXPx : ℚ := 120
  padYPx : ℚ := 120
  padRatio : ℚ := 1 / 2
  deriving DecidableEq, Repr

namespace SafetyZoneConfig

def padX (cfg : SafetyZoneConfig) (box : BoundingBox) : ℚ :=
  match cfg.mode with
  | .absolutePixels => cfg.padXPx
  | .relativeToBox => box.width * cfg.padRatio

def padY (cfg : SafetyZoneConfig) (box : BoundingBox) : ℚ :=
  match cfg.mode with
  | .absolutePixels => cfg.padYPx
  | .relativeToBox => box.height * cfg.padRatio

/-- The configured padding of the mode in use is not negative. -/
def NonnegPadding (cfg : SafetyZoneConfig) : Prop :=
  match cfg.mode with
  | .absolutePixels => 0 ≤ cfg.padXPx ∧ 0 ≤ cfg.padYPx
  | .relativeToBox => 0 ≤ cfg.padRatio

theorem NonnegPadding.padX_nonneg {cfg : SafetyZoneConfig} (h : cfg.NonnegPadding)
    {b : BoundingBox} (hw : 0 ≤ b.width) : 0 ≤ cfg.padX b := by
  unfold NonnegPadding at h
  unfold padX
  cases hm : cfg.mode <;> simp only [hm] at h ⊢
  · exact h.1
  · exact mul_nonneg hw h

theorem NonnegPadding.padY_nonneg {cfg : SafetyZoneConfig} (h : cfg.NonnegPadding)
    {b : BoundingBox} (hh : 0 ≤ b.height) : 0 ≤ cfg.padY b := by
  unfold NonnegPadding at h
  unfold padY
  cases hm : cfg.mode <;> simp only [hm] at h ⊢
  · exact h.2
  · exact mul_nonneg hh h

/-- No padding of the mode in use is larger in `small` than in `large`. -/
def PadsNoMore (small large : SafetyZoneConfig) : Prop :=
  match small.mode with
  | .absolutePixels => small.padXPx ≤ large.padXPx ∧ small.padYPx ≤ large.padYPx
  | .relativeToBox => small.padRatio ≤ large.padRatio

theorem PadsNoMore.padX_le {small large : SafetyZoneConfig} (h : small.PadsNoMore large)
    (hmode : small.mode = large.mode) {b : BoundingBox} (hw : 0 ≤ b.width) :
    small.padX b ≤ large.padX b := by
  unfold PadsNoMore at h
  unfold padX
  rw [← hmode]
  cases hm : small.mode <;> simp only [hm] at h ⊢
  · exact h.1
  · exact mul_le_mul_of_nonneg_left h hw

theorem PadsNoMore.padY_le {small large : SafetyZoneConfig} (h : small.PadsNoMore large)
    (hmode : small.mode = large.mode) {b : BoundingBox} (hh : 0 ≤ b.height) :
    small.padY b ≤ large.padY b := by
  unfold PadsNoMore at h
  unfold padY
  rw [← hmode]
  cases hm : small.mode <;> simp only [hm] at h ⊢
  · exact h.2
  · exact mul_le_mul_of_nonneg_left h hh

end SafetyZoneConfig

def zoneForForklift (cfg : SafetyZoneConfig) (forklift : Detection) : SafetyZone where
  forkliftBox := forklift.box
  forkliftTrackId := forklift.trackId
  zoneBox := forklift.box.expanded (cfg.padX forklift.box) (cfg.padY forklift.box)

/-- The loop of `zones_for`, with the vector it fills. -/
def zonesForLoop (cfg : SafetyZoneConfig) : List SafetyZone → List Detection → List SafetyZone
  | out, [] => out
  | out, f :: rest => zonesForLoop cfg (out ++ [zoneForForklift cfg f]) rest

def zonesFor (cfg : SafetyZoneConfig) (forklifts : List Detection) : List SafetyZone :=
  zonesForLoop cfg [] forklifts

theorem zonesForLoop_eq (cfg : SafetyZoneConfig) (out : List SafetyZone) (fs : List Detection) :
    zonesForLoop cfg out fs = out ++ fs.map (zoneForForklift cfg) := by
  induction fs generalizing out with
  | nil => simp [zonesForLoop]
  | cons f fs ih => simp [zonesForLoop, ih]

/-- One zone for each forklift, in order. -/
@[simp] theorem zonesFor_eq (cfg : SafetyZoneConfig) (fs : List Detection) :
    zonesFor cfg fs = fs.map (zoneForForklift cfg) := zonesForLoop_eq cfg [] fs

theorem zoneForForklift_overlaps_iff (cfg : SafetyZoneConfig) (f : Detection) (b : BoundingBox) :
    (zoneForForklift cfg f).overlaps b = true ↔
      (f.box.expanded (cfg.padX f.box) (cfg.padY f.box)).Overlaps b :=
  BoundingBox.intersects_iff _ _

theorem zoneForForklift_within {small large : SafetyZoneConfig} (hmode : small.mode = large.mode)
    (hnonneg : small.NonnegPadding) (hpads : small.PadsNoMore large) {f : Detection}
    (hw : 0 ≤ f.box.width) (hh : 0 ≤ f.box.height) :
    (zoneForForklift small f).zoneBox.Within (zoneForForklift large f).zoneBox :=
  BoundingBox.expanded_within_expanded (hnonneg.padX_nonneg hw) (hnonneg.padY_nonneg hh)
    (hpads.padX_le hmode hw) (hpads.padY_le hmode hh) hw hh

/-- A person that stands around the zone of a forklift, also where the zone is degenerate. -/
def personAt (cfg : SafetyZoneConfig) (f : Detection) : Detection :=
  let z := (zoneForForklift cfg f).zoneBox
  { box := ⟨z.x - 1, z.y - 1, z.width + 2, z.height + 2⟩, cls := .person }

theorem personAt_overlaps (cfg : SafetyZoneConfig) (f : Detection) :
    (zoneForForklift cfg f).overlaps (personAt cfg f).box = true := by
  let z := (zoneForForklift cfg f).zoneBox
  have hw : 0 ≤ z.width := le_max_left 0 _
  have hh : 0 ≤ z.height := le_max_left 0 _
  rw [SafetyZone.overlaps, BoundingBox.intersects_iff]
  change ((z.x - 1 < z.x + z.width ∧ z.x < z.x - 1 + (z.width + 2)) ∧
    (z.y - 1 < z.y + z.height ∧ z.y < z.y - 1 + (z.height + 2)))
  refine ⟨⟨?_, ?_⟩, ?_, ?_⟩ <;> linarith

end ForkliftSafety
