import Mathlib.Data.Rat.Defs
import ForkliftSafety.Library.Span

/-! Pixel boxes. Coordinates are exact rationals, so no operation rounds. -/
namespace ForkliftSafety

structure BoundingBox where
  x : ℚ := 0
  y : ℚ := 0
  width : ℚ := 0
  height : ℚ := 0
  deriving DecidableEq, Repr

namespace BoundingBox

def area (b : BoundingBox) : ℚ := b.width * b.height

def right (b : BoundingBox) : ℚ := b.x + b.width

def bottom (b : BoundingBox) : ℚ := b.y + b.height

def intersects (b other : BoundingBox) : Bool :=
  !(decide (other.x ≥ b.right) || decide (other.right ≤ b.x) ||
    decide (other.y ≥ b.bottom) || decide (other.bottom ≤ b.y))

def iou (b other : BoundingBox) : ℚ :=
  let ix1 := max b.x other.x
  let iy1 := max b.y other.y
  let ix2 := min b.right other.right
  let iy2 := min b.bottom other.bottom
  let iw := max 0 (ix2 - ix1)
  let ih := max 0 (iy2 - iy1)
  let intersection := iw * ih
  let unionArea := b.area + other.area - intersection
  if unionArea ≤ 0 then 0 else intersection / unionArea

def expanded (b : BoundingBox) (padX padY : ℚ) : BoundingBox where
  x := max 0 (b.x - padX)
  y := max 0 (b.y - padY)
  width := max 0 (b.width + 2 * padX)
  height := max 0 (b.height + 2 * padY)

/-- The box grown by the same margin on opposite sides, with no clamp at the image border. -/
def grown (b : BoundingBox) (padX padY : ℚ) : BoundingBox where
  x := b.x - padX
  y := b.y - padY
  width := b.width + 2 * padX
  height := b.height + 2 * padY

/-- Strict overlap on both axes; touching edges do not count. -/
def Overlaps (a b : BoundingBox) : Prop :=
  (b.x < a.right ∧ a.x < b.right) ∧ (b.y < a.bottom ∧ a.y < b.bottom)

instance (a b : BoundingBox) : Decidable (a.Overlaps b) :=
  inferInstanceAs (Decidable ((_ < _ ∧ _ < _) ∧ (_ < _ ∧ _ < _)))

/-- The first box reaches no farther than the second on any side. -/
def Within (a b : BoundingBox) : Prop :=
  (b.x ≤ a.x ∧ a.right ≤ b.right) ∧ (b.y ≤ a.y ∧ a.bottom ≤ b.bottom)

instance (a b : BoundingBox) : Decidable (a.Within b) :=
  inferInstanceAs (Decidable ((_ ≤ _ ∧ _ ≤ _) ∧ (_ ≤ _ ∧ _ ≤ _)))

theorem intersects_iff (a b : BoundingBox) : a.intersects b = true ↔ a.Overlaps b := by
  simp only [intersects, Overlaps, ge_iff_le, Bool.not_eq_true', Bool.or_eq_false_iff,
    decide_eq_false_iff_not, not_le]
  tauto

/-- A box is a pair of spans; the code's operations act on each axis alone. -/
def xSpan (b : BoundingBox) : Span ℚ := ⟨b.x, b.width⟩

def ySpan (b : BoundingBox) : Span ℚ := ⟨b.y, b.height⟩

@[simp] theorem xSpan_lo (b : BoundingBox) : b.xSpan.lo = b.x := rfl
@[simp] theorem ySpan_lo (b : BoundingBox) : b.ySpan.lo = b.y := rfl
@[simp] theorem xSpan_hi (b : BoundingBox) : b.xSpan.hi = b.right := rfl
@[simp] theorem ySpan_hi (b : BoundingBox) : b.ySpan.hi = b.bottom := rfl
@[simp] theorem expanded_xSpan (b : BoundingBox) (padX padY : ℚ) :
    (b.expanded padX padY).xSpan = b.xSpan.clampPad padX := rfl
@[simp] theorem expanded_ySpan (b : BoundingBox) (padX padY : ℚ) :
    (b.expanded padX padY).ySpan = b.ySpan.clampPad padY := rfl
@[simp] theorem grown_xSpan (b : BoundingBox) (padX padY : ℚ) :
    (b.grown padX padY).xSpan = b.xSpan.pad padX := rfl
@[simp] theorem grown_ySpan (b : BoundingBox) (padX padY : ℚ) :
    (b.grown padX padY).ySpan = b.ySpan.pad padY := rfl

theorem overlaps_iff_spans (a b : BoundingBox) :
    a.Overlaps b ↔ a.xSpan.Meets b.xSpan ∧ a.ySpan.Meets b.ySpan := by
  simp only [Overlaps, Span.Meets, xSpan_lo, xSpan_hi, ySpan_lo, ySpan_hi]
  tauto

theorem within_iff_spans (a b : BoundingBox) :
    a.Within b ↔ a.xSpan.Inside b.xSpan ∧ a.ySpan.Inside b.ySpan := Iff.rfl

theorem Overlaps.of_within {a b other : BoundingBox} (h : a.Overlaps other) (hab : a.Within b) :
    b.Overlaps other := by
  rw [overlaps_iff_spans] at h ⊢
  rw [within_iff_spans] at hab
  exact ⟨h.1.of_inside hab.1, h.2.of_inside hab.2⟩

/-- More padding never takes anything out of the clamped zone. -/
theorem expanded_within_expanded {b : BoundingBox} {padX padY padX' padY' : ℚ} (hx : 0 ≤ padX)
    (hy : 0 ≤ padY) (hxx : padX ≤ padX') (hyy : padY ≤ padY') (hw : 0 ≤ b.width)
    (hh : 0 ≤ b.height) : (b.expanded padX padY).Within (b.expanded padX' padY') := by
  rw [within_iff_spans, expanded_xSpan, expanded_ySpan, expanded_xSpan, expanded_ySpan]
  exact ⟨Span.clampPad_inside hx hxx hw, Span.clampPad_inside hy hyy hh⟩

/-- The clamped zone of a box reaches everything right of and below the image corner that its
grown box overlaps. -/
theorem Overlaps.expanded {b other : BoundingBox} {padX padY : ℚ} (hx : 0 ≤ padX)
    (hy : 0 ≤ padY) (hw : 0 ≤ b.width) (hh : 0 ≤ b.height) (hright : 0 < other.right)
    (hbottom : 0 < other.bottom) (h : (b.grown padX padY).Overlaps other) :
    (b.expanded padX padY).Overlaps other := by
  rw [overlaps_iff_spans, grown_xSpan, grown_ySpan] at h
  rw [overlaps_iff_spans, expanded_xSpan, expanded_ySpan]
  exact ⟨h.1.clampPad hx hw hright, h.2.clampPad hy hh hbottom⟩

/-- Where the clamped zone reaches past the margin: `other` starts at or beyond the margin on the
right or at the bottom, and the zone, pushed out by what the clamp took, still meets it. -/
def InOvershoot (b : BoundingBox) (padX padY : ℚ) (other : BoundingBox) : Prop :=
  ((b.x - padX < other.right ∧ 0 < other.right) ∧
    other.x < b.right + padX + max 0 (padX - b.x)) ∧
  ((b.y - padY < other.bottom ∧ 0 < other.bottom) ∧
    other.y < b.bottom + padY + max 0 (padY - b.y)) ∧
  (b.right + padX ≤ other.x ∨ b.bottom + padY ≤ other.y)

instance (b other : BoundingBox) (padX padY : ℚ) : Decidable (b.InOvershoot padX padY other) := by
  unfold InOvershoot
  infer_instance

theorem expanded_overlaps_iff {b other : BoundingBox} {padX padY : ℚ} (hx : 0 ≤ padX)
    (hy : 0 ≤ padY) (hw : 0 ≤ b.width) (hh : 0 ≤ b.height) :
    (b.expanded padX padY).Overlaps other ↔
      ((b.x - padX < other.right ∧ 0 < other.right) ∧
        other.x < b.right + padX + max 0 (padX - b.x)) ∧
      ((b.y - padY < other.bottom ∧ 0 < other.bottom) ∧
        other.y < b.bottom + padY + max 0 (padY - b.y)) := by
  rw [overlaps_iff_spans, expanded_xSpan, expanded_ySpan, Span.meets_clampPad_iff hx hw,
    Span.meets_clampPad_iff hy hh]
  rfl

/-- The zone overlaps a box that the grown box does not exactly when that box is in the
overshoot. -/
theorem inOvershoot_iff {b other : BoundingBox} {padX padY : ℚ} (hx : 0 ≤ padX)
    (hy : 0 ≤ padY) (hw : 0 ≤ b.width) (hh : 0 ≤ b.height) :
    b.InOvershoot padX padY other ↔
      (b.expanded padX padY).Overlaps other ∧ ¬ (b.grown padX padY).Overlaps other := by
  have hgrown : (b.expanded padX padY).Overlaps other →
      ((b.grown padX padY).Overlaps other ↔
        other.x < b.right + padX ∧ other.y < b.bottom + padY) := by
    intro h
    rw [overlaps_iff_spans, expanded_xSpan, expanded_ySpan] at h
    rw [overlaps_iff_spans, grown_xSpan, grown_ySpan,
      Span.meets_pad_iff_of_clampPad hx hw h.1, Span.meets_pad_iff_of_clampPad hy hh h.2]
    rfl
  rw [InOvershoot, ← and_assoc, ← expanded_overlaps_iff hx hy hw hh]
  apply and_congr_right
  intro h
  rw [hgrown h, not_and_or, not_lt, not_lt]

/-- The zone keeps to the margin on every side exactly when the box stands at least the padding
away from the left and the top border. -/
theorem expanded_within_iff {b : BoundingBox} {padX padY : ℚ} (hx : 0 ≤ padX) (hy : 0 ≤ padY)
    (hw : 0 ≤ b.width) (hh : 0 ≤ b.height) :
    (b.expanded padX padY).Within (b.grown padX padY) ↔ padX ≤ b.x ∧ padY ≤ b.y :=
  and_congr (Span.clampPad_within_iff (s := b.xSpan) hx hw)
    (Span.clampPad_within_iff (s := b.ySpan) hy hh)

end BoundingBox
end ForkliftSafety
