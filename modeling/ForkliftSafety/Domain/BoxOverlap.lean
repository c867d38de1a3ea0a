import Mathlib.Data.List.TFAE
import Mathlib.Tactic.TFAE
import ForkliftSafety.Domain.BoundingBox

/-! The overlap test against the intersection over union, for boxes that are not flat. -/
namespace ForkliftSafety
namespace BoundingBox

/-- The box has an inside. -/
structure Solid (b : BoundingBox) : Prop where
  width : 0 < b.width
  height : 0 < b.height

/-- The point lies strictly inside the box. -/
def Holds (b : BoundingBox) (px py : ℚ) : Prop :=
  (b.x < px ∧ px < b.right) ∧ (b.y < py ∧ py < b.bottom)

theorem Solid.area_pos {b : BoundingBox} (h : b.Solid) : 0 < b.area :=
  mul_pos h.width h.height

theorem eq_of_spans {a b : BoundingBox} (hx : a.xSpan = b.xSpan) (hy : a.ySpan = b.ySpan) :
    a = b := by
  obtain ⟨x, y, w, h⟩ := a
  obtain ⟨x', y', w', h'⟩ := b
  obtain ⟨rfl, rfl⟩ := Span.mk.inj hx
  obtain ⟨rfl, rfl⟩ := Span.mk.inj hy
  rfl

/-- The area that two boxes share. -/
def shared (a b : BoundingBox) : ℚ := a.xSpan.overlap b.xSpan * a.ySpan.overlap b.ySpan

theorem shared_comm (a b : BoundingBox) : a.shared b = b.shared a := by
  rw [shared, shared, Span.overlap_comm a.xSpan, Span.overlap_comm a.ySpan]

theorem shared_nonneg (a b : BoundingBox) : 0 ≤ a.shared b :=
  mul_nonneg (Span.overlap_nonneg _ _) (Span.overlap_nonneg _ _)

theorem iou_eq_shared (a b : BoundingBox) :
    a.iou b = if a.area + b.area - a.shared b ≤ 0 then 0
      else a.shared b / (a.area + b.area - a.shared b) := rfl

theorem iou_comm (a b : BoundingBox) : a.iou b = b.iou a := by
  rw [iou_eq_shared, iou_eq_shared, shared_comm, add_comm a.area]

section Solid
variable {a b : BoundingBox} (ha : a.Solid) (hb : b.Solid)
include ha

theorem Solid.shared_le_area (b : BoundingBox) : a.shared b ≤ a.area :=
  mul_le_mul (Span.overlap_le_len _ _ ha.width.le) (Span.overlap_le_len _ _ ha.height.le)
    (Span.overlap_nonneg _ _) ha.width.le

/-- Sharing the whole area means sharing the whole length on each axis. -/
theorem Solid.within_of_shared (h : a.shared b = a.area) : a.Within b := by
  have hx : a.xSpan.overlap b.xSpan ≤ a.width := Span.overlap_le_len _ _ ha.width.le
  have hy : a.ySpan.overlap b.ySpan ≤ a.height := Span.overlap_le_len _ _ ha.height.le
  have hx' : a.xSpan.overlap b.xSpan = a.width := by
    by_contra hne
    have hless := lt_of_le_of_ne hx hne
    have hproduct : a.shared b < a.width * a.height :=
      mul_lt_mul hless hy (lt_of_le_of_ne (Span.overlap_nonneg _ _) ?_) ha.width.le
    · exact hproduct.ne h
    · intro hzero
      rw [shared, ← hzero, mul_zero] at h
      exact ha.area_pos.ne h
  have hy' : a.ySpan.overlap b.ySpan = a.height := by
    rw [shared, hx', area] at h
    exact mul_left_cancel₀ ha.width.ne' h
  rw [within_iff_spans]
  exact ⟨Span.inside_of_overlap_eq ha.width hx', Span.inside_of_overlap_eq ha.height hy'⟩

include hb

theorem Solid.union_pos : 0 < a.area + b.area - a.shared b := by
  have hshared := ha.shared_le_area b
  have harea := hb.area_pos
  linarith

theorem Solid.iou_eq : a.iou b = a.shared b / (a.area + b.area - a.shared b) := by
  rw [iou_eq_shared, if_neg (ha.union_pos hb).not_ge]

theorem Solid.iou_nonneg : 0 ≤ a.iou b := by
  rw [ha.iou_eq hb]
  exact div_nonneg (shared_nonneg a b) (ha.union_pos hb).le

theorem Solid.iou_le_one : a.iou b ≤ 1 := by
  rw [ha.iou_eq hb, div_le_one (ha.union_pos hb)]
  have hleft := ha.shared_le_area b
  have hright := hb.shared_le_area a
  rw [shared_comm] at hright
  linarith

/-- The union is no larger than the shared area exactly when both boxes are shared whole. -/
theorem Solid.iou_eq_one_iff : a.iou b = 1 ↔ a = b := by
  rw [ha.iou_eq hb, div_eq_one_iff_eq (ha.union_pos hb).ne']
  constructor
  · intro h
    have hleft := ha.shared_le_area b
    have hright := hb.shared_le_area a
    rw [shared_comm] at hright
    have hab := ha.within_of_shared (show a.shared b = a.area by linarith)
    have hba := hb.within_of_shared (show b.shared a = b.area by rw [shared_comm]; linarith)
    exact eq_of_spans (Span.eq_of_inside hab.1 hba.1) (Span.eq_of_inside hab.2 hba.2)
  · rintro rfl
    have hself : a.shared a = a.area := by
      rw [shared, Span.overlap_self ha.width.le, Span.overlap_self ha.height.le]
      rfl
    rw [hself, add_sub_cancel_right]

theorem Solid.shared_pos_iff : 0 < a.shared b ↔ a.Overlaps b := by
  rw [overlaps_iff_spans, ← Span.overlap_pos_iff ha.width hb.width,
    ← Span.overlap_pos_iff ha.height hb.height]
  constructor
  · intro h
    exact (pos_and_pos_or_neg_and_neg_of_mul_pos h).resolve_right fun hneg =>
      hneg.1.not_ge (Span.overlap_nonneg _ _)
  · rintro ⟨hx, hy⟩
    exact mul_pos hx hy

theorem Solid.iou_pos_iff : 0 < a.iou b ↔ a.Overlaps b := by
  rw [ha.iou_eq hb, div_pos_iff_of_pos_right (ha.union_pos hb)]
  exact ha.shared_pos_iff hb

theorem Solid.overlaps_iff_exists : a.Overlaps b ↔ ∃ px py, a.Holds px py ∧ b.Holds px py := by
  rw [overlaps_iff_spans, Span.meets_iff_exists_holds ha.width hb.width,
    Span.meets_iff_exists_holds ha.height hb.height]
  constructor
  · rintro ⟨⟨px, hax, hbx⟩, py, hay, hby⟩
    exact ⟨px, py, ⟨hax, hay⟩, hbx, hby⟩
  · rintro ⟨px, py, ⟨hax, hay⟩, hbx, hby⟩
    exact ⟨⟨px, hax, hbx⟩, py, hay, hby⟩

end Solid

theorem Overlaps.symm {a b : BoundingBox} (h : a.Overlaps b) : b.Overlaps a :=
  ⟨h.1.symm, h.2.symm⟩

/-- The half-plane tests, the quotient of the areas and the common point agree, and the quotient
measures how far two boxes are the same. -/
theorem overlap_agreement {a b : BoundingBox} (ha : a.Solid) (hb : b.Solid) :
    [a.intersects b = true, b.intersects a = true, 0 < a.iou b,
      ∃ px py, a.Holds px py ∧ b.Holds px py].TFAE ∧
    0 ≤ a.iou b ∧ a.iou b = b.iou a ∧ a.iou b ≤ 1 ∧ (a.iou b = 1 ↔ a = b) := by
  refine ⟨?_, ha.iou_nonneg hb, iou_comm a b, ha.iou_le_one hb, ha.iou_eq_one_iff hb⟩
  rw [intersects_iff, intersects_iff, ha.iou_pos_iff hb, ← ha.overlaps_iff_exists hb]
  tfae_have 1 → 2 := Overlaps.symm
  tfae_have 2 → 3 := Overlaps.symm
  tfae_have 3 → 4 := id
  tfae_have 4 → 1 := id
  tfae_finish

/-- A person half inside a forklift's box. -/
theorem overlap_agreement_half :
    0 < (⟨0, 0, 10, 10⟩ : BoundingBox).iou ⟨5, 0, 10, 10⟩ ∧
      (⟨0, 0, 10, 10⟩ : BoundingBox).iou ⟨5, 0, 10, 10⟩ ≠ 1 := by
  have hagree := overlap_agreement (a := ⟨0, 0, 10, 10⟩) (b := ⟨5, 0, 10, 10⟩)
    ⟨by norm_num, by norm_num⟩ ⟨by norm_num, by norm_num⟩
  refine ⟨(hagree.1.out 0 2).mp (by decide +kernel), fun hone => ?_⟩
  have hsame := hagree.2.2.2.2.mp hone
  exact absurd hsame (by decide +kernel)

end BoundingBox
end ForkliftSafety
