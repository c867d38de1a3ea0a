import Mathlib.Algebra.Order.Field.Basic
import Mathlib.Tactic.Linarith
import Mathlib.Tactic.Ring

/-! Spans on a line, given by an end and a length, and outward padding with and without a
clamp of the low end at zero. -/

structure Span (K : Type*) where
  lo : K
  len : K

namespace Span
variable {K : Type*} [Field K]

def hi (s : Span K) : K := s.lo + s.len

def pad (p : K) (s : Span K) : Span K := ⟨s.lo - p, s.len + 2 * p⟩

/-- The room on either side of a length in the middle of another. -/
def margin (d w : K) : K := (d - w) / 2

theorem hi_pad (p : K) (s : Span K) : (s.pad p).hi = s.hi + p := by
  simp only [hi, pad]
  ring

variable [LinearOrder K]

/-- The open spans have a common point, whenever neither is empty. -/
def Meets (a b : Span K) : Prop := a.lo < b.hi ∧ b.lo < a.hi

/-- The first span lies within the second. -/
def Inside (a b : Span K) : Prop := b.lo ≤ a.lo ∧ a.hi ≤ b.hi

theorem Meets.of_inside {a b q : Span K} (h : a.Meets q) (hab : a.Inside b) : b.Meets q :=
  ⟨hab.1.trans_lt h.1, h.2.trans_le hab.2⟩

/-- Padding with the low end and the length clamped separately. -/
def clampPad (p : K) (s : Span K) : Span K := ⟨max 0 (s.lo - p), max 0 (s.len + 2 * p)⟩

/-- The point lies strictly between the ends. -/
def Holds (s : Span K) (p : K) : Prop := s.lo < p ∧ p < s.hi

/-- The length that two spans share. -/
def overlap (a b : Span K) : K := max 0 (min a.hi b.hi - max a.lo b.lo)

theorem overlap_comm (a b : Span K) : a.overlap b = b.overlap a := by
  rw [overlap, overlap, min_comm, max_comm a.lo]

theorem overlap_nonneg (a b : Span K) : 0 ≤ a.overlap b := le_max_left 0 _

theorem overlap_self {s : Span K} (h : 0 ≤ s.len) : s.overlap s = s.len := by
  rw [overlap, min_self, max_self, hi, add_sub_cancel_left, max_eq_right h]

variable [IsStrictOrderedRing K]

/-- The clamp moves the whole span up, so the high end overshoots by what the low end lost. -/
theorem hi_clampPad {p : K} {s : Span K} (hp : 0 ≤ p) (hs : 0 ≤ s.len) :
    (s.clampPad p).hi = s.hi + p + max 0 (p - s.lo) := by
  have hlen : 0 ≤ s.len + 2 * p := by linarith
  simp only [hi, clampPad, max_eq_right hlen]
  rcases le_total s.lo p with h | h
  · rw [max_eq_left (by linarith), max_eq_right (by linarith)]
    ring
  · rw [max_eq_right (by linarith), max_eq_left (by linarith)]
    ring

theorem meets_clampPad_iff {p : K} {s q : Span K} (hp : 0 ≤ p) (hs : 0 ≤ s.len) :
    (s.clampPad p).Meets q ↔
      (s.lo - p < q.hi ∧ 0 < q.hi) ∧ q.lo < s.hi + p + max 0 (p - s.lo) := by
  rw [Meets, hi_clampPad hp hs]
  simp only [clampPad, max_lt_iff]
  tauto

/-- A larger padding reaches farther on both sides: what the clamp takes from the low end moves
the high end out by as much. -/
theorem clampPad_inside {p p' : K} {s : Span K} (hp : 0 ≤ p) (hpp : p ≤ p') (hs : 0 ≤ s.len) :
    (s.clampPad p).Inside (s.clampPad p') := by
  constructor
  · exact max_le_max le_rfl (by linarith)
  · rw [hi_clampPad hp hs, hi_clampPad (hp.trans hpp) hs]
    have hover : max 0 (p - s.lo) ≤ max 0 (p' - s.lo) := max_le_max le_rfl (by linarith)
    linarith

/-- Nothing on the positive side of zero that the padded span meets is lost by the clamp. -/
theorem Meets.clampPad {p : K} {s q : Span K} (hp : 0 ≤ p) (hs : 0 ≤ s.len)
    (hq : 0 < q.hi) (h : (s.pad p).Meets q) : (s.clampPad p).Meets q := by
  rw [meets_clampPad_iff hp hs]
  obtain ⟨hlo, hhi⟩ := h
  rw [hi_pad] at hhi
  exact ⟨⟨hlo, hq⟩, hhi.trans_le (le_add_of_nonneg_right (le_max_left 0 _))⟩

/-- What the clamped span meets, the padded span meets unless it starts in the overshoot. -/
theorem meets_pad_iff_of_clampPad {p : K} {s q : Span K} (hp : 0 ≤ p) (hs : 0 ≤ s.len)
    (h : (s.clampPad p).Meets q) : (s.pad p).Meets q ↔ q.lo < s.hi + p := by
  obtain ⟨⟨hlo, _⟩, _⟩ := (meets_clampPad_iff hp hs).mp h
  rw [Meets, hi_pad]
  exact and_iff_right hlo

/-- The clamped span stays within the padding on both sides exactly when nothing is clamped. -/
theorem clampPad_within_iff {p : K} {s : Span K} (hp : 0 ≤ p) (hs : 0 ≤ s.len) :
    ((s.pad p).lo ≤ (s.clampPad p).lo ∧ (s.clampPad p).hi ≤ (s.pad p).hi) ↔ p ≤ s.lo := by
  rw [hi_clampPad hp hs, hi_pad]
  have hlo : (s.pad p).lo ≤ (s.clampPad p).lo := le_max_right 0 _
  constructor
  · rintro ⟨_, hhi⟩
    have hmax := le_max_right 0 (p - s.lo)
    linarith
  · intro h
    refine ⟨hlo, ?_⟩
    rw [max_eq_left (by linarith), add_zero]

theorem max_lo_lt_min_hi_iff {a b : Span K} (ha : 0 < a.len) (hb : 0 < b.len) :
    max a.lo b.lo < min a.hi b.hi ↔ a.Meets b := by
  have ha' : a.lo < a.hi := lt_add_of_pos_right a.lo ha
  have hb' : b.lo < b.hi := lt_add_of_pos_right b.lo hb
  rw [max_lt_iff, lt_min_iff, lt_min_iff, Meets]
  tauto

theorem overlap_pos_iff {a b : Span K} (ha : 0 < a.len) (hb : 0 < b.len) :
    0 < a.overlap b ↔ a.Meets b := by
  rw [← max_lo_lt_min_hi_iff ha hb, overlap, lt_max_iff, sub_pos]
  exact or_iff_right (lt_irrefl 0)

/-- Two spans meet exactly when some point lies strictly inside both. -/
theorem meets_iff_exists_holds {a b : Span K} (ha : 0 < a.len) (hb : 0 < b.len) :
    a.Meets b ↔ ∃ p, a.Holds p ∧ b.Holds p := by
  rw [← max_lo_lt_min_hi_iff ha hb]
  constructor
  · intro h
    obtain ⟨p, hlo, hhi⟩ := exists_between h
    rw [max_lt_iff] at hlo
    rw [lt_min_iff] at hhi
    exact ⟨p, ⟨hlo.1, hhi.1⟩, hlo.2, hhi.2⟩
  · rintro ⟨p, hp, hq⟩
    exact (max_lt hp.1 hq.1).trans (lt_min hp.2 hq.2)

theorem overlap_le_len (a b : Span K) (ha : 0 ≤ a.len) : a.overlap b ≤ a.len := by
  apply max_le ha
  have hhi : min a.hi b.hi ≤ a.lo + a.len := min_le_left _ _
  have hlo : a.lo ≤ max a.lo b.lo := le_max_left _ _
  linarith

/-- Only a span that reaches as far on both sides shares the whole length. -/
theorem inside_of_overlap_eq {a b : Span K} (ha : 0 < a.len) (h : a.overlap b = a.len) :
    a.Inside b := by
  have hshare : min a.hi b.hi - max a.lo b.lo = a.len := by
    rcases max_choice 0 (min a.hi b.hi - max a.lo b.lo) with hmax | hmax
    · rw [overlap, hmax] at h
      exact absurd h ha.ne
    · rw [← h, overlap, hmax]
  have hhi : min a.hi b.hi ≤ a.lo + a.len := min_le_left _ _
  have hlo : a.lo ≤ max a.lo b.lo := le_max_left _ _
  have hhi' : min a.hi b.hi ≤ b.hi := min_le_right _ _
  have hlo' : b.lo ≤ max a.lo b.lo := le_max_right _ _
  constructor
  · linarith
  · rw [hi]
    linarith

theorem eq_of_inside {a b : Span K} (hab : a.Inside b) (hba : b.Inside a) : a = b := by
  obtain ⟨lo, len⟩ := a
  obtain ⟨lo', len'⟩ := b
  obtain rfl : lo = lo' := le_antisymm hba.1 hab.1
  obtain rfl : len = len' :=
    le_antisymm (le_of_add_le_add_left hab.2) (le_of_add_le_add_left hba.2)
  rfl

end Span
