import Mathlib.Algebra.Order.Floor.Ring
import ForkliftSafety.Library.Span

/-! Spans drawn with a factor behind an offset or cut off to whole numbers, and pictures that are
drawn in the middle of an element as large as it lets them be. -/

namespace Span
variable {K : Type*} [Field K]

def place (off s : K) (a : Span K) : Span K := ⟨off + a.lo * s, a.len * s⟩

@[simp] theorem place_lo (off s : K) (a : Span K) : (a.place off s).lo = off + a.lo * s := rfl

@[simp] theorem place_hi (off s : K) (a : Span K) : (a.place off s).hi = off + a.hi * s := by
  simp only [hi, place]
  ring

variable [LinearOrder K] {off s : K} {a b : Span K}

theorem Inside.trans {c : Span K} (hab : a.Inside b) (hbc : b.Inside c) : a.Inside c :=
  ⟨hbc.1.trans hab.1, hab.2.trans hbc.2⟩

theorem place_inside_start_iff {f d : K} :
    ((⟨0, f⟩ : Span K).place off s).Inside ⟨0, d⟩ ↔ 0 ≤ off ∧ off + f * s ≤ d := by
  rw [Inside, place_lo, place_hi]
  simp only [hi, zero_mul, add_zero, zero_add]

variable [IsStrictOrderedRing K]

/-- Drawing in proportion keeps which spans meet. -/
theorem place_meets_iff (hs : 0 < s) : (a.place off s).Meets (b.place off s) ↔ a.Meets b := by
  simp only [Meets, place_lo, place_hi, add_lt_add_iff_left, mul_lt_mul_iff_left₀ hs]

theorem place_inside_iff (hs : 0 < s) : (a.place off s).Inside (b.place off s) ↔ a.Inside b := by
  simp only [Inside, place_lo, place_hi, add_le_add_iff_left, mul_le_mul_iff_left₀ hs]

section Cut
variable [FloorRing K]

/-- The span with its fractions cut off. -/
def cut (a : Span K) : Span K := ⟨⌊a.lo⌋, ⌊a.len⌋⟩

/-- The span with room for as much more at its high end. -/
def extend (p : K) (a : Span K) : Span K := ⟨a.lo, a.len + p⟩

/-- Against whole numbers a cut span reaches no farther than it did. -/
theorem Meets.of_cut {m n : ℤ} (h : a.cut.Meets ⟨m, n⟩) : a.Meets ⟨m, n⟩ := by
  obtain ⟨hlo, hhi⟩ := h
  simp only [cut, hi] at hlo hhi ⊢
  constructor
  · have hnext : a.lo < (⌊a.lo⌋ : K) + 1 := Int.lt_floor_add_one _
    have hwhole : (⌊a.lo⌋ : K) + 1 ≤ (m : K) + n := by
      exact_mod_cast hlo
    exact hnext.trans_le hwhole
  · exact hhi.trans_le (add_le_add (Int.floor_le _) (Int.floor_le _))

/-- What is cut off is less than two. -/
theorem Meets.cut_extend {q : Span K} (h : a.Meets q) : (a.cut.extend 2).Meets q := by
  obtain ⟨hlo, hhi⟩ := h
  have hfirst : a.lo < (⌊a.lo⌋ : K) + 1 := Int.lt_floor_add_one _
  have hsecond : a.len < (⌊a.len⌋ : K) + 1 := Int.lt_floor_add_one _
  have hfloor : (⌊a.lo⌋ : K) ≤ a.lo := Int.floor_le _
  rw [hi] at hhi
  constructor
  · exact hfloor.trans_lt hlo
  · show q.lo < (⌊a.lo⌋ : K) + (⌊a.len⌋ + 2)
    linarith

end Cut

end Span

/-- Where a picture is drawn: offsets and factors along the two axes. -/
structure Letterbox (K : Type*) where
  offX : K
  offY : K
  sx : K
  sy : K

namespace Letterbox
variable {K : Type*} [Field K] [LinearOrder K]

/-- One factor for both axes, and the same room on both sides. -/
def contain (dw dh fw fh : K) : Letterbox K where
  offX := Span.margin dw (fw * min (dw / fw) (dh / fh))
  offY := Span.margin dh (fh * min (dw / fw) (dh / fh))
  sx := min (dw / fw) (dh / fh)
  sy := min (dw / fw) (dh / fh)

/-- The whole picture of the given size lies within the element. -/
def Shows (l : Letterbox K) (dw dh fw fh : K) : Prop :=
  ((⟨0, fw⟩ : Span K).place l.offX l.sx).Inside ⟨0, dw⟩ ∧
    ((⟨0, fh⟩ : Span K).place l.offY l.sy).Inside ⟨0, dh⟩

variable [IsStrictOrderedRing K] {dw dh fw fh : K}

section Contain
variable (hdw : 0 < dw) (hdh : 0 < dh) (hfw : 0 < fw) (hfh : 0 < fh)
include hdw hdh hfw hfh

theorem contain_pos : 0 < (contain dw dh fw fh).sx :=
  lt_min (div_pos hdw hfw) (div_pos hdh hfh)

omit hdw hdh in
theorem contain_shows : (contain dw dh fw fh).Shows dw dh fw fh := by
  have hw : fw * min (dw / fw) (dh / fh) ≤ dw := by
    rw [mul_comm, ← le_div_iff₀ hfw]
    exact min_le_left _ _
  have hh : fh * min (dw / fw) (dh / fh) ≤ dh := by
    rw [mul_comm, ← le_div_iff₀ hfh]
    exact min_le_right _ _
  constructor
  · rw [Span.place_inside_start_iff]
    constructor <;> simp only [contain, Span.margin] <;> linarith
  · rw [Span.place_inside_start_iff]
    constructor <;> simp only [contain, Span.margin] <;> linarith

omit hdw hdh in
/-- No larger factor leaves room for the picture. -/
theorem contain_largest {l : Letterbox K} (hsame : l.sx = l.sy) (h : l.Shows dw dh fw fh) :
    l.sx ≤ (contain dw dh fw fh).sx := by
  rw [Shows, Span.place_inside_start_iff, Span.place_inside_start_iff] at h
  obtain ⟨⟨hlo, hhi⟩, ⟨hlo', hhi'⟩⟩ := h
  apply le_min
  · rw [le_div_iff₀ hfw]
    linarith
  · rw [le_div_iff₀ hfh, hsame]
    linarith

end Contain

end Letterbox
