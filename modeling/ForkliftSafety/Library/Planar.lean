import Mathlib.Data.List.Nodup
import Mathlib.Data.List.Range

/-! The planes of an image stored one after the other, and the loops that come to all their
places. -/
namespace Planar

/-- Where plane `k` has the pixel `(r, c)`, when each plane has `H` rows of `W` pixels. -/
def index (H W k r c : ℕ) : ℕ := k * H * W + r * W + c

section Index
variable {H W k r c : ℕ}

theorem index_mod (hc : c < W) : index H W k r c % W = c := by
  rw [index, ← Nat.add_mul, Nat.add_comm, Nat.add_mul_mod_self_right, Nat.mod_eq_of_lt hc]

theorem index_div (hc : c < W) : index H W k r c / W = k * H + r := by
  have hW : 0 < W := by omega
  rw [index, ← Nat.add_mul, Nat.add_comm, Nat.add_mul_div_right _ _ hW, Nat.div_eq_of_lt hc,
    Nat.zero_add]

theorem index_div_mod (hr : r < H) (hc : c < W) : index H W k r c / W % H = r := by
  rw [index_div hc, Nat.add_comm, Nat.add_mul_mod_self_right, Nat.mod_eq_of_lt hr]

theorem index_div_div (hr : r < H) (hc : c < W) : index H W k r c / W / H = k := by
  have hH : 0 < H := by omega
  rw [index_div hc, Nat.add_comm, Nat.add_mul_div_right _ _ hH, Nat.div_eq_of_lt hr, Nat.zero_add]

theorem index_lt {K : ℕ} (hk : k < K) (hr : r < H) (hc : c < W) :
    index H W k r c < K * H * W := by
  have hrow : k * H + r + 1 ≤ K * H := by
    calc k * H + r + 1 ≤ k * H + H := by omega
      _ = (k + 1) * H := (Nat.succ_mul k H).symm
      _ ≤ K * H := Nat.mul_le_mul_right H hk
  calc index H W k r c < (k * H + r + 1) * W := by
        rw [index, Nat.add_mul, Nat.add_mul, Nat.one_mul]
        omega
    _ ≤ K * H * W := Nat.mul_le_mul_right W hrow

theorem index_decode (H W i : ℕ) : index H W (i / W / H) (i / W % H) (i % W) = i := by
  have hrows : i / W / H * H + i / W % H = i / W := Nat.div_add_mod' (i / W) H
  rw [index, ← Nat.add_mul, hrows]
  exact Nat.div_add_mod' i W

end Index

/-- The order of a loop over the rows, in it over the pixels, and in that over the planes. -/
def visits (K H W : ℕ) : List (ℕ × ℕ × ℕ) :=
  (List.range H).flatMap fun r => (List.range W).flatMap fun c =>
    (List.range K).map fun k => (k, r, c)

theorem mem_visits {K H W k r c : ℕ} : (k, r, c) ∈ visits K H W ↔ k < K ∧ r < H ∧ c < W := by
  simp only [visits, List.mem_flatMap, List.mem_map, List.mem_range, Prod.mk.injEq]
  constructor
  · rintro ⟨r', hr, c', hc, k', hk, rfl, rfl, rfl⟩
    exact ⟨hk, hr, hc⟩
  · rintro ⟨hk, hr, hc⟩
    exact ⟨r, hr, c, hc, k, hk, rfl, rfl, rfl⟩

theorem nodup_visits (K H W : ℕ) : (visits K H W).Nodup := by
  have hpixel (r c : ℕ) : ((List.range K).map fun k => (k, r, c)).Nodup :=
    List.Nodup.map (fun _ _ h => (Prod.mk.inj h).1) List.nodup_range
  have hrow (r : ℕ) :
      ((List.range W).flatMap fun c => (List.range K).map fun k => (k, r, c)).Nodup := by
    refine List.nodup_flatMap.mpr ⟨fun c _ => hpixel r c, List.nodup_range.imp ?_⟩
    intro c c' hne v hv hv'
    simp only [List.mem_map, List.mem_range] at hv hv'
    obtain ⟨_, _, rfl⟩ := hv
    obtain ⟨_, _, heq⟩ := hv'
    exact hne (Prod.mk.inj (Prod.mk.inj heq).2).2.symm
  refine List.nodup_flatMap.mpr ⟨fun r _ => hrow r, List.nodup_range.imp ?_⟩
  intro r r' hne v hv hv'
  simp only [List.mem_flatMap, List.mem_map, List.mem_range] at hv hv'
  obtain ⟨_, _, _, _, rfl⟩ := hv
  obtain ⟨_, _, _, _, heq⟩ := hv'
  exact hne (Prod.mk.inj (Prod.mk.inj heq).2).1.symm

def indexOf (H W : ℕ) (v : ℕ × ℕ × ℕ) : ℕ := index H W v.1 v.2.1 v.2.2

theorem indexOf_injOn {K H W : ℕ} {v w : ℕ × ℕ × ℕ} (hv : v ∈ visits K H W)
    (hw : w ∈ visits K H W) (h : indexOf H W v = indexOf H W w) : v = w := by
  obtain ⟨k, r, c⟩ := v
  obtain ⟨k', r', c'⟩ := w
  obtain ⟨_, hr, hc⟩ := mem_visits.mp hv
  obtain ⟨_, hr', hc'⟩ := mem_visits.mp hw
  have hindex : index H W k r c = index H W k' r' c' := h
  obtain rfl : c = c' := by rw [← index_mod hc, hindex, index_mod hc']
  obtain rfl : r = r' := by rw [← index_div_mod hr hc, hindex, index_div_mod hr' hc']
  obtain rfl : k = k' := by rw [← index_div_div (k := k) hr hc, hindex, index_div_div hr' hc']
  rfl

/-- The loops come to every place of the planes, and to none of them twice. -/
theorem indices_perm (K H W : ℕ) :
    ((visits K H W).map (indexOf H W)).Perm (List.range (K * H * W)) := by
  have hnodup : ((visits K H W).map (indexOf H W)).Nodup :=
    (nodup_visits K H W).map_on fun _ hv _ hw => indexOf_injOn hv hw
  rw [List.perm_ext_iff_of_nodup hnodup List.nodup_range]
  intro i
  rw [List.mem_map, List.mem_range]
  constructor
  · rintro ⟨⟨k, r, c⟩, hv, rfl⟩
    obtain ⟨hk, hr, hc⟩ := mem_visits.mp hv
    exact index_lt hk hr hc
  · intro hi
    have hW : 0 < W := Nat.pos_of_ne_zero fun h => by simp [h] at hi
    have hH : 0 < H := Nat.pos_of_ne_zero fun h => by simp [h] at hi
    have hk : i / W / H < K := by
      rw [Nat.div_div_eq_div_mul, Nat.div_lt_iff_lt_mul (Nat.mul_pos hW hH), Nat.mul_comm W,
        ← Nat.mul_assoc]
      exact hi
    exact ⟨(i / W / H, i / W % H, i % W), mem_visits.mpr ⟨hk, Nat.mod_lt _ hH, Nat.mod_lt _ hW⟩,
      index_decode H W i⟩

end Planar
