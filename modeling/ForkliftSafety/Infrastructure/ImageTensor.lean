import ForkliftSafety.Library.Planar
import ForkliftSafety.Library.Scatter
import Mathlib.Algebra.Group.Nat.Even
import Mathlib.Data.Int.Basic
import Mathlib.Data.List.GetD

/-! `OnnxInferenceEngine::infer`: how the channels of the resized image, interleaved pixel by pixel,
become the planes of the tensor. -/
namespace ForkliftSafety

/-- The value of an `int` expression; one that does not fit is undefined behaviour. -/
def int32 (i : ℤ) : Option ℤ := if -2147483648 ≤ i ∧ i ≤ 2147483647 then some i else none

/-- An `int` as the place of an element. -/
def offset : ℤ → Option ℕ
  | .ofNat n => some n
  | .negSucc _ => none

/-- `k * H * W + r * W + c`. -/
def blobIndex (H W k r c : ℤ) : Option ℕ := do
  let planeRows ← int32 (k * H)
  let plane ← int32 (planeRows * W)
  let rows ← int32 (r * W)
  let row ← int32 (plane + rows)
  offset (← int32 (row + c))

/-- `c * 3 + k`. -/
def rowIndex (k c : ℤ) : Option ℕ := do
  let pixel ← int32 (c * 3)
  offset (← int32 (pixel + k))

/-- `blob_data`, and the places that were written in it and read in the rows of the image. -/
structure Blob (α : Type) where
  data : List α
  writes : List ℕ := []
  reads : List (ℕ × ℕ) := []

section Loops
variable {α : Type}

/-- The statement for channel `k`. -/
def copyChannel (H W : ℤ) (r c : ℕ) (row : List α) (b : Blob α) (k : ℕ) : Option (Blob α) := do
  let i ← blobIndex H W k r c
  let j ← rowIndex k c
  let v ← row[j]?
  if i < b.data.length then
    some { data := b.data.set i v, writes := b.writes ++ [i], reads := b.reads ++ [(r, j)] }
  else none

/-- `rgb` is given as its rows, whose elements are three channels for each pixel. -/
def fillBlob (zero : α) (H W : ℤ) (rgb : List (List α)) : Option (Blob α) := do
  let planes ← int32 (3 * H)
  let size ← offset (← int32 (planes * W))
  (List.range H.toNat).foldlM (fun b r => do
    let row ← rgb[r]?
    (List.range W.toNat).foldlM (fun b c => [0, 1, 2].foldlM (copyChannel H W r c row) b) b)
    { data := List.replicate size zero }

end Loops

section Indices

theorem int32_eq {i : ℤ} {n : ℕ} (hi : i = n) (h : n < 2 ^ 31) : int32 i = some (n : ℤ) := by
  rw [hi, int32, if_pos (by omega)]

@[simp] theorem offset_natCast (n : ℕ) : offset n = some n := rfl

theorem blobIndex_eq {H W k r c : ℕ} (hk : k < 3) (hr : r < H) (hc : c < W)
    (hsize : 3 * H * W < 2 ^ 31) : blobIndex H W k r c = some (Planar.index H W k r c) := by
  have hlt : k * H * W + r * W + c < 3 * H * W := Planar.index_lt hk hr hc
  have hle : k * H ≤ k * H * W := Nat.le_mul_of_pos_right _ (by omega)
  have hplaneRows := int32_eq (Int.natCast_mul k H).symm (by omega)
  have hplane := int32_eq (Int.natCast_mul (k * H) W).symm (by omega)
  have hrows := int32_eq (Int.natCast_mul r W).symm (by omega)
  have hrow := int32_eq (Int.natCast_add (k * H * W) (r * W)).symm (by omega)
  have hsum := int32_eq (Int.natCast_add (k * H * W + r * W) c).symm (by omega)
  simp only [blobIndex, hplaneRows, hplane, hrows, hrow, hsum, Option.bind_eq_bind,
    Option.bind_some, offset_natCast, Planar.index]

theorem rowIndex_eq {k c : ℕ} (h : c * 3 + k < 2 ^ 31) : rowIndex k c = some (c * 3 + k) := by
  have hpixel : int32 ((c : ℤ) * 3) = some ((c * 3 : ℕ) : ℤ) := int32_eq (by omega) (by omega)
  have hsum := int32_eq (Int.natCast_add (c * 3) k).symm h
  simp only [rowIndex, hpixel, hsum, Option.bind_eq_bind, Option.bind_some, offset_natCast]

end Indices

/-- `rgb` after the conversions: `H` rows of `W` pixels. -/
structure RgbImage (α : Type) (H W : ℕ) where
  rows : List (List α)
  height : rows.length = H
  width : ∀ row ∈ rows, row.length = 3 * W

namespace RgbImage
variable {α : Type} {H W : ℕ}

/-- The element of a row, which is channel `j % 3` of pixel `j / 3`. -/
def element (rgb : RgbImage α H W) (r j : ℕ) : Option α := rgb.rows[r]?.bind (·[j]?)

theorem exists_row (rgb : RgbImage α H W) {r : ℕ} (hr : r < H) :
    ∃ row, rgb.rows[r]? = some row ∧ row.length = 3 * W := by
  have hlt : r < rgb.rows.length := rgb.height.symm ▸ hr
  exact ⟨rgb.rows[r], List.getElem?_eq_getElem hlt, rgb.width _ (List.getElem_mem hlt)⟩

theorem ext_element {rgb rgb' : RgbImage α H W}
    (h : ∀ r < H, ∀ j < 3 * W, rgb.element r j = rgb'.element r j) : rgb = rgb' := by
  have hrows : rgb.rows = rgb'.rows := by
    apply List.ext_getElem (rgb.height.trans rgb'.height.symm)
    intro r hr hr'
    have hwidth := rgb.width _ (List.getElem_mem hr)
    have hwidth' := rgb'.width _ (List.getElem_mem hr')
    apply List.ext_getElem?
    intro j
    rcases lt_or_ge j (3 * W) with hj | hj
    · have hrow := h r (rgb.height ▸ hr) j hj
      simpa [element, List.getElem?_eq_getElem hr, List.getElem?_eq_getElem hr'] using hrow
    · rw [List.getElem?_eq_none (by omega), List.getElem?_eq_none (by omega)]
  cases rgb
  cases rgb'
  cases hrows
  rfl

end RgbImage

section Run
variable {α : Type} {H W : ℕ}

/-- One statement, as an assignment that does not fail. -/
def Blob.assign (zero : α) (rgb : RgbImage α H W) (b : Blob α) (v : ℕ × ℕ × ℕ) : Blob α where
  data := b.data.set (Planar.indexOf H W v) ((rgb.element v.2.1 (v.2.2 * 3 + v.1)).getD zero)
  writes := b.writes ++ [Planar.indexOf H W v]
  reads := b.reads ++ [(v.2.1, v.2.2 * 3 + v.1)]

/-- What is assigned where. -/
def assignment (zero : α) (rgb : RgbImage α H W) (v : ℕ × ℕ × ℕ) : ℕ × α :=
  (Planar.indexOf H W v, (rgb.element v.2.1 (v.2.2 * 3 + v.1)).getD zero)

theorem foldl_assign (zero : α) (rgb : RgbImage α H W) (vs : List (ℕ × ℕ × ℕ)) (b : Blob α) :
    vs.foldl (Blob.assign zero rgb) b =
      { data := Scatter.write b.data (vs.map (assignment zero rgb))
        writes := b.writes ++ vs.map (Planar.indexOf H W)
        reads := b.reads ++ vs.map fun v => (v.2.1, v.2.2 * 3 + v.1) } := by
  induction vs generalizing b with
  | nil => simp [Scatter.write]
  | cons v vs ih =>
    rw [List.foldl_cons, ih]
    simp [Blob.assign, assignment, Scatter.write]

theorem copyChannel_eq (zero : α) (rgb : RgbImage α H W) (hsize : 3 * H * W < 2 ^ 31) {k r c : ℕ}
    (hk : k < 3) (hr : r < H) (hc : c < W) {row : List α} (hrow : rgb.rows[r]? = some row)
    (hwidth : row.length = 3 * W) {b : Blob α} (hb : b.data.length = 3 * H * W) :
    copyChannel H W r c row b k = some (b.assign zero rgb (k, r, c)) := by
  have hindex := blobIndex_eq hk hr hc hsize
  have hplace : Planar.index H W k r c < b.data.length := hb ▸ Planar.index_lt hk hr hc
  have hrowLt : c * 3 + k < row.length := by omega
  have hW : 3 * W ≤ 3 * H * W := by
    calc 3 * W = 3 * 1 * W := by omega
      _ ≤ 3 * H * W := Nat.mul_le_mul_right W (by omega)
  have hplace' := rowIndex_eq (k := k) (c := c) (by omega)
  have helement : rgb.element r (c * 3 + k) = some row[c * 3 + k] := by
    rw [RgbImage.element, hrow, Option.bind_some, List.getElem?_eq_getElem hrowLt]
  simp only [copyChannel, hindex, hplace', List.getElem?_eq_getElem hrowLt, Option.bind_eq_bind,
    Option.bind_some, if_pos hplace, Blob.assign, Planar.indexOf, helement, Option.getD_some]

/-- The loops make all assignments, each inside the tensor and inside its row. -/
theorem fillBlob_eq (zero : α) (rgb : RgbImage α H W) (hW : 0 < W) (hsize : 3 * H * W < 2 ^ 31) :
    fillBlob zero H W rgb.rows = some ((Planar.visits 3 H W).foldl (Blob.assign zero rgb)
      { data := List.replicate (3 * H * W) zero }) := by
  have hle : 3 * H ≤ 3 * H * W := Nat.le_mul_of_pos_right _ hW
  have hplanes : int32 (3 * (H : ℤ)) = some ((3 * H : ℕ) : ℤ) := int32_eq (by omega) (by omega)
  have hblob := int32_eq (Int.natCast_mul (3 * H) W).symm hsize
  let I : Blob α → Prop := fun b => b.data.length = 3 * H * W
  have hassign (b : Blob α) (v : ℕ × ℕ × ℕ) (hb : I b) : I (b.assign zero rgb v) := by
    simpa [I, Blob.assign] using hb
  have hrows := Scatter.foldlM_eq_foldl (I := I) (l := List.range H)
    (f := fun b r => do
      let row ← rgb.rows[r]?
      (List.range W).foldlM (fun b c => [0, 1, 2].foldlM (copyChannel H W r c row) b) b)
    (g := fun b r => (List.range W).foldl
      (fun b c => [0, 1, 2].foldl (fun b k => b.assign zero rgb (k, r, c)) b) b)
    (s := { data := List.replicate (3 * H * W) zero }) ?_ (by simp [I])
  · have hflat : Planar.visits 3 H W = (List.range H).flatMap fun r =>
        (List.range W).flatMap fun c => [0, 1, 2].map fun k => (k, r, c) := rfl
    simp only [fillBlob, hplanes, hblob, Option.bind_eq_bind, Option.bind_some, offset_natCast,
      Int.toNat_natCast, hflat, List.foldl_flatMap, List.foldl_map]
    exact hrows.1
  · intro r hr b hb
    rw [List.mem_range] at hr
    obtain ⟨row, hrow, hwidth⟩ := rgb.exists_row hr
    rw [hrow]
    apply Scatter.foldlM_eq_foldl (I := I) (l := List.range W) _ hb
    intro c hc b hb
    rw [List.mem_range] at hc
    apply Scatter.foldlM_eq_foldl (I := I) _ hb
    intro k hk b hb
    have hk' : k < 3 := by simp at hk; omega
    exact ⟨copyChannel_eq zero rgb hsize hk' hr hc hrow hwidth hb, hassign b _ hb⟩

/-- What `blob_data` is for an image. -/
structure SplitsPlanes (rgb : RgbImage α H W) (b : Blob α) : Prop where
  size : b.data.length = 3 * H * W
  /-- Every place is written, and none twice. -/
  writes : b.writes.Perm (List.range (3 * H * W))
  reads : ∀ p ∈ b.reads, p.1 < H ∧ p.2 < 3 * W
  layout : ∀ k r c, k < 3 → r < H → c < W →
    b.data[k * H * W + r * W + c]? = rgb.element r (c * 3 + k)

theorem RgbImage.element_isSome (rgb : RgbImage α H W) {r j : ℕ} (hr : r < H) (hj : j < 3 * W) :
    (rgb.element r j).isSome := by
  obtain ⟨row, hrow, hwidth⟩ := rgb.exists_row hr
  rw [element, hrow, Option.bind_some, List.getElem?_eq_getElem (hwidth ▸ hj)]
  rfl

theorem foldl_assign_splits (zero : α) (rgb : RgbImage α H W) :
    SplitsPlanes rgb ((Planar.visits 3 H W).foldl (Blob.assign zero rgb)
      { data := List.replicate (3 * H * W) zero }) := by
  have hplaces : ((Planar.visits 3 H W).map (assignment zero rgb)).map Prod.fst =
      (Planar.visits 3 H W).map (Planar.indexOf H W) := by
    rw [List.map_map]
    rfl
  have hnodup : (((Planar.visits 3 H W).map (assignment zero rgb)).map Prod.fst).Nodup := by
    rw [hplaces]
    exact (Planar.indices_perm 3 H W).nodup_iff.mpr List.nodup_range
  rw [foldl_assign]
  refine ⟨by simp, ?_, ?_, ?_⟩
  · rw [List.nil_append]
    exact Planar.indices_perm 3 H W
  · intro p hp
    obtain ⟨⟨k, r, c⟩, hv, rfl⟩ := List.mem_map.mp (List.nil_append _ ▸ hp)
    obtain ⟨hk, hr, hc⟩ := Planar.mem_visits.mp hv
    have hplace : c * 3 + k < 3 * W := by omega
    exact ⟨hr, hplace⟩
  · intro k r c hk hr hc
    have hmem : assignment zero rgb (k, r, c) ∈
        (Planar.visits 3 H W).map (assignment zero rgb) :=
      List.mem_map_of_mem (Planar.mem_visits.mpr ⟨hk, hr, hc⟩)
    have hlt : Planar.index H W k r c < (List.replicate (3 * H * W) zero).length := by
      rw [List.length_replicate]
      exact Planar.index_lt hk hr hc
    have hwrite := Scatter.getElem?_write hnodup hmem hlt
    obtain ⟨v, hv⟩ := Option.isSome_iff_exists.mp
      (rgb.element_isSome (j := c * 3 + k) hr (by omega))
    rw [hv]
    have hvalue : (assignment zero rgb (k, r, c)).2 = v := by
      simp only [assignment, hv, Option.getD_some]
    rw [← hvalue]
    exact hwrite

/-- Images with the same tensor are the same. -/
theorem SplitsPlanes.injective {rgb rgb' : RgbImage α H W} {b b' : Blob α}
    (h : SplitsPlanes rgb b) (h' : SplitsPlanes rgb' b') (hdata : b.data = b'.data) :
    rgb = rgb' := by
  apply RgbImage.ext_element
  intro r hr j hj
  have hchannel : j / 3 * 3 + j % 3 = j := Nat.div_add_mod' j 3
  have hleft := h.layout (j % 3) r (j / 3) (Nat.mod_lt j (by omega)) hr (by omega)
  have hright := h'.layout (j % 3) r (j / 3) (Nat.mod_lt j (by omega)) hr (by omega)
  rw [hchannel] at hleft hright
  rw [← hleft, ← hright, hdata]

/-- The image that a tensor is read as. -/
def interleave (zero : α) (H W : ℕ) (data : List α) : RgbImage α H W where
  rows := (List.range H).map fun r => (List.range (3 * W)).map fun j =>
    data.getD (Planar.index H W (j % 3) r (j / 3)) zero
  height := by rw [List.length_map, List.length_range]
  width row hrow := by
    obtain ⟨r, _, rfl⟩ := List.mem_map.mp hrow
    rw [List.length_map, List.length_range]

theorem interleave_element (zero : α) {data : List α} {k r c : ℕ} (hk : k < 3) (hr : r < H)
    (hc : c < W) : (interleave zero H W data).element r (c * 3 + k) =
      some (data.getD (Planar.index H W k r c) zero) := by
  have hmod : (c * 3 + k) % 3 = k := by omega
  have hdiv : (c * 3 + k) / 3 = c := by omega
  have hj : c * 3 + k < 3 * W := by omega
  simp [RgbImage.element, interleave, hr, hj, hmod, hdiv]

theorem SplitsPlanes.interleave {zero : α} {data : List α} {b : Blob α}
    (h : SplitsPlanes (interleave zero H W data) b) (hdata : data.length = 3 * H * W) :
    b.data = data := by
  apply List.ext_getElem (h.size.trans hdata.symm)
  intro i hi hi'
  obtain ⟨⟨k, r, c⟩, hv, hindex⟩ : ∃ v ∈ Planar.visits 3 H W, Planar.indexOf H W v = i := by
    rw [← List.mem_map]
    exact (Planar.indices_perm 3 H W).mem_iff.mpr (List.mem_range.mpr (hdata ▸ hi'))
  obtain ⟨hk, hr, hc⟩ := Planar.mem_visits.mp hv
  have hplace : k * H * W + r * W + c = i := hindex
  have hentry := h.layout k r c hk hr hc
  have hindex' : Planar.index H W k r c = i := hindex
  rw [interleave_element zero hk hr hc, hindex', hplace, List.getElem?_eq_getElem hi,
    Option.some.injEq, List.getD_eq_getElem _ _ hi'] at hentry
  exact hentry

/-- The loops write the whole tensor, each place once, from inside the rows; and every tensor of the
size is the tensor of exactly one image. -/
theorem imageTensor_layout (zero : α) (hW : 0 < W) (hsize : 3 * H * W < 2 ^ 31) :
    (∀ rgb : RgbImage α H W, ∃ b, fillBlob zero H W rgb.rows = some b ∧ SplitsPlanes rgb b) ∧
    ∀ data : List α, data.length = 3 * H * W →
      ∃! rgb : RgbImage α H W, ∃ b, fillBlob zero H W rgb.rows = some b ∧ b.data = data := by
  have hfill (rgb : RgbImage α H W) := fillBlob_eq zero rgb hW hsize
  refine ⟨fun rgb => ⟨_, hfill rgb, foldl_assign_splits zero rgb⟩, fun data hdata => ?_⟩
  refine ⟨interleave zero H W data, ⟨_, hfill _, ?_⟩, ?_⟩
  · exact (foldl_assign_splits zero _).interleave hdata
  · rintro rgb ⟨b, hb, rfl⟩
    obtain rfl := Option.some.inj ((hfill rgb).symm.trans hb)
    have hback := (foldl_assign_splits zero (interleave zero H W _)).interleave hdata
    exact (foldl_assign_splits zero rgb).injective (foldl_assign_splits zero _) hback.symm

/-- Two pixels side by side. -/
theorem imageTensor_layout_pair : ∃ b : Blob ℕ, fillBlob 0 1 2 [[1, 2, 3, 4, 5, 6]] = some b ∧
    b.data = [1, 4, 2, 5, 3, 6] ∧ b.writes.Perm (List.range 6) := by
  let rgb : RgbImage ℕ 1 2 := ⟨[[1, 2, 3, 4, 5, 6]], rfl, by simp⟩
  obtain ⟨b, hb, hsplits⟩ := (imageTensor_layout 0 (by omega) (by omega)).1 rgb
  refine ⟨b, hb, ?_, hsplits.writes⟩
  have hrun : (fillBlob 0 1 2 [[1, 2, 3, 4, 5, 6]]).map Blob.data = some [1, 4, 2, 5, 3, 6] := by
    decide
  have hb' : fillBlob 0 1 2 [[1, 2, 3, 4, 5, 6]] = some b := hb
  rw [hb', Option.map_some, Option.some.injEq] at hrun
  exact hrun

end Run

end ForkliftSafety
