import ForkliftSafety.Infrastructure.YoloV8Postprocessor
import ForkliftSafety.Library.GreedyBounds
import ForkliftSafety.Library.Ranking

/-! What the anchors of classes that `class_map` does not name do to the persons and forklifts that
`postprocess_yolov8` returns. -/
namespace ForkliftSafety

/-- The suppression of `NMSBoxes` between two candidates. -/
def blocksBy (iou : BoundingBox → BoundingBox → ℚ) (nmsThreshold : ℚ) (k c : Candidate) : Bool :=
  decide (nmsThreshold < iou k.box.toBox c.box.toBox)

/-- The candidates in the order in which `NMSBoxes` visits them. -/
def ranked (confThreshold : ℚ) (cands : List Candidate) : List Candidate :=
  (cands.filter fun c => decide (confThreshold < c.score)).insertionSort fun c d =>
    d.score ≤ c.score

theorem map_getD_range {α : Type*} (d : α) (as : List α) :
    (List.range as.length).map (fun i => as.getD i d) = as := by
  apply List.ext_getElem
  · simp
  · intro i hi hi'
    simp [hi']

theorem sortedNms_map (iou : BoundingBox → BoundingBox → ℚ) (cands : List Candidate) (t n : ℚ) :
    (sortedNms iou (cands.map Candidate.box) (cands.map Candidate.score) t n).map
        (fun i => cands.getD i {}) =
      Greedy.select (blocksBy iou n) (ranked t cands) := by
  have hbox (i : ℕ) : (cands.map Candidate.box).getD i {} = (cands.getD i {}).box :=
    List.getD_map cands {} Candidate.box
  have hscore (i : ℕ) : (cands.map Candidate.score).getD i 0 = (cands.getD i {}).score :=
    List.getD_map cands {} Candidate.score
  have hranked : ranked t cands = (((List.range cands.length).filter fun i =>
      decide (t < (cands.getD i {}).score)).insertionSort fun i j =>
        (cands.getD j {}).score ≤ (cands.getD i {}).score).map fun i => cands.getD i {} := by
    rw [ranked, List.map_insertionSort
      (r := fun i j => (cands.getD j {}).score ≤ (cands.getD i {}).score)
      (s := fun c d => d.score ≤ c.score)]
    · conv_lhs => rw [← map_getD_range {} cands, List.filter_map]
      rfl
    · intro i _ j _
      rfl
  rw [hranked, Greedy.select_map]
  simp only [sortedNms, List.length_map, hbox, hscore]
  rfl

/-- With an `NMSBoxes` that sorts stably, the output is the cut selection of the ranked
candidates. -/
theorem postprocessYolov8_sortedNms (iou : BoundingBox → BoundingBox → ℚ) (raw : ℕ → ℚ)
    (numAnchors numClasses : ℕ) (params : PostprocessParams) :
    postprocessYolov8 (sortedNms iou) raw numAnchors numClasses params =
      if params.maxDetections < 0 then none
      else some (((Greedy.select (blocksBy iou params.nmsThreshold)
        (ranked params.confThreshold (candidates raw numAnchors numClasses params))).take
          params.maxDetections.toNat).map (toDetection params)) := by
  rw [postprocessYolov8_eq (sortedNms_visitsByScore iou).returnsByScore, ← sortedNms_map,
    ← List.map_take, List.map_map]
  rfl

/-- Leaving candidates out before or after they are ranked makes no difference. -/
theorem ranked_filter (t : ℚ) (p : Candidate → Bool) (cands : List Candidate) :
    ranked t (cands.filter p) = (ranked t cands).filter p := by
  let r : Candidate → Candidate → Prop := fun c d => d.score ≤ c.score
  have htotal : Std.Total r := ⟨fun c d => le_total d.score c.score⟩
  have htrans : IsTrans Candidate r := ⟨fun c d e hcd hde => hde.trans hcd⟩
  rw [ranked, ranked, Ranking.filter_insertionSort (r := r), List.filter_comm]

/-- Candidates that give the same detection are suppressed by the same candidates. -/
theorem blocksBy_of_toDetection (iou : BoundingBox → BoundingBox → ℚ) (n : ℚ)
    (params : PostprocessParams) (c d : Candidate) (h : toDetection params c = toDetection params d)
    (k : Candidate) : blocksBy iou n k c = blocksBy iou n k d := by
  have hbox : c.box.toBox = d.box.toBox := congrArg Detection.box h
  rw [blocksBy, blocksBy, hbox]

/-- The tensor that has the given anchors only. -/
def keepAnchors (raw : ℕ → ℚ) (numAnchors : ℕ) (anchors : List ℕ) : ℕ → ℚ := fun k =>
  raw (k / anchors.length * numAnchors + anchors.getD (k % anchors.length) 0)

/-- The anchors whose best class maps to something other than `kUnknown`. -/
def mappedAnchors (raw : ℕ → ℚ) (numAnchors numClasses : ℕ) (params : PostprocessParams) :
    List ℕ :=
  (List.range numAnchors).filter fun i =>
    params.classOf (bestClass raw numAnchors numClasses i).1 ≠ .unknown

section KeepAnchors
variable (raw : ℕ → ℚ) (numAnchors numClasses : ℕ) (params : PostprocessParams)

theorem keepAnchors_channel {anchors : List ℕ} {i : ℕ} (h : i < anchors.length) (k : ℕ) :
    keepAnchors raw numAnchors anchors (k * anchors.length + i) =
      raw (k * numAnchors + anchors.getD i 0) := by
  have hdiv : (k * anchors.length + i) / anchors.length = k := by
    rw [Nat.mul_comm, Nat.mul_add_div (by omega), Nat.div_eq_of_lt h, Nat.add_zero]
  have hmod : (k * anchors.length + i) % anchors.length = i := by
    rw [Nat.mul_comm, Nat.mul_add_mod, Nat.mod_eq_of_lt h]
  rw [keepAnchors, hdiv, hmod]

theorem decodeAnchor_keepAnchors {anchors : List ℕ} {i : ℕ} (h : i < anchors.length) :
    decodeAnchor (keepAnchors raw numAnchors anchors) anchors.length numClasses params i =
      decodeAnchor raw numAnchors numClasses params (anchors.getD i 0) := by
  have hbest : bestClass (keepAnchors raw numAnchors anchors) anchors.length numClasses i =
      bestClass raw numAnchors numClasses (anchors.getD i 0) := by
    simp only [bestClass, keepAnchors_channel raw numAnchors h]
  simp only [decodeAnchor, hbest, keepAnchors_channel raw numAnchors h]

theorem candidates_keepAnchors (anchors : List ℕ) :
    candidates (keepAnchors raw numAnchors anchors) anchors.length numClasses params =
      anchors.filterMap (decodeAnchor raw numAnchors numClasses params) := by
  conv_rhs => rw [← map_getD_range 0 anchors, List.filterMap_map]
  apply List.filterMap_congr
  intro i hi
  exact decodeAnchor_keepAnchors raw numAnchors numClasses params (List.mem_range.mp hi)

def isMapped (c : Candidate) : Bool := params.classOf c.classId ≠ .unknown

theorem classId_of_decodeAnchor {i : ℕ} {c : Candidate}
    (h : decodeAnchor raw numAnchors numClasses params i = some c) :
    c.classId = (bestClass raw numAnchors numClasses i).1 := by
  unfold decodeAnchor at h
  dsimp only at h
  split_ifs at h
  rw [Option.some.injEq] at h
  rw [← h]

/-- Deleting the anchors deletes their candidates. -/
theorem candidates_mappedAnchors :
    (mappedAnchors raw numAnchors numClasses params).filterMap
        (decodeAnchor raw numAnchors numClasses params) =
      (candidates raw numAnchors numClasses params).filter (isMapped params) := by
  rw [mappedAnchors, candidates, List.filterMap_filter, List.filter_filterMap]
  apply List.filterMap_congr
  intro i _
  cases hdecode : decodeAnchor raw numAnchors numClasses params i with
  | none => simp
  | some c =>
    simp [Option.filter, isMapped, classId_of_decodeAnchor raw numAnchors numClasses params hdecode]

end KeepAnchors

def isPersonOrForklift (d : Detection) : Bool := d.cls = .person ∨ d.cls = .forklift

theorem isPersonOrForklift_toDetection (params : PostprocessParams) (c : Candidate) :
    isPersonOrForklift (toDetection params c) = isMapped params c := by
  have hcls (cls : ObjectClass) :
      decide (cls = .person ∨ cls = .forklift) = decide (cls ≠ .unknown) := by
    cases cls <;> decide
  exact hcls (params.classOf c.classId)

section Noninterference
variable (iou : BoundingBox → BoundingBox → ℚ) (raw : ℕ → ℚ) (numAnchors numClasses : ℕ)
  (params : PostprocessParams)

/-- Deleting the anchors of unmapped classes leaves the persons and forklifts that are returned as
they are. -/
def UnmappedIgnored : Prop :=
  (postprocessYolov8 (sortedNms iou) raw numAnchors numClasses params).map
      (List.filter isPersonOrForklift) =
    (postprocessYolov8 (sortedNms iou)
      (keepAnchors raw numAnchors (mappedAnchors raw numAnchors numClasses params))
      (mappedAnchors raw numAnchors numClasses params).length numClasses params).map
        (List.filter isPersonOrForklift)

/-- A candidate of a mapped class that the uncontested ones of mapped classes leave room for is
overlapped too much by no contender of an unmapped class that ranks before it, and has fewer than
`max_detections` contenders before it. This is asked where a contender of an unmapped class ranks
before it. -/
def ClearOfUnmapped : Prop :=
  Greedy.Clear (blocksBy iou params.nmsThreshold) (isMapped params) params.maxDetections.toNat
    (ranked params.confThreshold (candidates raw numAnchors numClasses params))

/-- Each candidate is overlapped too much by no candidate that ranks before it, or by one of which
this is true. -/
def Unchained : Prop :=
  let cands := ranked params.confThreshold (candidates raw numAnchors numClasses params)
  Greedy.contenders (blocksBy iou params.nmsThreshold) cands =
    Greedy.uncontested (blocksBy iou params.nmsThreshold) cands

/-- In terms of what survives the suppression: each person or forklift that the surviving ones leave
room for is neither suppressed nor pushed over the limit by a surviving unmapped candidate. -/
theorem unmappedIgnored_iff_undisturbed : UnmappedIgnored iou raw numAnchors numClasses params ↔
    Greedy.Undisturbed (blocksBy iou params.nmsThreshold) (isMapped params)
      params.maxDetections.toNat
      (ranked params.confThreshold (candidates raw numAnchors numClasses params)) := by
  have hread : isPersonOrForklift ∘ toDetection params = isMapped params :=
    funext (isPersonOrForklift_toDetection params)
  rw [UnmappedIgnored, postprocessYolov8_sortedNms, postprocessYolov8_sortedNms,
    candidates_keepAnchors, candidates_mappedAnchors, ranked_filter]
  by_cases hmax : params.maxDetections < 0
  · simp only [if_pos hmax, Option.map_none, true_iff]
    intro before c _ _ hlimit
    omega
  · simp only [if_neg hmax, Option.map_some, Option.some.injEq, List.filter_map, hread]
    rw [← Greedy.cut_filter_eq_iff (blocksBy_of_toDetection iou params.nmsThreshold params)]
    have honly (cands : List Candidate) :
        ((Greedy.select (blocksBy iou params.nmsThreshold)
          (cands.filter (isMapped params))).take params.maxDetections.toNat).filter
            (isMapped params) =
        (Greedy.select (blocksBy iou params.nmsThreshold)
          (cands.filter (isMapped params))).take params.maxDetections.toNat := by
      rw [List.filter_eq_self]
      intro c hc
      exact (List.mem_filter.mp ((Greedy.select_sublist _ _).subset (List.mem_of_mem_take hc))).2
    rw [honly]

/-- Deleting the anchors of unmapped classes changes nothing where none of their candidates stands
in the way of a person or a forklift. Without chains of overlapping candidates it changes something
everywhere else. -/
theorem unmappedIgnored_of_clear :
    (ClearOfUnmapped iou raw numAnchors numClasses params →
      UnmappedIgnored iou raw numAnchors numClasses params) ∧
    (Unchained iou raw numAnchors numClasses params →
      (UnmappedIgnored iou raw numAnchors numClasses params ↔
        ClearOfUnmapped iou raw numAnchors numClasses params)) := by
  have henough : ClearOfUnmapped iou raw numAnchors numClasses params →
      UnmappedIgnored iou raw numAnchors numClasses params := by
    intro h
    exact (unmappedIgnored_iff_undisturbed iou raw numAnchors numClasses params).mpr h.undisturbed
  refine ⟨henough, fun hplain => ⟨fun h => ?_, henough⟩⟩
  exact Greedy.clear_of_undisturbed hplain
    ((unmappedIgnored_iff_undisturbed iou raw numAnchors numClasses params).mp h)

end Noninterference

/-- Class 1, a vehicle, is not in the map. -/
def vehicleParams : PostprocessParams where
  classMap k := if k = 0 then some .person else none

/-- A vehicle and a person apart from it. -/
def apartTensor (k : ℕ) : ℚ :=
  [60, 360, 60, 360, 100, 100, 100, 100, 0, 4 / 5, 9 / 10, 0].getD k 0

theorem unmappedIgnored_of_clear_apart :
    postprocessYolov8 (sortedNms BoundingBox.iou) apartTensor 2 2 vehicleParams =
      some [⟨⟨10, 10, 100, 100⟩, .unknown, 9 / 10, -1⟩,
        ⟨⟨310, 310, 100, 100⟩, .person, 4 / 5, -1⟩] ∧
    UnmappedIgnored BoundingBox.iou apartTensor 2 2 vehicleParams ∧
    ClearOfUnmapped BoundingBox.iou apartTensor 2 2 vehicleParams := by
  have hranked : ranked vehicleParams.confThreshold (candidates apartTensor 2 2 vehicleParams) =
      [] ++ [⟨⟨10, 10, 100, 100⟩, 9 / 10, 1⟩] ++ [⟨⟨310, 310, 100, 100⟩, 4 / 5, 0⟩] := by
    decide +kernel
  have hclear : ClearOfUnmapped BoundingBox.iou apartTensor 2 2 vehicleParams := by
    rw [ClearOfUnmapped, hranked, Greedy.Clear, Greedy.atEach_concat_iff, Greedy.atEach_concat_iff]
    exact ⟨⟨Greedy.atEach_nil _, by decide +kernel⟩, by decide +kernel⟩
  exact ⟨by decide +kernel,
    (unmappedIgnored_of_clear BoundingBox.iou apartTensor 2 2 vehicleParams).1 hclear, hclear⟩

/-- A vehicle over a person scores higher and suppresses the person, who is returned once the
vehicle is deleted. -/
theorem unmapped_noninterference_vehicle :
    let kept := mappedAnchors crowdedTensor 2 2 vehicleParams
    let whole := (postprocessYolov8 (sortedNms BoundingBox.iou) crowdedTensor 2 2
      vehicleParams).map (List.filter isPersonOrForklift)
    let alone := (postprocessYolov8 (sortedNms BoundingBox.iou)
      (keepAnchors crowdedTensor 2 kept) kept.length 2 vehicleParams).map
        (List.filter isPersonOrForklift)
    0 ≤ vehicleParams.maxDetections ∧ whole = some [] ∧
      alone = some [⟨⟨12, 12, 100, 100⟩, .person, 4 / 5, -1⟩] ∧ whole ≠ alone := by
  refine ⟨?_, ?_, ?_, ?_⟩ <;> decide +kernel

end ForkliftSafety
