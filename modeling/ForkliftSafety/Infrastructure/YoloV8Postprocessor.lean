import Mathlib.Data.List.GetD
import Mathlib.Data.List.Sort
import ForkliftSafety.Domain.Detection
import ForkliftSafety.Library.Greedy

/-! `postprocess_yolov8`: tensor decoding, score filter, suppression and the cut at
`max_detections`. `cv::dnn::NMSBoxes` is a parameter. -/
namespace ForkliftSafety

/-- `cv::Rect`. -/
structure Rect where
  x : ℤ := 0
  y : ℤ := 0
  width : ℤ := 0
  height : ℤ := 0
  deriving DecidableEq, Repr

def Rect.toBox (r : Rect) : BoundingBox := ⟨r.x, r.y, r.width, r.height⟩

structure PostprocessParams where
  modelInputWidth : ℤ := 640
  modelInputHeight : ℤ := 640
  sourceWidth : ℤ := 0
  sourceHeight : ℤ := 0
  confThreshold : ℚ := 35 / 100
  nmsThreshold : ℚ := 45 / 100
  maxDetections : ℤ := 300
  classMap : ℤ → Option ObjectClass := fun _ => none

/-- Conversion of a `float` to `int`: toward zero. -/
def truncate (q : ℚ) : ℤ := q.num.tdiv q.den

/-- The class loop of one anchor: a class replaces the best one only with a higher score. -/
def bestClass (raw : ℕ → ℚ) (stride numClasses i : ℕ) : ℤ × ℚ :=
  (List.range numClasses).foldl
    (fun best c =>
      let s := raw ((4 + c) * stride + i)
      if s > best.2 then ((c : ℤ), s) else best)
    (-1, 0)

/-- One entry of the parallel vectors `boxes`, `scores` and `class_ids`. -/
structure Candidate where
  box : Rect := {}
  score : ℚ := 0
  classId : ℤ := -1
  deriving DecidableEq, Repr

def PostprocessParams.scaleX (params : PostprocessParams) : ℚ :=
  if params.sourceWidth > 0 then params.sourceWidth / params.modelInputWidth else 1

def PostprocessParams.scaleY (params : PostprocessParams) : ℚ :=
  if params.sourceHeight > 0 then params.sourceHeight / params.modelInputHeight else 1

/-- The body of the anchor loop; `none` is its `continue`. -/
def decodeAnchor (raw : ℕ → ℚ) (numAnchors numClasses : ℕ) (params : PostprocessParams)
    (i : ℕ) : Option Candidate :=
  let stride := numAnchors
  let best := bestClass raw stride numClasses i
  if best.2 < params.confThreshold ∨ best.1 < 0 then none
  else
    let cx := raw (0 * stride + i)
    let cy := raw (1 * stride + i)
    let w := raw (2 * stride + i)
    let h := raw (3 * stride + i)
    some
      { box :=
          ⟨truncate ((cx - w * (1 / 2)) * params.scaleX),
            truncate ((cy - h * (1 / 2)) * params.scaleY),
            truncate (w * params.scaleX), truncate (h * params.scaleY)⟩
        score := best.2
        classId := best.1 }

def candidates (raw : ℕ → ℚ) (numAnchors numClasses : ℕ) (params : PostprocessParams) :
    List Candidate :=
  (List.range numAnchors).filterMap (decodeAnchor raw numAnchors numClasses params)

/-- `cv::dnn::NMSBoxes(boxes, scores, score_threshold, nms_threshold)`: the kept indices. -/
abbrev NmsBoxes := List Rect → List ℚ → ℚ → ℚ → List ℕ

def PostprocessParams.classOf (params : PostprocessParams) (classId : ℤ) : ObjectClass :=
  (params.classMap classId).getD .unknown

/-- The detection written for a kept candidate; its track id keeps the default -1. -/
def toDetection (params : PostprocessParams) (c : Candidate) : Detection where
  box := c.box.toBox
  confidence := c.score
  cls := params.classOf c.classId

/-- `none`: a negative `max_detections` reaches `out.reserve`, which throws `length_error`. -/
def postprocessYolov8 (nms : NmsBoxes) (raw : ℕ → ℚ) (numAnchors numClasses : ℕ)
    (params : PostprocessParams) : Option (List Detection) :=
  let cands := candidates raw numAnchors numClasses params
  let keep := nms (cands.map Candidate.box) (cands.map Candidate.score) params.confThreshold
    params.nmsThreshold
  let maxKeep := min (keep.length : ℤ) params.maxDetections
  if maxKeep < 0 then none
  else some ((keep.take maxKeep.toNat).filterMap fun idx => cands[idx]?.map (toDetection params))

/-- The decoder never sets a track id. -/
theorem postprocessYolov8_trackId {nms : NmsBoxes} {raw : ℕ → ℚ} {numAnchors numClasses : ℕ}
    {params : PostprocessParams} {out : List Detection}
    (h : postprocessYolov8 nms raw numAnchors numClasses params = some out) {d : Detection}
    (hd : d ∈ out) : d.trackId = -1 := by
  simp only [postprocessYolov8] at h
  split_ifs at h
  rw [Option.some.injEq] at h
  rw [← h, List.mem_filterMap] at hd
  obtain ⟨idx, _, hidx⟩ := hd
  obtain ⟨c, _, rfl⟩ := Option.map_eq_some_iff.mp hidx
  rfl

/-- What is documented of `NMSBoxes`: it visits the boxes that score above the threshold by
non-increasing score, and keeps a box iff its IoU with every kept box is at most `n`. -/
def VisitsByScore (iou : BoundingBox → BoundingBox → ℚ) (nms : NmsBoxes) : Prop :=
  ∀ (boxes : List Rect) (scores : List ℚ) (t n : ℚ), boxes.length = scores.length →
    ∃ order : List ℕ,
      (∀ i, i ∈ order ↔ i < boxes.length ∧ t < scores.getD i 0) ∧
      order.Nodup ∧
      order.Pairwise (fun i j => scores.getD j 0 ≤ scores.getD i 0) ∧
      nms boxes scores t n =
        Greedy.select (fun k i => decide (n < iou (boxes.getD k {}).toBox
          (boxes.getD i {}).toBox)) order

/-- An `NMSBoxes` that sorts stably and then selects greedily. -/
def sortedNms (iou : BoundingBox → BoundingBox → ℚ) : NmsBoxes := fun boxes scores t n =>
  Greedy.select (fun k i => decide (n < iou (boxes.getD k {}).toBox
      (boxes.getD i {}).toBox))
    (((List.range boxes.length).filter fun i => decide (t < scores.getD i 0)).insertionSort
      fun i j => scores.getD j 0 ≤ scores.getD i 0)

theorem sortedNms_visitsByScore (iou : BoundingBox → BoundingBox → ℚ) :
    VisitsByScore iou (sortedNms iou) := by
  intro boxes scores t n _
  let above := (List.range boxes.length).filter fun i => decide (t < scores.getD i 0)
  let r : ℕ → ℕ → Prop := fun i j => scores.getD j 0 ≤ scores.getD i 0
  have htotal : Std.Total r := ⟨fun i j => le_total (scores.getD j 0) (scores.getD i 0)⟩
  have htrans : IsTrans ℕ r := ⟨fun i j k hij hjk => hjk.trans hij⟩
  have hperm : (above.insertionSort r).Perm above := List.perm_insertionSort r above
  refine ⟨above.insertionSort r, ?_, ?_, List.pairwise_insertionSort r above, rfl⟩
  · intro i
    rw [hperm.mem_iff]
    simp [above]
  · exact hperm.nodup_iff.mpr (List.nodup_range.filter _)

/-- All that the decoder relies on: distinct indices of boxes, by non-increasing score. -/
structure ReturnsByScore (nms : NmsBoxes) : Prop where
  lt : ∀ boxes scores t n, boxes.length = scores.length →
    ∀ i ∈ nms boxes scores t n, i < boxes.length
  nodup : ∀ boxes scores t n, boxes.length = scores.length → (nms boxes scores t n).Nodup
  sorted : ∀ boxes scores t n, boxes.length = scores.length →
    (nms boxes scores t n).Pairwise fun i j => scores.getD j 0 ≤ scores.getD i 0

theorem VisitsByScore.returnsByScore {iou : BoundingBox → BoundingBox → ℚ} {nms : NmsBoxes}
    (h : VisitsByScore iou nms) : ReturnsByScore nms := by
  have hsub (boxes : List Rect) (scores : List ℚ) (t n : ℚ) (hlen : boxes.length = scores.length) :
      ∃ order : List ℕ, (∀ i ∈ order, i < boxes.length) ∧ order.Nodup ∧
        order.Pairwise (fun i j => scores.getD j 0 ≤ scores.getD i 0) ∧
        (nms boxes scores t n).Sublist order := by
    obtain ⟨order, hmem, hnodup, hsorted, heq⟩ := h boxes scores t n hlen
    exact ⟨order, fun i hi => ((hmem i).mp hi).1, hnodup, hsorted,
      heq ▸ Greedy.select_sublist _ order⟩
  constructor <;> intro boxes scores t n hlen <;>
    obtain ⟨order, hlt, hnodup, hsorted, hkeep⟩ := hsub boxes scores t n hlen
  · exact fun i hi => hlt i (hkeep.subset hi)
  · exact hnodup.sublist hkeep
  · exact hsorted.sublist hkeep

/-- A candidate is accounted for in the output: by itself, by an admissible detection that
suppresses it, or because the cut left only detections that score at least as high. -/
def Covered (iou : BoundingBox → BoundingBox → ℚ) (params : PostprocessParams)
    (admissible : Detection → Prop) (c : Candidate) (out : List Detection) : Prop :=
  toDetection params c ∈ out ∨
  (∃ d ∈ out, admissible d ∧ c.score ≤ d.confidence ∧
    params.nmsThreshold < iou d.box c.box.toBox) ∨
  ((out.length : ℤ) = params.maxDetections ∧ ∀ d ∈ out, c.score ≤ d.confidence)

instance (iou : BoundingBox → BoundingBox → ℚ) (params : PostprocessParams)
    (admissible : Detection → Prop) [DecidablePred admissible] (c : Candidate)
    (out : List Detection) : Decidable (Covered iou params admissible c out) := by
  unfold Covered
  infer_instance

/-- Kept indices that are valid give one detection each. -/
theorem filterMap_toDetection (params : PostprocessParams) (cands : List Candidate)
    {idxs : List ℕ} (h : ∀ i ∈ idxs, i < cands.length) :
    (idxs.filterMap fun i => cands[i]?.map (toDetection params)) =
      idxs.map fun i => toDetection params (cands.getD i {}) := by
  induction idxs with
  | nil => rfl
  | cons i idxs ih =>
    have hi : i < cands.length := h i List.mem_cons_self
    have htail := ih fun j hj => h j (List.mem_cons_of_mem i hj)
    simp only [List.map_cons, List.filterMap_cons, List.getElem?_eq_getElem hi, Option.map_some,
      htail, List.getD_eq_getElem _ _ hi]

section Suppression
variable {iou : BoundingBox → BoundingBox → ℚ} {nms : NmsBoxes}

/-- What the suppression keeps: valid indices, by non-increasing score, that between them
account for every candidate above the threshold. -/
theorem keep_spec (hnms : VisitsByScore iou nms) (cands : List Candidate) (t n : ℚ) :
    let keep := nms (cands.map Candidate.box) (cands.map Candidate.score) t n
    (∀ i ∈ keep, i < cands.length) ∧
    keep.Pairwise (fun i j => (cands.getD j {}).score ≤ (cands.getD i {}).score) ∧
    ∀ i < cands.length, t < (cands.getD i {}).score →
      i ∈ keep ∨ ∃ k ∈ keep, (cands.getD i {}).score ≤ (cands.getD k {}).score ∧
        n < iou (cands.getD k {}).box.toBox (cands.getD i {}).box.toBox := by
  have hbox (i : ℕ) : (cands.map Candidate.box).getD i {} = (cands.getD i {}).box :=
    List.getD_map cands {} Candidate.box
  have hscore (i : ℕ) : (cands.map Candidate.score).getD i 0 = (cands.getD i {}).score :=
    List.getD_map cands {} Candidate.score
  obtain ⟨order, hmem, _, hsorted, heq⟩ := hnms (cands.map Candidate.box)
    (cands.map Candidate.score) t n (by simp)
  simp only [hbox, hscore, List.length_map] at hmem hsorted heq
  intro keep
  have hkeep : keep = Greedy.select (fun k i => decide (n < iou (cands.getD k {}).box.toBox
      (cands.getD i {}).box.toBox)) order := heq
  have hsub : keep.Sublist order := hkeep ▸ Greedy.select_sublist _ order
  refine ⟨fun i hi => ((hmem i).mp (hsub.subset hi)).1, hsorted.sublist hsub, ?_⟩
  intro i hi ht
  have hcover := Greedy.select_covers (fun k i => decide (n < iou (cands.getD k {}).box.toBox
    (cands.getD i {}).box.toBox)) hsorted ((hmem i).mpr ⟨hi, ht⟩)
  rw [← hkeep] at hcover
  simpa only [decide_eq_true_eq] using hcover

/-- The indices `postprocess_yolov8` gets back from its suppression call. -/
def keptIndices (nms : NmsBoxes) (raw : ℕ → ℚ) (numAnchors numClasses : ℕ)
    (params : PostprocessParams) : List ℕ :=
  let cands := candidates raw numAnchors numClasses params
  nms (cands.map Candidate.box) (cands.map Candidate.score) params.confThreshold
    params.nmsThreshold

/-- What the suppression call returns, read as indices of candidates. -/
theorem ReturnsByScore.keptIndices (h : ReturnsByScore nms) (raw : ℕ → ℚ)
    (numAnchors numClasses : ℕ) (params : PostprocessParams) :
    let cands := candidates raw numAnchors numClasses params
    let keep := keptIndices nms raw numAnchors numClasses params
    (∀ i ∈ keep, i < cands.length) ∧ keep.Nodup ∧
      keep.Pairwise fun i j => (cands.getD j {}).score ≤ (cands.getD i {}).score := by
  intro cands keep
  have hlen : (cands.map Candidate.box).length = (cands.map Candidate.score).length := by simp
  have hscore (i : ℕ) : (cands.map Candidate.score).getD i 0 = (cands.getD i {}).score :=
    List.getD_map cands {} Candidate.score
  have hlt := h.lt _ _ params.confThreshold params.nmsThreshold hlen
  have hsorted := h.sorted _ _ params.confThreshold params.nmsThreshold hlen
  simp only [hscore, List.length_map] at hlt hsorted
  exact ⟨hlt, h.nodup _ _ params.confThreshold params.nmsThreshold hlen, hsorted⟩

theorem postprocessYolov8_eq (hnms : ReturnsByScore nms) (raw : ℕ → ℚ)
    (numAnchors numClasses : ℕ) (params : PostprocessParams) :
    postprocessYolov8 nms raw numAnchors numClasses params =
      if params.maxDetections < 0 then none
      else some (((keptIndices nms raw numAnchors numClasses params).take
        params.maxDetections.toNat).map fun i =>
          toDetection params ((candidates raw numAnchors numClasses params).getD i {})) := by
  obtain ⟨hvalid, _, _⟩ := hnms.keptIndices raw numAnchors numClasses params
  have hif (keep : List ℕ) : min (keep.length : ℤ) params.maxDetections < 0 ↔
      params.maxDetections < 0 := by omega
  have htake (keep : List ℕ) : keep.take (min (keep.length : ℤ) params.maxDetections).toNat =
      keep.take params.maxDetections.toNat := by
    rw [List.take_eq_take_iff]
    omega
  simp only [postprocessYolov8, hif, htake]
  split_ifs
  · rfl
  · rw [filterMap_toDetection]
    · rfl
    · intro i hi
      exact hvalid i (List.mem_of_mem_take hi)

/-- Class-blind suppression: every anchor that scores above the threshold is in the output, or
a detection of some class suppresses it, or the cut keeps only detections scoring as high. -/
theorem postprocessYolov8_covers (hnms : VisitsByScore iou nms) (raw : ℕ → ℚ)
    (numAnchors numClasses : ℕ) (params : PostprocessParams) (i : ℕ) (hi : i < numAnchors)
    (c : Candidate) (hc : decodeAnchor raw numAnchors numClasses params i = some c)
    (hscore : params.confThreshold < c.score) :
    match postprocessYolov8 nms raw numAnchors numClasses params with
    | none => params.maxDetections < 0
    | some out => Covered iou params (fun _ => True) c out := by
  let cands := candidates raw numAnchors numClasses params
  let keep := keptIndices nms raw numAnchors numClasses params
  let M := params.maxDetections.toNat
  obtain ⟨_, hsorted, hcovers⟩ := keep_spec hnms cands params.confThreshold params.nmsThreshold
  change keep.Pairwise _ at hsorted
  have hcmem : c ∈ cands := List.mem_filterMap.mpr ⟨i, List.mem_range.mpr hi, hc⟩
  obtain ⟨j, hj, hjc⟩ := List.getElem_of_mem hcmem
  have hjD : cands.getD j {} = c := by rw [List.getD_eq_getElem _ _ hj, hjc]
  have hcover := hcovers j hj (by rwa [hjD])
  rw [hjD] at hcover
  rw [postprocessYolov8_eq hnms.returnsByScore]
  split_ifs with hmax
  · exact hmax
  -- `k` stands for `c` among the kept indices; what is left is on which side of the cut it is.
  obtain ⟨k, hk, hle, hkc⟩ : ∃ k ∈ keep, c.score ≤ (cands.getD k {}).score ∧
      (toDetection params (cands.getD k {}) = toDetection params c ∨
        params.nmsThreshold < iou (cands.getD k {}).box.toBox c.box.toBox) := by
    rcases hcover with hjk | ⟨k, hk, hle, hblock⟩
    · exact ⟨j, hjk, by rw [hjD], Or.inl (by rw [hjD])⟩
    · exact ⟨k, hk, hle, Or.inr hblock⟩
  rw [← List.take_append_drop M keep, List.mem_append] at hk
  rcases hk with hk | hk
  · have hout : toDetection params (cands.getD k {}) ∈
        (keep.take M).map fun i => toDetection params (cands.getD i {}) :=
      List.mem_map.mpr ⟨k, hk, rfl⟩
    rcases hkc with hself | hblock
    · exact Or.inl (hself ▸ hout)
    · exact Or.inr (Or.inl ⟨_, hout, trivial, hle, hblock⟩)
  · have hlen : M < keep.length := by
      have hpos := List.length_pos_of_mem hk
      rw [List.length_drop] at hpos
      omega
    refine Or.inr (Or.inr ⟨?_, ?_⟩)
    · change (((keep.take M).map _).length : ℤ) = params.maxDetections
      rw [List.length_map, List.length_take, min_eq_left hlen.le]
      exact Int.toNat_of_nonneg (not_lt.mp hmax)
    · intro d hd
      obtain ⟨l, hl, rfl⟩ := List.mem_map.mp hd
      rw [← List.take_append_drop M keep, List.pairwise_append] at hsorted
      exact hle.trans (hsorted.2.2 l hl k hk)

end Suppression

/-- Class 0 is a person and class 1 a forklift. -/
def crowdedParams : PostprocessParams where
  classMap k := if k = 0 then some .person else if k = 1 then some .forklift else none

/-- Channels `cx`, `cy`, `w`, `h`, person score and forklift score of two anchors: a person in front
of a forklift. -/
def crowdedTensor (k : ℕ) : ℚ :=
  [60, 62, 60, 62, 100, 100, 100, 100, 0, 4 / 5, 9 / 10, 0].getD k 0

def crowdedPerson : Candidate := ⟨⟨12, 12, 100, 100⟩, 4 / 5, 0⟩

theorem postprocessYolov8_covers_crowded :
    match postprocessYolov8 (sortedNms BoundingBox.iou) crowdedTensor 2 2 crowdedParams with
    | none => crowdedParams.maxDetections < 0
    | some out => Covered BoundingBox.iou crowdedParams (fun _ => True) crowdedPerson out :=
  postprocessYolov8_covers (sortedNms_visitsByScore BoundingBox.iou) crowdedTensor 2 2
    crowdedParams 1 (by decide) crowdedPerson (by decide +kernel) (by decide +kernel)

/-- The suppression does not look at classes: the forklift's box removes the person, and no
person is left in the output although the cut is far away. -/
theorem postprocessYolov8_crowded_person_lost :
    VisitsByScore BoundingBox.iou (sortedNms BoundingBox.iou) ∧
    decodeAnchor crowdedTensor 2 2 crowdedParams 1 = some crowdedPerson ∧
    crowdedParams.confThreshold < crowdedPerson.score ∧
    crowdedParams.classOf crowdedPerson.classId = .person ∧
    postprocessYolov8 (sortedNms BoundingBox.iou) crowdedTensor 2 2 crowdedParams =
      some [⟨⟨10, 10, 100, 100⟩, .forklift, 9 / 10, -1⟩] ∧
    ¬ Covered BoundingBox.iou crowdedParams (fun d => d.cls = .person) crowdedPerson
      [⟨⟨10, 10, 100, 100⟩, .forklift, 9 / 10, -1⟩] :=
  ⟨sortedNms_visitsByScore BoundingBox.iou, by decide +kernel, by decide +kernel,
    by decide +kernel, by decide +kernel, by decide +kernel⟩

end ForkliftSafety
