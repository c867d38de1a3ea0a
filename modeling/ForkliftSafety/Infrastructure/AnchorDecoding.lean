import Mathlib.Data.List.Forall2
import Mathlib.Data.Rat.Floor
import ForkliftSafety.Infrastructure.YoloV8Postprocessor

/-! What `postprocess_yolov8` reads off each anchor, and how its output traces back to the
tensor. -/
namespace ForkliftSafety

theorem truncate_of_nonneg {q : ℚ} (h : 0 ≤ q) : truncate q = ⌊q⌋ := by
  have hnum : 0 ≤ q.num := Rat.num_nonneg.mpr h
  rw [truncate, Int.tdiv_eq_ediv_of_nonneg hnum, Rat.floor_def']

theorem truncate_neg (q : ℚ) : truncate (-q) = -truncate q := by
  simp only [truncate, Rat.num_neg_eq_neg_num, Rat.den_neg_eq_den, Int.neg_tdiv]

/-- Channels are stored one after the other, each with a value for every anchor. -/
def channel (raw : ℕ → ℚ) (numAnchors k i : ℕ) : ℚ := raw (k * numAnchors + i)

/-- The score of class `c` at anchor `i`; four box channels come first. -/
def classScore (raw : ℕ → ℚ) (numAnchors i c : ℕ) : ℚ := channel raw numAnchors (4 + c) i

/-- `c` is the smallest of the first `n` classes that attains the highest score at anchor `i`. -/
structure BestAt (raw : ℕ → ℚ) (numAnchors n i c : ℕ) : Prop where
  lt : c < n
  le : ∀ c' < n, classScore raw numAnchors i c' ≤ classScore raw numAnchors i c
  first : ∀ c' < c, classScore raw numAnchors i c' < classScore raw numAnchors i c

section BestClass
variable {raw : ℕ → ℚ} {numAnchors n i c : ℕ}

theorem BestAt.unique {c' : ℕ} (h : BestAt raw numAnchors n i c)
    (h' : BestAt raw numAnchors n i c') : c = c' := by
  rcases lt_trichotomy c c' with hlt | heq | hgt
  · exact absurd (h.le c' h'.lt) (not_le.mpr (h'.first c hlt))
  · exact heq
  · exact absurd (h'.le c h.lt) (not_le.mpr (h.first c' hgt))

/-- A class that does not beat the best one so far leaves it in place. -/
theorem BestAt.keep (h : BestAt raw numAnchors n i c)
    (hle : classScore raw numAnchors i n ≤ classScore raw numAnchors i c) :
    BestAt raw numAnchors (n + 1) i c := by
  refine ⟨h.lt.trans (Nat.lt_succ_self n), ?_, h.first⟩
  intro c' hc'
  rcases Nat.lt_succ_iff_lt_or_eq.mp hc' with hlt | rfl
  · exact h.le c' hlt
  · exact hle

/-- A class that beats all classes before it becomes the best one. -/
theorem BestAt.of_beats
    (hlt : ∀ c' < n, classScore raw numAnchors i c' < classScore raw numAnchors i n) :
    BestAt raw numAnchors (n + 1) i n := by
  refine ⟨Nat.lt_succ_self n, ?_, hlt⟩
  intro c' hc'
  rcases Nat.lt_succ_iff_lt_or_eq.mp hc' with h | rfl
  · exact (hlt c' h).le
  · exact le_rfl

theorem bestClass_succ (raw : ℕ → ℚ) (numAnchors n i : ℕ) :
    bestClass raw numAnchors (n + 1) i =
      if classScore raw numAnchors i n > (bestClass raw numAnchors n i).2
      then ((n : ℤ), classScore raw numAnchors i n) else bestClass raw numAnchors n i := by
  rw [bestClass, List.range_succ, List.foldl_append]
  rfl

/-- The class loop starts from score 0, so it finds the best class only if that scores above 0. -/
theorem bestClass_spec (raw : ℕ → ℚ) (numAnchors n i : ℕ) :
    (bestClass raw numAnchors n i = (-1, 0) ∧ ∀ c < n, classScore raw numAnchors i c ≤ 0) ∨
    ∃ c : ℕ, bestClass raw numAnchors n i = ((c : ℤ), classScore raw numAnchors i c) ∧
      BestAt raw numAnchors n i c ∧ 0 < classScore raw numAnchors i c := by
  induction n with
  | zero =>
    left
    exact ⟨rfl, fun c hc => absurd hc (Nat.not_lt_zero c)⟩
  | succ n ih =>
    rw [bestClass_succ]
    rcases ih with ⟨hbest, hnone⟩ | ⟨c, hbest, hc, hpos⟩
    · rw [hbest]
      split_ifs with hbeats
      · right
        have hlt : ∀ c' < n, classScore raw numAnchors i c' < classScore raw numAnchors i n := by
          intro c' hc'
          exact (hnone c' hc').trans_lt hbeats
        exact ⟨n, rfl, .of_beats hlt, hbeats⟩
      · left
        refine ⟨rfl, fun c hc => ?_⟩
        rcases Nat.lt_succ_iff_lt_or_eq.mp hc with hlt | rfl
        · exact hnone c hlt
        · exact not_lt.mp hbeats
    · right
      rw [hbest]
      split_ifs with hbeats
      · have hlt : ∀ c' < n, classScore raw numAnchors i c' < classScore raw numAnchors i n := by
          intro c' hc'
          exact (hc.le c' hc').trans_lt hbeats
        exact ⟨n, rfl, .of_beats hlt, hpos.trans hbeats⟩
      · exact ⟨c, rfl, hc.keep (not_lt.mp hbeats), hpos⟩

end BestClass

/-- Anchor `i` scores for its best class `c`, above 0 and not below the threshold. -/
structure ScoresFor (raw : ℕ → ℚ) (numAnchors numClasses : ℕ) (params : PostprocessParams)
    (i c : ℕ) : Prop where
  best : BestAt raw numAnchors numClasses i c
  pos : 0 < classScore raw numAnchors i c
  above : params.confThreshold ≤ classScore raw numAnchors i c

/-- `(cx, cy, w, h)` of anchor `i` as a corner and a size in source pixels. -/
def anchorBox (raw : ℕ → ℚ) (numAnchors : ℕ) (params : PostprocessParams) (i : ℕ) : Rect :=
  let cx := channel raw numAnchors 0 i
  let cy := channel raw numAnchors 1 i
  let w := channel raw numAnchors 2 i
  let h := channel raw numAnchors 3 i
  { x := truncate ((cx - w / 2) * params.scaleX)
    y := truncate ((cy - h / 2) * params.scaleY)
    width := truncate (w * params.scaleX)
    height := truncate (h * params.scaleY) }

/-- The candidate of anchor `i`. -/
def Reads (raw : ℕ → ℚ) (numAnchors numClasses : ℕ) (params : PostprocessParams) (i : ℕ)
    (cand : Candidate) : Prop :=
  ∃ c, ScoresFor raw numAnchors numClasses params i c ∧
    cand = ⟨anchorBox raw numAnchors params i, classScore raw numAnchors i c, c⟩

section Candidates
variable {raw : ℕ → ℚ} {numAnchors numClasses : ℕ} {params : PostprocessParams} {i : ℕ}

theorem decodeAnchor_of_best {c : ℕ}
    (hbest : bestClass raw numAnchors numClasses i = ((c : ℤ), classScore raw numAnchors i c)) :
    decodeAnchor raw numAnchors numClasses params i =
      if classScore raw numAnchors i c < params.confThreshold then none
      else some ⟨anchorBox raw numAnchors params i, classScore raw numAnchors i c, c⟩ := by
  have hc : ¬ (c : ℤ) < 0 := by omega
  simp only [decodeAnchor, hbest, hc, or_false, anchorBox, channel, mul_one_div]

theorem decodeAnchor_eq_some_iff {cand : Candidate} :
    decodeAnchor raw numAnchors numClasses params i = some cand ↔
      Reads raw numAnchors numClasses params i cand := by
  rcases bestClass_spec raw numAnchors numClasses i with ⟨hbest, hnone⟩ | ⟨c, hbest, hc, hpos⟩
  · constructor
    · intro h
      simp [decodeAnchor, hbest] at h
    · rintro ⟨c, hc, _⟩
      exact absurd hc.pos (not_lt.mpr (hnone c hc.best.lt))
  · rw [decodeAnchor_of_best hbest]
    constructor
    · intro h
      split_ifs at h with habove
      rw [Option.some.injEq] at h
      exact ⟨c, ⟨hc, hpos, not_lt.mp habove⟩, h.symm⟩
    · rintro ⟨c', hc', rfl⟩
      obtain rfl := hc.unique hc'.best
      rw [if_neg (not_lt.mpr hc'.above)]

/-- The anchors that give a candidate, in increasing order. -/
def offeredAnchors (raw : ℕ → ℚ) (numAnchors numClasses : ℕ) (params : PostprocessParams) :
    List ℕ :=
  (List.range numAnchors).filter fun i => (decodeAnchor raw numAnchors numClasses params i).isSome

theorem mem_offeredAnchors_iff :
    i ∈ offeredAnchors raw numAnchors numClasses params ↔
      i < numAnchors ∧ ∃ c, ScoresFor raw numAnchors numClasses params i c := by
  simp only [offeredAnchors, List.mem_filter, List.mem_range, Option.isSome_iff_exists,
    decodeAnchor_eq_some_iff, Reads]
  constructor
  · rintro ⟨hi, _, c, hc, _⟩
    exact ⟨hi, c, hc⟩
  · rintro ⟨hi, c, hc⟩
    exact ⟨hi, _, c, hc, rfl⟩

theorem offeredAnchors_pairwise :
    (offeredAnchors raw numAnchors numClasses params).Pairwise (· < ·) :=
  List.pairwise_lt_range.filter _

theorem forall₂_filterMap {α β : Type*} (f : α → Option β) (as : List α) :
    List.Forall₂ (fun a b => f a = some b) (as.filter fun a => (f a).isSome)
      (as.filterMap f) := by
  induction as with
  | nil => exact .nil
  | cons a as ih =>
    cases hfa : f a with
    | none => simpa [hfa] using ih
    | some b => simpa [hfa] using ih

/-- Candidate by candidate, the vectors offered for suppression are read off those anchors. -/
theorem candidates_reads :
    List.Forall₂ (Reads raw numAnchors numClasses params)
      (offeredAnchors raw numAnchors numClasses params)
      (candidates raw numAnchors numClasses params) := by
  have h := forall₂_filterMap (decodeAnchor raw numAnchors numClasses params)
    (List.range numAnchors)
  exact h.imp fun i cand hi => decodeAnchor_eq_some_iff.mp hi

theorem reads_getD {k : ℕ} (hk : k < (candidates raw numAnchors numClasses params).length) :
    Reads raw numAnchors numClasses params
      ((offeredAnchors raw numAnchors numClasses params).getD k 0)
      ((candidates raw numAnchors numClasses params).getD k {}) := by
  have hreads : List.Forall₂ (Reads raw numAnchors numClasses params) _ _ := candidates_reads
  have hk' := hreads.length_eq ▸ hk
  rw [List.getD_eq_getElem _ _ hk, List.getD_eq_getElem _ _ hk']
  exact hreads.get hk' hk

end Candidates

/-- The detection of anchor `i`, field by field. -/
structure DetectedAt (raw : ℕ → ℚ) (numAnchors numClasses : ℕ) (params : PostprocessParams) (i : ℕ)
    (d : Detection) : Prop where
  box : d.box = (anchorBox raw numAnchors params i).toBox
  best : ∃ c, ScoresFor raw numAnchors numClasses params i c ∧
    d.confidence = classScore raw numAnchors i c ∧ d.cls = (params.classMap c).getD .unknown
  trackId : d.trackId = -1

theorem Reads.detectedAt {raw : ℕ → ℚ} {numAnchors numClasses : ℕ} {params : PostprocessParams}
    {i : ℕ} {cand : Candidate} (h : Reads raw numAnchors numClasses params i cand) :
    DetectedAt raw numAnchors numClasses params i (toDetection params cand) := by
  obtain ⟨c, hc, rfl⟩ := h
  exact ⟨rfl, ⟨c, hc, rfl, rfl⟩, rfl⟩

end ForkliftSafety
