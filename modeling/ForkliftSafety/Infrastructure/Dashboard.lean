import ForkliftSafety.Infrastructure.MjpegStreamServer
import ForkliftSafety.Infrastructure.SharedState
import ForkliftSafety.Library.PercentEncoding
import Mathlib.Data.List.Induction

/-! The names of the cameras on their way from `MjpegStreamServer` to the dashboard and back. -/
namespace ForkliftSafety
open Text

/-- The characters that `encodeURIComponent` leaves as they are. -/
def isUnescaped (c : Char) : Bool := c.isAlphanum || "-_.!~*'()".toList.contains c

def encodeURIComponent (s : List Char) : List Char := PercentEncoding.escape isUnescaped s

/-- What `assignCamera` writes into the image of a camera. -/
def streamTarget (camId : List Char) : List Char :=
  "/stream?camera=".toList ++ encodeURIComponent camId

/-- An encoded name has no ampersand, so that it stays in its piece of the query. -/
theorem ampersand_notMem_encodeURIComponent (s : List Char) : '&' ∉ encodeURIComponent s := by
  intro h
  rcases PercentEncoding.mem_escape h with hkeep | hpercent | hdigit
  · exact absurd hkeep (by decide)
  · exact absurd hpercent (by decide)
  · exact absurd hdigit (by decide)

/-- The server reads the name as the dashboard encoded it, and does not decode it. -/
theorem queryParam_streamTarget (s : List Char) :
    queryParam (streamTarget s) "camera".toList = some (encodeURIComponent s) := by
  have hpiece : '&' ∉ "camera".toList ++ '=' :: encodeURIComponent s := by
    rw [List.mem_append, List.mem_cons, not_or, not_or]
    exact ⟨by decide, by decide, ampersand_notMem_encodeURIComponent s⟩
  have htarget : streamTarget s =
      "/stream".toList ++ '?' :: ("camera".toList ++ '=' :: encodeURIComponent s) := rfl
  rw [htarget]
  exact queryParam_single (by decide) (by decide) hpiece

namespace SharedFrames

/-- The frames after a history of calls of `publish`, given by their cameras. Each call makes a
frame of its own, which stands here as its place in the history. -/
def published (names : List (List Char)) : SharedFrames ℕ :=
  names.zipIdx.foldl (fun state call => state.store call.1 call.2) {}

theorem published_concat (names : List (List Char)) (cam : List Char) :
    published (names ++ [cam]) = (published names).store cam names.length := by
  simp [published, List.zipIdx_append, List.foldl_append]

/-- A frame that is found under a name was published for that camera. -/
theorem getElem?_of_latest {names : List (List Char)} {cam : List Char} {i : ℕ}
    (h : (published names).latest cam = some i) : names[i]? = some cam := by
  induction names using List.reverseRecOn with
  | nil => simp [published] at h
  | append_singleton names last ih =>
    rw [published_concat, latest_store] at h
    split_ifs at h with hcam
    · rw [Option.some.injEq] at h
      subst hcam h
      exact List.getElem?_concat_length
    · have hbefore := ih h
      have hlt := (List.getElem?_eq_some_iff.mp hbefore).1
      rw [List.getElem?_append_left hlt, hbefore]

theorem latest_isSome_iff (names : List (List Char)) (cam : List Char) :
    ((published names).latest cam).isSome = true ↔ cam ∈ names := by
  induction names using List.reverseRecOn with
  | nil => simp [published]
  | append_singleton names last ih =>
    rw [published_concat, latest_store, List.mem_append, List.mem_singleton, ← ih]
    split_ifs with hcam <;> simp [hcam]

/-- The first camera in `camera_order` is the first one that published. -/
theorem head?_cameraOrder (names : List (List Char)) :
    (published names).cameraOrder.head? = names.head? := by
  induction names using List.reverseRecOn with
  | nil => rfl
  | append_singleton names last ih =>
    rw [published_concat, store]
    dsimp only
    split_ifs with hnew
    · rw [List.head?_append, List.head?_append, ih]
    · rw [ih, List.head?_append]
      have hmem : last ∈ names := by
        rw [← latest_isSome_iff]
        simpa [Option.isSome_iff_ne_none] using hnew
      cases names with
      | nil => simp at hmem
      | cons first names => rfl

/-- A name finds its own frames, except that the empty name stands for the first camera. -/
theorem latestFor_eq_latest_iff {names : List (List Char)} {cam : List Char} (h : cam ∈ names) :
    (published names).latestFor cam = (published names).latest cam ↔
      (cam = [] → names.head? = some []) := by
  by_cases hcam : cam = []
  · subst hcam
    rw [latestFor_nil, head?_cameraOrder]
    obtain ⟨first, hfirst⟩ := Option.isSome_iff_exists.mp
      (List.isSome_head?.mpr (List.ne_nil_of_mem h))
    simp only [hfirst, Option.getD_some, forall_const, Option.some.injEq]
    constructor
    · intro heq
      obtain ⟨i, hi⟩ := Option.isSome_iff_exists.mp ((latest_isSome_iff names []).mpr h)
      have hnil := getElem?_of_latest hi
      have hsame := getElem?_of_latest (heq.trans hi)
      rw [hnil, Option.some.injEq] at hsame
      exact hsame.symm
    · rintro rfl
      rfl
  · simp [latestFor_of_ne_nil _ hcam, hcam]

end SharedFrames

/-- The dashboard gets the frames of a camera by its name exactly when the name needs no escapes,
and is not empty unless it belongs to the first camera. The target is the string that `app.js`
builds; the URL parser of a browser writes an apostrophe in it as `%27` before it is sent. -/
theorem dashboard_roundTrip_iff (names : List (List Char)) {s : List Char} (hs : s ∈ names) :
    (queryParam (streamTarget s) "camera".toList = some s ∧
        (SharedFrames.published names).latestFor s = (SharedFrames.published names).latest s) ↔
      (∀ c ∈ s, isUnescaped c = true) ∧ (s = [] → names.head? = some []) := by
  rw [queryParam_streamTarget, Option.some.injEq, encodeURIComponent,
    PercentEncoding.escape_eq_self_iff, SharedFrames.latestFor_eq_latest_iff hs]

theorem dashboard_roundTrip_cam01 :
    "cam-01".toList ∈ ["cam-02".toList, "cam-01".toList] ∧
      ((queryParam (streamTarget "cam-01".toList) "camera".toList = some "cam-01".toList ∧
          (SharedFrames.published ["cam-02".toList, "cam-01".toList]).latestFor "cam-01".toList =
            (SharedFrames.published ["cam-02".toList, "cam-01".toList]).latest "cam-01".toList) ↔
        (∀ c ∈ "cam-01".toList, isUnescaped c = true) ∧
          ("cam-01".toList = [] → ["cam-02".toList, "cam-01".toList].head? = some [])) :=
  ⟨by decide, dashboard_roundTrip_iff _ (by decide)⟩

/-- A space comes back as an escape, under which no camera is stored. -/
theorem dashboard_roundTrip_dockA :
    queryParam (streamTarget "dock a".toList) "camera".toList = some "dock%20a".toList ∧
      (SharedFrames.published ["dock a".toList]).latestFor "dock%20a".toList = none ∧
      ¬ ∀ (names : List (List Char)) (s : List Char), s ∈ names →
        queryParam (streamTarget s) "camera".toList = some s ∧
          (SharedFrames.published names).latestFor s = (SharedFrames.published names).latest s := by
  have hparam : queryParam (streamTarget "dock a".toList) "camera".toList =
      some "dock%20a".toList := by decide +kernel
  refine ⟨hparam, by decide +kernel, ?_⟩
  intro h
  have hsame := (h ["dock a".toList] "dock a".toList (by decide)).1
  rw [hparam] at hsame
  exact absurd hsame (by decide)

end ForkliftSafety
