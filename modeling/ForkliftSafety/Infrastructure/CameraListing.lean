import ForkliftSafety.Infrastructure.ViewerOutput
import ForkliftSafety.Library.JsonLocal

/-! The list of the cameras of `SharedState`, over every history of calls of `store`. -/
namespace ForkliftSafety
open Json

/-- When cameras are added behind the ones that are there, whoever reads both documents finds the
earlier list at the front of the later one, whatever stands in the names. -/
theorem camerasJson_grows {names names' : List (List Char)} (h : names <+: names')
    {vs vs' : List Value} (hvs : parse (camerasJson names) = some (.array vs))
    (hvs' : parse (camerasJson names') = some (.array vs')) : vs <+: vs' := by
  obtain ⟨more, rfl⟩ := h
  rw [camerasJson_eq] at hvs hvs'
  rw [List.map_append] at hvs'
  refine arrayText_prefix (fun i hi => ?_) hvs hvs'
  obtain ⟨name, _, rfl⟩ := List.mem_map.mp hi
  exact ⟨'"', name ++ ['"'], rfl, by decide, by decide⟩

theorem eraseDups_prefix (names more : List (List Char)) :
    names.eraseDups <+: (names ++ more).eraseDups := by
  rw [List.eraseDups_append]
  exact List.prefix_append _ _

theorem nodup_eraseDups (names : List (List Char)) : names.eraseDups.Nodup := by
  induction names using List.reverseRecOn with
  | nil => exact List.nodup_nil
  | append_singleton names name ih =>
    rw [eraseDups_concat]
    split_ifs with hseen
    · exact ih
    · rw [← List.concat_eq_append, List.nodup_concat, List.mem_eraseDups]
      exact ⟨hseen, ih⟩

namespace SharedFrames
variable {φ : Type*}

/-- The frames after a history of calls of `store`, each with its camera and its frame. -/
def storeAll (calls : List (List Char × φ)) : SharedFrames φ :=
  calls.foldl (fun s call => s.store call.1 call.2) {}

theorem storeAll_concat (calls : List (List Char × φ)) (call : List Char × φ) :
    storeAll (calls ++ [call]) = (storeAll calls).store call.1 call.2 := List.foldl_concat ..

theorem storeAll_listed (calls : List (List Char × φ)) :
    Listed (calls.map Prod.fst) (storeAll calls) := by
  induction calls using List.reverseRecOn with
  | nil => exact ⟨rfl, fun c => by simp [storeAll]⟩
  | append_singleton calls call ih =>
    rw [storeAll_concat, List.map_append]
    exact ih.store call.1 call.2

/-- The frame of the last call of a history that stores one for the camera. -/
def lastFrame (calls : List (List Char × φ)) (cam : List Char) : Option φ :=
  (calls.reverse.find? fun call => call.1 = cam).map Prod.snd

theorem latest_storeAll (calls : List (List Char × φ)) (cam : List Char) :
    (storeAll calls).latest cam = lastFrame calls cam := by
  induction calls using List.reverseRecOn with
  | nil => rfl
  | append_singleton calls call ih =>
    rw [storeAll_concat, latest_store, lastFrame, List.reverse_concat, List.find?_cons]
    by_cases hcam : call.1 = cam
    · simp [hcam]
    · rw [if_neg (Ne.symm hcam), ih, decide_eq_false hcam]
      rfl

theorem store_grows (s : SharedFrames φ) (cam : List Char) (jpeg : φ) :
    s.cameraOrder <+: (s.store cam jpeg).cameraOrder := by
  unfold store
  split_ifs
  · exact List.prefix_append _ _
  · exact List.prefix_rfl

theorem cameraOrder_grows (calls more : List (List Char × φ)) :
    (storeAll calls).cameraOrder <+: (storeAll (calls ++ more)).cameraOrder := by
  rw [(storeAll_listed calls).order, (storeAll_listed (calls ++ more)).order, List.map_append]
  exact eraseDups_prefix _ _

theorem mem_cameraOrder_iff (calls : List (List Char × φ)) (c : List Char) :
    c ∈ (storeAll calls).cameraOrder ↔ ((storeAll calls).latest c).isSome = true := by
  rw [(storeAll_listed calls).there, (storeAll_listed calls).order, List.mem_eraseDups]

/-- The list of the cameras after a history, what its document is read as, and what both have in
common with those after any longer history. -/
structure StableListing (calls : List (List Char × φ)) : Prop where
  nodup : (storeAll calls).cameraOrder.Nodup
  keys : ∀ c, c ∈ (storeAll calls).cameraOrder ↔ ((storeAll calls).latest c).isSome = true
  grows : ∀ more, (storeAll calls).cameraOrder <+: (storeAll (calls ++ more)).cameraOrder
  documents : ∀ more vs vs', parse (camerasJson (storeAll calls).cameraOrder) = some (.array vs) →
    parse (camerasJson (storeAll (calls ++ more)).cameraOrder) = some (.array vs') → vs <+: vs'
  read : (∀ c ∈ (storeAll calls).cameraOrder, PlainText c) →
    parse (camerasJson (storeAll calls).cameraOrder) =
      some (.array ((storeAll calls).cameraOrder.map .string))
  named : ∀ c ∈ (storeAll calls).cameraOrder, c ≠ [] →
    ((storeAll calls).latestFor c).isSome = true ∧
      (storeAll calls).latestFor c = lastFrame calls c
  unnamed : ∀ first ∈ (storeAll calls).cameraOrder.head?,
    ((storeAll calls).latestFor []).isSome = true ∧
      (storeAll calls).latestFor [] = lastFrame calls first

theorem storeAll_stable (calls : List (List Char × φ)) : StableListing calls where
  nodup := by
    rw [(storeAll_listed calls).order]
    exact nodup_eraseDups _
  keys := mem_cameraOrder_iff calls
  grows := cameraOrder_grows calls
  documents := fun more _ _ => camerasJson_grows (cameraOrder_grows calls more)
  read := by
    rw [camerasJson_eq]
    exact (parse_quoted_iff _).mpr
  named := by
    intro c hc hname
    rw [latestFor_of_ne_nil _ hname, ← latest_storeAll]
    exact ⟨(mem_cameraOrder_iff calls c).mp hc, rfl⟩
  unnamed := by
    intro first hfirst
    rw [latestFor_nil, Option.mem_def.mp hfirst, Option.getD_some, ← latest_storeAll]
    exact ⟨(mem_cameraOrder_iff calls first).mp (List.mem_of_mem_head? hfirst), rfl⟩

end SharedFrames
end ForkliftSafety
