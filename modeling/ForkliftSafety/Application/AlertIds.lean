import Mathlib.Data.List.Nodup
import ForkliftSafety.Application.Cooldown
import ForkliftSafety.Library.Decimal

/-! Alert ids: an unescaped text of four fields, and the runs in which no two alerts share one. -/
namespace ForkliftSafety

theorem makeAlertId_toList (cameraId : String) (f q : ℤ) (ts : TimePoint) :
    (makeAlertId cameraId f q ts).toList =
      ((cameraId.toList ++ ':' :: ('F' :: (toString f).toList)) ++
        ':' :: ('P' :: (toString q).toList)) ++ ':' :: (toString ts).toList := by
  have hF : ":F".toList = [':', 'F'] := rfl
  have hP : ":P".toList = [':', 'P'] := rfl
  have hsep : ":".toList = [':'] := rfl
  simp only [makeAlertId, String.toList_append, hF, hP, hsep, List.append_assoc,
    List.cons_append, List.nil_append]

/-- The three numbers hold no colon, so they can be read off from the end, whatever the camera id
holds. -/
theorem makeAlertId_injective {cameraId cameraId' : String} {f f' q q' : ℤ} {ts ts' : TimePoint}
    (h : makeAlertId cameraId f q ts = makeAlertId cameraId' f' q' ts') :
    cameraId = cameraId' ∧ f = f' ∧ q = q' ∧ ts = ts' := by
  have hnumeral : ∀ n : ℤ, ':' ∉ (toString n).toList :=
    Decimal.notMem_toString (by decide) (by decide)
  have hfield : ∀ (c : Char) (n : ℤ), c ≠ ':' → ':' ∉ c :: (toString n).toList := by
    intro c n hc hmem
    rcases List.mem_cons.mp hmem with heq | hmem
    · exact hc heq.symm
    · exact hnumeral n hmem
  have hlist := congrArg String.toList h
  rw [makeAlertId_toList, makeAlertId_toList] at hlist
  obtain ⟨hrest, hts⟩ :=
    Decimal.append_cons_inj_of_notMem_right (hnumeral _) (hnumeral _) hlist
  obtain ⟨hrest, hq⟩ :=
    Decimal.append_cons_inj_of_notMem_right (hfield _ _ (by decide)) (hfield _ _ (by decide)) hrest
  obtain ⟨hcamera, hf⟩ :=
    Decimal.append_cons_inj_of_notMem_right (hfield _ _ (by decide)) (hfield _ _ (by decide)) hrest
  rw [List.cons.injEq] at hq hf
  exact ⟨String.toList_inj.mp hcamera, Decimal.toString_injective hf.2,
    Decimal.toString_injective hq.2, Decimal.toString_injective hts⟩

theorem evaluate_alertId {cfg : SafetyZoneConfig} {cameraId : String} {ds : List Detection}
    {frameTs : TimePoint} {a : Alert} (ha : a ∈ evaluate cfg cameraId ds frameTs) :
    a.alertId = makeAlertId cameraId a.forkliftTrackId a.personTrackId a.timestamp := by
  obtain ⟨f, p, _, rfl⟩ := (mem_evaluate_iff cfg cameraId ds frameTs a).mp ha
  rfl

theorem offers_alertId (p : Pipeline) (d : Delivery) : ∀ o ∈ offers p d,
    o.1.alertId = makeAlertId p.cameraId o.1.forkliftTrackId o.1.personTrackId o.1.timestamp := by
  intro o ho
  unfold offers at ho
  split_ifs at ho
  · simp at ho
  · cases hinfer : d.infer <;> simp only [hinfer] at ho
    case detections =>
      obtain ⟨a, ha, rfl⟩ := List.mem_map.mp ho
      exact evaluate_alertId ha
    all_goals simp at ho

/-- With a cooldown of a millisecond or more, only a later reading passes the filter. -/
theorem lt_of_not_withinCooldown {cooldown : Milliseconds} (hcool : 1 ≤ cooldown)
    {frameTs last : TimePoint} (h : withinCooldown cooldown frameTs last = false) :
    last < frameTs := by
  by_contra hle
  have hcast : durationCastMs (frameTs - last) ≤ durationCastMs 0 :=
    durationCastMs_mono (sub_nonpos.mpr (not_lt.mp hle))
  have hfree : cooldown ≤ durationCastMs (frameTs - last) := not_lt.mp (of_decide_eq_false h)
  have hzero : durationCastMs 0 = 0 := Int.zero_tdiv _
  linarith

/-- A pipeline with one worker over a whole run: the frames with the engine's answers and the
clock readings, and the publisher's answers. -/
structure CameraRun where
  pipeline : Pipeline
  publish : ℕ → PublishResult
  deliveries : List Delivery

def CameraRun.handed (r : CameraRun) : List Alert :=
  (submittedLoop r.pipeline r.publish r.deliveries).state.handedAlerts

theorem CameraRun.handed_alertId (r : CameraRun) : ∀ a ∈ r.handed,
    a.alertId = makeAlertId r.pipeline.cameraId a.forkliftTrackId a.personTrackId a.timestamp := by
  intro a ha
  rw [CameraRun.handed, handedAlerts_eq] at ha
  obtain ⟨o, ho, rfl⟩ := List.mem_map.mp ha
  obtain ⟨d, _, hod⟩ := List.mem_flatMap.mp ((Throttle.admitted_sublist _ _ _).subset ho)
  exact offers_alertId r.pipeline d o hod

/-- One worker never hands over the same id twice: alerts of one track get later and later, and
alerts of two tracks differ in the track. -/
theorem CameraRun.handed_ids (r : CameraRun) (hcool : 1 ≤ r.pipeline.cfg.alertCooldown) :
    (r.handed.map Alert.alertId).Nodup := by
  have hlater : r.handed.Pairwise fun a b =>
      a.forkliftTrackId = b.forkliftTrackId → a.timestamp < b.timestamp := by
    rw [CameraRun.handed, handedAlerts_eq, List.pairwise_map]
    exact Throttle.admitted_increasing (cooldownRule r.pipeline.cfg.alertCooldown)
      (fun _ _ => lt_of_not_withinCooldown hcool) _
  rw [List.Nodup, List.pairwise_map]
  apply hlater.imp_of_mem
  intro a b ha hb hab hid
  rw [r.handed_alertId a ha, r.handed_alertId b hb] at hid
  obtain ⟨_, htrack, _, hts⟩ := makeAlertId_injective hid
  exact absurd hts (hab htrack).ne

/-- Cameras with different ids and cooldowns of a millisecond or more never hand two alerts of one
id to the publisher, in whatever order it gets them. -/
theorem alertIds_nodup {runs : List CameraRun}
    (hcameras : (runs.map fun r => r.pipeline.cameraId).Nodup)
    (hcool : ∀ r ∈ runs, 1 ≤ r.pipeline.cfg.alertCooldown) {handed : List Alert}
    (hhanded : handed.Perm (runs.flatMap CameraRun.handed)) :
    (handed.map Alert.alertId).Nodup := by
  rw [(hhanded.map Alert.alertId).nodup_iff, List.map_flatMap, List.nodup_flatMap]
  constructor
  · intro r hr
    exact r.handed_ids (hcool r hr)
  · apply (List.pairwise_map.mp hcameras).imp
    intro r s hne id hidr hids
    obtain ⟨a, ha, rfl⟩ := List.mem_map.mp hidr
    obtain ⟨b, hb, hid⟩ := List.mem_map.mp hids
    rw [r.handed_alertId a ha, s.handed_alertId b hb] at hid
    exact hne (makeAlertId_injective hid).1.symm

/-- Two cameras, the second named like an id of the first, and a clock that goes back. -/
theorem imitated_alertIds_nodup :
    let run (cameraId : String) : CameraRun :=
      ⟨{ cameraId := cameraId }, fun _ => .ok (),
        [alarmFrame { cameraId := cameraId } (5000000000, 0),
          alarmFrame { cameraId := cameraId } (3000000, 1)]⟩
    let handed := [run "a", run "a:F-1:P-1:5"].flatMap CameraRun.handed
    handed.length = 2 ∧ (handed.map Alert.alertId).Nodup :=
  ⟨by decide +kernel, alertIds_nodup (by decide) (by decide) (List.Perm.refl _)⟩

end ForkliftSafety
