import ForkliftSafety.Application.Cooldown

/-! The cooldown filter of one worker over any alerts: the loop of `inference_loop` with the risk
service left open. -/
namespace ForkliftSafety

/-- The alerts that one processed frame raises, all stamped with the frame's clock reading. -/
structure AlertBatch where
  frameTs : TimePoint
  elapsed : TimePoint := frameTs
  alerts : List Alert
  stamped : ∀ a ∈ alerts, a.timestamp = frameTs

/-- The batch without the alerts of other tracks. -/
def AlertBatch.only (b : AlertBatch) (track : ℤ) : AlertBatch where
  frameTs := b.frameTs
  elapsed := b.elapsed
  alerts := b.alerts.filter fun a => a.forkliftTrackId = track
  stamped a ha := b.stamped a (List.mem_of_mem_filter ha)

def AlertBatch.offers (b : AlertBatch) : List (Alert × TimePoint) :=
  b.alerts.map (·, b.elapsed)

section Filter
variable (p : Pipeline) (publish : ℕ → PublishResult)

def processBatches (s : LoopState) (bs : List AlertBatch) : LoopState :=
  bs.foldl (fun s b => alertLoop p publish b.frameTs b.elapsed s b.alerts) s

/-- The alerts of one track handed to `publish`, in order. -/
def LoopState.handedFor (s : LoopState) (track : ℤ) : List Alert :=
  s.handedAlerts.filter fun a => a.forkliftTrackId = track

theorem processBatches_entries (s : LoopState) (bs : List AlertBatch) :
    (processBatches p publish s bs).decisions.map Decision.entry =
      s.decisions.map Decision.entry ++
        Throttle.scan (cooldownRule p.cfg.alertCooldown) s.lastAlert
          (bs.flatMap AlertBatch.offers) := by
  induction bs generalizing s with
  | nil => simp [processBatches, Throttle.scan]
  | cons b bs ih =>
    obtain ⟨htable, hscan⟩ := alertLoop_spec p publish b.frameTs b.elapsed s b.stamped
    have htail := ih (alertLoop p publish b.frameTs b.elapsed s b.alerts)
    rw [htable, hscan, List.append_assoc, ← Throttle.scan_append] at htail
    exact htail

/-- The decisions over batches are the verdicts of an empty throttle on their offers. -/
theorem freshBatches_entries (bs : List AlertBatch) :
    (processBatches p publish {} bs).decisions.map Decision.entry =
      Throttle.scan (cooldownRule p.cfg.alertCooldown) (fun _ => none)
        (bs.flatMap AlertBatch.offers) :=
  processBatches_entries p publish {} bs

/-- Two states of the loop that differ at most in what went to the viewer. -/
structure SameFilter (s t : LoopState) : Prop where
  lastAlert : s.lastAlert = t.lastAlert
  calls : s.calls = t.calls
  decisions : s.decisions = t.decisions

variable {p publish}

theorem SameFilter.alertStep {s t : LoopState} (h : SameFilter s t) (frameTs elapsed : TimePoint)
    (a : Alert) :
    SameFilter (alertStep p publish frameTs elapsed s a)
      (alertStep p publish frameTs elapsed t a) := by
  unfold ForkliftSafety.alertStep
  rw [h.lastAlert]
  by_cases hs : suppresses p.cfg.alertCooldown t.lastAlert frameTs a
  · constructor <;> simp [hs, h.calls, h.decisions]
  · constructor <;> simp [hs, h.calls, h.decisions]

theorem SameFilter.alertLoop {s t : LoopState} (h : SameFilter s t) (frameTs elapsed : TimePoint)
    (alerts : List Alert) :
    SameFilter (alertLoop p publish frameTs elapsed s alerts)
      (alertLoop p publish frameTs elapsed t alerts) := by
  induction alerts generalizing s t with
  | nil => exact h
  | cons a alerts ih => exact ih (h.alertStep frameTs elapsed a)

theorem SameFilter.publishView {s t : LoopState} (h : SameFilter s t) (frame : Frame)
    (ds : List Detection) : SameFilter (publishView p s frame ds) t := by
  unfold ForkliftSafety.publishView
  cases p.viewing with
  | none => exact h
  | some zones => exact ⟨h.lastAlert, h.calls, h.decisions⟩

variable (p publish)

/-- The alerts that the risk service returns for a frame, if the loop gets to it. -/
def Delivery.alerts (d : Delivery) : List Alert :=
  if d.frame.empty then []
  else
    match d.infer with
    | .detections ds => evaluate p.safetyZone p.cameraId ds d.frameTs
    | _ => []

theorem Delivery.alerts_stamped (d : Delivery) : ∀ a ∈ d.alerts p, a.timestamp = d.frameTs := by
  intro a ha
  unfold Delivery.alerts at ha
  split_ifs at ha
  · simp at ha
  · cases hinfer : d.infer <;> simp only [hinfer] at ha
    case detections => exact evaluate_timestamp ha
    all_goals simp at ha

def Delivery.batch (d : Delivery) : AlertBatch where
  frameTs := d.frameTs
  elapsed := d.elapsed
  alerts := d.alerts p
  stamped := d.alerts_stamped p

theorem loopBody_sameFilter {s t s' : LoopState} {d : Delivery} (h : SameFilter s t)
    (hbody : loopBody p publish s d = some s') :
    SameFilter s' (alertLoop p publish d.frameTs d.elapsed t (d.alerts p)) := by
  unfold loopBody at hbody
  unfold Delivery.alerts
  by_cases hempty : d.frame.empty
  · simp only [hempty, ↓reduceIte, Option.some.injEq] at hbody ⊢
    rw [← hbody]
    exact h
  · simp only [hempty, Bool.false_eq_true, ↓reduceIte] at hbody ⊢
    cases hinfer : d.infer <;> simp only [hinfer, Option.some.injEq] at hbody ⊢
    case detections =>
      rw [← hbody]
      exact (h.publishView d.frame _).alertLoop d.frameTs d.elapsed _
    case error =>
      rw [← hbody]
      exact h
    case threw => contradiction

theorem inferenceLoop_sameFilter {s t : LoopState} (h : SameFilter s t) (ds : List Delivery) :
    SameFilter (inferenceLoop p publish s ds).state
      (processBatches p publish t ((passed ds).map (Delivery.batch p))) := by
  induction ds generalizing s t with
  | nil => exact h
  | cons d ds ih =>
    cases hbody : loopBody p publish s d with
    | none =>
      have hthrows := (loopBody_eq_none_iff p publish s d).mp hbody
      simp only [inferenceLoop, hbody, passed, List.takeWhile_cons, hthrows, Bool.not_true,
        Bool.false_eq_true, ↓reduceIte]
      exact h
    | some s' =>
      have hthrows : d.throws = false := by
        rw [← Bool.not_eq_true, ← loopBody_eq_none_iff p publish s d, hbody]
        simp
      have htail := ih (loopBody_sameFilter p publish h hbody)
      simp only [inferenceLoop, hbody, passed, List.takeWhile_cons, hthrows, Bool.not_false,
        ↓reduceIte, List.map_cons]
      exact htail

/-- What a submitted loop decides is what the filter decides on the alerts of its frames. -/
theorem submittedLoop_decisions (ds : List Delivery) :
    (submittedLoop p publish ds).state.decisions =
      (processBatches p publish {} ((passed ds).map (Delivery.batch p))).decisions :=
  (inferenceLoop_sameFilter p publish ⟨rfl, rfl, rfl⟩ ds).decisions

theorem batches_offers_sorted {bs : List AlertBatch}
    (hsorted : bs.Pairwise fun b c => b.frameTs ≤ c.frameTs) :
    (bs.flatMap AlertBatch.offers).Pairwise fun x y => x.1.timestamp ≤ y.1.timestamp := by
  have hstamp : ∀ b : AlertBatch, ∀ x ∈ b.offers, x.1.timestamp = b.frameTs := by
    intro b x hx
    obtain ⟨a, ha, rfl⟩ := List.mem_map.mp hx
    exact b.stamped a ha
  rw [List.pairwise_flatMap]
  constructor
  · intro b _
    apply List.pairwise_of_forall_mem_list
    intro x hx y hy
    exact ((hstamp b x hx).trans (hstamp b y hy).symm).le
  · apply hsorted.imp
    intro b c hbc x hx y hy
    rw [hstamp b x hx, hstamp c y hy]
    exact hbc

theorem batches_decisions_sorted {bs : List AlertBatch}
    (hsorted : bs.Pairwise fun b c => b.frameTs ≤ c.frameTs) :
    (processBatches p publish {} bs).decisions.Pairwise
      fun y x => y.alert.timestamp ≤ x.alert.timestamp := by
  have hoffers := batches_offers_sorted hsorted
  rw [← Throttle.scan_map_fst (cooldownRule p.cfg.alertCooldown) (fun _ => none)
    (bs.flatMap AlertBatch.offers), ← freshBatches_entries p publish bs, List.map_map,
    List.pairwise_map] at hoffers
  exact hoffers

/-- Handed alerts of one track are at least the cooldown apart, in exact durations. -/
theorem handedFor_spaced {bs : List AlertBatch}
    (hsorted : bs.Pairwise fun b c => b.frameTs ≤ c.frameTs) (track : ℤ) :
    ((processBatches p publish {} bs).handedFor track).Pairwise fun a b =>
      p.cfg.alertCooldown * 1000000 ≤ b.timestamp - a.timestamp := by
  have hoffers := batches_offers_sorted hsorted
  have hspaced := Throttle.admitted_spaced (cooldownRule p.cfg.alertCooldown)
    (fun _ _ _ => withinCooldown_mono) hoffers
  have hboth := hspaced.and
    (hoffers.sublist (Throttle.admitted_sublist (cooldownRule p.cfg.alertCooldown) _ _))
  rw [LoopState.handedFor, handedAlerts_of_entries (freshBatches_entries p publish bs)]
  rw [List.pairwise_filter, List.pairwise_map]
  apply hboth.imp
  intro x y hxy hx hy
  have hkey : x.1.forkliftTrackId = y.1.forkliftTrackId := by
    rw [of_decide_eq_true hx, of_decide_eq_true hy]
  have hgap := le_abs_of_not_withinCooldown (hxy.1 hkey)
  change p.cfg.alertCooldown * 1000000 ≤ |y.1.timestamp - x.1.timestamp| at hgap
  rwa [abs_of_nonneg (sub_nonneg.mpr hxy.2)] at hgap

theorem offers_only (bs : List AlertBatch) (track : ℤ) :
    (bs.map fun b => b.only track).flatMap AlertBatch.offers =
      (bs.flatMap AlertBatch.offers).filter fun x => x.1.forkliftTrackId = track := by
  induction bs with
  | nil => rfl
  | cons b bs ih =>
    simp only [List.map_cons, List.flatMap_cons, List.filter_append, ih]
    simp only [AlertBatch.offers, AlertBatch.only, List.filter_map]
    rfl

theorem handedFor_eq_admitted (bs : List AlertBatch) (track : ℤ) :
    (processBatches p publish {} bs).handedFor track =
      (Throttle.admitted (cooldownRule p.cfg.alertCooldown) (fun _ => none)
        ((bs.flatMap AlertBatch.offers).filter fun x => x.1.forkliftTrackId = track)).map
          Prod.fst := by
  have hkey := Throttle.admitted_filter_key (cooldownRule p.cfg.alertCooldown) (fun _ => none)
    (bs.flatMap AlertBatch.offers) track
  change _ = Throttle.admitted _ _
    ((bs.flatMap AlertBatch.offers).filter fun x => x.1.forkliftTrackId = track) at hkey
  rw [LoopState.handedFor, handedAlerts_of_entries (freshBatches_entries p publish bs),
    List.filter_map, ← hkey]
  rfl

/-- The alerts of other tracks have no influence. -/
theorem handedFor_only (bs : List AlertBatch) (track : ℤ) :
    (processBatches p publish {} (bs.map fun b => b.only track)).handedFor track =
      (processBatches p publish {} bs).handedFor track := by
  rw [handedFor_eq_admitted, handedFor_eq_admitted, offers_only, List.filter_filter]
  simp only [Bool.and_self]

/-- At most `⌊T / C⌋ + 1` alerts of one track go out in a closed window of length `T`. -/
theorem handedFor_window {bs : List AlertBatch}
    (hsorted : bs.Pairwise fun b c => b.frameTs ≤ c.frameTs) (hcool : 0 < p.cfg.alertCooldown)
    (track : ℤ) (s T : TimePoint) (hT : 0 ≤ T) :
    ((((processBatches p publish {} bs).handedFor track).filter fun a =>
        s ≤ a.timestamp ∧ a.timestamp ≤ s + T).length : ℤ) ≤
      T / (p.cfg.alertCooldown * 1000000) + 1 := by
  have hspaced := (handedFor_spaced p publish hsorted track).filter fun a =>
    decide (s ≤ a.timestamp ∧ a.timestamp ≤ s + T)
  rw [← List.length_map Alert.timestamp]
  apply Throttle.length_le_of_spaced (s := s) (by linarith) hT
  · exact List.pairwise_map.mpr hspaced
  · intro t ht
    obtain ⟨a, ha, rfl⟩ := List.mem_map.mp ht
    exact of_decide_eq_true (List.mem_filter.mp ha).2

/-- Every alert of the run is decided on once, in order: handed over or suppressed. -/
theorem decisions_alerts (bs : List AlertBatch) :
    (processBatches p publish {} bs).decisions.map Decision.alert =
      bs.flatMap AlertBatch.alerts := by
  have hoffers : ∀ b : AlertBatch, b.offers.map Prod.fst = b.alerts := by
    intro b
    rw [AlertBatch.offers, List.map_map]
    exact List.map_id b.alerts
  rw [alerts_of_entries (freshBatches_entries p publish bs), List.map_flatMap]
  simp only [hoffers]

/-- What the filter owes one track over a run: every alert is handed over or suppressed, the alerts
handed over are spaced by the cooldown, every suppressed alert follows one by less, other tracks do
not matter, and a closed window holds no more alerts than its length allows. -/
structure CooldownKept (bs : List AlertBatch) (track : ℤ) : Prop where
  decided : (processBatches p publish {} bs).decisions.map Decision.alert =
    bs.flatMap AlertBatch.alerts
  spaced : ((processBatches p publish {} bs).handedFor track).Pairwise fun a b =>
    p.cfg.alertCooldown * 1000000 ≤ b.timestamp - a.timestamp
  suppressed : SuppressedAfter
    (fun y x => 0 ≤ x.alert.timestamp - y.alert.timestamp ∧
      x.alert.timestamp - y.alert.timestamp < p.cfg.alertCooldown * 1000000)
    (processBatches p publish {} bs).decisions
  isolated : (processBatches p publish {} (bs.map fun b => b.only track)).handedFor track =
    (processBatches p publish {} bs).handedFor track
  window : 0 < p.cfg.alertCooldown → ∀ s T : TimePoint, 0 ≤ T →
    ((((processBatches p publish {} bs).handedFor track).filter fun a =>
      s ≤ a.timestamp ∧ a.timestamp ≤ s + T).length : ℤ) ≤
        T / (p.cfg.alertCooldown * 1000000) + 1

/-- On a clock that never goes back, the filter keeps the cooldown of every track. -/
theorem processBatches_cooldownKept {bs : List AlertBatch}
    (hsorted : bs.Pairwise fun b c => b.frameTs ≤ c.frameTs) (track : ℤ) :
    CooldownKept p publish bs track := by
  constructor
  · exact decisions_alerts p publish bs
  · exact handedFor_spaced p publish hsorted track
  · apply (suppressedAfter_of_entries (freshBatches_entries p publish bs)).of_pairwise
      (batches_decisions_sorted p publish hsorted)
    intro y x hwithin hle
    exact ⟨sub_nonneg.mpr hle, lt_of_durationCastMs_lt (of_decide_eq_true hwithin)⟩
  · exact handedFor_only p publish bs track
  · intro hcool s T hT
    exact handedFor_window p publish hsorted hcool track s T hT

end Filter

/-- Two alerts of one frame, and a third one nanosecond before the cooldown ends. -/
def nearlyCooledDown : List AlertBatch :=
  [{ frameTs := 0, alerts := [{ forkliftTrackId := 7 }, { forkliftTrackId := 8 }],
     stamped := by simp },
   { frameTs := 1999999999, alerts := [{ forkliftTrackId := 7, timestamp := 1999999999 }],
     stamped := by simp }]

theorem nearlyCooledDown_cooldownKept :
    CooldownKept { cameraId := "dock" } (fun _ => .ok ()) nearlyCooledDown 7 :=
  processBatches_cooldownKept { cameraId := "dock" } (fun _ => .ok ()) (by decide) 7

end ForkliftSafety
