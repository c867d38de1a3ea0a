import Mathlib.Data.List.Pairwise
import ForkliftSafety.Application.InferenceLoop

/-! What the cooldown filter of one worker suppresses, over whole runs. -/
namespace ForkliftSafety

/-- The clocks of a frame, `system_clock` first. -/
def Delivery.clock (d : Delivery) : TimePoint × TimePoint := (d.frameTs, d.elapsed)

def Decision.clock (x : Decision) : TimePoint × TimePoint := (x.alert.timestamp, x.elapsed)

theorem clock_pairwise_le {ds : List Delivery}
    (h : ds.Pairwise fun d e => d.frameTs ≤ e.frameTs) :
    (ds.map Delivery.clock).Pairwise fun c d => c.1 ≤ d.1 := by
  rw [List.pairwise_map]
  exact h

/-- Every suppressed alert follows an alert of its track that was handed to `publish` and that
`ok` accepts. -/
def SuppressedAfter (ok : Decision → Decision → Prop) (xs : List Decision) : Prop :=
  ∀ i : Fin xs.length, (xs.get i).verdict.isHanded = false →
    ∃ j : Fin xs.length, j < i ∧ (xs.get j).verdict.isHanded = true ∧
      (xs.get j).alert.forkliftTrackId = (xs.get i).alert.forkliftTrackId ∧
      ok (xs.get j) (xs.get i)

instance (ok : Decision → Decision → Prop) [DecidableRel ok] (xs : List Decision) :
    Decidable (SuppressedAfter ok xs) := by
  unfold SuppressedAfter
  infer_instance

theorem SuppressedAfter.of_pairwise {ok ok' q : Decision → Decision → Prop}
    {xs : List Decision} (h : SuppressedAfter ok xs) (hq : xs.Pairwise q)
    (himp : ∀ y x, ok y x → q y x → ok' y x) : SuppressedAfter ok' xs := by
  intro i hi
  obtain ⟨j, hji, hhanded, htrack, hok⟩ := h i hi
  exact ⟨j, hji, hhanded, htrack, himp _ _ hok (List.pairwise_iff_get.mp hq j i hji)⟩

/-- Decisions that are the verdicts of a fresh throttle: a suppressed alert follows an alert of its
track, handed to `publish`, whose timestamp is within the cooldown of its own. -/
theorem suppressedAfter_of_entries {cooldown : Milliseconds} {xs : List Decision}
    {offered : List (Alert × TimePoint)}
    (h : xs.map Decision.entry = Throttle.scan (cooldownRule cooldown) (fun _ => none) offered) :
    SuppressedAfter (fun y x => withinCooldown cooldown x.alert.timestamp
      y.alert.timestamp = true) xs := by
  intro i hi
  have hsplit : xs = xs.take i ++ xs.get i :: xs.drop (i + 1) := by
    simp
  rw [hsplit, List.map_append, List.map_cons] at h
  have hentry : (xs.get i).entry = (((xs.get i).alert, (xs.get i).elapsed), false) := by
    rw [Decision.entry, hi]
  rw [hentry] at h
  obtain ⟨b, hb, hkey, hblocked⟩ := Throttle.refused_has_blocker _ h.symm
  obtain ⟨y, hy, hyb⟩ := List.mem_map.mp hb
  obtain ⟨j, hj, rfl⟩ := List.mem_take_iff_getElem.mp hy
  have hjlen : j < xs.length := by omega
  simp only [Decision.entry, Prod.mk.injEq] at hyb
  obtain ⟨rfl, hhanded⟩ := hyb
  refine ⟨⟨j, hjlen⟩, ?_, hhanded, hkey, hblocked⟩
  rw [Fin.lt_def]
  change j < i.val
  omega

section Run
variable (p : Pipeline) (publish : ℕ → PublishResult)

theorem offers_clock (d : Delivery) : ∀ o ∈ offers p d, (o.1.timestamp, o.2) = d.clock := by
  intro o ho
  unfold offers at ho
  cases hempty : d.frame.empty
  · cases hinfer : d.infer with
    | detections ds =>
      simp only [hempty, hinfer, Bool.false_eq_true, ↓reduceIte, List.mem_map] at ho
      obtain ⟨a, ha, rfl⟩ := ho
      rw [evaluate_timestamp ha]
      rfl
    | error e => simp [hempty, hinfer] at ho
    | threw => simp [hempty, hinfer] at ho
  · simp [hempty] at ho

/-- A relation between the clocks of the frames holds between the clocks of the offers. -/
theorem offers_clock_pairwise {q : TimePoint × TimePoint → TimePoint × TimePoint → Prop}
    (hrefl : ∀ c, q c c) {ds : List Delivery} (h : (ds.map Delivery.clock).Pairwise q) :
    ((passed ds).flatMap (offers p)).Pairwise
      fun a b => q (a.1.timestamp, a.2) (b.1.timestamp, b.2) := by
  have hpassed : (passed ds).Pairwise fun d e => q d.clock e.clock :=
    (List.pairwise_map.mp h).sublist (List.takeWhile_sublist _)
  rw [List.pairwise_flatMap]
  constructor
  · intro d _
    apply List.pairwise_of_forall_mem_list
    intro a ha b hb
    rw [offers_clock p d a ha, offers_clock p d b hb]
    exact hrefl _
  · apply hpassed.imp
    intro d e hde a ha b hb
    rwa [offers_clock p d a ha, offers_clock p e b hb]

/-- A relation between the clocks of the frames holds between the clocks of the decisions. -/
theorem decisions_clock_pairwise {q : TimePoint × TimePoint → TimePoint × TimePoint → Prop}
    (hrefl : ∀ c, q c c) {ds : List Delivery} (h : (ds.map Delivery.clock).Pairwise q) :
    (submittedLoop p publish ds).state.decisions.Pairwise fun y x => q y.clock x.clock := by
  have hoffers := offers_clock_pairwise p hrefl h
  rw [← Throttle.scan_map_fst (cooldownRule p.cfg.alertCooldown) (fun _ => none)
    ((passed ds).flatMap (offers p)), ← submittedLoop_entries p publish ds, List.map_map,
    List.pairwise_map] at hoffers
  exact hoffers

/-- A suppressed alert follows an alert of its track, handed to `publish`, whose wall-clock
timestamp is within the cooldown of its own. -/
theorem suppressed_within_cooldown (ds : List Delivery) :
    SuppressedAfter (fun y x => withinCooldown p.cfg.alertCooldown x.alert.timestamp
      y.alert.timestamp = true) (submittedLoop p publish ds).state.decisions :=
  suppressedAfter_of_entries (submittedLoop_entries p publish ds)

/-- Any two alerts of one track carry timestamps at least the cooldown apart. -/
def RateLimited (cooldown : Milliseconds) (alerts : List Alert) : Prop :=
  alerts.Pairwise fun a b => a.forkliftTrackId = b.forkliftTrackId →
    cooldown * 1000000 ≤ |b.timestamp - a.timestamp|

theorem le_abs_of_not_withinCooldown {cooldown : Milliseconds} {frameTs last : TimePoint}
    (h : withinCooldown cooldown frameTs last = false) :
    cooldown * 1000000 ≤ |frameTs - last| := by
  have hle : cooldown ≤ (frameTs - last).tdiv 1000000 := not_lt.mp (of_decide_eq_false h)
  rcases le_or_gt 0 (frameTs - last) with hd | hd
  · rw [Int.tdiv_eq_ediv_of_nonneg hd] at hle
    have hself := le_abs_self (frameTs - last)
    linarith [Int.ediv_mul_le (frameTs - last) (b := 1000000) (by decide)]
  · have hneg : (frameTs - last).tdiv 1000000 ≤ 0 :=
      (durationCastMs_mono hd.le).trans_eq (Int.zero_tdiv _)
    have habs := abs_nonneg (frameTs - last)
    linarith

/-- A later alert suppresses whatever an earlier one suppresses. -/
theorem withinCooldown_mono {cooldown : Milliseconds} {frameTs last last' : TimePoint}
    (hle : last ≤ last') (h : withinCooldown cooldown frameTs last = true) :
    withinCooldown cooldown frameTs last' = true := by
  have hmono : durationCastMs (frameTs - last') ≤ durationCastMs (frameTs - last) :=
    durationCastMs_mono (sub_le_sub_left hle frameTs)
  exact decide_eq_true (hmono.trans_lt (of_decide_eq_true h))

/-- On a clock that never goes back, the alerts that one loop hands over are rate limited. -/
theorem handedAlerts_rateLimited {ds : List Delivery}
    (hclock : ds.Pairwise fun d e => d.frameTs ≤ e.frameTs) :
    RateLimited p.cfg.alertCooldown (submittedLoop p publish ds).state.handedAlerts := by
  have hoffers := offers_clock_pairwise p (q := fun c d => c.1 ≤ d.1) (fun _ => le_rfl)
    (clock_pairwise_le hclock)
  rw [handedAlerts_eq, RateLimited, List.pairwise_map]
  have hspaced := Throttle.admitted_spaced (cooldownRule p.cfg.alertCooldown)
    (fun _ _ _ => withinCooldown_mono) hoffers
  apply hspaced.imp
  intro a b hfree hkey
  exact le_abs_of_not_withinCooldown (hfree hkey)

def liveFrame : Frame := { image := ⟨1280, 720⟩ }

def quietFrame (c : TimePoint × TimePoint) : Delivery := ⟨liveFrame, .detections [], c.1, c.2⟩

def alarmFrame (c : TimePoint × TimePoint) : Delivery :=
  ⟨liveFrame, .detections (alarmScene p.safetyZone), c.1, c.2⟩

theorem offers_quietFrame (c : TimePoint × TimePoint) : offers p (quietFrame c) = [] := rfl

theorem offers_alarmFrame (c : TimePoint × TimePoint) :
    ∃ a : Alert, offers p (alarmFrame p c) = [(a, c.2)] ∧
      a.forkliftTrackId = -1 ∧ a.timestamp = c.1 := by
  obtain ⟨a, ha, htrack, hts⟩ := evaluate_alarmScene p.safetyZone p.cameraId c.1
  refine ⟨a, ?_, htrack, hts⟩
  change (evaluate p.safetyZone p.cameraId (alarmScene p.safetyZone) c.1).map (·, c.2) = _
  rw [ha]
  rfl

theorem offers_quietFrames (cs : List (TimePoint × TimePoint)) :
    (cs.map quietFrame).flatMap (offers p) = [] := by
  rw [List.flatMap_eq_nil_iff]
  intro d hd
  obtain ⟨c, _, rfl⟩ := List.mem_map.mp hd
  exact offers_quietFrame p c

/-- Frames in which only two raise an alarm, with any clocks. -/
def twoAlarms (s t u : List (TimePoint × TimePoint)) (c d : TimePoint × TimePoint) :
    List Delivery :=
  s.map quietFrame ++ alarmFrame p c :: (t.map quietFrame ++ alarmFrame p d :: u.map quietFrame)

theorem twoAlarms_clock (s t u : List (TimePoint × TimePoint)) (c d : TimePoint × TimePoint) :
    (twoAlarms p s t u c d).map Delivery.clock = s ++ c :: (t ++ d :: u) := by
  have hquiet (cs : List (TimePoint × TimePoint)) :
      (cs.map quietFrame).map Delivery.clock = cs := by
    rw [List.map_map]
    exact List.map_id cs
  simp only [twoAlarms, List.map_append, List.map_cons, hquiet]
  rfl

theorem passed_twoAlarms (s t u : List (TimePoint × TimePoint)) (c d : TimePoint × TimePoint) :
    passed (twoAlarms p s t u c d) = twoAlarms p s t u c d := by
  rw [passed, List.takeWhile_eq_self_iff]
  intro e he
  simp only [twoAlarms, List.mem_append, List.mem_cons, List.mem_map] at he
  rcases he with ⟨c, _, rfl⟩ | rfl | ⟨c, _, rfl⟩ | rfl | ⟨c, _, rfl⟩ <;> rfl

/-- Two alarms that the truncated wall-clock difference puts within the cooldown: the first is
handed over, the second suppressed. -/
theorem twoAlarms_decisions {s t u : List (TimePoint × TimePoint)}
    {c d : TimePoint × TimePoint} (h : withinCooldown p.cfg.alertCooldown d.1 c.1 = true) :
    ∃ y x : Decision,
      (submittedLoop p publish (twoAlarms p s t u c d)).state.decisions = [y, x] ∧
      x.verdict.isHanded = false ∧ y.elapsed = c.2 ∧ x.elapsed = d.2 := by
  obtain ⟨a, hoa, hatrack, hats⟩ := offers_alarmFrame p c
  obtain ⟨b, hob, hbtrack, hbts⟩ := offers_alarmFrame p d
  have hoffers : (twoAlarms p s t u c d).flatMap (offers p) = [(a, c.2), (b, d.2)] := by
    simp only [twoAlarms, List.flatMap_append, List.flatMap_cons, offers_quietFrames, hoa, hob]
    rfl
  have hentries := submittedLoop_entries p publish (twoAlarms p s t u c d)
  rw [passed_twoAlarms, hoffers] at hentries
  have hscan : Throttle.scan (cooldownRule p.cfg.alertCooldown) (fun _ => none)
      [(a, c.2), (b, d.2)] = [((a, c.2), true), ((b, d.2), false)] := by
    simp [Throttle.scan, Throttle.admits, Throttle.record, cooldownRule, hatrack, hbtrack,
      hats, hbts, h]
  rw [hscan] at hentries
  obtain ⟨y, rest, hxs, hy, hrest⟩ := List.map_eq_cons_iff.mp hentries
  obtain ⟨x, rest, rfl, hx, hnil⟩ := List.map_eq_cons_iff.mp hrest
  rw [List.map_eq_nil_iff] at hnil
  subst hnil
  simp only [Decision.entry, Prod.mk.injEq] at hy hx
  exact ⟨y, x, hxs, hx.2, hy.1.2, hx.1.2⟩

/-- No alert is suppressed unless one of its track was handed over less than the cooldown of
elapsed time before. -/
def NoSilencing (cooldown : Milliseconds) (xs : List Decision) : Prop :=
  SuppressedAfter (fun y x => x.elapsed - y.elapsed < cooldown * 1000000) xs

instance (cooldown : Milliseconds) (xs : List Decision) : Decidable (NoSilencing cooldown xs) :=
  inferInstanceAs (Decidable (SuppressedAfter _ xs))

/-- Readings a cooldown apart in elapsed time are a cooldown apart on the wall clock. -/
def KeepsUp (cooldown : Milliseconds) (c d : TimePoint × TimePoint) : Prop :=
  cooldown * 1000000 ≤ d.2 - c.2 → cooldown ≤ durationCastMs (d.1 - c.1)

/-- Over all runs with given clock readings, no alert is silenced by the wall clock exactly when
the wall clock keeps up between every two frames. -/
theorem noSilencing_iff_keepsUp (clocks : List (TimePoint × TimePoint)) :
    (∀ ds : List Delivery, ds.map Delivery.clock = clocks →
      NoSilencing p.cfg.alertCooldown (submittedLoop p publish ds).state.decisions) ↔
    clocks.Pairwise (KeepsUp p.cfg.alertCooldown) := by
  constructor
  · intro h
    rw [List.pairwise_iff_forall_sublist]
    intro c d hsub helapsed
    by_contra hwall
    obtain ⟨r₁, r₂, rfl, hc, hd⟩ := List.cons_sublist_iff.mp hsub
    obtain ⟨s, t, rfl⟩ := List.append_of_mem hc
    obtain ⟨t', u, rfl⟩ := List.append_of_mem (List.singleton_sublist.mp hd)
    have hwithin : withinCooldown p.cfg.alertCooldown d.1 c.1 = true :=
      decide_eq_true (not_le.mp hwall)
    obtain ⟨y, x, hxs, hx, hye, hxe⟩ :=
      twoAlarms_decisions p publish (s := s) (t := t ++ t') (u := u) hwithin
    have hrun := h (twoAlarms p s (t ++ t') u c d) (by rw [twoAlarms_clock]; simp)
    rw [hxs] at hrun
    -- The only predecessor of the suppressed alert is the first one, a whole cooldown earlier.
    obtain ⟨j, hj, _, _, hlt⟩ := hrun 1 hx
    have hj0 : j = 0 := by
      rw [Fin.lt_def] at hj
      apply Fin.ext
      change j.val = 0
      change j.val < 1 at hj
      omega
    subst hj0
    change x.elapsed - y.elapsed < _ at hlt
    rw [hye, hxe] at hlt
    exact absurd helapsed (not_le.mpr hlt)
  · intro h ds hclocks
    subst hclocks
    have hrefl : ∀ c, KeepsUp p.cfg.alertCooldown c c := by
      intro c hle
      rw [sub_self] at hle
      rw [sub_self]
      change p.cfg.alertCooldown ≤ (0 : ℤ).tdiv 1000000
      rw [Int.zero_tdiv]
      linarith
    apply (suppressed_within_cooldown p publish ds).of_pairwise
      (decisions_clock_pairwise p publish hrefl h)
    intro y x hwithin hkeeps
    by_contra hlong
    exact absurd (hkeeps (not_lt.mp hlong)) (not_le.mpr (of_decide_eq_true hwithin))

end Run

/-- The wall clock goes back an hour between two alarms ten seconds apart: the second one is
suppressed although the cooldown is two seconds. -/
theorem clock_step_silences :
    ¬ NoSilencing 2000 (submittedLoop { cameraId := "dock" } (fun _ => .ok ())
      (twoAlarms { cameraId := "dock" } [] [] [] (3600000000000, 0)
        (10000000000, 10000000000))).state.decisions := by
  decide +kernel

section Publish
variable (p : Pipeline) (publish : ℕ → PublishResult)

/-- On a clock that never goes back, every alert that the frames raise is handed to `publish` or
suppressed, and a suppressed one has a predecessor of its track, less than the cooldown earlier,
that was handed to `publish`, whatever `publish` returned for it. -/
theorem suppressed_after_handed (ds : List Delivery)
    (hclock : ds.Pairwise fun d e => d.frameTs ≤ e.frameTs) :
    (submittedLoop p publish ds).state.decisions.map Decision.alert =
        ((passed ds).flatMap (offers p)).map Prod.fst ∧
      SuppressedAfter (fun y x => 0 ≤ x.alert.timestamp - y.alert.timestamp ∧
          x.alert.timestamp - y.alert.timestamp < p.cfg.alertCooldown * 1000000)
        (submittedLoop p publish ds).state.decisions := by
  refine ⟨alerts_of_entries (submittedLoop_entries p publish ds), ?_⟩
  have hmono := decisions_clock_pairwise p publish (q := fun c d => c.1 ≤ d.1)
    (fun _ => le_rfl) (clock_pairwise_le hclock)
  apply (suppressed_within_cooldown p publish ds).of_pairwise hmono
  intro y x hwithin hle
  exact ⟨sub_nonneg.mpr hle, lt_of_durationCastMs_lt (of_decide_eq_true hwithin)⟩

end Publish

theorem suppressed_after_handed_twoAlarms :
    (submittedLoop { cameraId := "dock" } (fun _ => .error { code := 1 })
      (twoAlarms { cameraId := "dock" } [] [] [] (0, 0)
        (1000000000, 1000000000))).state.decisions.length = 2 ∧
    SuppressedAfter (fun y x => 0 ≤ x.alert.timestamp - y.alert.timestamp ∧
        x.alert.timestamp - y.alert.timestamp < 2000 * 1000000)
      (submittedLoop { cameraId := "dock" } (fun _ => .error { code := 1 })
        (twoAlarms { cameraId := "dock" } [] [] [] (0, 0)
          (1000000000, 1000000000))).state.decisions :=
  ⟨by decide +kernel,
    (suppressed_after_handed { cameraId := "dock" } (fun _ => .error { code := 1 })
      (twoAlarms { cameraId := "dock" } [] [] [] (0, 0) (1000000000, 1000000000))
      (by decide +kernel)).2⟩

/-- An alert whose `publish` fails still starts the cooldown that suppresses the next one. -/
theorem failed_publish_suppresses :
    (twoAlarms { cameraId := "dock" } [] [] [] (0, 0) (1000000000, 1000000000)).Pairwise
      (fun d e => d.frameTs ≤ e.frameTs) ∧
    ¬ SuppressedAfter (fun y x => y.verdict.isOk = true ∧
        0 ≤ x.alert.timestamp - y.alert.timestamp ∧
        x.alert.timestamp - y.alert.timestamp < 2000 * 1000000)
      (submittedLoop { cameraId := "dock" } (fun _ => .error { code := 1 })
        (twoAlarms { cameraId := "dock" } [] [] [] (0, 0)
          (1000000000, 1000000000))).state.decisions :=
  ⟨by decide +kernel, by decide +kernel⟩

end ForkliftSafety
