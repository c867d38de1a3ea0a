import Mathlib.Data.List.TakeWhile
import ForkliftSafety.Application.RiskDetection
import ForkliftSafety.Library.Throttle

/-! `FrameProcessingPipeline::inference_loop` as one worker runs it over the frames it dequeues,
with its cooldown filter. Logging is left out. -/
namespace ForkliftSafety

structure PipelineConfig where
  frameQueueCapacity : ℕ := 4
  inferenceWorkers : ℕ := 1
  alertCooldown : Milliseconds := 2000
  enableViewer : Bool := false
  deriving DecidableEq, Repr

/-- A wired pipeline: its source's camera id, the zones of its risk service, and the zone service
that `enable_viewer` passed together with the two viewer sinks. -/
structure Pipeline where
  cameraId : String
  safetyZone : SafetyZoneConfig := {}
  cfg : PipelineConfig := {}
  viewerZones : Option SafetyZoneConfig := none
  deriving DecidableEq, Repr

/-- The zone service of the live view, where `viewing` holds. -/
def Pipeline.viewing (p : Pipeline) : Option SafetyZoneConfig :=
  if p.cfg.enableViewer then p.viewerZones else none

/-- How a call of `infer` ends. -/
inductive InferOutcome where
  | detections (ds : List Detection)
  | error (e : Error)
  | threw
  deriving DecidableEq, Repr

/-- One dequeued frame, with what the pass over it gets from outside: the engine's answer, the
`system_clock` reading after inference, and the elapsed time then, which no branch reads. -/
structure Delivery where
  frame : Frame
  infer : InferOutcome
  frameTs : TimePoint
  elapsed : TimePoint
  deriving DecidableEq, Repr

abbrev PublishResult := Except Error Unit

inductive Verdict where
  | suppressed
  | handed (result : PublishResult)

def Verdict.isHanded : Verdict → Bool
  | .suppressed => false
  | .handed _ => true

def Verdict.isOk : Verdict → Bool
  | .handed (.ok _) => true
  | _ => false

/-- What became of one alert, with the elapsed time of its frame. -/
structure Decision where
  alert : Alert
  elapsed : TimePoint
  verdict : Verdict

/-- A frame as it goes to the two viewer sinks. -/
structure ViewerUpdate where
  frame : Frame
  cameraId : String
  detections : List Detection
  zones : List SafetyZone
  frameW : ℕ
  frameH : ℕ

abbrev LastAlert := ℤ → Option TimePoint

/-- `lastAlert` is the loop's local; the rest records what the loop did to its ports so far. -/
structure LoopState where
  lastAlert : LastAlert := fun _ => none
  calls : ℕ := 0
  decisions : List Decision := []
  viewer : List ViewerUpdate := []

/-- The alerts handed to `publish`, in order. -/
def LoopState.handedAlerts (s : LoopState) : List Alert :=
  (s.decisions.filter fun x => x.verdict.isHanded).map Decision.alert

def withinCooldown (cooldown : Milliseconds) (frameTs last : TimePoint) : Bool :=
  durationCastMs (frameTs - last) < cooldown

def suppresses (cooldown : Milliseconds) (lastAlert : LastAlert) (frameTs : TimePoint)
    (a : Alert) : Bool :=
  match lastAlert a.forkliftTrackId with
  | none => false
  | some last => withinCooldown cooldown frameTs last

section Loop
variable (p : Pipeline) (publish : ℕ → PublishResult)

/-- The body of the alert loop. The table is written before `publish` is called, and the result
of the call is only logged. -/
def alertStep (frameTs elapsed : TimePoint) (s : LoopState) (a : Alert) : LoopState :=
  if suppresses p.cfg.alertCooldown s.lastAlert frameTs a then
    { s with decisions := s.decisions ++ [⟨a, elapsed, .suppressed⟩] }
  else
    { s with
      lastAlert := Function.update s.lastAlert a.forkliftTrackId (some frameTs)
      calls := s.calls + 1
      decisions := s.decisions ++ [⟨a, elapsed, .handed (publish s.calls)⟩] }

def alertLoop (frameTs elapsed : TimePoint) : LoopState → List Alert → LoopState
  | s, [] => s
  | s, a :: rest => alertLoop frameTs elapsed (alertStep p publish frameTs elapsed s a) rest

/-- The live view of one frame: the raw frame, and the detections with the forklifts' zones. -/
def publishView (s : LoopState) (frame : Frame) (detections : List Detection) : LoopState :=
  match p.viewing with
  | none => s
  | some zones =>
    { s with viewer := s.viewer ++ [{
        frame := frame
        cameraId := p.cameraId
        detections := detections
        zones := zonesFor zones (detections.filter Detection.isForklift)
        frameW := frame.image.cols
        frameH := frame.image.rows }] }

/-- One pass of the `while` loop over a dequeued frame; `none` when an exception leaves it. -/
def loopBody (s : LoopState) (d : Delivery) : Option LoopState :=
  if d.frame.empty then some s
  else
    match d.infer with
    | .threw => none
    | .error _ => some s
    | .detections ds =>
      some (alertLoop p publish d.frameTs d.elapsed (publishView p s d.frame ds)
        (evaluate p.safetyZone p.cameraId ds d.frameTs))

/-- The future of the `packaged_task` that runs the loop. -/
inductive FutureState where
  | pending | exception
  deriving DecidableEq, Repr

structure LoopRun where
  state : LoopState
  future : FutureState
  unprocessed : List Delivery

/-- The loop over the frames that are queued for it while the pipeline runs. An exception ends
it: the task stores it in its future and the pool's worker goes back to an empty task queue. -/
def inferenceLoop : LoopState → List Delivery → LoopRun
  | s, [] => ⟨s, .pending, []⟩
  | s, d :: rest =>
    match loopBody p publish s d with
    | some s' => inferenceLoop s' rest
    | none => ⟨s, .exception, rest⟩

def submittedLoop (ds : List Delivery) : LoopRun := inferenceLoop p publish {} ds

end Loop

def cooldownRule (cooldown : Milliseconds) : Throttle.Rule (Alert × TimePoint) ℤ TimePoint where
  key offer := offer.1.forkliftTrackId
  time offer := offer.1.timestamp
  blocked := withinCooldown cooldown

/-- A decision as the throttle sees it. -/
def Decision.entry (x : Decision) : (Alert × TimePoint) × Bool :=
  ((x.alert, x.elapsed), x.verdict.isHanded)

/-- The alerts that a pass offers to the filter. -/
def offers (p : Pipeline) (d : Delivery) : List (Alert × TimePoint) :=
  if d.frame.empty then []
  else
    match d.infer with
    | .detections ds => (evaluate p.safetyZone p.cameraId ds d.frameTs).map (·, d.elapsed)
    | _ => []

def Delivery.throws (d : Delivery) : Bool := !d.frame.empty && decide (d.infer = .threw)

/-- The frames the loop passes over before an exception ends it. -/
def passed (ds : List Delivery) : List Delivery := ds.takeWhile fun d => !d.throws

section Throttled
variable (p : Pipeline) (publish : ℕ → PublishResult)

theorem admits_cooldownRule (cooldown : Milliseconds) (m : LastAlert) (a : Alert)
    (elapsed : TimePoint) :
    Throttle.admits (cooldownRule cooldown) m (a, elapsed) =
      !suppresses cooldown m a.timestamp a := by
  simp only [Throttle.admits, suppresses, cooldownRule]
  cases m a.forkliftTrackId <;> rfl

theorem alertLoop_spec (frameTs elapsed : TimePoint) (s : LoopState) {alerts : List Alert}
    (hts : ∀ a ∈ alerts, a.timestamp = frameTs) :
    let t := alertLoop p publish frameTs elapsed s alerts
    let offered := alerts.map (·, elapsed)
    t.lastAlert = Throttle.table (cooldownRule p.cfg.alertCooldown) s.lastAlert offered ∧
    t.decisions.map Decision.entry = s.decisions.map Decision.entry ++
      Throttle.scan (cooldownRule p.cfg.alertCooldown) s.lastAlert offered := by
  induction alerts generalizing s with
  | nil => simp [alertLoop, Throttle.table, Throttle.scan]
  | cons a alerts ih =>
    have ha : a.timestamp = frameTs := hts a List.mem_cons_self
    have hadm := admits_cooldownRule p.cfg.alertCooldown s.lastAlert a elapsed
    rw [ha] at hadm
    obtain ⟨htable, hscan⟩ := ih (alertStep p publish frameTs elapsed s a)
      fun b hb => hts b (List.mem_cons_of_mem a hb)
    -- The step's table is the throttle's record, whichever way the alert is decided.
    have hrecord : (alertStep p publish frameTs elapsed s a).lastAlert =
        Throttle.record (cooldownRule p.cfg.alertCooldown) s.lastAlert (a, elapsed) := by
      rw [Throttle.record, hadm, alertStep]
      cases suppresses p.cfg.alertCooldown s.lastAlert frameTs a <;>
        simp [cooldownRule, ha]
    have hentry : (alertStep p publish frameTs elapsed s a).decisions.map Decision.entry =
        s.decisions.map Decision.entry ++
          [((a, elapsed), Throttle.admits (cooldownRule p.cfg.alertCooldown) s.lastAlert
            (a, elapsed))] := by
      rw [hadm, alertStep]
      cases suppresses p.cfg.alertCooldown s.lastAlert frameTs a <;>
        simp [Decision.entry, Verdict.isHanded]
    simp only [alertLoop, List.map_cons, Throttle.scan, Throttle.table, List.foldl_cons]
    rw [← hrecord]
    refine ⟨htable, ?_⟩
    rw [hscan, hentry, List.append_assoc, List.singleton_append]

@[simp] theorem publishView_lastAlert (s : LoopState) (frame : Frame) (ds : List Detection) :
    (publishView p s frame ds).lastAlert = s.lastAlert := by
  unfold publishView
  cases p.viewing <;> rfl

@[simp] theorem publishView_decisions (s : LoopState) (frame : Frame) (ds : List Detection) :
    (publishView p s frame ds).decisions = s.decisions := by
  unfold publishView
  cases p.viewing <;> rfl

theorem loopBody_eq_none_iff (s : LoopState) (d : Delivery) :
    loopBody p publish s d = none ↔ d.throws = true := by
  unfold loopBody Delivery.throws
  cases d.frame.empty
  · cases d.infer <;> simp
  · simp

/-- One pass that ends normally moves the table and the decisions by the offers of its frame. -/
theorem loopBody_spec {s t : LoopState} {d : Delivery} (h : loopBody p publish s d = some t) :
    t.lastAlert = Throttle.table (cooldownRule p.cfg.alertCooldown) s.lastAlert (offers p d) ∧
    t.decisions.map Decision.entry = s.decisions.map Decision.entry ++
      Throttle.scan (cooldownRule p.cfg.alertCooldown) s.lastAlert (offers p d) := by
  unfold loopBody at h
  unfold offers
  cases hempty : d.frame.empty
  · cases hinfer : d.infer with
    | detections ds =>
      simp only [hempty, hinfer, Bool.false_eq_true, ↓reduceIte, Option.some.injEq] at h
      have hspec := alertLoop_spec p publish d.frameTs d.elapsed
        (publishView p s d.frame ds) (fun a ha => evaluate_timestamp ha :
          ∀ a ∈ evaluate p.safetyZone p.cameraId ds d.frameTs, a.timestamp = d.frameTs)
      rw [publishView_lastAlert, publishView_decisions] at hspec
      simpa [← h] using hspec
    | error e =>
      simp only [hempty, hinfer, Bool.false_eq_true, ↓reduceIte, Option.some.injEq] at h
      simp [← h, Throttle.table, Throttle.scan]
    | threw => simp [hempty, hinfer] at h
  · simp only [hempty, ↓reduceIte, Option.some.injEq] at h
    simp [← h, Throttle.table, Throttle.scan]

theorem inferenceLoop_spec (s : LoopState) (ds : List Delivery) :
    let r := inferenceLoop p publish s ds
    r.state.lastAlert = Throttle.table (cooldownRule p.cfg.alertCooldown) s.lastAlert
      ((passed ds).flatMap (offers p)) ∧
    r.state.decisions.map Decision.entry = s.decisions.map Decision.entry ++
      Throttle.scan (cooldownRule p.cfg.alertCooldown) s.lastAlert
        ((passed ds).flatMap (offers p)) := by
  induction ds generalizing s with
  | nil => simp [inferenceLoop, passed, Throttle.table, Throttle.scan]
  | cons d ds ih =>
    cases h : loopBody p publish s d with
    | none =>
      have hthrows := (loopBody_eq_none_iff p publish s d).mp h
      simp [inferenceLoop, h, passed, hthrows, Throttle.table, Throttle.scan]
    | some t =>
      have hthrows : d.throws = false := by
        rw [← Bool.not_eq_true, ← loopBody_eq_none_iff p publish s d, h]
        simp
      obtain ⟨htable, hscan⟩ := loopBody_spec p publish h
      obtain ⟨ihtable, ihscan⟩ := ih t
      have hpassed : passed (d :: ds) = d :: passed ds := by simp [passed, hthrows]
      simp only [inferenceLoop, h, hpassed, List.flatMap_cons]
      constructor
      · rw [ihtable, htable, Throttle.table, Throttle.table, Throttle.table,
          List.foldl_append]
      · rw [ihscan, htable, hscan, Throttle.scan_append, List.append_assoc]

/-- The decisions of a submitted loop are the verdicts of an empty throttle on its offers. -/
theorem submittedLoop_entries (ds : List Delivery) :
    (submittedLoop p publish ds).state.decisions.map Decision.entry =
      Throttle.scan (cooldownRule p.cfg.alertCooldown) (fun _ => none)
        ((passed ds).flatMap (offers p)) :=
  (inferenceLoop_spec p publish {} ds).2

theorem submittedLoop_lastAlert (ds : List Delivery) :
    (submittedLoop p publish ds).state.lastAlert =
      Throttle.table (cooldownRule p.cfg.alertCooldown) (fun _ => none)
        ((passed ds).flatMap (offers p)) :=
  (inferenceLoop_spec p publish {} ds).1

/-- From decisions that are the verdicts of a throttle: each alert offered is decided on once, in
order. -/
theorem alerts_of_entries {cooldown : Milliseconds} {xs : List Decision}
    {offered : List (Alert × TimePoint)}
    (h : xs.map Decision.entry = Throttle.scan (cooldownRule cooldown) (fun _ => none) offered) :
    xs.map Decision.alert = offered.map Prod.fst := by
  have hoffered := congrArg (List.map Prod.fst) h
  rw [Throttle.scan_map_fst, List.map_map] at hoffered
  have halerts := congrArg (List.map Prod.fst) hoffered
  rw [List.map_map] at halerts
  exact halerts

/-- From decisions that are the verdicts of a throttle: the handed alerts are its admissions. -/
theorem handedAlerts_of_entries {cooldown : Milliseconds} {s : LoopState}
    {offered : List (Alert × TimePoint)}
    (h : s.decisions.map Decision.entry =
      Throttle.scan (cooldownRule cooldown) (fun _ => none) offered) :
    s.handedAlerts =
      (Throttle.admitted (cooldownRule cooldown) (fun _ => none) offered).map Prod.fst := by
  rw [Throttle.admitted, ← h, LoopState.handedAlerts, List.filter_map, List.map_map,
    List.map_map]
  rfl

theorem handedAlerts_eq (ds : List Delivery) :
    (submittedLoop p publish ds).state.handedAlerts =
      (Throttle.admitted (cooldownRule p.cfg.alertCooldown) (fun _ => none)
        ((passed ds).flatMap (offers p))).map Prod.fst :=
  handedAlerts_of_entries (submittedLoop_entries p publish ds)

theorem inferenceLoop_pending_iff (s : LoopState) (ds : List Delivery) :
    (inferenceLoop p publish s ds).future = .pending ↔ ∀ d ∈ ds, d.throws = false := by
  induction ds generalizing s with
  | nil => simp [inferenceLoop]
  | cons d ds ih =>
    cases h : loopBody p publish s d with
    | none =>
      have hthrows := (loopBody_eq_none_iff p publish s d).mp h
      simp [inferenceLoop, h, hthrows]
    | some t =>
      have hthrows : d.throws = false := by
        rw [← Bool.not_eq_true, ← loopBody_eq_none_iff p publish s d, h]
        simp
      simp [inferenceLoop, h, hthrows, ih]

theorem passed_eq_self {ds : List Delivery} (h : ∀ d ∈ ds, d.throws = false) :
    passed ds = ds := by
  rw [passed, List.takeWhile_eq_self_iff]
  intro d hd
  rw [h d hd]
  rfl

end Throttled
end ForkliftSafety
