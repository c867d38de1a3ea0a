import ForkliftSafety.Interface.Main
import ForkliftSafety.Library.Trace

/-! `main` from the command line to the exit code: the calls that it makes on the publisher, the
viewer and the pipelines, with those of the destructors. -/
namespace ForkliftSafety
open Trace Yaml

/-- The arguments behind the name of the program, of which the last is no key. -/
def findArg (key fallback : String) : List String → String
  | arg :: value :: rest => if key = arg then value else findArg key fallback (value :: rest)
  | _ => fallback

inductive MainCall where
  | publisherStart (ok : Bool)
  | publisherStop
  | viewerStart (ok : Bool)
  | viewerStop
  /-- `enable_viewer`, where the camera is to be viewed, and `start`. -/
  | pipelineStart (i : ℕ) (viewing : Bool)
  | pipelineStop (i : ℕ)
  /-- The loop that sleeps until `g_stop` is set. -/
  | awaitSignal
  deriving DecidableEq, Repr

/-- What is running, the pipelines by camera and with whether they hand anything to the viewer. -/
structure Process where
  publisher : Bool := false
  viewer : Bool := false
  pipelines : List (ℕ × Bool) := []
  deriving DecidableEq, Repr

namespace Process

/-- `stop` does nothing to what is not running. -/
def call (s : Process) : MainCall → Process
  | .publisherStart ok => { s with publisher := s.publisher || ok }
  | .publisherStop => { s with publisher := false }
  | .viewerStart ok => { s with viewer := s.viewer || ok }
  | .viewerStop => { s with viewer := false }
  | .pipelineStart i viewing => { s with pipelines := s.pipelines ++ [(i, viewing)] }
  | .pipelineStop i => { s with pipelines := s.pipelines.filter fun p => p.1 ≠ i }
  | .awaitSignal => s

/-- No pipeline runs without what it hands its alerts, its frames and its detections to. -/
structure Supported (s : Process) : Prop where
  publisher : s.pipelines ≠ [] → s.publisher = true
  viewer : ∀ p ∈ s.pipelines, p.2 = true → s.viewer = true

end Process

section Main
variable (ports : MainPorts)

/-- The loop over the cameras: the pipelines that it starts, and whether it comes to its end. -/
def startPipelines (cfg : SystemConfig) (viewer : Bool) :
    ℕ → List CameraEntry → List (ℕ × Bool) × Bool
  | _, [] => ([], true)
  | i, e :: rest =>
    if ports.makeEngine i cfg.backend then
      match ports.initEngine i cfg.inference with
      | .error _ => ([], false)
      | .ok _ =>
        let (started, complete) := startPipelines cfg viewer (i + 1) rest
        ((i, viewer && e.pipeline.enableViewer) :: started, complete)
    else ([], false)

def viewerRuns (cfg : SystemConfig) : Bool := cfg.viewer.enabled && ports.viewerStart.isOk

/-- A viewer that does not start is destroyed at once. -/
def viewerCalls (cfg : SystemConfig) : List MainCall :=
  if cfg.viewer.enabled then
    .viewerStart ports.viewerStart.isOk :: if ports.viewerStart.isOk then [] else [.viewerStop]
  else []

/-- The calls of `stop`, in the order in which the components depend on each other. -/
def stopCalls (started : List (ℕ × Bool)) (viewer : Bool) : List MainCall :=
  (started.map fun p => .pipelineStop p.1) ++ (if viewer then [.viewerStop] else []) ++
    [.publisherStop]

def openingCalls (cfg : SystemConfig) (started : List (ℕ × Bool)) : List MainCall :=
  .publisherStart true :: viewerCalls ports cfg ++
    started.map fun p => .pipelineStart p.1 p.2

def configPath (args : List String) : String := findArg "--config" "conf/system.yaml" args

-- Each destructor stops its component, and the pipelines, which are declared last, go first.
def runMain (yaml : Option Reader) (args : List String) : ℕ × List MainCall :=
  match loadFromYaml yaml (configPath args) with
  | .error _ => (1, [])
  | .ok cfg =>
    if cfg.cameras.isEmpty then (1, [])
    else
      match ports.publisherStart with
      | .error _ => (1, [.publisherStart false, .publisherStop])
      | .ok _ =>
        let viewer := viewerRuns ports cfg
        let (started, complete) := startPipelines ports cfg viewer 0 cfg.cameras
        let opening := openingCalls ports cfg started
        let closing := stopCalls started viewer
        if complete then (0, opening ++ [.awaitSignal] ++ closing ++ closing)
        else (2, opening ++ closing)

end Main

section Loop
variable (ports : MainPorts) (cfg : SystemConfig) (viewer : Bool)

/-- The loop comes to its end when the cameras start, and then it has started all of them. -/
theorem startPipelines_eq (i : ℕ) (cameras : List CameraEntry) :
    match startCameras ports cfg viewer i cameras with
    | .ok _ => startPipelines ports cfg viewer i cameras =
        (cameras.mapIdx fun k e => (i + k, viewer && e.pipeline.enableViewer), true)
    | .error code => code = 2 ∧ (startPipelines ports cfg viewer i cameras).2 = false := by
  induction cameras generalizing i with
  | nil => rfl
  | cons e rest ih =>
    unfold startCameras startPipelines
    by_cases hmake : ports.makeEngine i cfg.backend = true
    · rw [if_pos hmake, if_pos hmake]
      cases ports.initEngine i cfg.inference with
      | error what => exact ⟨rfl, rfl⟩
      | ok _ =>
        have hrest := ih (i + 1)
        cases hstart : startCameras ports cfg viewer (i + 1) rest with
        | error code =>
          rw [hstart] at hrest
          exact hrest
        | ok started =>
          rw [hstart] at hrest
          simp only [hrest, List.mapIdx_cons, Prod.mk.injEq, List.cons.injEq, and_true]
          refine ⟨by simp, ?_⟩
          simp [Nat.add_comm, Nat.add_left_comm]
    · rw [if_neg hmake, if_neg hmake]
      exact ⟨rfl, rfl⟩

/-- A pipeline hands to the viewer only when there is one. -/
theorem startPipelines_viewing (i : ℕ) (cameras : List CameraEntry) :
    ∀ p ∈ (startPipelines ports cfg viewer i cameras).1, p.2 = true → viewer = true := by
  induction cameras generalizing i with
  | nil => simp [startPipelines]
  | cons e rest ih =>
    unfold startPipelines
    split_ifs
    · split
      · simp
      · intro p hp hview
        rcases List.mem_cons.mp hp with rfl | hrest
        · exact (Bool.and_eq_true_iff.mp hview).1
        · exact ih (i + 1) p hrest hview
    · simp

end Loop

namespace Process
variable {s : Process}

theorem foldl_starts (ps : List (ℕ × Bool)) :
    (ps.map fun p => MainCall.pipelineStart p.1 p.2).foldl call s =
      { s with pipelines := s.pipelines ++ ps } := by
  induction ps generalizing s with
  | nil => simp
  | cons p ps ih =>
    rw [List.map_cons, List.foldl_cons, ih, call, List.append_assoc]
    rfl

theorem foldl_stops (ps : List (ℕ × Bool)) :
    (ps.map fun p => MainCall.pipelineStop p.1).foldl call s =
      { s with pipelines := s.pipelines.filter fun p => p.1 ∉ ps.map Prod.fst } := by
  induction ps generalizing s with
  | nil => simp
  | cons p ps ih =>
    rw [List.map_cons, List.foldl_cons, ih, call, List.filter_filter]
    simp only [List.map_cons, List.mem_cons, not_or, Bool.decide_and, Bool.and_comm]

theorem foldl_awaits {calls : List MainCall} (hcalls : ∀ c ∈ calls, c = .awaitSignal) :
    calls.foldl call s = s := by
  induction calls with
  | nil => rfl
  | cons c calls ih =>
    rw [hcalls c List.mem_cons_self]
    exact ih fun d hd => hcalls d (List.mem_cons_of_mem c hd)

theorem foldl_viewerCalls (ports : MainPorts) (cfg : SystemConfig) :
    (viewerCalls ports cfg).foldl call ⟨true, false, []⟩ =
      ⟨true, viewerRuns ports cfg, []⟩ := by
  unfold viewerCalls viewerRuns
  cases cfg.viewer.enabled <;> cases ports.viewerStart.isOk <;> rfl

/-- The calls of `stop` leave nothing running. -/
theorem foldl_stopCalls {started : List (ℕ × Bool)} {viewer : Bool}
    (hpipelines : ∀ p ∈ s.pipelines, p ∈ started) (hviewer : s.viewer = true → viewer = true) :
    (stopCalls started viewer).foldl call s = {} := by
  have hnone : (s.pipelines.filter fun p => p.1 ∉ started.map Prod.fst) = [] := by
    rw [List.filter_eq_nil_iff]
    intro p hp
    rw [decide_eq_true_eq, not_not]
    exact List.mem_map_of_mem (hpipelines p hp)
  rw [stopCalls, List.foldl_append, List.foldl_append, foldl_stops, hnone]
  cases viewer with
  | true => rfl
  | false =>
    have hoff : s.viewer = false := by simpa using hviewer
    rw [hoff]
    rfl

/-- Without pipelines everything is supported, whatever else starts or stops. -/
theorem supported_idle (hs : s.pipelines = []) {calls : List MainCall}
    (hcalls : ∀ i viewing, .pipelineStart i viewing ∉ calls) :
    Throughout call Supported s calls := by
  refine throughout_of_kept (Q := fun s => s.pipelines = []) hs ?_ ?_
  · intro s hs c hc
    cases c with
    | pipelineStart i viewing => exact absurd hc (hcalls i viewing)
    | pipelineStop i => simp [call, hs]
    | publisherStart | publisherStop | viewerStart | viewerStop | awaitSignal => exact hs
  · intro s hs
    exact ⟨fun h => absurd hs h, by simp [hs]⟩

/-- Pipelines may start and stop while the publisher runs, and the viewer where they are viewed. -/
theorem supported_busy {viewer : Bool} (hpublisher : s.publisher = true)
    (hviewer : s.viewer = viewer) (hviewing : ∀ p ∈ s.pipelines, p.2 = true → viewer = true)
    {calls : List MainCall} (hcalls : ∀ c ∈ calls,
      (∃ i viewing, c = .pipelineStart i viewing ∧ (viewing = true → viewer = true)) ∨
        (∃ i, c = .pipelineStop i) ∨ c = .awaitSignal) :
    Throughout call Supported s calls := by
  refine throughout_of_kept (Q := fun s => s.publisher = true ∧ s.viewer = viewer ∧
    ∀ p ∈ s.pipelines, p.2 = true → viewer = true) ⟨hpublisher, hviewer, hviewing⟩ ?_ ?_
  · rintro s ⟨hpublisher, hviewer, hviewing⟩ c hc
    rcases hcalls c hc with ⟨i, viewing, rfl, hview⟩ | ⟨i, rfl⟩ | rfl
    · refine ⟨hpublisher, hviewer, List.forall_mem_append.mpr ⟨hviewing, ?_⟩⟩
      simpa using hview
    · exact ⟨hpublisher, hviewer, fun p hp => hviewing p (List.mem_filter.mp hp).1⟩
    · exact ⟨hpublisher, hviewer, hviewing⟩
  · rintro s ⟨hpublisher, hviewer, hviewing⟩
    exact ⟨fun _ => hpublisher, fun p hp hp2 => hviewer.trans (hviewing p hp hp2)⟩

end Process

/-- What a run of `main` is like: nothing runs unsupported at any moment, and nothing is left. -/
structure Orderly (calls : List MainCall) : Prop where
  supported : ∀ front, front <+: calls → (front.foldl Process.call {}).Supported
  ended : calls.foldl Process.call {} = {}

section Runs
variable {ports : MainPorts} {cfg : SystemConfig}

/-- The process when the publisher, the viewer and some pipelines have been started. -/
theorem foldl_opening (started : List (ℕ × Bool)) :
    (openingCalls ports cfg started).foldl Process.call {} =
      ⟨true, viewerRuns ports cfg, started⟩ := by
  have hpublisher : Process.call {} (.publisherStart true) = ⟨true, false, []⟩ := rfl
  rw [openingCalls, List.foldl_append, List.foldl_cons, hpublisher, Process.foldl_viewerCalls,
    Process.foldl_starts]
  rfl

theorem viewerCalls_idle {c : MainCall} (hc : c ∈ viewerCalls ports cfg) :
    (∃ ok, c = .viewerStart ok) ∨ c = .viewerStop := by
  unfold viewerCalls at hc
  split_ifs at hc
  · exact .inl ⟨_, List.mem_singleton.mp hc⟩
  · rcases List.mem_cons.mp hc with rfl | hstop
    · exact .inl ⟨_, rfl⟩
    · exact .inr (List.mem_singleton.mp hstop)
  · contradiction

theorem stopCalls_stop {started : List (ℕ × Bool)} {viewer : Bool} {c : MainCall}
    (hc : c ∈ stopCalls started viewer) :
    (∃ i, c = .pipelineStop i) ∨ c = .viewerStop ∨ c = .publisherStop := by
  unfold stopCalls at hc
  simp only [List.mem_append, List.mem_map, List.mem_singleton] at hc
  rcases hc with (⟨p, _, rfl⟩ | hviewer) | rfl
  · exact .inl ⟨p.1, rfl⟩
  · split_ifs at hviewer
    · exact .inr (.inl (List.mem_singleton.mp hviewer))
    · contradiction
  · exact .inr (.inr rfl)

/-- The pipelines run between the start of the viewer and its stop. -/
theorem supported_opening {started : List (ℕ × Bool)}
    (hviewing : ∀ p ∈ started, p.2 = true → viewerRuns ports cfg = true)
    {middle rest : List MainCall} (hmiddle : ∀ c ∈ middle, c = .awaitSignal)
    (hrest : ∀ i viewing, .pipelineStart i viewing ∉ rest) :
    Throughout Process.call Process.Supported {}
      (.publisherStart true :: viewerCalls ports cfg ++
        ((started.map fun p => .pipelineStart p.1 p.2) ++ middle ++
          started.map fun p => .pipelineStop p.1) ++ rest) := by
  have hidle : (.publisherStart true :: viewerCalls ports cfg).foldl Process.call {} =
      ⟨true, viewerRuns ports cfg, []⟩ :=
    Process.foldl_viewerCalls ports cfg
  refine Throughout.append (Throughout.append (Process.supported_idle rfl ?_) ?_) ?_
  · intro i viewing hc
    rcases List.mem_cons.mp hc with hc | hc
    · contradiction
    · rcases viewerCalls_idle hc with ⟨_, hc⟩ | hc <;> contradiction
  · rw [hidle]
    refine Process.supported_busy rfl rfl (by simp) fun c hc => ?_
    simp only [List.mem_append, List.mem_map] at hc
    rcases hc with (⟨p, hp, rfl⟩ | hc) | ⟨p, _, rfl⟩
    · exact .inl ⟨p.1, p.2, rfl, hviewing p hp⟩
    · exact .inr (.inr (hmiddle c hc))
    · exact .inr (.inl ⟨p.1, rfl⟩)
  · refine Process.supported_idle ?_ hrest
    rw [List.foldl_append, hidle, List.foldl_append, List.foldl_append, Process.foldl_starts,
      Process.foldl_awaits hmiddle, Process.foldl_stops]
    simp only [List.nil_append, List.filter_eq_nil_iff, decide_eq_true_eq, not_not]
    exact fun p hp => List.mem_map_of_mem hp

/-- Stopped once, or a second time by the destructors, nothing is left. -/
theorem orderly_opening {started : List (ℕ × Bool)}
    (hviewing : ∀ p ∈ started, p.2 = true → viewerRuns ports cfg = true)
    {middle again : List MainCall} (hmiddle : ∀ c ∈ middle, c = .awaitSignal)
    (hagain : again = [] ∨ again = stopCalls started (viewerRuns ports cfg)) :
    Orderly (openingCalls ports cfg started ++ middle ++
      stopCalls started (viewerRuns ports cfg) ++ again) where
  supported := by
    rw [← throughout_iff]
    have hstops {i : ℕ} {viewing : Bool} :
        .pipelineStart i viewing ∉ stopCalls started (viewerRuns ports cfg) := by
      intro hc
      rcases stopCalls_stop hc with ⟨_, hc⟩ | hc | hc <;> contradiction
    have hrest : ∀ i viewing, .pipelineStart i viewing ∉
        (if viewerRuns ports cfg then [.viewerStop] else []) ++ [.publisherStop] ++ again := by
      intro i viewing hc
      rcases List.mem_append.mp hc with hclosing | hc
      · apply hstops
        rw [stopCalls, List.append_assoc]
        exact List.mem_append_right _ hclosing
      · rcases hagain with rfl | rfl
        · contradiction
        · exact hstops hc
    have hall := supported_opening hviewing hmiddle hrest
    simpa only [openingCalls, stopCalls, List.append_assoc, List.cons_append] using hall
  ended := by
    have hclosed (s : Process) (hpipelines : ∀ p ∈ s.pipelines, p ∈ started)
        (hviewer : s.viewer = true → viewerRuns ports cfg = true) :=
      Process.foldl_stopCalls hpipelines hviewer
    rw [List.foldl_append, List.foldl_append, List.foldl_append, foldl_opening,
      Process.foldl_awaits hmiddle, hclosed _ (fun _ => id) id]
    rcases hagain with rfl | rfl
    · rfl
    · exact hclosed {} (by simp) (by simp)

end Runs

/-- The process while `main` waits: every camera of the configuration is running. -/
def Process.waiting (ports : MainPorts) (cfg : SystemConfig) : Process where
  publisher := true
  viewer := viewerRuns ports cfg
  pipelines := cfg.cameras.mapIdx fun k e => (k, viewerRuns ports cfg && e.pipeline.enableViewer)

/-- The ways in which `main` ends. -/
inductive MainEnds (ports : MainPorts) (yaml : Option Reader) (path : String) :
    ℕ × List MainCall → Prop
  | refused (calls : List MainCall)
      (hcalls : calls = [] ∨ calls = [.publisherStart false, .publisherStop])
      (hstart : startUp ports yaml path = .error 1) : MainEnds ports yaml path (1, calls)
  | failed (cfg : SystemConfig) (started : List (ℕ × Bool))
      (hviewing : ∀ p ∈ started, p.2 = true → viewerRuns ports cfg = true)
      (hstart : startUp ports yaml path = .error 2) :
      MainEnds ports yaml path
        (2, openingCalls ports cfg started ++ stopCalls started (viewerRuns ports cfg))
  | stopped (cfg : SystemConfig) (started : List (ℕ × Bool))
      (hviewing : ∀ p ∈ started, p.2 = true → viewerRuns ports cfg = true)
      (hstarted : started = (Process.waiting ports cfg).pipelines)
      (hload : loadFromYaml yaml path = .ok cfg)
      (hstart : ∃ running, startUp ports yaml path = .ok running) :
      MainEnds ports yaml path
        (0, openingCalls ports cfg started ++ [.awaitSignal] ++
          stopCalls started (viewerRuns ports cfg) ++ stopCalls started (viewerRuns ports cfg))

theorem runMain_ends (ports : MainPorts) (yaml : Option Reader) (args : List String) :
    MainEnds ports yaml (configPath args) (runMain ports yaml args) := by
  unfold runMain
  cases hload : loadFromYaml yaml (configPath args) with
  | error what => exact .refused [] (.inl rfl) (by rw [startUp, hload])
  | ok cfg =>
    dsimp only
    by_cases hcameras : cfg.cameras.isEmpty = true
    · rw [if_pos hcameras]
      exact .refused [] (.inl rfl) (by rw [startUp, hload]; exact if_pos hcameras)
    · rw [if_neg hcameras]
      cases hpublisher : ports.publisherStart with
      | error what =>
        refine .refused _ (.inr rfl) ?_
        rw [startUp, hload]
        dsimp only
        rw [if_neg hcameras, hpublisher]
      | ok _ =>
        have hstart : startUp ports yaml (configPath args) =
            startCameras ports cfg (viewerRuns ports cfg) 0 cfg.cameras := by
          rw [startUp, hload]
          dsimp only
          rw [if_neg hcameras, hpublisher]
          rfl
        have hviewing := startPipelines_viewing ports cfg (viewerRuns ports cfg) 0 cfg.cameras
        have hloop := startPipelines_eq ports cfg (viewerRuns ports cfg) 0 cfg.cameras
        dsimp only
        cases hrun : startCameras ports cfg (viewerRuns ports cfg) 0 cfg.cameras with
        | error code =>
          rw [hrun] at hloop
          obtain ⟨rfl, hcomplete⟩ := hloop
          rw [hcomplete]
          exact .failed cfg _ hviewing (hstart.trans hrun)
        | ok running =>
          rw [hrun] at hloop
          rw [hloop] at hviewing ⊢
          refine .stopped cfg _ hviewing ?_ hload ⟨running, hstart.trans hrun⟩
          simp [Process.waiting]

/-- The signal is awaited once. -/
theorem awaitSignal_notMem (ports : MainPorts) (cfg : SystemConfig)
    (started : List (ℕ × Bool)) :
    .awaitSignal ∉ openingCalls ports cfg started ∧
      ∀ viewer, .awaitSignal ∉ stopCalls started viewer := by
  refine ⟨fun hc => ?_, fun viewer hc => ?_⟩
  · rcases List.mem_append.mp hc with hc | hc
    · rcases List.mem_cons.mp hc with hc | hc
      · contradiction
      · rcases viewerCalls_idle hc with ⟨_, hc⟩ | hc <;> contradiction
    · obtain ⟨p, _, hp⟩ := List.mem_map.mp hc
      contradiction
  · rcases stopCalls_stop hc with ⟨_, hc⟩ | hc | hc <;> contradiction

def exitCode {α : Type} : Except ℕ α → ℕ
  | .ok _ => 0
  | .error code => code

/-- Whatever the configuration is and whichever call fails: no pipeline runs at any moment without
the publisher, nor one that is viewed without the viewer; nothing runs when `main` returns; and it
waits for a signal only while all cameras run. -/
theorem runMain_orderly (ports : MainPorts) (yaml : Option Reader) (args : List String) :
    Orderly (runMain ports yaml args).2 ∧
      (runMain ports yaml args).1 = exitCode (startUp ports yaml (configPath args)) ∧
      ∀ before after, (runMain ports yaml args).2 = before ++ .awaitSignal :: after →
        ∃ cfg, loadFromYaml yaml (configPath args) = .ok cfg ∧
          before.foldl Process.call {} = Process.waiting ports cfg := by
  have hnone {calls before after : List MainCall} (hcalls : .awaitSignal ∉ calls) :
      calls ≠ before ++ .awaitSignal :: after := by
    rintro rfl
    exact hcalls (by simp)
  have hends := runMain_ends ports yaml args
  generalize runMain ports yaml args = run at hends hnone ⊢
  cases hends with
  | refused calls hcalls hstart =>
    rw [hstart]
    refine ⟨?_, rfl, fun before after h => absurd h (hnone ?_)⟩
    · rcases hcalls with rfl | rfl
      · exact ⟨throughout_iff.mp (Process.supported_idle rfl (by simp)), rfl⟩
      · exact ⟨throughout_iff.mp (Process.supported_idle rfl (by simp)), rfl⟩
    · rcases hcalls with rfl | rfl <;> simp
  | failed cfg started hviewing hstart =>
    rw [hstart]
    obtain ⟨hopening, hclosing⟩ := awaitSignal_notMem ports cfg started
    refine ⟨?_, rfl, fun before after h => absurd h (hnone ?_)⟩
    · have horderly : Orderly (openingCalls ports cfg started ++ [] ++
          stopCalls started (viewerRuns ports cfg) ++ []) :=
        orderly_opening hviewing (by simp) (.inl rfl)
      simpa using horderly
    · exact fun hc => (List.mem_append.mp hc).elim hopening (hclosing _)
  | stopped cfg started hviewing hstarted hload hstart =>
    obtain ⟨running, hstart⟩ := hstart
    rw [hstart]
    refine ⟨orderly_opening hviewing (by simp) (.inr rfl), rfl, fun before after h => ?_⟩
    refine ⟨cfg, hload, ?_⟩
    obtain ⟨hopening, hclosing⟩ := awaitSignal_notMem ports cfg started
    have hsplit : openingCalls ports cfg started ++ MainCall.awaitSignal ::
        (stopCalls started (viewerRuns ports cfg) ++ stopCalls started (viewerRuns ports cfg)) =
          before ++ .awaitSignal :: after := by
      simpa using h
    have hrest : MainCall.awaitSignal ∉
        stopCalls started (viewerRuns ports cfg) ++ stopCalls started (viewerRuns ports cfg) :=
      fun hc => (List.mem_append.mp hc).elim (hclosing _) (hclosing _)
    rw [← ((List.append_cons_inj_of_notMem hopening hrest).mp hsplit).1, foldl_opening, hstarted]
    rfl

/-- With two cameras and no viewer. -/
theorem runMain_docks : ∃ cfg,
    [.publisherStart true, .pipelineStart 0 false, .pipelineStart 1 false].foldl Process.call {} =
      Process.waiting {} cfg := by
  have hrun : (runMain {} (some (plainReader docks)) ["--config", "site.yaml"]).2 =
      [.publisherStart true, .pipelineStart 0 false, .pipelineStart 1 false] ++ .awaitSignal ::
        (stopCalls [(0, false), (1, false)] false ++ stopCalls [(0, false), (1, false)] false) :=
    rfl
  obtain ⟨_, _, hwaits⟩ := runMain_orderly {} (some (plainReader docks)) ["--config", "site.yaml"]
  obtain ⟨cfg, _, hwaiting⟩ := hwaits _ _ hrun
  exact ⟨cfg, hwaiting⟩

end ForkliftSafety
