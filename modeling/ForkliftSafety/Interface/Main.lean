import ForkliftSafety.Infrastructure.YamlConfigLoader

/-! `main` up to the loop that waits for a signal: the start-up checks, and how the pipelines of the
cameras are wired. -/
namespace ForkliftSafety
open Yaml

/-- How the calls end that `main` makes outside of its own file. Engines are numbered by camera. -/
structure MainPorts where
  publisherStart : Except Error Unit := .ok ()
  viewerStart : Except Error Unit := .ok ()
  makeEngine : ℕ → InferenceBackend → Bool := fun _ _ => true
  initEngine : ℕ → InferenceConfig → Except Error Unit := fun _ _ => .ok ()

def cameraSource (e : CameraEntry) : CameraSource :=
  match e.sourceType with
  | .videoFile => .videoFile e.videoFile
  | .rtsp => .rtsp e.rtsp

structure RunningPipeline where
  source : CameraSource
  pipeline : Pipeline

/-- One zone service stands behind the risk service and behind every viewer. -/
def wirePipeline (cfg : SystemConfig) (viewer : Bool) (e : CameraEntry) : Pipeline where
  cameraId := (cameraSource e).cameraId
  safetyZone := cfg.safetyZone
  cfg := e.pipeline
  viewerZones := if viewer && e.pipeline.enableViewer then some cfg.safetyZone else none

section StartUp
variable (ports : MainPorts)

/-- The loop over the cameras; an error is the exit code. -/
def startCameras (cfg : SystemConfig) (viewer : Bool) :
    ℕ → List CameraEntry → Except ℕ (List RunningPipeline)
  | _, [] => .ok []
  | i, e :: rest =>
    if ports.makeEngine i cfg.backend then
      match ports.initEngine i cfg.inference with
      | .error _ => .error 2
      | .ok _ =>
        match startCameras cfg viewer (i + 1) rest with
        | .error code => .error code
        | .ok started => .ok (⟨cameraSource e, wirePipeline cfg viewer e⟩ :: started)
    else .error 2

def startUp (yaml : Option Reader) (path : String) : Except ℕ (List RunningPipeline) :=
  match loadFromYaml yaml path with
  | .error _ => .error 1
  | .ok cfg =>
    if cfg.cameras.isEmpty then .error 1
    else
      match ports.publisherStart with
      | .error _ => .error 1
      | .ok _ =>
        startCameras ports cfg (cfg.viewer.enabled && ports.viewerStart.isOk) 0 cfg.cameras

end StartUp

/-- A viewer shows the zones of the risk service. -/
theorem wirePipeline_viewing (cfg : SystemConfig) (viewer : Bool) (e : CameraEntry) :
    (wirePipeline cfg viewer e).viewing =
      if viewer && e.pipeline.enableViewer then some (wirePipeline cfg viewer e).safetyZone
      else none := by
  unfold Pipeline.viewing wirePipeline
  cases viewer <;> cases e.pipeline.enableViewer <;> rfl

section Ids
variable {Y : Reader}

/-- The id of a camera, or what stands for a missing one. -/
def idAt (Y : Reader) (c : Node) : String :=
  if (c.get "id").isDefined then (Y.asString (c.get "id")).toOption.getD "cam" else "cam"

def documentIds (Y : Reader) (root : Node) : List String :=
  (root.get "cameras").items.map (idAt Y)

/-- No two pipelines write the same slot of the viewer or raise alerts under the same camera. -/
def Unambiguous (started : List RunningPipeline) : Prop :=
  started.Pairwise fun r q =>
    r.source.cameraId ≠ q.source.cameraId ∧ r.pipeline.cameraId ≠ q.pipeline.cameraId

theorem loadSource_cameraId {c : Node} {id src : String} {e : CameraEntry}
    (h : loadSource Y c id src = .ok e) : (cameraSource e).cameraId = id := by
  unfold loadSource at h
  split_ifs at h
  · obtain ⟨_, _, h⟩ := bind_ok h
    obtain ⟨_, _, h⟩ := bind_ok h
    rw [← Except.ok.inj h]
    rfl
  · obtain ⟨_, _, h⟩ := bind_ok h
    rw [← Except.ok.inj h]
    rfl

/-- Both kinds of source get the id of the node. -/
theorem loadCamera_cameraId {c : Node} {e : CameraEntry} (h : loadCamera Y c = .ok e) :
    (cameraSource e).cameraId = idAt Y c := by
  obtain ⟨id, src, e', hid, _, hsource, hsame⟩ := (loadCamera_reads h).source
  have hsource' : (cameraSource e).cameraId = (cameraSource e').cameraId := by
    rw [hsame]
    rfl
  rw [hsource', loadSource_cameraId hsource, idAt]
  rcases getOr_ok hid with ⟨hdefined, hread⟩ | ⟨hmissing, rfl⟩
  · rw [if_pos hdefined, hread]
    rfl
  · rw [if_neg (by simp [hmissing])]

theorem loadRoot_ids {root : Node} {cfg : SystemConfig} (h : loadRoot Y root = .ok cfg) :
    (cfg.cameras.map fun e => (cameraSource e).cameraId) = documentIds Y root := by
  rw [documentIds]
  rcases getOr_ok (loadRoot_reads h).cameras with ⟨_, hread⟩ | ⟨hmissing, hdefault⟩
  · exact map_eq_of_forall₂ ((mapM_ok hread).imp fun _ _ => loadCamera_cameraId)
  · rw [hdefault, Node.eq_undefined hmissing]
    rfl

theorem startCameras_ids {ports : MainPorts} {cfg : SystemConfig} {viewer : Bool} {i : ℕ}
    {cameras : List CameraEntry} {started : List RunningPipeline}
    (h : startCameras ports cfg viewer i cameras = .ok started) :
    started = cameras.map fun e => ⟨cameraSource e, wirePipeline cfg viewer e⟩ := by
  induction cameras generalizing i started with
  | nil => exact (Except.ok.inj h).symm
  | cons e rest ih =>
    unfold startCameras at h
    split_ifs at h
    split at h
    · contradiction
    · split at h
      · contradiction
      · rename_i hrest
        rw [← Except.ok.inj h, ih hrest]
        rfl

theorem startUp_ok {ports : MainPorts} {path : String} {root : Node}
    {started : List RunningPipeline} (hfile : Y.loadFile path = .ok root)
    (h : startUp ports (some Y) path = .ok started) :
    ∃ cfg viewer, loadRoot Y root = .ok cfg ∧
      started = cfg.cameras.map fun e => ⟨cameraSource e, wirePipeline cfg viewer e⟩ := by
  unfold startUp at h
  split at h
  · contradiction
  · rename_i cfg hload
    split_ifs at h
    split at h
    · contradiction
    · exact ⟨cfg, _, loadFromYaml_root hfile hload, startCameras_ids h⟩

end Ids

/-- The pipelines of an accepted document keep cameras apart exactly when the document does. -/
theorem started_unambiguous_iff {Y : Reader} {ports : MainPorts} {path : String} {root : Node}
    {started : List RunningPipeline} (hfile : Y.loadFile path = .ok root)
    (h : startUp ports (some Y) path = .ok started) :
    Unambiguous started ↔ (documentIds Y root).Nodup := by
  obtain ⟨cfg, viewer, hroot, rfl⟩ := startUp_ok hfile h
  rw [← loadRoot_ids hroot, Unambiguous, List.pairwise_map, List.Nodup, List.pairwise_map]
  simp [wirePipeline]

/-- A document with two cameras. -/
def twoCameras (first second : List (Node × Node)) : Node :=
  .map [(.scalar "cameras", .sequence [.map first, .map second])]

def docks : Node := twoCameras [(.scalar "id", .scalar "dock")] [(.scalar "id", .scalar "gate")]

theorem started_unambiguous_docks :
    ∃ started, startUp {} (some (plainReader docks)) "site.yaml" = .ok started ∧
      started.length = 2 ∧ Unambiguous started := by
  have hrun : ∃ started, startUp {} (some (plainReader docks)) "site.yaml" = .ok started ∧
      started.length = 2 := ⟨_, rfl, rfl⟩
  obtain ⟨started, h, hlength⟩ := hrun
  have hfile : (plainReader docks).loadFile "site.yaml" = .ok docks := rfl
  exact ⟨started, h, hlength, (started_unambiguous_iff hfile h).mpr (by decide)⟩

/-- A camera that is called `cam` next to one without an id. -/
def twins : Node :=
  twoCameras [(.scalar "id", .scalar "cam")] [(.scalar "rtsp_url", .scalar "rtsp://gate")]

theorem twin_cameras_start :
    ∃ started, startUp {} (some (plainReader twins)) "site.yaml" = .ok started ∧
      ¬ Unambiguous started := by
  refine ⟨_, rfl, fun h => ?_⟩
  have hapart := List.rel_of_pairwise_cons h List.mem_cons_self
  exact hapart.1 rfl

end ForkliftSafety
