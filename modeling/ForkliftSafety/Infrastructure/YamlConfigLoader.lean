import ForkliftSafety.Application.InferenceLoop
import ForkliftSafety.Infrastructure.MjpegStreamServer
import ForkliftSafety.Infrastructure.VideoSource
import ForkliftSafety.Library.Yaml

/-! `load_from_yaml`: the configuration that a YAML document is read as, over the node trees and the
conversions of yaml-cpp. -/
namespace ForkliftSafety
open Yaml

inductive InferenceBackend where
  | onnxRuntime | tensorRT
  deriving DecidableEq, Repr

inductive InferenceDevice where
  | cpu | cuda
  deriving DecidableEq, Repr

inductive CameraSourceType where
  | rtsp | videoFile
  deriving DecidableEq, Repr

/-- `classMap` without entries stands for the engine's own default. -/
structure InferenceConfig where
  modelPath : String := ""
  inputWidth : ℤ := 640
  inputHeight : ℤ := 640
  confThreshold : ℚ := 35 / 100
  nmsThreshold : ℚ := 45 / 100
  maxDetections : ℤ := 300
  device : InferenceDevice := .cpu
  classMap : ℤ → Option ObjectClass := fun _ => none

structure WebSocketServerConfig where
  host : String := "0.0.0.0"
  port : ℕ := 8765
  path : String := "/ws/alerts"
  deriving DecidableEq, Repr

structure CameraEntry where
  sourceType : CameraSourceType := .rtsp
  rtsp : RtspConfig := {}
  videoFile : VideoFileConfig := {}
  pipeline : PipelineConfig := {}
  deriving DecidableEq, Repr

structure SystemConfig where
  backend : InferenceBackend := .onnxRuntime
  inference : InferenceConfig := {}
  safetyZone : SafetyZoneConfig := {}
  websocket : WebSocketServerConfig := {}
  viewer : ViewerServerConfig := {}
  cameras : List CameraEntry := []
  /-- 0 means automatic. -/
  inferenceThreadPoolSize : ℤ := 0
  logLevel : String := "info"

def parseBackend (s : String) : InferenceBackend :=
  if s = "tensorrt" ∨ s = "trt" then .tensorRT else .onnxRuntime

def parseZoneMode (s : String) : PaddingMode :=
  if s = "absolute" then .absolutePixels else .relativeToBox

def parseDevice (s : String) : InferenceDevice :=
  if s = "cuda" ∨ s = "gpu" then .cuda else .cpu

/-- `static_cast<std::uint16_t>`. -/
def toUint16 (i : ℤ) : ℕ := (i % 2 ^ 16).toNat

/-- `static_cast<std::size_t>`. -/
def toSize (i : ℤ) : ℕ := (i % 2 ^ 64).toNat

section Sections
variable (Y : Reader)

/-- `get_or`, with the conversion that its type argument selects. A section of the document is read
the same way. -/
def getOr {α : Type} (read : Node → Except String α) (n : Node) (key : String) (fallback : α) :
    Except String α := do
  let v ← Y.index n key
  if v.isDefined then read v else pure fallback

/-- The lambda `add` of the class map. -/
def addClass (classes : Node) (key : String) (cls : ObjectClass) (m : ℤ → Option ObjectClass) :
    Except String (ℤ → Option ObjectClass) :=
  getOr Y (fun node => node.items.foldlM (fun m idx => do
    let i ← Y.asInt idx
    pure (Function.update m i (some cls))) m) classes key m

def loadClasses (classes : Node) : Except String (ℤ → Option ObjectClass) := do
  let m ← addClass Y classes "person" .person fun _ => none
  addClass Y classes "forklift" .forklift m

def loadInference (root inf : Node) : Except String InferenceConfig := do
  let modelPath ← getOr Y Y.asString inf "model_path" ""
  let inputWidth ← getOr Y Y.asInt inf "input_width" 640
  let inputHeight ← getOr Y Y.asInt inf "input_height" 640
  let confThreshold ← getOr Y Y.asFloat inf "conf_threshold" (35 / 100)
  let nmsThreshold ← getOr Y Y.asFloat inf "nms_threshold" (45 / 100)
  let maxDetections ← getOr Y Y.asInt inf "max_detections" 300
  let rootDevice ← getOr Y Y.asString root "device" "cpu"
  let device ← getOr Y Y.asString inf "device" rootDevice
  let classMap ← getOr Y (loadClasses Y) inf "classes" fun _ => none
  pure { modelPath, inputWidth, inputHeight, confThreshold, nmsThreshold, maxDetections,
         device := parseDevice device, classMap }

def loadSafetyZone (sz : Node) : Except String SafetyZoneConfig := do
  let mode ← getOr Y Y.asString sz "mode" "relative"
  let padXPx ← getOr Y Y.asFloat sz "pad_x_px" 120
  let padYPx ← getOr Y Y.asFloat sz "pad_y_px" 120
  let padRatio ← getOr Y Y.asFloat sz "pad_ratio" (1 / 2)
  pure { mode := parseZoneMode mode, padXPx, padYPx, padRatio }

def loadWebsocket (ws : Node) : Except String WebSocketServerConfig := do
  let host ← getOr Y Y.asString ws "host" "0.0.0.0"
  let port ← getOr Y Y.asInt ws "port" 8765
  let path ← getOr Y Y.asString ws "path" "/ws/alerts"
  pure { host, port := toUint16 port, path }

def loadViewer (v : Node) : Except String ViewerServerConfig := do
  let enabled ← getOr Y Y.asBool v "enabled" false
  let host ← getOr Y Y.asString v "host" "0.0.0.0"
  let port ← getOr Y Y.asInt v "port" 8088
  let webRoot ← getOr Y Y.asString v "web_root" "web"
  let jpegQuality ← getOr Y Y.asInt v "jpeg_quality" 75
  let targetFps ← getOr Y Y.asInt v "target_fps" 15
  pure { enabled, host, port := toUint16 port, webRoot, jpegQuality, targetFps }

/-- The keys that depend on the kind of the source. -/
def loadSource (c : Node) (id src : String) : Except String CameraEntry :=
  if src = "video_file" then do
    let filePath ← getOr Y Y.asString c "video_path" ""
    let loop ← getOr Y Y.asBool c "loop" true
    pure { sourceType := .videoFile, videoFile := { cameraId := id, filePath, loop } }
  else do
    let rtspUrl ← getOr Y Y.asString c "rtsp_url" ""
    pure { sourceType := .rtsp, rtsp := { cameraId := id, rtspUrl } }

def loadCamera (c : Node) : Except String CameraEntry := do
  let id ← getOr Y Y.asString c "id" "cam"
  let src ← getOr Y Y.asString c "source_type" "rtsp"
  let e ← loadSource Y c id src
  let frameQueueCapacity ← getOr Y Y.asInt c "queue_capacity" 4
  let inferenceWorkers ← getOr Y Y.asInt c "workers" 1
  let alertCooldown ← getOr Y Y.asInt c "alert_cooldown_ms" 2000
  let enableViewer ← getOr Y Y.asBool c "enable_viewer" false
  pure { e with
    pipeline := { frameQueueCapacity := toSize frameQueueCapacity
                  inferenceWorkers := toSize inferenceWorkers
                  alertCooldown, enableViewer } }

/-- The body of the `try` block behind `LoadFile`. -/
def loadRoot (root : Node) : Except String SystemConfig := do
  let backend ← getOr Y Y.asString root "backend" "onnxruntime"
  let logLevel ← getOr Y Y.asString root "log_level" "info"
  let inferenceThreadPoolSize ← getOr Y Y.asInt root "inference_thread_pool_size" 0
  let inference ← getOr Y (loadInference Y root) root "inference" {}
  let safetyZone ← getOr Y (loadSafetyZone Y) root "safety_zone" {}
  let websocket ← getOr Y (loadWebsocket Y) root "websocket" {}
  let viewer ← getOr Y (loadViewer Y) root "viewer" {}
  let cameras ← getOr Y (fun cams => cams.items.mapM (loadCamera Y)) root "cameras" []
  pure { backend := parseBackend backend, inference, safetyZone, websocket, viewer, cameras,
         inferenceThreadPoolSize, logLevel }

end Sections

/-- `none` is a build without yaml-cpp. -/
def loadFromYaml (yaml : Option Reader) (path : String) : Except Error SystemConfig :=
  match yaml with
  | none => .error { code := 100, message := "yaml-cpp was not available at build time" }
  | some Y =>
    match Y.loadFile path >>= loadRoot Y with
    | .error what => .error { code := 101, message := "yaml parse failed: " ++ what }
    | .ok out => .ok out

section Integers
variable (Y : Reader)

/-- The integer that a document has under a key, or what stands for a missing one. -/
def intAt (n : Node) (key : String) (fallback : ℤ) : ℤ :=
  if (n.get key).isDefined then (Y.asInt (n.get key)).toOption.getD fallback else fallback

variable {Y} {α : Type} {n : Node} {key : String}

theorem getOr_ok {read : Node → Except String α} {fallback v : α}
    (h : getOr Y read n key fallback = .ok v) :
    (n.get key).isDefined = true ∧ read (n.get key) = .ok v ∨
      (n.get key).isDefined = false ∧ v = fallback := by
  obtain ⟨node, hnode, hread⟩ := bind_ok h
  obtain rfl := Reader.index_ok hnode
  by_cases hdefined : (n.get key).isDefined = true
  · rw [if_pos hdefined] at hread
    exact Or.inl ⟨hdefined, hread⟩
  · rw [if_neg hdefined] at hread
    exact Or.inr ⟨by simpa using hdefined, (Except.ok.inj hread).symm⟩

theorem getOr_asInt {fallback i : ℤ} (h : getOr Y Y.asInt n key fallback = .ok i) :
    i = intAt Y n key fallback := by
  unfold intAt
  rcases getOr_ok h with ⟨hdefined, hread⟩ | ⟨hmissing, rfl⟩
  · rw [if_pos hdefined, hread]
    rfl
  · rw [if_neg (by simp [hmissing])]

/-- A missing section has every key's default. -/
theorem intAt_of_missing (h : (n.get key).isDefined = false) (key' : String) (fallback : ℤ) :
    intAt Y (n.get key) key' fallback = fallback := by
  rw [Node.eq_undefined h]
  rfl

theorem intAt_range (Y : Reader) (n : Node) (key : String) {fallback : ℤ}
    (h : -2 ^ 31 ≤ fallback ∧ fallback < 2 ^ 31) :
    -2 ^ 31 ≤ intAt Y n key fallback ∧ intAt Y n key fallback < 2 ^ 31 := by
  unfold intAt
  by_cases hdefined : (n.get key).isDefined = true
  · rw [if_pos hdefined]
    cases hread : Y.asInt (n.get key) with
    | error e => exact h
    | ok i => exact Y.asInt_range _ i hread
  · rw [if_neg hdefined]
    exact h

theorem toUint16_eq_iff (i : ℤ) : (toUint16 i : ℤ) = i ↔ 0 ≤ i ∧ i < 2 ^ 16 := by
  unfold toUint16
  omega

theorem toSize_eq_iff {i : ℤ} (h : -2 ^ 31 ≤ i ∧ i < 2 ^ 31) : (toSize i : ℤ) = i ↔ 0 ≤ i := by
  unfold toSize
  omega

end Integers

section Loads
variable {Y : Reader}

/-- Each key of a camera, read from its node. -/
structure CameraRead (Y : Reader) (c : Node) (e : CameraEntry) : Prop where
  source : ∃ id src e', getOr Y Y.asString c "id" "cam" = .ok id ∧
    getOr Y Y.asString c "source_type" "rtsp" = .ok src ∧ loadSource Y c id src = .ok e' ∧
    e = { e' with pipeline := e.pipeline }
  queueCapacity : ∃ i, getOr Y Y.asInt c "queue_capacity" 4 = .ok i ∧
    e.pipeline.frameQueueCapacity = toSize i
  workers : ∃ i, getOr Y Y.asInt c "workers" 1 = .ok i ∧ e.pipeline.inferenceWorkers = toSize i
  alertCooldown : getOr Y Y.asInt c "alert_cooldown_ms" 2000 = .ok e.pipeline.alertCooldown
  enableViewer : getOr Y Y.asBool c "enable_viewer" false = .ok e.pipeline.enableViewer

theorem loadCamera_reads {c : Node} {e : CameraEntry} (h : loadCamera Y c = .ok e) :
    CameraRead Y c e := by
  obtain ⟨id, hid, h⟩ := bind_ok h
  obtain ⟨src, hsrc, h⟩ := bind_ok h
  obtain ⟨e', hsource, h⟩ := bind_ok h
  obtain ⟨capacity, hcapacity, h⟩ := bind_ok h
  obtain ⟨workers, hworkers, h⟩ := bind_ok h
  obtain ⟨cooldown, hcooldown, h⟩ := bind_ok h
  obtain ⟨viewer, hviewer, h⟩ := bind_ok h
  obtain rfl := Except.ok.inj h
  exact ⟨⟨id, src, e', hid, hsrc, hsource, rfl⟩, ⟨capacity, hcapacity, rfl⟩,
    ⟨workers, hworkers, rfl⟩, hcooldown, hviewer⟩

/-- Each key of the inference section that is kept as it is read. -/
structure InferenceRead (Y : Reader) (inf : Node) (cfg : InferenceConfig) : Prop where
  modelPath : getOr Y Y.asString inf "model_path" "" = .ok cfg.modelPath
  inputWidth : getOr Y Y.asInt inf "input_width" 640 = .ok cfg.inputWidth
  inputHeight : getOr Y Y.asInt inf "input_height" 640 = .ok cfg.inputHeight
  confThreshold : getOr Y Y.asFloat inf "conf_threshold" (35 / 100) = .ok cfg.confThreshold
  nmsThreshold : getOr Y Y.asFloat inf "nms_threshold" (45 / 100) = .ok cfg.nmsThreshold
  maxDetections : getOr Y Y.asInt inf "max_detections" 300 = .ok cfg.maxDetections
  classMap : getOr Y (loadClasses Y) inf "classes" (fun _ => none) = .ok cfg.classMap

theorem loadInference_reads {root inf : Node} {cfg : InferenceConfig}
    (h : loadInference Y root inf = .ok cfg) : InferenceRead Y inf cfg := by
  obtain ⟨modelPath, hmodelPath, h⟩ := bind_ok h
  obtain ⟨width, hwidth, h⟩ := bind_ok h
  obtain ⟨height, hheight, h⟩ := bind_ok h
  obtain ⟨conf, hconf, h⟩ := bind_ok h
  obtain ⟨nms, hnms, h⟩ := bind_ok h
  obtain ⟨maxDetections, hmax, h⟩ := bind_ok h
  obtain ⟨_, _, h⟩ := bind_ok h
  obtain ⟨_, _, h⟩ := bind_ok h
  obtain ⟨classMap, hclasses, h⟩ := bind_ok h
  obtain rfl := Except.ok.inj h
  exact ⟨hmodelPath, hwidth, hheight, hconf, hnms, hmax, hclasses⟩

/-- Each section of a document. -/
structure RootRead (Y : Reader) (root : Node) (cfg : SystemConfig) : Prop where
  inference : getOr Y (loadInference Y root) root "inference" {} = .ok cfg.inference
  safetyZone : getOr Y (loadSafetyZone Y) root "safety_zone" {} = .ok cfg.safetyZone
  websocket : getOr Y (loadWebsocket Y) root "websocket" {} = .ok cfg.websocket
  viewer : getOr Y (loadViewer Y) root "viewer" {} = .ok cfg.viewer
  cameras : getOr Y (fun cams => cams.items.mapM (loadCamera Y)) root "cameras" [] =
    .ok cfg.cameras

theorem loadRoot_reads {root : Node} {cfg : SystemConfig} (h : loadRoot Y root = .ok cfg) :
    RootRead Y root cfg := by
  obtain ⟨_, _, h⟩ := bind_ok h
  obtain ⟨_, _, h⟩ := bind_ok h
  obtain ⟨_, _, h⟩ := bind_ok h
  obtain ⟨inference, hinference, h⟩ := bind_ok h
  obtain ⟨safetyZone, hsafetyZone, h⟩ := bind_ok h
  obtain ⟨websocket, hwebsocket, h⟩ := bind_ok h
  obtain ⟨viewer, hviewer, h⟩ := bind_ok h
  obtain ⟨cameras, hcameras, h⟩ := bind_ok h
  obtain rfl := Except.ok.inj h
  exact ⟨hinference, hsafetyZone, hwebsocket, hviewer, hcameras⟩

/-- How the two sizes of a camera come from its node. -/
structure LoadsCamera (Y : Reader) (c : Node) (e : CameraEntry) : Prop where
  queueCapacity : e.pipeline.frameQueueCapacity = toSize (intAt Y c "queue_capacity" 4)
  workers : e.pipeline.inferenceWorkers = toSize (intAt Y c "workers" 1)

theorem loadCamera_ok {c : Node} {e : CameraEntry} (h : loadCamera Y c = .ok e) :
    LoadsCamera Y c e := by
  obtain ⟨capacity, hcapacity, hsize⟩ := (loadCamera_reads h).queueCapacity
  obtain ⟨workers, hworkers, hcount⟩ := (loadCamera_reads h).workers
  rw [getOr_asInt hcapacity] at hsize
  rw [getOr_asInt hworkers] at hcount
  exact ⟨hsize, hcount⟩

theorem loadWebsocket_ok {ws : Node} {cfg : WebSocketServerConfig}
    (h : loadWebsocket Y ws = .ok cfg) : cfg.port = toUint16 (intAt Y ws "port" 8765) := by
  obtain ⟨_, _, h⟩ := bind_ok h
  obtain ⟨_, hport, h⟩ := bind_ok h
  obtain ⟨_, _, h⟩ := bind_ok h
  rw [← Except.ok.inj h, getOr_asInt hport]

theorem loadViewer_ok {v : Node} {cfg : ViewerServerConfig} (h : loadViewer Y v = .ok cfg) :
    cfg.port = toUint16 (intAt Y v "port" 8088) := by
  obtain ⟨_, _, h⟩ := bind_ok h
  obtain ⟨_, _, h⟩ := bind_ok h
  obtain ⟨_, hport, h⟩ := bind_ok h
  obtain ⟨_, _, h⟩ := bind_ok h
  obtain ⟨_, _, h⟩ := bind_ok h
  obtain ⟨_, _, h⟩ := bind_ok h
  rw [← Except.ok.inj h, getOr_asInt hport]

theorem loadInference_ok {root inf : Node} {cfg : InferenceConfig}
    (h : loadInference Y root inf = .ok cfg) :
    cfg.maxDetections = intAt Y inf "max_detections" 300 :=
  getOr_asInt (loadInference_reads h).maxDetections

/-- What the numbers of a configuration come from. -/
structure Loads (Y : Reader) (root : Node) (cfg : SystemConfig) : Prop where
  websocketPort : cfg.websocket.port = toUint16 (intAt Y (root.get "websocket") "port" 8765)
  viewerPort : cfg.viewer.port = toUint16 (intAt Y (root.get "viewer") "port" 8088)
  maxDetections : cfg.inference.maxDetections =
    intAt Y (root.get "inference") "max_detections" 300
  cameras : List.Forall₂ (LoadsCamera Y) (root.get "cameras").items cfg.cameras

theorem loadRoot_ok {root : Node} {cfg : SystemConfig} (h : loadRoot Y root = .ok cfg) :
    Loads Y root cfg := by
  have hread := loadRoot_reads h
  refine ⟨?_, ?_, ?_, ?_⟩
  · rcases getOr_ok hread.websocket with ⟨_, hsection⟩ | ⟨hmissing, hdefault⟩
    · exact loadWebsocket_ok hsection
    · rw [intAt_of_missing hmissing, hdefault]
      rfl
  · rcases getOr_ok hread.viewer with ⟨_, hsection⟩ | ⟨hmissing, hdefault⟩
    · exact loadViewer_ok hsection
    · rw [intAt_of_missing hmissing, hdefault]
      rfl
  · rcases getOr_ok hread.inference with ⟨_, hsection⟩ | ⟨hmissing, hdefault⟩
    · exact loadInference_ok hsection
    · rw [intAt_of_missing hmissing, hdefault]
  · rcases getOr_ok hread.cameras with ⟨_, hsection⟩ | ⟨hmissing, hdefault⟩
    · exact (mapM_ok hsection).imp fun _ _ => loadCamera_ok
    · rw [hdefault, Node.eq_undefined hmissing]
      exact .nil

end Loads

/-- The sizes of a camera are the integers of its node. -/
structure FaithfulCamera (Y : Reader) (c : Node) (e : CameraEntry) : Prop where
  queueCapacity : (e.pipeline.frameQueueCapacity : ℤ) = intAt Y c "queue_capacity" 4
  workers : (e.pipeline.inferenceWorkers : ℤ) = intAt Y c "workers" 1

structure Faithful (Y : Reader) (root : Node) (cfg : SystemConfig) : Prop where
  websocketPort : (cfg.websocket.port : ℤ) = intAt Y (root.get "websocket") "port" 8765
  viewerPort : (cfg.viewer.port : ℤ) = intAt Y (root.get "viewer") "port" 8088
  cameras : List.Forall₂ (FaithfulCamera Y) (root.get "cameras").items cfg.cameras

/-- What the queue, the workers and the postprocessor rely on. -/
structure Runnable (cfg : SystemConfig) : Prop where
  queueCapacity : ∀ e ∈ cfg.cameras, 1 ≤ e.pipeline.frameQueueCapacity
  workers : ∀ e ∈ cfg.cameras, 1 ≤ e.pipeline.inferenceWorkers
  maxDetections : 0 ≤ cfg.inference.maxDetections

/-- The integers of the document are in the ranges that the program can take. -/
structure SoundIntegers (Y : Reader) (root : Node) : Prop where
  websocketPort : 0 ≤ intAt Y (root.get "websocket") "port" 8765 ∧
    intAt Y (root.get "websocket") "port" 8765 < 2 ^ 16
  viewerPort : 0 ≤ intAt Y (root.get "viewer") "port" 8088 ∧
    intAt Y (root.get "viewer") "port" 8088 < 2 ^ 16
  cameras : ∀ c ∈ (root.get "cameras").items,
    1 ≤ intAt Y c "queue_capacity" 4 ∧ 1 ≤ intAt Y c "workers" 1
  maxDetections : 0 ≤ intAt Y (root.get "inference") "max_detections" 300

theorem LoadsCamera.sound_iff {Y : Reader} {c : Node} {e : CameraEntry} (h : LoadsCamera Y c e) :
    (FaithfulCamera Y c e ∧ 1 ≤ e.pipeline.frameQueueCapacity ∧
      1 ≤ e.pipeline.inferenceWorkers) ↔
    1 ≤ intAt Y c "queue_capacity" 4 ∧ 1 ≤ intAt Y c "workers" 1 := by
  have hfour : (-2 ^ 31 : ℤ) ≤ 4 ∧ (4 : ℤ) < 2 ^ 31 := by decide
  have hone : (-2 ^ 31 : ℤ) ≤ 1 ∧ (1 : ℤ) < 2 ^ 31 := by decide
  have hcapacity := toSize_eq_iff (intAt_range Y c "queue_capacity" hfour)
  have hworkers := toSize_eq_iff (intAt_range Y c "workers" hone)
  rw [← h.queueCapacity] at hcapacity
  rw [← h.workers] at hworkers
  constructor
  · rintro ⟨⟨hc, hw⟩, hc', hw'⟩
    omega
  · rintro ⟨hc, hw⟩
    have hc' := hcapacity.mpr (by omega)
    have hw' := hworkers.mpr (by omega)
    exact ⟨⟨hc', hw'⟩, by omega, by omega⟩

theorem Loads.sound_iff {Y : Reader} {root : Node} {cfg : SystemConfig} (h : Loads Y root cfg) :
    Faithful Y root cfg ∧ Runnable cfg ↔ SoundIntegers Y root := by
  have hcamera : ∀ c e, LoadsCamera Y c e → (FaithfulCamera Y c e ∧
      (1 ≤ e.pipeline.frameQueueCapacity ∧ 1 ≤ e.pipeline.inferenceWorkers) ↔
      1 ≤ intAt Y c "queue_capacity" 4 ∧ 1 ≤ intAt Y c "workers" 1) :=
    fun _ _ hce => hce.sound_iff
  have hcameras := forall₂_and_right_iff hcamera h.cameras
  have hwebsocket := toUint16_eq_iff (intAt Y (root.get "websocket") "port" 8765)
  have hviewer := toUint16_eq_iff (intAt Y (root.get "viewer") "port" 8088)
  rw [← h.websocketPort] at hwebsocket
  rw [← h.viewerPort] at hviewer
  constructor
  · rintro ⟨hfaithful, hrunnable⟩
    have hsizes : ∀ e ∈ cfg.cameras, 1 ≤ e.pipeline.frameQueueCapacity ∧
        1 ≤ e.pipeline.inferenceWorkers := by
      intro e he
      exact ⟨hrunnable.queueCapacity e he, hrunnable.workers e he⟩
    exact {
      websocketPort := hwebsocket.mp hfaithful.websocketPort
      viewerPort := hviewer.mp hfaithful.viewerPort
      cameras := hcameras.mp ⟨hfaithful.cameras, hsizes⟩
      maxDetections := h.maxDetections ▸ hrunnable.maxDetections }
  · intro hsound
    obtain ⟨hfaithful, hsizes⟩ := hcameras.mpr hsound.cameras
    refine ⟨⟨hwebsocket.mpr hsound.websocketPort, hviewer.mpr hsound.viewerPort, hfaithful⟩, ?_⟩
    exact {
      queueCapacity := fun e he => (hsizes e he).1
      workers := fun e he => (hsizes e he).2
      maxDetections := h.maxDetections ▸ hsound.maxDetections }

theorem loadFromYaml_root {Y : Reader} {path : String} {root : Node} {cfg : SystemConfig}
    (hfile : Y.loadFile path = .ok root) (h : loadFromYaml (some Y) path = .ok cfg) :
    loadRoot Y root = .ok cfg := by
  simp only [loadFromYaml, hfile] at h
  split at h
  · contradiction
  · rename_i hload
    rw [← Except.ok.inj h]
    exact hload

/-- An accepted document gives a faithful and runnable configuration exactly when its integers are
in range. The loader checks none of them. -/
theorem loadFromYaml_sound_iff {Y : Reader} {path : String} {root : Node} {cfg : SystemConfig}
    (hfile : Y.loadFile path = .ok root) (h : loadFromYaml (some Y) path = .ok cfg) :
    Faithful Y root cfg ∧ Runnable cfg ↔ SoundIntegers Y root :=
  (loadRoot_ok (loadFromYaml_root hfile h)).sound_iff

def decimalInt (text : List Char) : ℤ :=
  if text.head? = some '-' then -(Nat.ofDigitChars 10 text.tail 0 : ℤ)
  else Nat.ofDigitChars 10 text 0

/-- A reader of one document, which is given as its tree and writes its integers in decimals. -/
def plainReader (root : Node) : Reader where
  loadFile _ := .ok root
  asInt
    | .scalar text =>
      if -2 ^ 31 ≤ decimalInt text.toList ∧ decimalInt text.toList < 2 ^ 31 then
        .ok (decimalInt text.toList)
      else .error "bad conversion"
    | _ => .error "bad conversion"
  asFloat _ := .error "bad conversion"
  asBool _ := .error "bad conversion"
  asString
    | .scalar text => .ok text
    | _ => .error "bad conversion"
  subscriptError _ key := "operator[] call on a scalar (key: \"" ++ key ++ "\")"
  asInt_range n i h := by
    cases n with
    | scalar text =>
      simp only at h
      split at h
      · rename_i hrange
        rwa [← Except.ok.inj h]
      · contradiction
    | _ => contradiction

/-- A document with a port for the alerts and one camera. -/
def siteDocument (port queueCapacity workers : String) : Node :=
  .map [(.scalar "websocket", .map [(.scalar "port", .scalar port)]),
    (.scalar "cameras", .sequence [.map [(.scalar "id", .scalar "dock"),
      (.scalar "queue_capacity", .scalar queueCapacity), (.scalar "workers", .scalar workers)]])]

def siteConfig (port queueCapacity workers : ℕ) : SystemConfig where
  websocket := { port }
  cameras := [{ rtsp := { cameraId := "dock" }
                pipeline := { frameQueueCapacity := queueCapacity, inferenceWorkers := workers } }]

theorem siteDocument_sound :
    loadFromYaml (some (plainReader (siteDocument "9000" "8" "2"))) "site.yaml" =
      .ok (siteConfig 9000 8 2) ∧
    Faithful (plainReader (siteDocument "9000" "8" "2")) (siteDocument "9000" "8" "2")
      (siteConfig 9000 8 2) ∧ Runnable (siteConfig 9000 8 2) := by
  have hload : loadFromYaml (some (plainReader (siteDocument "9000" "8" "2"))) "site.yaml" =
      .ok (siteConfig 9000 8 2) := rfl
  refine ⟨hload, (loadFromYaml_sound_iff rfl hload).mpr ?_⟩
  refine ⟨by decide, by decide, ?_, by decide⟩
  intro c hc
  obtain rfl : c = .map [(.scalar "id", .scalar "dock"), (.scalar "queue_capacity", .scalar "8"),
    (.scalar "workers", .scalar "2")] := List.mem_singleton.mp hc
  decide

/-- A port that does not fit, a negative capacity and no workers load without complaint. -/
theorem siteDocument_unsound :
    loadFromYaml (some (plainReader (siteDocument "70000" "-1" "0"))) "site.yaml" =
      .ok (siteConfig 4464 (2 ^ 64 - 1) 0) ∧
    ¬ Faithful (plainReader (siteDocument "70000" "-1" "0")) (siteDocument "70000" "-1" "0")
      (siteConfig 4464 (2 ^ 64 - 1) 0) ∧ ¬ Runnable (siteConfig 4464 (2 ^ 64 - 1) 0) := by
  refine ⟨rfl, ?_, ?_⟩
  · intro h
    have hport : (4464 : ℤ) = 70000 := h.websocketPort
    contradiction
  · intro h
    have hworkers : 1 ≤ 0 := h.workers _ List.mem_cons_self
    contradiction

end ForkliftSafety
