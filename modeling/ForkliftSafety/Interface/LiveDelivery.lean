import ForkliftSafety.Infrastructure.LiveStreams
import ForkliftSafety.Interface.AlertDelivery

/-! The frames and the detections of all cameras on their way to the live view. `main` builds one
viewer and hands it to every pipeline that is to have one. -/
namespace ForkliftSafety
open Transition Threads Records Sampling

/-- What a worker hands to the viewer when it goes on. -/
def Worker.showing (p : Pipeline) (l : Worker) : Option Broadcast :=
  match l.pc with
  | .streaming frame _ => some (.frame frame)
  | .detailing frame ds => (publishView p {} frame ds).viewer.head?.map .detections
  | _ => none

def emittedBroadcast (p : Pipeline) (c : PipelineState p) : PipelineLabel p → Option Broadcast
  | .thread w _ => (c.locals w).showing p
  | .env _ => none

namespace Site
variable {ι : Type*} [DecidableEq ι] (S : Site ι)

/-- The pipelines of a site with the viewer, which encodes frames by `encode`. -/
def liveFunnel (cfg : ViewerServerConfig) (encode : Frame → Option (List UInt8))
    (outside : ℚ → ℤ) : Funnel ι (fun i => PipelineState (S.pipeline i))
      (fun i => PipelineLabel (S.pipeline i)) LiveServer LiveServer.Event Broadcast where
  sourceStart i := started (S.pipeline i) (S.startedAt i)
  sourceNext i := (pipelineProgram (S.pipeline i) fun _ _ => .ok ()).step
  emits i := emittedBroadcast (S.pipeline i)
  sinkStart := {}
  sinkNext := LiveServer.next cfg encode outside
  feed := .publish
  own := LiveServer.ownEvent

abbrev LiveState := Funnel.State ι (fun i => PipelineState (S.pipeline i)) LiveServer Broadcast

def liveSystem (cfg : ViewerServerConfig) (encode : Frame → Option (List UInt8))
    (outside : ℚ → ℤ) : LTS S.LiveState
      (Funnel.Move ι (fun i => PipelineLabel (S.pipeline i)) LiveServer.Event) :=
  (S.liveFunnel cfg encode outside).system

end Site

section OneCamera
variable {p : Pipeline} {publish : Fin p.cfg.inferenceWorkers → ℕ → PublishResult}
  {now : TimePoint} {c d : PipelineState p}

/-- A worker records what it hands over. -/
theorem workerNext_view {W : ℕ} {p : Pipeline} {publish : Fin W → ℕ → PublishResult} {w : Fin W}
    {g g' : PipelineShared W} {l l' : Worker} {a : WorkerStep}
    (h : workerNext p publish w (g, l) a = some (g', l')) :
    g'.streamed = g.streamed ++ (l.showing p).toList.filterMap Broadcast.toFrame ∧
      g'.detailed = g.detailed ++ (l.showing p).toList.filterMap Broadcast.toUpdate := by
  cases workerNext_move p publish h with
  | stream hpc => simp [Worker.showing, hpc, Broadcast.toFrame, Broadcast.toUpdate]
  | @detail frame ds hpc =>
    cases hview : p.viewing <;>
      simp [Worker.showing, hpc, publishView, hview, Broadcast.toFrame, Broadcast.toUpdate]
  | test hpc | finish hpc | take hpc | check hpc | evaluate hpc | pass hpc | hand hpc | infer hpc =>
    simp [Worker.showing, hpc]

theorem step_view {label : PipelineLabel p}
    (h : (pipelineProgram p publish).step c label = some d) :
    d.shared.streamed = c.shared.streamed ++
        (emittedBroadcast p c label).toList.filterMap Broadcast.toFrame ∧
      d.shared.detailed = c.shared.detailed ++
        (emittedBroadcast p c label).toList.filterMap Broadcast.toUpdate := by
  cases label with
  | env e =>
    have hstep : ((pipelineProgram p publish).system c).step c (.env e) d := h
    obtain ⟨g, hg, rfl⟩ := Program.system_env hstep
    obtain ⟨hstreamed, hdetailed⟩ := pipelineEnv_view hg
    simp [emittedBroadcast, hstreamed, hdetailed]
  | thread w step =>
    have hstep : ((pipelineProgram p publish).system c).step c (.thread w step) d := h
    obtain ⟨g, l, hnext, rfl⟩ := Program.system_thread hstep
    exact workerNext_view hnext

theorem showing_cameraId {l : Worker} {b : Broadcast} (h : l.showing p = some b) :
    ∀ u ∈ b.toUpdate, u.cameraId = p.cameraId := by
  unfold Worker.showing at h
  split at h
  · obtain rfl := Option.some.inj h
    simp [Broadcast.toUpdate]
  · unfold publishView at h
    split at h
    · simp at h
    · simp only [List.nil_append, List.head?_cons, Option.map_some, Option.some.injEq] at h
      subst h
      simp [Broadcast.toUpdate]
  · contradiction

/-- Every update bears the name of its camera. -/
theorem detailed_named (hc : (pipelineSystem p publish now).Reachable c) :
    ∀ u ∈ c.shared.detailed, u.cameraId = p.cameraId := by
  apply hc.invariant (I := fun c => ∀ u ∈ c.shared.detailed, u.cameraId = p.cameraId)
  · exact fun u hu => absurd hu List.not_mem_nil
  · intro c label d _ ih hstep
    rw [(step_view hstep).2, List.forall_mem_append]
    refine ⟨ih, fun u hu => ?_⟩
    obtain ⟨b, hb, hmem⟩ := List.mem_filterMap.mp hu
    cases label with
    | env e => simp [emittedBroadcast] at hb
    | thread w step => exact showing_cameraId (Option.mem_toList.mp hb) u hmem

end OneCamera

namespace Site
variable {ι : Type*} [DecidableEq ι] {S : Site ι} {cfg : ViewerServerConfig}
  {encode : Frame → Option (List UInt8)} {outside : ℚ → ℤ} {s : S.LiveState}

theorem viewer_reachable (h : (S.liveSystem cfg encode outside).Reachable s) :
    (LiveServer.system cfg encode outside).Reachable s.sink :=
  Funnel.sink_reachable h

theorem handed_frames (h : (S.liveSystem cfg encode outside).Reachable s) (i : ι) :
    (s.handed i).filterMap Broadcast.toFrame = (s.sources i).shared.streamed := by
  apply Funnel.handed_filterMap_eq i Broadcast.toFrame
    (fun c : PipelineState (S.pipeline i) => c.shared.streamed) rfl _ h
  intro c label d hstep
  exact (step_view hstep).1

theorem handed_updates (h : (S.liveSystem cfg encode outside).Reachable s) (i : ι) :
    (s.handed i).filterMap Broadcast.toUpdate = (s.sources i).shared.detailed := by
  apply Funnel.handed_filterMap_eq i Broadcast.toUpdate
    (fun c : PipelineState (S.pipeline i) => c.shared.detailed) rfl _ h
  intro c label d hstep
  exact (step_view hstep).2

/-- The server has stored the frames that can be encoded, in the order in which the workers handed
them over. -/
theorem stored_frames (h : (S.liveSystem cfg encode outside).Reachable s) :
    s.sink.stored.map Prod.fst = ((s.seen Broadcast.toFrame).map Prod.snd).filter fun frame =>
      (LiveServer.jpegOf encode frame).isSome := by
  rw [Funnel.seen_values, List.filter_filterMap]
  apply Funnel.fed_filterMap_eq (fun u : LiveServer => u.stored.map Prod.fst)
    (fun b => b.toFrame.filter fun frame => (LiveServer.jpegOf encode frame).isSome) rfl _ _ h
  · intro u b v hstep
    exact (LiveServer.next_publish hstep).1
  · intro u e v hown hstep
    exact congrArg (List.map Prod.fst) (LiveServer.next_own hown hstep).1

theorem reported_updates (h : (S.liveSystem cfg encode outside).Reachable s) :
    s.sink.reported = (s.seen Broadcast.toUpdate).map Prod.snd := by
  rw [Funnel.seen_values]
  apply Funnel.fed_filterMap_eq LiveServer.reported Broadcast.toUpdate rfl _ _ h
  · intro u b v hstep
    exact (LiveServer.next_publish hstep).2
  · intro u e v hown hstep
    exact (LiveServer.next_own hown hstep).2

theorem seen_named (h : (S.liveSystem cfg encode outside).Reachable s) :
    ∀ x ∈ s.seen Broadcast.toUpdate, x.2.cameraId = (S.pipeline x.1).cameraId := by
  intro x hx
  have hown : x.2 ∈ Funnel.ofSource x.1 (s.seen Broadcast.toUpdate) :=
    List.mem_map_of_mem (List.mem_filter.mpr ⟨hx, decide_eq_true rfl⟩)
  rw [Funnel.ofSource_seen, handed_updates h] at hown
  exact detailed_named (Funnel.source_reachable h x.1) x.2 hown

/-- Where no two cameras have one name, the updates of a name are those of its pipeline. -/
theorem reportedFor_eq (hnames : Function.Injective fun i => (S.pipeline i).cameraId)
    (h : (S.liveSystem cfg encode outside).Reachable s) (i : ι) :
    s.sink.reportedFor (S.pipeline i).cameraId.toList = (s.sources i).shared.detailed := by
  rw [← handed_updates h i, ← Funnel.ofSource_seen, LiveServer.reportedFor, reported_updates h,
    List.filter_map, Funnel.ofSource]
  congr 1
  apply List.filter_congr
  intro x hx
  rw [Function.comp_apply, seen_named h x hx, decide_eq_decide]
  exact ⟨fun hname => hnames (String.ext hname), fun hsame => hsame ▸ rfl⟩

def watchedSite : Site Bool where
  pipeline gate :=
    { cameraId := if gate then "gate" else "dock"
      cfg := { enableViewer := true }
      viewerZones := some {} }

/-- A camera gets a frame, and its worker hands the frame and what is on it to the viewer. -/
def showAlarm (gate : Bool) :
    List (Funnel.Move Bool (fun i => PipelineLabel (watchedSite.pipeline i)) LiveServer.Event) :=
  let frame : Frame := { cameraId := if gate then "gate" else "dock", image := ⟨64, 48⟩ }
  ([none, some frame, none].map fun read => .source gate (.env (.capture read))) ++
    ((alarmSteps (watchedSite.pipeline gate)).take 6).map fun a =>
      .source gate (.thread (⟨0, Nat.zero_lt_one⟩ : Fin 1) a)

/-- One client watches the dock, and one asks for the detections of all cameras. -/
def alarmsWatched :
    List (Funnel.Move Bool (fun i => PipelineLabel (watchedSite.pipeline i)) LiveServer.Event) :=
  [.session 0 .run, .session 0 (.request 0 "/stream?camera=dock".toList 11 fun _ => none),
      .session 0 (.transfer 0 400), .session 0 (.complete 0)].map .sink ++
    showAlarm false ++ showAlarm true ++
    [.elapse 66, .session 0 (.complete 0), .session 0 (.transfer 0 400), .session 1 .run,
      .session 1 (.request 0 "/detections".toList 11 fun _ => none),
      .session 1 (.transfer 0 400), .session 1 (.complete 0),
      .session 1 (.transfer 0 4000)].map .sink

/-- Every frame becomes the same two bytes. -/
def tinyJpeg (_ : Frame) : Option (List UInt8) := some [0xff, 0xd8]

theorem alarmsWatched_run : ∃ s : watchedSite.LiveState,
    (watchedSite.liveSystem {} tinyJpeg fun _ => 0).Reachable s ∧
    ((s.sink.config.locals 0).kind = some .mjpeg ∧
      (s.sink.config.locals 0).camera = "dock".toList ∧
      (received readPart ((s.sink.config.locals 0).sent.drop
        StreamKind.mjpeg.header.length)).length = 1) ∧
    (s.sink.config.locals 1).kind = some .sse ∧
      (received readMessage (((s.sink.config.locals 1).sent.map byteChar).drop
        sseHeader.toList.length)).length = 2 := by
  have hrun : (exec (watchedSite.liveFunnel {} tinyJpeg fun _ => 0).next
      { sources := (watchedSite.liveFunnel {} tinyJpeg fun _ => 0).sourceStart, sink := {} }
      alarmsWatched).map (fun s =>
        ((s.sink.config.locals 0).kind, (s.sink.config.locals 0).camera,
          (received readPart ((s.sink.config.locals 0).sent.drop
            StreamKind.mjpeg.header.length)).length, (s.sink.config.locals 1).kind,
          (received readMessage (((s.sink.config.locals 1).sent.map byteChar).drop
            sseHeader.toList.length)).length)) =
      some (some .mjpeg, "dock".toList, 1, some .sse, 2) := by
    decide +kernel
  obtain ⟨s, hs, hview⟩ := Option.map_eq_some_iff.mp hrun
  simp only [Prod.mk.injEq] at hview
  obtain ⟨hkind, hcamera, hframes, hkind', hdocuments⟩ := hview
  exact ⟨s, reachable_of_exec hs, ⟨hkind, hcamera, hframes⟩, hkind', hdocuments⟩

/-- What a client has got are the encodings of `frames` of one camera, which come in the order in
which they were handed over, those of each pipeline in its own order. -/
structure ShowsFrames (encode : Frame → Option (List UInt8)) (s : S.LiveState)
    (camera : List Char) (got : List (List UInt8)) (frames : List (ι × Frame)) : Prop where
  encodings : got.map some = frames.map fun x => LiveServer.jpegOf encode x.2
  named : ∀ x ∈ frames, x.2.cameraId.toList = camera
  ordered : frames.Sublist (s.seen Broadcast.toFrame)
  cameras : ∀ i, (Funnel.ofSource i frames).Sublist (s.sources i).shared.streamed

/-- Whatever the pipelines, the sessions and their sockets do, and in which order: who watches a
camera gets frames of this camera only, whole, none twice and none after a later one. -/
theorem live_frames (h : (S.liveSystem cfg encode outside).Reachable s) (k : ℕ)
    (hkind : (s.sink.config.locals k).kind = some .mjpeg)
    (hcamera : (s.sink.config.locals k).camera ≠ []) :
    ∃ frames, ShowsFrames encode s (s.sink.config.locals k).camera
      (received readPart
        ((s.sink.config.locals k).sent.drop StreamKind.mjpeg.header.length)) frames := by
  have hserver := viewer_reachable h
  obtain ⟨sent, hsent, hgot⟩ := LiveServer.frames_received hserver k hkind hcamera
  have hstored : sent.Sublist s.sink.stored := hsent.trans List.filter_sublist
  have hsub : (sent.map Prod.fst).Sublist ((s.seen Broadcast.toFrame).map Prod.snd) := by
    have hall := hstored.map Prod.fst
    rw [stored_frames h] at hall
    exact hall.trans List.filter_sublist
  obtain ⟨frames, hordered, himage⟩ := List.sublist_map_iff.mp hsub
  refine ⟨frames, ?_, ?_, hordered, ?_⟩
  · have hencoded : ∀ x ∈ sent, some x.2.bytes = LiveServer.jpegOf encode x.1 := fun x hx =>
      ((LiveServer.kept_of_reachable hserver).encoded x (hstored.subset hx)).symm
    calc (received readPart _).map some
        = sent.map fun x => some x.2.bytes := by rw [hgot, List.map_map]; rfl
      _ = sent.map fun x => LiveServer.jpegOf encode x.1 := List.map_congr_left hencoded
      _ = (sent.map Prod.fst).map (LiveServer.jpegOf encode) := by rw [List.map_map]; rfl
      _ = frames.map fun x => LiveServer.jpegOf encode x.2 := by rw [himage, List.map_map]; rfl
  · intro x hx
    have hmem : x.2 ∈ sent.map Prod.fst := himage ▸ List.mem_map_of_mem hx
    obtain ⟨y, hy, hsame⟩ := List.mem_map.mp hmem
    rw [← hsame]
    exact of_decide_eq_true (List.mem_filter.mp (hsent.subset hy)).2
  · intro i
    rw [← handed_frames h i, ← Funnel.ofSource_seen]
    exact (hordered.filter _).map Prod.snd

theorem alarmsWatched_frames : ∃ s : watchedSite.LiveState, ∃ got : List (List UInt8),
    got.length = 1 ∧ ∃ frames, ShowsFrames tinyJpeg s "dock".toList got frames := by
  obtain ⟨s, hs, ⟨hkind, hcamera, hgot⟩, _⟩ := alarmsWatched_run
  refine ⟨s, _, hgot, ?_⟩
  rw [← hcamera]
  exact live_frames hs 0 hkind (by rw [hcamera]; decide)

/-- What a client has got are documents of cameras that it has asked for. Those of each camera tell
of updates of its pipeline, none of which comes after a later one. -/
structure ShowsUpdates (outside : ℚ → ℤ) (s : S.LiveState) (camera : List Char)
    (got : List (List Char)) (messages : List SseMessage) : Prop where
  documents : got = messages.map SseMessage.json
  asked : ∀ m ∈ messages, camera = [] ∨ camera = m.camera
  sources : ∀ m ∈ messages, ∃ i, m.camera = (S.pipeline i).cameraId.toList
  cameras : ∀ i, camera = [] ∨ camera = (S.pipeline i).cameraId.toList →
    ∃ updates, (messagesFor (S.pipeline i).cameraId.toList messages).map SseMessage.json =
      updates.map (LiveServer.document outside) ∧ Sampled updates (s.sources i).shared.detailed

/-- Where the names of the cameras are of bytes, differ and need no escapes, who asks for detections
gets whole documents of each camera, in the order of its pipeline: some may be missing, and one may
come again, but none comes after a newer one. -/
theorem live_updates (hnames : Function.Injective fun i => (S.pipeline i).cameraId)
    (hplain : ∀ i, Json.PlainText (S.pipeline i).cameraId.toList)
    (hsmall : ∀ i, ∀ ch ∈ (S.pipeline i).cameraId.toList, ch.toNat < 256)
    (h : (S.liveSystem cfg encode outside).Reachable s) (k : ℕ)
    (hkind : (s.sink.config.locals k).kind = some .sse) :
    ∃ messages, ShowsUpdates outside s (s.sink.config.locals k).camera
      (received readMessage
        (((s.sink.config.locals k).sent.map byteChar).drop sseHeader.toList.length)) messages := by
  have hreported : ∀ u ∈ s.sink.reported, ∃ i, u.cameraId = (S.pipeline i).cameraId := by
    intro u hu
    rw [reported_updates h] at hu
    obtain ⟨x, hx, rfl⟩ := List.mem_map.mp hu
    exact ⟨x.1, seen_named h x hx⟩
  have hlines : ∀ u ∈ s.sink.reported, HttpSession.ByteLine (LiveServer.document outside u) := by
    intro u hu
    obtain ⟨i, hi⟩ := hreported u hu
    exact LiveServer.document_byteLine (hi ▸ hplain i) (hi ▸ hsmall i)
  obtain ⟨messages, hgot, hasked, hsampled⟩ :=
    LiveServer.documents_received (viewer_reachable h) hlines k hkind
  refine ⟨messages, hgot, hasked, fun m hm => ?_, fun i hi => ?_⟩
  · have hmem : m.json ∈ (s.sink.reportedFor m.camera).map (LiveServer.document outside) :=
      (hsampled m.camera (hasked m hm)).subset
        (List.mem_map_of_mem (List.mem_filter.mpr ⟨hm, decide_eq_true rfl⟩))
    obtain ⟨u, hu, _⟩ := List.mem_map.mp hmem
    obtain ⟨hu, hname⟩ := List.mem_filter.mp hu
    obtain ⟨i, hi⟩ := hreported u hu
    exact ⟨i, by rw [← hi, of_decide_eq_true hname]⟩
  · obtain ⟨updates, hjson, hupdates⟩ := (hsampled _ hi).exists_of_map
    exact ⟨updates, hjson, reportedFor_eq hnames h i ▸ hupdates⟩

theorem alarmsWatched_updates : ∃ s : watchedSite.LiveState, ∃ got : List (List Char),
    got.length = 2 ∧ ∃ messages, ShowsUpdates (fun _ => 0) s (s.sink.config.locals 1).camera got
      messages := by
  obtain ⟨s, hs, _, hkind, hgot⟩ := alarmsWatched_run
  have hnames : Function.Injective fun i => (watchedSite.pipeline i).cameraId := by
    intro i j
    cases i <;> cases j <;> simp [watchedSite]
  have hplain : ∀ i, Json.PlainText (watchedSite.pipeline i).cameraId.toList := by
    intro i
    cases i <;> decide
  have hsmall : ∀ i, ∀ ch ∈ (watchedSite.pipeline i).cameraId.toList, ch.toNat < 256 := by
    intro i
    cases i <;> exact HttpSession.small_of_all (by decide)
  exact ⟨s, _, hgot, live_updates hnames hplain hsmall hs 1 hkind⟩

end Site
end ForkliftSafety
