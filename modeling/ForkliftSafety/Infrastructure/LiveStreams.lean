import ForkliftSafety.Infrastructure.DetectionOverlay
import ForkliftSafety.Infrastructure.HttpStreams
import ForkliftSafety.Library.Sampling

/-! `publish` and `publish_detections` of `MjpegStreamServer` next to its sessions: what the clients
get of all that has been published. -/
namespace ForkliftSafety
open Transition Records SharedDets Sampling

/-- The arguments of `publish` and, with the frame they belong to, of `publish_detections`. -/
inductive Broadcast where
  | frame (frame : Frame)
  | detections (u : ViewerUpdate)

def Broadcast.toFrame : Broadcast → Option Frame
  | .frame f => some f
  | .detections _ => none

def Broadcast.toUpdate : Broadcast → Option ViewerUpdate
  | .frame _ => none
  | .detections u => some u

/-- The server, with a history of the frames that it has stored and of the updates. -/
structure LiveServer where
  config : Threads.Config ℕ Surroundings HttpSession := HttpSession.start
  stored : List (Frame × JpegPtr) := []
  reported : List ViewerUpdate := []

namespace LiveServer

inductive Event where
  | publish (b : Broadcast)
  | session (i : ℕ) (e : HttpSession.Event)
  | elapse (ms : ℕ)

section Server
variable (cfg : ViewerServerConfig) (encode : Frame → Option (List UInt8)) (outside : ℚ → ℤ)

/-- `imencode` is only called for an image that is not empty. -/
def jpegOf (frame : Frame) : Option (List UInt8) := if frame.empty then none else encode frame

def document (u : ViewerUpdate) : List Char := detectionsJson outside (Dashboard.sentUpdate u)

-- The server runs from before the first pipeline starts until the last one has stopped. A pointer
-- that a session compares with keeps its frame alive, so that no other frame gets its address. Here
-- no two frames have one.
def next (s : LiveServer) : Event → Option LiveServer
  | .publish (.frame frame) =>
    match jpegOf encode frame with
    | none => some s
    | some bytes =>
      let jpeg : JpegPtr := ⟨s.stored.length, bytes⟩
      ((HttpSession.program cfg).step s.config (.env (.store frame.cameraId.toList jpeg))).map
        fun c => { s with config := c, stored := s.stored ++ [(frame, jpeg)] }
  | .publish (.detections u) =>
    ((HttpSession.program cfg).step s.config
      (.env (.storeDets u.cameraId.toList (document outside u)))).map
        fun c => { s with config := c, reported := s.reported ++ [u] }
  | .session i e =>
    ((HttpSession.program cfg).step s.config (.thread i e)).map fun c => { s with config := c }
  | .elapse ms =>
    ((HttpSession.program cfg).step s.config (.env (.elapse ms))).map
      fun c => { s with config := c }

def system : LTS LiveServer Event := .ofNext {} (next cfg encode outside)

end Server

/-- What happens to the server besides the calls of `publish` and `publish_detections`. -/
def ownEvent : Event → Bool
  | .publish _ => false
  | _ => true

def storedFor (s : LiveServer) (camera : List Char) : List (Frame × JpegPtr) :=
  s.stored.filter fun x => x.1.cameraId.toList = camera

def reportedFor (s : LiveServer) (camera : List Char) : List ViewerUpdate :=
  s.reported.filter fun u => u.cameraId.toList = camera

/-- The detections of a camera that the ticks of a session have found. -/
def entriesSeen (camera : List Char) (looks : List Surroundings) : List (List Char) :=
  looks.filterMap fun l =>
    if (l.dets.entry camera).json = [] then none else some (l.dets.entry camera).json

variable {cfg : ViewerServerConfig} {encode : Frame → Option (List UInt8)} {outside : ℚ → ℤ}
  {s t : LiveServer}

/-- What a step does to the server: it stores a frame or an update, or a session moves. -/
inductive Stepped (cfg : ViewerServerConfig) (encode : Frame → Option (List UInt8))
    (outside : ℚ → ℤ) (s t : LiveServer) : Prop
  | frame (frame : Frame) (jpeg : JpegPtr) (hjpeg : jpegOf encode frame = some jpeg.bytes)
      (haddress : jpeg.address = s.stored.length)
      (hconfig : t.config = ⟨HttpSession.change s.config.shared
        (.store frame.cameraId.toList jpeg), s.config.locals⟩)
      (hstored : t.stored = s.stored ++ [(frame, jpeg)]) (hreported : t.reported = s.reported)
  | detections (u : ViewerUpdate)
      (hconfig : t.config = ⟨HttpSession.change s.config.shared
        (.storeDets u.cameraId.toList (document outside u)), s.config.locals⟩)
      (hstored : t.stored = s.stored) (hreported : t.reported = s.reported ++ [u])
  | quiet (hframes : t.config.shared.frames = s.config.shared.frames)
      (hdets : t.config.shared.dets = s.config.shared.dets)
      (hlooks : ∀ i, (t.config.locals i).looks = (s.config.locals i).looks ∨
        (t.config.locals i).looks = (s.config.locals i).looks ++ [s.config.shared])
      (hstored : t.stored = s.stored) (hreported : t.reported = s.reported)

theorem stepped_of_next {e : Event} (h : next cfg encode outside s e = some t) :
    Stepped cfg encode outside s t := by
  cases e with
  | publish b =>
    cases b with
    | frame frame =>
      simp only [next] at h
      split at h
      · obtain rfl := Option.some.inj h
        exact .quiet rfl rfl (fun _ => .inl rfl) rfl rfl
      · rename_i bytes hjpeg
        obtain ⟨c, hc, rfl⟩ := Option.map_eq_some_iff.mp h
        obtain ⟨g, hg, rfl⟩ := Option.map_eq_some_iff.mp hc
        obtain rfl := HttpSession.program_env hg
        exact .frame frame ⟨s.stored.length, bytes⟩ hjpeg rfl rfl rfl rfl
    | detections u =>
      obtain ⟨c, hc, rfl⟩ := Option.map_eq_some_iff.mp h
      obtain ⟨g, hg, rfl⟩ := Option.map_eq_some_iff.mp hc
      obtain rfl := HttpSession.program_env hg
      exact .detections u rfl rfl rfl
  | session i e =>
    obtain ⟨c, hc, rfl⟩ := Option.map_eq_some_iff.mp h
    obtain ⟨⟨env, l⟩, hr, rfl⟩ := Option.map_eq_some_iff.mp hc
    have hown := HttpSession.program_next hr
    obtain ⟨hdets, hframes, _, _⟩ := HttpSession.next_env hown
    have hlooks (j : ℕ) : (Function.update s.config.locals i l j).looks =
        (s.config.locals j).looks ∨ (Function.update s.config.locals i l j).looks =
          (s.config.locals j).looks ++ [s.config.shared] := by
      rw [Function.update_apply]
      split_ifs with hij
      · subst hij
        exact HttpSession.next_looks hown
      · exact .inl rfl
    exact .quiet hframes hdets hlooks rfl rfl
  | elapse ms =>
    obtain ⟨c, hc, rfl⟩ := Option.map_eq_some_iff.mp h
    obtain ⟨g, hg, rfl⟩ := Option.map_eq_some_iff.mp hc
    obtain rfl := HttpSession.program_env hg
    exact .quiet rfl rfl (fun _ => .inl rfl) rfl rfl

/-- A call of `publish` stores the frame unless it cannot be encoded, and one of
`publish_detections` always stores its update. -/
theorem next_publish {b : Broadcast} (h : next cfg encode outside s (.publish b) = some t) :
    t.stored.map Prod.fst = s.stored.map Prod.fst ++
        (b.toFrame.filter fun frame => (jpegOf encode frame).isSome).toList ∧
      t.reported = s.reported ++ b.toUpdate.toList := by
  cases b with
  | frame frame =>
    simp only [next] at h
    split at h
    · rename_i hjpeg
      obtain rfl := Option.some.inj h
      simp [Broadcast.toFrame, Broadcast.toUpdate, hjpeg]
    · rename_i bytes hjpeg
      obtain ⟨c, _, rfl⟩ := Option.map_eq_some_iff.mp h
      simp [Broadcast.toFrame, Broadcast.toUpdate, Option.filter, hjpeg]
  | detections u =>
    obtain ⟨c, _, rfl⟩ := Option.map_eq_some_iff.mp h
    simp [Broadcast.toFrame, Broadcast.toUpdate]

theorem next_own {e : Event} (hown : ownEvent e = true)
    (h : next cfg encode outside s e = some t) :
    t.stored = s.stored ∧ t.reported = s.reported := by
  cases e with
  | publish b => contradiction
  | session i e =>
    obtain ⟨c, _, rfl⟩ := Option.map_eq_some_iff.mp h
    exact ⟨rfl, rfl⟩
  | elapse ms =>
    obtain ⟨c, _, rfl⟩ := Option.map_eq_some_iff.mp h
    exact ⟨rfl, rfl⟩

theorem found_append (camera : List Char) (looks : List (SharedFrames JpegPtr))
    (frames : SharedFrames JpegPtr) :
    found camera (looks ++ [frames]) = found camera looks ++ (frames.latestFor camera).toList := by
  unfold found
  rw [List.map_append, List.reduceOption_append, List.map_singleton]
  cases frames.latestFor camera <;> rfl

theorem entriesSeen_append (camera : List Char) (looks : List Surroundings) (l : Surroundings) :
    entriesSeen camera (looks ++ [l]) = entriesSeen camera looks ++
      if (l.dets.entry camera).json = [] then [] else [(l.dets.entry camera).json] := by
  unfold entriesSeen
  rw [List.filterMap_append]
  by_cases hjson : (l.dets.entry camera).json = []
  · simp [hjson]
  · simp [hjson]

theorem document_ne_nil (u : ViewerUpdate) : document outside u ≠ [] := by
  unfold document detectionsJson
  exact List.append_ne_nil_of_right_ne_nil _ (by decide)

theorem storedFor_append {frame : Frame} {jpeg : JpegPtr}
    (h : t.stored = s.stored ++ [(frame, jpeg)]) (camera : List Char) :
    t.storedFor camera = s.storedFor camera ++
      if frame.cameraId.toList = camera then [(frame, jpeg)] else [] := by
  unfold storedFor
  rw [h, List.filter_append]
  by_cases hcamera : frame.cameraId.toList = camera <;> simp [hcamera]

theorem reportedFor_append {u : ViewerUpdate} (h : t.reported = s.reported ++ [u])
    (camera : List Char) :
    t.reportedFor camera = s.reportedFor camera ++
      if u.cameraId.toList = camera then [u] else [] := by
  unfold reportedFor
  rw [h, List.filter_append]
  by_cases hcamera : u.cameraId.toList = camera <;> simp [hcamera]

theorem reportedFor_same (h : t.reported = s.reported) (camera : List Char) :
    t.reportedFor camera = s.reportedFor camera := by
  rw [reportedFor, h, reportedFor]

/-- The server keeps the newest of each camera, and the ticks have looked at nothing else. -/
structure Kept (encode : Frame → Option (List UInt8)) (outside : ℚ → ℤ) (s : LiveServer) :
    Prop where
  encoded : ∀ x ∈ s.stored, jpegOf encode x.1 = some x.2.bytes
  below : ∀ x ∈ s.stored, x.2.address < s.stored.length
  apart : s.stored.Pairwise fun x y => x.2.address < y.2.address
  latest : ∀ camera, s.config.shared.frames.latest camera =
    (s.storedFor camera).getLast?.map Prod.snd
  entry : ∀ camera, (s.config.shared.dets.entry camera).json =
    ((s.reportedFor camera).getLast?.map (document outside)).getD []
  frames : ∀ i camera, camera ≠ [] →
    Sampled (found camera ((s.config.locals i).looks.map Surroundings.frames))
      ((s.storedFor camera).map Prod.snd)
  entries : ∀ i camera, Sampled (entriesSeen camera (s.config.locals i).looks)
    ((s.reportedFor camera).map (document outside))

theorem kept_start : Kept encode outside {} where
  encoded := by simp
  below := by simp
  apart := .nil
  latest _ := rfl
  entry _ := rfl
  frames _ _ _ := .start
  entries _ _ := .start

/-- One more look at the frames finds the newest of the camera. -/
theorem Kept.look_frames (h : Kept encode outside s) {camera : List Char} (hcamera : camera ≠ [])
    (i : ℕ) :
    Sampled (found camera
        (((s.config.locals i).looks ++ [s.config.shared]).map Surroundings.frames))
      ((s.storedFor camera).map Prod.snd) := by
  have hlook := (h.frames i camera hcamera).looked
  rw [List.getLast?_map, ← h.latest camera] at hlook
  rw [List.map_append, List.map_singleton, found_append,
    SharedFrames.latestFor_of_ne_nil _ hcamera]
  exact hlook

theorem Kept.look_entries (h : Kept encode outside s) (camera : List Char) (i : ℕ) :
    Sampled (entriesSeen camera ((s.config.locals i).looks ++ [s.config.shared]))
      ((s.reportedFor camera).map (document outside)) := by
  have hlook := (h.entries i camera).looked
  rw [entriesSeen_append, h.entry camera]
  rw [List.getLast?_map] at hlook
  cases hlast : (s.reportedFor camera).getLast? with
  | none => simpa [hlast] using hlook
  | some u => simpa [hlast, document_ne_nil] using hlook

theorem Kept.frame (h : Kept encode outside s) {frame : Frame} {jpeg : JpegPtr}
    (hjpeg : jpegOf encode frame = some jpeg.bytes) (haddress : jpeg.address = s.stored.length)
    (hconfig : t.config = ⟨HttpSession.change s.config.shared
      (.store frame.cameraId.toList jpeg), s.config.locals⟩)
    (hstored : t.stored = s.stored ++ [(frame, jpeg)]) (hreported : t.reported = s.reported) :
    Kept encode outside t where
  encoded := by
    rw [hstored]
    exact List.forall_mem_append.mpr ⟨h.encoded, by simpa using hjpeg⟩
  below := by
    rw [hstored, List.length_append, List.forall_mem_append]
    exact ⟨fun x hx => (h.below x hx).trans (Nat.lt_succ_self _), by simp [haddress]⟩
  apart := by
    rw [hstored, List.pairwise_append]
    refine ⟨h.apart, List.pairwise_singleton _ _, fun x hx y hy => ?_⟩
    rw [List.mem_singleton.mp hy]
    exact haddress ▸ h.below x hx
  latest camera := by
    have hlatest := s.config.shared.frames.latest_store frame.cameraId.toList camera jpeg
    rw [storedFor_append hstored, hconfig]
    refine hlatest.trans ?_
    by_cases hcamera : camera = frame.cameraId.toList
    · simp [hcamera]
    · rw [if_neg hcamera, if_neg (Ne.symm hcamera), List.append_nil]
      exact h.latest camera
  entry camera := by
    rw [reportedFor_same hreported, hconfig]
    exact h.entry camera
  frames i camera hcamera := by
    have hold := h.frames i camera hcamera
    rw [storedFor_append hstored, hconfig, List.map_append]
    split_ifs
    · exact hold.grow jpeg
    · rwa [List.map_nil, List.append_nil]
  entries i camera := by
    rw [reportedFor_same hreported, hconfig]
    exact h.entries i camera

theorem Kept.detections (h : Kept encode outside s) {u : ViewerUpdate}
    (hconfig : t.config = ⟨HttpSession.change s.config.shared
      (.storeDets u.cameraId.toList (document outside u)), s.config.locals⟩)
    (hstored : t.stored = s.stored) (hreported : t.reported = s.reported ++ [u]) :
    Kept encode outside t where
  encoded := hstored ▸ h.encoded
  below := hstored ▸ h.below
  apart := hstored ▸ h.apart
  latest camera := by
    rw [storedFor, hstored, hconfig]
    exact h.latest camera
  entry camera := by
    have hentry :=
      entry_storeDets s.config.shared.dets u.cameraId.toList (document outside u) camera
    rw [reportedFor_append hreported, hconfig]
    refine (congrArg DetEntry.json hentry).trans ?_
    by_cases hcamera : camera = u.cameraId.toList
    · simp [hcamera]
    · rw [if_neg hcamera, if_neg (Ne.symm hcamera), List.append_nil]
      exact h.entry camera
  frames i camera hcamera := by
    rw [storedFor, hstored, hconfig]
    exact h.frames i camera hcamera
  entries i camera := by
    have hold := h.entries i camera
    rw [reportedFor_append hreported, hconfig, List.map_append]
    split_ifs
    · exact hold.grow (document outside u)
    · rwa [List.map_nil, List.append_nil]

theorem Kept.quiet (h : Kept encode outside s)
    (hframes : t.config.shared.frames = s.config.shared.frames)
    (hdets : t.config.shared.dets = s.config.shared.dets)
    (hlooks : ∀ i, (t.config.locals i).looks = (s.config.locals i).looks ∨
      (t.config.locals i).looks = (s.config.locals i).looks ++ [s.config.shared])
    (hstored : t.stored = s.stored) (hreported : t.reported = s.reported) :
    Kept encode outside t where
  encoded := hstored ▸ h.encoded
  below := hstored ▸ h.below
  apart := hstored ▸ h.apart
  latest camera := by
    rw [storedFor, hstored, hframes]
    exact h.latest camera
  entry camera := by
    rw [reportedFor_same hreported, hdets]
    exact h.entry camera
  frames i camera hcamera := by
    rw [storedFor, hstored]
    rcases hlooks i with hsame | hmore
    · rw [hsame]
      exact h.frames i camera hcamera
    · rw [hmore]
      exact h.look_frames hcamera i
  entries i camera := by
    rw [reportedFor_same hreported]
    rcases hlooks i with hsame | hmore
    · rw [hsame]
      exact h.entries i camera
    · rw [hmore]
      exact h.look_entries camera i

theorem kept_of_reachable (h : (system cfg encode outside).Reachable s) :
    Kept encode outside s := by
  apply h.invariant (I := Kept encode outside) kept_start
  intro s e t _ hs hstep
  cases stepped_of_next hstep with
  | frame _ _ hjpeg haddress hconfig hstored hreported =>
    exact hs.frame hjpeg haddress hconfig hstored hreported
  | detections _ hconfig hstored hreported => exact hs.detections hconfig hstored hreported
  | quiet hframes hdets hlooks hstored hreported =>
    exact hs.quiet hframes hdets hlooks hstored hreported

theorem config_reachable (h : (system cfg encode outside).Reachable s) :
    (HttpSession.system cfg).Reachable s.config := by
  apply h.invariant (I := fun s => (HttpSession.system cfg).Reachable s.config) .start
  intro s e t _ hs hstep
  cases e with
  | publish b =>
    cases b with
    | frame frame =>
      have hnext : next cfg encode outside s (.publish (.frame frame)) = some t := hstep
      simp only [next] at hnext
      split at hnext
      · exact Option.some.inj hnext ▸ hs
      · obtain ⟨c, hc, rfl⟩ := Option.map_eq_some_iff.mp hnext
        exact hs.step hc
    | detections u =>
      obtain ⟨c, hc, rfl⟩ := Option.map_eq_some_iff.mp hstep
      exact hs.step hc
  | session i e =>
    obtain ⟨c, hc, rfl⟩ := Option.map_eq_some_iff.mp hstep
    exact hs.step hc
  | elapse ms =>
    obtain ⟨c, hc, rfl⟩ := Option.map_eq_some_iff.mp hstep
    exact hs.step hc

theorem Kept.sent_sublist (h : Kept encode outside s) (i : ℕ) {camera : List Char}
    (hcamera : camera ≠ []) :
    (framesToSend camera ((s.config.locals i).looks.map Surroundings.frames)).Sublist
      ((s.storedFor camera).map Prod.snd) := by
  have hapart : ((s.storedFor camera).map Prod.snd).Pairwise fun a b => a.address < b.address :=
    List.pairwise_map.mpr (h.apart.filter _)
  have hsent := (h.frames i camera hcamera).destutter_sublist hapart
  unfold framesToSend Repeated
  convert hsent

/-- The client of a named camera gets stored frames of this camera, each once and in their order,
however many of them the session has missed. -/
theorem frames_received (h : (system cfg encode outside).Reachable s) (i : ℕ)
    (hkind : (s.config.locals i).kind = some .mjpeg) (hcamera : (s.config.locals i).camera ≠ []) :
    ∃ sent : List (Frame × JpegPtr), sent.Sublist (s.storedFor (s.config.locals i).camera) ∧
      received readPart ((s.config.locals i).sent.drop StreamKind.mjpeg.header.length) =
        sent.map fun x => x.2.bytes := by
  have hphase := HttpSession.system_phase (config_reachable h) i
  obtain ⟨_, hbegun, _⟩ := hphase.mjpeg_received hkind
  obtain ⟨front, hfront, hgot⟩ := List.prefix_map_iff.mp hbegun
  have hsub := hfront.sublist.trans ((kept_of_reachable h).sent_sublist i hcamera)
  obtain ⟨sent, hsent, rfl⟩ := List.sublist_map_iff.mp hsub
  exact ⟨sent, hsent, by rw [hgot, List.map_map]; rfl⟩

/-- A session writes messages of the cameras that it was asked for. -/
theorem sseSession_asked (camera : List Char) (looks : List SharedDets) :
    ∀ m ∈ (HttpSession.sseSession camera looks).sent.flatten, camera = [] ∨ camera = m.camera := by
  induction looks using List.reverseRecOn with
  | nil => simp [HttpSession.sseSession]
  | append_singleton looks dets ih =>
    rw [HttpSession.sseSession_append, SseSession.tick_sent, List.flatten_append,
      List.forall_mem_append]
    refine ⟨ih, fun m hm => ?_⟩
    by_cases hcamera : camera = []
    · exact .inl hcamera
    · right
      have hwritten : m ∈ (HttpSession.sseSession camera looks).written dets (fun _ => 0) camera :=
        by simpa using hm
      have hsource := (SseSession.of_mem_written dets _ _ hcamera
        (List.mem_map_of_mem (f := SseMessage.source) hwritten)).1
      exact (Prod.mk.inj hsource).1.symm

/-- Of each of these cameras, it writes some of what its ticks have found. -/
theorem sseSession_entries {camera c : List Char} (h : camera = [] ∨ camera = c)
    (looks : List Surroundings) :
    ((messagesFor c (HttpSession.sseSession camera
        (looks.map Surroundings.dets)).sent.flatten).map SseMessage.json).Sublist
      (entriesSeen c looks) := by
  induction looks using List.reverseRecOn with
  | nil => exact List.Sublist.refl []
  | append_singleton looks l ih =>
    have hsplit (xs ys : List SseMessage) :
        messagesFor c (xs ++ ys) = messagesFor c xs ++ messagesFor c ys := List.filter_append ..
    have hnewest : (newest l.dets (fun _ => 0) c).map SseMessage.json =
        if (l.dets.entry c).json = [] then [] else [(l.dets.entry c).json] := by
      unfold newest
      split_ifs <;> rfl
    rw [List.map_append, List.map_singleton, HttpSession.sseSession_append, SseSession.tick_sent,
      List.flatten_append, List.flatten_singleton, hsplit, List.map_append, entriesSeen_append,
      SseSession.messagesFor_written _ _ _ h, ← hnewest]
    refine ih.append (List.Sublist.map _ ?_)
    split_ifs
    · exact List.nil_sublist _
    · exact List.Sublist.refl _

/-- The client of the event stream gets, of each camera that it has asked for, documents of this
camera in their order, and none after a newer one. -/
theorem documents_received (h : (system cfg encode outside).Reachable s)
    (hlines : ∀ u ∈ s.reported, HttpSession.ByteLine (document outside u)) (i : ℕ)
    (hkind : (s.config.locals i).kind = some .sse) :
    ∃ messages : List SseMessage,
      received readMessage (((s.config.locals i).sent.map byteChar).drop sseHeader.toList.length) =
        messages.map SseMessage.json ∧
      (∀ m ∈ messages, (s.config.locals i).camera = [] ∨ (s.config.locals i).camera = m.camera) ∧
      ∀ c, (s.config.locals i).camera = [] ∨ (s.config.locals i).camera = c →
        Sampled ((messagesFor c messages).map SseMessage.json)
          ((s.reportedFor c).map (document outside)) := by
  have hphase := HttpSession.system_phase (config_reachable h) i
  have hkept := kept_of_reachable h
  have hasked := sseSession_asked (s.config.locals i).camera
    ((s.config.locals i).looks.map Surroundings.dets)
  have hsampled {c : List Char}
      (hc : (s.config.locals i).camera = [] ∨ (s.config.locals i).camera = c) :=
    (hkept.entries i c).sublist (sseSession_entries hc (s.config.locals i).looks)
  have hdocs : ∀ doc ∈ (s.config.locals i).documents (s.config.locals i).looks,
      HttpSession.ByteLine doc := by
    intro doc hdoc
    obtain ⟨m, hm, rfl⟩ := List.mem_map.mp hdoc
    have hmem : m.json ∈ (s.reportedFor m.camera).map (document outside) :=
      (hsampled (hasked m hm)).subset
        (List.mem_map_of_mem (List.mem_filter.mpr ⟨hm, decide_eq_true rfl⟩))
    obtain ⟨u, hu, hjson⟩ := List.mem_map.mp hmem
    exact hjson ▸ hlines u (List.mem_filter.mp hu).1
  obtain ⟨_, hbegun, _⟩ := hphase.sse_received hkind hdocs
  obtain ⟨messages, hfront, hgot⟩ := List.prefix_map_iff.mp hbegun
  refine ⟨messages, hgot, fun m hm => hasked m (hfront.subset hm), fun c hc => ?_⟩
  exact (hsampled hc).sublist ((hfront.sublist.filter _).map SseMessage.json)

open HttpSession (small_of_all)

theorem digit_small {ch : Char} (h : ch.isDigit = true) : ch.toNat < 256 := by
  simp only [Char.isDigit, Bool.and_eq_true, decide_eq_true_eq, ge_iff_le] at h
  have hnat : ch.toNat ≤ 57 := UInt32.le_iff_toNat_le.mp h.2
  omega

theorem intText_small (n : ℤ) : ∀ ch ∈ intText n, ch.toNat < 256 := by
  intro ch hch
  by_cases hdigit : ch.isDigit = true
  · exact digit_small hdigit
  · by_contra hlarge
    have hsign : ch ≠ '-' := by
      rintro rfl
      exact hlarge (by decide)
    exact Decimal.notMem_toString (by simpa using hdigit) hsign n hch

theorem confText_small (x : FixedFormat.FloatValue) : ∀ ch ∈ confText x, ch.toNat < 256 := by
  intro ch hch
  rcases FixedFormat.mem_floatText (List.mem_of_mem_take hch) with hdigit | hother
  · exact digit_small hdigit
  · exact small_of_all (by decide) ch hother

theorem commaLoop_small {α : Type} {item : α → List Char} {json : List Char} {as : List α}
    (hjson : ∀ ch ∈ json, ch.toNat < 256) (hitem : ∀ a ∈ as, ∀ ch ∈ item a, ch.toNat < 256)
    (i : ℕ) : ∀ ch ∈ commaLoop item i json as, ch.toNat < 256 := by
  induction as generalizing i json with
  | nil => exact hjson
  | cons a as ih =>
    rw [commaLoop]
    refine ih (List.forall_mem_append.mpr ⟨?_, hitem a List.mem_cons_self⟩)
      (fun b hb => hitem b (List.mem_cons_of_mem _ hb)) (i + 1)
    split_ifs
    · exact List.forall_mem_append.mpr ⟨hjson, small_of_all (by decide)⟩
    · exact hjson

theorem detectionJson_small (d : SentDetection) :
    ∀ ch ∈ detectionJson outside d, ch.toNat < 256 := by
  have hclass : ∀ ch ∈ d.cls.toString.toList, ch.toNat < 256 := by
    cases d.cls <;> exact small_of_all (by decide)
  unfold detectionJson
  simp only [List.forall_mem_append, and_assoc]
  exact ⟨small_of_all (by decide), hclass, small_of_all (by decide), intText_small _,
    small_of_all (by decide), intText_small _, small_of_all (by decide), intText_small _,
    small_of_all (by decide), intText_small _, small_of_all (by decide), confText_small _,
    small_of_all (by decide)⟩

theorem zoneJson_small (z : SafetyZone) : ∀ ch ∈ zoneJson outside z, ch.toNat < 256 := by
  unfold zoneJson
  simp only [List.forall_mem_append, and_assoc]
  exact ⟨small_of_all (by decide), intText_small _, small_of_all (by decide), intText_small _,
    small_of_all (by decide), intText_small _, small_of_all (by decide), intText_small _,
    small_of_all (by decide)⟩

/-- A document of a camera whose name is of bytes and needs no escapes is a line of bytes. -/
theorem document_byteLine {u : ViewerUpdate} (hplain : Json.PlainText u.cameraId.toList)
    (hsmall : ∀ ch ∈ u.cameraId.toList, ch.toNat < 256) :
    HttpSession.ByteLine (document outside u) where
  oneLine := detectionsJson_oneLine outside hplain
  small := by
    have hfront : ∀ ch ∈ "\x7b\"camera\":\"".toList ++ u.cameraId.toList ++
        "\",\"frame_w\":".toList ++ intText u.frameW ++ ",\"frame_h\":".toList ++
        intText u.frameH ++ ",\"detections\":[".toList, ch.toNat < 256 := by
      simp only [List.forall_mem_append, and_assoc]
      exact ⟨small_of_all (by decide), hsmall, small_of_all (by decide), intText_small _,
        small_of_all (by decide), intText_small _, small_of_all (by decide)⟩
    have hitems : ∀ ch ∈ commaLoop (detectionJson outside) 0 _ (Dashboard.sentUpdate u).detections,
        ch.toNat < 256 :=
      commaLoop_small hfront (fun d _ => detectionJson_small d) 0
    have hmiddle : ∀ ch ∈ "],\"zones\":[".toList, ch.toNat < 256 := small_of_all (by decide)
    have hzones : ∀ ch ∈ commaLoop (zoneJson outside) 0 _ u.zones, ch.toNat < 256 :=
      commaLoop_small (List.forall_mem_append.mpr ⟨hitems, hmiddle⟩)
        (fun z _ => zoneJson_small z) 0
    exact List.forall_mem_append.mpr ⟨hzones, small_of_all (by decide)⟩

end LiveServer
end ForkliftSafety
