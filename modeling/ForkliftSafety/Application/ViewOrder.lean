import ForkliftSafety.Application.FreshestFrame
import Mathlib.Data.Fin.Basic

/-! The order in which the workers of a camera store frames and detections for the live view. They
take the frames in order, but one can overtake another on the way to the view. -/
namespace ForkliftSafety
open Transition Threads

section Projection
variable {p : Pipeline} {publish : Fin p.cfg.inferenceWorkers → ℕ → PublishResult}
  {now : TimePoint} {src : CameraSource} {a : CapAnswers}
  {c : Config (Fin p.cfg.inferenceWorkers) (SourcedShared p.cfg.inferenceWorkers) Worker}

/-- Without its source, a pipeline that reads from one is a pipeline. -/
theorem sourced_projects (hc : (sourcedSystem p publish now src a).Reachable c) :
    (pipelineSystem p publish now).Reachable ⟨c.shared.base, c.locals⟩ := by
  apply hc.invariant
    (I := fun c => (pipelineSystem p publish now).Reachable ⟨c.shared.base, c.locals⟩)
  · exact LTS.Reachable.start
  · intro c label d _ h hstep
    cases label with
    | thread w step =>
      obtain ⟨g, l, hnext, rfl⟩ := Program.system_thread hstep
      obtain ⟨r, hr, heq⟩ := Option.map_eq_some_iff.mp hnext
      obtain ⟨rfl, rfl⟩ := Prod.mk.inj heq
      exact h.step (a := .thread w step) (Option.map_eq_some_iff.mpr ⟨r, hr, rfl⟩)
    | env e =>
      obtain ⟨g, hg, rfl⟩ := Program.system_env hstep
      obtain ⟨e', he'⟩ := sourcedEnv_base hg
      exact h.step (a := .env e') (Option.map_eq_some_iff.mpr ⟨g.base, he', rfl⟩)

end Projection

section Stores
variable {W : ℕ} (encodes : Frame → Bool)

/-- The frames that `publish` stores in `latest`: those that can be encoded. -/
def PipelineShared.stored (g : PipelineShared W) : List Frame := g.streamed.filter encodes

/-- The frames whose detections are stored in `latest_dets`. -/
def PipelineShared.storedDets (g : PipelineShared W) : List Frame :=
  g.detailed.map ViewerUpdate.frame

/-- The frames that were taken after the last one of worker `w`. -/
def takenSince (taken : List (Fin W × Frame)) (w : Fin W) : List Frame :=
  (taken.reverse.takeWhile fun x => x.1 ≠ w).map Prod.snd

/-- Neither the frames nor the detections in the view go back. -/
structure NeverBack (g : PipelineShared W) : Prop where
  frames : ((g.stored encodes).map Frame.sequence).Pairwise (· ≤ ·)
  detections : (g.storedDets.map Frame.sequence).Pairwise (· ≤ ·)

/-- A worker stores its frame, or its detections, only while no worker has stored those of a frame
that was taken later. -/
def InTurn (g : PipelineShared W) (w : Fin W) : LoopPc → Prop
  | .streaming frame _ =>
    encodes frame = true → ∀ f ∈ g.stored encodes, f ∉ takenSince g.taken w
  | .detailing _ _ => ∀ f ∈ g.storedDets, f ∉ takenSince g.taken w
  | _ => True

def StoresInTurn (c : Config (Fin W) (SourcedShared W) Worker) :
    Label (Fin W) WorkerStep SourcedEvent → Prop
  | .thread w .advance => InTurn encodes c.shared.base w (c.locals w).pc
  | _ => True

/-- A worker's current frame stands in the record of the frames taken, and no later frame is its
own. -/
theorem taken_split {g : PipelineShared W} {w : Fin W} {frame : Frame}
    (h : (g.takenBy w).getLast? = some frame) :
    ∃ before after, g.taken = before ++ (w, frame) :: after ∧
      takenSince g.taken w = (after.map Prod.snd).reverse := by
  have hlast : (g.taken.filter fun x => x.1 = w).getLast? = some (w, frame) := by
    unfold PipelineShared.takenBy at h
    rw [List.getLast?_map] at h
    obtain ⟨⟨v, f⟩, hlast, rfl⟩ := Option.map_eq_some_iff.mp h
    have hv := List.mem_filter.mp (List.mem_of_getLast? hlast)
    obtain rfl : v = w := by simpa using hv.2
    exact hlast
  rw [← List.head?_reverse, ← List.filter_reverse, List.head?_filter] at hlast
  obtain ⟨_, after, before, hsplit, hafter⟩ := List.find?_eq_some_iff_append.mp hlast
  refine ⟨before.reverse, after.reverse, ?_, ?_⟩
  · rw [← List.reverse_reverse g.taken, hsplit]
    simp
  · have hothers : ∀ x ∈ after, (fun x => decide (x.1 ≠ w)) x = true := by
      intro x hx
      simpa using hafter x hx
    rw [takenSince, hsplit, List.takeWhile_append_of_pos hothers]
    simp

/-- Among frames taken under growing numbers, those that are not newer than a worker's frame are
those that were not taken after it. -/
theorem sequence_le_iff {g : PipelineShared W} {w : Fin W} {frame f : Frame}
    (hincreasing : ((g.taken.map Prod.snd).map Frame.sequence).Pairwise (· < ·))
    (hcurrent : (g.takenBy w).getLast? = some frame) (hf : f ∈ g.taken.map Prod.snd) :
    f.sequence ≤ frame.sequence ↔ f ∉ takenSince g.taken w := by
  obtain ⟨before, after, hsplit, hsince⟩ := taken_split hcurrent
  rw [hsplit, List.map_append, List.map_cons, List.map_append, List.map_cons,
    List.pairwise_append, List.pairwise_cons] at hincreasing
  obtain ⟨_, ⟨hafter, _⟩, hbefore⟩ := hincreasing
  rw [hsince, List.mem_reverse]
  constructor
  · intro hle hlater
    have hlt : frame.sequence < f.sequence := hafter _ (List.mem_map_of_mem hlater)
    omega
  · intro hnot
    rw [hsplit, List.map_append, List.map_cons, List.mem_append, List.mem_cons] at hf
    rcases hf with hearlier | rfl | hlater
    · have hlt := hbefore _ (List.mem_map_of_mem hearlier) frame.sequence List.mem_cons_self
      omega
    · exact le_rfl
    · exact absurd hlater hnot

/-- With one more frame at its end, a list of frames in order stays so if none of them is newer. -/
theorem pairwise_concat_iff {frames : List Frame} {frame : Frame}
    (h : (frames.map Frame.sequence).Pairwise (· ≤ ·)) :
    ((frames ++ [frame]).map Frame.sequence).Pairwise (· ≤ ·) ↔
      ∀ f ∈ frames, f.sequence ≤ frame.sequence := by
  rw [List.map_append, List.pairwise_append]
  constructor
  · intro hall f hf
    exact hall.2.2 f.sequence (List.mem_map_of_mem hf) frame.sequence (by simp)
  · intro hle
    refine ⟨h, by simp, fun n hn k hk => ?_⟩
    obtain ⟨f, hf, rfl⟩ := List.mem_map.mp hn
    simp only [List.map_cons, List.map_nil, List.mem_singleton] at hk
    exact hk ▸ hle f hf

/-- What a step of a worker does to the view. -/
inductive ViewStep (encodes : Frame → Bool) (w : Fin W) (g g' : PipelineShared W) (l : Worker) :
    WorkerStep → Prop
  | keep {a : WorkerStep} (hframes : g'.stored encodes = g.stored encodes)
    (hdets : g'.storedDets = g.storedDets)
    (hturn : a = .advance → InTurn encodes g w l.pc) : ViewStep encodes w g g' l a
  | store {frame : Frame} (hcurrent : l.pc.current = [frame])
    (hframes : g'.stored encodes = g.stored encodes ++ [frame])
    (hdets : g'.storedDets = g.storedDets)
    (hturn : InTurn encodes g w l.pc ↔ ∀ f ∈ g.stored encodes, f ∉ takenSince g.taken w) :
    ViewStep encodes w g g' l .advance
  | storeDets {frame : Frame} (hcurrent : l.pc.current = [frame])
    (hframes : g'.stored encodes = g.stored encodes)
    (hdets : g'.storedDets = g.storedDets ++ [frame])
    (hturn : InTurn encodes g w l.pc ↔ ∀ f ∈ g.storedDets, f ∉ takenSince g.taken w) :
    ViewStep encodes w g g' l .advance

theorem workerNext_viewStep {p : Pipeline} (hview : p.viewing.isSome = true)
    {publish : Fin W → ℕ → PublishResult} {w : Fin W} {g g' : PipelineShared W} {l l' : Worker}
    {a : WorkerStep} (h : workerNext p publish w (g, l) a = some (g', l')) :
    ViewStep encodes w g g' l a := by
  cases workerNext_move p publish h with
  | @stream frame ds hpc =>
    by_cases hencodes : encodes frame = true
    · refine .store (by rw [hpc]; rfl) ?_ rfl ?_
      · simp [PipelineShared.stored, List.filter_append, hencodes]
      · simp [hpc, InTurn, hencodes]
    · refine .keep ?_ rfl fun _ => ?_
      · simp [PipelineShared.stored, List.filter_append, hencodes]
      · simp [hpc, InTurn, hencodes]
  | @detail frame ds hpc =>
    refine .storeDets (show l.pc.current = [frame] by rw [hpc]; rfl) rfl ?_
      (by rw [hpc]; exact Iff.rfl)
    obtain ⟨zones, hzones⟩ := Option.isSome_iff_exists.mp hview
    simp [PipelineShared.storedDets, publishView, hzones]
  | infer => exact .keep rfl rfl nofun
  | test hpc | finish hpc | take hpc | check hpc | evaluate hpc | pass hpc | hand hpc =>
    exact .keep rfl rfl fun _ => by rw [hpc]; trivial

end Stores

section View
variable {W : ℕ} {encodes : Frame → Bool} {g g' : PipelineShared W}

theorem NeverBack.of_same (h : NeverBack encodes g)
    (hframes : g'.stored encodes = g.stored encodes) (hdets : g'.storedDets = g.storedDets) :
    NeverBack encodes g' := ⟨hframes ▸ h.frames, hdets ▸ h.detections⟩

/-- One more frame goes on in order when none that is stored was captured later. -/
theorem NeverBack.store_iff (h : NeverBack encodes g) {frame : Frame}
    (hframes : g'.stored encodes = g.stored encodes ++ [frame])
    (hdets : g'.storedDets = g.storedDets) :
    NeverBack encodes g' ↔ ∀ f ∈ g.stored encodes, f.sequence ≤ frame.sequence := by
  rw [← pairwise_concat_iff h.frames, ← hframes]
  exact ⟨NeverBack.frames, fun hd => ⟨hd, hdets ▸ h.detections⟩⟩

theorem NeverBack.storeDets_iff (h : NeverBack encodes g) {frame : Frame}
    (hframes : g'.stored encodes = g.stored encodes)
    (hdets : g'.storedDets = g.storedDets ++ [frame]) :
    NeverBack encodes g' ↔ ∀ f ∈ g.storedDets, f.sequence ≤ frame.sequence := by
  rw [← pairwise_concat_iff h.detections, ← hdets]
  exact ⟨NeverBack.detections, fun hd => ⟨hframes ▸ h.frames, hd⟩⟩

end View

section Runs
variable {p : Pipeline} {publish : Fin p.cfg.inferenceWorkers → ℕ → PublishResult}
  {now : TimePoint} {src : CameraSource} {a : CapAnswers} {encodes : Frame → Bool}
  {c d : Config (Fin p.cfg.inferenceWorkers) (SourcedShared p.cfg.inferenceWorkers) Worker}

/-- Frames go from the capture thread to the workers in order, and from there to the view. -/
structure FlowsInOrder {W : ℕ} (encodes : Frame → Bool) (g : SourcedShared W) : Prop where
  numbered : Numbered g
  kept : (g.base.taken.map Prod.snd ++ g.base.frames.items).Sublist g.pushed
  stored : ∀ f ∈ g.base.stored encodes, f ∈ g.base.taken.map Prod.snd
  storedDets : ∀ f ∈ g.base.storedDets, f ∈ g.base.taken.map Prod.snd

section Steps
variable {W : ℕ} {g g' : SourcedShared W}

theorem mem_taken_of_getLast? {g : PipelineShared W} {w : Fin W} {frame : Frame}
    (h : (g.takenBy w).getLast? = some frame) : frame ∈ g.taken.map Prod.snd := by
  obtain ⟨x, hx, hframe⟩ := List.mem_map.mp (List.mem_of_getLast? h)
  exact List.mem_map.mpr ⟨x, List.mem_of_mem_filter hx, hframe⟩

theorem FlowsInOrder.worker {p : Pipeline} (hview : p.viewing.isSome = true)
    {publish : Fin W → ℕ → PublishResult} {w : Fin W} {b : PipelineShared W} {l l' : Worker}
    {a : WorkerStep} (h : FlowsInOrder encodes g)
    (hcurrent : ∀ frame, l.pc.current = [frame] → (g.base.takenBy w).getLast? = some frame)
    (hstep : workerNext p publish w (g.base, l) a = some (b, l')) :
    FlowsInOrder encodes { g with base := b } := by
  obtain ⟨hcapture, hqueue⟩ := workerNext_frames hstep
  have hnumbered : Numbered { g with base := b } :=
    h.numbered.of_eq rfl (by rw [hcapture]) rfl
  have hkept : (b.taken.map Prod.snd ++ b.frames.items).Sublist g.pushed ∧
      ∀ f ∈ g.base.taken.map Prod.snd, f ∈ b.taken.map Prod.snd := by
    rcases hqueue with ⟨hframes, htaken⟩ | ⟨frame, hpop, htaken⟩
    · rw [hframes, htaken]
      exact ⟨h.kept, fun _ hf => hf⟩
    · rw [htaken, List.map_append]
      refine ⟨?_, fun f hf => List.mem_append_left _ hf⟩
      rw [List.append_assoc]
      exact ((List.Sublist.refl _).append (ConcurrentQueue.popLatest_sublist hpop)).trans h.kept
  obtain ⟨hkept, hmore⟩ := hkept
  refine ⟨hnumbered, hkept, ?_, ?_⟩
  · intro f hf
    cases workerNext_viewStep encodes hview hstep with
    | keep hframes _ _ => exact hmore f (h.stored f (hframes ▸ hf))
    | storeDets _ hframes _ _ => exact hmore f (h.stored f (hframes ▸ hf))
    | store hframe hframes _ _ =>
      change f ∈ b.stored encodes at hf
      rw [hframes, List.mem_append, List.mem_singleton] at hf
      rcases hf with hold | rfl
      · exact hmore f (h.stored f hold)
      · exact hmore f (mem_taken_of_getLast? (hcurrent f hframe))
  · intro f hf
    cases workerNext_viewStep encodes hview hstep with
    | keep _ hdets _ => exact hmore f (h.storedDets f (hdets ▸ hf))
    | store _ _ hdets _ => exact hmore f (h.storedDets f (hdets ▸ hf))
    | storeDets hframe _ hdets _ =>
      change f ∈ b.storedDets at hf
      rw [hdets, List.mem_append, List.mem_singleton] at hf
      rcases hf with hold | rfl
      · exact hmore f (h.storedDets f hold)
      · exact hmore f (mem_taken_of_getLast? (hcurrent f hframe))

/-- What the capture thread and `stop` do to the queue. -/
theorem sourcedEnv_kept {e : SourcedEvent} (h : sourcedEnv src g e = some g') {taken : List Frame}
    (hkept : (taken ++ g.base.frames.items).Sublist g.pushed) :
    (taken ++ g'.base.frames.items).Sublist g'.pushed := by
  cases e with
  | tick | stop =>
    obtain ⟨b, hb, rfl⟩ := Option.map_eq_some_iff.mp h
    cases pipelineEnv_move hb <;> exact hkept
  | capture a =>
    change sourcedCapture src g a = some g' at h
    cases hpc : g.base.capture with
    | reading =>
      obtain ⟨hframes, _, hpushed⟩ := sourcedCapture_reading hpc h
      rw [hframes, hpushed]
      exact hkept
    | done => simp [sourcedCapture, captureNext, hpc] at h
    | testing =>
      simp only [sourcedCapture, captureNext, hpc, Option.map_some, Option.some.injEq] at h
      subst h
      exact hkept
    | pushing frame =>
      simp only [sourcedCapture, captureNext, hpc, Option.map_eq_some_iff] at h
      obtain ⟨b, ⟨r, hpush, rfl⟩, rfl⟩ := h
      have hitems := ConcurrentQueue.push_sublist (b := r.2) hpush
      have hmore := hkept.append (List.Sublist.refl [frame])
      rw [List.append_assoc] at hmore
      exact ((List.Sublist.refl taken).append hitems).trans hmore

theorem FlowsInOrder.env {e : SourcedEvent} (h : FlowsInOrder encodes g)
    (hstep : sourcedEnv src g e = some g') : FlowsInOrder encodes g' := by
  obtain ⟨e', henv⟩ := sourcedEnv_base hstep
  obtain ⟨_, htaken, _⟩ := pipelineEnv_shared henv
  obtain ⟨hstreamed, hdetailed⟩ := pipelineEnv_view henv
  constructor
  · exact h.numbered.env hstep
  · rw [htaken]
    exact sourcedEnv_kept hstep h.kept
  · intro f hf
    rw [PipelineShared.stored, hstreamed] at hf
    rw [htaken]
    exact h.stored f hf
  · intro f hf
    rw [PipelineShared.storedDets, hdetailed] at hf
    rw [htaken]
    exact h.storedDets f hf

end Steps

theorem current_taken (hc : (sourcedSystem p publish now src a).Reachable c)
    {w : Fin p.cfg.inferenceWorkers} {frame : Frame} (h : (c.locals w).pc.current = [frame]) :
    (c.shared.base.takenBy w).getLast? = some frame := by
  obtain ⟨ds, hfollows⟩ := worker_followsLoop (sourced_projects hc) w
  have htaken := hfollows.taken
  change c.shared.base.takenBy w = _ ++ (c.locals w).pc.current at htaken
  rw [htaken, h, List.getLast?_concat]

theorem flowsInOrder_of_reachable (encodes : Frame → Bool) (hview : p.viewing.isSome = true)
    (hc : (sourcedSystem p publish now src a).Reachable c) : FlowsInOrder encodes c.shared := by
  apply hc.invariant (I := fun c => FlowsInOrder encodes c.shared)
  · have hsequence : (src.openSource {} a).2.sequence = 0 := by
      rw [CameraSource.openSource_sequence]
    exact ⟨⟨rfl, hsequence⟩, List.Sublist.refl [], fun f hf => hf, fun f hf => hf⟩
  · intro c label d hreach h hstep
    cases label with
    | thread w step =>
      obtain ⟨g, l, hnext, rfl⟩ := Program.system_thread hstep
      obtain ⟨r, hr, heq⟩ := Option.map_eq_some_iff.mp hnext
      obtain ⟨rfl, rfl⟩ := Prod.mk.inj heq
      exact h.worker hview (fun frame => current_taken hreach) hr
    | env e =>
      obtain ⟨g, hg, rfl⟩ := Program.system_env hstep
      exact h.env hg

/-- Short of `2 ^ 64` frames, the workers take them under growing numbers. -/
theorem FlowsInOrder.taken_increasing {W : ℕ} {g : SourcedShared W} (h : FlowsInOrder encodes g)
    (hfew : g.pushed.length < 2 ^ 64) :
    ((g.base.taken.map Prod.snd).map Frame.sequence).Pairwise (· < ·) := by
  have hsub := (List.sublist_append_left _ _).trans h.kept
  exact (h.numbered.pushed_increasing hfew).sublist (hsub.map Frame.sequence)

/-- A step keeps the view in order exactly when it stores in turn. -/
theorem step_neverBack_iff (hview : p.viewing.isSome = true)
    (hc : (sourcedSystem p publish now src a).Reachable c)
    (hfew : c.shared.pushed.length < 2 ^ 64) (h : NeverBack encodes c.shared.base)
    {label : Label (Fin p.cfg.inferenceWorkers) WorkerStep SourcedEvent}
    (hstep : (sourcedSystem p publish now src a).step c label d) :
    NeverBack encodes d.shared.base ↔ StoresInTurn encodes c label := by
  have hflow := flowsInOrder_of_reachable encodes hview hc
  have hincreasing := hflow.taken_increasing hfew
  cases label with
  | env e =>
    obtain ⟨g, hg, rfl⟩ := Program.system_env hstep
    obtain ⟨e', henv⟩ := sourcedEnv_base hg
    obtain ⟨hstreamed, hdetailed⟩ := pipelineEnv_view henv
    have hframes : g.base.stored encodes = c.shared.base.stored encodes := by
      rw [PipelineShared.stored, hstreamed]
      rfl
    have hdets : g.base.storedDets = c.shared.base.storedDets := by
      rw [PipelineShared.storedDets, hdetailed]
      rfl
    exact iff_of_true (h.of_same hframes hdets) trivial
  | thread w step =>
    obtain ⟨g, l, hnext, rfl⟩ := Program.system_thread hstep
    obtain ⟨r, hr, heq⟩ := Option.map_eq_some_iff.mp hnext
    obtain ⟨rfl, rfl⟩ := Prod.mk.inj heq
    cases workerNext_viewStep encodes hview hr with
    | keep hframes hdets hturn =>
      refine iff_of_true (h.of_same hframes hdets) ?_
      cases step with
      | advance => exact hturn rfl
      | inferEnds outcome => trivial
    | @store frame hcurrent hframes hdets hturn =>
      have hlast := current_taken hc hcurrent
      change NeverBack encodes r.1 ↔ InTurn encodes c.shared.base w (c.locals w).pc
      rw [h.store_iff hframes hdets, hturn]
      exact forall₂_congr fun f hf => sequence_le_iff hincreasing hlast (hflow.stored f hf)
    | @storeDets frame hcurrent hframes hdets hturn =>
      have hlast := current_taken hc hcurrent
      change NeverBack encodes r.1 ↔ InTurn encodes c.shared.base w (c.locals w).pc
      rw [h.storeDets_iff hframes hdets, hturn]
      exact forall₂_congr fun f hf => sequence_le_iff hincreasing hlast (hflow.storedDets f hf)

/-- No step takes anything out of the view. -/
theorem neverBack_of_step (hview : p.viewing.isSome = true)
    {label : Label (Fin p.cfg.inferenceWorkers) WorkerStep SourcedEvent}
    (hstep : (sourcedSystem p publish now src a).step c label d)
    (h : NeverBack encodes d.shared.base) : NeverBack encodes c.shared.base := by
  have hgrows : c.shared.base.stored encodes <+: d.shared.base.stored encodes ∧
      c.shared.base.storedDets <+: d.shared.base.storedDets := by
    cases label with
    | env e =>
      obtain ⟨g, hg, rfl⟩ := Program.system_env hstep
      obtain ⟨e', henv⟩ := sourcedEnv_base hg
      obtain ⟨hstreamed, hdetailed⟩ := pipelineEnv_view henv
      unfold PipelineShared.stored PipelineShared.storedDets
      rw [hstreamed, hdetailed]
      exact ⟨List.prefix_rfl, List.prefix_rfl⟩
    | thread w step =>
      obtain ⟨g, l, hnext, rfl⟩ := Program.system_thread hstep
      obtain ⟨r, hr, heq⟩ := Option.map_eq_some_iff.mp hnext
      obtain ⟨rfl, rfl⟩ := Prod.mk.inj heq
      show _ <+: r.1.stored encodes ∧ _ <+: r.1.storedDets
      cases workerNext_viewStep encodes hview hr with
      | keep hframes hdets _ =>
        rw [hframes, hdets]
        exact ⟨List.prefix_rfl, List.prefix_rfl⟩
      | store _ hframes hdets _ =>
        rw [hframes, hdets]
        exact ⟨List.prefix_append _ _, List.prefix_rfl⟩
      | storeDets _ hframes hdets _ =>
        rw [hframes, hdets]
        exact ⟨List.prefix_rfl, List.prefix_append _ _⟩
  exact ⟨h.frames.sublist (hgrows.1.sublist.map _), h.detections.sublist (hgrows.2.sublist.map _)⟩

theorem pushed_le_of_step {label : Label (Fin p.cfg.inferenceWorkers) WorkerStep SourcedEvent}
    (hstep : (sourcedSystem p publish now src a).step c label d) :
    c.shared.pushed.length ≤ d.shared.pushed.length := by
  cases label with
  | thread w step =>
    obtain ⟨g, l, hnext, rfl⟩ := Program.system_thread hstep
    obtain ⟨r, _, heq⟩ := Option.map_eq_some_iff.mp hnext
    obtain ⟨rfl, rfl⟩ := Prod.mk.inj heq
    exact le_rfl
  | env e =>
    obtain ⟨g, hg, rfl⟩ := Program.system_env hstep
    cases e with
    | tick now =>
      obtain ⟨b, _, rfl⟩ := Option.map_eq_some_iff.mp hg
      exact le_rfl
    | stop =>
      obtain ⟨b, _, rfl⟩ := Option.map_eq_some_iff.mp hg
      exact le_rfl
    | capture a =>
      change sourcedCapture src c.shared a = some g at hg
      unfold sourcedCapture at hg
      split at hg <;>
      · obtain ⟨b, _, rfl⟩ := Option.map_eq_some_iff.mp hg
        simp

/-- Where all takes are by one worker, none comes after its last. -/
theorem lone_worker_storesInTurn (hone : p.cfg.inferenceWorkers ≤ 1)
    (label : Label (Fin p.cfg.inferenceWorkers) WorkerStep SourcedEvent) :
    StoresInTurn encodes c label := by
  have hsub : Subsingleton (Fin p.cfg.inferenceWorkers) := Fin.subsingleton_iff_le_one.mpr hone
  have hnone (w : Fin p.cfg.inferenceWorkers) : takenSince c.shared.base.taken w = [] := by
    unfold takenSince
    cases c.shared.base.taken.reverse with
    | nil => rfl
    | cons x rest => simp [Subsingleton.elim x.1 w]
  unfold StoresInTurn
  split
  · unfold InTurn
    split <;> simp [hnone]
  · trivial

/-- Every run of a lone worker stores in turn. -/
theorem lone_worker_inTurn (hone : p.cfg.inferenceWorkers ≤ 1)
    (hc : (sourcedSystem p publish now src a).Reachable c) :
    ((sourcedSystem p publish now src a).restrict (StoresInTurn encodes)).Reachable c := by
  induction hc with
  | refl => exact LTS.Reachable.start
  | tail _ hlast ih =>
    obtain ⟨label, hstep⟩ := hlast
    exact LTS.Reachable.step (M := (sourcedSystem p publish now src a).restrict _) ih
      ⟨lone_worker_storesInTurn hone label, hstep⟩

/-- Short of `2 ^ 64` frames, the runs that keep the view in order are those that store in turn. -/
theorem storesInTurn_reachable_iff (hview : p.viewing.isSome = true)
    (hfew : c.shared.pushed.length < 2 ^ 64) :
    ((sourcedSystem p publish now src a).restrict (StoresInTurn encodes)).Reachable c ↔
      (sourcedSystem p publish now src a).Reachable c ∧ NeverBack encodes c.shared.base := by
  let State := Config (Fin p.cfg.inferenceWorkers) (SourcedShared p.cfg.inferenceWorkers) Worker
  refine LTS.reachable_restrict_iff_of (I := fun c : State => NeverBack encodes c.shared.base)
    (K := fun c : State => c.shared.pushed.length < 2 ^ 64)
    ⟨List.Pairwise.nil, List.Pairwise.nil⟩ ?_ ?_ ?_ hfew
  · intro c label d hstep hd
    exact lt_of_le_of_lt (pushed_le_of_step hstep) hd
  · intro c label d hstep hd
    exact neverBack_of_step hview hstep hd
  · intro c label d hc hd h hstep
    exact step_neverBack_iff hview hc (lt_of_le_of_lt (pushed_le_of_step hstep) hd) h hstep

end Runs

section Overtaking
variable {p : Pipeline} (publish : Fin p.cfg.inferenceWorkers → ℕ → PublishResult)
  (now : TimePoint) (src : CameraSource) (a : CapAnswers)
  {c : Config (Fin p.cfg.inferenceWorkers) (SourcedShared p.cfg.inferenceWorkers) Worker}

/-- `open` succeeds and every `read` returns a picture. -/
def willing : CapAnswers := ⟨true, ⟨true, ⟨1, 1⟩⟩, ⟨false, {}⟩, 0⟩

theorem readFrame_willing {s : SourceState} (h : s.isOpened = true) :
    src.readFrame s willing = src.stampFrame s ⟨1, 1⟩ 0 := by
  cases src <;> simp [CameraSource.readFrame, CapRead.failed, willing, h]

/-- The capture thread is between two frames of an open source, and the queue is empty. -/
structure AtRest {W : ℕ} (g : SourcedShared W) : Prop where
  running : g.base.running = true
  capture : g.base.capture = .testing
  items : g.base.frames.items = []
  policy : g.base.frames.policy = .dropOldestWhenFull
  opened : g.source.isOpened = true

/-- However the first attempt to open the source ends, it can be open after another pass. -/
theorem exists_atRest :
    ∃ d, (sourcedSystem p publish now src a).Reachable d ∧ AtRest d.shared ∧
      d.shared.source.sequence = 0 ∧ d.shared.base.detailed = [] ∧ d.shared.pushed = [] ∧
      ∀ w, d.locals w = {} := by
  let start := sourcedStart p now src a
  by_cases hopen : a.opens = true
  · refine ⟨start, LTS.Reachable.start, ⟨rfl, rfl, rfl, rfl, ?_⟩, ?_, rfl, rfl, fun _ => rfl⟩
    · show (src.openSource {} a).2.isOpened = true
      cases src <;> simp [CameraSource.openSource, hopen]
    · exact CameraSource.openSource_sequence src {} a
  · have hclosed : start.shared.source.isOpened = false := by
      show (src.openSource {} a).2.isOpened = false
      cases src <;> simp [CameraSource.openSource, hopen]
    let opened : SourcedShared p.cfg.inferenceWorkers :=
      { start.shared with source := (src.openSource start.shared.source willing).2 }
    have hrun : exec (sourcedEnv src) start.shared [.capture willing, .capture willing] =
        some opened := by
      have htest : sourcedCapture src start.shared willing =
          some { start.shared with base := { start.shared.base with capture := .reading } } := rfl
      simp only [exec, sourcedEnv, htest, Option.bind_some]
      simp only [sourcedCapture, captureRead, hclosed, captureNext, Bool.false_eq_true, ↓reduceIte,
        Option.map_some, Option.bind_some]
      rfl
    refine ⟨⟨opened, start.locals⟩, Program.path_of_env hrun, ⟨rfl, rfl, rfl, rfl, ?_⟩, ?_, rfl,
      rfl, fun _ => rfl⟩
    · show (src.openSource start.shared.source willing).2.isOpened = true
      cases src <;> simp [CameraSource.openSource, willing]
    · show (src.openSource start.shared.source willing).2.sequence = 0
      rw [CameraSource.openSource_sequence]
      exact CameraSource.openSource_sequence src {} a

/-- One frame is read and pushed. -/
theorem exec_capture {W : ℕ} {g : SourcedShared W} (hg : AtRest g) :
    ∃ g' frame, exec (sourcedEnv src) g (List.replicate 3 (.capture willing)) = some g' ∧
      (frame.sequence = (g.source.sequence + 1) % 2 ^ 64 ∧ frame.empty = false) ∧
      (g'.base.running = true ∧ g'.base.capture = .testing ∧ g'.base.frames.items = [frame] ∧
        g'.base.frames.policy = .dropOldestWhenFull) ∧
      g'.source = { g.source with sequence := frame.sequence } ∧
      g'.base.detailed = g.base.detailed ∧ g'.pushed = g.pushed ++ [frame] := by
  let frame : Frame := { cameraId := src.cameraId
                         sequence := (g.source.sequence + 1) % 2 ^ 64
                         capturedAt := 0, image := ⟨1, 1⟩ }
  obtain ⟨q, hpush, hitems, hpolicy⟩ : ∃ q, g.base.frames.push frame = some (q, true) ∧
      q.items = [frame] ∧ q.policy = .dropOldestWhenFull := by
    unfold ConcurrentQueue.push
    simp only [hg.policy, hg.items]
    split_ifs <;> exact ⟨_, rfl, rfl, rfl⟩
  have hread : captureRead src g.source willing =
      (some frame, { g.source with sequence := frame.sequence }) := by
    unfold captureRead
    rw [if_pos hg.opened, readFrame_willing src hg.opened]
    rfl
  simp only [List.replicate, exec, sourcedEnv, sourcedCapture, captureNext, hg.capture,
    hg.running, ↓reduceIte, Option.map_some, Option.bind_some, hread, hpush]
  exact ⟨_, frame, rfl, ⟨rfl, rfl⟩, ⟨rfl, rfl, hitems, hpolicy⟩, rfl, rfl, rfl⟩

/-- A fresh worker takes the only frame to the engine. -/
theorem exec_take {w : Fin p.cfg.inferenceWorkers} {g : SourcedShared p.cfg.inferenceWorkers}
    {frame : Frame} (hrunning : g.base.running = true) (hcapture : g.base.capture = .testing)
    (hitems : g.base.frames.items = [frame])
    (hpolicy : g.base.frames.policy = .dropOldestWhenFull) (hopened : g.source.isOpened = true)
    (hempty : frame.empty = false) :
    ∃ g', exec ((sourcedProgram p publish src).next w) (g, {}) (List.replicate 3 .advance) =
        some (g', { pc := .inferring frame }) ∧ AtRest g' ∧ g'.source = g.source ∧
      g'.base.detailed = g.base.detailed ∧ g'.pushed = g.pushed := by
  have hpop := g.base.frames.popLatest_snoc [] frame hitems
  simp only [List.replicate, exec, sourcedProgram, workerNext, hrunning, ↓reduceIte,
    Option.map_some, Option.bind_some, hpop, hempty, Bool.false_eq_true]
  exact ⟨_, rfl, ⟨rfl, hcapture, rfl, hpolicy, hopened⟩, rfl, rfl, rfl⟩

/-- One frame is read and pushed, and a fresh worker takes it to the engine. -/
theorem path_of_take (hc : AtRest c.shared) {w : Fin p.cfg.inferenceWorkers}
    (hw : c.locals w = {}) :
    ∃ d frame, (sourcedSystem p publish now src a).Path c d ∧ AtRest d.shared ∧
      frame.sequence = (c.shared.source.sequence + 1) % 2 ^ 64 ∧
      d.shared.source.sequence = frame.sequence ∧
      d.shared.base.detailed = c.shared.base.detailed ∧
      d.shared.pushed = c.shared.pushed ++ [frame] ∧
      d.locals = Function.update c.locals w { pc := .inferring frame } := by
  obtain ⟨g, frame, hcapture, ⟨hsequence, hempty⟩, ⟨hrunning, hidle, hitems, hpolicy⟩, hsource,
    hdetailed, hpushed⟩ := exec_capture src hc
  have hopened : g.source.isOpened = true := by
    rw [hsource]
    exact hc.opened
  obtain ⟨g', htake, hrest, hsource', hdetailed', hpushed'⟩ :=
    exec_take (w := w) publish src hrunning hidle hitems hpolicy hopened hempty
  rw [← hw] at htake
  have hfirst : (sourcedSystem p publish now src a).Path c ⟨g, c.locals⟩ :=
    Program.path_of_env hcapture
  have hsecond : (sourcedSystem p publish now src a).Path ⟨g, c.locals⟩
      ⟨g', Function.update c.locals w { pc := .inferring frame }⟩ :=
    Program.path_of_segment htake
  exact ⟨_, frame, hfirst.trans hsecond, hrest, hsequence, by rw [hsource', hsource],
    hdetailed'.trans hdetailed, hpushed'.trans hpushed, rfl⟩

/-- The engine is done with a frame, and the worker stores frame and detections. -/
theorem path_of_view (hview : p.viewing.isSome = true) {w : Fin p.cfg.inferenceWorkers}
    {frame : Frame} (hw : c.locals w = { pc := .inferring frame }) :
    ∃ d, (sourcedSystem p publish now src a).Path c d ∧
      d.shared.base.storedDets = c.shared.base.storedDets ++ [frame] ∧
      d.shared.pushed = c.shared.pushed ∧ ∀ v, v ≠ w → d.locals v = c.locals v := by
  obtain ⟨zones, hzones⟩ := Option.isSome_iff_exists.mp hview
  have hrun : ∃ g l, exec ((sourcedProgram p publish src).next w)
      (c.shared, { pc := .inferring frame }) [.inferEnds (.detections []), .advance, .advance] =
        some (g, l) ∧ g.base.storedDets = c.shared.base.storedDets ++ [frame] ∧
        g.pushed = c.shared.pushed := by
    simp only [exec, sourcedProgram, workerNext, hview, ↓reduceIte, Option.map_some,
      Option.bind_some]
    refine ⟨_, _, rfl, ?_, rfl⟩
    simp [PipelineShared.storedDets, publishView, hzones]
  obtain ⟨g, l, hrun, hstored, hpushed⟩ := hrun
  rw [← hw] at hrun
  refine ⟨_, Program.path_of_segment hrun, hstored, hpushed, ?_⟩
  intro v hv
  exact Function.update_of_ne hv l c.locals

/-- Of two workers that take a frame each, the second is done first. -/
theorem neverBack_broken (hview : p.viewing.isSome = true) (hmany : 1 < p.cfg.inferenceWorkers)
    (encodes : Frame → Bool) :
    ∃ c, (sourcedSystem p publish now src a).Reachable c ∧ c.shared.pushed.length < 2 ^ 64 ∧
      ¬ NeverBack encodes c.shared.base := by
  obtain ⟨second, first, hne⟩ := (Fin.nontrivial_iff_two_le.mpr hmany).exists_pair_ne
  obtain ⟨b, hb, hrest, hzero, hnone, hempty, hfresh⟩ := exists_atRest publish now src a
  obtain ⟨c, f, hpath, hrest, hf, hsource, hdetailed, hpushed, hlocals⟩ :=
    path_of_take publish now src a hrest (hfresh first)
  obtain ⟨d, f', hpath', _, hf', _, hdetailed', hpushed', hlocals'⟩ :=
    path_of_take publish now src a (w := second) hrest
      (by rw [hlocals, Function.update_of_ne hne]; exact hfresh second)
  have hsecond : d.locals second = { pc := .inferring f' } := by
    rw [hlocals', Function.update_self]
  obtain ⟨e, hpath'', hstored, hpushed'', hothers⟩ :=
    path_of_view publish now src a hview hsecond
  have hfirst : e.locals first = { pc := .inferring f } := by
    rw [hothers first hne.symm, hlocals', Function.update_of_ne hne.symm, hlocals,
      Function.update_self]
  obtain ⟨z, hlast, hstored', hpushedLast, _⟩ :=
    path_of_view publish now src a hview hfirst
  refine ⟨z, (((hb.path hpath).path hpath').path hpath'').path hlast, ?_, ?_⟩
  · simp [hpushedLast, hpushed'', hpushed', hpushed, hempty]
  · intro h
    have hsorted := h.detections
    rw [hstored', hstored, PipelineShared.storedDets, hdetailed', hdetailed, hnone] at hsorted
    have hle : f'.sequence ≤ f.sequence := by simpa using hsorted
    rw [hf', hsource, hf, hzero] at hle
    omega

end Overtaking

/-- Short of `2 ^ 64` frames, the view never goes back in all runs of a pipeline exactly when it has
at most one worker; and with any number of workers, it never goes back in exactly the runs in which
every worker stores in turn. -/
theorem view_neverBack_iff {p : Pipeline} {publish : Fin p.cfg.inferenceWorkers → ℕ → PublishResult}
    {now : TimePoint} {src : CameraSource} {a : CapAnswers} {encodes : Frame → Bool}
    (hview : p.viewing.isSome = true) :
    ((∀ c, (sourcedSystem p publish now src a).Reachable c → c.shared.pushed.length < 2 ^ 64 →
        NeverBack encodes c.shared.base) ↔ p.cfg.inferenceWorkers ≤ 1) ∧
    ∀ c, c.shared.pushed.length < 2 ^ 64 →
      (((sourcedSystem p publish now src a).restrict (StoresInTurn encodes)).Reachable c ↔
        (sourcedSystem p publish now src a).Reachable c ∧ NeverBack encodes c.shared.base) := by
  refine ⟨⟨fun h => ?_, fun hone c hc hfew => ?_⟩, fun c => storesInTurn_reachable_iff hview⟩
  · by_contra hmany
    obtain ⟨c, hc, hfew, hbroken⟩ :=
      neverBack_broken publish now src a hview (not_le.mp hmany) encodes
    exact hbroken (h c hc hfew)
  · exact ((storesInTurn_reachable_iff hview hfew).mp (lone_worker_inTurn hone hc)).2

/-- A camera with two workers and a view. -/
abbrev twoWorkers : Pipeline where
  cameraId := "dock"
  cfg := { inferenceWorkers := 2, enableViewer := true }
  viewerZones := some {}

/-- One frame read and pushed. -/
def pushOne : List (Label (Fin 2) WorkerStep SourcedEvent) :=
  List.replicate 3 (.env (.capture ⟨true, ⟨true, ⟨1, 1⟩⟩, ⟨false, {}⟩, 0⟩))

/-- A worker takes a frame and gives it to the engine. -/
def takeOne (w : Fin 2) : List (Label (Fin 2) WorkerStep SourcedEvent) :=
  List.replicate 3 (.thread w .advance)

/-- The engine is done, and the worker stores frame and detections. -/
def viewOne (w : Fin 2) : List (Label (Fin 2) WorkerStep SourcedEvent) :=
  [.thread w (.inferEnds (.detections [])), .thread w .advance, .thread w .advance]

/-- The workers store in the order in which they took the frames. -/
theorem twoWorkers_in_turn :
    ∃ c, (c.shared.base.storedDets.map Frame.sequence) = [1, 2] ∧
      ((sourcedSystem twoWorkers (fun _ _ => .ok ()) 0 (.videoFile {})
        ⟨true, ⟨true, ⟨1, 1⟩⟩, ⟨false, {}⟩, 0⟩).restrict
          (StoresInTurn fun _ => true)).Reachable c := by
  have hrun : ∃ c, (sourcedSystem twoWorkers (fun _ _ => .ok ()) 0 (.videoFile {})
      ⟨true, ⟨true, ⟨1, 1⟩⟩, ⟨false, {}⟩, 0⟩).Reachable c ∧
      ((c.shared.base.stored fun _ => true).map Frame.sequence) = [1, 2] ∧
      (c.shared.base.storedDets.map Frame.sequence) = [1, 2] ∧ c.shared.pushed.length = 2 :=
    exists_reachable_of_exec
      (pushOne ++ takeOne 0 ++ pushOne ++ takeOne 1 ++ viewOne 0 ++ viewOne 1)
      ⟨_, rfl, rfl, rfl, rfl⟩
  obtain ⟨c, hc, hframes, hdets, hlength⟩ := hrun
  refine ⟨c, hdets, ((view_neverBack_iff rfl).2 c (by rw [hlength]; decide)).mpr ⟨hc, ?_, ?_⟩⟩
  · rw [hframes]
    decide
  · rw [hdets]
    decide

/-- The second worker is done first. -/
theorem twoWorkers_overtaken :
    ∃ c, (sourcedSystem twoWorkers (fun _ _ => .ok ()) 0 (.videoFile {})
      ⟨true, ⟨true, ⟨1, 1⟩⟩, ⟨false, {}⟩, 0⟩).Reachable c ∧
      ¬ NeverBack (fun _ => true) c.shared.base := by
  have hrun : ∃ c, (sourcedSystem twoWorkers (fun _ _ => .ok ()) 0 (.videoFile {})
      ⟨true, ⟨true, ⟨1, 1⟩⟩, ⟨false, {}⟩, 0⟩).Reachable c ∧
      (c.shared.base.storedDets.map Frame.sequence) = [2, 1] :=
    exists_reachable_of_exec
      (pushOne ++ takeOne 0 ++ pushOne ++ takeOne 1 ++ viewOne 1 ++ viewOne 0) ⟨_, rfl, rfl⟩
  obtain ⟨c, hc, hdets⟩ := hrun
  refine ⟨c, hc, fun h => ?_⟩
  have hsorted := h.detections
  rw [hdets] at hsorted
  exact absurd hsorted (by decide)

end ForkliftSafety
