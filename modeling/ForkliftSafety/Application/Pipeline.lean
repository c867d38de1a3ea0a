import Mathlib.Data.List.Infix
import ForkliftSafety.Application.Cooldown
import ForkliftSafety.Library.Threads
import ForkliftSafety.Shared.ConcurrentQueue

/-! `FrameProcessingPipeline` from a `start` to the `stop` that ends it: the capture thread, the
workers that run `inference_loop` on the shared frame queue, and a clock that never goes back. -/
namespace ForkliftSafety
open Transition Threads

/-- Where `capture_loop` stands. A source that is not open, or that returns no frame, takes it
back to the test. -/
inductive CapturePc where
  | testing
  | reading
  | pushing (frame : Frame)
  | done
  deriving DecidableEq, Repr

/-- Where the call of `stop` that changed `running_` stands. The joins after the `close` wait for
the threads and change nothing here. -/
inductive StopPc where
  | notCalled | stored | closed
  deriving DecidableEq, Repr

/-- What the threads of a pipeline share, and what its ports have received, in order. -/
structure PipelineShared (W : ℕ) where
  frames : ConcurrentQueue Frame
  clock : TimePoint
  running : Bool := true
  capture : CapturePc := .testing
  stopPc : StopPc := .notCalled
  taken : List (Fin W × Frame) := []
  streamed : List Frame := []
  detailed : List ViewerUpdate := []
  published : List (Fin W × Alert) := []

/-- Where a worker stands in `inference_loop`. -/
inductive LoopPc where
  | testing
  | popping
  | checking (frame : Frame)
  | inferring (frame : Frame)
  | streaming (frame : Frame) (detections : List Detection)
  | detailing (frame : Frame) (detections : List Detection)
  | evaluating (frame : Frame) (detections : List Detection)
  | alerting (frameTs : TimePoint) (alerts : List Alert)
  | returned
  | threw (frame : Frame)
  deriving DecidableEq, Repr

/-- A worker: its position, and the loop's locals with what it did to its ports. -/
structure Worker where
  pc : LoopPc := .testing
  loop : LoopState := {}

inductive WorkerStep where
  | advance
  | inferEnds (outcome : InferOutcome)

section System
variable {W : ℕ} (p : Pipeline) (publish : Fin W → ℕ → PublishResult)

/-- The next step of worker `w`; `none` while it waits for a frame or for the engine. The clock
serves as elapsed time too. -/
def workerNext (w : Fin W) : PipelineShared W × Worker → WorkerStep →
    Option (PipelineShared W × Worker)
  | (g, l), .advance =>
    match l.pc with
    | .testing => some (g, { l with pc := if g.running then .popping else .returned })
    | .popping =>
      match g.frames.popLatest with
      | none => none
      | some (q, none) => some ({ g with frames := q }, { l with pc := .returned })
      | some (q, some frame) =>
        some ({ g with frames := q, taken := g.taken ++ [(w, frame)] },
          { l with pc := .checking frame })
    | .checking frame =>
      some (g, { l with pc := if frame.empty then .testing else .inferring frame })
    | .inferring _ => none
    | .streaming frame ds =>
      some ({ g with streamed := g.streamed ++ [frame] }, { l with pc := .detailing frame ds })
    | .detailing frame ds =>
      some ({ g with detailed := g.detailed ++ (publishView p {} frame ds).viewer },
        ⟨.evaluating frame ds, publishView p l.loop frame ds⟩)
    | .evaluating _ ds =>
      some (g, { l with
        pc := .alerting g.clock (evaluate p.safetyZone p.cameraId ds g.clock) })
    | .alerting _ [] => some (g, { l with pc := .testing })
    | .alerting frameTs (a :: rest) =>
      some
        ({ g with published := g.published ++
            if suppresses p.cfg.alertCooldown l.loop.lastAlert frameTs a then [] else [(w, a)] },
          ⟨.alerting frameTs rest, alertStep p (publish w) frameTs frameTs l.loop a⟩)
    | .returned | .threw _ => none
  | (g, l), .inferEnds outcome =>
    match l.pc with
    | .inferring frame =>
      some (g, { l with
        pc :=
          match outcome with
          | .threw => .threw frame
          | .error _ => .testing
          | .detections ds =>
            if p.viewing.isSome then .streaming frame ds else .evaluating frame ds })
    | _ => none

/-- What a worker can do, by the position it is in. -/
inductive WorkerMove (w : Fin W) (g : PipelineShared W) (l : Worker) :
    WorkerStep → PipelineShared W → Worker → Prop
  | test (hpc : l.pc = .testing) :
    WorkerMove w g l .advance g { l with pc := if g.running then .popping else .returned }
  | finish {q : ConcurrentQueue Frame} (hpc : l.pc = .popping)
    (hpop : g.frames.popLatest = some (q, none)) :
    WorkerMove w g l .advance { g with frames := q } { l with pc := .returned }
  | take {q : ConcurrentQueue Frame} {frame : Frame} (hpc : l.pc = .popping)
    (hpop : g.frames.popLatest = some (q, some frame)) :
    WorkerMove w g l .advance { g with frames := q, taken := g.taken ++ [(w, frame)] }
      { l with pc := .checking frame }
  | check {frame : Frame} (hpc : l.pc = .checking frame) :
    WorkerMove w g l .advance g { l with pc := if frame.empty then .testing else .inferring frame }
  | stream {frame : Frame} {ds : List Detection} (hpc : l.pc = .streaming frame ds) :
    WorkerMove w g l .advance { g with streamed := g.streamed ++ [frame] }
      { l with pc := .detailing frame ds }
  | detail {frame : Frame} {ds : List Detection} (hpc : l.pc = .detailing frame ds) :
    WorkerMove w g l .advance
      { g with detailed := g.detailed ++ (publishView p {} frame ds).viewer }
      ⟨.evaluating frame ds, publishView p l.loop frame ds⟩
  | evaluate {frame : Frame} {ds : List Detection} (hpc : l.pc = .evaluating frame ds) :
    WorkerMove w g l .advance g
      { l with pc := .alerting g.clock (evaluate p.safetyZone p.cameraId ds g.clock) }
  | pass {frameTs : TimePoint} (hpc : l.pc = .alerting frameTs []) :
    WorkerMove w g l .advance g { l with pc := .testing }
  | hand {frameTs : TimePoint} {a : Alert} {rest : List Alert}
    (hpc : l.pc = .alerting frameTs (a :: rest)) :
    WorkerMove w g l .advance
      { g with published := g.published ++
          if suppresses p.cfg.alertCooldown l.loop.lastAlert frameTs a then [] else [(w, a)] }
      ⟨.alerting frameTs rest, alertStep p (publish w) frameTs frameTs l.loop a⟩
  | infer {frame : Frame} {outcome : InferOutcome} (hpc : l.pc = .inferring frame) :
    WorkerMove w g l (.inferEnds outcome) g
      { l with
        pc :=
          match outcome with
          | .threw => .threw frame
          | .error _ => .testing
          | .detections ds =>
            if p.viewing.isSome then .streaming frame ds else .evaluating frame ds }

theorem workerNext_move {w : Fin W} {g g' : PipelineShared W} {l l' : Worker} {a : WorkerStep}
    (h : workerNext p publish w (g, l) a = some (g', l')) :
    WorkerMove p publish w g l a g' l' := by
  unfold workerNext at h
  cases a with
  | advance =>
    cases hpc : l.pc <;> simp only [hpc, reduceCtorEq, Option.some.injEq, Prod.mk.injEq] at h
    case testing =>
      obtain ⟨rfl, rfl⟩ := h
      exact .test hpc
    case popping =>
      split at h
      · contradiction
      · rename_i hpop
        obtain ⟨rfl, rfl⟩ := Prod.mk.inj (Option.some.inj h)
        exact .finish hpc hpop
      · rename_i hpop
        obtain ⟨rfl, rfl⟩ := Prod.mk.inj (Option.some.inj h)
        exact .take hpc hpop
    case checking frame =>
      obtain ⟨rfl, rfl⟩ := h
      exact .check hpc
    case streaming frame ds =>
      obtain ⟨rfl, rfl⟩ := h
      exact .stream hpc
    case detailing frame ds =>
      obtain ⟨rfl, rfl⟩ := h
      exact .detail hpc
    case evaluating frame ds =>
      obtain ⟨rfl, rfl⟩ := h
      exact .evaluate hpc
    case alerting frameTs alerts =>
      cases alerts with
      | nil =>
        obtain ⟨rfl, rfl⟩ := Prod.mk.inj (Option.some.inj h)
        exact .pass hpc
      | cons a rest =>
        obtain ⟨rfl, rfl⟩ := Prod.mk.inj (Option.some.inj h)
        exact .hand hpc
  | inferEnds outcome =>
    cases hpc : l.pc <;> simp only [hpc, reduceCtorEq, Option.some.injEq, Prod.mk.injEq] at h
    case inferring frame =>
      obtain ⟨rfl, rfl⟩ := h
      exact .infer hpc

/-- `capture` runs one step of `capture_loop`, with what `read_frame` returns if it is called. -/
inductive PipelineEvent where
  | tick (now : TimePoint)
  | capture (read : Option Frame)
  | stop

def captureNext (g : PipelineShared W) (read : Option Frame) : Option (PipelineShared W) :=
  match g.capture with
  | .testing => some { g with capture := if g.running then .reading else .done }
  | .reading =>
    match read with
    | none => some { g with capture := .testing }
    | some frame => some { g with capture := .pushing frame }
  | .pushing frame =>
    (g.frames.push frame).map fun r => { g with frames := r.1, capture := .testing }
  | .done => none

def pipelineEnv (g : PipelineShared W) : PipelineEvent → Option (PipelineShared W)
  -- The `system_clock` that alerts are stamped with is taken to go forward only: a wall clock that
  -- is set back is left out.
  | .tick now => if g.clock ≤ now then some { g with clock := now } else none
  | .capture read => captureNext g read
  | .stop =>
    match g.stopPc with
    | .notCalled => some { g with running := false, stopPc := .stored }
    | .stored => some { g with frames := g.frames.close, stopPc := .closed }
    | .closed => none

/-- What can happen outside of the workers, by the position of `capture_loop` and of `stop`. -/
inductive EnvMove (g : PipelineShared W) : PipelineEvent → PipelineShared W → Prop
  | tick {now : TimePoint} (hle : g.clock ≤ now) : EnvMove g (.tick now) { g with clock := now }
  | test {read : Option Frame} (hpc : g.capture = .testing) :
    EnvMove g (.capture read) { g with capture := if g.running then .reading else .done }
  | miss (hpc : g.capture = .reading) : EnvMove g (.capture none) { g with capture := .testing }
  | grab {frame : Frame} (hpc : g.capture = .reading) :
    EnvMove g (.capture (some frame)) { g with capture := .pushing frame }
  | push {read : Option Frame} {frame : Frame} {q : ConcurrentQueue Frame} {b : Bool}
    (hpc : g.capture = .pushing frame) (hpush : g.frames.push frame = some (q, b)) :
    EnvMove g (.capture read) { g with frames := q, capture := .testing }
  | store (hstop : g.stopPc = .notCalled) :
    EnvMove g .stop { g with running := false, stopPc := .stored }
  | close (hstop : g.stopPc = .stored) :
    EnvMove g .stop { g with frames := g.frames.close, stopPc := .closed }

theorem captureNext_move {g g' : PipelineShared W} {read : Option Frame}
    (h : captureNext g read = some g') : EnvMove g (.capture read) g' := by
  unfold captureNext at h
  cases hpc : g.capture <;> simp only [hpc] at h
  case testing =>
    obtain rfl := Option.some.inj h
    exact .test hpc
  case reading =>
    cases read <;> obtain rfl := Option.some.inj h
    · exact .miss hpc
    · exact .grab hpc
  case pushing frame =>
    obtain ⟨r, hpush, rfl⟩ := Option.map_eq_some_iff.mp h
    exact .push hpc hpush
  case done => contradiction

theorem pipelineEnv_move {g g' : PipelineShared W} {e : PipelineEvent}
    (h : pipelineEnv g e = some g') : EnvMove g e g' := by
  cases e with
  | tick now =>
    simp only [pipelineEnv] at h
    split_ifs at h with hle
    obtain rfl := Option.some.inj h
    exact .tick hle
  | capture read => exact captureNext_move h
  | stop =>
    unfold pipelineEnv at h
    cases hstop : g.stopPc <;> simp only [hstop] at h
    case closed => contradiction
    case notCalled =>
      obtain rfl := Option.some.inj h
      exact .store hstop
    case stored =>
      obtain rfl := Option.some.inj h
      exact .close hstop

def pipelineProgram :
    Program (Fin W) (PipelineShared W) Worker WorkerStep PipelineEvent where
  next := workerNext p publish
  env := pipelineEnv

end System

/-- A pipeline's threads right after `start`. -/
def started (p : Pipeline) (now : TimePoint) :
    Config (Fin p.cfg.inferenceWorkers) (PipelineShared p.cfg.inferenceWorkers) Worker where
  shared := { frames := { capacity := p.cfg.frameQueueCapacity }, clock := now }
  locals _ := {}

def pipelineSystem (p : Pipeline) (publish : Fin p.cfg.inferenceWorkers → ℕ → PublishResult)
    (now : TimePoint) :
    LTS (Config (Fin p.cfg.inferenceWorkers) (PipelineShared p.cfg.inferenceWorkers) Worker)
      (Label (Fin p.cfg.inferenceWorkers) WorkerStep PipelineEvent) :=
  (pipelineProgram p publish).system (started p now)

section Follow
variable {W : ℕ} (p : Pipeline)

def PipelineShared.takenBy (g : PipelineShared W) (w : Fin W) : List Frame :=
  (g.taken.filter fun x => x.1 = w).map Prod.snd

def PipelineShared.publishedBy (g : PipelineShared W) (w : Fin W) : List Alert :=
  (g.published.filter fun x => x.1 = w).map Prod.snd

/-- The alert that a worker's next step hands to `publish`, if any. -/
def Worker.handing (l : Worker) : Option Alert :=
  match l.pc with
  | .alerting frameTs (a :: _) =>
    if suppresses p.cfg.alertCooldown l.loop.lastAlert frameTs a then none else some a
  | _ => none

/-- The frame that a worker has taken and not yet passed over. -/
def LoopPc.current : LoopPc → List Frame
  | .checking frame | .inferring frame | .streaming frame _ | .detailing frame _
  | .evaluating frame _ | .threw frame => [frame]
  | _ => []

/-- What one worker step does to the clock and to the records of the ports. -/
theorem workerNext_shared {publish : Fin W → ℕ → PublishResult} {w : Fin W}
    {g g' : PipelineShared W} {l l' : Worker} {a : WorkerStep}
    (h : workerNext p publish w (g, l) a = some (g', l')) :
    g'.clock = g.clock ∧
    (g'.taken = g.taken ∨ ∃ frame, g'.taken = g.taken ++ [(w, frame)]) ∧
    g'.published = g.published ++ (l.handing p).toList.map (Prod.mk w) := by
  cases workerNext_move p publish h with
  | @take q frame hpc hpop => exact ⟨rfl, .inr ⟨frame, rfl⟩, by simp [Worker.handing, hpc]⟩
  | @hand frameTs a rest hpc =>
    refine ⟨rfl, .inl rfl, ?_⟩
    simp only [Worker.handing, hpc]
    by_cases hs : suppresses p.cfg.alertCooldown l.loop.lastAlert frameTs a <;> simp [hs]
  | test hpc | finish hpc | check hpc | stream hpc | detail hpc | evaluate hpc | pass hpc
  | infer hpc => exact ⟨rfl, .inl rfl, by simp [Worker.handing, hpc]⟩

theorem pipelineEnv_shared {g g' : PipelineShared W} {e : PipelineEvent}
    (h : pipelineEnv g e = some g') :
    g.clock ≤ g'.clock ∧ g'.taken = g.taken ∧ g'.published = g.published := by
  cases pipelineEnv_move h with
  | tick hle => exact ⟨hle, rfl, rfl⟩
  | test | miss | grab | push | store | close => exact ⟨le_rfl, rfl, rfl⟩

/-- Only workers send to the live view. -/
theorem pipelineEnv_view {g g' : PipelineShared W} {e : PipelineEvent}
    (h : pipelineEnv g e = some g') : g'.streamed = g.streamed ∧ g'.detailed = g.detailed := by
  cases pipelineEnv_move h <;> exact ⟨rfl, rfl⟩

/-- The loop state of a worker at a position, when `s` is the state in which the run of
`inferenceLoop` over the frames before left it; while alerts are left, the state they end in. -/
def AtPc (publish : ℕ → PublishResult) (pc : LoopPc) (loop s : LoopState) : Prop :=
  match pc with
  | .inferring frame | .streaming frame _ | .detailing frame _ =>
    frame.empty = false ∧ loop = s
  | .evaluating frame ds => frame.empty = false ∧ loop = publishView p s frame ds
  | .alerting frameTs alerts => alertLoop p publish frameTs frameTs loop alerts = s
  | _ => loop = s

/-- The worker is in the run of `inferenceLoop` over the frames `ds` and the one at hand, and
its own frames and alerts are those the run took and handed over. -/
structure FollowsLoop (publish : ℕ → PublishResult) (w : Fin W) (g : PipelineShared W)
    (l : Worker) (ds : List Delivery) : Prop where
  sorted : ds.Pairwise fun d e => d.frameTs ≤ e.frameTs
  past : ∀ d ∈ ds, d.frameTs ≤ g.clock
  live : ∀ d ∈ ds, d.throws = false
  taken : g.takenBy w = ds.map Delivery.frame ++ l.pc.current
  published : g.publishedBy w = l.loop.handedAlerts
  loop : AtPc p publish l.pc l.loop (submittedLoop p publish ds).state

theorem alertStep_handedAlerts (publish : ℕ → PublishResult) (frameTs elapsed : TimePoint)
    (s : LoopState) (a : Alert) :
    (alertStep p publish frameTs elapsed s a).handedAlerts = s.handedAlerts ++
      if suppresses p.cfg.alertCooldown s.lastAlert frameTs a then [] else [a] := by
  unfold alertStep LoopState.handedAlerts
  split_ifs <;> simp [Verdict.isHanded]

theorem alertLoop_handedAlerts (publish : ℕ → PublishResult) (frameTs elapsed : TimePoint)
    (s : LoopState) (alerts : List Alert) :
    s.handedAlerts <+: (alertLoop p publish frameTs elapsed s alerts).handedAlerts := by
  induction alerts generalizing s with
  | nil => exact List.prefix_rfl
  | cons a alerts ih =>
    have hstep := ih (alertStep p publish frameTs elapsed s a)
    rw [alertStep_handedAlerts] at hstep
    exact (List.prefix_append _ _).trans hstep

theorem publishView_handedAlerts (s : LoopState) (frame : Frame) (ds : List Detection) :
    (publishView p s frame ds).handedAlerts = s.handedAlerts := by
  rw [LoopState.handedAlerts, publishView_decisions]
  rfl

theorem publishView_of_not_viewing (h : p.viewing.isSome = false) (s : LoopState)
    (frame : Frame) (ds : List Detection) : publishView p s frame ds = s := by
  unfold publishView
  cases hv : p.viewing with
  | none => rfl
  | some zones => simp [hv] at h

/-- What a worker has handed over is a beginning of what its run hands over. -/
theorem FollowsLoop.published_prefix {publish : ℕ → PublishResult} {w : Fin W}
    {g : PipelineShared W} {l : Worker} {ds : List Delivery} (h : FollowsLoop p publish w g l ds) :
    g.publishedBy w <+: (submittedLoop p publish ds).state.handedAlerts := by
  rw [h.published]
  have hloop := h.loop
  cases hpc : l.pc <;> simp only [hpc, AtPc] at hloop
  case inferring | streaming | detailing =>
    rw [hloop.2]
  case evaluating =>
    rw [hloop.2, publishView_handedAlerts]
  case alerting =>
    rw [← hloop]
    exact alertLoop_handedAlerts p publish _ _ _ _
  all_goals rw [hloop]

theorem inferenceLoop_snoc (publish : ℕ → PublishResult) (s : LoopState) {ds : List Delivery}
    (hlive : ∀ d ∈ ds, d.throws = false) (d : Delivery) :
    inferenceLoop p publish s (ds ++ [d]) =
      inferenceLoop p publish (inferenceLoop p publish s ds).state [d] := by
  induction ds generalizing s with
  | nil => rfl
  | cons e ds ih =>
    have he : loopBody p publish s e ≠ none := by
      rw [ne_eq, loopBody_eq_none_iff, hlive e List.mem_cons_self]
      simp
    obtain ⟨t, ht⟩ := Option.ne_none_iff_exists'.mp he
    have htail := ih t fun d hd => hlive d (List.mem_cons_of_mem e hd)
    simp only [List.cons_append, inferenceLoop, ht] at htail ⊢
    exact htail

theorem submittedLoop_snoc (publish : ℕ → PublishResult) {ds : List Delivery}
    (hlive : ∀ d ∈ ds, d.throws = false) {d : Delivery} {t : LoopState}
    (h : loopBody p publish (submittedLoop p publish ds).state d = some t) :
    (submittedLoop p publish (ds ++ [d])).state = t := by
  unfold submittedLoop at h ⊢
  rw [inferenceLoop_snoc p publish {} hlive]
  simp only [inferenceLoop, h]

/-- The worker ends its pass over a frame: one more frame of its run. -/
theorem FollowsLoop.snoc {publish : ℕ → PublishResult} {w : Fin W} {g : PipelineShared W}
    {l l' : Worker} {ds : List Delivery} (h : FollowsLoop p publish w g l ds) {d : Delivery}
    (hts : d.frameTs = g.clock) (hlive : d.throws = false) (hframe : l.pc.current = [d.frame])
    (hcurrent : l'.pc.current = []) (hhanded : l'.loop.handedAlerts = l.loop.handedAlerts)
    {t : LoopState} (hbody : loopBody p publish (submittedLoop p publish ds).state d = some t)
    (hloop : AtPc p publish l'.pc l'.loop t) :
    FollowsLoop p publish w g l' (ds ++ [d]) := by
  constructor
  · rw [List.pairwise_append]
    refine ⟨h.sorted, List.pairwise_singleton _ _, ?_⟩
    intro e he d' hd'
    rw [List.mem_singleton.mp hd', hts]
    exact h.past e he
  · intro e he
    rcases List.mem_append.mp he with he | he
    · exact h.past e he
    · rw [List.mem_singleton.mp he, hts]
  · intro e he
    rcases List.mem_append.mp he with he | he
    · exact h.live e he
    · rwa [List.mem_singleton.mp he]
  · rw [h.taken, hframe, hcurrent]
    simp
  · rw [h.published, hhanded]
  · rwa [submittedLoop_snoc p publish h.live hbody]

/-- One step of a worker keeps it in its run. The run gets one frame longer where the worker turns
to the alerts of a frame, finds the frame empty, or gets an `Error` from the engine. -/
theorem FollowsLoop.step {publish : Fin W → ℕ → PublishResult} {w : Fin W}
    {g g' : PipelineShared W} {l l' : Worker} {a : WorkerStep} {ds : List Delivery}
    (h : FollowsLoop p (publish w) w g l ds)
    (hstep : workerNext p publish w (g, l) a = some (g', l')) :
    ∃ ds', FollowsLoop p (publish w) w g' l' ds' := by
  have hloop := h.loop
  have htaken := h.taken
  have hpublished := h.published
  cases workerNext_move p publish hstep
  all_goals simp only [‹l.pc = _›, AtPc, LoopPc.current] at hloop htaken
  case test =>
    refine ⟨ds, h.sorted, h.past, h.live, ?_, hpublished, ?_⟩
    · split_ifs <;> exact htaken
    · split_ifs <;> exact hloop
  case finish => exact ⟨ds, h.sorted, h.past, h.live, htaken, hpublished, hloop⟩
  case take frame _ _ =>
    refine ⟨ds, h.sorted, h.past, h.live, ?_, hpublished, hloop⟩
    unfold PipelineShared.takenBy at htaken ⊢
    rw [List.filter_append, List.map_append, htaken]
    simp [LoopPc.current]
  case check frame hpc =>
    cases hempty : frame.empty
    · exact ⟨ds, h.sorted, h.past, h.live, htaken, hpublished, hempty, hloop⟩
    · let d : Delivery := ⟨frame, .error {}, g.clock, g.clock⟩
      have hlive : d.throws = false := by simp [d, Delivery.throws]
      have hbody : loopBody p (publish w) (submittedLoop p (publish w) ds).state d =
          some (submittedLoop p (publish w) ds).state := by
        simp only [loopBody, d, hempty, ↓reduceIte]
      exact ⟨ds ++ [d], h.snoc p rfl hlive (by rw [hpc, LoopPc.current]) rfl rfl hbody hloop⟩
  case stream => exact ⟨ds, h.sorted, h.past, h.live, htaken, hpublished, hloop⟩
  case detail frame detections _ =>
    refine ⟨ds, h.sorted, h.past, h.live, htaken, ?_, hloop.1, ?_⟩
    · show g.publishedBy w = (publishView p l.loop frame detections).handedAlerts
      rw [publishView_handedAlerts, hpublished]
    · show publishView p l.loop frame detections = _
      rw [hloop.2]
  case evaluate frame detections hpc =>
    let d : Delivery := ⟨frame, .detections detections, g.clock, g.clock⟩
    have hlive : d.throws = false := by simp [d, Delivery.throws]
    have hbody : loopBody p (publish w) (submittedLoop p (publish w) ds).state d =
        some (alertLoop p (publish w) g.clock g.clock l.loop
          (evaluate p.safetyZone p.cameraId detections g.clock)) := by
      simp only [loopBody, d, hloop.1, Bool.false_eq_true, ↓reduceIte, hloop.2]
    exact ⟨ds ++ [d], h.snoc p rfl hlive (by rw [hpc, LoopPc.current]) rfl rfl hbody rfl⟩
  case pass => exact ⟨ds, h.sorted, h.past, h.live, htaken, hpublished, hloop⟩
  case hand =>
    refine ⟨ds, h.sorted, h.past, h.live, htaken, ?_, hloop⟩
    rw [alertStep_handedAlerts, ← hpublished]
    unfold PipelineShared.publishedBy
    rw [List.filter_append, List.map_append]
    split_ifs <;> simp
  case infer frame outcome hpc =>
    cases outcome with
    | threw => exact ⟨ds, h.sorted, h.past, h.live, htaken, hpublished, hloop.2⟩
    | error e =>
      let d : Delivery := ⟨frame, .error e, g.clock, g.clock⟩
      have hlive : d.throws = false := by simp [d, Delivery.throws]
      have hbody : loopBody p (publish w) (submittedLoop p (publish w) ds).state d =
          some (submittedLoop p (publish w) ds).state := by
        simp only [loopBody, d, hloop.1, Bool.false_eq_true, ↓reduceIte]
      exact ⟨ds ++ [d], h.snoc p rfl hlive (by rw [hpc, LoopPc.current]) rfl rfl hbody hloop.2⟩
    | detections detections =>
      cases hview : p.viewing.isSome
      · refine ⟨ds, h.sorted, h.past, h.live, htaken, hpublished, hloop.1, ?_⟩
        rw [publishView_of_not_viewing p hview]
        exact hloop.2
      · exact ⟨ds, h.sorted, h.past, h.live, htaken, hpublished, hloop⟩

end Follow

/-- In every reachable state, every worker is in a run of `inferenceLoop` over the frames it took,
whatever the other workers, the capture thread and the clock do in between. -/
theorem worker_followsLoop {p : Pipeline}
    {publish : Fin p.cfg.inferenceWorkers → ℕ → PublishResult} {now : TimePoint}
    {c : Config (Fin p.cfg.inferenceWorkers) (PipelineShared p.cfg.inferenceWorkers) Worker}
    (hc : (pipelineSystem p publish now).Reachable c) (w : Fin p.cfg.inferenceWorkers) :
    ∃ ds, FollowsLoop p (publish w) w c.shared (c.locals w) ds := by
  apply Program.reachable_forall
    (I := fun w g l => ∃ ds, FollowsLoop p (publish w) w g l ds)
    (R := fun w g g' => g.clock ≤ g'.clock ∧ g'.takenBy w = g.takenBy w ∧
      g'.publishedBy w = g.publishedBy w) _ _ _ _ _ hc w
  · intro w
    exact ⟨[], List.Pairwise.nil, by simp, by simp, rfl, rfl, rfl⟩
  · intro w g l a g' l' h hstep
    obtain ⟨ds, h⟩ := h
    exact h.step p hstep
  · intro w v g l a g' l' hvw hstep
    obtain ⟨hclock, htaken, hpublished⟩ := workerNext_shared p hstep
    refine ⟨hclock.ge, ?_, ?_⟩
    · unfold PipelineShared.takenBy
      rcases htaken with htaken | ⟨frame, htaken⟩
      · rw [htaken]
      · simp [htaken, hvw]
    · unfold PipelineShared.publishedBy
      rw [hpublished]
      cases l.handing p <;> simp [hvw]
  · intro w g e g' henv
    obtain ⟨hclock, htaken, hpublished⟩ := pipelineEnv_shared henv
    refine ⟨hclock, ?_, ?_⟩
    · rw [PipelineShared.takenBy, htaken, PipelineShared.takenBy]
    · rw [PipelineShared.publishedBy, hpublished, PipelineShared.publishedBy]
  · intro w g g' l h hrely
    obtain ⟨ds, h⟩ := h
    obtain ⟨hclock, htaken, hpublished⟩ := hrely
    exact ⟨ds, h.sorted, fun d hd => (h.past d hd).trans hclock, h.live, htaken.trans h.taken,
      hpublished.trans h.published, h.loop⟩

end ForkliftSafety
