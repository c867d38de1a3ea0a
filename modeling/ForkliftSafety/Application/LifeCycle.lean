import ForkliftSafety.Application.Pipeline
import ForkliftSafety.Library.Monitor
import ForkliftSafety.Shared.ThreadPoolDrain

/-! A `FrameProcessingPipeline` over any sequence of calls of `start` and `stop` by one thread: the
threads that they create and join, the pool's own workers, and the waits of `pop_latest`. -/
namespace ForkliftSafety
open Transition Monitor

/-- Where the thread that calls `start` and `stop` stands. Both calls of it that find `running_` as
they would set it return at once. -/
inductive Controller where
  | idle
  /-- `start` has set `running_`. -/
  | starting
  | poolMade
  /-- The loop of `start`, with the number of tasks submitted. -/
  | submitting (i : ℕ)
  /-- The `submit` of a task is about to call `notify_one`. -/
  | notifying (i : ℕ)
  /-- `stop` has cleared `running_`. -/
  | stored
  /-- `frames_.close` is about to call `notify_all`. -/
  | closing
  /-- `frames_.close` has returned. -/
  | closed
  | captureJoined
  /-- `shutdown` has set `stop_` of the pool. -/
  | poolStopped
  | poolNotified
  | poolJoined
  deriving DecidableEq, Repr

inductive CaptureThread where
  /-- `capture_thread_` is not joinable. -/
  | absent
  /-- `capture_loop` is about to open the source. -/
  | opening
  | looping
  deriving DecidableEq, Repr

/-- The sleepers in `pop_latest`. -/
def frameWaiters : Condition Bool where
  asleep b := b
  awakened b := !b
  wake _ := false
  awakened_wake _ _ := rfl
  asleep_wake _ _ := rfl
  not_both _ h := by simp [h]

/-- `running_`, `frames_` and the sinks are in `base`. Worker `w` of the pool runs `inference_loop`
in `loops w`. -/
structure PipelineLife (W : ℕ) where
  base : PipelineShared W
  controller : Controller := .idle
  captureThread : CaptureThread := .absent
  pool : Option (ThreadPool W Unit) := none
  loops : Fin W → Worker := fun _ => {}
  asleep : Fin W → Bool := fun _ => false
  /-- Some call of `frames_.close` has returned. -/
  closeReturned : Bool := false
  /-- The calls of `infer` that each worker has begun, and the pushes, since `running_` was last
  cleared. -/
  begun : Fin W → ℕ := fun _ => 0
  pushes : ℕ := 0

inductive LifeStep (W : ℕ) where
  | callStart
  | callStop
  /-- The next step of the call, with the sleeper that a `notify_one` awakens. -/
  | control (woken : Option (Fin W))
  | capture (read : Option Frame) (woken : Option (Fin W))
  /-- A step of `worker_loop` outside of the tasks. -/
  | pool (w : Fin W)
  | poolWake (w : Fin W)
  /-- A step of `inference_loop`. -/
  | worker (w : Fin W) (a : WorkerStep)
  | wake (w : Fin W)
  | tick (now : TimePoint)

namespace PipelineLife
variable {W : ℕ}

/-- Worker `w` of the pool is in its task. -/
def runs (s : PipelineLife W) (w : Fin W) : Bool :=
  match s.pool with
  | none => false
  | some pool => (pool.workers w).current.isSome

/-- A step of the pool that `start` or `stop` takes. -/
def onPool (s : PipelineLife W) (a : PoolStep W Unit) (controller : Controller) :
    Option (PipelineLife W) :=
  s.pool.bind fun pool =>
    (pool.next a).map fun pool => { s with pool := some pool, controller := controller }

def control (s : PipelineLife W) (woken : Option (Fin W)) : Option (PipelineLife W) :=
  match s.controller with
  | .idle => none
  -- A pool from before has been shut down, so its destructor does nothing more.
  | .starting => some { s with
      pool := some {}, loops := fun _ => {}, asleep := fun _ => false, controller := .poolMade }
  | .poolMade => some { s with
      base := { s.base with capture := .testing }, captureThread := .opening,
      controller := .submitting 0 }
  | .submitting i =>
    if i < W then s.onPool (.submit ()) (.notifying i) else some { s with controller := .idle }
  | .notifying i => s.onPool (.notifyOne woken) (.submitting (i + 1))
  | .stored => some { s with
      base := { s.base with frames := s.base.frames.close, stopPc := .closed },
      controller := .closing }
  | .closing => some { s with
      asleep := frameWaiters.notifyAll s.asleep, closeReturned := true, controller := .closed }
  | .closed =>
    match s.captureThread with
    | .absent => some { s with controller := .captureJoined }
    | .opening => none
    | .looping =>
      if s.base.capture = .done then
        some { s with captureThread := .absent, controller := .captureJoined }
      else none
  | .captureJoined =>
    match s.pool with
    | none => some { s with controller := .poolJoined }
    | some pool =>
      if pool.stop then some { s with controller := .poolJoined }
      else s.onPool .storeStop .poolStopped
  | .poolStopped => s.onPool .notifyAll .poolNotified
  | .poolNotified => s.onPool .join .poolJoined
  -- `source_->close` ends the call.
  | .poolJoined => some { s with controller := .idle }

def callStart (s : PipelineLife W) : Option (PipelineLife W) :=
  if s.controller = .idle then
    if s.base.running then some s
    else some { s with
      base := { s.base with running := true, stopPc := .notCalled }, controller := .starting }
  else none

def callStop (s : PipelineLife W) : Option (PipelineLife W) :=
  if s.controller = .idle then
    if s.base.running then
      some { s with
        base := { s.base with running := false, stopPc := .stored }, controller := .stored,
        begun := fun _ => 0, pushes := 0 }
    else some s
  else none

/-- `push` calls `notify_one` before it releases the queue's mutex. -/
def capture (s : PipelineLife W) (read : Option Frame) (woken : Option (Fin W)) :
    Option (PipelineLife W) :=
  match s.captureThread with
  | .absent => none
  | .opening => some { s with captureThread := .looping }
  | .looping =>
    (captureNext s.base read).bind fun g =>
      match s.base.capture with
      | .pushing _ => (frameWaiters.notifyOne s.asleep woken).map fun asleep =>
          { s with base := g, asleep := asleep, pushes := s.pushes + 1 }
      | _ => some { s with base := g }

/-- The `packaged_task` keeps an exception that leaves the loop in its future. -/
def taskEnds : LoopPc → Bool
  | .returned | .threw _ => true
  | _ => false

/-- A task ends when its `inference_loop` does, and a new one has locals of its own. -/
def poolWork (s : PipelineLife W) (w : Fin W) : Option (PipelineLife W) :=
  s.pool.bind fun pool =>
    if (pool.workers w).current.isSome && !taskEnds (s.loops w).pc then none
    else
      (pool.next (.work w)).map fun pool =>
        { s with
          pool := some pool
          loops := if (pool.workers w).current.isSome then Function.update s.loops w {}
            else s.loops }

/-- The worker calls `infer`. -/
def begins : LoopPc → LoopPc → Bool
  | .checking _, .inferring _ => true
  | _, _ => false

section Worker
variable (p : Pipeline) (publish : Fin W → ℕ → PublishResult)

def work (s : PipelineLife W) (w : Fin W) (a : WorkerStep) : Option (PipelineLife W) :=
  if s.runs w && !s.asleep w then
    match a, (s.loops w).pc, s.base.frames.popLatest with
    | .advance, .popping, none => some { s with asleep := Function.update s.asleep w true }
    | _, _, _ =>
      (workerNext p publish w (s.base, s.loops w) a).map fun r =>
        { s with
          base := r.1
          loops := Function.update s.loops w r.2
          begun := if begins (s.loops w).pc r.2.pc then
              Function.update s.begun w (s.begun w + 1)
            else s.begun }
  else none

def next (s : PipelineLife W) : LifeStep W → Option (PipelineLife W)
  | .callStart => s.callStart
  | .callStop => s.callStop
  | .control woken => s.control woken
  | .capture read woken => s.capture read woken
  | .pool w => s.poolWork w
  | .poolWake w => s.onPool (.spuriousWake w) s.controller
  | .worker w a => s.work p publish w a
  | .wake w =>
    if s.asleep w then some { s with asleep := Function.update s.asleep w false } else none
  -- The clock goes forward only, as in `pipelineEnv`.
  | .tick now => if s.base.clock ≤ now then some { s with base := { s.base with clock := now } }
    else none

end Worker

/-- A pipeline that has been constructed. -/
def constructed (p : Pipeline) (now : TimePoint) : PipelineLife p.cfg.inferenceWorkers where
  base := { frames := { capacity := p.cfg.frameQueueCapacity }, clock := now, running := false }

def system (p : Pipeline) (publish : Fin p.cfg.inferenceWorkers → ℕ → PublishResult)
    (now : TimePoint) :
    LTS (PipelineLife p.cfg.inferenceWorkers) (LifeStep p.cfg.inferenceWorkers) :=
  .ofNext (constructed p now) (next p publish)

/-- The calls and their steps. -/
inductive ControlMove (s : PipelineLife W) : LifeStep W → PipelineLife W → Prop
  | returnsStart (hrunning : s.base.running = true) : ControlMove s .callStart s
  | returnsStop (hrunning : s.base.running = false) : ControlMove s .callStop s
  | startTakes (hc : s.controller = .idle) (hrunning : s.base.running = false) :
    ControlMove s .callStart { s with
      base := { s.base with running := true, stopPc := .notCalled }, controller := .starting }
  | stopTakes (hc : s.controller = .idle) (hrunning : s.base.running = true) :
    ControlMove s .callStop { s with
      base := { s.base with running := false, stopPc := .stored }, controller := .stored,
      begun := fun _ => 0, pushes := 0 }
  | makePool {woken : Option (Fin W)} (hc : s.controller = .starting) :
    ControlMove s (.control woken) { s with
      pool := some {}, loops := fun _ => {}, asleep := fun _ => false, controller := .poolMade }
  | makeCapture {woken : Option (Fin W)} (hc : s.controller = .poolMade) :
    ControlMove s (.control woken) { s with
      base := { s.base with capture := .testing }, captureThread := .opening,
      controller := .submitting 0 }
  | submit {i : ℕ} {woken : Option (Fin W)} {pool pool' : ThreadPool W Unit}
    (hc : s.controller = .submitting i) (hpool : s.pool = some pool)
    (hnext : pool.next (.submit ()) = some pool') :
    ControlMove s (.control woken) { s with pool := some pool', controller := .notifying i }
  | startEnds {woken : Option (Fin W)} {i : ℕ} (hc : s.controller = .submitting i) :
    ControlMove s (.control woken) { s with controller := .idle }
  | notifyTask {i : ℕ} {woken : Option (Fin W)} {pool pool' : ThreadPool W Unit}
    (hc : s.controller = .notifying i) (hpool : s.pool = some pool)
    (hnext : pool.next (.notifyOne woken) = some pool') :
    ControlMove s (.control woken) { s with pool := some pool', controller := .submitting (i + 1) }
  | closeQueue {woken : Option (Fin W)} (hc : s.controller = .stored) :
    ControlMove s (.control woken) { s with
      base := { s.base with frames := s.base.frames.close, stopPc := .closed },
      controller := .closing }
  | notifyWaiters {woken : Option (Fin W)} (hc : s.controller = .closing) :
    ControlMove s (.control woken) { s with
      asleep := frameWaiters.notifyAll s.asleep, closeReturned := true, controller := .closed }
  | joinCapture {woken : Option (Fin W)} (hc : s.controller = .closed) :
    ControlMove s (.control woken) { s with captureThread := .absent, controller := .captureJoined }
  | noPool {woken : Option (Fin W)} (hc : s.controller = .captureJoined)
    (hpool : ∀ pool, s.pool = some pool → pool.stop = true) :
    ControlMove s (.control woken) { s with controller := .poolJoined }
  | stopPool {woken : Option (Fin W)} {pool pool' : ThreadPool W Unit}
    (hc : s.controller = .captureJoined) (hpool : s.pool = some pool)
    (hnext : pool.next .storeStop = some pool') :
    ControlMove s (.control woken) { s with pool := some pool', controller := .poolStopped }
  | notifyPool {woken : Option (Fin W)} {pool pool' : ThreadPool W Unit}
    (hc : s.controller = .poolStopped) (hpool : s.pool = some pool)
    (hnext : pool.next .notifyAll = some pool') :
    ControlMove s (.control woken) { s with pool := some pool', controller := .poolNotified }
  | joinPool {woken : Option (Fin W)} {pool pool' : ThreadPool W Unit}
    (hc : s.controller = .poolNotified) (hpool : s.pool = some pool)
    (hnext : pool.next .join = some pool') :
    ControlMove s (.control woken) { s with pool := some pool', controller := .poolJoined }
  | stopEnds {woken : Option (Fin W)} (hc : s.controller = .poolJoined) :
    ControlMove s (.control woken) { s with controller := .idle }

/-- The steps of the threads that a pipeline has created. -/
inductive ThreadMove (p : Pipeline) (publish : Fin W → ℕ → PublishResult) (s : PipelineLife W) :
    PipelineLife W → Prop
  | openSource (hcapture : s.captureThread = .opening) :
    ThreadMove p publish s { s with captureThread := .looping }
  | capture {read : Option Frame} {g : PipelineShared W} (hcapture : s.captureThread = .looping)
    (hpc : ∀ frame, s.base.capture ≠ .pushing frame) (hnext : captureNext s.base read = some g) :
    ThreadMove p publish s { s with base := g }
  | push {frame : Frame} {read : Option Frame} {woken : Option (Fin W)} {g : PipelineShared W}
    {asleep : Fin W → Bool} (hcapture : s.captureThread = .looping)
    (hpc : s.base.capture = .pushing frame) (hnext : captureNext s.base read = some g)
    (hwoken : frameWaiters.notifyOne s.asleep woken = some asleep) :
    ThreadMove p publish s { s with base := g, asleep := asleep, pushes := s.pushes + 1 }
  | poolWork {w : Fin W} {pool pool' : ThreadPool W Unit} (hpool : s.pool = some pool)
    (hnext : pool.next (.work w) = some pool') :
    ThreadMove p publish s { s with
      pool := some pool'
      loops := if (pool'.workers w).current.isSome then Function.update s.loops w {}
        else s.loops }
  | poolWake {w : Fin W} {pool pool' : ThreadPool W Unit} (hpool : s.pool = some pool)
    (hnext : pool.next (.spuriousWake w) = some pool') :
    ThreadMove p publish s { s with pool := some pool' }
  | sleep {w : Fin W} (hruns : s.runs w = true) (hpop : s.base.frames.popLatest = none) :
    ThreadMove p publish s { s with asleep := Function.update s.asleep w true }
  | work {w : Fin W} {a : WorkerStep} {g : PipelineShared W} {l : Worker} (hruns : s.runs w = true)
    (hnext : workerNext p publish w (s.base, s.loops w) a = some (g, l)) :
    ThreadMove p publish s { s with
      base := g
      loops := Function.update s.loops w l
      begun := if begins (s.loops w).pc l.pc then Function.update s.begun w (s.begun w + 1)
        else s.begun }
  | wake {w : Fin W} :
    ThreadMove p publish s { s with asleep := Function.update s.asleep w false }
  | tick {now : TimePoint} :
    ThreadMove p publish s { s with base := { s.base with clock := now } }

section Moves
variable {p : Pipeline} {publish : Fin W → ℕ → PublishResult} {s t : PipelineLife W}

theorem onPool_eq {a : PoolStep W Unit} {controller : Controller}
    (h : s.onPool a controller = some t) :
    ∃ pool pool', s.pool = some pool ∧ pool.next a = some pool' ∧
      t = { s with pool := some pool', controller := controller } := by
  obtain ⟨pool, hpool, h⟩ := Option.bind_eq_some_iff.mp h
  obtain ⟨pool', hnext, rfl⟩ := Option.map_eq_some_iff.mp h
  exact ⟨pool, pool', hpool, hnext, rfl⟩

theorem control_move {woken : Option (Fin W)} (h : s.control woken = some t) :
    ControlMove s (.control woken) t := by
  unfold control at h
  cases hc : s.controller <;> simp only [hc, reduceCtorEq, Option.some.injEq] at h
  case starting => exact h ▸ .makePool hc
  case poolMade => exact h ▸ .makeCapture hc
  case submitting i =>
    split_ifs at h
    · obtain ⟨pool, pool', hpool, hnext, rfl⟩ := onPool_eq h
      exact .submit hc hpool hnext
    · exact Option.some.inj h ▸ .startEnds hc
  case notifying i =>
    obtain ⟨pool, pool', hpool, hnext, rfl⟩ := onPool_eq h
    exact .notifyTask hc hpool hnext
  case stored => exact h ▸ .closeQueue hc
  case closing => exact h ▸ .notifyWaiters hc
  case closed =>
    have hjoin : ControlMove s (.control woken) _ := .joinCapture hc
    cases hthread : s.captureThread <;> simp only [hthread, reduceCtorEq, Option.some.injEq] at h
    case absent => exact h ▸ hjoin
    case looping =>
      split_ifs at h
      exact Option.some.inj h ▸ hjoin
  case captureJoined =>
    cases hpool : s.pool with
    | none =>
      simp only [hpool, Option.some.injEq] at h
      have hnone : ControlMove s (.control woken) _ := .noPool hc (by simp [hpool])
      rw [hpool] at hnone
      exact h ▸ hnone
    | some pool =>
      simp only [hpool] at h
      split_ifs at h with hstop
      · have hnone : ControlMove s (.control woken) _ :=
          .noPool hc (by simpa [hpool] using hstop)
        rw [hpool] at hnone
        exact Option.some.inj h ▸ hnone
      · obtain ⟨pool, pool', hpool, hnext, rfl⟩ := onPool_eq h
        exact .stopPool hc hpool hnext
  case poolStopped =>
    obtain ⟨pool, pool', hpool, hnext, rfl⟩ := onPool_eq h
    exact .notifyPool hc hpool hnext
  case poolNotified =>
    obtain ⟨pool, pool', hpool, hnext, rfl⟩ := onPool_eq h
    exact .joinPool hc hpool hnext
  case poolJoined => exact h ▸ .stopEnds hc

theorem work_move {w : Fin W} {a : WorkerStep} (h : s.work p publish w a = some t) :
    ThreadMove p publish s t := by
  unfold work at h
  split_ifs at h with hruns
  rw [Bool.and_eq_true] at hruns
  split at h
  · rename_i hpop
    exact Option.some.inj h ▸ .sleep hruns.1 hpop
  · obtain ⟨r, hnext, rfl⟩ := Option.map_eq_some_iff.mp h
    exact .work hruns.1 hnext

theorem capture_move {read : Option Frame} {woken : Option (Fin W)}
    (h : s.capture read woken = some t) : ThreadMove p publish s t := by
  unfold capture at h
  cases hthread : s.captureThread <;> simp only [hthread, reduceCtorEq, Option.some.injEq] at h
  case opening => exact h ▸ .openSource hthread
  case looping =>
    obtain ⟨g, hnext, h⟩ := Option.bind_eq_some_iff.mp h
    split at h
    · rename_i frame hpc
      obtain ⟨asleep, hwoken, rfl⟩ := Option.map_eq_some_iff.mp h
      have hpush : ThreadMove p publish s _ := .push hthread hpc hnext hwoken
      rw [hthread] at hpush
      exact hpush
    · rename_i hpc
      have hcapture : ThreadMove p publish s _ := .capture hthread hpc hnext
      rw [hthread] at hcapture
      exact Option.some.inj h ▸ hcapture

/-- Every step is one of the thread that calls `start` and `stop` or of a thread of the pipeline. -/
theorem next_move {a : LifeStep W} (h : next p publish s a = some t) :
    ControlMove s a t ∨ a ≠ .callStart ∧ ThreadMove p publish s t := by
  cases a with
  | callStart =>
    simp only [next, callStart] at h
    split_ifs at h with hc hrunning
    · exact .inl (Option.some.inj h ▸ .returnsStart hrunning)
    · exact .inl (Option.some.inj h ▸ .startTakes hc (by simpa using hrunning))
  | callStop =>
    simp only [next, callStop] at h
    split_ifs at h with hc hrunning
    · exact .inl (Option.some.inj h ▸ .stopTakes hc hrunning)
    · exact .inl (Option.some.inj h ▸ .returnsStop (by simpa using hrunning))
  | control woken => exact .inl (control_move h)
  | capture read woken => exact .inr ⟨nofun, capture_move h⟩
  | pool w =>
    obtain ⟨pool, hpool, h⟩ := Option.bind_eq_some_iff.mp h
    split_ifs at h
    obtain ⟨pool', hnext, rfl⟩ := Option.map_eq_some_iff.mp h
    exact .inr ⟨nofun, .poolWork hpool hnext⟩
  | poolWake w =>
    obtain ⟨pool, pool', hpool, hnext, rfl⟩ := onPool_eq h
    exact .inr ⟨nofun, .poolWake hpool hnext⟩
  | worker w a => exact .inr ⟨nofun, work_move h⟩
  | wake w =>
    simp only [next] at h
    split_ifs at h
    exact .inr ⟨nofun, Option.some.inj h ▸ .wake⟩
  | tick now =>
    simp only [next] at h
    split_ifs at h
    exact .inr ⟨nofun, Option.some.inj h ▸ .tick⟩

end Moves

end PipelineLife
end ForkliftSafety
