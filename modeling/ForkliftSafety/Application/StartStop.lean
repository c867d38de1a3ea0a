import ForkliftSafety.Application.LifeCycle

/-! What any sequence of calls of `start` and `stop` makes of a pipeline: when a running one can
process, and how much it still does after a `stop`. -/
namespace ForkliftSafety
open Transition Monitor
namespace Controller

/-- A `start` that set `running_` has not returned. -/
@[simp] def inStart : Controller → Bool
  | .starting | .poolMade | .submitting _ | .notifying _ => true
  | _ => false

/-- A `stop` that cleared `running_` has not returned. -/
@[simp] def inStop : Controller → Bool
  | .stored | .closing | .closed | .captureJoined | .poolStopped | .poolNotified
  | .poolJoined => true
  | _ => false

/-- The capture thread of the last `start` is joined. -/
@[simp] def captureEnded (running : Bool) : Controller → Bool
  | .idle => !running
  | .starting | .poolMade | .captureJoined | .poolStopped | .poolNotified | .poolJoined => true
  | _ => false

/-- The pool of the last `start` takes tasks. -/
@[simp] def poolOpen (running : Bool) : Controller → Bool
  | .idle => running
  | .poolMade | .submitting _ | .notifying _ | .stored | .closing | .closed
  | .captureJoined => true
  | _ => false

/-- The pool of the last `start` is joined. -/
@[simp] def poolEnded (running : Bool) : Controller → Bool
  | .idle => !running
  | .starting | .poolJoined => true
  | _ => false

end Controller

section Flags
variable {W : ℕ} {p : Pipeline} {publish : Fin W → ℕ → PublishResult}

/-- A worker opens and closes nothing, and leaves the capture thread alone. -/
theorem workerNext_flags {w : Fin W} {g g' : PipelineShared W} {l l' : Worker} {a : WorkerStep}
    (h : workerNext p publish w (g, l) a = some (g', l')) :
    g'.running = g.running ∧ g'.frames.closed = g.frames.closed ∧ g'.capture = g.capture := by
  cases workerNext_move p publish h with
  | finish hpc hpop | take hpc hpop =>
    exact ⟨rfl, (ConcurrentQueue.popLatest_isClosed hpop).1, rfl⟩
  | test hpc | check hpc | stream hpc | detail hpc | evaluate hpc | pass hpc | hand hpc
  | infer hpc => exact ⟨rfl, rfl, rfl⟩

/-- A loop returns once the pipeline has stopped, or once the queue is closed. -/
theorem workerNext_returned {w : Fin W} {g g' : PipelineShared W} {l l' : Worker} {a : WorkerStep}
    (h : workerNext p publish w (g, l) a = some (g', l')) (hpc' : l'.pc = .returned) :
    g.running = false ∨ g.frames.closed = true := by
  cases workerNext_move p publish h with
  | test hpc =>
    simp only at hpc'
    split_ifs at hpc' with hrunning
    exact .inl (by simpa using hrunning)
  | finish hpc hpop => exact .inr ((ConcurrentQueue.popLatest_isClosed hpop).2 rfl)
  | @check frame hpc =>
    simp only at hpc'
    split_ifs at hpc'
  | @infer frame outcome hpc =>
    cases outcome <;> simp only [reduceCtorEq] at hpc'
    split_ifs at hpc'
  | take hpc hpop | stream hpc | detail hpc | evaluate hpc | pass hpc | hand hpc =>
    simp only [reduceCtorEq] at hpc'

/-- The loop can get to a call of `infer` without another test of `running_`. -/
def LoopPc.mayInfer : LoopPc → ℕ
  | .popping | .checking _ => 1
  | _ => 0

/-- The capture thread can get to a push without another test of `running_`. -/
def CapturePc.mayPush : CapturePc → ℕ
  | .reading | .pushing _ => 1
  | _ => 0

/-- In a stopped pipeline a worker uses up what it may still infer. -/
theorem workerNext_mayInfer {w : Fin W} {g g' : PipelineShared W} {l l' : Worker} {a : WorkerStep}
    (h : workerNext p publish w (g, l) a = some (g', l')) (hrunning : g.running = false) :
    (PipelineLife.begins l.pc l'.pc).toNat + l'.pc.mayInfer ≤ l.pc.mayInfer := by
  cases workerNext_move p publish h with
  | test hpc => simp [hpc, hrunning, PipelineLife.begins, LoopPc.mayInfer]
  | @check frame hpc =>
    cases hempty : frame.empty <;> simp [hpc, PipelineLife.begins, LoopPc.mayInfer]
  | @infer frame outcome hpc =>
    cases outcome <;> simp [hpc, PipelineLife.begins, LoopPc.mayInfer]
    split_ifs <;> simp
  | finish hpc hpop | take hpc hpop | stream hpc | detail hpc | evaluate hpc | pass hpc
  | hand hpc => simp [hpc, PipelineLife.begins, LoopPc.mayInfer]

theorem captureNext_mayPush {g g' : PipelineShared W} {read : Option Frame}
    (h : captureNext g read = some g') (hrunning : g.running = false) :
    g'.capture.mayPush ≤ g.capture.mayPush := by
  cases captureNext_move h with
  | test hpc => simp [hrunning, CapturePc.mayPush]
  | miss hpc | push hpc hpush => exact Nat.zero_le _
  | grab hpc => simp [hpc, CapturePc.mayPush]

theorem captureNext_pushing {g g' : PipelineShared W} {read : Option Frame} {frame : Frame}
    (h : captureNext g read = some g') (hpc : g.capture = .pushing frame) :
    g'.capture = .testing := by
  cases captureNext_move h with
  | miss | push => rfl
  | test hother | grab hother =>
    rw [hpc] at hother
    contradiction

theorem captureNext_flags {g g' : PipelineShared W} {read : Option Frame}
    (h : captureNext g read = some g') :
    g'.running = g.running ∧ g'.frames.closed = g.frames.closed := by
  cases captureNext_move h with
  | push hpc hpush => exact ⟨rfl, ConcurrentQueue.push_isClosed hpush⟩
  | test hpc | miss hpc | grab hpc => exact ⟨rfl, rfl⟩

end Flags

namespace PipelineLife
variable {W : ℕ} {p : Pipeline} {publish : Fin W → ℕ → PublishResult} {s t : PipelineLife W}

/-- What the threads of the pipeline leave to the calls. -/
structure SameCall (s t : PipelineLife W) : Prop where
  controller : t.controller = s.controller
  running : t.base.running = s.base.running
  closed : t.base.frames.closed = s.base.frames.closed
  closeReturned : t.closeReturned = s.closeReturned

theorem ThreadMove.same (h : ThreadMove p publish s t) : SameCall s t := by
  cases h with
  | capture hcapture hpc hnext =>
    obtain ⟨hrunning, hclosed⟩ := captureNext_flags hnext
    exact ⟨rfl, hrunning, hclosed, rfl⟩
  | push hcapture hpc hnext hwoken =>
    obtain ⟨hrunning, hclosed⟩ := captureNext_flags hnext
    exact ⟨rfl, hrunning, hclosed, rfl⟩
  | work hruns hnext =>
    obtain ⟨hrunning, hclosed, _⟩ := workerNext_flags hnext
    exact ⟨rfl, hrunning, hclosed, rfl⟩
  | openSource hcapture | poolWork hpool hnext | poolWake hpool hnext | sleep hruns hpop | wake
  | tick => exact ⟨rfl, rfl, rfl, rfl⟩

/-- The threads that exist, by the position of the call. -/
structure Phased (s : PipelineLife W) : Prop where
  started : s.controller.inStart = true → s.base.running = true
  stopped : s.controller.inStop = true → s.base.running = false
  closed : s.controller.inStop = true → s.controller ≠ .stored → s.base.frames.closed = true
  capture : s.controller.captureEnded s.base.running = true → s.captureThread = .absent
  poolOpen : s.controller.poolOpen s.base.running = true →
    ∀ pool, s.pool = some pool → pool.stop = false
  poolEnded : s.controller.poolEnded s.base.running = true →
    ∀ pool, s.pool = some pool → pool.Exited

theorem ThreadMove.thread (h : ThreadMove p publish s t) (habsent : s.captureThread = .absent) :
    t.captureThread = .absent := by
  cases h with
  | openSource hcapture | capture hcapture hpc hnext | push hcapture hpc hnext hwoken =>
    rw [habsent] at hcapture
    contradiction
  | work hruns hnext | poolWork hpool hnext | poolWake hpool hnext | sleep hruns hpop | wake
  | tick => exact habsent

theorem ThreadMove.pool (h : ThreadMove p publish s t) :
    t.pool = s.pool ∨ ∃ pool pool' w, s.pool = some pool ∧ t.pool = some pool' ∧
      (pool.next (.work w) = some pool' ∨ pool.next (.spuriousWake w) = some pool') := by
  cases h with
  | poolWork hpool hnext => exact .inr ⟨_, _, _, hpool, rfl, .inl hnext⟩
  | poolWake hpool hnext => exact .inr ⟨_, _, _, hpool, rfl, .inr hnext⟩
  | openSource hcapture | capture hcapture hpc hnext | push hcapture hpc hnext hwoken
  | work hruns hnext | sleep hruns hpop | wake | tick => exact .inl rfl

theorem Phased.thread (hs : s.Phased) (h : ThreadMove p publish s t) : t.Phased := by
  have hsame := h.same
  constructor
  · rw [hsame.controller, hsame.running]
    exact hs.started
  · rw [hsame.controller, hsame.running]
    exact hs.stopped
  · rw [hsame.controller, hsame.closed]
    exact hs.closed
  · rw [hsame.controller, hsame.running]
    exact fun hended => h.thread (hs.capture hended)
  · rw [hsame.controller, hsame.running]
    intro hopen pool' hpool'
    rcases h.pool with hsamePool | ⟨pool, pool'', w, hpool, hpool'', hnext⟩
    · exact hs.poolOpen hopen pool' (hsamePool ▸ hpool')
    · obtain rfl := Option.some.inj (hpool'.symm.trans hpool'')
      have hbefore := hs.poolOpen hopen pool hpool
      rcases hnext with hnext | hnext <;> rw [ThreadPool.next_keeps_stop (by simp) hnext, hbefore]
  · rw [hsame.controller, hsame.running]
    intro hended pool' hpool'
    rcases h.pool with hsamePool | ⟨pool, pool'', w, hpool, hpool'', hnext⟩
    · exact hs.poolEnded hended pool' (hsamePool ▸ hpool')
    · have hexited := hs.poolEnded hended pool hpool
      rcases hnext with hnext | hnext
      · rw [hexited.work] at hnext
        contradiction
      · rw [hexited.wake] at hnext
        contradiction

/-- From the join of the capture thread to the end of `stop`. -/
theorem Phased.joined (hs : s.Phased) (hstop : s.controller.inStop = true)
    (hended : s.controller.captureEnded true = true) :
    s.base.running = false ∧ s.base.frames.closed = true ∧ s.captureThread = .absent := by
  have hrunning := hs.stopped hstop
  refine ⟨hrunning, hs.closed hstop ?_, hs.capture ?_⟩
  · intro hstored
    rw [hstored] at hended
    contradiction
  · rw [hrunning]
    cases hc : s.controller <;> simp [hc] at hended ⊢

theorem Phased.control {a : LifeStep W} (hs : s.Phased) (h : ControlMove s a t) : t.Phased := by
  cases h with
  | returnsStart hrunning | returnsStop hrunning => exact hs
  | startTakes hc hrunning =>
    have hcapture := hs.capture (by simp [hc, hrunning])
    have hended := hs.poolEnded (by simp [hc, hrunning])
    exact ⟨fun _ => rfl, nofun, nofun, fun _ => hcapture, nofun, fun _ => hended⟩
  | stopTakes hc hrunning =>
    have hopen := hs.poolOpen (by simp [hc, hrunning])
    exact ⟨nofun, fun _ => rfl, fun _ h => absurd rfl h, nofun, fun _ => hopen, nofun⟩
  | makePool hc =>
    have hrunning := hs.started (by simp [hc])
    have hcapture := hs.capture (by simp [hc])
    refine ⟨fun _ => hrunning, nofun, nofun, fun _ => hcapture, fun _ => ?_, nofun⟩
    rintro pool ⟨⟩
    rfl
  | makeCapture hc =>
    have hrunning := hs.started (by simp [hc])
    have hopen := hs.poolOpen (by simp [hc])
    exact ⟨fun _ => hrunning, nofun, nofun, nofun, fun _ => hopen, nofun⟩
  | submit hc hpool hnext | notifyTask hc hpool hnext =>
    have hrunning := hs.started (by simp [hc])
    have hopen := hs.poolOpen (by simp [hc]) _ hpool
    refine ⟨fun _ => hrunning, nofun, nofun, nofun, fun _ => ?_, nofun⟩
    rintro pool ⟨⟩
    rw [ThreadPool.next_keeps_stop (by simp) hnext, hopen]
  | startEnds hc =>
    have hrunning := hs.started (by simp [hc])
    have hopen := hs.poolOpen (by simp [hc])
    constructor <;> simp [hrunning]
    exact hopen
  | closeQueue hc =>
    have hrunning := hs.stopped (by simp [hc])
    have hopen := hs.poolOpen (by simp [hc])
    exact ⟨nofun, fun _ => hrunning, fun _ _ => rfl, nofun, fun _ => hopen, nofun⟩
  | notifyWaiters hc =>
    have hrunning := hs.stopped (by simp [hc])
    have hclosed := hs.closed (by simp [hc]) (by simp [hc])
    have hopen := hs.poolOpen (by simp [hc])
    exact ⟨nofun, fun _ => hrunning, fun _ _ => hclosed, nofun, fun _ => hopen, nofun⟩
  | joinCapture hc =>
    have hrunning := hs.stopped (by simp [hc])
    have hclosed := hs.closed (by simp [hc]) (by simp [hc])
    have hopen := hs.poolOpen (by simp [hc])
    exact ⟨nofun, fun _ => hrunning, fun _ _ => hclosed, fun _ => rfl, fun _ => hopen, nofun⟩
  | noPool hc hstop =>
    obtain ⟨hrunning, hclosed, hcapture⟩ := hs.joined (by simp [hc]) (by simp [hc])
    refine ⟨nofun, fun _ => hrunning, fun _ _ => hclosed, fun _ => hcapture, nofun, fun _ => ?_⟩
    intro pool hpool
    have hopen := hs.poolOpen (by simp [hc]) pool hpool
    rw [hstop pool hpool] at hopen
    contradiction
  | stopPool hc hpool hnext | notifyPool hc hpool hnext =>
    obtain ⟨hrunning, hclosed, hcapture⟩ := hs.joined (by simp [hc]) (by simp [hc])
    exact ⟨nofun, fun _ => hrunning, fun _ _ => hclosed, fun _ => hcapture, nofun, nofun⟩
  | joinPool hc hpool hnext =>
    obtain ⟨hrunning, hclosed, hcapture⟩ := hs.joined (by simp [hc]) (by simp [hc])
    refine ⟨nofun, fun _ => hrunning, fun _ _ => hclosed, fun _ => hcapture, nofun, fun _ => ?_⟩
    rintro pool ⟨⟩
    exact ThreadPool.exited_of_join hnext
  | stopEnds hc =>
    obtain ⟨hrunning, _, hcapture⟩ := hs.joined (by simp [hc]) (by simp [hc])
    have hended := hs.poolEnded (by simp [hc])
    refine ⟨nofun, nofun, nofun, fun _ => hcapture, fun hopen => ?_, fun _ => hended⟩
    rw [Controller.poolOpen, hrunning] at hopen
    contradiction

theorem Phased.step {a : LifeStep W} (hs : s.Phased) (h : next p publish s a = some t) :
    t.Phased := by
  rcases next_move h with hcontrol | ⟨_, hthread⟩
  · exact hs.control hcontrol
  · exact hs.thread hthread

/-- Nothing but `frames_.close` closes the queue. -/
def ClosedByStop (s : PipelineLife W) : Prop :=
  s.base.frames.closed = true ↔ s.closeReturned = true ∨ s.controller = .closing

theorem ClosedByStop.step {a : LifeStep W} (hs : s.ClosedByStop)
    (h : next p publish s a = some t) : t.ClosedByStop := by
  unfold ClosedByStop at *
  rcases next_move h with hcontrol | ⟨_, hthread⟩
  · cases hcontrol with
    | returnsStart hrunning | returnsStop hrunning => exact hs
    | closeQueue hc => simp [ConcurrentQueue.close]
    | notifyWaiters hc => simpa [hc] using hs
    | startTakes hc | stopTakes hc | makePool hc | makeCapture hc | submit hc | startEnds hc
    | notifyTask hc | joinCapture hc | noPool hc | stopPool hc | notifyPool hc | joinPool hc
    | stopEnds hc => simpa [hc] using hs
  · have hsame := hthread.same
    rw [hsame.closed, hsame.closeReturned, hsame.controller]
    exact hs

theorem ClosedByStop.of_idle (hs : s.ClosedByStop) (hc : s.controller = .idle) :
    s.base.frames.closed = s.closeReturned := by
  rw [Bool.eq_iff_iff]
  exact hs.trans (or_iff_left (by simp [hc]))

/-- Between a `stop` and the next `start` the pool has no worker left to run a loop. -/
theorem Phased.not_runs (hs : s.Phased) (hc : s.controller = .idle)
    (hrunning : s.base.running = false) (w : Fin W) : s.runs w = false := by
  have hended := hs.poolEnded (by simp [hc, hrunning])
  unfold runs
  cases hpool : s.pool with
  | none => rfl
  | some pool => simp [hended pool hpool w, PoolWorker.current]

/-- `stop` closes the queue in its first step after the store. -/
theorem Phased.closed_of_runs (hs : s.Phased) (hrunning : s.base.running = false) {w : Fin W}
    (hruns : s.runs w = true) : s.base.frames.closed = true ∨ s.controller = .stored := by
  by_cases hstored : s.controller = .stored
  · exact .inr hstored
  left
  apply hs.closed _ hstored
  cases hc : s.controller with
  | idle =>
    rw [hs.not_runs hc hrunning] at hruns
    contradiction
  | starting | poolMade | submitting | notifying =>
    have hstarted := hs.started (by simp [hc])
    rw [hrunning] at hstarted
    contradiction
  | stored | closing | closed | captureJoined | poolStopped | poolNotified | poolJoined => rfl

/-- A loop that has returned found the pipeline stopped, or the queue closed. -/
def ReturnedClosed (s : PipelineLife W) : Prop :=
  ∀ w, (s.loops w).pc = .returned → s.base.frames.closed = true ∨ s.controller = .stored

theorem ReturnedClosed.step {a : LifeStep W} (hs : s.ReturnedClosed) (hphased : s.Phased)
    (h : next p publish s a = some t) : t.ReturnedClosed := by
  intro v hv
  rcases next_move h with hcontrol | ⟨_, hthread⟩
  · cases hcontrol with
    | returnsStart hrunning | returnsStop hrunning => exact hs v hv
    | stopTakes hc hrunning => exact .inr rfl
    | makePool hc => simp at hv
    | closeQueue hc => exact .inl rfl
    | startTakes hc | makeCapture hc | submit hc | startEnds hc | notifyTask hc
    | notifyWaiters hc | joinCapture hc | noPool hc | stopPool hc | notifyPool hc | joinPool hc
    | stopEnds hc => exact .inl ((hs v hv).resolve_right (by simp [hc]))
  · have hsame := hthread.same
    rw [hsame.closed, hsame.controller]
    cases hthread with
    | @poolWork w pool pool' hpool hnext =>
      simp only at hv
      split_ifs at hv
      · rw [Function.update_apply] at hv
        split_ifs at hv
        exact hs v hv
      · exact hs v hv
    | @work w a g l hruns hnext =>
      simp only [Function.update_apply] at hv
      split_ifs at hv
      · rcases workerNext_returned hnext hv with hrunning | hclosed
        · exact hphased.closed_of_runs hrunning hruns
        · exact .inl hclosed
      · exact hs v hv
    | openSource hcapture | capture hcapture hpc hnext | push hcapture hpc hnext hwoken
    | poolWake hpool hnext | sleep hruns hpop | wake | tick => exact hs v hv

/-- A running pipeline with no `stop` in progress has an open queue, and each of its loops goes
on unless its engine has thrown. -/
def AbleToProcess (s : PipelineLife W) : Prop :=
  s.base.running = true → s.controller.inStop = false →
    s.base.frames.closed = false ∧ ∀ w, (s.loops w).pc ≠ .returned

/-- No `start` sets `running_` after a `stop` has closed the queue. -/
def StartsOnce (s : PipelineLife W) : LifeStep W → Prop
  | .callStart => s.base.running = false → s.closeReturned = false
  | _ => True

theorem ableToProcess_iff (hphased : s.Phased) (hreturned : s.ReturnedClosed) :
    s.AbleToProcess ↔ (s.base.running = true → s.base.frames.closed = false) := by
  constructor
  · intro hable hrunning
    apply (hable hrunning _).1
    rw [Bool.eq_false_iff]
    intro hstop
    rw [hphased.stopped hstop] at hrunning
    contradiction
  · intro hopen hrunning hstop
    refine ⟨hopen hrunning, fun w hpc => ?_⟩
    rcases hreturned w hpc with hclosed | hstored
    · rw [hopen hrunning] at hclosed
      contradiction
    · simp [hstored] at hstop

/-- What every state of a pipeline's life has in common. -/
structure Lived (s : PipelineLife W) : Prop where
  phased : s.Phased
  closedByStop : s.ClosedByStop
  returnedClosed : s.ReturnedClosed

theorem Lived.step {a : LifeStep W} (hs : s.Lived) (h : next p publish s a = some t) : t.Lived where
  phased := hs.phased.step h
  closedByStop := hs.closedByStop.step h
  returnedClosed := hs.returnedClosed.step hs.phased h

section Runs
variable {p : Pipeline} {publish : Fin p.cfg.inferenceWorkers → ℕ → PublishResult} {now : TimePoint}
  {s t : PipelineLife p.cfg.inferenceWorkers}

theorem lived_constructed : (constructed p now).Lived where
  phased := ⟨nofun, nofun, nofun, fun _ => rfl, nofun, nofun⟩
  closedByStop := by simp [ClosedByStop, constructed]
  returnedClosed := nofun

theorem reachable_lived (hs : (system p publish now).Reachable s) : s.Lived := by
  apply hs.invariant lived_constructed
  intro s a t _ ih hstep
  exact ih.step hstep

/-- A step leaves the pipeline able to process unless it is a `start` after a `stop`. -/
theorem ableToProcess_step_iff {a : LifeStep p.cfg.inferenceWorkers} (hs : s.Lived)
    (hable : s.AbleToProcess) (h : next p publish s a = some t) :
    t.AbleToProcess ↔ s.StartsOnce a := by
  have ht := hs.step h
  rw [ableToProcess_iff hs.phased hs.returnedClosed] at hable
  rw [ableToProcess_iff ht.phased ht.returnedClosed]
  rcases next_move h with hcontrol | ⟨ha, hthread⟩
  · cases hcontrol with
    | returnsStart hrunning => simpa [StartsOnce, hrunning] using hable
    | returnsStop hrunning | stopTakes hc hrunning => simp_all [StartsOnce]
    | startTakes hc hrunning =>
      have hclosed := hs.closedByStop.of_idle hc
      simp [StartsOnce, hrunning, hclosed]
    | closeQueue hc =>
      have hrunning := hs.phased.stopped (by simp [hc])
      simp [StartsOnce, hrunning]
    | makePool hc | makeCapture hc | submit hc | startEnds hc | notifyTask hc | notifyWaiters hc
    | joinCapture hc | noPool hc | stopPool hc | notifyPool hc | joinPool hc | stopEnds hc =>
      exact iff_of_true hable trivial
  · have hsame := hthread.same
    rw [hsame.running, hsame.closed]
    cases a with
    | callStart => exact absurd rfl ha
    | _ => exact iff_of_true hable trivial

/-- A pipeline that is started once is able to process for as long as it runs, and one that is
started after a `stop` is not. -/
theorem ableToProcess_iff_startsOnce (p : Pipeline)
    (publish : Fin p.cfg.inferenceWorkers → ℕ → PublishResult) (now : TimePoint) :
    (∀ s, ((system p publish now).restrict StartsOnce).Reachable s → s.AbleToProcess) ∧
      ∀ s a t, ((system p publish now).restrict StartsOnce).Reachable s →
        (system p publish now).step s a t → (t.AbleToProcess ↔ s.StartsOnce a) := by
  apply LTS.restrict_keeps
  · exact nofun
  · intro s a t hs hable hstep
    exact ableToProcess_step_iff (reachable_lived hs) hable hstep

end Runs

/-- In a stopped pipeline the calls of `infer` and the pushes that were made since and those that
can still come without another test of `running_`. -/
structure Bounded (s : PipelineLife W) : Prop where
  infers : s.base.running = false → ∀ w, s.begun w + (s.loops w).pc.mayInfer ≤ 1
  pushes : s.base.running = false → s.pushes + s.base.capture.mayPush ≤ 1

theorem Bounded.control {a : LifeStep W} (hs : s.Bounded) (h : ControlMove s a t) : t.Bounded := by
  cases h with
  | startTakes hc hrunning => exact ⟨nofun, nofun⟩
  | stopTakes hc hrunning =>
    constructor
    · intro _ w
      cases (s.loops w).pc <;> simp [LoopPc.mayInfer]
    · intro _
      cases s.base.capture <;> simp [CapturePc.mayPush]
  | makePool hc =>
    refine ⟨fun hrunning w => ?_, hs.pushes⟩
    have hbefore := hs.infers hrunning w
    simp only [LoopPc.mayInfer]
    omega
  | makeCapture hc =>
    refine ⟨hs.infers, fun hrunning => ?_⟩
    have hbefore := hs.pushes hrunning
    simp only [CapturePc.mayPush]
    omega
  | returnsStart hrunning | returnsStop hrunning | submit hc | startEnds hc | notifyTask hc
  | closeQueue hc | notifyWaiters hc | joinCapture hc | noPool hc | stopPool hc | notifyPool hc
  | joinPool hc | stopEnds hc => exact ⟨hs.infers, hs.pushes⟩

theorem Bounded.thread (hs : s.Bounded) (h : ThreadMove p publish s t) : t.Bounded := by
  have hsame := h.same
  constructor
  · rw [hsame.running]
    intro hrunning v
    have hbefore := hs.infers hrunning v
    cases h with
    | @poolWork w pool pool' hpool hnext =>
      simp only
      split_ifs
      · by_cases hv : v = w
        · subst hv
          simp only [Function.update_self, LoopPc.mayInfer]
          omega
        · rwa [Function.update_of_ne hv]
      · exact hbefore
    | @work w a g l hruns hnext =>
      have hleft := workerNext_mayInfer hnext hrunning
      by_cases hv : v = w
      · subst hv
        simp only [Function.update_self]
        cases hbegins : begins (s.loops v).pc l.pc <;> simp [hbegins] at hleft ⊢ <;> omega
      · simp only [Function.update_of_ne hv]
        split_ifs <;> simpa [hv] using hbefore
    | openSource hcapture | capture hcapture hpc hnext | push hcapture hpc hnext hwoken
    | poolWake hpool hnext | sleep hruns hpop | wake | tick => exact hbefore
  · rw [hsame.running]
    intro hrunning
    have hbefore := hs.pushes hrunning
    cases h with
    | capture hcapture hpc hnext =>
      have hleft := captureNext_mayPush hnext hrunning
      simp only
      omega
    | push hcapture hpc hnext hwoken =>
      simp only [captureNext_pushing hnext hpc, CapturePc.mayPush]
      simp only [hpc, CapturePc.mayPush] at hbefore
      omega
    | work hruns hnext =>
      rw [(workerNext_flags hnext).2.2]
      exact hbefore
    | openSource hcapture | poolWork hpool hnext | poolWake hpool hnext | sleep hruns hpop | wake
    | tick => exact hbefore

/-- Once `frames_.close` has returned, no worker sleeps in `pop_latest`. -/
def AwakeOnceClosed (s : PipelineLife W) : Prop :=
  s.closeReturned = true → ∀ w, s.asleep w = false

theorem AwakeOnceClosed.step {a : LifeStep W} (hs : s.AwakeOnceClosed) (hclosed : s.ClosedByStop)
    (h : next p publish s a = some t) : t.AwakeOnceClosed := by
  rcases next_move h with hcontrol | ⟨_, hthread⟩
  · cases hcontrol with
    | makePool hc => exact fun _ _ => rfl
    | notifyWaiters hc =>
      intro _ w
      rw [Bool.eq_false_iff]
      exact fun hw => frameWaiters.notifyAll_not_sleeps s.asleep ⟨w, hw⟩
    | returnsStart hrunning | returnsStop hrunning | startTakes hc | stopTakes hc
    | makeCapture hc | submit hc | startEnds hc | notifyTask hc | closeQueue hc | joinCapture hc
    | noPool hc | stopPool hc | notifyPool hc | joinPool hc | stopEnds hc => exact hs
  · cases hthread with
    | push hcapture hpc hnext hwoken =>
      intro hreturned v
      rcases Condition.notifyOne_cases hwoken with ⟨w, _, hw, _⟩ | ⟨_, rfl⟩
      · have hasleep : s.asleep w = true := hw
        rw [hs hreturned w] at hasleep
        contradiction
      · exact hs hreturned v
    | @sleep w hruns hpop =>
      intro hreturned
      exact absurd hpop (ConcurrentQueue.popLatest_of_closed (hclosed.mpr (.inl hreturned)))
    | @wake w =>
      intro hreturned v
      by_cases hv : v = w
      · subst hv
        exact Function.update_self _ _ _
      · exact (Function.update_of_ne hv _ _).trans (hs hreturned v)
    | openSource hcapture | capture hcapture hpc hnext | poolWork hpool hnext
    | poolWake hpool hnext | work hruns hnext | tick => exact hs

/-- From the return of `stop` to the next `start` no loop takes a step. -/
structure AtRest (p : Pipeline) (publish : Fin W → ℕ → PublishResult) (s : PipelineLife W) :
    Prop where
  workers : ∀ w a, next p publish s (.worker w a) = none
  capture : ∀ read woken, next p publish s (.capture read woken) = none
  lasts : ∀ a t, next p publish s a = some t →
    a = .callStart ∨ t.controller = .idle ∧ t.base.running = false

theorem Phased.atRest (hs : s.Phased) (hc : s.controller = .idle)
    (hrunning : s.base.running = false) : AtRest p publish s where
  workers w a := by simp [next, work, hs.not_runs hc hrunning]
  capture read woken := by
    have habsent := hs.capture (by simp [hc, hrunning])
    simp [next, PipelineLife.capture, habsent]
  lasts a t h := by
    rcases next_move h with hcontrol | ⟨_, hthread⟩
    · cases hcontrol with
      | returnsStart | startTakes => exact .inl rfl
      | returnsStop => exact .inr ⟨hc, hrunning⟩
      | stopTakes _ hstarted =>
        rw [hrunning] at hstarted
        contradiction
      | makePool hstage | makeCapture hstage | submit hstage | startEnds hstage
      | notifyTask hstage | closeQueue hstage | notifyWaiters hstage | joinCapture hstage
      | noPool hstage | stopPool hstage | notifyPool hstage | joinPool hstage
      | stopEnds hstage =>
        rw [hc] at hstage
        contradiction
    · exact .inr ⟨hthread.same.controller.trans hc, hthread.same.running.trans hrunning⟩

/-- A stopped pipeline has little left to do: one call of `infer` for each worker and one push, no
wait once the queue is closed, and nothing at all once `stop` has returned. -/
structure StopsSoon (p : Pipeline) (publish : Fin W → ℕ → PublishResult) (s : PipelineLife W) :
    Prop where
  infers : s.base.running = false → ∀ w, s.begun w ≤ 1
  pushes : s.base.running = false → s.pushes ≤ 1
  wakes : s.closeReturned = true → ∀ w, s.asleep w = false
  rests : s.base.running = false → s.controller = .idle → AtRest p publish s

section Stops
variable {p : Pipeline} {publish : Fin p.cfg.inferenceWorkers → ℕ → PublishResult} {now : TimePoint}
  {s : PipelineLife p.cfg.inferenceWorkers}

theorem reachable_bounded (hs : (system p publish now).Reachable s) : s.Bounded := by
  apply hs.invariant
  · exact ⟨fun _ _ => Nat.zero_le 1, fun _ => Nat.zero_le 1⟩
  · intro s a t _ ih hstep
    rcases next_move hstep with hcontrol | ⟨_, hthread⟩
    · exact ih.control hcontrol
    · exact ih.thread hthread

theorem reachable_awakeOnceClosed (hs : (system p publish now).Reachable s) :
    s.AwakeOnceClosed := by
  apply hs.invariant
  · exact nofun
  · intro s a t hs ih hstep
    exact ih.step (reachable_lived hs).closedByStop hstep

/-- Whatever the interleaving, a stopped pipeline has little left to do. -/
theorem reachable_stopsSoon (hs : (system p publish now).Reachable s) :
    StopsSoon p publish s where
  infers hrunning w := by
    have hbound := (reachable_bounded hs).infers hrunning w
    omega
  pushes hrunning := by
    have hbound := (reachable_bounded hs).pushes hrunning
    omega
  wakes := reachable_awakeOnceClosed hs
  rests hrunning hc := (reachable_lived hs).phased.atRest hc hrunning

end Stops

abbrev dock : Pipeline where
  cameraId := "dock"

/-- A whole `start`. -/
def startsUp : List (LifeStep 1) := .callStart :: List.replicate 5 (.control none)

/-- The worker of the pool takes its task and tests `running_`. -/
def entersLoop (w : Fin 1) : List (LifeStep 1) :=
  List.replicate 3 (.pool w) ++ [.worker w .advance]

/-- The capture thread opens the source and reads and pushes one frame. -/
def capturesOne : List (LifeStep 1) :=
  List.replicate 2 (.capture none none) ++ [.capture (some liveFrame) none, .capture none none]

/-- What `stop` does from the joins on, while the worker of the pool ends. -/
def joinsAll (w : Fin 1) : List (LifeStep 1) :=
  List.replicate 3 (.control none) ++ List.replicate 4 (.pool w) ++ List.replicate 2 (.control none)

/-- After `start`, `stop` and `start` the pipeline runs and captures, and its one loop has
returned. -/
theorem restarted_dock_never_infers :
    ∃ s, (system dock (fun _ _ => .ok ()) 0).Reachable s ∧ ¬ s.AbleToProcess ∧
      s.base.running = true ∧ s.controller = .idle ∧ s.base.frames.items = [liveFrame] ∧
      (s.loops (0 : Fin 1)).pc = .returned := by
  have hrun : ∃ s, (system dock (fun _ _ => .ok ()) 0).Reachable s ∧
      s.base.frames.closed = true ∧ s.base.running = true ∧ s.controller = .idle ∧
      s.base.frames.items = [liveFrame] ∧ (s.loops (0 : Fin 1)).pc = .returned :=
    exists_reachable_of_exec
      (startsUp ++ [.capture none none] ++ .callStop :: List.replicate 2 (.control none) ++
        [.capture none none] ++ entersLoop 0 ++ joinsAll 0 ++
        startsUp ++ entersLoop 0 ++ [.worker 0 .advance] ++ capturesOne)
      ⟨_, rfl, rfl, rfl, rfl, rfl, rfl⟩
  obtain ⟨s, hs, hclosed, hrest⟩ := hrun
  refine ⟨s, hs, fun hable => ?_, hrest⟩
  have hopen := (hable hrest.1 (by rw [hrest.2.1]; rfl)).1
  rw [hclosed] at hopen
  contradiction

/-- The worker is about to infer and the capture thread about to read when `stop` strikes. -/
theorem dock_stopped_in_flight :
    ∃ s, StopsSoon dock (fun _ _ => .ok ()) s ∧ s.begun (0 : Fin 1) = 1 ∧ s.pushes = 1 ∧
      s.base.running = false ∧ s.controller = .idle ∧ s.closeReturned = true := by
  have hrun : ∃ s, (system dock (fun _ _ => .ok ()) 0).Reachable s ∧ s.begun (0 : Fin 1) = 1 ∧
      s.pushes = 1 ∧ s.base.running = false ∧ s.controller = .idle ∧ s.closeReturned = true :=
    exists_reachable_of_exec
      (startsUp ++ entersLoop 0 ++ capturesOne ++ [.worker 0 .advance, .capture none none] ++
        .callStop :: [.worker 0 .advance, .capture (some liveFrame) none] ++
        List.replicate 2 (.capture none none) ++
        [.worker 0 (.inferEnds (.detections []))] ++ List.replicate 3 (.worker 0 .advance) ++
        List.replicate 2 (.control none) ++ joinsAll 0)
      ⟨_, rfl, rfl, rfl, rfl, rfl, rfl⟩
  obtain ⟨s, hs, hrest⟩ := hrun
  exact ⟨s, reachable_stopsSoon hs, hrest⟩

end PipelineLife
end ForkliftSafety
