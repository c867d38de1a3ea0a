import ForkliftSafety.Application.RateLimit

/-! Calls of `infer` in a pipeline. `main` builds one engine for a camera, and every worker of the
camera's pipeline calls it. -/
namespace ForkliftSafety
open Transition Threads

/-- The worker's call of `engine_->infer` is in progress. -/
def Worker.infers (l : Worker) : Bool :=
  match l.pc with
  | .inferring _ => true
  | _ => false

/-- The worker's next step calls `infer`. -/
def Worker.beginsInfer (l : Worker) : Bool :=
  match l.pc with
  | .checking frame => !frame.empty
  | _ => false

section Engine
variable {W : ℕ} (p : Pipeline)

/-- At most one call of `infer` is in progress on the pipeline's engine. -/
def OneInference (c : Config (Fin W) (PipelineShared W) Worker) : Prop :=
  ∀ v w, (c.locals v).infers = true → (c.locals w).infers = true → v = w

/-- A worker that calls `infer` finds no other worker in a call. -/
def FindsEngineFree (c : Config (Fin W) (PipelineShared W) Worker)
    (label : Label (Fin W) WorkerStep PipelineEvent) : Prop :=
  match label with
  | .env _ => True
  | .thread w _ => (c.locals w).beginsInfer = true →
      ∀ v, v ≠ w → (c.locals v).infers = false

/-- A worker is in a call after its step exactly when the step made it. -/
theorem workerNext_infers {publish : Fin W → ℕ → PublishResult} {w : Fin W}
    {g g' : PipelineShared W} {l l' : Worker} {a : WorkerStep}
    (h : workerNext p publish w (g, l) a = some (g', l')) : l'.infers = l.beginsInfer := by
  cases workerNext_move p publish h with
  | test hpc =>
    by_cases hrunning : g.running <;> simp [Worker.infers, Worker.beginsInfer, hpc, hrunning]
  | @check frame hpc =>
    by_cases hempty : frame.empty <;> simp [Worker.infers, Worker.beginsInfer, hpc, hempty]
  | @infer frame outcome hpc =>
    cases outcome with
    | detections ds =>
      by_cases hview : p.viewing.isSome <;> simp [Worker.infers, Worker.beginsInfer, hpc, hview]
    | error | threw => simp [Worker.infers, Worker.beginsInfer, hpc]
  | finish hpc | take hpc | stream hpc | detail hpc | evaluate hpc | pass hpc | hand hpc =>
    simp [Worker.infers, Worker.beginsInfer, hpc]

end Engine

section Runs
variable {p : Pipeline} {publish : Fin p.cfg.inferenceWorkers → ℕ → PublishResult}
  {now : TimePoint}
  {c d : Config (Fin p.cfg.inferenceWorkers) (PipelineShared p.cfg.inferenceWorkers) Worker}

/-- A step keeps the calls of `infer` apart exactly when it finds the engine free. -/
theorem step_oneInference_iff
    {label : Label (Fin p.cfg.inferenceWorkers) WorkerStep PipelineEvent}
    (hone : OneInference c) (h : (pipelineSystem p publish now).step c label d) :
    OneInference d ↔ FindsEngineFree c label := by
  cases label with
  | env e =>
    obtain ⟨g, _, rfl⟩ := Program.system_env h
    exact ⟨fun _ => trivial, fun _ => hone⟩
  | thread w a =>
    obtain ⟨g, l, hnext, rfl⟩ := Program.system_thread h
    have hinfers : l.infers = (c.locals w).beginsInfer := workerNext_infers p hnext
    constructor
    · intro hd hbegins v hvw
      by_contra hv
      rw [Bool.not_eq_false] at hv
      apply hvw
      apply hd v w
      · change (Function.update c.locals w l v).infers = true
        rwa [Function.update_of_ne hvw]
      · change (Function.update c.locals w l w).infers = true
        rw [Function.update_self, hinfers, hbegins]
    · intro hfree u v hu hv
      by_cases hbegins : (c.locals w).beginsInfer = true
      · -- The caller is the only worker in a call.
        have honly : ∀ x, (Function.update c.locals w l x).infers = true → x = w := by
          intro x hx
          by_contra hxw
          rw [Function.update_of_ne hxw, hfree hbegins x hxw] at hx
          contradiction
        rw [honly u hu, honly v hv]
      · -- The step made no call, so those in progress were so before.
        have hbefore : ∀ x, (Function.update c.locals w l x).infers = true →
            (c.locals x).infers = true := by
          intro x hx
          by_cases hxw : x = w
          · subst hxw
            rw [Function.update_self, hinfers] at hx
            exact absurd hx hbegins
          · rwa [Function.update_of_ne hxw] at hx
        exact hone u v (hbefore u hu) (hbefore v hv)

end Runs

section TwoCalls
variable {p : Pipeline} (publish : Fin p.cfg.inferenceWorkers → ℕ → PublishResult)
  (now : TimePoint)
  {c : Config (Fin p.cfg.inferenceWorkers) (PipelineShared p.cfg.inferenceWorkers) Worker}

/-- One frame is captured and a fresh worker calls `infer` on it. -/
theorem path_of_call (hc : Ready c.shared) {w : Fin p.cfg.inferenceWorkers}
    (hw : c.locals w = {}) :
    ∃ d, (pipelineSystem p publish now).Path c d ∧ Ready d.shared ∧
      (d.locals w).infers = true ∧ ∀ v, v ≠ w → d.locals v = c.locals v := by
  obtain ⟨q, hitems, hpolicy, hcapture⟩ := capture_segment hc
  let b : Config (Fin p.cfg.inferenceWorkers) (PipelineShared p.cfg.inferenceWorkers) Worker :=
    ⟨{ c.shared with frames := q }, c.locals⟩
  have hfirst : (pipelineSystem p publish now).Path c b := Program.path_of_env hcapture
  have hpop := q.popLatest_snoc [] liveFrame hitems
  have hempty : liveFrame.empty = false := rfl
  obtain ⟨g, hcall, hg⟩ : ∃ g, exec (workerNext p publish w) (b.shared, {})
      [.advance, .advance, .advance] = some (g, { pc := .inferring liveFrame }) ∧
      Ready g := by
    simp only [exec, workerNext, b, hc.running, ↓reduceIte, Option.bind_some, hpop, hempty,
      Bool.false_eq_true]
    refine ⟨_, rfl, ?_⟩
    exact ⟨rfl, hc.capture, rfl, hpolicy⟩
  rw [← hw] at hcall
  have hsecond : (pipelineSystem p publish now).Path b
      ⟨g, Function.update c.locals w { pc := .inferring liveFrame }⟩ :=
    Program.path_of_segment hcall
  refine ⟨_, hfirst.trans hsecond, hg, ?_, ?_⟩
  · show (Function.update c.locals w _ w).infers = true
    rw [Function.update_self]
    rfl
  · intro v hv
    exact Function.update_of_ne hv _ c.locals

/-- Two workers take one frame each and are both in a call. -/
theorem oneInference_broken (hmany : 1 < p.cfg.inferenceWorkers) :
    ∃ c, (pipelineSystem p publish now).Reachable c ∧ ¬ OneInference c := by
  obtain ⟨second, first, hne⟩ := (Fin.nontrivial_iff_two_le.mpr hmany).exists_pair_ne
  have hstart : Ready (started p now).shared := ⟨rfl, rfl, rfl, rfl⟩
  obtain ⟨d, hpath, hready, hfirst, hrest⟩ :=
    path_of_call publish now hstart (w := first) rfl
  obtain ⟨e, hpath', _, hsecond, hrest'⟩ :=
    path_of_call publish now hready (w := second) (hrest second hne)
  refine ⟨e, LTS.Reachable.path hpath hpath', ?_⟩
  intro hone
  rw [← hrest' first hne.symm] at hfirst
  exact hne (hone second first hsecond hfirst)

end TwoCalls

/-- All runs of a pipeline keep the calls on its engine apart exactly when it has at most one
worker. With more workers, a run keeps them apart as long as every worker that calls `infer` finds
no other in a call, and the first step that does not brings two calls together. -/
theorem pipeline_oneInference_iff (p : Pipeline)
    (publish : Fin p.cfg.inferenceWorkers → ℕ → PublishResult) (now : TimePoint) :
    ((∀ c, (pipelineSystem p publish now).Reachable c → OneInference c) ↔
      p.cfg.inferenceWorkers ≤ 1) ∧
    (∀ c, ((pipelineSystem p publish now).restrict FindsEngineFree).Reachable c →
      OneInference c) ∧
    ∀ c label d, ((pipelineSystem p publish now).restrict FindsEngineFree).Reachable c →
      (pipelineSystem p publish now).step c label d →
      (OneInference d ↔ FindsEngineFree c label) := by
  have hstart : OneInference (started p now) := by
    intro v w hv _
    contradiction
  obtain ⟨hruns, hsteps⟩ := LTS.restrict_keeps (M := pipelineSystem p publish now) hstart
    (fun _ _ _ _ hone hstep => step_oneInference_iff hone hstep)
  refine ⟨⟨?_, ?_⟩, hruns, hsteps⟩
  · intro h
    by_contra hmany
    obtain ⟨c, hc, hbroken⟩ := oneInference_broken publish now (not_le.mp hmany)
    exact hbroken (h c hc)
  · intro hfew c _ v w _ _
    have hsub : Subsingleton (Fin p.cfg.inferenceWorkers) := Fin.subsingleton_iff_le_one.mpr hfew
    exact Subsingleton.elim v w

/-- With two workers, a second call can begin while the first is in progress. -/
theorem two_workers_share_engine :
    ∃ c, (pipelineSystem { cameraId := "dock", cfg := { inferenceWorkers := 2 } }
        (fun _ _ => .ok ()) 0).Reachable c ∧ ¬ OneInference c :=
  oneInference_broken (p := { cameraId := "dock", cfg := { inferenceWorkers := 2 } }) _ _
    (by decide)

end ForkliftSafety
