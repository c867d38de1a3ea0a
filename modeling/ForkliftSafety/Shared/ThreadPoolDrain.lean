import ForkliftSafety.Shared.ThreadPool

/-! What becomes of the tasks of a `ThreadPool`: a log of its runs, up to the return of
`shutdown`. -/
namespace ForkliftSafety
open Transition

inductive PoolEvent (n : ℕ) (τ : Type*) where
  /-- A `submit` put the task in the queue, with `stop_` set or not. -/
  | enqueued (task : τ) (stopped : Bool)
  | dequeued (w : Fin n) (task : τ)
  /-- The call of the task returned. -/
  | finished (w : Fin n) (task : τ)
  /-- The `shutdown` that set `stop_` returned. -/
  | returned
  deriving DecidableEq, Repr

namespace PoolEvent
variable {n : ℕ} {τ : Type*}

def enqueuedTask : PoolEvent n τ → Option τ
  | .enqueued task _ => some task
  | _ => none

def openTask : PoolEvent n τ → Option τ
  | .enqueued task false => some task
  | _ => none

def dequeuedTask : PoolEvent n τ → Option τ
  | .dequeued _ task => some task
  | _ => none

def dequeuedBy (w : Fin n) : PoolEvent n τ → Option τ
  | .dequeued v task => if v = w then some task else none
  | _ => none

def finishedBy (w : Fin n) : PoolEvent n τ → Option τ
  | .finished v task => if v = w then some task else none
  | _ => none

/-- A task begins or ends its run. -/
def isRun : PoolEvent n τ → Bool
  | .dequeued _ _ | .finished _ _ => true
  | _ => false

end PoolEvent

/-- The task that a worker is running. -/
def PoolWorker.current {τ : Type*} : PoolWorker τ → Option τ
  | .running task => some task
  | _ => none

/-- What the step is logged as. -/
def ThreadPool.event {n : ℕ} {τ : Type*} (s : ThreadPool n τ) :
    PoolStep n τ → Option (PoolEvent n τ)
  | .submit task => some (.enqueued task s.stop)
  | .work w =>
    match s.workers w with
    | .taking => s.tasks.head?.map (.dequeued w)
    | .running task => some (.finished w task)
    | _ => none
  | .join => some .returned
  | _ => none

structure PoolHistory (n : ℕ) (τ : Type*) where
  pool : ThreadPool n τ := {}
  log : List (PoolEvent n τ) := []

namespace PoolHistory
variable {n : ℕ} {τ : Type*}

def next (s : PoolHistory n τ) (a : PoolStep n τ) : Option (PoolHistory n τ) :=
  (s.pool.next a).map fun t => ⟨t, s.log ++ (s.pool.event a).toList⟩

def system (n : ℕ) (τ : Type*) : LTS (PoolHistory n τ) (PoolStep n τ) := .ofNext {} next

/-- The tasks in the order of `submit`. -/
def enqueued (s : PoolHistory n τ) : List τ := s.log.filterMap PoolEvent.enqueuedTask

/-- Those whose `submit` came before `stop_` was set. -/
def enqueuedOpen (s : PoolHistory n τ) : List τ := s.log.filterMap PoolEvent.openTask

def dequeued (s : PoolHistory n τ) : List τ := s.log.filterMap PoolEvent.dequeuedTask

def dequeuedBy (s : PoolHistory n τ) (w : Fin n) : List τ :=
  s.log.filterMap (PoolEvent.dequeuedBy w)

/-- The tasks that worker `w` has run to their end. -/
def finishedBy (s : PoolHistory n τ) (w : Fin n) : List τ :=
  s.log.filterMap (PoolEvent.finishedBy w)

section Log
variable (s : PoolHistory n τ) (t : ThreadPool n τ) (e : Option (PoolEvent n τ)) (w : Fin n)

theorem filterMap_logged {β : Type*} (f : PoolEvent n τ → Option β) :
    (s.log ++ e.toList).filterMap f = s.log.filterMap f ++ (e.bind f).toList := by
  rw [List.filterMap_append]
  cases e with
  | none => rfl
  | some e => cases hf : f e <;> simp [hf]

theorem enqueued_log :
    enqueued ⟨t, s.log ++ e.toList⟩ = s.enqueued ++ (e.bind PoolEvent.enqueuedTask).toList :=
  filterMap_logged s e _

theorem enqueuedOpen_log :
    enqueuedOpen ⟨t, s.log ++ e.toList⟩ = s.enqueuedOpen ++ (e.bind PoolEvent.openTask).toList :=
  filterMap_logged s e _

theorem dequeued_log :
    dequeued ⟨t, s.log ++ e.toList⟩ = s.dequeued ++ (e.bind PoolEvent.dequeuedTask).toList :=
  filterMap_logged s e _

theorem dequeuedBy_log :
    dequeuedBy ⟨t, s.log ++ e.toList⟩ w =
      s.dequeuedBy w ++ (e.bind (PoolEvent.dequeuedBy w)).toList :=
  filterMap_logged s e _

theorem finishedBy_log :
    finishedBy ⟨t, s.log ++ e.toList⟩ w =
      s.finishedBy w ++ (e.bind (PoolEvent.finishedBy w)).toList :=
  filterMap_logged s e _

end Log

/-- No worker changes its task, exits or comes back. -/
def SameWork (s t : ThreadPool n τ) : Prop :=
  ∀ w, (t.workers w).current = (s.workers w).current ∧
    (t.workers w).isExited = (s.workers w).isExited

inductive PoolMoves (s : ThreadPool n τ) :
    ThreadPool n τ → Option (PoolEvent n τ) → Prop
  | enqueue (task : τ) :
      PoolMoves s { s with tasks := s.tasks ++ [task], toNotify := s.toNotify + 1 }
        (some (.enqueued task s.stop))
  | dequeue (w : Fin n) (task : τ) (rest : List τ) (hw : s.workers w = .taking)
      (htasks : s.tasks = task :: rest) :
      PoolMoves s { s.setWorker w (.running task) with owner := none, tasks := rest }
        (some (.dequeued w task))
  | finish (w : Fin n) (task : τ) (hw : s.workers w = .running task) :
      PoolMoves s (s.setWorker w .starting) (some (.finished w task))
  | exit (w : Fin n) (hw : s.workers w = .taking) (hstop : s.stop = true) (htasks : s.tasks = []) :
      PoolMoves s { s.setWorker w .exited with owner := none } none
  | other (t : ThreadPool n τ) (htasks : t.tasks = s.tasks)
      (hstop : t.stop = s.stop ∧ t.shutdown = s.shutdown) (hsame : SameWork s t) :
      PoolMoves s t none
  | storeStop (hstop : s.stop = false) :
      PoolMoves s { s with stop := true, shutdown := .stored } none
  | notifyAll (hstored : s.shutdown = .stored) (hsame : SameWork s s.wakeAll) :
      PoolMoves s { s.wakeAll with shutdown := .notified } none
  | join (hjoin : s.shutdown = .notified ∧ ∀ w, (s.workers w).isExited = true) :
      PoolMoves s { s with shutdown := .returned } (some .returned)

theorem workers_setWorker (s : ThreadPool n τ) (w : Fin n) (pc : PoolWorker τ) :
    (s.setWorker w pc).workers = Function.update s.workers w pc := rfl

theorem sameWork_setWorker {s : ThreadPool n τ} {w : Fin n} {pc : PoolWorker τ}
    (hcurrent : pc.current = (s.workers w).current)
    (hexited : pc.isExited = (s.workers w).isExited) : SameWork s (s.setWorker w pc) := by
  intro v
  by_cases hvw : v = w
  · subst hvw
    rw [workers_setWorker, Function.update_self]
    exact ⟨hcurrent, hexited⟩
  · rw [workers_setWorker, Function.update_of_ne hvw]
    exact ⟨rfl, rfl⟩

theorem sameWork_wakeAll (s : ThreadPool n τ) : SameWork s s.wakeAll := by
  intro w
  simp only [ThreadPool.wakeAll]
  split_ifs with hw
  · rw [PoolWorker.isAsleep_iff] at hw
    rw [hw]
    exact ⟨rfl, rfl⟩
  · exact ⟨rfl, rfl⟩

/-- A worker that goes on to anything but its exit makes no worker exited. -/
theorem exited_of_setWorker {s : ThreadPool n τ} {w v : Fin n} {pc : PoolWorker τ}
    (hpc : pc.isExited = false) (h : ((s.setWorker w pc).workers v).isExited = true) :
    (s.workers v).isExited = true := by
  by_cases hvw : v = w
  · subst hvw
    rw [workers_setWorker, Function.update_self, hpc] at h
    contradiction
  · rwa [workers_setWorker, Function.update_of_ne hvw] at h

theorem wake_same {s t : ThreadPool n τ} {w : Fin n} (h : s.wake w = some t) :
    t.tasks = s.tasks ∧ (t.stop = s.stop ∧ t.shutdown = s.shutdown) ∧ SameWork s t := by
  unfold ThreadPool.wake at h
  split_ifs at h with hw
  obtain rfl := Option.some.inj h
  rw [PoolWorker.isAsleep_iff] at hw
  exact ⟨rfl, ⟨rfl, rfl⟩, sameWork_setWorker (by rw [hw]; rfl) (by rw [hw]; rfl)⟩

theorem work_moves {s t : ThreadPool n τ} {w : Fin n} (h : s.work w = some t) :
    PoolMoves s t (s.event (.work w)) := by
  unfold ThreadPool.work at h
  cases hpc : s.workers w <;> simp only [hpc] at h <;> simp only [ThreadPool.event, hpc]
  case starting | woken =>
    split_ifs at h
    obtain rfl := Option.some.inj h
    exact .other _ rfl ⟨rfl, rfl⟩ (sameWork_setWorker (by rw [hpc]; rfl) (by rw [hpc]; rfl))
  case checking =>
    split_ifs at h
    · obtain rfl := Option.some.inj h
      exact .other _ rfl ⟨rfl, rfl⟩ (sameWork_setWorker (by rw [hpc]; rfl) (by rw [hpc]; rfl))
    · obtain rfl := Option.some.inj h
      exact .other _ rfl ⟨rfl, rfl⟩ (sameWork_setWorker (by rw [hpc]; rfl) (by rw [hpc]; rfl))
  case parking =>
    obtain rfl := Option.some.inj h
    exact .other _ rfl ⟨rfl, rfl⟩ (sameWork_setWorker (by rw [hpc]; rfl) (by rw [hpc]; rfl))
  case asleep | exited => contradiction
  case taking =>
    split_ifs at h with hexit
    · obtain rfl := Option.some.inj h
      rw [Bool.and_eq_true, List.isEmpty_iff] at hexit
      rw [hexit.2]
      exact .exit w hpc hexit.1 hexit.2
    · split at h
      case h_1 => contradiction
      case h_2 task rest htasks =>
        obtain rfl := Option.some.inj h
        rw [htasks]
        exact .dequeue w task rest hpc htasks
  case running task =>
    obtain rfl := Option.some.inj h
    exact .finish w task hpc

theorem next_poolMoves {s t : ThreadPool n τ} {a : PoolStep n τ} (h : s.next a = some t) :
    PoolMoves s t (s.event a) := by
  cases a with
  | submit task =>
    simp only [ThreadPool.next] at h
    split_ifs at h
    obtain rfl := Option.some.inj h
    exact .enqueue task
  | notifyOne woken =>
    simp only [ThreadPool.next] at h
    split at h
    case h_1 => contradiction
    case h_2 k _ =>
      cases woken with
      | none =>
        simp only [ThreadPool.wakeOne] at h
        split_ifs at h
        obtain rfl := Option.some.inj h
        exact .other _ rfl ⟨rfl, rfl⟩ fun _ => ⟨rfl, rfl⟩
      | some w =>
        obtain ⟨htasks, hstop, hsame⟩ := wake_same h
        exact .other _ htasks hstop hsame
  | work w => exact work_moves h
  | spuriousWake w =>
    obtain ⟨htasks, hstop, hsame⟩ := wake_same h
    exact .other _ htasks hstop hsame
  | storeStop =>
    simp only [ThreadPool.next] at h
    split_ifs at h with hstop
    obtain rfl := Option.some.inj h
    exact .storeStop (Bool.eq_false_iff.mpr hstop)
  | notifyAll =>
    obtain ⟨hstored, rfl⟩ := ThreadPool.next_notifyAll h
    exact .notifyAll hstored (sameWork_wakeAll s)
  | join =>
    simp only [ThreadPool.next] at h
    split_ifs at h with hjoin
    obtain rfl := Option.some.inj h
    exact .join hjoin

/-- Tasks leave the queue in the order in which they came, workers finish what they take, and a
worker exits only when it has found the queue empty with `stop_` set. -/
structure Recorded (s : PoolHistory n τ) : Prop where
  fifo : s.dequeued ++ s.pool.tasks = s.enqueued
  runs : ∀ w, s.dequeuedBy w = s.finishedBy w ++ (s.pool.workers w).current.toList
  before : s.enqueuedOpen <+: s.enqueued
  isOpen : s.pool.stop = false → s.enqueuedOpen = s.enqueued
  drained : (∃ w, (s.pool.workers w).isExited = true) →
    s.pool.stop = true ∧ s.enqueuedOpen <+: s.dequeued

/-- A step that logs nothing about tasks. -/
theorem Recorded.of_same {s : PoolHistory n τ} (h : s.Recorded) {t : ThreadPool n τ}
    {e : Option (PoolEvent n τ)} (he : e = none ∨ e = some .returned)
    (htasks : t.tasks = s.pool.tasks) (hstop : s.pool.stop = true → t.stop = true)
    (hsame : SameWork s.pool t) : Recorded ⟨t, s.log ++ e.toList⟩ := by
  have hnone : e.bind PoolEvent.enqueuedTask = none ∧ e.bind PoolEvent.openTask = none ∧
      e.bind PoolEvent.dequeuedTask = none ∧ (∀ w, e.bind (PoolEvent.dequeuedBy w) = none) ∧
      ∀ w, e.bind (PoolEvent.finishedBy w) = none := by
    rcases he with rfl | rfl <;> exact ⟨rfl, rfl, rfl, fun _ => rfl, fun _ => rfl⟩
  obtain ⟨henqueued, hopen, hdequeued, hby, hfinished⟩ := hnone
  constructor
  · rw [dequeued_log, enqueued_log, henqueued, hdequeued, Option.toList_none, List.append_nil,
      List.append_nil, htasks]
    exact h.fifo
  · intro w
    rw [dequeuedBy_log, finishedBy_log, hby, hfinished, Option.toList_none, List.append_nil,
      List.append_nil, (hsame w).1]
    exact h.runs w
  · rw [enqueuedOpen_log, enqueued_log, henqueued, hopen, Option.toList_none, List.append_nil,
      List.append_nil]
    exact h.before
  · intro hrunning
    rw [enqueuedOpen_log, enqueued_log, henqueued, hopen, Option.toList_none, List.append_nil,
      List.append_nil]
    apply h.isOpen
    rw [Bool.eq_false_iff]
    intro hbefore
    exact absurd ((hstop hbefore).symm.trans hrunning) (by simp)
  · rintro ⟨w, hw⟩
    rw [(hsame w).2] at hw
    obtain ⟨hstopped, hpre⟩ := h.drained ⟨w, hw⟩
    rw [enqueuedOpen_log, dequeued_log, hopen, hdequeued, Option.toList_none, List.append_nil,
      List.append_nil]
    exact ⟨hstop hstopped, hpre⟩

/-- After `stop_` is set, no task counts as enqueued before it. -/
theorem Recorded.enqueue {s : PoolHistory n τ} (h : s.Recorded) (task : τ) :
    Recorded ⟨{ s.pool with tasks := s.pool.tasks ++ [task], toNotify := s.pool.toNotify + 1 },
      s.log ++ (some (PoolEvent.enqueued task s.pool.stop)).toList⟩ := by
  have hopen : PoolEvent.openTask (PoolEvent.enqueued task s.pool.stop : PoolEvent n τ) =
      if s.pool.stop then none else some task := by
    cases s.pool.stop <;> rfl
  constructor
  · rw [dequeued_log, enqueued_log, ← h.fifo]
    simp [PoolEvent.dequeuedTask, PoolEvent.enqueuedTask]
  · intro w
    rw [dequeuedBy_log, finishedBy_log, h.runs w]
    simp [PoolEvent.dequeuedBy, PoolEvent.finishedBy]
  · rw [enqueuedOpen_log, enqueued_log]
    simp only [Option.bind_some, hopen, PoolEvent.enqueuedTask, Option.toList_some]
    split_ifs with hstop
    · simpa using h.before.trans (List.prefix_append _ _)
    · rw [h.isOpen (Bool.eq_false_iff.mpr hstop)]
      exact List.prefix_rfl
  · intro hstop
    rw [enqueuedOpen_log, enqueued_log, h.isOpen hstop]
    simp only [Option.bind_some, hopen, PoolEvent.enqueuedTask]
    rw [if_neg (by simpa using hstop)]
  · intro hexited
    obtain ⟨hstop, hpre⟩ := h.drained hexited
    refine ⟨hstop, ?_⟩
    rw [enqueuedOpen_log, dequeued_log]
    rw [Option.bind_some, hopen, if_pos hstop]
    simpa [PoolEvent.dequeuedTask] using hpre

/-- A worker takes a task or finishes it: it is recorded for that worker, and what it has taken is
what it has finished with what it runs. -/
theorem Recorded.of_worker {s : PoolHistory n τ} (h : s.Recorded) {w : Fin n}
    {pc : PoolWorker τ} (hpc : pc.isExited = false) {t : ThreadPool n τ} {e : PoolEvent n τ}
    (hworkers : t.workers = (s.pool.setWorker w pc).workers) (hstop : t.stop = s.pool.stop)
    (hnew : e.enqueuedTask = none ∧ e.openTask = none)
    (htasks : e.dequeuedTask.toList ++ t.tasks = s.pool.tasks)
    (hruns : (s.pool.workers w).current.toList ++ (e.dequeuedBy w).toList =
      (e.finishedBy w).toList ++ pc.current.toList)
    (hothers : ∀ v, v ≠ w → e.dequeuedBy v = none ∧ e.finishedBy v = none) :
    Recorded ⟨t, s.log ++ (some e).toList⟩ := by
  constructor
  · rw [dequeued_log, enqueued_log, Option.bind_some, Option.bind_some, hnew.1, Option.toList_none,
      List.append_nil, List.append_assoc, htasks]
    exact h.fifo
  · intro v
    rw [dequeuedBy_log, finishedBy_log, h.runs v, hworkers, Option.bind_some, Option.bind_some]
    by_cases hvw : v = w
    · subst hvw
      rw [workers_setWorker, Function.update_self, List.append_assoc, hruns, List.append_assoc]
    · rw [(hothers v hvw).1, (hothers v hvw).2, workers_setWorker, Function.update_of_ne hvw,
        Option.toList_none, List.append_nil, List.append_nil]
  · rw [enqueuedOpen_log, enqueued_log, Option.bind_some, Option.bind_some, hnew.1, hnew.2,
      Option.toList_none, List.append_nil, List.append_nil]
    exact h.before
  · intro hrunning
    rw [enqueuedOpen_log, enqueued_log, Option.bind_some, Option.bind_some, hnew.1, hnew.2,
      h.isOpen (hstop.symm.trans hrunning)]
  · rintro ⟨v, hv⟩
    rw [hworkers] at hv
    obtain ⟨hstopped, hpre⟩ := h.drained ⟨v, exited_of_setWorker hpc hv⟩
    refine ⟨hstop.trans hstopped, ?_⟩
    rw [enqueuedOpen_log, dequeued_log, Option.bind_some, hnew.2, Option.toList_none,
      List.append_nil]
    exact hpre.trans (List.prefix_append _ _)

theorem Recorded.dequeue {s : PoolHistory n τ} (h : s.Recorded) {w : Fin n} {task : τ}
    {rest : List τ} (hw : s.pool.workers w = .taking) (htasks : s.pool.tasks = task :: rest) :
    Recorded ⟨{ s.pool.setWorker w (.running task) with owner := none, tasks := rest },
      s.log ++ (some (PoolEvent.dequeued w task)).toList⟩ := by
  have hpc : (PoolWorker.running task).isExited = false := rfl
  refine h.of_worker hpc rfl rfl ⟨rfl, rfl⟩ htasks.symm ?_ ?_
  · simp [hw, PoolEvent.dequeuedBy, PoolEvent.finishedBy, PoolWorker.current]
  · intro v hv
    exact ⟨if_neg hv.symm, rfl⟩

theorem Recorded.finish {s : PoolHistory n τ} (h : s.Recorded) {w : Fin n} {task : τ}
    (hw : s.pool.workers w = .running task) :
    Recorded ⟨s.pool.setWorker w .starting,
      s.log ++ (some (PoolEvent.finished w task)).toList⟩ := by
  have hpc : (PoolWorker.starting : PoolWorker τ).isExited = false := rfl
  refine h.of_worker hpc rfl rfl ⟨rfl, rfl⟩ rfl ?_ ?_
  · simp [hw, PoolEvent.dequeuedBy, PoolEvent.finishedBy, PoolWorker.current]
  · intro v hv
    exact ⟨rfl, if_neg hv.symm⟩

/-- The queue is empty at an exit, so all that was enqueued has been taken. -/
theorem Recorded.exit {s : PoolHistory n τ} (h : s.Recorded) {w : Fin n}
    (hw : s.pool.workers w = .taking) (hstop : s.pool.stop = true) (htasks : s.pool.tasks = []) :
    Recorded ⟨{ s.pool.setWorker w .exited with owner := none },
      s.log ++ (none : Option (PoolEvent n τ)).toList⟩ := by
  have hall : s.dequeued = s.enqueued := by
    rw [← h.fifo, htasks, List.append_nil]
  rw [Option.toList_none, List.append_nil]
  refine ⟨h.fifo, ?_, h.before, h.isOpen, fun _ => ⟨hstop, ?_⟩⟩
  · intro v
    have hruns := h.runs v
    have hcurrent : ((s.pool.setWorker w .exited).workers v).current =
        (s.pool.workers v).current := by
      by_cases hvw : v = w
      · subst hvw
        simp [ThreadPool.setWorker, hw, PoolWorker.current]
      · simp [ThreadPool.setWorker, hvw]
    rw [← hcurrent] at hruns
    exact hruns
  · show s.enqueuedOpen <+: s.dequeued
    rw [hall]
    exact h.before

theorem Recorded.step {s t : PoolHistory n τ} {a : PoolStep n τ} (h : s.Recorded)
    (hstep : s.next a = some t) : t.Recorded := by
  obtain ⟨pool, hnext, rfl⟩ := Option.map_eq_some_iff.mp hstep
  generalize he : s.pool.event a = e
  have hmoves := next_poolMoves hnext
  rw [he] at hmoves
  cases hmoves with
  | enqueue task => exact h.enqueue task
  | dequeue w task rest hw htasks => exact h.dequeue hw htasks
  | finish w task hw => exact h.finish hw
  | exit w hw hstop htasks => exact h.exit hw hstop htasks
  | other _ htasks hstop hsame =>
    exact h.of_same (.inl rfl) htasks (fun hs => hstop.1.trans hs) hsame
  | storeStop => exact h.of_same (.inl rfl) rfl (fun _ => rfl) fun _ => ⟨rfl, rfl⟩
  | notifyAll hstored hsame => exact h.of_same (.inl rfl) rfl id hsame
  | join hjoin => exact h.of_same (.inr rfl) rfl id fun _ => ⟨rfl, rfl⟩

theorem reachable_recorded {s : PoolHistory n τ} (hs : (system n τ).Reachable s) :
    s.Recorded := by
  apply hs.invariant
  · exact ⟨rfl, fun _ => rfl, List.prefix_rfl, fun _ => rfl, fun ⟨_, hw⟩ => by contradiction⟩
  · intro s a t _ ih hstep
    exact ih.step hstep

/-- Once `shutdown` has returned every worker has exited, and nothing has run since. -/
structure Joined (s : PoolHistory n τ) : Prop where
  exited : s.pool.shutdown = .returned → ∀ w, (s.pool.workers w).isExited = true
  returned : .returned ∈ s.log → s.pool.shutdown = .returned
  quiet : s.log.Pairwise fun e f => e = .returned → f.isRun = false

theorem pool_reachable {s : PoolHistory n τ} (hs : (system n τ).Reachable s) :
    (ThreadPool.system n τ).Reachable s.pool := by
  apply hs.invariant (I := fun s => (ThreadPool.system n τ).Reachable s.pool)
  · exact LTS.Reachable.start
  · intro s a t _ ih hstep
    obtain ⟨pool, hnext, rfl⟩ := Option.map_eq_some_iff.mp hstep
    exact ih.step hnext

/-- A worker that is still at work shows that `shutdown` has not returned. -/
theorem Joined.not_returned {s : PoolHistory n τ} (h : s.Joined) {w : Fin n}
    (hw : (s.pool.workers w).isExited = false) :
    s.pool.shutdown ≠ .returned ∧ .returned ∉ s.log := by
  have hshutdown : s.pool.shutdown ≠ .returned := by
    intro hreturned
    exact absurd (hw.symm.trans (h.exited hreturned w)) Bool.false_ne_true
  exact ⟨hshutdown, fun hlog => hshutdown (h.returned hlog)⟩

theorem Joined.quiet_log {s : PoolHistory n τ} (h : s.Joined) (e : Option (PoolEvent n τ))
    (he : ∀ f ∈ e, .returned ∈ s.log → f.isRun = false) :
    (s.log ++ e.toList).Pairwise fun e f => e = .returned → f.isRun = false := by
  cases e with
  | none => simpa using h.quiet
  | some f =>
    rw [List.pairwise_append]
    refine ⟨h.quiet, by simp, ?_⟩
    rintro d hd g hg rfl
    have hgf : g = f := by simpa using hg
    subst hgf
    exact he g rfl hd

/-- A step of a worker that has not exited. -/
theorem Joined.work {s : PoolHistory n τ} (h : s.Joined) {w : Fin n}
    (hw : (s.pool.workers w).isExited = false) {t : ThreadPool n τ}
    (hshutdown : t.shutdown = s.pool.shutdown) {e : Option (PoolEvent n τ)}
    (he : .returned ∉ e.toList) : Joined ⟨t, s.log ++ e.toList⟩ := by
  obtain ⟨hnot, hlog⟩ := h.not_returned hw
  refine ⟨?_, ?_, h.quiet_log e fun _ _ hin => absurd hin hlog⟩
  · intro hreturned
    exact absurd (hshutdown.symm.trans hreturned) hnot
  · intro hin
    rcases List.mem_append.mp hin with hin | hin
    · exact absurd hin hlog
    · exact absurd hin he

theorem Joined.step {s t : PoolHistory n τ} {a : PoolStep n τ} (h : s.Joined)
    (hs : (system n τ).Reachable s) (hstep : s.next a = some t) : t.Joined := by
  obtain ⟨pool, hnext, rfl⟩ := Option.map_eq_some_iff.mp hstep
  generalize he : s.pool.event a = e
  have hmoves := next_poolMoves hnext
  rw [he] at hmoves
  have hstop := ThreadPool.stop_of_shutdown (pool_reachable hs)
  cases hmoves with
  | dequeue w task rest hw _ =>
    apply h.work (w := w)
    · rw [hw]
      rfl
    · rfl
    · simp
  | finish w task hw =>
    apply h.work (w := w)
    · rw [hw]
      rfl
    · rfl
    · simp
  | exit w hw _ _ =>
    apply h.work (w := w)
    · rw [hw]
      rfl
    · rfl
    · simp
  | enqueue task =>
    refine ⟨h.exited, ?_, h.quiet_log _ (by simp [PoolEvent.isRun])⟩
    intro hin
    exact h.returned (by simpa using hin)
  | other _ _ hsame hwork =>
    refine ⟨?_, ?_, h.quiet_log none (by simp)⟩
    · intro hreturned w
      rw [(hwork w).2]
      exact h.exited (hsame.2.symm.trans hreturned) w
    · intro hin
      exact hsame.2.trans (h.returned (by simpa using hin))
  | storeStop hrunning =>
    have hnever : .returned ∉ s.log := by
      intro hin
      have hset := hstop (by rw [h.returned hin]; simp)
      exact absurd (hrunning.symm.trans hset) Bool.false_ne_true
    exact ⟨fun hreturned => by contradiction, fun hin => absurd (by simpa using hin) hnever,
      h.quiet_log none (by simp)⟩
  | notifyAll hstored _ =>
    have hnever : .returned ∉ s.log := by
      intro hin
      have hreturned := h.returned hin
      rw [hstored] at hreturned
      contradiction
    exact ⟨fun hreturned => by contradiction, fun hin => absurd (by simpa using hin) hnever,
      h.quiet_log none (by simp)⟩
  | join hjoin =>
    exact ⟨fun _ => hjoin.2, fun _ => rfl, h.quiet_log _ (by simp [PoolEvent.isRun])⟩

theorem reachable_joined {s : PoolHistory n τ} (hs : (system n τ).Reachable s) : s.Joined := by
  apply hs.invariant
  · exact ⟨fun h => by contradiction, fun h => by contradiction, List.Pairwise.nil⟩
  · intro s a t hs ih hstep
    exact ih.step hs hstep

/-- When no value is taken out of a list twice, it comes from one entry. -/
theorem eq_of_nodup_filterMap {α β : Type*} {f : α → Option β} {as : List α}
    (h : (as.filterMap f).Nodup) {a b : α} {x : β} (ha : a ∈ as) (hb : b ∈ as)
    (hfa : f a = some x) (hfb : f b = some x) : a = b := by
  induction as with
  | nil => contradiction
  | cons c as ih =>
    have hmem (d : α) (hd : d ∈ as) (hfd : f d = some x) : x ∈ as.filterMap f :=
      List.mem_filterMap.mpr ⟨d, hd, hfd⟩
    have hfirst (hfc : f c = some x) : x ∉ as.filterMap f := by
      rw [List.filterMap_cons_some hfc, List.nodup_cons] at h
      exact h.1
    have htail : (as.filterMap f).Nodup := h.sublist ((List.sublist_cons_self c as).filterMap f)
    rcases List.mem_cons.mp ha with rfl | ha' <;> rcases List.mem_cons.mp hb with rfl | hb'
    · rfl
    · exact absurd (hmem b hb' hfb) (hfirst hfa)
    · exact absurd (hmem a ha' hfa) (hfirst hfb)
    · exact ih htail ha' hb'

theorem mem_dequeuedBy_iff {s : PoolHistory n τ} {w : Fin n} {task : τ} :
    task ∈ s.dequeuedBy w ↔ .dequeued w task ∈ s.log := by
  constructor
  · intro h
    obtain ⟨e, he, hby⟩ := List.mem_filterMap.mp h
    cases e with
    | dequeued v other =>
      simp only [PoolEvent.dequeuedBy] at hby
      split_ifs at hby with hvw
      rw [Option.some.injEq] at hby
      rwa [← hvw, ← hby]
    | enqueued | finished | returned => contradiction
  · intro h
    exact List.mem_filterMap.mpr ⟨_, h, if_pos rfl⟩

/-- Tasks are taken in the order in which they were enqueued, each by one worker. When `shutdown`
has returned, every task enqueued before `stop_` was set has been taken and every task taken has
been run to its end by its worker; and nothing runs from then on. -/
theorem shutdown_drains (hn : 1 ≤ n) {s : PoolHistory n τ} (hs : (system n τ).Reachable s) :
    s.dequeued <+: s.enqueued ∧
      ((∀ w, s.finishedBy w <+: s.dequeuedBy w) ∧
        (s.enqueued.Nodup → ∀ v w task, task ∈ s.dequeuedBy v → task ∈ s.dequeuedBy w → v = w)) ∧
      (s.pool.shutdown = .returned →
        s.enqueuedOpen <+: s.dequeued ∧ ∀ w, s.finishedBy w = s.dequeuedBy w) ∧
      s.log.Pairwise fun e f => e = .returned → f.isRun = false := by
  have hrecorded := reachable_recorded hs
  have hjoined := reachable_joined hs
  have hpre : s.dequeued <+: s.enqueued := by
    rw [← hrecorded.fifo]
    exact List.prefix_append _ _
  refine ⟨hpre, ⟨?_, ?_⟩, ?_, hjoined.quiet⟩
  · intro w
    rw [hrecorded.runs w]
    exact List.prefix_append _ _
  · intro hnodup v w task hv hw
    have htaken : s.dequeued.Nodup := hnodup.sublist hpre.sublist
    have heq := eq_of_nodup_filterMap htaken (mem_dequeuedBy_iff.mp hv) (mem_dequeuedBy_iff.mp hw)
      rfl rfl
    rw [PoolEvent.dequeued.injEq] at heq
    exact heq.1
  · intro hreturned
    have hexited := hjoined.exited hreturned
    refine ⟨(hrecorded.drained ⟨⟨0, hn⟩, hexited _⟩).2, fun w => ?_⟩
    have hnone : (s.pool.workers w).current = none := by
      have hw := hexited w
      cases hpc : s.pool.workers w <;> rw [hpc] at hw <;> first | rfl | contradiction
    rw [hrecorded.runs w, hnone, Option.toList_none, List.append_nil]

/-- A task is submitted, `shutdown` begins, and the worker runs the task before it exits. -/
theorem shutdown_drains_one :
    ∃ s, (system 1 ℕ).Reachable s ∧
      (s.pool.shutdown = .returned ∧ s.enqueuedOpen = [5] ∧ s.finishedBy 0 = [5]) ∧
      (s.enqueuedOpen <+: s.dequeued ∧ ∀ w, s.finishedBy w = s.dequeuedBy w) := by
  have hrun : ∃ s, (system 1 ℕ).Reachable s ∧
      s.pool.shutdown = .returned ∧ s.enqueuedOpen = [5] ∧ s.finishedBy 0 = [5] :=
    exists_reachable_of_exec [.submit 5, .storeStop, .notifyAll, .work 0, .work 0, .work 0,
      .work 0, .work 0, .work 0, .work 0, .join] (by decide)
  obtain ⟨s, hs, hstate⟩ := hrun
  exact ⟨s, hs, hstate, (shutdown_drains (by decide) hs).2.2.1 hstate.1⟩

end PoolHistory
end ForkliftSafety
