import Mathlib.Data.Fin.Basic
import Mathlib.Data.Fintype.Basic
import Mathlib.Logic.Function.Basic
import ForkliftSafety.Library.Transition

/-! `ThreadPool`: its workers, `submit` and `shutdown` as steps over one mutex and one condition
variable. -/
namespace ForkliftSafety
open Transition

/-- Where a worker stands in `worker_loop`. It holds `mu_` in `checking`, `parking` and
`taking`. -/
inductive PoolWorker (τ : Type*) where
  | starting
  | checking
  /-- The wait predicate was false, and `wait` is about to release `mu_` and sleep. -/
  | parking
  | asleep
  /-- Notified, or woken for no reason, and about to take `mu_` again. -/
  | woken
  /-- `wait` has returned. -/
  | taking
  | running (task : τ)
  | exited
  deriving DecidableEq, Repr

def PoolWorker.isAsleep {τ : Type*} : PoolWorker τ → Bool
  | .asleep => true
  | _ => false

def PoolWorker.isExited {τ : Type*} : PoolWorker τ → Bool
  | .exited => true
  | _ => false

theorem PoolWorker.isAsleep_iff {τ : Type*} (pc : PoolWorker τ) :
    pc.isAsleep = true ↔ pc = .asleep := by
  cases pc <;> simp [isAsleep]

/-- Where the call of `shutdown` that changed `stop_` stands; any other call returns at once. -/
inductive ShutdownCall where
  | notCalled | stored | notified | returned
  deriving DecidableEq, Repr

structure ThreadPool (n : ℕ) (τ : Type*) where
  workers : Fin n → PoolWorker τ := fun _ => .starting
  tasks : List τ := []
  /-- The worker that holds `mu_`. A `submit` takes and releases it within one step. -/
  owner : Option (Fin n) := none
  stop : Bool := false
  shutdown : ShutdownCall := .notCalled
  /-- Calls of `submit` that have released `mu_` and not yet called `notify_one`. -/
  toNotify : ℕ := 0

inductive PoolStep (n : ℕ) (τ : Type*) where
  | submit (task : τ)
  | notifyOne (woken : Option (Fin n))
  | work (w : Fin n)
  | spuriousWake (w : Fin n)
  | storeStop
  | notifyAll
  | join

namespace ThreadPool
variable {n : ℕ} {τ : Type*}

def setWorker (s : ThreadPool n τ) (w : Fin n) (pc : PoolWorker τ) : ThreadPool n τ :=
  { s with workers := Function.update s.workers w pc }

/-- The next step of `worker_loop`; `none` while the worker is blocked. -/
def work (s : ThreadPool n τ) (w : Fin n) : Option (ThreadPool n τ) :=
  match s.workers w with
  | .starting | .woken =>
    if s.owner.isNone then some { s.setWorker w .checking with owner := some w } else none
  | .checking =>
    if s.stop || !s.tasks.isEmpty then some (s.setWorker w .taking)
    else some (s.setWorker w .parking)
  | .parking => some { s.setWorker w .asleep with owner := none }
  | .asleep => none
  | .taking =>
    if s.stop && s.tasks.isEmpty then some { s.setWorker w .exited with owner := none }
    else
      match s.tasks with
      | [] => none
      | task :: rest => some { s.setWorker w (.running task) with owner := none, tasks := rest }
  | .running _ => some (s.setWorker w .starting)
  | .exited => none

def wakeAll (s : ThreadPool n τ) : ThreadPool n τ :=
  { s with workers := fun w => if (s.workers w).isAsleep then .woken else s.workers w }

def wake (s : ThreadPool n τ) (w : Fin n) : Option (ThreadPool n τ) :=
  if (s.workers w).isAsleep then some (s.setWorker w .woken) else none

/-- `notify_one` wakes some sleeper, and does nothing only when there is none. -/
def wakeOne (s : ThreadPool n τ) : Option (Fin n) → Option (ThreadPool n τ)
  | some w => s.wake w
  | none => if ∀ w, (s.workers w).isAsleep = false then some s else none

def next (s : ThreadPool n τ) : PoolStep n τ → Option (ThreadPool n τ)
  | .submit task =>
    if s.owner.isNone then
      some { s with tasks := s.tasks ++ [task], toNotify := s.toNotify + 1 }
    else none
  | .notifyOne woken =>
    match s.toNotify with
    | 0 => none
    | k + 1 => ({ s with toNotify := k } : ThreadPool n τ).wakeOne woken
  | .work w => s.work w
  | .spuriousWake w => s.wake w
  | .storeStop =>
    if s.stop then none else some { s with stop := true, shutdown := .stored }
  | .notifyAll =>
    if s.shutdown = .stored then some { s.wakeAll with shutdown := .notified } else none
  | .join =>
    if s.shutdown = .notified ∧ ∀ w, (s.workers w).isExited then
      some { s with shutdown := .returned }
    else none

def system (n : ℕ) (τ : Type*) : LTS (ThreadPool n τ) (PoolStep n τ) := .ofNext {} next

/-- One worker moves: it only gets to `parking` while `stop_` is false, and to sleep from there. -/
def MovesOne (s t : ThreadPool n τ) : Prop :=
  (t.stop = s.stop ∧ t.shutdown = s.shutdown) ∧
    ∃ w pc, t.workers = Function.update s.workers w pc ∧
      (pc = .parking → s.stop = false) ∧ (pc = .asleep → s.workers w = .parking)

theorem work_movesOne {s t : ThreadPool n τ} {w : Fin n} (h : s.work w = some t) :
    MovesOne s t := by
  unfold work at h
  cases hpc : s.workers w <;> simp only [hpc] at h
  case starting | woken =>
    split_ifs at h
    rw [Option.some.injEq] at h
    subst h
    exact ⟨⟨rfl, rfl⟩, w, .checking, rfl, by simp, by simp⟩
  case checking =>
    split_ifs at h with hpred <;> rw [Option.some.injEq] at h <;> subst h
    · exact ⟨⟨rfl, rfl⟩, w, .taking, rfl, by simp, by simp⟩
    · rw [Bool.or_eq_true, not_or, Bool.not_eq_true] at hpred
      exact ⟨⟨rfl, rfl⟩, w, .parking, rfl, fun _ => hpred.1, by simp⟩
  case parking =>
    rw [Option.some.injEq] at h
    subst h
    exact ⟨⟨rfl, rfl⟩, w, .asleep, rfl, by simp, fun _ => hpc⟩
  case asleep | exited => contradiction
  case taking =>
    split_ifs at h
    · rw [Option.some.injEq] at h
      subst h
      exact ⟨⟨rfl, rfl⟩, w, .exited, rfl, by simp, by simp⟩
    · cases htasks : s.tasks with
      | nil => simp [htasks] at h
      | cons task rest =>
        simp only [htasks, Option.some.injEq] at h
        subst h
        exact ⟨⟨rfl, rfl⟩, w, .running task, rfl, by simp, by simp⟩
  case running task =>
    rw [Option.some.injEq] at h
    subst h
    exact ⟨⟨rfl, rfl⟩, w, .starting, rfl, by simp, by simp⟩

theorem wake_movesOne {s t : ThreadPool n τ} {w : Fin n} (h : s.wake w = some t) :
    MovesOne s t := by
  unfold wake at h
  split_ifs at h
  rw [Option.some.injEq] at h
  subst h
  exact ⟨⟨rfl, rfl⟩, w, .woken, rfl, by simp, by simp⟩

theorem next_notifyAll {s t : ThreadPool n τ} (h : s.next .notifyAll = some t) :
    s.shutdown = .stored ∧ t = { s.wakeAll with shutdown := .notified } := by
  simp only [next] at h
  split_ifs at h with hstored
  rw [Option.some.injEq] at h
  exact ⟨hstored, h.symm⟩

/-- Every step moves one worker, leaves all workers and the shutdown alone, or is a step of the
shutdown. -/
theorem next_cases {s t : ThreadPool n τ} {a : PoolStep n τ} (h : s.next a = some t) :
    MovesOne s t ∨
    ((t.stop = s.stop ∧ t.shutdown = s.shutdown) ∧ t.workers = s.workers) ∨
    (a = .storeStop ∧ t = { s with stop := true, shutdown := .stored }) ∨
    (a = .notifyAll ∧ s.shutdown = .stored ∧ t = { s.wakeAll with shutdown := .notified }) ∨
    (a = .join ∧ s.shutdown = .notified ∧ t = { s with shutdown := .returned }) := by
  cases a with
  | submit task =>
    simp only [next] at h
    split_ifs at h
    rw [Option.some.injEq] at h
    subst h
    exact .inr (.inl ⟨⟨rfl, rfl⟩, rfl⟩)
  | notifyOne woken =>
    simp only [next] at h
    cases hk : s.toNotify with
    | zero => simp [hk] at h
    | succ k =>
      simp only [hk] at h
      cases woken with
      | none =>
        simp only [wakeOne] at h
        split_ifs at h
        rw [Option.some.injEq] at h
        subst h
        exact .inr (.inl ⟨⟨rfl, rfl⟩, rfl⟩)
      | some w => exact .inl (wake_movesOne (s := { s with toNotify := k }) h)
  | work w => exact .inl (work_movesOne h)
  | spuriousWake w => exact .inl (wake_movesOne h)
  | storeStop =>
    simp only [next] at h
    split_ifs at h
    rw [Option.some.injEq] at h
    exact .inr (.inr (.inl ⟨rfl, h.symm⟩))
  | notifyAll => exact .inr (.inr (.inr (.inl ⟨rfl, next_notifyAll h⟩)))
  | join =>
    simp only [next] at h
    split_ifs at h with hjoin
    rw [Option.some.injEq] at h
    exact .inr (.inr (.inr (.inr ⟨rfl, hjoin.1, h.symm⟩)))

/-- Only `shutdown` sets `stop_`. -/
theorem next_keeps_stop {s t : ThreadPool n τ} {a : PoolStep n τ} (ha : a ≠ .storeStop)
    (h : s.next a = some t) : t.stop = s.stop := by
  rcases next_cases h with ⟨⟨hstop, _⟩, _⟩ | ⟨⟨hstop, _⟩, _⟩ | ⟨rfl, _⟩ | ⟨_, _, rfl⟩ | ⟨_, _, rfl⟩
  · exact hstop
  · exact hstop
  · contradiction
  · rfl
  · rfl

/-- Every worker has left `worker_loop`. -/
def Exited (s : ThreadPool n τ) : Prop := ∀ w, s.workers w = .exited

theorem Exited.work {s : ThreadPool n τ} (h : s.Exited) (w : Fin n) : s.next (.work w) = none := by
  simp only [next, ThreadPool.work, h w]

theorem Exited.wake {s : ThreadPool n τ} (h : s.Exited) (w : Fin n) :
    s.next (.spuriousWake w) = none := by
  simp [next, ThreadPool.wake, h w, PoolWorker.isAsleep]

theorem exited_of_join {s t : ThreadPool n τ} (h : s.next .join = some t) : t.Exited := by
  simp only [next] at h
  split_ifs at h with hjoin
  obtain rfl := Option.some.inj h
  intro w
  have hw := hjoin.2 w
  cases hpc : s.workers w <;> simp only [hpc, PoolWorker.isExited, reduceCtorEq] at hw
  rfl

/-- `shutdown` is past its `notify_all`. -/
def AfterNotifyAll (s : ThreadPool n τ) : Prop := s.shutdown = .notified ∨ s.shutdown = .returned

instance (s : ThreadPool n τ) : Decidable s.AfterNotifyAll :=
  inferInstanceAs (Decidable (_ ∨ _))

/-- Some worker sleeps after `notify_all`, and no notification is on its way. -/
def LosesWorker (s : ThreadPool n τ) : Prop :=
  (s.AfterNotifyAll ∧ s.stop = true) ∧ s.toNotify = 0 ∧ ∃ w, (s.workers w).isAsleep = true

instance (s : ThreadPool n τ) : Decidable s.LosesWorker :=
  inferInstanceAs (Decidable ((_ ∧ _) ∧ _ ∧ ∃ w, (s.workers w).isAsleep = true))

/-- `notify_all` is only called while no worker is between its predicate check and its sleep. -/
def NotifiesClear (s : ThreadPool n τ) (a : PoolStep n τ) : Prop :=
  match a with
  | .notifyAll => ∀ w, s.workers w ≠ .parking
  | _ => True

/-- With `stop_` set, no worker sleeps or is about to. -/
structure Awake (s : ThreadPool n τ) : Prop where
  stop : s.stop = true
  notParking : ∀ w, s.workers w ≠ .parking
  notAsleep : ∀ w, s.workers w ≠ .asleep

theorem Awake.step {s t : ThreadPool n τ} {a : PoolStep n τ} (hs : s.Awake)
    (h : s.next a = some t) : t.Awake := by
  rcases next_cases h with ⟨⟨hstop, _⟩, w, pc, hworkers, hparking, hasleep⟩ |
    ⟨⟨hstop, _⟩, hworkers⟩ | ⟨_, rfl⟩ | ⟨_, _, rfl⟩ | ⟨_, _, rfl⟩
  · constructor
    · rw [hstop]
      exact hs.stop
    · intro v hv
      rw [hworkers, Function.update_apply] at hv
      split_ifs at hv
      · have hfalse := hparking hv
        rw [hs.stop] at hfalse
        contradiction
      · exact hs.notParking v hv
    · intro v hv
      rw [hworkers, Function.update_apply] at hv
      split_ifs at hv
      · exact hs.notParking w (hasleep hv)
      · exact hs.notAsleep v hv
  · constructor
    · rw [hstop]
      exact hs.stop
    · rw [hworkers]
      exact hs.notParking
    · rw [hworkers]
      exact hs.notAsleep
  · exact ⟨rfl, hs.notParking, hs.notAsleep⟩
  · constructor
    · exact hs.stop
    · intro v hv
      simp only [wakeAll] at hv
      split_ifs at hv
      exact hs.notParking v hv
    · intro v hv
      simp only [wakeAll] at hv
      split_ifs at hv
      exact hs.notAsleep v hv
  · exact ⟨hs.stop, hs.notParking, hs.notAsleep⟩

/-- A `notify_all` outside the window leaves every worker awake. -/
theorem awake_of_notifyAll {s : ThreadPool n τ} (hstop : s.stop = true)
    (hclear : ∀ w, s.workers w ≠ .parking) :
    ({ s.wakeAll with shutdown := .notified } : ThreadPool n τ).Awake := by
  constructor
  · exact hstop
  · intro v hv
    simp only [wakeAll] at hv
    split_ifs at hv
    exact hclear v hv
  · intro v hv
    simp only [wakeAll] at hv
    split_ifs at hv with hasleep
    rw [hv] at hasleep
    exact hasleep rfl

/-- `shutdown` gets past its first statement only by setting `stop_`. -/
theorem stop_of_shutdown {s : ThreadPool n τ} (hs : (system n τ).Reachable s)
    (h : s.shutdown ≠ .notCalled) : s.stop = true := by
  revert h
  apply hs.invariant (I := fun s => s.shutdown ≠ .notCalled → s.stop = true)
  · intro h
    exact absurd rfl h
  · intro s a t _ ih hstep ht
    rcases next_cases hstep with ⟨⟨hstop, hshutdown⟩, _⟩ | ⟨⟨hstop, hshutdown⟩, _⟩ | ⟨_, rfl⟩ |
      ⟨_, hstored, rfl⟩ | ⟨_, hnotified, rfl⟩
    · rw [hstop]
      exact ih (hshutdown ▸ ht)
    · rw [hstop]
      exact ih (hshutdown ▸ ht)
    · rfl
    · exact ih (by rw [hstored]; simp)
    · exact ih (by rw [hnotified]; simp)

/-- In a run whose `notify_all` is outside the window, every worker is awake after it. -/
theorem awake_after_notifyAll {s : ThreadPool n τ}
    (hs : ((system n τ).restrict NotifiesClear).Reachable s) (h : s.AfterNotifyAll) :
    s.Awake := by
  revert h
  apply hs.invariant (I := fun s => s.AfterNotifyAll → s.Awake)
  · intro h
    rcases h with h | h <;> contradiction
  · intro s a t hs ih hstep ht
    obtain ⟨hclear, hnext⟩ := LTS.restrict_step hstep
    rcases next_cases hnext with ⟨⟨_, hshutdown⟩, _⟩ | ⟨⟨_, hshutdown⟩, _⟩ | ⟨_, rfl⟩ |
      ⟨rfl, hstored, rfl⟩ | ⟨_, hnotified, rfl⟩
    · apply Awake.step _ hnext
      apply ih
      rwa [AfterNotifyAll, ← hshutdown]
    · apply Awake.step _ hnext
      apply ih
      rwa [AfterNotifyAll, ← hshutdown]
    · rcases ht with ht | ht <;> contradiction
    · apply awake_of_notifyAll _ hclear
      apply stop_of_shutdown hs.of_restrict
      rw [hstored]
      simp
    · exact (ih (.inl hnotified)).step hnext

/-- While nobody sleeps, the pending calls of `notify_one` can all run without effect. -/
theorem path_of_notifyOnes {s : ThreadPool n τ} (h : ∀ v, (s.workers v).isAsleep = false) :
    (system n τ).Path s { s with toNotify := 0 } := by
  obtain ⟨k, hk⟩ : ∃ k, s.toNotify = k := ⟨_, rfl⟩
  induction k generalizing s with
  | zero =>
    rw [← hk]
    exact Relation.ReflTransGen.refl
  | succ k ih =>
    have hstep : s.next (.notifyOne none) = some { s with toNotify := k } := by
      simp only [next, hk, wakeOne]
      exact if_pos h
    exact Relation.ReflTransGen.head ⟨.notifyOne none, hstep⟩
      (ih (s := { s with toNotify := k }) h rfl)

/-- A worker caught between its check and its sleep by `notify_all` sleeps on. -/
theorem loses_of_parking {s : ThreadPool n τ} (hstop : s.stop = true) {w : Fin n}
    (hw : s.workers w = .parking) :
    ∃ u, (system n τ).Path { s.wakeAll with shutdown := .notified } u ∧ u.LosesWorker := by
  let t : ThreadPool n τ := { s.wakeAll with shutdown := .notified, toNotify := 0 }
  have htw : t.workers w = .parking := by
    change (if (s.workers w).isAsleep then PoolWorker.woken else s.workers w) = .parking
    rw [hw]
    rfl
  have hawake : ∀ v, (s.wakeAll.workers v).isAsleep = false := by
    intro v
    simp only [wakeAll]
    split_ifs with hv
    · rfl
    · exact Bool.eq_false_iff.mpr hv
  have hstep : t.next (.work w) = some { t.setWorker w .asleep with owner := none } := by
    simp only [next, work, htw]
  refine ⟨{ t.setWorker w .asleep with owner := none }, ?_, ⟨.inl rfl, hstop⟩, rfl, w, ?_⟩
  · exact Relation.ReflTransGen.tail
      (path_of_notifyOnes (s := { s.wakeAll with shutdown := .notified }) hawake)
      ⟨.work w, hstep⟩
  · rw [PoolWorker.isAsleep_iff]
    exact Function.update_self w _ _

/-- While `notify_all` runs outside the window, no worker is asleep after it; whenever it runs
with a worker in the window, that worker can be left asleep, with nobody to wake it. -/
theorem sleeps_after_notifyAll_iff (n : ℕ) (τ : Type*) :
    (∀ s, ((system n τ).restrict NotifiesClear).Reachable s → s.AfterNotifyAll →
      ∀ w, s.workers w ≠ .asleep) ∧
    ∀ s t, (system n τ).Reachable s → (system n τ).step s .notifyAll t →
      ((∃ u, (system n τ).Path t u ∧ u.LosesWorker) ↔ ∃ w, s.workers w = .parking) := by
  constructor
  · intro s hs h
    exact (awake_after_notifyAll hs h).notAsleep
  · intro s t hs hstep
    obtain ⟨hstored, rfl⟩ := next_notifyAll hstep
    have hstop : s.stop = true := stop_of_shutdown hs (by rw [hstored]; simp)
    constructor
    · rintro ⟨u, hpath, _, _, w, hw⟩
      by_contra hclear
      push Not at hclear
      have hawake : u.Awake := hpath.preserves (awake_of_notifyAll hstop hclear)
        fun _ _ _ h hstep => h.step hstep
      exact hawake.notAsleep w ((PoolWorker.isAsleep_iff _).mp hw)
    · rintro ⟨w, hw⟩
      exact loses_of_parking hstop hw

/-- One worker finds no task; `stop_` is set and `notify_all` runs before it falls asleep. -/
theorem worker_lost :
    ∃ s, (system 1 Unit).Reachable s ∧ s.LosesWorker :=
  exists_reachable_of_exec [.work 0, .work 0, .storeStop, .notifyAll, .work 0] (by decide)

end ThreadPool
end ForkliftSafety
