import Mathlib.Data.Fin.Basic
import ForkliftSafety.Library.Monitor
import ForkliftSafety.Shared.QueueHistory

/-! Threads that sleep on the condition variables of a `ConcurrentQueue`, and whom its operations
awaken. A critical section is one step, `notify_one` included; `close` notifies after its own. -/
namespace ForkliftSafety
open Monitor Transition

/-- `not_empty_` and `not_full_`. -/
inductive QueueSignal where
  | notEmpty | notFull
  deriving DecidableEq, Repr

/-- Where an operation waits. -/
def QueueOp.waitsOn {α : Type*} : QueueOp α → Option QueueSignal
  | .push _ => some .notFull
  | .pop | .popLatest => some .notEmpty
  | .close => none

/-- Whom an operation notifies before it releases `mu_`. -/
def QueueAnswer.notifies {α : Type*} : QueueAnswer α → Option QueueSignal
  | .pushed true => some .notEmpty
  | .popped (some _) => some .notFull
  | _ => none

inductive QueueThread (α : Type*) where
  | idle
  | asleep (op : QueueOp α)
  /-- Notified, or woken for no reason, and about to take `mu_` and test the predicate again. -/
  | woken (op : QueueOp α)
  /-- `close` has released `mu_`; both calls of `notify_all` are to come. -/
  | closing
  /-- `close` has notified `not_empty_` and not yet `not_full_`. -/
  | closingFull
  deriving DecidableEq, Repr

namespace QueueThread
variable {α : Type*}

def isAsleepOn (cv : QueueSignal) : QueueThread α → Bool
  | .asleep op => op.waitsOn = some cv
  | _ => false

def isWokenFrom (cv : QueueSignal) : QueueThread α → Bool
  | .woken op => op.waitsOn = some cv
  | _ => false

def wake : QueueThread α → QueueThread α
  | .asleep op => .woken op
  | l => l

theorem exists_of_isAsleepOn {cv : QueueSignal} {l : QueueThread α} (h : l.isAsleepOn cv = true) :
    ∃ op, l = .asleep op ∧ op.waitsOn = some cv := by
  cases l with
  | asleep op => exact ⟨op, rfl, of_decide_eq_true h⟩
  | idle | woken | closing | closingFull => contradiction

def condition (α : Type*) (cv : QueueSignal) : Condition (QueueThread α) where
  asleep := isAsleepOn cv
  awakened := isWokenFrom cv
  wake := wake
  awakened_wake l h := by
    obtain ⟨op, rfl, hop⟩ := exists_of_isAsleepOn h
    exact decide_eq_true hop
  asleep_wake l h := by
    obtain ⟨op, rfl, _⟩ := exists_of_isAsleepOn h
    rfl
  not_both l h := by
    obtain ⟨op, rfl, _⟩ := exists_of_isAsleepOn h
    rfl

/-- The thread's place once its critical section is over. -/
def afterwards : QueueAnswer α → QueueThread α
  | .closed => .closing
  | _ => .idle

end QueueThread

structure QueueThreads (n : ℕ) (α : Type*) where
  history : QueueHistory (Fin n) α
  threads : Fin n → QueueThread α := fun _ => .idle
  /-- Some call of `close` has returned. -/
  closeReturned : Bool := false

inductive QueueLabel (n : ℕ) (α : Type*) where
  | start (t : Fin n) (op : QueueOp α) (choice : Option (Fin n))
  | resume (t : Fin n) (choice : Option (Fin n))
  | notifyAll (t : Fin n)
  | spuriousWake (t : Fin n)

namespace QueueThreads
open ConcurrentQueue QueueThread
variable {n : ℕ} {α : Type*}

/-- `notify_one`, if any. -/
def signal (cv : Option QueueSignal) (threads : Fin n → QueueThread α) (choice : Option (Fin n)) :
    Option (Fin n → QueueThread α) :=
  match cv with
  | some cv => (condition α cv).notifyOne threads choice
  | none => some threads

/-- From taking `mu_` to releasing it, be it for a sleep or for good. -/
def criticalSection (s : QueueThreads n α) (t : Fin n) (op : QueueOp α)
    (choice : Option (Fin n)) : Option (QueueThreads n α) :=
  match s.history.queue.perform op with
  | none => some { s with threads := Function.update s.threads t (.asleep op) }
  | some (q, answer) =>
    (signal answer.notifies (Function.update s.threads t (afterwards answer)) choice).map
      fun threads =>
        { s with history := ⟨q, s.history.log ++ [⟨t, op, answer⟩]⟩, threads := threads }

def next (s : QueueThreads n α) : QueueLabel n α → Option (QueueThreads n α)
  | .start t op choice =>
    match s.threads t with
    | .idle => s.criticalSection t op choice
    | _ => none
  | .resume t choice =>
    match s.threads t with
    | .woken op => s.criticalSection t op choice
    | _ => none
  | .notifyAll t =>
    match s.threads t with
    | .closing =>
      let threads := (condition α .notEmpty).notifyAll s.threads
      some { s with threads := Function.update threads t .closingFull }
    | .closingFull =>
      let threads := (condition α .notFull).notifyAll s.threads
      some { s with threads := Function.update threads t .idle, closeReturned := true }
    | _ => none
  | .spuriousWake t =>
    match s.threads t with
    | .asleep op => some { s with threads := Function.update s.threads t (.woken op) }
    | _ => none

def system (n : ℕ) (α : Type*) (capacity : ℕ) (policy : OverflowPolicy) :
    LTS (QueueThreads n α) (QueueLabel n α) :=
  .ofNext { history := ⟨{ capacity := capacity, policy := policy }, []⟩ } next

/-- The step takes `mu_` for thread `t`, on a new call or after a wake-up. -/
inductive Enters (s : QueueThreads n α) :
    QueueLabel n α → Fin n → QueueOp α → Option (Fin n) → Prop
  | start {t op choice} (ht : s.threads t = .idle) : Enters s (.start t op choice) t op choice
  | resume {t op choice} (ht : s.threads t = .woken op) : Enters s (.resume t choice) t op choice

inductive Moves (s : QueueThreads n α) : QueueLabel n α → QueueThreads n α → Prop
  | sleep {a t op choice} (henters : Enters s a t op choice)
      (hwaits : s.history.queue.perform op = none) :
      Moves s a { s with threads := Function.update s.threads t (.asleep op) }
  | act {a t op choice q answer threads} (henters : Enters s a t op choice)
      (hperform : s.history.queue.perform op = some (q, answer))
      (hsignal : signal answer.notifies (Function.update s.threads t (afterwards answer)) choice =
        some threads) :
      Moves s a
        { s with history := ⟨q, s.history.log ++ [⟨t, op, answer⟩]⟩, threads := threads }
  | notifyEmpty {t} (ht : s.threads t = .closing) :
      Moves s (.notifyAll t)
        { s with
          threads := Function.update ((condition α .notEmpty).notifyAll s.threads) t
            .closingFull }
  | notifyFull {t} (ht : s.threads t = .closingFull) :
      Moves s (.notifyAll t)
        { s with
          threads := Function.update ((condition α .notFull).notifyAll s.threads) t .idle
          closeReturned := true }
  | spurious {t op} (ht : s.threads t = .asleep op) :
      Moves s (.spuriousWake t) { s with threads := Function.update s.threads t (.woken op) }

theorem criticalSection_moves {s s' : QueueThreads n α} {a : QueueLabel n α} {t : Fin n}
    {op : QueueOp α} {choice : Option (Fin n)} (henters : Enters s a t op choice)
    (h : s.criticalSection t op choice = some s') : Moves s a s' := by
  unfold criticalSection at h
  split at h
  case h_1 hwaits =>
    obtain rfl := Option.some.inj h
    exact .sleep henters hwaits
  case h_2 q answer hperform =>
    obtain ⟨threads, hsignal, rfl⟩ := Option.map_eq_some_iff.mp h
    exact .act henters hperform hsignal

theorem next_moves {s s' : QueueThreads n α} {a : QueueLabel n α} (h : s.next a = some s') :
    Moves s a s' := by
  cases a with
  | start t op choice =>
    simp only [next] at h
    split at h
    case h_1 ht => exact criticalSection_moves (.start ht) h
    case h_2 => contradiction
  | resume t choice =>
    simp only [next] at h
    split at h
    case h_1 op ht => exact criticalSection_moves (.resume ht) h
    case h_2 => contradiction
  | notifyAll t =>
    simp only [next] at h
    split at h
    case h_1 ht =>
      obtain rfl := Option.some.inj h
      exact .notifyEmpty ht
    case h_2 ht =>
      obtain rfl := Option.some.inj h
      exact .notifyFull ht
    case h_3 => contradiction
  | spuriousWake t =>
    simp only [next] at h
    split at h
    case h_1 op ht =>
      obtain rfl := Option.some.inj h
      exact .spurious ht
    case h_2 => contradiction

/-- Seen from the queue, the threads perform operations one after the other. -/
theorem history_reachable {capacity : ℕ} {policy : OverflowPolicy} {s : QueueThreads n α}
    (hs : (system n α capacity policy).Reachable s) :
    (QueueHistory.system (Fin n) α capacity policy).Reachable s.history := by
  apply hs.invariant
    (I := fun s => (QueueHistory.system (Fin n) α capacity policy).Reachable s.history)
  · exact LTS.Reachable.start
  · intro s a s' _ ih hstep
    cases next_moves hstep with
    | sleep | notifyEmpty | notifyFull | spurious => exact ih
    | @act _ t op _ q answer _ _ hperform _ =>
      apply ih.step (a := (t, op))
      show s.history.next (t, op) = _
      simp [QueueHistory.next, hperform]

section Sections
variable {s : QueueThreads n α} {a : QueueLabel n α} {t : Fin n} {op : QueueOp α}
  {choice : Option (Fin n)} {cv : QueueSignal} {threads threads' : Fin n → QueueThread α}

theorem Enters.isAwake (h : Enters s a t op choice) (cv : QueueSignal) :
    (s.threads t).isAsleepOn cv = false := by
  cases h with
  | start ht | resume ht =>
    rw [ht]
    rfl

/-- A thread that was awakened from elsewhere does not count here. -/
theorem Enters.not_woken (h : Enters s a t op choice) (hop : op.waitsOn ≠ some cv) :
    (s.threads t).isWokenFrom cv = false := by
  cases h with
  | start ht =>
    rw [ht]
    rfl
  | resume ht =>
    rw [ht]
    exact decide_eq_false hop

theorem afterwards_isAwake (answer : QueueAnswer α) (cv : QueueSignal) :
    (afterwards answer).isAsleepOn cv = false := by
  unfold afterwards
  split <;> rfl

/-- A notification only awakens. -/
theorem signal_thread {sig : Option QueueSignal} (h : signal sig threads choice = some threads')
    (u : Fin n) :
    threads' u = threads u ∨
      ∃ op cv, sig = some cv ∧ op.waitsOn = some cv ∧ threads u = .asleep op ∧
        threads' u = .woken op := by
  cases sig with
  | none => exact .inl (congrFun (Option.some.inj h).symm u)
  | some cv =>
    rcases Condition.notifyOne_cases h with ⟨w, _, hw, rfl⟩ | ⟨_, rfl⟩
    · by_cases huw : u = w
      · subst huw
        obtain ⟨op, hop, hcv⟩ := exists_of_isAsleepOn hw
        refine .inr ⟨op, cv, rfl, hcv, hop, ?_⟩
        rw [Function.update_self, hop]
        rfl
      · exact .inl (Function.update_of_ne huw _ _)
    · exact .inl rfl

/-- Threads only wake up. -/
def Awakens (threads threads' : Fin n → QueueThread α) : Prop :=
  ∀ u, threads' u = threads u ∨ ∃ op, threads u = .asleep op ∧ threads' u = .woken op

theorem signal_awakens {sig : Option QueueSignal}
    (h : signal sig threads choice = some threads') : Awakens threads threads' := by
  intro u
  rcases signal_thread h u with heq | ⟨op, _, _, _, hasleep, hwoken⟩
  · exact .inl heq
  · exact .inr ⟨op, hasleep, hwoken⟩

theorem notifyAll_awakens (cv : QueueSignal) (threads : Fin n → QueueThread α) :
    Awakens threads ((condition α cv).notifyAll threads) := by
  intro u
  simp only [Condition.notifyAll]
  split_ifs with hu
  · obtain ⟨op, hop, _⟩ := exists_of_isAsleepOn hu
    refine .inr ⟨op, hop, ?_⟩
    rw [hop]
    rfl
  · exact .inl rfl

theorem Awakens.eq_of_ne_woken (h : Awakens threads threads') {u : Fin n}
    (hu : ∀ op, threads' u ≠ .woken op) : threads' u = threads u := by
  rcases h u with heq | ⟨op, _, hwoken⟩
  · exact heq
  · exact absurd hwoken (hu op)

theorem Awakens.sleeps (h : Awakens threads threads') (hs : (condition α cv).Sleeps threads') :
    (condition α cv).Sleeps threads := by
  obtain ⟨u, hu⟩ := hs
  obtain ⟨op, hop, _⟩ := exists_of_isAsleepOn hu
  have heq := h.eq_of_ne_woken (u := u) fun op' hwoken => by
    rw [hop] at hwoken
    contradiction
  exact ⟨u, by rwa [← heq]⟩

/-- A thread that stands where no thread was put has stood there before. -/
theorem thread_of_update {l l' : QueueThread α} {u : Fin n}
    (h : Function.update threads t l u = l') (hl : l' ≠ l) : threads u = l' := by
  by_cases hut : u = t
  · subst hut
    rw [Function.update_self] at h
    exact absurd h.symm hl
  · rwa [Function.update_of_ne hut] at h

theorem asleep_of_update {l : QueueThread α} {u : Fin n} (hl : l.isAsleepOn cv = false)
    (h : (Function.update threads t l u).isAsleepOn cv = true) :
    (threads u).isAsleepOn cv = true := by
  rw [thread_of_update (rfl : Function.update threads t l u = _) fun heq => by simp [heq, hl] at h]
  exact h

/-- Nobody but `t` changes, and `t` does not sleep. -/
theorem sleeps_of_update {l : QueueThread α} (hl : l.isAsleepOn cv = false)
    (hs : (condition α cv).Sleeps (Function.update threads t l)) :
    (condition α cv).Sleeps threads := by
  obtain ⟨u, hu⟩ := hs
  exact ⟨u, asleep_of_update hl hu⟩

/-- A notification of the one condition variable leaves the other alone. -/
theorem signal_other {sig : Option QueueSignal} (hsig : sig ≠ some cv)
    (h : signal sig threads choice = some threads') (u : Fin n) :
    (threads' u).isAsleepOn cv = (threads u).isAsleepOn cv ∧
      (threads' u).isWokenFrom cv = (threads u).isWokenFrom cv := by
  rcases signal_thread h u with heq | ⟨op, cv', rfl, hop, hasleep, hwoken⟩
  · rw [heq]
    exact ⟨rfl, rfl⟩
  · have hne : op.waitsOn ≠ some cv := fun h => hsig (hop.symm.trans h)
    rw [hasleep, hwoken]
    exact ⟨(decide_eq_false hne).symm, decide_eq_false hne⟩

theorem covered_of_signal_other {sig : Option QueueSignal} {available : ℕ}
    (hsig : sig ≠ some cv) (hcover : (condition α cv).Covered available threads)
    (h : signal sig threads choice = some threads') :
    (condition α cv).Covered available threads' :=
  hcover.congr (fun u => (signal_other hsig h u).1) fun u => (signal_other hsig h u).2

/-- The caller leaves, and uses up one place at most. -/
theorem covered_leave (t : Fin n) (answer : QueueAnswer α) {left : ℕ}
    (hcover : (condition α cv).Covered (left + 1) s.threads) :
    (condition α cv).Covered left (Function.update s.threads t (afterwards answer)) := by
  apply hcover.update (afterwards_isAwake answer cv)
  have hone := Bool.toNat_le ((condition α cv).awakened (s.threads t))
  omega

/-- A caller that does not wait on `cv` leaves the places there as they are. -/
theorem covered_leave_other (henters : Enters s a t op choice) (hop : op.waitsOn ≠ some cv)
    (answer : QueueAnswer α) {available : ℕ}
    (hcover : (condition α cv).Covered available s.threads) :
    (condition α cv).Covered available (Function.update s.threads t (afterwards answer)) := by
  apply hcover.update (afterwards_isAwake answer cv)
  have hnot : (condition α cv).awakened (s.threads t) = false := henters.not_woken hop
  rw [hnot]
  exact Nat.le_add_right _ _

/-- A caller that goes to sleep elsewhere. -/
theorem covered_sleep_other (henters : Enters s a t op choice) (hop : op.waitsOn ≠ some cv)
    {available : ℕ} (hcover : (condition α cv).Covered available s.threads) :
    (condition α cv).Covered available (Function.update s.threads t (.asleep op)) := by
  have hl : (condition α cv).asleep (.asleep op) = false := decide_eq_false hop
  have hnot : (condition α cv).awakened (s.threads t) = false := henters.not_woken hop
  apply hcover.update hl
  rw [hnot]
  exact Nat.le_add_right _ _

theorem covered_spurious (ht : s.threads t = .asleep op) {available : ℕ}
    (hcover : (condition α cv).Covered available s.threads) :
    (condition α cv).Covered available (Function.update s.threads t (.woken op)) := by
  have hnot : (condition α cv).awakened (s.threads t) = false := by
    rw [ht]
    rfl
  apply hcover.update rfl
  rw [hnot]
  exact Nat.le_add_right _ _

end Sections

/-- Who waits finds nothing to take, or no room in an open queue. -/
theorem perform_eq_none {q : ConcurrentQueue α} {op : QueueOp α} (h : q.perform op = none) :
    (op.waitsOn = some .notEmpty ∧ q.items = [] ∧ q.closed = false) ∨
    (op.waitsOn = some .notFull ∧ q.policy = .blockWhenFull ∧ q.capacity ≤ q.items.length) := by
  cases op with
  | push v =>
    rw [perform, Option.map_eq_none_iff, push] at h
    split at h
    case h_1 hpolicy =>
      split_ifs at h with hclosed hroom
      exact .inr ⟨rfl, hpolicy, Nat.le_of_not_lt hroom⟩
    case h_2 => split_ifs at h
  | pop =>
    rw [perform, Option.map_eq_none_iff, pop] at h
    split at h
    case h_1 hitems =>
      split_ifs at h with hclosed
      exact .inl ⟨rfl, hitems, Bool.eq_false_iff.mpr hclosed⟩
    case h_2 => contradiction
  | popLatest =>
    rw [perform, Option.map_eq_none_iff] at h
    obtain ⟨hnil, hopen, _⟩ | ⟨_, _, hlast⟩ | ⟨_, _, _, hlast⟩ := q.popLatest_cases
    · exact .inl ⟨rfl, hnil, hopen⟩
    · simp [hlast] at h
    · simp [hlast] at h
  | close => contradiction

end QueueThreads
end ForkliftSafety
