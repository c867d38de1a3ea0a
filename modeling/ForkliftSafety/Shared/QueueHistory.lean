import ForkliftSafety.Library.Transition
import ForkliftSafety.Shared.ConcurrentQueue

/-! Interleavings of the operations of a `ConcurrentQueue` by any number of threads, with a log of
what each of them returned. -/
namespace ForkliftSafety
open Buffer Transition

inductive QueueOp (α : Type*) where
  | push (value : α)
  | pop
  | popLatest
  | close
  deriving DecidableEq, Repr

/-- What an operation returns. -/
inductive QueueAnswer (α : Type*) where
  | pushed (accepted : Bool)
  | popped (item : Option α)
  | closed
  deriving DecidableEq, Repr

namespace ConcurrentQueue
variable {α : Type*}

/-- One operation, in one critical section; `none` while the caller waits. -/
def perform (q : ConcurrentQueue α) : QueueOp α → Option (ConcurrentQueue α × QueueAnswer α)
  | .push value => (q.push value).map fun r => (r.1, .pushed r.2)
  | .pop => q.pop.map fun r => (r.1, .popped r.2)
  | .popLatest => q.popLatest.map fun r => (r.1, .popped r.2)
  | .close => some (q.close, .closed)

/-- All that an operation can do. -/
inductive Performs (q : ConcurrentQueue α) :
    QueueOp α → ConcurrentQueue α → QueueAnswer α → Prop
  /-- Only `push` of a blocking queue looks at `closed_`. -/
  | refuse (v : α) (hpolicy : q.policy = .blockWhenFull) (hclosed : q.closed = true) :
      Performs q (.push v) q (.pushed false)
  | accept (v : α) (hroom : q.items.length < q.capacity)
      (hopen : q.policy = .blockWhenFull → q.closed = false) :
      Performs q (.push v) { q with items := q.items ++ [v] } (.pushed true)
  | replace (v : α) (hpolicy : q.policy = .dropOldestWhenFull)
      (hfull : q.capacity ≤ q.items.length) :
      Performs q (.push v) { q with items := q.items.tail ++ [v], dropped := q.dropped + 1 }
        (.pushed true)
  | take (v : α) (rest : List α) (hitems : q.items = v :: rest) :
      Performs q .pop { q with items := rest } (.popped (some v))
  | takeLatest (older : List α) (v : α) (hitems : q.items = older ++ [v]) :
      Performs q .popLatest { q with items := [], dropped := q.dropped + older.length }
        (.popped (some v))
  | drained (op : QueueOp α) (hop : op = .pop ∨ op = .popLatest) (hitems : q.items = [])
      (hclosed : q.closed = true) : Performs q op q (.popped none)
  | close : Performs q .close q.close .closed

theorem push_performs {q q' : ConcurrentQueue α} {v : α} {b : Bool}
    (h : q.push v = some (q', b)) : Performs q (.push v) q' (.pushed b) := by
  unfold push at h
  split at h
  case h_1 hpolicy =>
    split_ifs at h with hclosed hroom
    · obtain ⟨rfl, rfl⟩ := Prod.mk.inj (Option.some.inj h)
      exact .refuse v hpolicy hclosed
    · obtain ⟨rfl, rfl⟩ := Prod.mk.inj (Option.some.inj h)
      exact .accept v hroom fun _ => Bool.eq_false_iff.mpr hclosed
  case h_2 hpolicy =>
    split_ifs at h with hfull
    · obtain ⟨rfl, rfl⟩ := Prod.mk.inj (Option.some.inj h)
      exact .replace v hpolicy hfull
    · obtain ⟨rfl, rfl⟩ := Prod.mk.inj (Option.some.inj h)
      refine .accept v (Nat.lt_of_not_le hfull) fun hblock => ?_
      rw [hpolicy] at hblock
      contradiction

theorem pop_performs {q q' : ConcurrentQueue α} {item : Option α}
    (h : q.pop = some (q', item)) : Performs q .pop q' (.popped item) := by
  unfold pop at h
  cases hitems : q.items with
  | nil =>
    simp only [hitems] at h
    split_ifs at h with hclosed
    obtain ⟨rfl, rfl⟩ := Prod.mk.inj (Option.some.inj h)
    exact .drained .pop (.inl rfl) hitems hclosed
  | cons v rest =>
    simp only [hitems] at h
    obtain ⟨rfl, rfl⟩ := Prod.mk.inj (Option.some.inj h)
    exact .take v rest hitems

theorem popLatest_performs {q q' : ConcurrentQueue α} {item : Option α}
    (h : q.popLatest = some (q', item)) : Performs q .popLatest q' (.popped item) := by
  obtain ⟨_, _, hlast⟩ | ⟨hnil, hclosed, hlast⟩ | ⟨older, v, hitems, hlast⟩ := q.popLatest_cases
  · simp [hlast] at h
  · rw [hlast] at h
    obtain ⟨rfl, rfl⟩ := Prod.mk.inj (Option.some.inj h)
    exact .drained .popLatest (.inr rfl) hnil hclosed
  · rw [hlast] at h
    obtain ⟨rfl, rfl⟩ := Prod.mk.inj (Option.some.inj h)
    exact .takeLatest older v hitems

theorem perform_performs {q q' : ConcurrentQueue α} {op : QueueOp α} {answer : QueueAnswer α}
    (h : q.perform op = some (q', answer)) : Performs q op q' answer := by
  cases op with
  | push v =>
    obtain ⟨⟨q₁, b⟩, hpush, hr⟩ := Option.map_eq_some_iff.mp h
    obtain ⟨rfl, rfl⟩ := Prod.mk.inj hr
    exact push_performs hpush
  | pop =>
    obtain ⟨⟨q₁, item⟩, hpop, hr⟩ := Option.map_eq_some_iff.mp h
    obtain ⟨rfl, rfl⟩ := Prod.mk.inj hr
    exact pop_performs hpop
  | popLatest =>
    obtain ⟨⟨q₁, item⟩, hpop, hr⟩ := Option.map_eq_some_iff.mp h
    obtain ⟨rfl, rfl⟩ := Prod.mk.inj hr
    exact popLatest_performs hpop
  | close =>
    obtain ⟨rfl, rfl⟩ := Prod.mk.inj (Option.some.inj h)
    exact .close

end ConcurrentQueue

/-- One completed operation. -/
structure QueueEvent (ι α : Type*) where
  thread : ι
  op : QueueOp α
  answer : QueueAnswer α
  deriving DecidableEq, Repr

namespace QueueEvent
variable {ι α : Type*}

/-- The item of a `push` that returned `true`. -/
def accepted (e : QueueEvent ι α) : Option α :=
  match e.op, e.answer with
  | .push v, .pushed true => some v
  | _, _ => none

/-- The item that a `pop` or a `pop_latest` returned, with the thread that got it. -/
def delivery (e : QueueEvent ι α) : Option (ι × α) :=
  match e.answer with
  | .popped (some v) => some (e.thread, v)
  | _ => none

end QueueEvent

structure QueueHistory (ι α : Type*) where
  queue : ConcurrentQueue α
  log : List (QueueEvent ι α) := []

namespace QueueHistory
open ConcurrentQueue
variable {ι α : Type*}

/-- The items accepted so far, in push order. -/
def accepted (s : QueueHistory ι α) : List α := s.log.filterMap QueueEvent.accepted

/-- Who got what so far, in the order of delivery. -/
def deliveries (s : QueueHistory ι α) : List (ι × α) := s.log.filterMap QueueEvent.delivery

/-- A thread performs an operation. -/
def next (s : QueueHistory ι α) (a : ι × QueueOp α) : Option (QueueHistory ι α) :=
  (s.queue.perform a.2).map fun r => ⟨r.1, s.log ++ [⟨a.1, a.2, r.2⟩]⟩

def system (ι α : Type*) (capacity : ℕ) (policy : OverflowPolicy) :
    LTS (QueueHistory ι α) (ι × QueueOp α) :=
  .ofNext ⟨{ capacity := capacity, policy := policy }, []⟩ next

theorem next_spec {s t : QueueHistory ι α} {a : ι × QueueOp α} (h : s.next a = some t) :
    ∃ q answer, Performs s.queue a.2 q answer ∧ t = ⟨q, s.log ++ [⟨a.1, a.2, answer⟩]⟩ := by
  obtain ⟨⟨q, answer⟩, hperform, rfl⟩ := Option.map_eq_some_iff.mp h
  exact ⟨q, answer, perform_performs hperform, rfl⟩

theorem accepted_snoc (q : ConcurrentQueue α) (log : List (QueueEvent ι α))
    (e : QueueEvent ι α) :
    accepted ⟨q, log ++ [e]⟩ = accepted ⟨q, log⟩ ++ e.accepted.toList := by
  simp only [accepted, List.filterMap_append, List.filterMap_cons, List.filterMap_nil]
  cases e.accepted <;> rfl

theorem deliveries_snoc (q : ConcurrentQueue α) (log : List (QueueEvent ι α))
    (e : QueueEvent ι α) :
    deliveries ⟨q, log ++ [e]⟩ = deliveries ⟨q, log⟩ ++ e.delivery.toList := by
  simp only [deliveries, List.filterMap_append, List.filterMap_cons, List.filterMap_nil]
  cases e.delivery <;> rfl

theorem policy_eq {capacity : ℕ} {policy : OverflowPolicy} {s : QueueHistory ι α}
    (hs : (system ι α capacity policy).Reachable s) : s.queue.policy = policy := by
  apply hs.invariant (I := fun s => s.queue.policy = policy) rfl
  intro s a t _ ih hstep
  obtain ⟨q, answer, hperforms, rfl⟩ := next_spec hstep
  obtain ⟨i, op⟩ := a
  cases hperforms <;> exact ih

/-- The queue keeps to its capacity, and a ledger of the accepted items says what became of each
of them. -/
structure Conserves (capacity : ℕ) (s : QueueHistory ι α) : Prop where
  sameCapacity : s.queue.capacity = capacity
  room : s.queue.items.length ≤ capacity
  ledger : ∃ L : Ledger α, s.queue.Follows L ∧ L.produced = s.accepted ∧
    L.delivered = s.deliveries.map Prod.snd

/-- An operation that changes neither the items nor the counter, and neither accepts nor
delivers. -/
theorem Conserves.of_same {capacity : ℕ} {s : QueueHistory ι α}
    (h : Conserves capacity s) {q : ConcurrentQueue α} (e : QueueEvent ι α)
    (hq : q.capacity = s.queue.capacity)
    (hitems : q.items = s.queue.items) (hdropped : q.dropped = s.queue.dropped)
    (hnone : e.accepted = none ∧ e.delivery = none) :
    Conserves capacity (⟨q, s.log ++ [e]⟩ : QueueHistory ι α) := by
  obtain ⟨L, hfollows, hproduced, hdelivered⟩ := h.ledger
  refine ⟨hq.trans h.sameCapacity, hitems ▸ h.room, L, ?_, ?_, ?_⟩
  · exact ⟨hitems.trans hfollows.items, hdropped.trans hfollows.dropped⟩
  · rw [hproduced, accepted_snoc, hnone.1]
    simp [accepted]
  · rw [hdelivered, deliveries_snoc, hnone.2]
    simp [deliveries]

theorem Conserves.step {capacity : ℕ} (hcap : 1 ≤ capacity) {s t : QueueHistory ι α}
    {a : ι × QueueOp α} (h : Conserves capacity s)
    (hstep : s.next a = some t) : Conserves capacity t := by
  obtain ⟨q, answer, hperforms, rfl⟩ := next_spec hstep
  obtain ⟨i, op⟩ := a
  have hroom := h.room
  have hcapacity := h.sameCapacity
  obtain ⟨L, hfollows, hproduced, hdelivered⟩ := h.ledger
  cases hperforms with
  | refuse v _ _ => exact h.of_same _ rfl rfl rfl ⟨rfl, rfl⟩
  | drained _ hop _ _ =>
    refine h.of_same _ rfl rfl rfl ⟨?_, rfl⟩
    rcases hop with rfl | rfl <;> rfl
  | close => exact h.of_same _ rfl rfl rfl ⟨rfl, rfl⟩
  | accept v hlt _ =>
    refine ⟨h.sameCapacity, ?_, L.put v, hfollows.put v, ?_, ?_⟩
    · simp only [List.length_append, List.length_singleton]
      omega
    · rw [Ledger.produced_put, hproduced, accepted_snoc]
      rfl
    · rw [Ledger.delivered_put, hdelivered, deliveries_snoc]
      simp [QueueEvent.delivery, deliveries]
  | replace v _ hfull =>
    have hput := (hfollows.discard (n := 1) (by omega)).put v
    rw [List.drop_one] at hput
    refine ⟨h.sameCapacity, ?_, (L.discard 1).put v, hput, ?_, ?_⟩
    · simp only [List.length_append, List.length_tail, List.length_singleton]
      omega
    · rw [Ledger.produced_put, Ledger.produced_discard, hproduced, accepted_snoc]
      rfl
    · rw [Ledger.delivered_put, Ledger.delivered_discard, hdelivered, deliveries_snoc]
      simp [QueueEvent.delivery, deliveries]
  | take v rest hitems =>
    obtain ⟨hafter, hgot⟩ := hfollows.deliver hitems
    refine ⟨h.sameCapacity, ?_, L.deliver 1, hafter, ?_, ?_⟩
    · rw [hitems, List.length_cons] at hroom
      exact Nat.le_of_succ_le hroom
    · rw [Ledger.produced_deliver, hproduced, accepted_snoc]
      simp [QueueEvent.accepted, accepted]
    · rw [hgot, hdelivered, deliveries_snoc, List.map_append]
      rfl
  | takeLatest older v hitems =>
    obtain ⟨hafter, hgot⟩ := hfollows.deliverNewest hitems
    refine ⟨h.sameCapacity, Nat.zero_le _, _, hafter, ?_, ?_⟩
    · rw [Ledger.produced_deliver, Ledger.produced_discard, hproduced, accepted_snoc]
      simp [QueueEvent.accepted, accepted]
    · rw [hgot, hdelivered, deliveries_snoc, List.map_append]
      rfl

theorem reachable_conserves {capacity : ℕ} {policy : OverflowPolicy} (hcap : 1 ≤ capacity)
    {s : QueueHistory ι α} (hs : (system ι α capacity policy).Reachable s) :
    Conserves capacity s := by
  apply hs.invariant
  · exact ⟨rfl, Nat.zero_le _, {}, ⟨rfl, rfl⟩, rfl, rfl⟩
  · intro s a t _ ih hstep
    exact ih.step hcap hstep

/-- Only a full drop-oldest queue and `pop_latest` drop items. -/
theorem dropped_eq_zero {capacity : ℕ} {s : QueueHistory ι α}
    (hs : (system ι α capacity .blockWhenFull).Reachable s)
    (hpops : ∀ e ∈ s.log, e.op ≠ .popLatest) : s.queue.dropped = 0 := by
  revert hpops
  apply hs.invariant (I := fun s => (∀ e ∈ s.log, e.op ≠ .popLatest) → s.queue.dropped = 0)
  · exact fun _ => rfl
  · intro s a t hs ih hstep hpops
    obtain ⟨q, answer, hperforms, rfl⟩ := next_spec hstep
    obtain ⟨i, op⟩ := a
    have hbefore : s.queue.dropped = 0 := ih fun e he => hpops e (List.mem_append_left _ he)
    cases hperforms with
    | refuse | accept | take | drained | close => exact hbefore
    | replace v hpolicy _ =>
      rw [policy_eq hs] at hpolicy
      contradiction
    | takeLatest older v _ =>
      exact absurd rfl (hpops _ (List.mem_append_right _ (List.mem_singleton_self _)))

/-- In every interleaving the queue keeps to its capacity; each accepted item is still queued, was
delivered by one operation, or is counted as dropped; deliveries follow the push order; the queue
holds the newest accepted items; and a blocking queue without `pop_latest` drops nothing. -/
theorem queue_conserves {capacity : ℕ} (hcap : 1 ≤ capacity) {policy : OverflowPolicy}
    {s : QueueHistory ι α} (hs : (system ι α capacity policy).Reachable s) :
    s.queue.items.length ≤ capacity ∧
      (∃ L : Ledger α, L.produced = s.accepted ∧ L.pending = s.queue.items ∧
        L.delivered = s.deliveries.map Prod.snd ∧ L.discarded.length = s.queue.dropped) ∧
      (s.deliveries.map Prod.snd).Sublist s.accepted ∧
      s.queue.items <:+ s.accepted ∧
      (policy = .blockWhenFull → (∀ e ∈ s.log, e.op ≠ .popLatest) → s.queue.dropped = 0) := by
  have hconserves := reachable_conserves hcap hs
  obtain ⟨L, hfollows, hproduced, hdelivered⟩ := hconserves.ledger
  refine ⟨hconserves.room, ⟨L, hproduced, hfollows.items.symm, hdelivered,
    hfollows.dropped.symm⟩, ?_, ?_, ?_⟩
  · rw [← hproduced, ← hdelivered]
    exact (List.sublist_append_left _ _).trans L.delivered_sublist
  · rw [← hproduced, hfollows.items]
    exact List.suffix_append _ _
  · rintro rfl
    exact dropped_eq_zero hs

/-- Three pushes into two places, then a `pop`. -/
theorem queue_conserves_overfull :
    ∃ s, (system ℕ ℕ 2 .dropOldestWhenFull).Reachable s ∧
      (s.queue.items = [12] ∧ s.queue.dropped = 1) ∧ s.deliveries = [(1, 11)] ∧
      s.queue.items <:+ s.accepted := by
  have hrun : ∃ s, (system ℕ ℕ 2 .dropOldestWhenFull).Reachable s ∧
      (s.queue.items = [12] ∧ s.queue.dropped = 1) ∧ s.deliveries = [(1, 11)] :=
    exists_reachable_of_exec [(0, .push 10), (0, .push 11), (0, .push 12), (1, .pop)] (by decide)
  obtain ⟨s, hs, hqueue, hdeliveries⟩ := hrun
  exact ⟨s, hs, hqueue, hdeliveries, (queue_conserves (by decide) hs).2.2.2.1⟩

/-- After `close` no push is accepted, and after a pop that returned nothing no pop returns an
item. -/
structure CloseIsFinal (log : List (QueueEvent ι α)) : Prop where
  push : log.Pairwise fun e f => e.op = .close → f.accepted = none
  pop : log.Pairwise fun e f => e.answer = .popped none → f.delivery = none

theorem CloseIsFinal.of_snoc {log : List (QueueEvent ι α)} {e : QueueEvent ι α}
    (h : CloseIsFinal (log ++ [e])) : CloseIsFinal log :=
  ⟨(List.pairwise_append.mp h.push).1, (List.pairwise_append.mp h.pop).1⟩

theorem closeIsFinal_snoc_iff {log : List (QueueEvent ι α)} {e : QueueEvent ι α}
    (h : CloseIsFinal log) :
    CloseIsFinal (log ++ [e]) ↔ ((∃ d ∈ log, d.op = .close) → e.accepted = none) ∧
      ((∃ d ∈ log, d.answer = .popped none) → e.delivery = none) := by
  have hsnoc (r : QueueEvent ι α → QueueEvent ι α → Prop) (hlog : log.Pairwise r) :
      (log ++ [e]).Pairwise r ↔ ∀ d ∈ log, r d e := by
    simp [List.pairwise_append, hlog]
  constructor
  · rintro ⟨hpush, hpop⟩
    constructor
    · rintro ⟨d, hd, hclose⟩
      exact (hsnoc _ h.push).mp hpush d hd hclose
    · rintro ⟨d, hd, hnone⟩
      exact (hsnoc _ h.pop).mp hpop d hd hnone
  · rintro ⟨hpush, hpop⟩
    exact ⟨(hsnoc _ h.push).mpr fun d hd hclose => hpush ⟨d, hd, hclose⟩,
      (hsnoc _ h.pop).mpr fun d hd hnone => hpop ⟨d, hd, hnone⟩⟩

/-- `closed_` is set exactly when the log has a `close`. -/
theorem closed_iff {capacity : ℕ} {policy : OverflowPolicy} {s : QueueHistory ι α}
    (hs : (system ι α capacity policy).Reachable s) :
    s.queue.closed = true ↔ ∃ e ∈ s.log, e.op = .close := by
  apply hs.invariant (I := fun s => s.queue.closed = true ↔ ∃ e ∈ s.log, e.op = .close)
  · simp [system, LTS.ofNext]
  · intro s a t _ ih hstep
    obtain ⟨q, answer, hperforms, rfl⟩ := next_spec hstep
    obtain ⟨i, op⟩ := a
    have hother : op ≠ .close →
        ((∃ e ∈ s.log ++ [(⟨i, op, answer⟩ : QueueEvent ι α)], e.op = .close) ↔
          ∃ e ∈ s.log, e.op = .close) := by
      intro hop
      simp [or_and_right, exists_or, hop]
    cases hperforms with
    | refuse | accept | replace | take | takeLatest => rw [hother (by simp)]; exact ih
    | drained _ hop _ _ =>
      rw [hother (by rcases hop with rfl | rfl <;> simp)]
      exact ih
    | close =>
      refine ⟨fun _ => ?_, fun _ => rfl⟩
      exact ⟨_, List.mem_append_right _ (List.mem_singleton_self _), rfl⟩

/-- While closing is final, a pop that returned nothing has left the queue closed and empty. -/
theorem drained_of_popped_none {capacity : ℕ} {policy : OverflowPolicy} {s : QueueHistory ι α}
    (hs : (system ι α capacity policy).Reachable s) (hfinal : CloseIsFinal s.log)
    (hnone : ∃ e ∈ s.log, e.answer = .popped none) :
    s.queue.closed = true ∧ s.queue.items = [] := by
  revert hfinal hnone
  apply hs.invariant (I := fun s => CloseIsFinal s.log →
    (∃ e ∈ s.log, e.answer = .popped none) → s.queue.closed = true ∧ s.queue.items = [])
  · rintro _ ⟨e, he, _⟩
    contradiction
  · intro s a t hs ih hstep hfinal hnone
    obtain ⟨q, answer, hperforms, rfl⟩ := next_spec hstep
    obtain ⟨i, op⟩ := a
    have hbefore := hfinal.of_snoc
    obtain ⟨hpush, _⟩ := (closeIsFinal_snoc_iff hbefore).mp hfinal
    have hearlier : answer ≠ .popped none → s.queue.closed = true ∧ s.queue.items = [] := by
      intro hanswer
      obtain ⟨e, he, heq⟩ := hnone
      rcases List.mem_append.mp he with he | he
      · exact ih hbefore ⟨e, he, heq⟩
      · obtain rfl := List.mem_singleton.mp he
        exact absurd heq hanswer
    cases hperforms with
    | refuse => exact hearlier (by simp)
    | accept v _ _ | replace v _ _ =>
      have hclosed := (closed_iff hs).mp (hearlier (by simp)).1
      exact absurd (hpush hclosed) (by simp [QueueEvent.accepted])
    | take v rest hitems =>
      rw [(hearlier (by simp)).2] at hitems
      contradiction
    | takeLatest older v hitems =>
      rw [(hearlier (by simp)).2] at hitems
      simp at hitems
    | drained _ _ hitems hclosed => exact ⟨hclosed, hitems⟩
    | close => exact ⟨rfl, (hearlier (by simp)).2⟩

/-- A drop-oldest queue is not pushed to once `closed_` is set. -/
def PushesOpen (s : QueueHistory ι α) (a : ι × QueueOp α) : Prop :=
  match a.2 with
  | .push _ => s.queue.policy = .blockWhenFull ∨ s.queue.closed = false
  | _ => True

/-- A step keeps closing final exactly when it is no push to a closed drop-oldest queue. -/
theorem step_closeIsFinal_iff {capacity : ℕ} {policy : OverflowPolicy} {s t : QueueHistory ι α}
    {a : ι × QueueOp α} (hs : (system ι α capacity policy).Reachable s)
    (hfinal : CloseIsFinal s.log) (hstep : s.next a = some t) :
    CloseIsFinal t.log ↔ PushesOpen s a := by
  obtain ⟨q, answer, hperforms, rfl⟩ := next_spec hstep
  obtain ⟨i, op⟩ := a
  rw [closeIsFinal_snoc_iff hfinal, ← closed_iff hs]
  have hdrained := drained_of_popped_none hs hfinal
  cases hperforms with
  | refuse v hpolicy _ => simp [PushesOpen, QueueEvent.accepted, QueueEvent.delivery, hpolicy]
  | accept v _ hopen =>
    simp only [PushesOpen, QueueEvent.accepted, QueueEvent.delivery, reduceCtorEq, imp_false,
      implies_true, and_true, Bool.not_eq_true]
    exact ⟨.inr, fun h => h.elim hopen id⟩
  | replace v hpolicy _ =>
    simp [PushesOpen, QueueEvent.accepted, QueueEvent.delivery, hpolicy]
  | take v rest hitems =>
    have hnever : ¬ ∃ e ∈ s.log, e.answer = .popped none := by
      intro h
      rw [(hdrained h).2] at hitems
      contradiction
    simp only [PushesOpen, QueueEvent.accepted, hnever, implies_true, false_implies, and_self]
  | takeLatest older v hitems =>
    have hnever : ¬ ∃ e ∈ s.log, e.answer = .popped none := by
      intro h
      rw [(hdrained h).2] at hitems
      simp at hitems
    simp only [PushesOpen, QueueEvent.accepted, hnever, implies_true, false_implies, and_self]
  | drained _ hop _ _ =>
    rcases hop with rfl | rfl <;> simp [PushesOpen, QueueEvent.accepted, QueueEvent.delivery]
  | close => simp [PushesOpen, QueueEvent.accepted, QueueEvent.delivery]

/-- The runs in which closing is final are those that never push to a closed drop-oldest queue;
for a blocking queue these are all runs. -/
theorem closeIsFinal_iff (ι α : Type*) (capacity : ℕ) (policy : OverflowPolicy) :
    (∀ s, ((system ι α capacity policy).restrict PushesOpen).Reachable s ↔
      (system ι α capacity policy).Reachable s ∧ CloseIsFinal s.log) ∧
    (policy = .blockWhenFull → ∀ s, (system ι α capacity policy).Reachable s →
      CloseIsFinal s.log) := by
  have hstart : CloseIsFinal ((system ι α capacity policy).start).log :=
    ⟨List.Pairwise.nil, List.Pairwise.nil⟩
  have hback : ∀ s a t, (system ι α capacity policy).step s a t → CloseIsFinal t.log →
      CloseIsFinal s.log := by
    intro s a t hstep hfinal
    obtain ⟨q, answer, _, rfl⟩ := next_spec hstep
    exact hfinal.of_snoc
  have hruns := LTS.reachable_restrict_iff (I := fun s => CloseIsFinal s.log) hstart hback
    fun s a t hs hfinal hstep => step_closeIsFinal_iff hs hfinal hstep
  refine ⟨hruns, ?_⟩
  rintro rfl s hs
  apply hs.invariant (I := fun s => CloseIsFinal s.log) hstart
  intro s a t hs hfinal hstep
  refine (step_closeIsFinal_iff hs hfinal hstep).mpr ?_
  obtain ⟨i, op⟩ := a
  cases op with
  | push v => exact .inl (policy_eq hs)
  | pop | popLatest | close => trivial

/-- A drained and closed drop-oldest queue takes another frame, and the next `pop` returns it. -/
theorem closeIsFinal_broken :
    ∃ s, (system ℕ ℕ 4 .dropOldestWhenFull).Reachable s ∧ ¬ CloseIsFinal s.log := by
  have hrun : ∃ s, (system ℕ ℕ 4 .dropOldestWhenFull).Reachable s ∧
      s.log = [⟨0, .close, .closed⟩, ⟨1, .pop, .popped none⟩,
        ⟨0, .push 7, .pushed true⟩, ⟨1, .pop, .popped (some 7)⟩] :=
    exists_reachable_of_exec [(0, .close), (1, .pop), (0, .push 7), (1, .pop)] (by decide)
  obtain ⟨s, hs, hlog⟩ := hrun
  refine ⟨s, hs, fun h => ?_⟩
  have hpush := h.push
  rw [hlog] at hpush
  revert hpush
  decide

end QueueHistory
end ForkliftSafety
