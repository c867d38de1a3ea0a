import ForkliftSafety.Shared.QueueThreads

/-! Consumers of a `ConcurrentQueue`: none sleeps on beside an item, and none after `close`. -/
namespace ForkliftSafety
open Monitor Transition

namespace QueueThreads
open ConcurrentQueue QueueThread
variable {n : ℕ} {α : Type*}

/-- While a consumer sleeps, every queued item has an awakened consumer on its way. -/
def ItemsCovered (s : QueueThreads n α) : Prop :=
  (condition α .notEmpty).Covered s.history.queue.items.length s.threads

theorem itemsCovered_act {s : QueueThreads n α} {a : QueueLabel n α} {t : Fin n}
    {op : QueueOp α} {choice : Option (Fin n)} {q : ConcurrentQueue α} {answer : QueueAnswer α}
    {threads : Fin n → QueueThread α} (h : s.ItemsCovered) (henters : Enters s a t op choice)
    (hperforms : Performs s.history.queue op q answer)
    (hsignal : signal answer.notifies (Function.update s.threads t (afterwards answer)) choice =
      some threads) :
    (condition α .notEmpty).Covered q.items.length threads := by
  cases hperforms with
  | refuse v _ _ =>
    exact covered_of_signal_other (by simp [QueueAnswer.notifies])
      (covered_leave_other henters (by simp [QueueOp.waitsOn]) _ h) hsignal
  | accept v _ _ =>
    have hcover := covered_leave_other henters (by simp [QueueOp.waitsOn]) (.pushed true) h
    rw [List.length_append, List.length_singleton]
    exact hcover.notifyOne hsignal
  | replace v _ _ =>
    have hcover := covered_leave_other henters (by simp [QueueOp.waitsOn]) (.pushed true) h
    apply (hcover.notifyOne hsignal).mono
    rw [List.length_append, List.length_tail, List.length_singleton]
    omega
  | take v rest hitems =>
    rw [ItemsCovered, hitems, List.length_cons] at h
    exact covered_of_signal_other (by simp [QueueAnswer.notifies]) (covered_leave t _ h) hsignal
  | takeLatest => exact Condition.covered_zero _
  | drained _ _ hitems _ =>
    rw [hitems]
    exact Condition.covered_zero _
  | close =>
    exact covered_of_signal_other (by simp [QueueAnswer.notifies])
      (covered_leave_other henters (by simp [QueueOp.waitsOn]) _ h) hsignal

/-- Some call of `close` has set `closed_`. -/
def CloseCalled (s : QueueThreads n α) : Prop :=
  s.closeReturned = true ∨ ∃ t, s.threads t = .closing ∨ s.threads t = .closingFull

/-- Some call of `close` is past its first `notify_all`. -/
def CloseNotified (s : QueueThreads n α) : Prop :=
  s.closeReturned = true ∨ ∃ t, s.threads t = .closingFull

/-- Items are covered, and `close` leaves no consumer asleep. -/
structure ConsumersAwake (s : QueueThreads n α) : Prop where
  covered : s.ItemsCovered
  closed : s.CloseCalled → s.history.queue.closed = true
  awake : s.CloseNotified → ¬ (condition α .notEmpty).Sleeps s.threads

theorem performs_closed {q q' : ConcurrentQueue α} {op : QueueOp α} {answer : QueueAnswer α}
    (h : Performs q op q' answer) (hclosed : q.closed = true ∨ answer = .closed) :
    q'.closed = true := by
  cases h with
  | close => rfl
  | refuse | accept | replace | take | takeLatest | drained => simpa using hclosed

theorem ConsumersAwake.act {s : QueueThreads n α} {a : QueueLabel n α} {t : Fin n}
    {op : QueueOp α} {choice : Option (Fin n)} {q : ConcurrentQueue α} {answer : QueueAnswer α}
    {threads : Fin n → QueueThread α} (h : s.ConsumersAwake) (henters : Enters s a t op choice)
    (hperforms : Performs s.history.queue op q answer)
    (hsignal : signal answer.notifies (Function.update s.threads t (afterwards answer)) choice =
      some threads) (log : List (QueueEvent (Fin n) α)) :
    ({ s with history := ⟨q, log⟩, threads := threads } : QueueThreads n α).ConsumersAwake := by
  have hawakens := signal_awakens hsignal
  have hbefore (l : QueueThread α) (hl : ∀ op, l ≠ .woken op) (u : Fin n) (hu : threads u = l) :
      s.threads u = l ∨ afterwards answer = l := by
    have heq := hawakens.eq_of_ne_woken (u := u) fun op => hu ▸ hl op
    rw [hu] at heq
    by_cases hut : u = t
    · subst hut
      rw [Function.update_self] at heq
      exact .inr heq.symm
    · rw [Function.update_of_ne hut] at heq
      exact .inl heq.symm
  have hfull : afterwards answer ≠ .closingFull := by
    unfold afterwards
    split <;> simp
  refine ⟨itemsCovered_act h.covered henters hperforms hsignal, ?_, ?_⟩
  · intro hcalled
    apply performs_closed hperforms
    by_cases hanswer : answer = .closed
    · exact .inr hanswer
    have hclosing : afterwards answer ≠ .closing := by
      unfold afterwards
      split
      · contradiction
      · simp
    refine .inl (h.closed ?_)
    rcases hcalled with hreturned | ⟨u, hu | hu⟩
    · exact .inl hreturned
    · exact .inr ⟨u, .inl ((hbefore _ (by simp) u hu).resolve_right hclosing)⟩
    · exact .inr ⟨u, .inr ((hbefore _ (by simp) u hu).resolve_right hfull)⟩
  · intro hnotified hsleeps
    refine h.awake ?_ (sleeps_of_update (afterwards_isAwake answer _) (hawakens.sleeps hsleeps))
    rcases hnotified with hreturned | ⟨u, hu⟩
    · exact .inl hreturned
    · exact .inr ⟨u, (hbefore _ (by simp) u hu).resolve_right hfull⟩

theorem ConsumersAwake.sleep {s : QueueThreads n α} {a : QueueLabel n α} {t : Fin n}
    {op : QueueOp α} {choice : Option (Fin n)} (h : s.ConsumersAwake)
    (henters : Enters s a t op choice) (hwaits : s.history.queue.perform op = none) :
    ({ s with threads := Function.update s.threads t (.asleep op) } :
      QueueThreads n α).ConsumersAwake := by
  have hcalled : ∀ l u, l ≠ .asleep op → Function.update s.threads t (.asleep op) u = l →
      s.threads u = l := fun l u hl hu => thread_of_update hu hl
  have hnotified : ({ s with threads := Function.update s.threads t (.asleep op) } :
      QueueThreads n α).CloseNotified → s.CloseNotified := by
    rintro (hreturned | ⟨u, hu⟩)
    · exact .inl hreturned
    · exact .inr ⟨u, hcalled _ u (by simp) hu⟩
  refine ⟨?_, ?_, ?_⟩
  · rcases perform_eq_none hwaits with ⟨_, hitems, _⟩ | ⟨hop, _, _⟩
    · show (condition α .notEmpty).Covered s.history.queue.items.length _
      rw [hitems]
      exact Condition.covered_zero _
    · exact covered_sleep_other henters (by simp [hop]) h.covered
  · rintro (hreturned | ⟨u, hu | hu⟩)
    · exact h.closed (.inl hreturned)
    · exact h.closed (.inr ⟨u, .inl (hcalled _ u (by simp) hu)⟩)
    · exact h.closed (.inr ⟨u, .inr (hcalled _ u (by simp) hu)⟩)
  · intro hafter hsleeps
    rcases perform_eq_none hwaits with ⟨_, _, hopen⟩ | ⟨hop, _, _⟩
    · have hclosed : s.history.queue.closed = true :=
        h.closed ((hnotified hafter).imp id fun ⟨u, hu⟩ => ⟨u, .inr hu⟩)
      rw [hopen] at hclosed
      contradiction
    · have hl : (QueueThread.asleep op).isAsleepOn .notEmpty = false :=
        decide_eq_false (by simp [hop])
      exact h.awake (hnotified hafter) (sleeps_of_update hl hsleeps)

theorem ConsumersAwake.step {s s' : QueueThreads n α} {a : QueueLabel n α}
    (h : s.ConsumersAwake) (hstep : s.next a = some s') : s'.ConsumersAwake := by
  cases next_moves hstep with
  | sleep henters hwaits => exact h.sleep henters hwaits
  | act henters hperform hsignal =>
    exact h.act henters (perform_performs hperform) hsignal _
  | @notifyEmpty t ht =>
    have hclosed := h.closed (.inr ⟨t, .inl ht⟩)
    have hawake : ¬ (condition α .notEmpty).Sleeps
        (Function.update ((condition α .notEmpty).notifyAll s.threads) t .closingFull) :=
      fun hs => (condition α .notEmpty).notifyAll_not_sleeps s.threads (sleeps_of_update rfl hs)
    exact ⟨Condition.covered_of_not_sleeps hawake, fun _ => hclosed, fun _ => hawake⟩
  | @notifyFull t ht =>
    have hclosed := h.closed (.inr ⟨t, .inr ht⟩)
    have hawake : ¬ (condition α .notEmpty).Sleeps
        (Function.update ((condition α .notFull).notifyAll s.threads) t .idle) :=
      fun hs => h.awake (.inr ⟨t, ht⟩) ((notifyAll_awakens .notFull _).sleeps
        (sleeps_of_update rfl hs))
    exact ⟨Condition.covered_of_not_sleeps hawake, fun _ => hclosed, fun _ => hawake⟩
  | @spurious t op ht =>
    have hawakens : Awakens s.threads (Function.update s.threads t (.woken op)) := by
      intro u
      by_cases hut : u = t
      · subst hut
        exact .inr ⟨op, ht, Function.update_self _ _ _⟩
      · exact .inl (Function.update_of_ne hut _ _)
    have hsame (l : QueueThread α) (hl : ∀ op, l ≠ .woken op) (u : Fin n)
        (hu : Function.update s.threads t (.woken op) u = l) : s.threads u = l :=
      thread_of_update hu (hl op)
    refine ⟨covered_spurious ht h.covered, ?_, ?_⟩
    · rintro (hreturned | ⟨u, hu | hu⟩)
      · exact h.closed (.inl hreturned)
      · exact h.closed (.inr ⟨u, .inl (hsame _ (by simp) u hu)⟩)
      · exact h.closed (.inr ⟨u, .inr (hsame _ (by simp) u hu)⟩)
    · rintro (hreturned | ⟨u, hu⟩) hsleeps
      · exact h.awake (.inl hreturned) (hawakens.sleeps hsleeps)
      · exact h.awake (.inr ⟨u, hsame _ (by simp) u hu⟩) (hawakens.sleeps hsleeps)

theorem reachable_consumersAwake {capacity : ℕ} {policy : OverflowPolicy}
    {s : QueueThreads n α} (hs : (system n α capacity policy).Reachable s) :
    s.ConsumersAwake := by
  apply hs.invariant
  · refine ⟨Condition.covered_zero _, ?_, ?_⟩
    · rintro (h | ⟨t, h | h⟩) <;> contradiction
    · rintro (h | ⟨t, h⟩) <;> contradiction
  · intro s a s' _ ih hstep
    exact ih.step hstep

/-- No run leaves a consumer asleep beside a queued item unless some awakened consumer has yet to
look; and once a `close` has returned no consumer sleeps. -/
theorem no_stuck_consumer {capacity : ℕ} {policy : OverflowPolicy} {s : QueueThreads n α}
    (hs : (system n α capacity policy).Reachable s) :
    ¬ ((∃ t, (s.threads t).isAsleepOn .notEmpty = true) ∧ s.history.queue.items ≠ [] ∧
        ¬ ∃ t, (s.threads t).isWokenFrom .notEmpty = true) ∧
      (s.closeReturned = true → ∀ t, (s.threads t).isAsleepOn .notEmpty = false) := by
  have hawake := reachable_consumersAwake hs
  constructor
  · rintro ⟨hsleeps, hitems, hnone⟩
    exact hnone (hawake.covered.exists_awakened hsleeps (List.length_pos_of_ne_nil hitems))
  · intro hreturned t
    exact Bool.eq_false_iff.mpr fun ht => hawake.awake (.inl hreturned) ⟨t, ht⟩

/-- Two consumers sleep, one item comes, and one of them is awakened for it. -/
theorem no_stuck_consumer_two :
    ∃ s, (system 3 ℕ 4 .dropOldestWhenFull).Reachable s ∧
      (s.threads 1 = .asleep .pop ∧ s.history.queue.items = [7]) ∧
      ¬ ((∃ t, (s.threads t).isAsleepOn .notEmpty = true) ∧ s.history.queue.items ≠ [] ∧
        ¬ ∃ t, (s.threads t).isWokenFrom .notEmpty = true) := by
  have hrun : ∃ s, (system 3 ℕ 4 .dropOldestWhenFull).Reachable s ∧
      s.threads 1 = .asleep .pop ∧ s.history.queue.items = [7] :=
    exists_reachable_of_exec [.start 0 .popLatest none, .start 1 .pop none,
      .start 2 (.push 7) (some 0)] (by decide)
  obtain ⟨s, hs, hstate⟩ := hrun
  exact ⟨s, hs, hstate, (no_stuck_consumer hs).1⟩

end QueueThreads
end ForkliftSafety
