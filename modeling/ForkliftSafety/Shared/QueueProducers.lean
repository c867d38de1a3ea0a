import ForkliftSafety.Shared.QueueConsumers

/-! Producers of a blocking `ConcurrentQueue`, and the places that `pop_latest` frees. -/
namespace ForkliftSafety
open Monitor Transition

namespace QueueThreads
open ConcurrentQueue QueueThread
variable {n : ℕ} {α : Type*}

/-- While a producer sleeps at an open queue, every free place has an awakened producer on its
way. -/
def PlacesCovered (s : QueueThreads n α) : Prop :=
  s.history.queue.closed = false →
    (condition α .notFull).Covered (s.history.queue.capacity - s.history.queue.items.length)
      s.threads

/-- A `pop_latest` that takes an item from an open queue finds one sleeping producer at most, or
enough awakened ones for all places but one. -/
def FreesWatched (s : QueueThreads n α) (a : QueueLabel n α) : Prop :=
  ∀ t choice, Enters s a t .popLatest choice →
    s.history.queue.items = [] ∨ s.history.queue.closed = true ∨
    (∀ u v, (s.threads u).isAsleepOn .notFull = true → (s.threads v).isAsleepOn .notFull = true →
      u = v) ∨
    s.history.queue.capacity ≤ (condition α .notFull).awakenedCount s.threads + 1

/-- A producer sleeps although there is room in the open queue, and nobody is about to look or to
notify. -/
structure ProducerStuck (s : QueueThreads n α) : Prop where
  isOpen : s.history.queue.closed = false
  room : s.history.queue.items.length < s.history.queue.capacity
  asleep : ∃ t, (s.threads t).isAsleepOn .notFull = true
  noneWoken : ¬ ∃ t, (s.threads t).isWokenFrom .notFull = true
  noneNotifies : ∀ t, s.threads t ≠ .closing ∧ s.threads t ≠ .closingFull

theorem PlacesCovered.not_stuck {s : QueueThreads n α} (h : s.PlacesCovered) :
    ¬ s.ProducerStuck := fun hstuck =>
  hstuck.noneWoken ((h hstuck.isOpen).exists_awakened hstuck.asleep
    (Nat.sub_pos_of_lt hstuck.room))

/-- All sleeping producers are one, and it is notified. -/
theorem covered_of_one_asleep {threads threads' : Fin n → QueueThread α}
    {choice : Option (Fin n)} {available : ℕ}
    (hone : ∀ u v, (threads u).isAsleepOn .notFull = true →
      (threads v).isAsleepOn .notFull = true → u = v)
    (h : (condition α .notFull).notifyOne threads choice = some threads') :
    (condition α .notFull).Covered available threads' := by
  apply Condition.covered_of_not_sleeps
  rcases Condition.notifyOne_cases h with ⟨w, _, hw, rfl⟩ | ⟨hnone, rfl⟩
  · rintro ⟨u, hu⟩
    by_cases huw : u = w
    · subst huw
      rw [Function.update_self, (condition α .notFull).asleep_wake _ hw] at hu
      contradiction
    · rw [Function.update_of_ne huw] at hu
      exact huw (hone u w hu hw)
  · exact hnone

theorem placesCovered_act {s : QueueThreads n α} {a : QueueLabel n α} {t : Fin n}
    {op : QueueOp α} {choice : Option (Fin n)} {q : ConcurrentQueue α} {answer : QueueAnswer α}
    {threads : Fin n → QueueThread α} (h : s.PlacesCovered)
    (hblock : s.history.queue.policy = .blockWhenFull) (hwatched : FreesWatched s a)
    (henters : Enters s a t op choice) (hperforms : Performs s.history.queue op q answer)
    (hsignal : signal answer.notifies (Function.update s.threads t (afterwards answer)) choice =
      some threads) (hopen : q.closed = false) :
    (condition α .notFull).Covered (q.capacity - q.items.length) threads := by
  cases hperforms with
  | refuse v _ hclosed | drained _ _ _ hclosed =>
    rw [hopen] at hclosed
    contradiction
  | accept v hroom _ =>
    have hleft : s.history.queue.capacity - s.history.queue.items.length =
        s.history.queue.capacity - (s.history.queue.items ++ [v]).length + 1 := by
      rw [List.length_append, List.length_singleton]
      omega
    have hcover := h hopen
    rw [hleft] at hcover
    exact covered_of_signal_other (by simp [QueueAnswer.notifies]) (covered_leave t _ hcover)
      hsignal
  | replace v hpolicy _ =>
    rw [hblock] at hpolicy
    contradiction
  | take v rest hitems =>
    have hcover := covered_leave_other henters (by simp [QueueOp.waitsOn]) (.popped (some v))
      (h hopen)
    apply (hcover.notifyOne hsignal).mono
    show s.history.queue.capacity - rest.length ≤ _
    rw [hitems, List.length_cons]
    omega
  | takeLatest older v hitems =>
    rcases hwatched t choice henters with hnil | hclosed | hone | hcount
    · rw [hitems] at hnil
      simp at hnil
    · exact absurd (hclosed.symm.trans hopen) (by simp)
    · have hawake (u : Fin n) (hu : (Function.update s.threads t
          (afterwards (.popped (some v))) u).isAsleepOn .notFull = true) :
          (s.threads u).isAsleepOn .notFull = true := asleep_of_update rfl hu
      exact covered_of_one_asleep (fun u v hu hv => hone u v (hawake u hu) (hawake v hv)) hsignal
    · have hcover : (condition α .notFull).Covered
          ((condition α .notFull).awakenedCount s.threads) s.threads := fun _ => le_rfl
      have hleave := covered_leave_other henters (by simp [QueueOp.waitsOn])
        (.popped (some v)) hcover
      exact (hleave.notifyOne hsignal).mono hcount
  | close => contradiction

/-- Nobody is about to notify at a queue that is still open. -/
theorem noneNotifies_of_open {capacity : ℕ} {policy : OverflowPolicy} {s : QueueThreads n α}
    (hs : (system n α capacity policy).Reachable s) (hopen : s.history.queue.closed = false)
    (t : Fin n) : s.threads t ≠ .closing ∧ s.threads t ≠ .closingFull := by
  have hclosers := (reachable_consumersAwake hs).closed
  constructor <;> intro ht
  · exact absurd ((hclosers (.inr ⟨t, .inl ht⟩)).symm.trans hopen) (by simp)
  · exact absurd ((hclosers (.inr ⟨t, .inr ht⟩)).symm.trans hopen) (by simp)

theorem PlacesCovered.step {capacity : ℕ} {s s' : QueueThreads n α} {a : QueueLabel n α}
    (hs : (system n α capacity .blockWhenFull).Reachable s) (h : s.PlacesCovered)
    (hwatched : FreesWatched s a) (hstep : s.next a = some s') : s'.PlacesCovered := by
  have hblock := QueueHistory.policy_eq (history_reachable hs)
  intro hopen
  cases next_moves hstep with
  | act henters hperform hsignal =>
    exact placesCovered_act h hblock hwatched henters (perform_performs hperform) hsignal hopen
  | @sleep _ t op _ henters hwaits =>
    rcases perform_eq_none hwaits with ⟨hop, _, _⟩ | ⟨_, _, hfull⟩
    · exact covered_sleep_other henters (by simp [hop]) (h hopen)
    · show (condition α .notFull).Covered
        (s.history.queue.capacity - s.history.queue.items.length) _
      rw [Nat.sub_eq_zero_of_le hfull]
      exact Condition.covered_zero _
  | @notifyEmpty t ht => exact absurd ht (noneNotifies_of_open hs hopen t).1
  | @notifyFull t ht => exact absurd ht (noneNotifies_of_open hs hopen t).2
  | spurious ht => exact covered_spurious ht (h hopen)

theorem exists_push_of_isWokenFrom {l : QueueThread α} (h : l.isWokenFrom .notFull = true) :
    ∃ v, l = .woken (.push v) := by
  cases l with
  | woken op =>
    cases op with
    | push v => exact ⟨v, rfl⟩
    | pop | popLatest | close => contradiction
  | idle | asleep | closing | closingFull => contradiction

theorem perform_push_of_room {q : ConcurrentQueue α} (hblock : q.policy = .blockWhenFull)
    (hopen : q.closed = false) (hroom : q.items.length < q.capacity) (v : α) :
    q.perform (.push v) = some ({ q with items := q.items ++ [v] }, .pushed true) := by
  have hpush : q.push v = some ({ q with items := q.items ++ [v] }, true) := by
    unfold push
    split
    case h_1 => rw [if_neg (by simp [hopen]), if_pos hroom]
    case h_2 hdrop =>
      rw [hblock] at hdrop
      contradiction
  rw [perform, hpush]
  rfl

/-- An awakened producer that finds room pushes its item and leaves the other producers alone. -/
theorem resume_push {s : QueueThreads n α} (hblock : s.history.queue.policy = .blockWhenFull)
    (hopen : s.history.queue.closed = false)
    (hroom : s.history.queue.items.length < s.history.queue.capacity) {t : Fin n} {v : α}
    (ht : s.threads t = .woken (.push v)) :
    ∃ choice s', s.next (.resume t choice) = some s' ∧
      s'.history.queue = { s.history.queue with items := s.history.queue.items ++ [v] } ∧
      (condition α .notFull).awakenedCount s'.threads + 1 =
        (condition α .notFull).awakenedCount s.threads ∧
      ∀ u, (s'.threads u).isAsleepOn .notFull = (s.threads u).isAsleepOn .notFull := by
  have hpush := perform_push_of_room hblock hopen hroom v
  let threads := Function.update s.threads t (afterwards (.pushed true))
  obtain ⟨choice, threads', hsignal⟩ := (condition α .notEmpty).exists_notifyOne threads
  have hother (u : Fin n) :
      (threads' u).isAsleepOn .notFull = (threads u).isAsleepOn .notFull ∧
        (threads' u).isWokenFrom .notFull = (threads u).isWokenFrom .notFull :=
    signal_other (show some .notEmpty ≠ some .notFull by simp) hsignal u
  refine ⟨choice, { s with
    history := ⟨{ s.history.queue with items := s.history.queue.items ++ [v] },
      s.history.log ++ [⟨t, .push v, .pushed true⟩]⟩
    threads := threads' }, ?_, rfl, ?_, ?_⟩
  · simp only [next, ht, criticalSection, hpush]
    exact Option.map_eq_some_iff.mpr ⟨threads', hsignal, rfl⟩
  · have hcount : (condition α .notFull).awakenedCount threads' =
        (condition α .notFull).awakenedCount threads :=
      Condition.awakenedCount_congr fun u => (hother u).2
    have hleave := Condition.awakenedCount_update (C := condition α .notFull) s.threads t
      (afterwards (.pushed true))
    rw [ht] at hleave
    rw [hcount]
    exact hleave
  · intro u
    rw [(hother u).1]
    by_cases hut : u = t
    · subst hut
      show (Function.update s.threads u (afterwards (.pushed true)) u).isAsleepOn .notFull = _
      rw [Function.update_self, ht]
      rfl
    · exact congrArg _ (Function.update_of_ne hut _ _)

/-- Fewer awakened producers than free places: they all come and go, and a sleeper stays. -/
theorem exists_stuck {capacity : ℕ} {s : QueueThreads n α}
    (hs : (system n α capacity .blockWhenFull).Reachable s)
    (hopen : s.history.queue.closed = false)
    (hfew : s.history.queue.items.length + (condition α .notFull).awakenedCount s.threads <
      s.history.queue.capacity)
    (hsleeps : (condition α .notFull).Sleeps s.threads) :
    ∃ u, ((system n α capacity .blockWhenFull).restrict FreesWatched).Path s u ∧
      u.ProducerStuck := by
  obtain ⟨k, hk⟩ : ∃ k, (condition α .notFull).awakenedCount s.threads = k := ⟨_, rfl⟩
  induction k generalizing s with
  | zero =>
    refine ⟨s, Relation.ReflTransGen.refl, hopen, by omega, hsleeps, ?_,
      noneNotifies_of_open hs hopen⟩
    intro hwoken
    have hpos : 0 < (condition α .notFull).awakenedCount s.threads :=
      Condition.awakenedCount_pos_iff.mpr hwoken
    omega
  | succ k ih =>
    have hpos : 0 < (condition α .notFull).awakenedCount s.threads := by omega
    obtain ⟨t, ht⟩ := Condition.awakenedCount_pos_iff.mp hpos
    obtain ⟨v, hv⟩ := exists_push_of_isWokenFrom ht
    obtain ⟨choice, s', hnext, hqueue, hcount, hawake⟩ := resume_push
      (QueueHistory.policy_eq (history_reachable hs)) hopen (by omega) hv
    have hlen : s'.history.queue.items.length = s.history.queue.items.length + 1 := by
      rw [hqueue, List.length_append, List.length_singleton]
    have hcap : s'.history.queue.capacity = s.history.queue.capacity := by rw [hqueue]
    have hopen' : s'.history.queue.closed = false := by
      rw [hqueue]
      exact hopen
    obtain ⟨u, hpath, hstuck⟩ := ih (s := s') (hs.step hnext) hopen' (by omega)
      (hsleeps.imp fun u hu => (hawake u).trans hu) (by omega)
    refine ⟨u, Relation.ReflTransGen.head ⟨.resume t choice, ?_, hnext⟩ hpath, hstuck⟩
    intro t' choice' henters
    cases henters with
    | resume ht' =>
      rw [hv] at ht'
      exact absurd ht' (by simp)

theorem Enters.unique {s : QueueThreads n α} {a : QueueLabel n α} {t t' : Fin n}
    {op op' : QueueOp α} {choice choice' : Option (Fin n)} (h : Enters s a t op choice)
    (h' : Enters s a t' op' choice') : t = t' ∧ op = op' ∧ choice = choice' := by
  cases h with
  | start ht =>
    cases h'
    exact ⟨rfl, rfl, rfl⟩
  | resume ht =>
    cases h' with
    | resume ht' => exact ⟨rfl, QueueThread.woken.inj (ht.symm.trans ht'), rfl⟩

/-- Of two sleepers, one notification leaves one asleep and awakens the other. -/
theorem sleeps_after_notifyOne {threads threads' : Fin n → QueueThread α}
    {choice : Option (Fin n)} {u v : Fin n} (huv : u ≠ v)
    (hu : (threads u).isAsleepOn .notFull = true) (hv : (threads v).isAsleepOn .notFull = true)
    (h : (condition α .notFull).notifyOne threads choice = some threads') :
    (condition α .notFull).Sleeps threads' ∧
      (condition α .notFull).awakenedCount threads' =
        (condition α .notFull).awakenedCount threads + 1 := by
  rcases Condition.notifyOne_cases h with ⟨w, _, hw, rfl⟩ | ⟨hnone, _⟩
  · constructor
    · by_cases huw : u = w
      · exact ⟨v, by rwa [Function.update_of_ne (huw ▸ huv.symm)]⟩
      · exact ⟨u, by rwa [Function.update_of_ne huw]⟩
    · have hcount := Condition.awakenedCount_update (C := condition α .notFull) threads w
        ((condition α .notFull).wake (threads w))
      rw [(condition α .notFull).awakened_wake _ hw, (condition α .notFull).not_both _ hw] at hcount
      exact hcount
  · exact absurd ⟨u, hu⟩ hnone

/-- A `pop_latest` that frees more places than there are producers awake for leaves a sleeper. -/
theorem uncovered_of_not_watched {s s' : QueueThreads n α} {a : QueueLabel n α}
    (hstep : s.next a = some s') (hwatched : ¬ FreesWatched s a) :
    s'.history.queue.closed = false ∧
      s'.history.queue.items.length + (condition α .notFull).awakenedCount s'.threads <
        s'.history.queue.capacity ∧
      (condition α .notFull).Sleeps s'.threads := by
  unfold FreesWatched at hwatched
  push Not at hwatched
  obtain ⟨t, choice, henters, hitems, hopen, ⟨u, v, hu, hv, huv⟩, hcount⟩ := hwatched
  cases next_moves hstep with
  | notifyEmpty | notifyFull | spurious => cases henters
  | sleep henters' hwaits =>
    obtain ⟨_, rfl, _⟩ := henters.unique henters'
    rcases perform_eq_none hwaits with ⟨_, hnil, _⟩ | ⟨hop, _, _⟩
    · exact absurd hnil hitems
    · exact absurd hop (by simp [QueueOp.waitsOn])
  | act henters' hperform hsignal =>
    obtain ⟨rfl, rfl, rfl⟩ := henters.unique henters'
    cases perform_performs hperform with
    | drained _ _ hnil _ => exact absurd hnil hitems
    | takeLatest older w _ =>
      let threads := Function.update s.threads t (afterwards (.popped (some w)))
      have hsleeper (x : Fin n) (hx : (s.threads x).isAsleepOn .notFull = true) :
          (threads x).isAsleepOn .notFull = true := by
        have hxt : x ≠ t := by
          rintro rfl
          exact absurd ((henters.isAwake .notFull).symm.trans hx) Bool.false_ne_true
        rwa [show threads x = s.threads x from Function.update_of_ne hxt _ _]
      have hleave := Condition.awakenedCount_update (C := condition α .notFull) s.threads t
        (afterwards (.popped (some w)))
      have hnot : (condition α .notFull).awakened (s.threads t) = false :=
        henters.not_woken (by simp [QueueOp.waitsOn])
      rw [hnot] at hleave
      obtain ⟨hsleeps, hafter⟩ := sleeps_after_notifyOne huv (hsleeper u hu) (hsleeper v hv) hsignal
      have hsame : (condition α .notFull).awakenedCount threads =
          (condition α .notFull).awakenedCount s.threads := hleave
      refine ⟨Bool.eq_false_iff.mpr hopen, ?_, hsleeps⟩
      show 0 + _ < s.history.queue.capacity
      rw [hafter, hsame]
      omega

theorem reachable_placesCovered {capacity : ℕ} {s : QueueThreads n α}
    (hs : ((system n α capacity .blockWhenFull).restrict FreesWatched).Reachable s) :
    s.PlacesCovered := by
  apply hs.invariant (I := PlacesCovered)
  · rintro _ ⟨t, ht⟩
    contradiction
  · intro s a s' hs ih hstep
    obtain ⟨hwatched, hnext⟩ := LTS.restrict_step hstep
    exact ih.step hs.of_restrict hwatched hnext

/-- While every `pop_latest` finds one sleeping producer at most, or enough awakened ones, no
producer is stuck; after one that does not, a stuck producer can be reached. -/
theorem no_stuck_producer_iff (n : ℕ) (α : Type*) (capacity : ℕ) :
    (∀ s : QueueThreads n α,
      ((system n α capacity .blockWhenFull).restrict FreesWatched).Reachable s →
        ¬ s.ProducerStuck) ∧
    ∀ (s : QueueThreads n α) a s',
      ((system n α capacity .blockWhenFull).restrict FreesWatched).Reachable s →
      (system n α capacity .blockWhenFull).step s a s' →
      ((∃ u, ((system n α capacity .blockWhenFull).restrict FreesWatched).Path s' u ∧
        u.ProducerStuck) ↔ ¬ FreesWatched s a) := by
  constructor
  · intro s hs
    exact (reachable_placesCovered hs).not_stuck
  · intro s a s' hs hstep
    constructor
    · rintro ⟨u, hpath, hstuck⟩ hwatched
      have hs' : ((system n α capacity .blockWhenFull).restrict FreesWatched).Reachable s' :=
        hs.step ⟨hwatched, hstep⟩
      exact (reachable_placesCovered (hs'.path hpath)).not_stuck hstuck
    · intro hwatched
      obtain ⟨hopen, hfew, hsleeps⟩ := uncovered_of_not_watched hstep hwatched
      exact exists_stuck (hs.of_restrict.step hstep) hopen hfew hsleeps

/-- Two producers sleep at a full queue of two. `pop_latest` empties it and notifies one; that one
pushes, and the other sleeps on beside the free place. -/
theorem producer_stuck :
    ∃ s : QueueThreads 3 ℕ, (system 3 ℕ 2 .blockWhenFull).Reachable s ∧ s.ProducerStuck := by
  have hrun : ∃ s : QueueThreads 3 ℕ, (system 3 ℕ 2 .blockWhenFull).Reachable s ∧
      (s.history.queue.closed = false ∧ s.history.queue.items.length < s.history.queue.capacity) ∧
      (∃ t, (s.threads t).isAsleepOn .notFull = true) ∧
      (¬ ∃ t, (s.threads t).isWokenFrom .notFull = true) ∧
      ∀ t, s.threads t ≠ .closing ∧ s.threads t ≠ .closingFull :=
    exists_reachable_of_exec [.start 0 (.push 1) none, .start 0 (.push 2) none,
      .start 0 (.push 3) none, .start 1 (.push 4) none, .start 2 .popLatest (some 0),
      .resume 0 none] (by decide)
  obtain ⟨s, hs, ⟨hopen, hroom⟩, hasleep, hwoken, hnotifies⟩ := hrun
  exact ⟨s, hs, hopen, hroom, hasleep, hwoken, hnotifies⟩

end QueueThreads
end ForkliftSafety
