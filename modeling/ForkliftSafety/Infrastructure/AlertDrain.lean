import Mathlib.Algebra.BigOperators.Group.Finset.Basic
import Mathlib.Algebra.Order.BigOperators.Group.Finset
import ForkliftSafety.Infrastructure.WebSocketAlertPublisher

/-! What the publisher only adds to, what it still has to do, and what its clients have been given
once that is done. -/
namespace ForkliftSafety
open Transition Buffer

namespace Publisher

/-- What was given to a client and what was sent to all stays there. -/
structure Grows (s t : State) : Prop where
  dispatched : s.dispatched <+: t.dispatched
  accepted : s.accepted ≤ t.accepted
  handed : ∀ i, (s.clients i).handed <+: (t.clients i).handed
  there : ∀ i, (s.clients i).there <+: (t.clients i).there

theorem Client.offer_grows (c : Client) (payload : Message) :
    c.handed <+: (c.offer payload).handed ∧ c.there <+: (c.offer payload).there := by
  constructor
  · unfold offer
    by_cases h : c.registered = true
    · simp [h, record]
    · simp [h]
  · rw [Client.offer_there]
    exact List.prefix_append _ _

theorem Client.writeDone_handed (c : Client) (rest : List Message) (ok : Bool) :
    c.handed <+: (c.writeDone rest ok).handed := by
  cases ok with
  | true => exact List.prefix_append _ _
  | false => exact List.prefix_rfl

theorem grows_of_update {s t : State} {i : ℕ} {c : Client}
    (hclients : t.clients = Function.update s.clients i c)
    (hhanded : (s.clients i).handed <+: c.handed)
    (hthere : (s.clients i).there <+: c.there) (hdispatched : t.dispatched = s.dispatched)
    (haccepted : s.accepted ≤ t.accepted) : Grows s t := by
  refine ⟨hdispatched ▸ List.prefix_rfl, haccepted, fun j => ?_, fun j => ?_⟩
  · rw [hclients]
    by_cases hj : j = i
    · rw [hj, Function.update_self]
      exact hhanded
    · simp [Function.update_of_ne hj]
  · rw [hclients]
    by_cases hj : j = i
    · rw [hj, Function.update_self]
      exact hthere
    · simp [Function.update_of_ne hj]

theorem next_grows {s t : State} {a : Action} (h : next s a = some t) : Grows s t := by
  cases next_sessionStep h with
  | same _ hclients hdispatched haccepted =>
    exact ⟨hdispatched ▸ List.prefix_rfl, haccepted.ge, fun i => by simp [hclients],
      fun i => by simp [hclients]⟩
  | dispatch payload _ hclients hdispatched haccepted =>
    refine ⟨hdispatched ▸ List.prefix_append _ _, haccepted.ge, fun i => ?_, fun i => ?_⟩
    · rw [hclients]
      exact ((s.clients i).offer_grows payload).1
    · rw [hclients]
      exact ((s.clients i).offer_grows payload).2
  | accept _ hclients hdispatched haccepted =>
    exact grows_of_update hclients List.prefix_rfl List.prefix_rfl hdispatched (by omega)
  | handshake i ok _ _ hclients hdispatched haccepted =>
    refine grows_of_update hclients ?_ ?_ hdispatched haccepted.ge
    · cases ok <;> exact List.prefix_rfl
    · cases ok <;> exact List.prefix_rfl
  | writeDone i rest ok _ _ hclients hdispatched haccepted =>
    have hthere : (s.clients i).there <+: ((s.clients i).writeDone rest ok).there := by
      simp [Client.writeDone_there]
    exact grows_of_update hclients (Client.writeDone_handed _ rest ok) hthere hdispatched
      haccepted.ge

theorem staged_of_reachable {s : State} (h : system.Reachable s) : Staged s := by
  apply h.invariant (I := Staged) system_start_staged
  intro s a t _ hs hstep
  exact next_staged hs hstep

/-- What was sent to the clients was published, in that order, and no payload was published
twice. -/
theorem dispatched_sublist {s : State} (h : system.Reachable s) :
    s.dispatched.Sublist s.published ∧ s.published.Nodup := by
  obtain ⟨L, hL⟩ : ∃ L, Follows s L := by
    apply h.invariant (I := fun s => ∃ L, Follows s L) ⟨{}, rfl, rfl, rfl, rfl⟩
    rintro s a t _ ⟨L, hL⟩ hstep
    exact next_follows hL hstep
  have hbounded : Bounded s := by
    apply h.invariant (I := Bounded) ⟨rfl, Nat.zero_le _, by simp [system, LTS.ofNext]⟩
    intro s a t _ hs hstep
    exact next_bounded hs hstep
  have hkept := L.delivered_sublist
  rw [hL.delivered, hL.pending, hL.produced, State.drained, List.append_assoc] at hkept
  exact ⟨(List.sublist_append_left _ _).trans hkept, hbounded.published_nodup⟩

/-- A client that was not there for the first so many messages has taken none of them. -/
theorem taken_behind {log taken : List Message} {there : List Bool} (h : TookRun log there taken)
    {n : ℕ} (habsent : there.take n = List.replicate n false) :
    taken.Sublist (log.drop n) := by
  obtain ⟨before, during, behind, hthere, _, rfl⟩ := h
  cases during with
  | zero =>
    rw [List.take_zero]
    exact List.nil_sublist _
  | succ during =>
    have hle : n ≤ before := by
      by_contra hlt
      have hflag := congrArg (fun flags : List Bool => flags[before]?) habsent
      simp only [List.getElem?_take_of_lt (not_le.mp hlt), hthere] at hflag
      simp [not_le.mp hlt] at hflag
    have hdrop : log.drop before = (log.drop n).drop (before - n) := by
      rw [List.drop_drop, Nat.add_sub_cancel' hle]
    rw [hdrop]
    exact (List.take_sublist _ _).trans (List.drop_sublist _ _)

/-- A session that has something to write waits for a write, unless it has lost its client. -/
structure Served (c : Client) : Prop where
  unready : c.session.ready = false → c.session.writing = false
  idle : c.session.writing = false → c.session.pending = []
  busy : c.session.writing = true → c.registered = true → c.inFlight ≠ []

theorem Served.offer {c : Client} (h : Served c) (payload : Message) :
    Served (c.offer payload) := by
  by_cases hthere : (c.registered && c.session.ready) = true
  · obtain ⟨hregistered, hready⟩ := Bool.and_eq_true_iff.mp hthere
    by_cases hwriting : c.session.writing = true
    · have hoffer : c.offer payload = { c with
          session := { c.session with pending := c.session.pending ++ [payload] },
          there := c.there ++ [true] } := by
        simp [Client.offer, Client.record, Session.send, hregistered, hready, hwriting]
      rw [hoffer]
      refine ⟨h.unready, ?_, h.busy⟩
      intro hidle
      rw [hwriting] at hidle
      contradiction
    · have hnone := h.idle (by simpa using hwriting)
      refine ⟨?_, ?_, ?_⟩
      · simp [hready]
      · simp [Client.offer, Client.record, Session.send, Session.doWrite, hregistered, hready,
          hwriting, hnone]
      · simp [Client.offer, Client.record, Session.send, Session.doWrite, hregistered, hready,
          hwriting, hnone]
  · rw [c.offer_of_absent (by simpa using hthere)]
    exact ⟨h.unready, h.idle, h.busy⟩

theorem Served.handshake {c : Client} (h : Served c) (ok : Bool) : Served (c.handshake ok) := by
  cases ok with
  | true => exact ⟨nofun, h.idle, h.busy⟩
  | false => exact ⟨h.unready, h.idle, nofun⟩

theorem served_doWrite {c : Client} (hready : c.session.ready = true) :
    Served (c.record c.session.doWrite) := by
  have hkept : (c.record c.session.doWrite).session.ready = true :=
    c.session.doWrite_ready.trans hready
  refine ⟨fun hnot => ?_, ?_, ?_⟩
  · rw [hkept] at hnot
    contradiction
  · cases hpending : c.session.pending <;> simp [Client.record, Session.doWrite, hpending]
  · cases hpending : c.session.pending <;> simp [Client.record, Session.doWrite, hpending]

theorem Served.writeDone {c : Client} (h : Served c) (hready : c.session.ready = true)
    (rest : List Message) (ok : Bool) : Served (c.writeDone rest ok) := by
  cases ok with
  | true => exact served_doWrite (c := { c with inFlight := rest }) hready
  | false => exact ⟨h.unready, h.idle, nofun⟩

/-- A queue that is not empty has a `do_drain` coming. -/
structure Tended (s : State) : Prop where
  queue : s.queue ≠ [] → s.unposted + s.posted ≠ 0
  served : ∀ i, Served (s.clients i)

theorem served_update {clients : ℕ → Client} {j : ℕ} {c : Client} (h : ∀ i, Served (clients i))
    (hc : Served c) (i : ℕ) : Served (Function.update clients j c i) :=
  (Function.forall_update_iff clients fun _ c => Served c).mpr ⟨hc, fun i _ => h i⟩ i

theorem next_served {s t : State} {a : Action} (hstaged : Staged s)
    (h : ∀ i, Served (s.clients i)) (hstep : next s a = some t) (i : ℕ) :
    Served (t.clients i) := by
  cases next_sessionStep hstep with
  | same _ hclients _ _ =>
    rw [hclients]
    exact h i
  | dispatch payload _ hclients _ _ =>
    rw [hclients]
    exact (h i).offer payload
  | accept _ hclients _ _ =>
    have hfresh := h s.accepted
    have hwriting := hfresh.unready (hstaged.fresh s.accepted le_rfl).1
    rw [hclients]
    have hjoined : Served
        { s.clients s.accepted with registered := true, handshaking := true } := by
      refine ⟨fun _ => hwriting, hfresh.idle, fun hbusy => ?_⟩
      rw [hwriting] at hbusy
      contradiction
    exact served_update h hjoined i
  | handshake j ok _ _ hclients _ _ =>
    rw [hclients]
    exact served_update h ((h j).handshake ok) i
  | writeDone j rest ok _ hj hclients _ _ =>
    have hready : (s.clients j).session.ready = true := by
      cases hstaged.stage j with
      | waiting _ hidle _ _ => exact absurd hidle hj
      | joined hready _ _ _ => exact hready
      | left hready _ _ _ => exact hready
    rw [hclients]
    exact served_update h ((h j).writeDone hready rest ok) i

theorem next_queueTended {s t : State} {a : Action} (h : s.queue ≠ [] → s.unposted + s.posted ≠ 0)
    (hstep : next s a = some t) : t.queue ≠ [] → t.unposted + t.posted ≠ 0 := by
  cases a with
  | start | halt =>
    simp only [next, Option.ite_none_right_eq_some, Option.some.injEq] at hstep
    obtain ⟨_, rfl⟩ := hstep
    exact h
  | stop =>
    simp only [next, Option.ite_none_right_eq_some, Option.some.injEq] at hstep
    obtain ⟨_, rfl⟩ := hstep
    intro _
    show s.unposted + (s.posted + 1) ≠ 0
    omega
  | post =>
    simp only [next, Option.ite_none_left_eq_some, Option.some.injEq] at hstep
    obtain ⟨_, rfl⟩ := hstep
    intro _
    show s.unposted - 1 + (s.posted + 1) ≠ 0
    omega
  | drain =>
    simp only [next, Option.ite_none_right_eq_some, Option.some.injEq] at hstep
    obtain ⟨_, rfl⟩ := hstep
    exact fun hqueue => absurd rfl hqueue
  | publish alert =>
    obtain rfl := Option.some.inj hstep
    intro _
    show s.unposted + 1 + s.posted ≠ 0
    omega
  | dispatch =>
    simp only [next] at hstep
    split at hstep
    · contradiction
    · obtain rfl := Option.some.inj hstep
      exact h
  | accept ok =>
    simp only [next, Option.ite_none_right_eq_some, Option.some.injEq] at hstep
    obtain ⟨_, rfl⟩ := hstep
    unfold acceptDone
    split_ifs <;> exact h
  | handshake i ok =>
    simp only [next, Option.ite_none_right_eq_some, Option.some.injEq] at hstep
    obtain ⟨_, rfl⟩ := hstep
    exact h
  | writeDone i ok =>
    simp only [next] at hstep
    split at hstep
    · contradiction
    · simp only [Option.ite_none_right_eq_some, Option.some.injEq] at hstep
      obtain ⟨_, rfl⟩ := hstep
      exact h

theorem tended_of_reachable {s : State} (h : system.Reachable s) : Tended s := by
  apply h.invariant (I := Tended)
  · exact ⟨fun hqueue => absurd rfl hqueue, fun _ => ⟨fun _ => rfl, fun _ => rfl, nofun⟩⟩
  · intro s a t hreach hs hstep
    exact ⟨next_queueTended hs.queue hstep,
      next_served (staged_of_reachable hreach) hs.served hstep⟩

/-- The steps by which alerts go on to the clients that are there. -/
def Action.settles : Action → Bool
  | .post | .drain | .dispatch | .writeDone _ _ => true
  | _ => false

def Client.backlog (c : Client) : ℕ := c.inFlight.length + c.session.pending.length

/-- A message in the queue becomes at most one write for each client. -/
def State.work (s : State) : ℕ :=
  2 * s.unposted + s.posted + (s.queue.length + s.localQueue.length) * (s.accepted + 1) +
    ∑ i ∈ Finset.range s.accepted, (s.clients i).backlog

theorem Client.backlog_offer_le (c : Client) (payload : Message) :
    (c.offer payload).backlog ≤ c.backlog + 1 := by
  by_cases hthere : (c.registered && c.session.ready) = true
  · obtain ⟨hregistered, hready⟩ := Bool.and_eq_true_iff.mp hthere
    by_cases hwriting : c.session.writing = true
    · simp [backlog, offer, record, Session.send, hregistered, hready, hwriting]
      omega
    · obtain ⟨q, hq, hserved⟩ : ∃ q : Session, q.pending = c.session.pending ++ [payload] ∧
          c.offer payload = { c.record q.doWrite with there := c.there ++ [true] } :=
        ⟨{ c.session with pending := c.session.pending ++ [payload] }, rfl,
          by simp [offer, Session.send, hregistered, hready, hwriting]⟩
      have hmoved := congrArg List.length q.doWrite_pending
      rw [List.length_append, hq, List.length_append, List.length_singleton] at hmoved
      rw [hserved]
      simp only [backlog, record, List.length_append]
      omega
  · rw [c.offer_of_absent (by simpa using hthere)]
    exact Nat.le_succ _

/-- A write that completes makes room for one message. -/
theorem Client.backlog_writeDone {c : Client} {m : Message} {rest : List Message}
    (h : c.inFlight = m :: rest) (ok : Bool) : (c.writeDone rest ok).backlog < c.backlog := by
  cases ok with
  | true =>
    have hmoved := congrArg List.length c.session.doWrite_pending
    rw [List.length_append] at hmoved
    show (rest ++ c.session.doWrite.2.toList).length + c.session.doWrite.1.pending.length < _
    rw [List.length_append, backlog, h, List.length_cons]
    omega
  | false =>
    show rest.length + c.session.pending.length < _
    rw [backlog, h, List.length_cons]
    omega

theorem idle_of_fresh {s : State} (h : Staged s) {i : ℕ} (hi : s.accepted ≤ i) :
    (s.clients i).inFlight = [] := by
  cases h.stage i with
  | waiting _ hidle _ _ => exact hidle
  | joined hready _ _ _ => simp [(h.fresh i hi).1] at hready
  | left hready _ _ _ => simp [(h.fresh i hi).1] at hready

theorem next_work_lt {s t : State} {a : Action} (hstaged : Staged s) (ha : a.settles = true)
    (hstep : next s a = some t) : t.work < s.work := by
  cases a with
  | start | stop | halt | publish _ | accept _ | handshake _ _ => contradiction
  | post =>
    simp only [next, Option.ite_none_left_eq_some, Option.some.injEq] at hstep
    obtain ⟨hunposted, rfl⟩ := hstep
    simp only [State.work]
    omega
  | drain =>
    simp only [next, Option.ite_none_right_eq_some, Option.some.injEq] at hstep
    obtain ⟨⟨hfree, hposted⟩, rfl⟩ := hstep
    have hlocal : s.localQueue = [] := by simpa using (Bool.and_eq_true_iff.mp hfree).2
    simp only [State.work, hlocal, List.length_nil, Nat.add_zero, Nat.zero_add]
    omega
  | dispatch =>
    simp only [next] at hstep
    split at hstep
    · contradiction
    · rename_i payload rest hlocal
      obtain rfl := Option.some.inj hstep
      have hclients : ∑ i ∈ Finset.range s.accepted, ((s.clients i).offer payload).backlog ≤
          ∑ i ∈ Finset.range s.accepted, (s.clients i).backlog + s.accepted := by
        calc
          _ ≤ ∑ i ∈ Finset.range s.accepted, ((s.clients i).backlog + 1) :=
            Finset.sum_le_sum fun i _ => (s.clients i).backlog_offer_le payload
          _ = _ := by simp [Finset.sum_add_distrib]
      simp only [State.work, hlocal, List.length_cons, Nat.add_mul, Nat.one_mul]
      omega
  | writeDone i ok =>
    simp only [next] at hstep
    split at hstep
    · contradiction
    · rename_i m rest hflight
      simp only [Option.ite_none_right_eq_some, Option.some.injEq] at hstep
      obtain ⟨_, rfl⟩ := hstep
      have hi : i < s.accepted := by
        by_contra hfresh
        rw [idle_of_fresh hstaged (not_lt.mp hfresh)] at hflight
        contradiction
      have hlower := Client.backlog_writeDone hflight ok
      have hclients : ∑ j ∈ Finset.range s.accepted,
            (Function.update s.clients i ((s.clients i).writeDone rest ok) j).backlog <
          ∑ j ∈ Finset.range s.accepted, (s.clients j).backlog := by
        apply Finset.sum_lt_sum
        · intro j _
          by_cases hj : j = i
          · rw [hj, Function.update_self]
            exact hlower.le
          · rw [Function.update_of_ne hj]
        · refine ⟨i, Finset.mem_range.mpr hi, ?_⟩
          rw [Function.update_self]
          exact hlower
      simp only [State.work, State.setClient]
      omega

/-- What has been taken for a client and what is still on its way to all. -/
def State.owed (s : State) (i : ℕ) : List Message :=
  (s.clients i).taken ++ s.localQueue ++ s.queue

/-- A settling step passes on what was owed to a client; it may lose the client. -/
structure Passes (s t : State) : Prop where
  phase : t.phase = s.phase
  sent : t.dispatched ++ t.localQueue ++ t.queue = s.dispatched ++ s.localQueue ++ s.queue
  registered : ∀ i, (t.clients i).registered = true → (s.clients i).registered = true
  ready : ∀ i, (t.clients i).session.ready = (s.clients i).session.ready
  owed : ∀ i, (s.clients i).session.ready = true → (t.clients i).registered = true →
    t.owed i = s.owed i

theorem Passes.refl (s : State) : Passes s s :=
  ⟨rfl, rfl, fun _ h => h, fun _ => rfl, fun _ _ _ => rfl⟩

theorem Passes.trans {s t u : State} (h : Passes s t) (h' : Passes t u) : Passes s u where
  phase := h'.phase.trans h.phase
  sent := h'.sent.trans h.sent
  registered i hi := h.registered i (h'.registered i hi)
  ready i := (h'.ready i).trans (h.ready i)
  owed i hready hi := by
    have hthen := h'.owed i ((h.ready i).trans hready) hi
    exact hthen.trans (h.owed i hready (h'.registered i hi))

theorem next_passes {s t : State} {a : Action} (ha : a.settles = true)
    (hstep : next s a = some t) : Passes s t := by
  cases a with
  | start | stop | halt | publish _ | accept _ | handshake _ _ => contradiction
  | post =>
    simp only [next, Option.ite_none_left_eq_some, Option.some.injEq] at hstep
    obtain ⟨_, rfl⟩ := hstep
    exact ⟨rfl, rfl, fun _ h => h, fun _ => rfl, fun _ _ _ => rfl⟩
  | drain =>
    simp only [next, Option.ite_none_right_eq_some, Option.some.injEq] at hstep
    obtain ⟨⟨hfree, _⟩, rfl⟩ := hstep
    have hlocal : s.localQueue = [] := by simpa using (Bool.and_eq_true_iff.mp hfree).2
    refine ⟨rfl, ?_, fun _ h => h, fun _ => rfl, fun i _ _ => ?_⟩
    · simp [hlocal]
    · simp [State.owed, hlocal]
  | dispatch =>
    simp only [next] at hstep
    split at hstep
    · contradiction
    · rename_i payload rest hlocal
      obtain rfl := Option.some.inj hstep
      refine ⟨rfl, by simp [hlocal], fun i hi => by simpa using hi, fun i => by simp, ?_⟩
      intro i hready hregistered
      have htaken := Client.offer_taken (by simpa using hregistered) hready payload
      simp [State.owed, htaken, hlocal]
  | writeDone i ok =>
    simp only [next] at hstep
    split at hstep
    · contradiction
    · rename_i m rest _
      simp only [Option.ite_none_right_eq_some, Option.some.injEq] at hstep
      obtain ⟨_, rfl⟩ := hstep
      have hupdate : ∀ j, (s.setClient i ((s.clients i).writeDone rest ok)).clients j =
          s.clients j ∨ j = i := by
        intro j
        by_cases hj : j = i
        · exact .inr hj
        · exact .inl (Function.update_of_ne hj _ _)
      have hself : (s.setClient i ((s.clients i).writeDone rest ok)).clients i =
          (s.clients i).writeDone rest ok := Function.update_self ..
      refine ⟨rfl, rfl, fun j hj => ?_, fun j => ?_, fun j _ hj => ?_⟩
      · rcases hupdate j with hsame | rfl
        · rwa [hsame] at hj
        · rw [hself, Client.writeDone_registered] at hj
          exact (Bool.and_eq_true_iff.mp hj).1
      · rcases hupdate j with hsame | rfl
        · rw [hsame]
        · rw [hself, Client.writeDone_ready]
      · rcases hupdate j with hsame | rfl
        · rw [State.owed, hsame]
          rfl
        · rw [State.owed, hself, Client.writeDone_taken]
          rfl

/-- What the threads of the publisher come to when nothing new happens to it. -/
structure Settles (s : State) : Prop where
  /-- In whatever order they go on, there is only so much to do. -/
  soon : ∀ as t, (∀ a ∈ as, a.settles = true) → exec next s as = some t → as.length ≤ s.work
  /-- When they have done it, everything queued was sent to all, -/
  sent : ∀ as t, (∀ a ∈ as, a.settles = true) → exec next s as = some t →
    (∀ a, a.settles = true → next t a = none) →
    t.dispatched = s.dispatched ++ s.localQueue ++ s.queue
  /-- and a client that was ready and has not been lost was handed all that waited for it, followed
  by all that was queued. -/
  given : ∀ as t, (∀ a ∈ as, a.settles = true) → exec next s as = some t →
    (∀ a, a.settles = true → next t a = none) → ∀ i, (s.clients i).session.ready = true →
    (t.clients i).registered = true →
    (t.clients i).handed = (s.clients i).taken ++ s.localQueue ++ s.queue

/-- Where no settling step is left, nothing waits. -/
theorem nothing_left {t : State} (h : Tended t) (hio : t.phase.ioRuns = true)
    (hnone : ∀ a, a.settles = true → next t a = none) :
    t.localQueue = [] ∧ t.queue = [] ∧
      ∀ i, (t.clients i).registered = true → (t.clients i).session.pending = [] := by
  have hunposted : t.unposted = 0 := by
    have hpost := hnone .post rfl
    by_contra hne
    simp [next, hne] at hpost
  have hlocal : t.localQueue = [] := by
    have hdispatch := hnone .dispatch rfl
    cases hlocal : t.localQueue with
    | nil => rfl
    | cons payload rest => simp [next, hlocal] at hdispatch
  have hfree : t.ioFree = true := by simp [State.ioFree, hio, hlocal]
  have hposted : t.posted = 0 := by
    have hdrain := hnone .drain rfl
    by_contra hne
    simp [next, hfree, hne] at hdrain
  refine ⟨hlocal, ?_, ?_⟩
  · by_contra hqueue
    have hcoming := h.queue hqueue
    omega
  · intro i hregistered
    have hwrite := hnone (.writeDone i true) rfl
    have hidle : (t.clients i).inFlight = [] := by
      cases hflight : (t.clients i).inFlight with
      | nil => rfl
      | cons m rest => simp [next, hflight, hfree] at hwrite
    apply (h.served i).idle
    by_contra hwriting
    exact (h.served i).busy (by simpa using hwriting) hregistered hidle

/-- No wake-up is lost: whatever has happened, a publisher that is left alone hands every queued
alert to every client that is there, after a bounded number of steps in any order. -/
theorem publisher_settles {s : State} (h : system.Reachable s) (hio : s.phase.ioRuns = true) :
    Settles s := by
  have hrun : ∀ as t, (∀ a ∈ as, a.settles = true) → exec next s as = some t →
      (system.Reachable t ∧ Passes s t) ∧ as.length + t.work ≤ s.work := by
    intro as t hquiet hexec
    refine length_le_of_exec (I := fun u => system.Reachable u ∧ Passes s u) ?_
      ⟨h, Passes.refl s⟩ hquiet hexec
    rintro u a v ⟨hreach, hpasses⟩ ha hstep
    exact ⟨⟨hreach.step hstep, hpasses.trans (next_passes ha hstep)⟩,
      next_work_lt (staged_of_reachable hreach) ha hstep⟩
  have hend : ∀ as t, (∀ a ∈ as, a.settles = true) → exec next s as = some t →
      (∀ a, a.settles = true → next t a = none) → Passes s t ∧ t.localQueue = [] ∧
        t.queue = [] ∧
        ∀ i, (t.clients i).registered = true → (t.clients i).session.pending = [] := by
    intro as t hquiet hexec hnone
    obtain ⟨⟨hreach, hpasses⟩, _⟩ := hrun as t hquiet hexec
    have hphase : t.phase.ioRuns = true := by rw [hpasses.phase, hio]
    exact ⟨hpasses, nothing_left (tended_of_reachable hreach) hphase hnone⟩
  refine ⟨?_, ?_, ?_⟩
  · intro as t hquiet hexec
    have hlength := (hrun as t hquiet hexec).2
    omega
  · intro as t hquiet hexec hnone
    obtain ⟨hpasses, hlocal, hqueue, _⟩ := hend as t hquiet hexec hnone
    have hsent := hpasses.sent
    rwa [hlocal, hqueue, List.append_nil, List.append_nil] at hsent
  · intro as t hquiet hexec hnone i hready hregistered
    obtain ⟨hpasses, hlocal, hqueue, hpending⟩ := hend as t hquiet hexec hnone
    have howed := hpasses.owed i hready hregistered
    rw [State.owed, Client.taken, hpending i hregistered, hlocal, hqueue, List.append_nil,
      List.append_nil, List.append_nil] at howed
    exact howed

def joiningClient : List Action :=
  [.start, .accept true, .handshake 0 true, .publish {}, .post, .drain]

/-- Two alerts are queued and one is being written when the publisher is left alone. -/
theorem busyClient_settles : ∃ s ∈ exec next {} (joiningClient ++ [.dispatch, .publish {}, .post,
      .publish {}]),
    Settles s ∧ s.queue.length = 2 ∧ s.work = 8 := by
  have hrun : (exec next {} (joiningClient ++ [.dispatch, .publish {}, .post, .publish {}])).map
      (fun s => (s.phase.ioRuns, s.queue.length, s.work)) = some (true, 2, 8) := rfl
  obtain ⟨s, hs, hview⟩ := Option.map_eq_some_iff.mp hrun
  simp only [Prod.mk.injEq] at hview
  exact ⟨s, hs, publisher_settles (reachable_of_exec hs) hview.1, hview.2⟩

end Publisher
end ForkliftSafety
