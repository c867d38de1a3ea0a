import ForkliftSafety.Infrastructure.AlertJson
import ForkliftSafety.Library.Buffer
import ForkliftSafety.Library.Transition

/-! `WebSocketAlertPublisher`: the shared queue of alerts, the sessions that it is drained to, and
the steps of the threads that publish and of the one that runs the `io_context`. -/
namespace ForkliftSafety
open Transition Buffer

namespace Publisher

def kMaxQueue : ℕ := 256

/-- A payload with its place among those published, in the order of the queue's lock. -/
structure Message where
  place : ℕ
  payload : String
  deriving DecidableEq, Repr

structure Session where
  pending : List Message := []
  writing : Bool := false
  ready : Bool := false
  deriving Repr

namespace Session

/-- The message is the one given to `async_write`. -/
def doWrite (s : Session) : Session × Option Message :=
  match s.pending with
  | [] => ({ s with writing := false }, none)
  | msg :: rest => ({ s with writing := true, pending := rest }, some msg)

def send (s : Session) (payload : Message) : Session × Option Message :=
  if !s.ready then (s, none)
  else
    let queued := { s with pending := s.pending ++ [payload] }
    if !s.writing then queued.doWrite else (queued, none)

end Session

/-- A session with what is outstanding at its socket, and the record of its messages. -/
structure Client where
  session : Session := {}
  /-- It is among `sessions`. -/
  registered : Bool := false
  /-- Its `async_accept` has not completed. -/
  handshaking : Bool := false
  /-- The writes that have not completed. -/
  inFlight : List Message := []
  /-- All messages given to `async_write`. -/
  handed : List Message := []
  /-- For each message that was drained, whether the session was then registered and ready. -/
  there : List Bool := []

namespace Client

/-- The messages it was given, then those it still holds. -/
def taken (c : Client) : List Message := c.handed ++ c.session.pending

def record (c : Client) (r : Session × Option Message) : Client :=
  { c with session := r.1, inFlight := c.inFlight ++ r.2.toList,
           handed := c.handed ++ r.2.toList }

/-- One round of the loops of `do_drain`. -/
def offer (c : Client) (payload : Message) : Client :=
  let served := if c.registered then c.record (c.session.send payload) else c
  { served with there := c.there ++ [c.registered && c.session.ready] }

/-- The handler of the session's `async_accept`. -/
def handshake (c : Client) (ok : Bool) : Client :=
  if ok then { c with handshaking := false, session := { c.session with ready := true } }
  else { c with handshaking := false, registered := false }

/-- The handler of `async_write`. -/
def writeDone (c : Client) (rest : List Message) (ok : Bool) : Client :=
  if ok then { c with inFlight := rest }.record c.session.doWrite
  else { c with inFlight := rest, registered := false }

end Client

inductive Phase where
  | constructed | serving | flushing | stopped
  deriving DecidableEq, Repr

def Phase.running (p : Phase) : Bool := p = .serving

/-- The `io_context` runs handlers. -/
def Phase.ioRuns (p : Phase) : Bool := p = .serving || p = .flushing

structure State where
  phase : Phase := .constructed
  queue : List Message := []
  /-- The payloads that the `do_drain` in progress has not sent yet. -/
  localQueue : List Message := []
  /-- The calls of `publish` between their critical section and their `post`. -/
  unposted : ℕ := 0
  /-- The calls of `do_drain` that are posted and not begun. -/
  posted : ℕ := 0
  /-- The acceptor's `async_accept` has not completed. -/
  accepting : Bool := false
  /-- The sessions accepted so far are those before this number. -/
  accepted : ℕ := 0
  clients : ℕ → Client := fun _ => {}
  published : List Message := []
  /-- The queue, each time its oldest entry was dropped. -/
  drops : List (List Message) := []
  /-- What was sent to the sessions, in order. -/
  dispatched : List Message := []

namespace State

def dropped (s : State) : List Message := s.drops.filterMap List.head?

/-- What `do_drain` has taken out of the queue. -/
def drained (s : State) : List Message := s.dispatched ++ s.localQueue

def setClient (s : State) (i : ℕ) (c : Client) : State :=
  { s with clients := Function.update s.clients i c }

/-- The `io_context` is free to run another handler. -/
def ioFree (s : State) : Bool := s.phase.ioRuns && s.localQueue.isEmpty

end State

inductive Action where
  | start
  | stop
  /-- `ioc.stop()` takes effect. -/
  | halt
  | publish (alert : Alert)
  | post
  | drain
  | dispatch
  | accept (ok : Bool)
  | handshake (i : ℕ) (ok : Bool)
  | writeDone (i : ℕ) (ok : Bool)

/-- The critical section of `publish`. -/
def publish (s : State) (alert : Alert) : State :=
  let message : Message := ⟨s.published.length, serialize alert⟩
  let full := s.queue.length ≥ kMaxQueue
  { s with queue := (if full then s.queue.tail else s.queue) ++ [message]
           drops := if full then s.drops ++ [s.queue] else s.drops
           published := s.published ++ [message]
           unposted := s.unposted + 1 }

/-- The handler of `start_accept`. -/
def acceptDone (s : State) (ok : Bool) : State :=
  if !s.phase.running then { s with accepting := false }
  else if ok then
    { s.setClient s.accepted { s.clients s.accepted with registered := true, handshaking := true }
        with accepted := s.accepted + 1 }
  else s

def next (s : State) : Action → Option State
  | .start =>
    if s.phase = .constructed then some { s with phase := .serving, accepting := true } else none
  | .stop =>
    if s.phase = .serving then some { s with phase := .flushing, posted := s.posted + 1 } else none
  | .halt =>
    if s.phase = .flushing ∧ s.localQueue = [] then some { s with phase := .stopped } else none
  | .publish alert => some (publish s alert)
  | .post =>
    if s.unposted = 0 then none
    else some { s with unposted := s.unposted - 1, posted := s.posted + 1 }
  | .drain =>
    if s.ioFree ∧ s.posted ≠ 0 then
      some { s with posted := s.posted - 1, localQueue := s.queue, queue := [] }
    else none
  | .dispatch =>
    match s.localQueue with
    | [] => none
    | payload :: rest =>
      some { s with localQueue := rest, dispatched := s.dispatched ++ [payload]
                    clients := fun i => (s.clients i).offer payload }
  | .accept ok => if s.ioFree ∧ s.accepting then some (acceptDone s ok) else none
  | .handshake i ok =>
    if s.ioFree ∧ (s.clients i).handshaking then
      some (s.setClient i ((s.clients i).handshake ok))
    else none
  | .writeDone i ok =>
    match (s.clients i).inFlight with
    | [] => none
    | _ :: rest =>
      if s.ioFree then some (s.setClient i ((s.clients i).writeDone rest ok)) else none

def system : LTS State Action := .ofNext {} next

namespace Session
variable (s : Session) (payload : Message)

/-- A write takes its message from the front of the pending ones. -/
theorem doWrite_pending : s.doWrite.2.toList ++ s.doWrite.1.pending = s.pending := by
  unfold doWrite
  cases s.pending <;> simp

@[simp] theorem doWrite_ready : s.doWrite.1.ready = s.ready := by
  unfold doWrite
  cases s.pending <;> rfl

theorem send_of_not_ready (h : s.ready = false) : s.send payload = (s, none) := by
  simp [send, h]

theorem send_pending (h : s.ready = true) :
    (s.send payload).2.toList ++ (s.send payload).1.pending = s.pending ++ [payload] := by
  unfold send
  rw [if_neg (by simp [h])]
  by_cases hw : s.writing = true
  · rw [if_neg (by simp [hw])]
    rfl
  · rw [if_pos (by simpa using hw)]
    exact doWrite_pending { s with pending := s.pending ++ [payload] }

@[simp] theorem send_ready : (s.send payload).1.ready = s.ready := by
  unfold send
  split_ifs with hready hw
  · rfl
  · exact doWrite_ready { s with pending := s.pending ++ [payload] }
  · rfl

end Session

namespace Client
variable {c : Client}

theorem record_taken (r : Session × Option Message) :
    (c.record r).taken = c.handed ++ (r.2.toList ++ r.1.pending) := by
  simp only [taken, record, List.append_assoc]

@[simp] theorem offer_there (payload : Message) :
    (c.offer payload).there = c.there ++ [c.registered && c.session.ready] := rfl

@[simp] theorem offer_registered (payload : Message) :
    (c.offer payload).registered = c.registered := by
  unfold offer
  by_cases h : c.registered = true <;> simp [h, record]

@[simp] theorem offer_handshaking (payload : Message) :
    (c.offer payload).handshaking = c.handshaking := by
  unfold offer
  by_cases h : c.registered = true <;> simp [h, record]

@[simp] theorem offer_ready (payload : Message) :
    (c.offer payload).session.ready = c.session.ready := by
  unfold offer
  by_cases h : c.registered = true <;> simp [h, record]

theorem offer_of_absent (h : (c.registered && c.session.ready) = false) (payload : Message) :
    c.offer payload = { c with there := c.there ++ [false] } := by
  unfold offer
  rw [h]
  by_cases hreg : c.registered = true
  · have hready : c.session.ready = false := by simpa [hreg] using h
    simp [hreg, Session.send_of_not_ready, hready, record]
  · simp [hreg]

theorem offer_taken (hreg : c.registered = true) (hready : c.session.ready = true)
    (payload : Message) : (c.offer payload).taken = c.taken ++ [payload] := by
  have hserved : (c.offer payload).taken = (c.record (c.session.send payload)).taken := by
    simp only [offer, hreg, ↓reduceIte, taken]
  rw [hserved, record_taken, Session.send_pending _ _ hready, taken, List.append_assoc]

theorem writeDone_taken (rest : List Message) (ok : Bool) :
    (c.writeDone rest ok).taken = c.taken := by
  cases ok with
  | true =>
    change ({ c with inFlight := rest }.record c.session.doWrite).taken = c.taken
    rw [record_taken, Session.doWrite_pending]
    rfl
  | false => rfl

@[simp] theorem writeDone_there (rest : List Message) (ok : Bool) :
    (c.writeDone rest ok).there = c.there := by
  cases ok <;> rfl

@[simp] theorem writeDone_handshaking (rest : List Message) (ok : Bool) :
    (c.writeDone rest ok).handshaking = c.handshaking := by
  cases ok <;> rfl

@[simp] theorem writeDone_registered (rest : List Message) (ok : Bool) :
    (c.writeDone rest ok).registered = (c.registered && ok) := by
  cases ok <;> simp [writeDone, record]

@[simp] theorem writeDone_ready (rest : List Message) (ok : Bool) :
    (c.writeDone rest ok).session.ready = c.session.ready := by
  cases ok <;> simp [writeDone, record]

end Client

/-- What a step can do to the sessions. -/
inductive SessionStep (s : State) (a : Action) (t : State) : Prop
  | same (ha : a ≠ .dispatch) (hclients : t.clients = s.clients)
      (hdispatched : t.dispatched = s.dispatched) (haccepted : t.accepted = s.accepted)
  | dispatch (payload : Message) (ha : a = .dispatch)
      (hclients : t.clients = fun i => (s.clients i).offer payload)
      (hdispatched : t.dispatched = s.dispatched ++ [payload]) (haccepted : t.accepted = s.accepted)
  | accept (ha : a ≠ .dispatch)
      (hclients : t.clients = Function.update s.clients s.accepted
        { s.clients s.accepted with registered := true, handshaking := true })
      (hdispatched : t.dispatched = s.dispatched) (haccepted : t.accepted = s.accepted + 1)
  | handshake (i : ℕ) (ok : Bool) (ha : a ≠ .dispatch) (hi : (s.clients i).handshaking = true)
      (hclients : t.clients = Function.update s.clients i ((s.clients i).handshake ok))
      (hdispatched : t.dispatched = s.dispatched) (haccepted : t.accepted = s.accepted)
  | writeDone (i : ℕ) (rest : List Message) (ok : Bool) (ha : a ≠ .dispatch)
      (hi : (s.clients i).inFlight ≠ [])
      (hclients : t.clients = Function.update s.clients i ((s.clients i).writeDone rest ok))
      (hdispatched : t.dispatched = s.dispatched) (haccepted : t.accepted = s.accepted)

theorem next_sessionStep {s t : State} {a : Action} (h : next s a = some t) :
    SessionStep s a t := by
  cases a with
  | start | stop | halt | post | drain =>
    simp only [next, Option.ite_none_right_eq_some, Option.ite_none_left_eq_some,
      Option.some.injEq] at h
    obtain ⟨_, rfl⟩ := h
    exact .same (by simp) rfl rfl rfl
  | publish alert =>
    simp only [next, Option.some.injEq] at h
    rw [← h]
    exact .same (by simp) rfl rfl rfl
  | dispatch =>
    simp only [next] at h
    split at h
    · contradiction
    · rw [Option.some.injEq] at h
      rw [← h]
      exact .dispatch _ rfl rfl rfl rfl
  | accept ok =>
    simp only [next, Option.ite_none_right_eq_some, Option.some.injEq] at h
    obtain ⟨_, rfl⟩ := h
    unfold acceptDone
    split_ifs
    · exact .same (by simp) rfl rfl rfl
    · exact .accept (by simp) rfl rfl rfl
    · exact .same (by simp) rfl rfl rfl
  | handshake i ok =>
    simp only [next, Option.ite_none_right_eq_some, Option.some.injEq] at h
    obtain ⟨⟨_, hi⟩, rfl⟩ := h
    exact .handshake i ok (by simp) hi rfl rfl rfl
  | writeDone i ok =>
    simp only [next] at h
    split at h
    · contradiction
    · rename_i hi
      simp only [Option.ite_none_right_eq_some, Option.some.injEq] at h
      obtain ⟨_, rfl⟩ := h
      exact .writeDone i _ ok (by simp) (by simp [hi]) rfl rfl rfl

/-- What a step can do to the shared queue. -/
inductive QueueStep (s : State) (a : Action) (t : State) : Prop
  | publish (alert : Alert) (ha : a = .publish alert) (ht : t = publish s alert)
  | drain (hqueue : t.queue = []) (hpublished : t.published = s.published)
      (hdrained : t.drained = s.drained ++ s.queue) (hdrops : t.drops = s.drops)
  | same (hqueue : t.queue = s.queue) (hpublished : t.published = s.published)
      (hdrained : t.drained = s.drained) (hdrops : t.drops = s.drops)

theorem next_queueStep {s t : State} {a : Action} (h : next s a = some t) : QueueStep s a t := by
  cases a with
  | start | stop | halt | post =>
    simp only [next, Option.ite_none_right_eq_some, Option.ite_none_left_eq_some,
      Option.some.injEq] at h
    obtain ⟨_, rfl⟩ := h
    exact .same rfl rfl rfl rfl
  | publish alert =>
    simp only [next, Option.some.injEq] at h
    exact .publish alert rfl h.symm
  | drain =>
    simp only [next, State.ioFree, Option.ite_none_right_eq_some, Option.some.injEq,
      Bool.and_eq_true, List.isEmpty_iff] at h
    obtain ⟨⟨⟨_, hfree⟩, _⟩, rfl⟩ := h
    exact .drain rfl rfl (by simp [State.drained, hfree]) rfl
  | dispatch =>
    simp only [next] at h
    split at h
    · contradiction
    · rename_i hlocal
      rw [Option.some.injEq] at h
      rw [← h]
      exact .same rfl rfl (by simp [State.drained, hlocal]) rfl
  | accept ok =>
    simp only [next, Option.ite_none_right_eq_some, Option.some.injEq] at h
    obtain ⟨_, rfl⟩ := h
    unfold acceptDone
    split_ifs <;> exact .same rfl rfl rfl rfl
  | handshake i ok =>
    simp only [next, Option.ite_none_right_eq_some, Option.some.injEq] at h
    obtain ⟨_, rfl⟩ := h
    exact .same rfl rfl rfl rfl
  | writeDone i ok =>
    simp only [next] at h
    split at h
    · contradiction
    · simp only [Option.ite_none_right_eq_some, Option.some.injEq] at h
      obtain ⟨_, rfl⟩ := h
      exact .same rfl rfl rfl rfl

/-- The ledger's view of the queue: what was dropped was discarded, and what was drained was
delivered. -/
structure Follows (s : State) (L : Ledger Message) : Prop where
  pending : L.pending = s.queue
  produced : L.produced = s.published
  delivered : L.delivered = s.drained
  discarded : L.discarded = s.dropped

theorem publish_of_full {s : State} (hfull : s.queue.length ≥ kMaxQueue) (alert : Alert) :
    (publish s alert).queue = s.queue.tail ++ [⟨s.published.length, serialize alert⟩] ∧
      (publish s alert).drops = s.drops ++ [s.queue] := by
  simp [publish, hfull]

theorem publish_of_room {s : State} (hroom : s.queue.length < kMaxQueue) (alert : Alert) :
    (publish s alert).queue = s.queue ++ [⟨s.published.length, serialize alert⟩] ∧
      (publish s alert).drops = s.drops := by
  simp [publish, not_le.mpr hroom]

theorem publish_follows {s : State} {L : Ledger Message} (h : Follows s L) (alert : Alert) :
    ∃ M, Follows (publish s alert) M := by
  rcases le_or_gt kMaxQueue s.queue.length with hfull | hroom
  · obtain ⟨hqueue, hdrops⟩ := publish_of_full hfull alert
    refine ⟨(L.discard 1).put ⟨s.published.length, serialize alert⟩, ?_, ?_, ?_, ?_⟩
    · simp [hqueue, Ledger.put, Ledger.discard, Ledger.leave, h.pending]
    · simp [publish, h.produced]
    · simp [publish, State.drained, h.delivered]
    · cases hq : s.queue with
      | nil => simp [hq, kMaxQueue] at hfull
      | cons m q => simp [State.dropped, hdrops, h.discarded, h.pending, hq]
  · obtain ⟨hqueue, hdrops⟩ := publish_of_room hroom alert
    refine ⟨L.put ⟨s.published.length, serialize alert⟩, ?_, ?_, ?_, ?_⟩
    · simp [hqueue, Ledger.put, h.pending]
    · simp [publish, h.produced]
    · simp [publish, State.drained, h.delivered]
    · simp [State.dropped, hdrops, h.discarded]

theorem next_follows {s t : State} {a : Action} {L : Ledger Message} (h : Follows s L)
    (hstep : next s a = some t) : ∃ M, Follows t M := by
  cases next_queueStep hstep with
  | publish alert _ ht =>
    rw [ht]
    exact publish_follows h alert
  | drain hqueue hpublished hdrained hdrops =>
    refine ⟨L.deliver s.queue.length, ?_, ?_, ?_, ?_⟩
    · simp [Ledger.deliver, Ledger.leave, h.pending, hqueue]
    · rw [Ledger.produced_deliver, h.produced, hpublished]
    · simp [h.delivered, h.pending, hdrained]
    · rw [Ledger.discarded_deliver, h.discarded, State.dropped, State.dropped, hdrops]
  | same hqueue hpublished hdrained hdrops =>
    refine ⟨L, ?_, ?_, ?_, ?_⟩
    · rw [h.pending, hqueue]
    · rw [h.produced, hpublished]
    · rw [h.delivered, hdrained]
    · rw [h.discarded, State.dropped, State.dropped, hdrops]

/-- The queue is bounded, and it is full whenever it drops. -/
structure Bounded (s : State) : Prop where
  places : s.published.map Message.place = List.range s.published.length
  queue : s.queue.length ≤ kMaxQueue
  drops : ∀ q ∈ s.drops, q.length = kMaxQueue

theorem next_bounded {s t : State} {a : Action} (h : Bounded s) (hstep : next s a = some t) :
    Bounded t := by
  cases next_queueStep hstep with
  | publish alert _ ht =>
    have hplaces : (publish s alert).published.map Message.place =
        List.range (publish s alert).published.length := by
      simp [publish, h.places, List.range_succ]
    rw [ht]
    rcases le_or_gt kMaxQueue s.queue.length with hfull | hroom
    · obtain ⟨hqueue, hdrops⟩ := publish_of_full hfull alert
      have hlen : s.queue.length = kMaxQueue := le_antisymm h.queue hfull
      refine ⟨hplaces, ?_, ?_⟩
      · have hpos : 0 < kMaxQueue := by decide
        rw [hqueue, List.length_append, List.length_tail, List.length_singleton, hlen]
        omega
      · intro q hq
        rw [hdrops, List.mem_append, List.mem_singleton] at hq
        rcases hq with hq | rfl
        · exact h.drops q hq
        · exact hlen
    · obtain ⟨hqueue, hdrops⟩ := publish_of_room hroom alert
      refine ⟨hplaces, ?_, ?_⟩
      · rw [hqueue, List.length_append, List.length_singleton]
        omega
      · rw [hdrops]
        exact h.drops
  | drain hqueue hpublished _ hdrops =>
    refine ⟨?_, ?_, ?_⟩
    · rw [hpublished]
      exact h.places
    · rw [hqueue]
      exact Nat.zero_le _
    · rw [hdrops]
      exact h.drops
  | same hqueue hpublished _ hdrops =>
    refine ⟨?_, ?_, ?_⟩
    · rw [hpublished]
      exact h.places
    · rw [hqueue]
      exact h.queue
    · rw [hdrops]
      exact h.drops

theorem Bounded.published_nodup {s : State} (h : Bounded s) : s.published.Nodup := by
  have hplaces : (s.published.map Message.place).Nodup := by
    rw [h.places]
    exact List.nodup_range
  exact hplaces.of_map

/-- Where a session is between its handshake and its removal. -/
inductive Stage (log : List Message) (c : Client) : Prop
  | waiting (hready : c.session.ready = false) (hidle : c.inFlight = [])
      (hshake : c.handshaking = true → c.registered = true)
      (htaken : Waiting log c.there c.taken)
  | joined (hready : c.session.ready = true) (hregistered : c.registered = true)
      (hshake : c.handshaking = false) (htaken : Attending log c.there c.taken)
  | left (hready : c.session.ready = true) (hregistered : c.registered = false)
      (hshake : c.handshaking = false) (htaken : TookRun log c.there c.taken)

theorem Stage.tookRun {log : List Message} {c : Client} (h : Stage log c) :
    TookRun log c.there c.taken := by
  cases h with
  | waiting _ _ _ htaken => exact htaken.attending.tookRun
  | joined _ _ _ htaken => exact htaken.tookRun
  | left _ _ _ htaken => exact htaken

theorem Stage.offer {log : List Message} {c : Client} (h : Stage log c) (payload : Message) :
    Stage (log ++ [payload]) (c.offer payload) := by
  cases h with
  | waiting hready hidle hshake htaken =>
    rw [Client.offer_of_absent (by simp [hready])]
    exact .waiting hready hidle hshake (htaken.miss payload)
  | joined hready hregistered hshake htaken =>
    refine .joined (by simpa using hready) (by simpa using hregistered) (by simpa using hshake) ?_
    rw [Client.offer_taken hregistered hready, Client.offer_there, hregistered, hready]
    exact htaken.take payload
  | left hready hregistered hshake htaken =>
    rw [Client.offer_of_absent (by simp [hregistered])]
    exact .left hready hregistered hshake (htaken.miss payload)

theorem Stage.handshake {log : List Message} {c : Client} (h : Stage log c)
    (hc : c.handshaking = true) (ok : Bool) : Stage log (c.handshake ok) := by
  cases h with
  | waiting hready hidle hshake htaken =>
    cases ok with
    | true => exact .joined rfl (hshake hc) rfl htaken.attending
    | false => exact .waiting hready hidle (by simp [Client.handshake]) htaken
  | joined _ _ hshake _ => simp [hc] at hshake
  | left _ _ hshake _ => simp [hc] at hshake

theorem Stage.writeDone {log : List Message} {c : Client} (h : Stage log c)
    (hc : c.inFlight ≠ []) (rest : List Message) (ok : Bool) :
    Stage log (c.writeDone rest ok) := by
  cases h with
  | waiting _ hidle _ _ => exact absurd hidle hc
  | joined hready hregistered hshake htaken =>
    rw [← Client.writeDone_taken rest ok, ← Client.writeDone_there rest ok] at htaken
    cases ok with
    | true =>
      exact .joined (by simpa using hready) (by simpa using hregistered) (by simpa using hshake)
        htaken
    | false => exact .left hready rfl hshake htaken.tookRun
  | left hready hregistered hshake htaken =>
    rw [← Client.writeDone_taken rest ok, ← Client.writeDone_there rest ok] at htaken
    exact .left (by simpa using hready) (by simp [hregistered]) (by simpa using hshake) htaken

/-- Every session is in one of its stages; those to come are untouched. -/
structure Staged (s : State) : Prop where
  stage : ∀ i, Stage s.dispatched (s.clients i)
  fresh : ∀ i, s.accepted ≤ i →
    (s.clients i).session.ready = false ∧ (s.clients i).handshaking = false

theorem stage_update {log : List Message} {clients : ℕ → Client} {j : ℕ} {c : Client}
    (h : ∀ i, Stage log (clients i)) (hc : Stage log c) (i : ℕ) :
    Stage log (Function.update clients j c i) :=
  (Function.forall_update_iff clients fun _ c => Stage log c).mpr ⟨hc, fun i _ => h i⟩ i

theorem next_staged {s t : State} {a : Action} (h : Staged s) (hstep : next s a = some t) :
    Staged t := by
  cases next_sessionStep hstep with
  | same _ hclients hdispatched haccepted =>
    refine ⟨?_, ?_⟩
    · rw [hclients, hdispatched]
      exact h.stage
    · rw [hclients, haccepted]
      exact h.fresh
  | dispatch payload _ hclients hdispatched haccepted =>
    refine ⟨?_, ?_⟩
    · intro i
      rw [hclients, hdispatched]
      exact (h.stage i).offer payload
    · intro i hi
      rw [haccepted] at hi
      simpa [hclients] using h.fresh i hi
  | accept _ hclients hdispatched haccepted =>
    obtain ⟨hready, hshaking⟩ := h.fresh s.accepted le_rfl
    have hnew : Stage s.dispatched
        { s.clients s.accepted with registered := true, handshaking := true } := by
      cases h.stage s.accepted with
      | waiting _ hidle _ htaken => exact .waiting hready hidle (fun _ => rfl) htaken
      | joined hready' _ _ _ => simp [hready] at hready'
      | left hready' _ _ _ => simp [hready] at hready'
    refine ⟨?_, ?_⟩
    · rw [hclients, hdispatched]
      exact stage_update h.stage hnew
    · intro i hi
      have hne : i ≠ s.accepted := by omega
      rw [hclients, Function.update_of_ne hne]
      exact h.fresh i (by omega)
  | handshake j ok _ hj hclients hdispatched haccepted =>
    refine ⟨?_, ?_⟩
    · rw [hclients, hdispatched]
      exact stage_update h.stage ((h.stage j).handshake hj ok)
    · intro i hi
      rw [haccepted] at hi
      have hne : i ≠ j := by
        rintro rfl
        simp [(h.fresh i hi).2] at hj
      rw [hclients, Function.update_of_ne hne]
      exact h.fresh i hi
  | writeDone j rest ok _ hj hclients hdispatched haccepted =>
    refine ⟨?_, ?_⟩
    · rw [hclients, hdispatched]
      exact stage_update h.stage ((h.stage j).writeDone hj rest ok)
    · intro i hi
      rw [haccepted] at hi
      rw [hclients]
      by_cases hij : i = j
      · rw [hij, Function.update_self, Client.writeDone_ready, Client.writeDone_handshaking, ← hij]
        exact h.fresh i hi
      · rw [Function.update_of_ne hij]
        exact h.fresh i hi

/-- What the publisher keeps of its alerts, and each session of what it is sent. -/
structure FanOut (s : State) : Prop where
  /-- What was drained and what is queued are the published alerts without the dropped ones. -/
  accounted : s.drained ++ s.queue = s.published.filter (· ∉ s.dropped)
  bounded : s.queue.length ≤ kMaxQueue
  /-- Only the oldest entry of a full queue was ever dropped. -/
  dropsFull : ∀ q ∈ s.drops, q.length = kMaxQueue
  /-- Each session took the run of alerts that was drained while it was registered and ready. What a
  `do_drain` in progress has still to send is not yet `dispatched`. -/
  sessions : ∀ i, TookRun s.dispatched (s.clients i).there (s.clients i).taken
  distinct : s.published.Nodup
  takenOnce : ∀ i, (s.clients i).taken.Nodup

theorem system_start_staged : Staged ({} : State) where
  stage _ := .waiting rfl rfl (by simp) ⟨rfl, rfl⟩
  fresh _ _ := ⟨rfl, rfl⟩

/-- Whatever the order of the threads' steps, no alert is duplicated, reordered or lost other than
as the oldest of a full queue. -/
theorem publisher_fanOut {s : State} (h : system.Reachable s) : FanOut s := by
  obtain ⟨L, hL⟩ : ∃ L, Follows s L := by
    apply h.invariant (I := fun s => ∃ L, Follows s L) ⟨{}, rfl, rfl, rfl, rfl⟩
    rintro s a t _ ⟨L, hL⟩ hstep
    exact next_follows hL hstep
  have hbounded : Bounded s := by
    apply h.invariant (I := Bounded) ⟨rfl, Nat.zero_le _, by simp [system, LTS.ofNext]⟩
    intro s a t _ hs hstep
    exact next_bounded hs hstep
  have hstaged : Staged s := by
    apply h.invariant (I := Staged) system_start_staged
    intro s a t _ hs hstep
    exact next_staged hs hstep
  have hnodup := hbounded.published_nodup
  have haccounted : s.drained ++ s.queue = s.published.filter (· ∉ s.dropped) := by
    have hproduced : L.produced.Nodup := by rwa [hL.produced]
    have hfilter := L.delivered_eq_filter hproduced
    rwa [hL.delivered, hL.pending, hL.produced, hL.discarded] at hfilter
  have hdispatched : s.dispatched.Nodup := by
    have hall : (s.drained ++ s.queue).Nodup := by
      rw [haccounted]
      exact hnodup.filter _
    rw [State.drained, List.append_assoc] at hall
    exact (List.nodup_append.mp hall).1
  refine ⟨haccounted, hbounded.queue, hbounded.drops, fun i => (hstaged.stage i).tookRun, hnodup,
    ?_⟩
  intro i
  obtain ⟨before, during, _, _, _, htaken⟩ := (hstaged.stage i).tookRun
  rw [htaken]
  exact (hdispatched.drop).take

/-- A client that joins after one alert and is slow to take the next two. -/
def lateClient : List Action :=
  [.publish {}, .start, .post, .accept true, .drain, .dispatch, .handshake 0 true, .publish {},
    .publish {}, .post, .drain, .dispatch, .dispatch, .publish {}]

theorem lateClient_fanOut : ∃ s ∈ exec next {} lateClient, FanOut s ∧ s.queue.length = 1 ∧
    (s.clients 0).there = [false, true, true] ∧
    (s.clients 0).handed.map Message.place = [1] ∧
    (s.clients 0).session.pending.map Message.place = [2] := by
  have hrun : (exec next {} lateClient).isSome = true := rfl
  obtain ⟨s, hs⟩ := Option.isSome_iff_exists.mp hrun
  refine ⟨s, hs, publisher_fanOut (reachable_of_exec hs), ?_⟩
  obtain rfl : (exec next {} lateClient).get hrun = s := Option.get_of_mem hrun hs
  exact ⟨rfl, rfl, rfl, rfl⟩

/-- Every session has room for the messages that it holds. -/
def BacklogBounded (s : State) : Prop := ∀ i, (s.clients i).session.pending.length ≤ kMaxQueue

/-- What a run says of one client: whether its handshake is done and no write to it has failed
since, how many alerts `do_drain` has sent to it in that time, and how many writes have
completed. -/
structure Tally where
  attending : Bool := false
  sent : ℕ := 0
  written : ℕ := 0

def Tally.count (i : ℕ) (T : Tally) : Action → Tally
  | .handshake j ok => if j = i then { T with attending := ok } else T
  | .dispatch => if T.attending then { T with sent := T.sent + 1 } else T
  | .writeDone j ok =>
    if j ≠ i then T
    else if ok then { T with written := T.written + 1 }
    else { T with attending := false }
  | _ => T

def tally (i : ℕ) (run : List Action) : Tally := run.foldl (Tally.count i) {}

/-- At no moment of the run have more than `kMaxQueue` alerts been sent to a client since the one
whose write is outstanding. -/
def WritesKeepUp (run : List Action) : Prop :=
  ∀ done, done <+: run → ∀ i, (tally i done).sent ≤ (tally i done).written + (kMaxQueue + 1)

namespace Session
variable {s : Session}

theorem send_of_writing (hready : s.ready = true) (hwriting : s.writing = true)
    (payload : Message) :
    s.send payload = ({ s with pending := s.pending ++ [payload] }, none) := by
  simp [send, hready, hwriting]

theorem send_of_idle (hready : s.ready = true) (hwriting : s.writing = false)
    (hpending : s.pending = []) (payload : Message) :
    s.send payload = ({ s with writing := true }, some payload) := by
  simp [send, doWrite, hready, hwriting, hpending]

end Session

theorem Client.offer_of_writing {c : Client} (hregistered : c.registered = true)
    (hready : c.session.ready = true) (hwriting : c.session.writing = true) (payload : Message) :
    c.offer payload = { c with
      session := { c.session with pending := c.session.pending ++ [payload] }
      there := c.there ++ [true] } := by
  simp [offer, record, hregistered, Session.send_of_writing hready hwriting, hready]

/-- What was sent to a client is written, waits behind the write that is outstanding, or is that
write. After a failed write the session goes on as if it were outstanding. -/
structure Counted (c : Client) (T : Tally) : Prop where
  attending : T.attending = (c.registered && c.session.ready)
  sent : T.sent = T.written + (c.session.pending.length + if c.session.writing then 1 else 0)
  idle : c.session.writing = false → c.session.pending = []
  single : c.inFlight.length ≤ if c.session.writing then 1 else 0

theorem Counted.offer {c : Client} {T : Tally} (h : Counted c T) (i : ℕ) (payload : Message) :
    Counted (c.offer payload) (T.count i .dispatch) := by
  obtain ⟨hattending, hsent, hidle, hsingle⟩ := h
  by_cases hthere : (c.registered && c.session.ready) = true
  · obtain ⟨hregistered, hready⟩ := Bool.and_eq_true_iff.mp hthere
    have hcount : T.count i .dispatch = { T with sent := T.sent + 1 } := by
      simp [Tally.count, hattending, hthere]
    rw [hcount]
    by_cases hwriting : c.session.writing = true
    · rw [Client.offer_of_writing hregistered hready hwriting]
      refine ⟨hattending, ?_, by simp [hwriting], hsingle⟩
      simp only [hsent, hwriting, List.length_append, List.length_singleton]
      omega
    · have hwriting : c.session.writing = false := by simpa using hwriting
      have hpending := hidle hwriting
      have hinFlight : c.inFlight = [] := by simpa [hwriting] using hsingle
      have hoffer : c.offer payload = { c with
          session := { c.session with writing := true }
          inFlight := [payload]
          handed := c.handed ++ [payload]
          there := c.there ++ [true] } := by
        simp [Client.offer, Client.record, hregistered,
          Session.send_of_idle hready hwriting hpending, hready, hinFlight]
      rw [hoffer]
      exact ⟨hattending, by simp [hsent, hwriting, hpending], by simp, by simp⟩
  · have habsent : (c.registered && c.session.ready) = false := by simpa using hthere
    have hcount : T.count i .dispatch = T := by simp [Tally.count, hattending, habsent]
    rw [hcount, Client.offer_of_absent habsent]
    exact ⟨hattending, hsent, hidle, hsingle⟩

theorem Counted.handshake {c : Client} {T : Tally} {log : List Message} (h : Counted c T)
    (hstage : Stage log c) (hc : c.handshaking = true) (i : ℕ) (ok : Bool) :
    Counted (c.handshake ok) (T.count i (.handshake i ok)) := by
  have hcount : T.count i (.handshake i ok) = { T with attending := ok } := if_pos rfl
  rw [hcount]
  cases hstage with
  | waiting hready _ hshake _ =>
    cases ok with
    | true => exact ⟨by simp [Client.handshake, hshake hc], h.sent, h.idle, h.single⟩
    | false => exact ⟨by simp [Client.handshake], h.sent, h.idle, h.single⟩
  | joined _ _ hshake _ => simp [hc] at hshake
  | left _ _ hshake _ => simp [hc] at hshake

theorem Counted.writeDone {c : Client} {T : Tally} {m : Message} {rest : List Message}
    (h : Counted c T) (hc : c.inFlight = m :: rest) (i : ℕ) (ok : Bool) :
    Counted (c.writeDone rest ok) (T.count i (.writeDone i ok)) := by
  obtain ⟨hattending, hsent, hidle, hsingle⟩ := h
  have hwriting : c.session.writing = true := by
    by_contra hnot
    simp [hc, hnot] at hsingle
  have hrest : rest = [] := by simpa [hc, hwriting] using hsingle
  cases ok with
  | false =>
    have hcount : T.count i (.writeDone i false) = { T with attending := false } := by
      simp [Tally.count]
    rw [hcount]
    refine ⟨by simp [Client.writeDone], hsent, hidle, ?_⟩
    simp [Client.writeDone, hrest]
  | true =>
    have hcount : T.count i (.writeDone i true) = { T with written := T.written + 1 } := by
      simp [Tally.count]
    rw [hcount]
    cases hpending : c.session.pending with
    | nil =>
      have hdone : c.writeDone rest true = { c with
          session := { c.session with writing := false }, inFlight := [] } := by
        simp [Client.writeDone, Client.record, Session.doWrite, hpending, hrest]
      rw [hdone]
      refine ⟨hattending, ?_, fun _ => hpending, by simp⟩
      simp [hsent, hwriting, hpending]
    | cons next later =>
      have hdone : c.writeDone rest true = { c with
          session := { c.session with writing := true, pending := later }
          inFlight := [next], handed := c.handed ++ [next] } := by
        simp [Client.writeDone, Client.record, Session.doWrite, hpending, hrest]
      rw [hdone]
      refine ⟨hattending, ?_, by simp, by simp⟩
      simp only [hsent, hwriting, hpending, List.length_cons]
      omega

/-- What a step means for the count of one client. -/
theorem Counted.next {s t : State} {a : Action} {i : ℕ} {T : Tally} (hstaged : Staged s)
    (h : Counted (s.clients i) T) (hstep : next s a = some t) :
    Counted (t.clients i) (T.count i a) := by
  cases a with
  | start | stop | halt | post | drain =>
    simp only [Publisher.next, Option.ite_none_right_eq_some, Option.ite_none_left_eq_some,
      Option.some.injEq] at hstep
    obtain ⟨_, rfl⟩ := hstep
    exact h
  | publish alert =>
    simp only [Publisher.next, Option.some.injEq] at hstep
    rw [← hstep]
    exact h
  | dispatch =>
    simp only [Publisher.next] at hstep
    split at hstep
    · contradiction
    · rw [Option.some.injEq] at hstep
      rw [← hstep]
      exact h.offer i _
  | accept ok =>
    simp only [Publisher.next, Option.ite_none_right_eq_some, Option.some.injEq] at hstep
    obtain ⟨_, rfl⟩ := hstep
    unfold acceptDone
    split_ifs
    · exact h
    · by_cases hi : i = s.accepted
      · subst hi
        -- The new session is registered and not ready, as it was not before.
        obtain ⟨hready, _⟩ := hstaged.fresh s.accepted le_rfl
        have hnotYet : T.attending = false := by simp [h.attending, hready]
        simp only [State.setClient, Function.update_self]
        exact ⟨by simpa [Tally.count, hready] using hnotYet, h.sent, h.idle, h.single⟩
      · simp only [State.setClient, Function.update_of_ne hi]
        exact h
    · exact h
  | handshake j ok =>
    simp only [Publisher.next, Option.ite_none_right_eq_some, Option.some.injEq] at hstep
    obtain ⟨⟨_, hj⟩, rfl⟩ := hstep
    by_cases hi : i = j
    · subst hi
      simp only [State.setClient, Function.update_self]
      exact h.handshake (hstaged.stage i) hj i ok
    · simp only [State.setClient, Function.update_of_ne hi, Tally.count, if_neg (Ne.symm hi)]
      exact h
  | writeDone j ok =>
    simp only [Publisher.next] at hstep
    split at hstep
    · contradiction
    · rename_i hj
      simp only [Option.ite_none_right_eq_some, Option.some.injEq] at hstep
      obtain ⟨_, rfl⟩ := hstep
      by_cases hi : i = j
      · subst hi
        simp only [State.setClient, Function.update_self]
        exact h.writeDone hj i ok
      · simp only [State.setClient, Function.update_of_ne hi, Tally.count, if_pos (Ne.symm hi)]
        exact h

theorem counted_of_exec {s t : State} {run : List Action} {i : ℕ} {T : Tally} (hstaged : Staged s)
    (h : Counted (s.clients i) T) (hrun : exec next s run = some t) :
    Counted (t.clients i) (run.foldl (Tally.count i) T) := by
  induction run generalizing s T with
  | nil =>
    rw [exec, Option.some.injEq] at hrun
    rw [← hrun]
    exact h
  | cons a run ih =>
    rw [exec, Option.bind_eq_some_iff] at hrun
    obtain ⟨u, hu, hrest⟩ := hrun
    exact ih (next_staged hstaged hu) (h.next hstaged hu) hrest

theorem counted_tally {run : List Action} {s : State} (hrun : exec next {} run = some s) (i : ℕ) :
    Counted (s.clients i) (tally i run) :=
  counted_of_exec system_start_staged ⟨rfl, rfl, fun _ => rfl, Nat.zero_le _⟩ hrun

theorem Counted.pending_le_iff {c : Client} {T : Tally} (h : Counted c T) :
    c.session.pending.length ≤ kMaxQueue ↔ T.sent ≤ T.written + (kMaxQueue + 1) := by
  rw [h.sent]
  by_cases hwriting : c.session.writing = true
  · simp only [hwriting, ↓reduceIte]
    omega
  · have hpending := h.idle (by simpa using hwriting)
    simp [hpending, hwriting]

/-- Whatever the order of its steps, a run keeps every session's queue within the bound exactly when
the writes to each client keep up with what is drained to it. -/
theorem publisher_backlogBounded_iff {run : List Action} {s : State}
    (hrun : exec next {} run = some s) :
    (∀ done, done <+: run → ∀ t ∈ exec next {} done, BacklogBounded t) ↔ WritesKeepUp run := by
  have hmoment : ∀ done t, exec next {} done = some t →
      (BacklogBounded t ↔
        ∀ i, (tally i done).sent ≤ (tally i done).written + (kMaxQueue + 1)) := by
    intro done t ht
    exact forall_congr' fun i => (counted_tally ht i).pending_le_iff
  constructor
  · intro h done hdone
    obtain ⟨t, ht⟩ := exec_prefix hrun hdone
    exact (hmoment done t ht).mp (h done hdone t ht)
  · intro h done hdone t ht
    exact (hmoment done t ht).mpr (h done hdone)

theorem Tally.sent_le (i : ℕ) (T : Tally) (run : List Action) :
    (run.foldl (Tally.count i) T).sent ≤ T.sent + run.length := by
  induction run generalizing T with
  | nil => exact le_rfl
  | cons a run ih =>
    have hone : (T.count i a).sent ≤ T.sent + 1 := by
      unfold Tally.count
      split
      · split_ifs <;> simp
      · split_ifs <;> simp
      · split_ifs <;> simp
      · simp
    have hrest := ih (T.count i a)
    rw [List.foldl_cons, List.length_cons]
    omega

/-- A client that reads the first of two alerts before the second is drained. -/
def readingClient : List Action :=
  [.start, .accept true, .handshake 0 true, .publish {}, .post, .drain, .dispatch,
    .writeDone 0 true, .publish {}, .post, .drain, .dispatch]

theorem readingClient_backlogBounded : ∃ s, exec next {} readingClient = some s ∧
    (s.clients 0).session.writing = true ∧
    ∀ done, done <+: readingClient → ∀ t ∈ exec next {} done, BacklogBounded t := by
  refine ⟨_, rfl, rfl, (publisher_backlogBounded_iff rfl).mpr ?_⟩
  intro done hdone i
  have hsent : (tally i done).sent ≤ 0 + done.length := Tally.sent_le i {} done
  have hlength : done.length ≤ readingClient.length := hdone.length_le
  have hfew : readingClient.length ≤ kMaxQueue := by decide
  omega

/-- The first client waits for a write to complete, and nothing else is left to do. -/
structure Stalled (s : State) (backlog : ℕ) : Prop where
  phase : s.phase = .serving
  localQueue : s.localQueue = []
  queue : s.queue = []
  posted : s.unposted = 0
  registered : (s.clients 0).registered = true
  ready : (s.clients 0).session.ready = true
  writing : (s.clients 0).session.writing = true
  backlog : (s.clients 0).session.pending.length = backlog

/-- One more alert, and one more message waits. -/
theorem Stalled.alert {s : State} {n : ℕ} (h : Stalled s n) :
    ∃ t, system.Path s t ∧ Stalled t (n + 1) := by
  let message : Message := ⟨s.published.length, serialize {}⟩
  have hroom : ¬ kMaxQueue ≤ 0 := by decide
  have hrun : exec next s [.publish {}, .post, .drain, .dispatch] =
      some { s with localQueue := [], queue := [], unposted := 0, posted := s.posted,
                    published := s.published ++ [message], dispatched := s.dispatched ++ [message],
                    clients := fun i => (s.clients i).offer message } := by
    simp [exec, next, publish, State.ioFree, Phase.ioRuns, h.phase, h.localQueue, h.queue,
      h.posted, hroom, message]
  have hoffer := Client.offer_of_writing h.registered h.ready h.writing message
  refine ⟨_, path_of_exec hrun, h.phase, rfl, rfl, rfl, ?_, ?_, ?_, ?_⟩
  · rw [Client.offer_registered, h.registered]
  · rw [Client.offer_ready, h.ready]
  · simp only [hoffer, h.writing]
  · simp only [hoffer, List.length_append, h.backlog, List.length_singleton]

/-- Nothing bounds what is held for a client whose write does not complete. -/
theorem backlog_unbounded (n : ℕ) : ∃ s, system.Reachable s ∧ Stalled s n := by
  induction n with
  | zero =>
    have hrun : (exec next {} [.start, .accept true, .handshake 0 true, .publish {}, .post, .drain,
        .dispatch]).isSome = true := rfl
    obtain ⟨s, hs⟩ := Option.isSome_iff_exists.mp hrun
    refine ⟨s, reachable_of_exec hs, ?_⟩
    rw [← Option.get_of_mem hrun hs]
    exact ⟨rfl, rfl, rfl, rfl, rfl, rfl, rfl, rfl⟩
  | succ n ih =>
    obtain ⟨s, hs, hstalled⟩ := ih
    obtain ⟨t, ht, hmore⟩ := hstalled.alert
    exact ⟨t, hs.path ht, hmore⟩

/-- A client that stops reading is held more than the bound. -/
theorem stalledClient_backlog : ∃ s, system.Reachable s ∧ ¬ BacklogBounded s := by
  obtain ⟨s, hs, hstalled⟩ := backlog_unbounded (kMaxQueue + 1)
  refine ⟨s, hs, ?_⟩
  intro hbounded
  have hfirst := hbounded 0
  rw [hstalled.backlog] at hfirst
  omega

end Publisher
end ForkliftSafety
