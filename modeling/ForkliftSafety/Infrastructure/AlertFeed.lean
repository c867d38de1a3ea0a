import ForkliftSafety.Infrastructure.AlertPage
import ForkliftSafety.Infrastructure.AlertDrain

/-! The alerts on their way from `publish` to the list of a dashboard, whose connections may break
and be opened again at any moment while the publisher serves other clients too. -/
namespace ForkliftSafety
open Transition Buffer Publisher Dashboard

/-- The connection behind a socket of the page: the publisher's session, once it has accepted the
socket, and how many of its messages have arrived. -/
structure Wire where
  peer : Option ℕ := none
  arrived : ℕ := 0
  deriving DecidableEq, Repr

structure AlertFeed where
  publisher : Publisher.State := {}
  page : AlertPage := ({} : AlertPage).connectAlerts
  wires : List Wire := [{}]
  /-- The messages whose `onmessage` has run, in order. -/
  received : List Message := []
  /-- Those of them since the list was cleared. -/
  listed : List Message := []

namespace AlertFeed

inductive Event where
  /-- A step of the publisher; the session it accepts is another client's. -/
  | publisher (a : Publisher.Action)
  /-- The publisher accepts socket `k`. -/
  | accepted (k : ℕ)
  | opened (k : ℕ)
  /-- The next message of socket `k` arrives. -/
  | message (k : ℕ)
  | error (k : ℕ)
  | closed (k : ℕ)
  | timer
  | clear

def next (s : AlertFeed) : Event → Option AlertFeed
  | .publisher a => (Publisher.next s.publisher a).map fun t => { s with publisher := t }
  | .accepted k =>
    if s.wires[k]? = some {} ∧ s.page.sockets[k]? = some .connecting then
      (Publisher.next s.publisher (.accept true)).bind fun t =>
        if t.accepted = s.publisher.accepted + 1 then
          some { s with
            publisher := t
            wires := s.wires.set k { peer := some s.publisher.accepted } }
        else none
    else none
  | .opened k =>
    match s.wires[k]?.bind Wire.peer with
    | some i =>
      if (s.publisher.clients i).session.ready then
        (s.page.next (.opened k)).map fun p => { s with page := p }
      else none
    | none => none
  | .message k =>
    match s.wires[k]? with
    | some ⟨some i, arrived⟩ =>
      (s.publisher.clients i).handed[arrived]?.bind fun m =>
        (s.page.next (.message k m.payload.toList)).map fun p =>
          { s with
            page := p
            wires := s.wires.set k ⟨some i, arrived + 1⟩
            received := s.received ++ [m]
            listed := s.listed ++ [m] }
    | _ => none
  | .error k => (s.page.next (.error k)).map fun p => { s with page := p }
  | .closed k => (s.page.next (.closed k)).map fun p => { s with page := p }
  | .timer =>
    (s.page.next .timer).map fun p => { s with page := p, wires := s.wires ++ [{}] }
  | .clear => (s.page.next .clear).map fun p => { s with page := p, listed := [] }

def system : LTS AlertFeed Event := .ofNext {} next

/-- The page moves, and the publisher too, or stays as it is. -/
theorem next_publisher {s t : AlertFeed} {e : Event} (h : next s e = some t) :
    t.publisher = s.publisher ∨ ∃ a, Publisher.next s.publisher a = some t.publisher ∧
      (e = .publisher a ∨ a = .accept true) := by
  cases e with
  | publisher a =>
    obtain ⟨u, hu, rfl⟩ := Option.map_eq_some_iff.mp h
    exact .inr ⟨a, hu, .inl rfl⟩
  | accepted k =>
    simp only [next, Option.ite_none_right_eq_some, Option.bind_eq_some_iff, Option.some.injEq] at h
    obtain ⟨_, u, hu, _, rfl⟩ := h
    exact .inr ⟨_, hu, .inr rfl⟩
  | opened k =>
    simp only [next] at h
    split at h
    · simp only [Option.ite_none_right_eq_some, Option.map_eq_some_iff] at h
      obtain ⟨_, p, _, rfl⟩ := h
      exact .inl rfl
    · contradiction
  | message k =>
    simp only [next] at h
    split at h
    · simp only [Option.bind_eq_some_iff, Option.map_eq_some_iff] at h
      obtain ⟨m, _, p, _, rfl⟩ := h
      exact .inl rfl
    · contradiction
  | error k | closed k | timer | clear =>
    simp only [next, Option.map_eq_some_iff] at h
    obtain ⟨p, _, rfl⟩ := h
    exact .inl rfl

theorem publisher_reachable {s : AlertFeed} (h : system.Reachable s) :
    Publisher.system.Reachable s.publisher := by
  apply h.invariant (I := fun s => Publisher.system.Reachable s.publisher) LTS.Reachable.start
  intro s e t _ hs hstep
  rcases next_publisher hstep with hsame | ⟨a, ha, _⟩
  · rw [hsame]
    exact hs
  · exact hs.step ha

end AlertFeed

namespace AlertFeed

def IsLive (s : AlertFeed) (k : ℕ) : Prop :=
  s.page.sockets[k]? = some .connecting ∨ s.page.sockets[k]? = some .opened

/-- The live socket has the messages of one session, behind those that were dispatched before the
session was accepted; all that came over earlier sockets was dispatched then. -/
structure Attached (s : AlertFeed) (k i arrived base : ℕ) (old : List Message) : Prop where
  wire : s.wires[k]? = some ⟨some i, arrived⟩
  received : s.received = old ++ (s.publisher.clients i).handed.take arrived
  bounded : arrived ≤ (s.publisher.clients i).handed.length
  earlier : old.Sublist (s.publisher.dispatched.take base)
  within : base ≤ s.publisher.dispatched.length
  absent : (s.publisher.clients i).there.take base = List.replicate base false

/-- Where the page stands between one of its sockets and the next. -/
inductive Feeding (s : AlertFeed) : Prop
  | waiting (hnone : ∀ k, ¬ s.IsLive k) (hreceived : s.received.Sublist s.publisher.dispatched)
  | connecting (k : ℕ) (hwire : s.wires[k]? = some {}) (honly : ∀ j, s.IsLive j → j = k)
      (hreceived : s.received.Sublist s.publisher.dispatched)
  | attached (k i arrived base : ℕ) (old : List Message) (honly : ∀ j, s.IsLive j → j = k)
      (hs : Attached s k i arrived base old)

theorem Attached.sublist {s : AlertFeed} {k i arrived base : ℕ} {old : List Message}
    (hstaged : Staged s.publisher) (h : Attached s k i arrived base old) :
    s.received.Sublist s.publisher.dispatched := by
  have htaken := taken_behind (hstaged.stage i).tookRun h.absent
  have hhanded : ((s.publisher.clients i).handed.take arrived).Sublist
      (s.publisher.dispatched.drop base) :=
    ((List.take_sublist _ _).trans (List.sublist_append_left _ _)).trans htaken
  have hboth := h.earlier.append hhanded
  rw [List.take_append_drop] at hboth
  rw [h.received]
  exact hboth

theorem Feeding.sublist {s : AlertFeed} (hstaged : Staged s.publisher) (h : Feeding s) :
    s.received.Sublist s.publisher.dispatched := by
  cases h with
  | waiting _ hreceived => exact hreceived
  | connecting _ _ _ hreceived => exact hreceived
  | attached k i arrived base old _ hs => exact hs.sublist hstaged

/-- Steps of the publisher leave the page where it stands. -/
theorem Feeding.publisher {s : AlertFeed} {t : Publisher.State} (h : Feeding s)
    (hgrows : Grows s.publisher t) : Feeding { s with publisher := t } := by
  have hsublist := hgrows.dispatched.sublist
  cases h with
  | waiting hnone hreceived => exact .waiting hnone (hreceived.trans hsublist)
  | connecting k hwire honly hreceived =>
    exact .connecting k hwire honly (hreceived.trans hsublist)
  | attached k i arrived base old honly hs =>
    obtain ⟨more, hmore⟩ := hgrows.handed i
    obtain ⟨later, hlater⟩ := hgrows.dispatched
    obtain ⟨flags, hflags⟩ := hgrows.there i
    refine .attached k i arrived base old honly ⟨hs.wire, ?_, ?_, ?_, ?_, ?_⟩
    · show s.received = old ++ (t.clients i).handed.take arrived
      rw [← hmore, List.take_append_of_le_length hs.bounded]
      exact hs.received
    · exact hs.bounded.trans (hgrows.handed i).length_le
    · show old.Sublist (t.dispatched.take base)
      rw [← hlater, List.take_append_of_le_length hs.within]
      exact hs.earlier
    · exact hs.within.trans hgrows.dispatched.length_le
    · show (t.clients i).there.take base = List.replicate base false
      have hlength := congrArg List.length hs.absent
      rw [List.length_take, List.length_replicate] at hlength
      rw [← hflags, List.take_append_of_le_length (by omega)]
      exact hs.absent

theorem page_step {s t : AlertFeed} {e : Event} (h : next s e = some t) :
    t.page = s.page ∨ ∃ a, s.page.next a = some t.page := by
  cases e with
  | publisher a =>
    obtain ⟨u, _, rfl⟩ := Option.map_eq_some_iff.mp h
    exact .inl rfl
  | accepted k =>
    simp only [next, Option.ite_none_right_eq_some, Option.bind_eq_some_iff, Option.some.injEq] at h
    obtain ⟨_, u, _, _, rfl⟩ := h
    exact .inl rfl
  | opened k =>
    simp only [next] at h
    split at h
    · simp only [Option.ite_none_right_eq_some, Option.map_eq_some_iff] at h
      obtain ⟨_, p, hp, rfl⟩ := h
      exact .inr ⟨_, hp⟩
    · contradiction
  | message k =>
    simp only [next] at h
    split at h
    · simp only [Option.bind_eq_some_iff, Option.map_eq_some_iff] at h
      obtain ⟨m, _, p, hp, rfl⟩ := h
      exact .inr ⟨_, hp⟩
    · contradiction
  | error k | closed k | timer | clear =>
    simp only [next, Option.map_eq_some_iff] at h
    obtain ⟨p, hp, rfl⟩ := h
    exact .inr ⟨_, hp⟩

theorem page_reachable {s : AlertFeed} (h : system.Reachable s) :
    AlertPage.system.Reachable s.page := by
  apply h.invariant (I := fun s => AlertPage.system.Reachable s.page) LTS.Reachable.start
  intro s e t _ hs hstep
  rcases page_step hstep with hsame | ⟨a, ha⟩
  · rw [hsame]
    exact hs
  · exact hs.step ha

/-- While a time-out is set, no socket is live. -/
theorem not_live_of_timers {p : AlertPage} (h : p.Attended) (htimers : p.timers ≠ 0) (k : ℕ) :
    ¬ (p.sockets[k]? = some .connecting ∨ p.sockets[k]? = some .opened) := by
  intro hlive
  obtain ⟨st, hst, hlive⟩ := AlertPage.live_of_open hlive
  have hpos : 0 < p.sockets.countP AlertPage.isLive :=
    List.countP_pos_iff.mpr ⟨st, List.mem_of_getElem? hst, hlive⟩
  have hone := h.one
  omega

/-- The publisher takes the connection of the page: what came before it is behind its session. -/
theorem attached_accepted {s : AlertFeed} {t : Publisher.State} {k : ℕ}
    (hstaged : Staged s.publisher) (hgrows : Grows s.publisher t) (hk : k < s.wires.length)
    (hreceived : s.received.Sublist s.publisher.dispatched) :
    Attached { s with
        publisher := t, wires := s.wires.set k { peer := some s.publisher.accepted } }
      k s.publisher.accepted 0 s.publisher.dispatched.length s.received := by
  obtain ⟨hready, _⟩ := hstaged.fresh s.publisher.accepted le_rfl
  have hthere : (s.publisher.clients s.publisher.accepted).there =
      List.replicate s.publisher.dispatched.length false := by
    cases hstaged.stage s.publisher.accepted with
    | waiting _ _ _ htaken => exact htaken.1
    | joined hready' _ _ _ => simp [hready] at hready'
    | left hready' _ _ _ => simp [hready] at hready'
  obtain ⟨later, hlater⟩ := hgrows.dispatched
  obtain ⟨flags, hflags⟩ := hgrows.there s.publisher.accepted
  refine ⟨List.getElem?_set_self hk, (List.append_nil _).symm, Nat.zero_le _, ?_,
    hgrows.dispatched.length_le, ?_⟩
  · show s.received.Sublist (t.dispatched.take s.publisher.dispatched.length)
    rw [← hlater, List.take_left]
    exact hreceived
  · show (t.clients s.publisher.accepted).there.take s.publisher.dispatched.length = _
    rw [← hflags, hthere]
    exact List.take_left' (List.length_replicate ..)

/-- The next message of the session arrives. -/
theorem Attached.message {s : AlertFeed} {k i arrived base : ℕ} {old : List Message}
    (h : Attached s k i arrived base old) {m : Message}
    (hm : (s.publisher.clients i).handed[arrived]? = some m) (p : AlertPage) :
    Attached { s with
        page := p, wires := s.wires.set k ⟨some i, arrived + 1⟩,
        received := s.received ++ [m], listed := s.listed ++ [m] }
      k i (arrived + 1) base old := by
  have hk : k < s.wires.length := (List.getElem?_eq_some_iff.mp h.wire).1
  have hlt : arrived < (s.publisher.clients i).handed.length :=
    (List.getElem?_eq_some_iff.mp hm).1
  refine ⟨List.getElem?_set_self hk, ?_, hlt, h.earlier, h.within, h.absent⟩
  show s.received ++ [m] = old ++ (s.publisher.clients i).handed.take (arrived + 1)
  rw [h.received, List.take_add_one, hm, List.append_assoc]
  rfl

/-- Steps that leave the wires alone and make no socket live. -/
theorem Feeding.page {s : AlertFeed} (h : Feeding s) {p : AlertPage} {listed : List Message}
    (hlive : ∀ j, IsLive { s with page := p, listed := listed } j → s.IsLive j) :
    Feeding { s with page := p, listed := listed } := by
  cases h with
  | waiting hnone hreceived => exact .waiting (fun j hj => hnone j (hlive j hj)) hreceived
  | connecting k hwire honly hreceived =>
    exact .connecting k hwire (fun j hj => honly j (hlive j hj)) hreceived
  | attached k i arrived base old honly hs =>
    exact .attached k i arrived base old (fun j hj => honly j (hlive j hj))
      ⟨hs.wire, hs.received, hs.bounded, hs.earlier, hs.within, hs.absent⟩

theorem Feeding.only {s : AlertFeed} (h : Feeding s) {k : ℕ} (hk : s.IsLive k) (j : ℕ)
    (hj : s.IsLive j) : j = k := by
  cases h with
  | waiting hnone _ => exact absurd hk (hnone k)
  | connecting _ _ honly _ => rw [honly j hj, honly k hk]
  | attached _ _ _ _ _ honly _ => rw [honly j hj, honly k hk]

/-- A live socket that was accepted is the one that the page is fed by. -/
theorem Feeding.attached_of_wire {s : AlertFeed} (h : Feeding s) {k i arrived : ℕ}
    (hk : s.IsLive k) (hwire : s.wires[k]? = some ⟨some i, arrived⟩) :
    ∃ base old, Attached s k i arrived base old := by
  cases h with
  | waiting hnone _ => exact absurd hk (hnone k)
  | connecting k' hwire' honly _ =>
    rw [honly k hk, hwire'] at hwire
    simp at hwire
  | attached k' i' arrived' base old honly hs =>
    obtain rfl := honly k hk
    rw [hs.wire] at hwire
    simp only [Option.some.injEq, Wire.mk.injEq] at hwire
    obtain ⟨rfl, rfl⟩ := hwire
    exact ⟨base, old, hs⟩

/-- The next socket of the page starts with nothing. -/
theorem feeding_timer {s : AlertFeed} (hlength : s.wires.length = s.page.sockets.length)
    (hnone : ∀ k, ¬ s.IsLive k) (hreceived : s.received.Sublist s.publisher.dispatched)
    (timers : ℕ) :
    Feeding { s with
      page := { s.page with timers := timers }.connectAlerts, wires := s.wires ++ [{}] } := by
  refine .connecting s.wires.length List.getElem?_concat_length ?_ hreceived
  intro j hj
  by_contra hne
  apply hnone j
  have hsame : (s.page.sockets ++ [SocketState.connecting])[j]? = s.page.sockets[j]? := by
    rcases Nat.lt_or_gt_of_ne hne with hlt | hgt
    · exact List.getElem?_append_left (by omega)
    · rw [List.getElem?_eq_none (by simp; omega), List.getElem?_eq_none (by omega)]
  unfold IsLive at hj ⊢
  rw [← hsame]
  exact hj

/-- The list of the page comes from what was received since it was cleared, and the page is fed in
the order of the publisher. -/
structure Fed (s : AlertFeed) : Prop where
  length : s.wires.length = s.page.sockets.length
  feeding : Feeding s
  lists : Lists s.page.alerts (s.listed.map (·.payload.toList))
  since : s.listed <:+ s.received

theorem suffix_concat {α : Type*} {xs ys : List α} (h : xs <:+ ys) (a : α) :
    xs ++ [a] <:+ ys ++ [a] := by
  obtain ⟨before, rfl⟩ := h
  exact ⟨before, (List.append_assoc ..).symm⟩

theorem next_fed {s t : AlertFeed} {e : Event} (hstaged : Staged s.publisher)
    (hs : s.page.Attended) (ht : t.page.Attended) (h : Fed s) (hstep : next s e = some t) :
    Fed t := by
  have hsublist := h.feeding.sublist hstaged
  cases e with
  | publisher a =>
    obtain ⟨u, hu, rfl⟩ := Option.map_eq_some_iff.mp hstep
    exact ⟨h.length, h.feeding.publisher (next_grows hu), h.lists, h.since⟩
  | accepted k =>
    simp only [next, Option.ite_none_right_eq_some, Option.bind_eq_some_iff,
      Option.some.injEq] at hstep
    obtain ⟨⟨hwire, hsocket⟩, u, hu, _, rfl⟩ := hstep
    have hk : k < s.wires.length := (List.getElem?_eq_some_iff.mp hwire).1
    have hattached := attached_accepted hstaged (next_grows hu) hk hsublist
    have hlive : s.IsLive k := .inl hsocket
    refine ⟨?_, .attached _ _ _ _ _ (h.feeding.only hlive) hattached, h.lists, h.since⟩
    exact (List.length_set ..).trans h.length
  | opened k =>
    simp only [next] at hstep
    split at hstep
    · simp only [Option.ite_none_right_eq_some, Option.map_eq_some_iff, AlertPage.next,
        Option.some.injEq] at hstep
      obtain ⟨_, p, ⟨hsocket, rfl⟩, rfl⟩ := hstep
      refine ⟨h.length.trans (List.length_set ..).symm, h.feeding.page ?_, h.lists, h.since⟩
      intro j hj
      by_cases hjk : j = k
      · exact hjk ▸ .inl hsocket
      · unfold IsLive at hj
        rwa [List.getElem?_set_ne (Ne.symm hjk)] at hj
    · contradiction
  | message k =>
    simp only [next] at hstep
    split at hstep
    · rename_i i arrived hwire
      simp only [Option.bind_eq_some_iff, Option.map_eq_some_iff, AlertPage.next,
        Option.ite_none_right_eq_some, Option.some.injEq] at hstep
      obtain ⟨m, hm, p, ⟨hsocket, rfl⟩, rfl⟩ := hstep
      have hlive : s.IsLive k := .inr hsocket
      obtain ⟨base, old, hattached⟩ := h.feeding.attached_of_wire hlive hwire
      refine ⟨(List.length_set ..).trans h.length, ?_, ?_, suffix_concat h.since m⟩
      · exact .attached k i (arrived + 1) base old (h.feeding.only hlive) (hattached.message hm _)
      · show Lists _ ((s.listed ++ [m]).map _)
        rw [List.map_append]
        exact h.lists.message _
    · contradiction
  | error k =>
    simp only [next, Option.map_eq_some_iff, AlertPage.next, Option.ite_none_right_eq_some,
      Option.some.injEq] at hstep
    obtain ⟨p, ⟨_, rfl⟩, rfl⟩ := hstep
    exact ⟨h.length, h.feeding.page fun _ hj => hj, h.lists, h.since⟩
  | closed k =>
    simp only [next, Option.map_eq_some_iff, AlertPage.next, Option.ite_none_right_eq_some,
      Option.some.injEq] at hstep
    obtain ⟨p, ⟨_, rfl⟩, rfl⟩ := hstep
    have hnone := not_live_of_timers ht (Nat.succ_ne_zero _)
    exact ⟨h.length.trans (List.length_set ..).symm, .waiting hnone hsublist, h.lists, h.since⟩
  | timer =>
    simp only [next, Option.map_eq_some_iff, AlertPage.next, Option.ite_none_left_eq_some,
      Option.some.injEq] at hstep
    obtain ⟨p, ⟨htimers, rfl⟩, rfl⟩ := hstep
    have hnone := not_live_of_timers hs htimers
    refine ⟨?_, feeding_timer h.length hnone hsublist _, h.lists, h.since⟩
    show (s.wires ++ [({} : Wire)]).length = (s.page.sockets ++ [SocketState.connecting]).length
    rw [List.length_append, List.length_append, h.length, List.length_singleton,
      List.length_singleton]
  | clear =>
    simp only [next, Option.map_eq_some_iff, AlertPage.next, Option.some.injEq] at hstep
    obtain ⟨p, rfl, rfl⟩ := hstep
    exact ⟨h.length, h.feeding.page fun _ hj => hj, rfl, List.nil_suffix⟩

theorem fed_of_reachable {s : AlertFeed} (h : system.Reachable s) : Fed s := by
  apply h.invariant (I := Fed)
  · refine ⟨rfl, .connecting 0 rfl ?_ (List.nil_sublist _), rfl, List.suffix_rfl⟩
    rintro (_ | j) hj
    · rfl
    · simp [IsLive, system, LTS.ofNext, AlertPage.connectAlerts] at hj
  · intro s e t hreach hs hstep
    have hnext : system.Reachable t := hreach.step hstep
    exact next_fed (staged_of_reachable (publisher_reachable hreach))
      (AlertPage.page_attended (page_reachable hreach))
      (AlertPage.page_attended (page_reachable hnext)) hs hstep

/-- What a dashboard makes of the published alerts. -/
structure Shows (s : AlertFeed) : Prop where
  /-- In the order in which they were published, with none twice, over all its sockets. -/
  ordered : s.received.Sublist s.publisher.published
  once : s.received.Nodup
  /-- From the newest of those that came since the list was cleared and that parse, the last one
  first. -/
  listed : Lists s.page.alerts (s.listed.map (·.payload.toList))
  since : s.listed <:+ s.received

theorem received_sublist {s : AlertFeed} (h : system.Reachable s) :
    s.received.Sublist s.publisher.published := by
  have hpublisher := publisher_reachable h
  have hstaged := staged_of_reachable hpublisher
  exact ((fed_of_reachable h).feeding.sublist hstaged).trans (dispatched_sublist hpublisher).1

/-- However often the connection of the page breaks and whenever it comes back, the page receives
no alert twice and none out of order. -/
theorem page_shows {s : AlertFeed} (h : system.Reachable s) : Shows s := by
  have hfed := fed_of_reachable h
  have hordered := received_sublist h
  have hnodup := (dispatched_sublist (publisher_reachable h)).2
  exact ⟨hordered, hordered.nodup hnodup, hfed.lists, hfed.since⟩

/-- An alert goes from `publish` to the sessions. -/
def sendAlert : List Event := [.publisher (.publish {}), .publisher .post, .publisher .drain,
  .publisher .dispatch]

/-- The connection breaks after one alert, misses the second and is back for the third. -/
def brokenConnection : List Event :=
  [.publisher .start, .accepted 0, .publisher (.handshake 0 true), .opened 0] ++ sendAlert ++
    [.message 0, .closed 0] ++ sendAlert ++
    [.timer, .accepted 1, .publisher (.handshake 1 true), .opened 1] ++ sendAlert ++ [.message 1]

theorem brokenConnection_shows : ∃ s ∈ exec next {} brokenConnection, Shows s ∧
    s.received.map Message.place = [0, 2] ∧ s.publisher.published.length = 3 := by
  have hrun : (exec next {} brokenConnection).map (fun s =>
      (s.received.map Message.place, s.publisher.published.length)) = some ([0, 2], 3) := rfl
  obtain ⟨s, hs, hview⟩ := Option.map_eq_some_iff.mp hrun
  obtain ⟨hreceived, hpublished⟩ := Prod.mk.inj hview
  exact ⟨s, hs, page_shows (reachable_of_exec hs), hreceived, hpublished⟩

end AlertFeed
end ForkliftSafety
