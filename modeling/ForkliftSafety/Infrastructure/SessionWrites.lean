import ForkliftSafety.Infrastructure.WebSocketAlertPublisher

/-! The writes of one `Session`, for every order of what it is asked to send and what its socket
completes. -/
namespace ForkliftSafety
open Transition

namespace Publisher

/-- A session by itself, with what is outstanding at its socket. -/
structure Link where
  session : Session := {}
  /-- Its `async_accept` has not completed. -/
  handshaking : Bool := false
  /-- The writes that have not completed. -/
  inFlight : List Message := []
  /-- Some write has completed with an error. -/
  failed : Bool := false

namespace Link

def record (l : Link) (r : Session × Option Message) : Link :=
  { l with session := r.1, inFlight := l.inFlight ++ r.2.toList }

inductive Event where
  /-- `Session::start`. -/
  | start
  | handshake (ok : Bool)
  /-- `Session::send`, also of a session that has left `sessions`. -/
  | send (payload : Message)
  /-- The handler of an outstanding `async_write`. -/
  | writeDone (k : ℕ) (ok : Bool)

def next (l : Link) : Event → Option Link
  | .start =>
    if !l.handshaking && !l.session.ready then some { l with handshaking := true } else none
  | .handshake ok =>
    if l.handshaking then
      some { l with handshaking := false
                    session := if ok then { l.session with ready := true } else l.session }
    else none
  | .send payload => some (l.record (l.session.send payload))
  | .writeDone k ok =>
    if k < l.inFlight.length then
      let rest := l.inFlight.eraseIdx k
      if ok then some ({ l with inFlight := rest }.record l.session.doWrite)
      else some { l with inFlight := rest, failed := true }
    else none

def system : LTS Link Event := .ofNext {} next

/-- A session has nothing to write, waits for its one write, or has lost its client. -/
inductive Writer (l : Link) : Prop
  | idle (hwriting : l.session.writing = false) (hpending : l.session.pending = [])
      (hinFlight : l.inFlight = []) (hfailed : l.failed = false)
  | busy (message : Message) (hwriting : l.session.writing = true)
      (hinFlight : l.inFlight = [message]) (hfailed : l.failed = false)
  | lost (hwriting : l.session.writing = true) (hinFlight : l.inFlight = [])
      (hfailed : l.failed = true)

/-- `do_write` starts the one write, or finds nothing to do. -/
theorem writer_doWrite {l : Link} {s : Session} (hinFlight : l.inFlight = [])
    (hfailed : l.failed = false) : Writer (l.record s.doWrite) := by
  cases hpending : s.pending with
  | nil =>
    have hdone : s.doWrite = ({ s with writing := false }, none) := by
      rw [Session.doWrite, hpending]
    rw [hdone]
    exact .idle rfl hpending (by simp [record, hinFlight]) hfailed
  | cons message rest =>
    have hgiven : s.doWrite = ({ s with writing := true, pending := rest }, some message) := by
      rw [Session.doWrite, hpending]
    rw [hgiven]
    exact .busy message rfl (by simp [record, hinFlight]) hfailed

theorem Writer.send {l : Link} (h : Writer l) (payload : Message) :
    Writer (l.record (l.session.send payload)) := by
  by_cases hready : l.session.ready = true
  · cases h with
    | idle hwriting _ hinFlight hfailed =>
      have hstarts : l.session.send payload =
          { l.session with pending := l.session.pending ++ [payload] }.doWrite := by
        simp [Session.send, hready, hwriting]
      rw [hstarts]
      exact writer_doWrite hinFlight hfailed
    | busy message hwriting hinFlight hfailed =>
      have hwaits : l.session.send payload =
          ({ l.session with pending := l.session.pending ++ [payload] }, none) := by
        simp [Session.send, hready, hwriting]
      rw [hwaits]
      exact .busy message hwriting (by simp [record, hinFlight]) hfailed
    | lost hwriting hinFlight hfailed =>
      have hwaits : l.session.send payload =
          ({ l.session with pending := l.session.pending ++ [payload] }, none) := by
        simp [Session.send, hready, hwriting]
      rw [hwaits]
      exact .lost hwriting (by simp [record, hinFlight]) hfailed
  · rw [Session.send_of_not_ready _ _ (by simpa using hready)]
    simpa [record] using h

theorem Writer.writeDone {l : Link} (h : Writer l) {k : ℕ} (hk : k < l.inFlight.length)
    (ok : Bool) :
    Writer (if ok then { l with inFlight := l.inFlight.eraseIdx k }.record l.session.doWrite
      else { l with inFlight := l.inFlight.eraseIdx k, failed := true }) := by
  cases h with
  | idle _ _ hinFlight _ => simp [hinFlight] at hk
  | lost _ hinFlight _ => simp [hinFlight] at hk
  | busy message hwriting hinFlight hfailed =>
    have hlast : l.inFlight.eraseIdx k = [] := by
      rw [hinFlight, List.length_singleton] at hk
      obtain rfl : k = 0 := by omega
      rw [hinFlight]
      rfl
    cases ok with
    | true => exact writer_doWrite hlast hfailed
    | false => exact .lost hwriting hlast rfl

/-- What the handshake changes is not what the writes depend on. -/
theorem Writer.of_same {l l' : Link} (h : Writer l)
    (hwriting : l'.session.writing = l.session.writing)
    (hpending : l'.session.pending = l.session.pending) (hinFlight : l'.inFlight = l.inFlight)
    (hfailed : l'.failed = l.failed) : Writer l' := by
  cases h with
  | idle hw hp hi hf =>
    exact .idle (hwriting.trans hw) (hpending.trans hp) (hinFlight.trans hi) (hfailed.trans hf)
  | busy message hw hi hf =>
    exact .busy message (hwriting.trans hw) (hinFlight.trans hi) (hfailed.trans hf)
  | lost hw hi hf => exact .lost (hwriting.trans hw) (hinFlight.trans hi) (hfailed.trans hf)

theorem next_writer {l l' : Link} {e : Event} (h : Writer l) (hstep : next l e = some l') :
    Writer l' := by
  cases e with
  | start =>
    simp only [next, Option.ite_none_right_eq_some, Option.some.injEq] at hstep
    obtain ⟨_, rfl⟩ := hstep
    exact h.of_same rfl rfl rfl rfl
  | handshake ok =>
    simp only [next, Option.ite_none_right_eq_some, Option.some.injEq] at hstep
    obtain ⟨_, rfl⟩ := hstep
    cases ok <;> exact h.of_same rfl rfl rfl rfl
  | send payload =>
    simp only [next, Option.some.injEq] at hstep
    rw [← hstep]
    exact h.send payload
  | writeDone k ok =>
    simp only [next, Option.ite_none_right_eq_some] at hstep
    obtain ⟨hk, hdone⟩ := hstep
    rw [← apply_ite some, Option.some.injEq] at hdone
    rw [← hdone]
    exact h.writeDone hk ok

theorem system_writer {l : Link} (h : system.Reachable l) : Writer l := by
  apply h.invariant (I := Writer) (.idle rfl rfl rfl rfl)
  intro l e l' _ hl hstep
  exact next_writer hl hstep

/-- Writes do not overlap, and what is queued has somebody to send it for as long as the client is
there. -/
structure OneWrite (l : Link) : Prop where
  one : l.inFlight.length ≤ 1
  writing : l.inFlight ≠ [] → l.session.writing = true
  attended : l.session.pending ≠ [] → l.inFlight ≠ [] ∨ l.failed = true

theorem Writer.oneWrite {l : Link} (h : Writer l) : OneWrite l := by
  cases h with
  | idle _ hpending hinFlight _ =>
    exact ⟨by simp [hinFlight], by simp [hinFlight], by simp [hpending]⟩
  | busy message hwriting hinFlight _ =>
    exact ⟨by simp [hinFlight], fun _ => hwriting, fun _ => Or.inl (by simp [hinFlight])⟩
  | lost hwriting hinFlight hfailed =>
    exact ⟨by simp [hinFlight], fun _ => hwriting, fun _ => Or.inr hfailed⟩

theorem session_oneWrite {l : Link} (h : system.Reachable l) : OneWrite l :=
  (system_writer h).oneWrite

/-- Two alerts, of which the first cannot be written, and a third. -/
def brokenClient : List Event :=
  [.start, .handshake true, .send ⟨0, "first"⟩, .send ⟨1, "second"⟩, .writeDone 0 false,
    .send ⟨2, "third"⟩]

theorem brokenClient_oneWrite : ∃ l ∈ exec next {} brokenClient, OneWrite l ∧
    l.session.pending = [⟨1, "second"⟩, ⟨2, "third"⟩] ∧ l.inFlight = [] ∧ l.failed = true := by
  have hone : ∀ l, exec next {} brokenClient = some l → OneWrite l := by
    intro l hl
    exact session_oneWrite (reachable_of_exec hl)
  exact ⟨_, rfl, hone _ rfl, rfl, rfl, rfl⟩

end Link

def Client.link (c : Client) (failed : Bool) : Link where
  session := c.session
  handshaking := c.handshaking
  inFlight := c.inFlight
  failed

theorem Client.link_offer (c : Client) (payload : Message) (failed : Bool) :
    Link.system.Path (c.link failed) ((c.offer payload).link failed) := by
  by_cases hregistered : c.registered = true
  · have hsend : Link.next (c.link failed) (.send payload) =
        some ((c.offer payload).link failed) := by
      simp only [offer, hregistered, ↓reduceIte]
      rfl
    exact Relation.ReflTransGen.single ⟨_, hsend⟩
  · have hsame : (c.offer payload).link failed = c.link failed := by
      simp only [offer, hregistered]
      rfl
    rw [hsame]
    exact Relation.ReflTransGen.refl

theorem Client.link_handshake {c : Client} (h : c.handshaking = true) (ok failed : Bool) :
    Link.system.Path (c.link failed) ((c.handshake ok).link failed) := by
  have hstep : Link.next (c.link failed) (.handshake ok) =
      some ((c.handshake ok).link failed) := by
    have hshaking : (c.link failed).handshaking = true := h
    simp only [Link.next, hshaking, ↓reduceIte]
    cases ok <;> rfl
  exact Relation.ReflTransGen.single ⟨_, hstep⟩

theorem Client.link_writeDone {c : Client} {message : Message} {rest : List Message}
    (h : c.inFlight = message :: rest) (ok failed : Bool) :
    ∃ failed', Link.system.Path (c.link failed) ((c.writeDone rest ok).link failed') := by
  have hstep : ∃ failed', Link.next (c.link failed) (.writeDone 0 ok) =
      some ((c.writeDone rest ok).link failed') := by
    have hflight : (c.link failed).inFlight = message :: rest := h
    simp only [Link.next, hflight, List.length_cons, Nat.zero_lt_succ, ↓reduceIte,
      List.eraseIdx_zero, List.tail_cons]
    cases ok with
    | true => exact ⟨failed, rfl⟩
    | false => exact ⟨true, rfl⟩
  obtain ⟨failed', hnext⟩ := hstep
  exact ⟨failed', Relation.ReflTransGen.single ⟨_, hnext⟩⟩

/-- An accepted connection begins the handshake of the next session and leaves the others alone. -/
theorem acceptDone_link {s : State} (hs : Staged s) (ok : Bool) (i : ℕ) (failed : Bool) :
    Link.system.Path ((s.clients i).link failed) (((acceptDone s ok).clients i).link failed) := by
  unfold acceptDone
  split_ifs
  · exact Relation.ReflTransGen.refl
  · by_cases hi : i = s.accepted
    · subst hi
      obtain ⟨hready, hshaking⟩ := hs.fresh s.accepted le_rfl
      have hstart : Link.next ((s.clients s.accepted).link failed) .start =
          some { (s.clients s.accepted).link failed with handshaking := true } := by
        simp [Link.next, Client.link, hready, hshaking]
      refine Relation.ReflTransGen.single ⟨_, hstart.trans ?_⟩
      simp [State.setClient, Client.link]
    · simp only [State.setClient, Function.update_of_ne hi]
      exact Relation.ReflTransGen.refl
  · exact Relation.ReflTransGen.refl

/-- A step of the publisher is, for each of its sessions, an event of the session or nothing. -/
theorem next_link {s t : State} {a : Action} (hs : Staged s) (hstep : next s a = some t) (i : ℕ)
    (failed : Bool) : ∃ failed',
    Link.system.Path ((s.clients i).link failed) ((t.clients i).link failed') := by
  have hsame : t.clients i = s.clients i → ∃ failed',
      Link.system.Path ((s.clients i).link failed) ((t.clients i).link failed') := by
    intro h
    exact ⟨failed, h ▸ Relation.ReflTransGen.refl⟩
  cases a with
  | start | stop | halt | post | drain =>
    simp only [next, Option.ite_none_right_eq_some, Option.ite_none_left_eq_some,
      Option.some.injEq] at hstep
    obtain ⟨_, rfl⟩ := hstep
    exact hsame rfl
  | publish alert =>
    simp only [next, Option.some.injEq] at hstep
    exact hsame (by rw [← hstep]; rfl)
  | dispatch =>
    simp only [next] at hstep
    split at hstep
    · contradiction
    · rw [Option.some.injEq] at hstep
      rw [← hstep]
      exact ⟨failed, (s.clients i).link_offer _ failed⟩
  | accept ok =>
    simp only [next, Option.ite_none_right_eq_some, Option.some.injEq] at hstep
    obtain ⟨_, rfl⟩ := hstep
    exact ⟨failed, acceptDone_link hs ok i failed⟩
  | handshake j ok =>
    simp only [next, Option.ite_none_right_eq_some, Option.some.injEq] at hstep
    obtain ⟨⟨_, hshaking⟩, rfl⟩ := hstep
    by_cases hi : i = j
    · subst hi
      simp only [State.setClient, Function.update_self]
      exact ⟨failed, Client.link_handshake hshaking ok failed⟩
    · exact hsame (Function.update_of_ne hi _ _)
  | writeDone j ok =>
    simp only [next] at hstep
    split at hstep
    · contradiction
    · rename_i hflight
      simp only [Option.ite_none_right_eq_some, Option.some.injEq] at hstep
      obtain ⟨_, rfl⟩ := hstep
      by_cases hi : i = j
      · subst hi
        simp only [State.setClient, Function.update_self]
        exact Client.link_writeDone hflight ok failed
      · exact hsame (Function.update_of_ne hi _ _)

/-- Whatever the publisher's threads do, each of its sessions has gone through a run of its own. -/
theorem publisher_link {s : State} (h : system.Reachable s) (i : ℕ) :
    ∃ failed, Link.system.Reachable ((s.clients i).link failed) := by
  have hboth : Staged s ∧ ∀ i, ∃ failed, Link.system.Reachable ((s.clients i).link failed) := by
    apply h.invariant (I := fun s => Staged s ∧
      ∀ i, ∃ failed, Link.system.Reachable ((s.clients i).link failed))
    · exact ⟨system_start_staged, fun _ => ⟨false, LTS.Reachable.start⟩⟩
    · rintro s a t _ ⟨hstaged, hlinks⟩ hstep
      refine ⟨next_staged hstaged hstep, fun i => ?_⟩
      obtain ⟨failed, hlink⟩ := hlinks i
      obtain ⟨failed', hpath⟩ := next_link hstaged hstep i failed
      exact ⟨failed', hlink.path hpath⟩
  exact hboth.2 i

/-- No session of the publisher is ever given a second write while one is outstanding. -/
theorem publisher_oneWrite {s : State} (h : system.Reachable s) (i : ℕ) :
    (s.clients i).inFlight.length ≤ 1 ∧
      ((s.clients i).inFlight ≠ [] → (s.clients i).session.writing = true) := by
  obtain ⟨failed, hlink⟩ := publisher_link h i
  have hwriter := (Link.system_writer hlink).oneWrite
  exact ⟨hwriter.one, hwriter.writing⟩

end Publisher
end ForkliftSafety
