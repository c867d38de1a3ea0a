import ForkliftSafety.Domain.Detection
import ForkliftSafety.Library.Transition

/-! `start` and `stop` of the two Boost.Beast servers, over any sequence of calls and any failures
of the operating system. -/
namespace ForkliftSafety
open Transition

/-- How the calls end that one `start` makes; a failure comes with the text of its exception. -/
structure BindCalls where
  makeAddress : Except String Unit := .ok ()
  openSocket : Except String Unit := .ok ()
  setOption : Except String Unit := .ok ()
  bindSocket : Except String Unit := .ok ()
  listen : Except String Unit := .ok ()

structure Acceptor where
  isOpen : Bool := false
  reuseAddress : Bool := false
  bound : Bool := false
  listening : Bool := false
  deriving DecidableEq, Repr

inductive ServerKind where
  | webSocket | mjpeg
  deriving DecidableEq, Repr

def ServerKind.bindError : ServerKind → String → Error
  | .webSocket, what => { code := 10, message := "ws bind failed: " ++ what }
  | .mjpeg, what => { code := 30, message := "mjpeg bind failed: " ++ what }

/-- The members of `Impl` that `start` and `stop` touch. `ioThread` is whether the thread of the
`io_context` has been started and not joined. -/
structure TcpServer where
  acceptor : Acceptor := {}
  acceptPending : Bool := false
  iocStopped : Bool := false
  ioThread : Bool := false
  running : Bool := false
  deriving DecidableEq, Repr

section Server
variable (alreadyOpen : String)

/-- The body of the `try`: what the exception says, if there is one, and the acceptor after it. To
open an acceptor that is open fails with `alreadyOpen`. -/
def Acceptor.prepare (a : Acceptor) (calls : BindCalls) : Except String Unit × Acceptor :=
  match calls.makeAddress, a.isOpen with
  | .error what, _ => (.error what, a)
  | .ok _, true => (.error alreadyOpen, a)
  | .ok _, false =>
    match calls.openSocket with
    | .error what => (.error what, a)
    | .ok _ =>
      let opened := { a with isOpen := true }
      match calls.setOption with
      | .error what => (.error what, opened)
      | .ok _ =>
        let reusing := { opened with reuseAddress := true }
        match calls.bindSocket with
        | .error what => (.error what, reusing)
        | .ok _ =>
          let bound := { reusing with bound := true }
          match calls.listen with
          | .error what => (.error what, bound)
          | .ok _ => (.ok (), { bound with listening := true })

namespace TcpServer

def start (kind : ServerKind) (s : TcpServer) (calls : BindCalls) :
    Except Error Unit × TcpServer :=
  if s.running then (.ok (), s)
  else
    match s.acceptor.prepare alreadyOpen calls with
    | (.error what, acceptor) => (.error (kind.bindError what), { s with acceptor := acceptor })
    | (.ok _, acceptor) =>
      (.ok (), { s with
        acceptor := acceptor, running := true, acceptPending := true, ioThread := true })

/-- What `WebSocketAlertPublisher` posts before it stops its `io_context` touches none of this. -/
def stop (s : TcpServer) : TcpServer :=
  if s.running then { s with running := false, iocStopped := true, ioThread := false } else s

/-- A connection that comes in is taken: `run` returns at once in an `io_context` that is
stopped. -/
def Accepting (s : TcpServer) : Prop :=
  s.running = true ∧ s.acceptor.listening = true ∧ s.acceptPending = true ∧ s.ioThread = true ∧
    s.iocStopped = false

end TcpServer

inductive ServerCall where
  | start (calls : BindCalls)
  | stop

def TcpServer.next (kind : ServerKind) (s : TcpServer) : ServerCall → TcpServer
  | .start calls => (s.start alreadyOpen kind calls).2
  | .stop => s.stop

/-- A failed `start` leaves the server as it was, and on a server that is not running, a `start`
that would succeed on a new one succeeds. -/
def Retryable (kind : ServerKind) (s : TcpServer) : ServerCall → Prop
  | .start calls =>
    (∀ e, (s.start alreadyOpen kind calls).1 = .error e →
      (s.start alreadyOpen kind calls).2 = s) ∧
    (s.running = false → (({} : TcpServer).start alreadyOpen kind calls).1 = .ok () →
      (s.start alreadyOpen kind calls).1 = .ok () ∧ (s.start alreadyOpen kind calls).2.Accepting)
  | .stop => True

/-- None of the calls fails. -/
def BindCalls.Succeed (calls : BindCalls) : Prop :=
  calls.makeAddress = .ok () ∧ calls.openSocket = .ok () ∧ calls.setOption = .ok () ∧
    calls.bindSocket = .ok () ∧ calls.listen = .ok ()

/-- The first call that fails is the parsing of the address or the opening. -/
def BindCalls.FailEarly (calls : BindCalls) : Prop :=
  calls.makeAddress ≠ .ok () ∨ calls.openSocket ≠ .ok ()

instance (calls : BindCalls) : Decidable calls.Succeed := inferInstanceAs (Decidable (_ ∧ _))

inductive ServerLife where
  | fresh | serving | stopped
  deriving DecidableEq, Repr

def ServerLife.next : ServerLife → ServerCall → ServerLife
  | .fresh, .start calls => if calls.Succeed then .serving else .fresh
  | .serving, .stop => .stopped
  | life, _ => life

/-- Before the first `start` that succeeds, the others fail early; after the `stop` behind it, none
would succeed on a new server. -/
def StartSafe : ServerLife → ServerCall → Prop
  | .fresh, .start calls => calls.Succeed ∨ calls.FailEarly
  | .stopped, .start calls => ¬ calls.Succeed
  | _, _ => True

def listeningAcceptor : Acceptor where
  isOpen := true
  reuseAddress := true
  bound := true
  listening := true

/-- The server at each point of its life. -/
def ServerLife.server : ServerLife → TcpServer
  | .fresh => {}
  | .serving =>
    { acceptor := listeningAcceptor, acceptPending := true, ioThread := true, running := true }
  | .stopped => { acceptor := listeningAcceptor, acceptPending := true, iocStopped := true }

theorem prepare_isOpen (calls : BindCalls) {a : Acceptor} (h : a.isOpen = true) :
    ∃ what, a.prepare alreadyOpen calls = (.error what, a) := by
  unfold Acceptor.prepare
  rw [h]
  cases calls.makeAddress with
  | error what => exact ⟨what, rfl⟩
  | ok _ => exact ⟨alreadyOpen, rfl⟩

theorem prepare_succeed {calls : BindCalls} (h : calls.Succeed) :
    ({} : Acceptor).prepare alreadyOpen calls = (.ok (), listeningAcceptor) := by
  obtain ⟨haddress, hopen, hoption, hbind, hlisten⟩ := h
  simp [Acceptor.prepare, haddress, hopen, hoption, hbind, hlisten, listeningAcceptor]

theorem prepare_failEarly {calls : BindCalls} (h : calls.FailEarly) :
    ∃ what, ({} : Acceptor).prepare alreadyOpen calls = (.error what, {}) := by
  unfold Acceptor.prepare
  cases haddress : calls.makeAddress with
  | error what => exact ⟨what, rfl⟩
  | ok _ =>
    cases hopen : calls.openSocket with
    | error what => exact ⟨what, rfl⟩
    | ok _ => exact absurd h (by simp [BindCalls.FailEarly, haddress, hopen])

/-- A later failure leaves the acceptor open. -/
theorem prepare_failLate {calls : BindCalls} (hsucceed : ¬ calls.Succeed)
    (hearly : ¬ calls.FailEarly) :
    ∃ what a, ({} : Acceptor).prepare alreadyOpen calls = (.error what, a) ∧ a.isOpen = true := by
  simp only [BindCalls.FailEarly, not_or, not_not] at hearly
  obtain ⟨haddress, hopen⟩ := hearly
  unfold Acceptor.prepare
  rw [haddress, hopen]
  cases hoption : calls.setOption with
  | error what => exact ⟨what, _, rfl, rfl⟩
  | ok _ =>
    cases hbind : calls.bindSocket with
    | error what => exact ⟨what, _, rfl, rfl⟩
    | ok _ =>
      cases hlisten : calls.listen with
      | error what => exact ⟨what, _, rfl, rfl⟩
      | ok _ => exact absurd ⟨haddress, hopen, hoption, hbind, hlisten⟩ hsucceed

variable (kind : ServerKind) {calls : BindCalls}

theorem start_running (calls : BindCalls) {s : TcpServer} (h : s.running = true) :
    s.start alreadyOpen kind calls = (.ok (), s) := by
  rw [TcpServer.start, if_pos h]

theorem start_error {alreadyOpen : String} {s : TcpServer} {what : String} {a : Acceptor}
    (h : s.running = false) (hprepare : s.acceptor.prepare alreadyOpen calls = (.error what, a)) :
    s.start alreadyOpen kind calls = (.error (kind.bindError what), { s with acceptor := a }) := by
  simp [TcpServer.start, h, hprepare]

theorem start_fresh_succeed (h : calls.Succeed) :
    ({} : TcpServer).start alreadyOpen kind calls = (.ok (), ServerLife.serving.server) := by
  have hprepare : ({} : TcpServer).acceptor.prepare alreadyOpen calls = _ :=
    prepare_succeed alreadyOpen h
  simp [TcpServer.start, hprepare, ServerLife.server]

theorem start_fresh_failEarly (h : calls.FailEarly) :
    ∃ e, ({} : TcpServer).start alreadyOpen kind calls = (.error e, {}) := by
  obtain ⟨what, hprepare⟩ := prepare_failEarly alreadyOpen h
  exact ⟨_, start_error kind rfl hprepare⟩

/-- On a new server, a `start` succeeds exactly when none of its calls fails. -/
theorem start_fresh_ok_iff :
    (({} : TcpServer).start alreadyOpen kind calls).1 = .ok () ↔ calls.Succeed := by
  constructor
  · intro h
    by_contra hsucceed
    by_cases hearly : calls.FailEarly
    · obtain ⟨e, hstart⟩ := start_fresh_failEarly alreadyOpen kind hearly
      rw [hstart] at h
      contradiction
    · obtain ⟨what, a, hprepare, _⟩ := prepare_failLate alreadyOpen hsucceed hearly
      rw [start_error kind rfl hprepare] at h
      contradiction
  · intro h
    rw [start_fresh_succeed alreadyOpen kind h]

/-- Once its acceptor has been opened, a stopped server cannot be started. -/
theorem start_stopped (calls : BindCalls) :
    ∃ e, ServerLife.stopped.server.start alreadyOpen kind calls =
      (.error e, ServerLife.stopped.server) := by
  obtain ⟨what, hprepare⟩ := prepare_isOpen alreadyOpen calls
    (a := ServerLife.stopped.server.acceptor) rfl
  exact ⟨_, start_error kind rfl hprepare⟩

theorem retryable_iff (life : ServerLife) (call : ServerCall) :
    Retryable alreadyOpen kind life.server call ↔ StartSafe life call := by
  cases call with
  | stop => cases life <;> exact Iff.rfl
  | start calls =>
    cases life with
    | serving =>
      have hstart := start_running alreadyOpen kind calls
        (s := ServerLife.serving.server) rfl
      simp only [Retryable, StartSafe, iff_true, hstart]
      exact ⟨nofun, nofun⟩
    | stopped =>
      obtain ⟨e, hstart⟩ := start_stopped alreadyOpen kind calls
      simp only [Retryable, StartSafe, hstart, start_fresh_ok_iff]
      constructor
      · intro h hsucceed
        exact absurd (h.2 rfl hsucceed).1 nofun
      · intro h
        exact ⟨fun _ _ => trivial, fun _ hsucceed => absurd hsucceed h⟩
    | fresh =>
      by_cases hsucceed : calls.Succeed
      · have hstart := start_fresh_succeed alreadyOpen kind hsucceed
        refine iff_of_true ⟨fun e he => ?_, fun _ _ => ?_⟩ (.inl hsucceed)
        · change (({} : TcpServer).start alreadyOpen kind calls).1 = _ at he
          rw [hstart] at he
          contradiction
        · change (({} : TcpServer).start alreadyOpen kind calls).1 = _ ∧
            (({} : TcpServer).start alreadyOpen kind calls).2.Accepting
          rw [hstart]
          exact ⟨rfl, rfl, rfl, rfl, rfl, rfl⟩
      · by_cases hearly : calls.FailEarly
        · obtain ⟨e, hstart⟩ := start_fresh_failEarly alreadyOpen kind hearly
          refine iff_of_true ⟨fun _ _ => ?_, fun _ hok => ?_⟩ (.inr hearly)
          · change (({} : TcpServer).start alreadyOpen kind calls).2 = _
            rw [hstart]
            rfl
          · exact absurd ((start_fresh_ok_iff alreadyOpen kind).mp hok) hsucceed
        · obtain ⟨what, a, hprepare, hopen⟩ :=
            prepare_failLate alreadyOpen hsucceed hearly
          have hstart := start_error kind (s := {}) rfl hprepare
          refine iff_of_false (fun h => ?_) (not_or.mpr ⟨hsucceed, hearly⟩)
          have hsame := h.1 (kind.bindError what)
          change (({} : TcpServer).start alreadyOpen kind calls).1 = _ →
            (({} : TcpServer).start alreadyOpen kind calls).2 = _ at hsame
          rw [hstart] at hsame
          have hacceptor := congrArg (fun s => s.acceptor.isOpen) (hsame rfl)
          change a.isOpen = false at hacceptor
          rw [hopen] at hacceptor
          contradiction

theorem next_server (life : ServerLife) (call : ServerCall) (h : StartSafe life call) :
    life.server.next alreadyOpen kind call = (life.next call).server := by
  cases call with
  | stop => cases life <;> rfl
  | start calls =>
    cases life with
    | serving => rfl
    | stopped =>
      obtain ⟨e, hstart⟩ := start_stopped alreadyOpen kind calls
      change (ServerLife.stopped.server.start alreadyOpen kind calls).2 = _
      rw [hstart]
      rfl
    | fresh =>
      change (({} : TcpServer).start alreadyOpen kind calls).2 = (if calls.Succeed then
        ServerLife.serving else .fresh).server
      split_ifs with hsucceed
      · rw [start_fresh_succeed alreadyOpen kind hsucceed]
      · obtain ⟨e, hstart⟩ := start_fresh_failEarly alreadyOpen kind (h.resolve_left hsucceed)
        rw [hstart]
        rfl

end Server

/-- Along a sequence of calls to a new server, every `start` can be retried exactly when no `start`
fails between opening and listening, and none that would succeed comes after a `stop`. -/
theorem start_retryable_iff (alreadyOpen : String) (kind : ServerKind) (calls : List ServerCall) :
    Along (TcpServer.next alreadyOpen kind) (Retryable alreadyOpen kind) {} calls ↔
      Along ServerLife.next StartSafe .fresh calls :=
  along_iff_of_simulation ServerLife.server (retryable_iff alreadyOpen kind)
    (next_server alreadyOpen kind) .fresh calls

/-- The port is taken at first. -/
def portTaken : BindCalls := { bindSocket := .error "bind: Address already in use" }

/-- When the port is free again, the second `start` finds the acceptor open. -/
theorem start_after_failed_bind :
    ¬ Along (TcpServer.next "open: Already open" .mjpeg) (Retryable "open: Already open" .mjpeg) {}
      [.start portTaken, .start {}] := by
  intro h
  have hretry := (h [.start portTaken] (.start {}) [] rfl).2 rfl rfl
  exact absurd hretry.1 nofun

end ForkliftSafety
