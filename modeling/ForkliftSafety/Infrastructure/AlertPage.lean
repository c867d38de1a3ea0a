import ForkliftSafety.Library.Json
import ForkliftSafety.Library.Transition
import Mathlib.Data.List.Count

/-! The alert panel of the dashboard: the sockets that `connectAlerts` opens one after another, and
the list that `addAlert` fills. -/
namespace ForkliftSafety
open Json Transition

namespace Dashboard

def maxAlerts : ℕ := 100

/-- What the handlers of a `WebSocket` know of it. -/
inductive SocketState where
  | connecting | opened | closed
  deriving DecidableEq, Repr

inductive StatusDot where
  | blank | connected | disconnected | error
  deriving DecidableEq, Repr

inductive StatusLabel where
  | connecting | connected | reconnecting
  deriving DecidableEq, Repr

/-- `timers` counts the time-outs that will call `connectAlerts`. An item of the list is the value
that `addAlert` puts into its template behind `alert-cam`. The template goes to `innerHTML` without
escapes; what the browser makes of a value with markup in it is left out. -/
structure AlertPage where
  sockets : List SocketState := []
  timers : ℕ := 0
  dot : StatusDot := .blank
  label : StatusLabel := .connecting
  alerts : List Value := []

/-- What counts as true for the operator `||`. -/
def truthy : Value → Bool
  | .null => false
  | .bool b => b
  | .number x => x != 0
  | .string s => !s.isEmpty
  | .array _ | .object _ => true

/-- The member that a parsed object has: of two with one key the later one. -/
def property (key : List Char) (ms : List (List Char × Value)) : Value :=
  (ms.reverse.lookup key).getD .null

/-- `data.camera_id || '?'`, as it is put into the template. It throws when `data` is `null`. -/
def alertCamera : Value → Option Value
  | .null => none
  | .object ms =>
    let camera := property "camera_id".toList ms
    some (if truthy camera then camera else .string ['?'])
  | _ => some (.string ['?'])

/-- The loop at the end of `addAlert`, for at most `n` rounds. -/
def removeLast : ℕ → List Value → List Value
  | 0, list => list
  | n + 1, list => if list.length > maxAlerts then removeLast n list.dropLast else list

def addAlert (list : List Value) (data : Value) : List Value :=
  match alertCamera data with
  | none => list
  | some camera => removeLast (list.length + 1) (camera :: list)

/-- `ws.onmessage`. -/
def onMessage (list : List Value) (text : List Char) : List Value :=
  match parse text with
  | none => list
  | some data => addAlert list data

namespace AlertPage

def connectAlerts (p : AlertPage) : AlertPage := { p with sockets := p.sockets ++ [.connecting] }

inductive Event where
  | opened (k : ℕ)
  | message (k : ℕ) (text : List Char)
  | error (k : ℕ)
  | closed (k : ℕ)
  /-- The time-out of three seconds that `onclose` has set. -/
  | timer
  /-- The button above the list. -/
  | clear

/-- A socket is opened once, delivers while it is open, and is closed once. -/
def next (p : AlertPage) : Event → Option AlertPage
  | .opened k =>
    if p.sockets[k]? = some .connecting then
      some { p with sockets := p.sockets.set k .opened, dot := .connected, label := .connected }
    else none
  | .message k text =>
    if p.sockets[k]? = some .opened then some { p with alerts := onMessage p.alerts text }
    else none
  | .error k =>
    if p.sockets[k]? = some .connecting ∨ p.sockets[k]? = some .opened then
      some { p with dot := .error }
    else none
  | .closed k =>
    if p.sockets[k]? = some .connecting ∨ p.sockets[k]? = some .opened then
      some { p with
        sockets := p.sockets.set k .closed
        dot := .disconnected
        label := .reconnecting
        timers := p.timers + 1 }
    else none
  | .timer => if p.timers = 0 then none else some { p with timers := p.timers - 1 }.connectAlerts
  | .clear => some { p with alerts := [] }

/-- The page once it has been loaded. -/
def system : LTS AlertPage Event := .ofNext ({} : AlertPage).connectAlerts next

end AlertPage

theorem removeLast_eq_take {n : ℕ} {list : List Value} (h : list.length ≤ n + maxAlerts) :
    removeLast n list = list.take maxAlerts := by
  induction n generalizing list with
  | zero =>
    rw [Nat.zero_add] at h
    rw [removeLast, List.take_of_length_le h]
  | succ n ih =>
    rw [removeLast]
    split_ifs with hlong
    · have hshort : list.dropLast.length ≤ n + maxAlerts := by
        rw [List.length_dropLast]
        omega
      rw [ih hshort, List.dropLast_eq_take, List.take_take, min_eq_left (by omega)]
    · rw [List.take_of_length_le (not_lt.mp hlong)]

/-- An alert goes to the front, and one beyond the last place is removed. -/
theorem addAlert_some {list : List Value} {data camera : Value}
    (h : alertCamera data = some camera) :
    addAlert list data = (camera :: list).take maxAlerts := by
  unfold addAlert
  rw [h]
  apply removeLast_eq_take
  rw [List.length_cons]
  omega

/-- What a text adds to the list: nothing if it does not parse or parses to `null`. -/
def listedCamera (text : List Char) : Option Value := (parse text).bind alertCamera

theorem onMessage_eq (list : List Value) (text : List Char) :
    onMessage list text = match listedCamera text with
      | none => list
      | some camera => (camera :: list).take maxAlerts := by
  unfold onMessage listedCamera
  cases parse text with
  | none => rfl
  | some data =>
    simp only [Option.bind_some]
    cases hcamera : alertCamera data with
    | none => simp [addAlert, hcamera]
    | some camera => exact addAlert_some hcamera

/-- The list has an item for each of the newest texts it was given that parse to something other
than `null`, the last one first. -/
def Lists (alerts : List Value) (texts : List (List Char)) : Prop :=
  alerts = (texts.filterMap listedCamera).reverse.take maxAlerts

theorem Lists.message {alerts : List Value} {texts : List (List Char)} (h : Lists alerts texts)
    (text : List Char) : Lists (onMessage alerts text) (texts ++ [text]) := by
  unfold Lists at h ⊢
  rw [onMessage_eq, List.filterMap_append, List.reverse_append]
  cases hcamera : listedCamera text with
  | none => simpa [hcamera] using h
  | some camera =>
    have hlast : [text].filterMap listedCamera = [camera] := by simp [hcamera]
    show (camera :: alerts).take maxAlerts = _
    rw [hlast, h, List.reverse_singleton, List.singleton_append, maxAlerts, List.take_succ_cons,
      List.take_succ_cons, List.take_take, min_eq_left (by decide)]

namespace AlertPage

def isLive (state : SocketState) : Bool := state != .closed

/-- Either one socket is not closed or one time-out is set, and the label says whether the socket is
open. -/
structure Attended (p : AlertPage) : Prop where
  one : p.sockets.countP isLive + p.timers = 1
  label : p.label = .connected ↔ .opened ∈ p.sockets

theorem live_of_open {state : Option SocketState}
    (h : state = some .connecting ∨ state = some .opened) :
    ∃ st, state = some st ∧ isLive st = true := by
  rcases h with h | h <;> exact ⟨_, h, rfl⟩

/-- A live socket changes its state. -/
theorem countP_set_live {sockets : List SocketState} {k : ℕ} {st : SocketState}
    (h : sockets[k]? = some st) (hlive : isLive st = true) (st' : SocketState) :
    (sockets.set k st').countP isLive + 1 =
      sockets.countP isLive + if isLive st' then 1 else 0 := by
  obtain ⟨hk, hst⟩ := List.getElem?_eq_some_iff.mp h
  have hpos : 0 < sockets.countP isLive :=
    List.countP_pos_iff.mpr ⟨st, List.mem_of_getElem? h, hlive⟩
  rw [List.countP_set hk, hst, if_pos hlive]
  omega

theorem opened_notMem_of_countP {sockets : List SocketState} (h : sockets.countP isLive = 0) :
    .opened ∉ sockets := by
  intro hmem
  exact List.countP_eq_zero.mp h .opened hmem rfl

theorem next_attended {p q : AlertPage} {e : Event} (h : Attended p) (hstep : next p e = some q) :
    Attended q := by
  have hone := h.one
  cases e with
  | opened k =>
    simp only [next, Option.ite_none_right_eq_some, Option.some.injEq] at hstep
    obtain ⟨hk, rfl⟩ := hstep
    have hcount : (p.sockets.set k .opened).countP isLive + 1 = p.sockets.countP isLive + 1 :=
      countP_set_live hk rfl .opened
    refine ⟨?_, iff_of_true rfl (List.mem_set (List.getElem?_eq_some_iff.mp hk).1 _)⟩
    · show (p.sockets.set k .opened).countP isLive + p.timers = 1
      omega
  | message k text =>
    simp only [next, Option.ite_none_right_eq_some, Option.some.injEq] at hstep
    obtain ⟨_, rfl⟩ := hstep
    exact ⟨h.one, h.label⟩
  | error k =>
    simp only [next, Option.ite_none_right_eq_some, Option.some.injEq] at hstep
    obtain ⟨_, rfl⟩ := hstep
    exact ⟨h.one, h.label⟩
  | closed k =>
    simp only [next, Option.ite_none_right_eq_some, Option.some.injEq] at hstep
    obtain ⟨hk, rfl⟩ := hstep
    obtain ⟨st, hst, hlive⟩ := live_of_open hk
    have hcount : (p.sockets.set k .closed).countP isLive + 1 = p.sockets.countP isLive + 0 :=
      countP_set_live hst hlive .closed
    -- The socket was the only live one, so that none is open now.
    have hnone : (p.sockets.set k .closed).countP isLive = 0 := by omega
    refine ⟨?_, iff_of_false (by simp) (opened_notMem_of_countP hnone)⟩
    show (p.sockets.set k .closed).countP isLive + (p.timers + 1) = 1
    omega
  | timer =>
    simp only [next, Option.ite_none_left_eq_some, Option.some.injEq] at hstep
    obtain ⟨htimers, rfl⟩ := hstep
    have hnone : p.sockets.countP isLive = 0 := by omega
    have hcount : (p.sockets ++ [SocketState.connecting]).countP isLive = 1 := by
      rw [List.countP_append, hnone]
      rfl
    refine ⟨?_, ?_⟩
    · show (p.sockets ++ [SocketState.connecting]).countP isLive + (p.timers - 1) = 1
      omega
    · show p.label = .connected ↔ .opened ∈ p.sockets ++ [SocketState.connecting]
      rw [h.label, List.mem_append]
      simp
  | clear =>
    obtain rfl := Option.some.inj hstep
    exact ⟨h.one, h.label⟩

/-- Whatever happens to its sockets, the page has one that is not closed or will open another, and
never two. -/
theorem page_attended {p : AlertPage} (h : system.Reachable p) : Attended p := by
  apply h.invariant (I := Attended) ⟨rfl, by simp [system, LTS.ofNext, connectAlerts]⟩
  intro p e q _ hp hstep
  exact next_attended hp hstep

/-- The server is away for the first two attempts. -/
def lateServer : List Event :=
  [.error 0, .closed 0, .timer, .error 1, .closed 1, .clear, .timer, .opened 2]

theorem lateServer_attended : ∃ p ∈ exec next ({} : AlertPage).connectAlerts lateServer,
    Attended p ∧ p.sockets = [.closed, .closed, .opened] ∧ p.timers = 0 := by
  have hrun : (exec next ({} : AlertPage).connectAlerts lateServer).map (fun p =>
      (p.sockets, p.timers)) = some ([.closed, .closed, .opened], 0) := rfl
  obtain ⟨p, hp, hview⟩ := Option.map_eq_some_iff.mp hrun
  obtain ⟨hsockets, htimers⟩ := Prod.mk.inj hview
  exact ⟨p, hp, page_attended (reachable_of_exec hp), hsockets, htimers⟩

end AlertPage
end Dashboard
end ForkliftSafety
