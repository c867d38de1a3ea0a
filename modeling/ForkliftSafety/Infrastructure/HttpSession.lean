import ForkliftSafety.Infrastructure.DetectionStream
import ForkliftSafety.Infrastructure.MjpegStream
import ForkliftSafety.Infrastructure.MjpegStreamServer
import ForkliftSafety.Library.Threads

/-! `HttpSession` of `MjpegStreamServer`: the handlers of every connection, in any order of what the
sockets and the timers complete and of what the pipelines publish. -/
namespace ForkliftSafety
open Transition

/-- `SharedState`, with the clock of the timers in milliseconds. The process has `terminated` once
an exception has left a handler. -/
structure Surroundings where
  frames : SharedFrames JpegPtr
  dets : SharedDets
  now : ℕ
  terminated : Bool

/-- What a session goes on with when an operation completes without an error. -/
inductive Continuation where
  | mjpegTick | mjpegArmTimer | sseTick | sseArmTimer
  deriving DecidableEq, Repr

/-- What a session waits for. -/
inductive Operation where
  | read
  /-- A response, in a buffer of its own. -/
  | respond (response : HttpResponse)
  /-- The contents of `out_`, of which the socket has taken the first `done` bytes. -/
  | write (done : ℕ) (next : Continuation)
  | wait (due : ℕ) (next : Continuation)

inductive StreamKind where
  | mjpeg | sse
  deriving DecidableEq, Repr

/-- The fields of a session, what it waits for, and what has become of it. -/
structure HttpSession where
  camera : List Char := []
  out : List UInt8 := []
  lastSent : Option JpegPtr := none
  sseLastSeq : ℕ := 0
  outstanding : List Operation := []
  started : Bool := false
  failed : Bool := false
  shutDown : Bool := false
  /-- The stream that `route` has begun. -/
  kind : Option StreamKind := none
  /-- What the socket has taken of `out_`. -/
  sent : List UInt8 := []
  /-- What the ticks have found. -/
  looks : List Surroundings := []

namespace HttpSession

def await (s : HttpSession) (op : Operation) : HttpSession :=
  { s with outstanding := s.outstanding ++ [op] }

def doRead (s : HttpSession) : HttpSession := { s with started := true }.await .read

def fps (cfg : ViewerServerConfig) : ℤ := if cfg.targetFps > 0 then cfg.targetFps else 15

/-- The milliseconds between two ticks, where `window` is divided into frames. -/
def interval (window : ℤ) (cfg : ViewerServerConfig) : ℕ := (window / fps cfg).toNat

-- `expires_after` cancels a wait that is still outstanding. There is none when a timer is armed.
def armTimer (window : ℤ) (next : Continuation) (cfg : ViewerServerConfig) (env : Surroundings)
    (s : HttpSession) : HttpSession :=
  s.await (.wait (env.now + interval window cfg) next)

def mjpegArmTimer : ViewerServerConfig → Surroundings → HttpSession → HttpSession :=
  armTimer 1000 .mjpegTick

def sseArmTimer : ViewerServerConfig → Surroundings → HttpSession → HttpSession :=
  armTimer 500 .sseTick

def startStream (kind : StreamKind) (next : Continuation) (header : String) (camera : List Char)
    (s : HttpSession) : HttpSession :=
  { s with camera := camera, kind := some kind, out := bytesOf header.toList }.await
    (.write 0 next)

def startMjpeg : String → List Char → HttpSession → HttpSession := startStream .mjpeg .mjpegTick

def startSse : String → List Char → HttpSession → HttpSession := startStream .sse .sseTick

def looking (env : Surroundings) (s : HttpSession) : HttpSession :=
  { s with looks := s.looks ++ [env] }

def mjpegTick (cfg : ViewerServerConfig) (env : Surroundings) (s : HttpSession) : HttpSession :=
  match env.frames.latestFor s.camera with
  | none => mjpegArmTimer cfg env (s.looking env)
  | some jpeg =>
    if MjpegSession.fresh s.lastSent jpeg then
      { s.looking env with lastSent := some jpeg, out := mjpegPart jpeg.bytes }.await
        (.write 0 .mjpegArmTimer)
    else mjpegArmTimer cfg env (s.looking env)

def sseTick (cfg : ViewerServerConfig) (env : Surroundings) (s : HttpSession) : HttpSession :=
  match ForkliftSafety.sseTick env.dets s.camera s.sseLastSeq with
  | (some payload, seq) =>
    { s.looking env with sseLastSeq := seq, out := bytesOf payload }.await (.write 0 .sseArmTimer)
  | (none, _) => sseArmTimer cfg env (s.looking env)

def resume (cfg : ViewerServerConfig) (env : Surroundings) (s : HttpSession) :
    Continuation → HttpSession
  | .mjpegTick => s.mjpegTick cfg env
  | .mjpegArmTimer => s.mjpegArmTimer cfg env
  | .sseTick => s.sseTick cfg env
  | .sseArmTimer => s.sseArmTimer cfg env

/-- How `route` begins its answer. -/
def reply (s : HttpSession) : Reply → HttpSession
  | .whole response => s.await (.respond response)
  | .stream header camera => s.startMjpeg header camera
  | .sse header camera => s.startSse header camera

inductive Event where
  /-- `run`, from the handler of `async_accept`. -/
  | run
  /-- A request has been read; `files` is what can be opened at this moment. -/
  | request (k : ℕ) (target : List Char) (version : ℕ) (files : List Char → Option (List Char))
  /-- The socket takes up to `n` more bytes of an outstanding write. -/
  | transfer (k n : ℕ)
  | complete (k : ℕ)
  | fail (k : ℕ)

/-- A write completes when the socket has all of the buffer, a wait when its time has come. -/
def completed (cfg : ViewerServerConfig) (env : Surroundings) (s : HttpSession) :
    Operation → Option HttpSession
  | .read => none
  | .respond _ => some { s with shutDown := true }
  | .write done next => if done = s.out.length then some (s.resume cfg env next) else none
  | .wait due next => if due ≤ env.now then some (s.resume cfg env next) else none

/-- Only the handler of a response goes on after an error. -/
def broken (s : HttpSession) : Operation → HttpSession
  | .respond _ => { s with failed := true, shutDown := true }
  | _ => { s with failed := true }

def without (s : HttpSession) (k : ℕ) : HttpSession :=
  { s with outstanding := s.outstanding.eraseIdx k }

def next (cfg : ViewerServerConfig) (env : Surroundings) (s : HttpSession) :
    Event → Option (Surroundings × HttpSession)
  | .run => if s.started then none else some (env, s.doRead)
  | .request k target version files =>
    match s.outstanding[k]? with
    | some .read =>
      match handle cfg files version env.frames.cameraOrder target with
      | none => some ({ env with terminated := true }, s.without k)
      | some r => some (env, (s.without k).reply r)
    | _ => none
  | .transfer k n =>
    match s.outstanding[k]? with
    | some (.write done next) =>
      some (env, { s with
        sent := s.sent ++ (s.out.drop done).take n
        outstanding := s.outstanding.set k (.write (min (done + n) s.out.length) next) })
    | _ => none
  | .complete k =>
    s.outstanding[k]?.bind fun op => ((s.without k).completed cfg env op).map fun t => (env, t)
  | .fail k => s.outstanding[k]?.map fun op => (env, (s.without k).broken op)

/-- What the pipelines do to `SharedState`, and the passing of time. -/
inductive Change where
  | store (cam : List Char) (jpeg : JpegPtr)
  | storeDets (cam json : List Char)
  | elapse (ms : ℕ)

def change (env : Surroundings) : Change → Surroundings
  | .store cam jpeg => { env with frames := env.frames.store cam jpeg }
  | .storeDets cam json => { env with dets := env.dets.storeDets cam json }
  | .elapse ms => { env with now := env.now + ms }

/-- The sessions of a server, numbered as they are accepted. -/
def program (cfg : ViewerServerConfig) :
    Threads.Program ℕ Surroundings HttpSession Event Change where
  next _ st e := if st.1.terminated then none else st.2.next cfg st.1 e
  env env c := if env.terminated then none else some (change env c)

def start : Threads.Config ℕ Surroundings HttpSession where
  shared := { frames := {}, dets := .empty, now := 0, terminated := false }
  locals _ := {}

def system (cfg : ViewerServerConfig) :
    LTS (Threads.Config ℕ Surroundings HttpSession) (Threads.Label ℕ Event Change) :=
  (program cfg).system start

/-- What a session writes behind its header, tick by tick, and the counter it keeps. -/
def sseStream (camera : List Char) (looks : List SharedDets) : List Char × ℕ :=
  looks.foldl (fun r dets =>
    (r.1 ++ (ForkliftSafety.sseTick dets camera r.2).1.getD [],
      (ForkliftSafety.sseTick dets camera r.2).2)) ([], 0)

def mjpegStream (camera : List Char) (looks : List Surroundings) : MjpegSession :=
  MjpegSession.stream camera (looks.map Surroundings.frames)

end HttpSession

namespace StreamKind

def header : StreamKind → List UInt8
  | .mjpeg => bytesOf mjpegHeader.toList
  | .sse => bytesOf sseHeader.toList

def window : StreamKind → ℤ
  | .mjpeg => 1000
  | .sse => 500

def tick : StreamKind → Continuation
  | .mjpeg => .mjpegTick
  | .sse => .sseTick

def arm : StreamKind → Continuation
  | .mjpeg => .mjpegArmTimer
  | .sse => .sseArmTimer

/-- What a session of the kind is to write for what its ticks have found. -/
def body (camera : List Char) (looks : List Surroundings) : StreamKind → List UInt8
  | .mjpeg => (HttpSession.mjpegStream camera looks).written
  | .sse => bytesOf (HttpSession.sseStream camera (looks.map Surroundings.dets)).1

/-- The session knows what it has sent last. -/
def Remembers (s : HttpSession) : StreamKind → Prop
  | .mjpeg => s.lastSent = (HttpSession.mjpegStream s.camera s.looks).lastSent
  | .sse => s.sseLastSeq = (HttpSession.sseStream s.camera (s.looks.map Surroundings.dets)).2

end StreamKind

/-- What the socket has not taken yet. -/
def Operation.rest (out : List UInt8) : Operation → List UInt8
  | .write done _ => out.drop done
  | .read | .respond _ | .wait _ _ => []

namespace HttpSession

/-- All that a session has begun to write to its client. -/
def promised (s : HttpSession) : List UInt8 :=
  s.kind.elim [] fun kind => kind.header ++ kind.body s.camera s.looks

/-- What it had begun to write before its last tick. -/
def settled (s : HttpSession) : List UInt8 :=
  s.kind.elim [] fun kind =>
    if s.looks = [] then [] else kind.header ++ kind.body s.camera s.looks.dropLast

/-- What a tick leads to: one more operation, which writes what is new to the client, or nothing. -/
structure Ticked (cfg : ViewerServerConfig) (env : Surroundings) (kind : StreamKind)
    (s t : HttpSession) (op : Operation) : Prop where
  outstanding : t.outstanding = s.outstanding ++ [op]
  looks : t.looks = s.looks ++ [env]
  kept : t.kind = s.kind ∧ t.camera = s.camera ∧ t.sent = s.sent ∧ t.started = s.started
  body : kind.body t.camera t.looks = kind.body s.camera s.looks ++ op.rest t.out
  remembers : kind.Remembers t
  goes_on : op = .write 0 kind.arm ∨ op = .wait (env.now + interval kind.window cfg) kind.tick

variable {cfg : ViewerServerConfig} {env : Surroundings} {s : HttpSession}

/-- A tick that finds nothing new arms the timer. -/
theorem ticked_armTimer {kind : StreamKind}
    (hbody : kind.body s.camera (s.looks ++ [env]) = kind.body s.camera s.looks)
    (hremembers : kind.Remembers (s.looking env)) :
    ∃ op, Ticked cfg env kind s (armTimer kind.window kind.tick cfg env (s.looking env)) op := by
  refine ⟨.wait (env.now + interval kind.window cfg) kind.tick, rfl, rfl, ⟨rfl, rfl, rfl, rfl⟩,
    ?_, ?_, .inr rfl⟩
  · show kind.body s.camera (s.looks ++ [env]) = kind.body s.camera s.looks ++ []
    rw [hbody, List.append_nil]
  · cases kind <;> exact hremembers

theorem mjpegStream_append (camera : List Char) (looks : List Surroundings) (env : Surroundings) :
    mjpegStream camera (looks ++ [env]) =
      (mjpegStream camera looks).mjpegTick camera env.frames := by
  simp [mjpegStream, MjpegSession.stream]

theorem mjpegTick_spec (h : StreamKind.mjpeg.Remembers s) :
    ∃ op, Ticked cfg env .mjpeg s (s.mjpegTick cfg env) op := by
  have hlast : s.lastSent = (mjpegStream s.camera s.looks).lastSent := h
  have hgrows := mjpegStream_append s.camera s.looks env
  have hidle : mjpegStream s.camera (s.looks ++ [env]) = mjpegStream s.camera s.looks →
      ∃ op, Ticked cfg env .mjpeg s (mjpegArmTimer cfg env (s.looking env)) op := by
    intro hsame
    apply ticked_armTimer
    · simp only [StreamKind.body, hsame]
    · simp only [StreamKind.Remembers, looking, hsame]
      exact hlast
  rw [MjpegSession.mjpegTick, ← hlast] at hgrows
  unfold mjpegTick
  cases hlook : env.frames.latestFor s.camera with
  | none =>
    rw [hlook] at hgrows
    exact hidle hgrows
  | some jpeg =>
    simp only [hlook] at hgrows ⊢
    by_cases hfresh : MjpegSession.fresh s.lastSent jpeg = true
    · rw [if_pos hfresh] at hgrows ⊢
      refine ⟨.write 0 .mjpegArmTimer, rfl, rfl, ⟨rfl, rfl, rfl, rfl⟩, ?_, ?_, .inl rfl⟩
      · show (mjpegStream s.camera (s.looks ++ [env])).written =
          (mjpegStream s.camera s.looks).written ++ mjpegPart jpeg.bytes
        rw [hgrows]
      · show some jpeg = (mjpegStream s.camera (s.looks ++ [env])).lastSent
        rw [hgrows]
    · rw [if_neg hfresh] at hgrows ⊢
      exact hidle hgrows

theorem sseStream_append (camera : List Char) (looks : List SharedDets) (dets : SharedDets) :
    sseStream camera (looks ++ [dets]) =
      ((sseStream camera looks).1 ++
          (ForkliftSafety.sseTick dets camera (sseStream camera looks).2).1.getD [],
        (ForkliftSafety.sseTick dets camera (sseStream camera looks).2).2) := by
  simp [sseStream]

/-- A tick that writes nothing keeps the counter. -/
theorem sseTick_none {dets : SharedDets} {camera : List Char} {last seq : ℕ}
    (h : ForkliftSafety.sseTick dets camera last = (none, seq)) : seq = last := by
  rw [sseTick_eq fun _ => 0] at h
  split_ifs at h
  · simp at h
  · exact (Prod.mk.inj h).2.symm

theorem sseTick_spec (h : StreamKind.sse.Remembers s) :
    ∃ op, Ticked cfg env .sse s (s.sseTick cfg env) op := by
  have hseq : s.sseLastSeq = (sseStream s.camera (s.looks.map Surroundings.dets)).2 := h
  have hgrows := sseStream_append s.camera (s.looks.map Surroundings.dets) env.dets
  rw [← hseq] at hgrows
  have hlooks : (s.looks ++ [env]).map Surroundings.dets =
      s.looks.map Surroundings.dets ++ [env.dets] := List.map_append
  unfold sseTick
  cases htick : ForkliftSafety.sseTick env.dets s.camera s.sseLastSeq with
  | mk payload seq =>
    rw [htick] at hgrows
    cases payload with
    | none =>
      have hsame := sseTick_none htick
      apply ticked_armTimer
      · simp only [StreamKind.body, hlooks, hgrows, Option.getD_none, List.append_nil]
      · simp only [StreamKind.Remembers, looking, hlooks, hgrows]
        exact hsame.symm
    | some payload =>
      refine ⟨.write 0 .sseArmTimer, rfl, rfl, ⟨rfl, rfl, rfl, rfl⟩, ?_, ?_, .inl rfl⟩
      · show bytesOf (sseStream s.camera ((s.looks ++ [env]).map Surroundings.dets)).1 =
          bytesOf (sseStream s.camera (s.looks.map Surroundings.dets)).1 ++ bytesOf payload
        rw [hlooks, hgrows]
        exact List.map_append
      · show seq = (sseStream s.camera ((s.looks ++ [env]).map Surroundings.dets)).2
        rw [hlooks, hgrows]

theorem resume_tick {kind : StreamKind} (h : kind.Remembers s) :
    ∃ op, Ticked cfg env kind s (s.resume cfg env kind.tick) op := by
  cases kind with
  | mjpeg => exact mjpegTick_spec h
  | sse => exact sseTick_spec h

theorem resume_arm (kind : StreamKind) :
    s.resume cfg env kind.arm = armTimer kind.window kind.tick cfg env s := by
  cases kind <;> rfl

/-- The one operation of a session that streams, and when its last tick was. -/
inductive Stage (cfg : ViewerServerConfig) (env : Surroundings) (kind : StreamKind)
    (looks : List Surroundings) : Operation → Prop
  | header (done : ℕ) (hlooks : looks = []) : Stage cfg env kind looks (.write done kind.tick)
  | piece (done : ℕ) (hlast : ∀ l ∈ looks.getLast?, l.now ≤ env.now) :
    Stage cfg env kind looks (.write done kind.arm)
  | waiting (due : ℕ) (hlast : ∀ l ∈ looks.getLast?, l.now + interval kind.window cfg ≤ due) :
    Stage cfg env kind looks (.wait due kind.tick)

/-- What a session that streams has done. -/
structure Streaming (cfg : ViewerServerConfig) (env : Surroundings) (s : HttpSession)
    (kind : StreamKind) (op : Operation) : Prop where
  begun : s.kind = some kind
  outstanding : s.outstanding = [op]
  stage : Stage cfg env kind s.looks op
  sent : s.sent ++ op.rest s.out = s.promised
  settled : s.settled <+: s.sent
  remembers : kind.Remembers s
  paced : s.looks.IsChain fun a b => a.now + interval kind.window cfg ≤ b.now
  started : s.started = true

/-- Each session waits for one operation, from its `run` to its end. -/
inductive Phase (cfg : ViewerServerConfig) (env : Surroundings) (s : HttpSession) : Prop
  | new (hs : s = {})
  | reading (hs : s = ({} : HttpSession).doRead)
  | answering (response : HttpResponse) (hout : s.outstanding = [.respond response])
      (hkind : s.kind = none) (hsent : s.sent = []) (hstarted : s.started = true)
  | streaming (kind : StreamKind) (op : Operation) (hs : Streaming cfg env s kind op)
  | ended (hout : s.outstanding = [])
      (hend : s.failed = true ∨ s.shutDown = true ∨ env.terminated = true)
      (hstarted : s.started = true) (hsent : s.sent <+: s.promised)
      (hsettled : s.settled <+: s.sent)
      (hpaced : ∀ kind ∈ s.kind,
        s.looks.IsChain fun a b => a.now + interval kind.window cfg ≤ b.now)

theorem Stage.later {kind : StreamKind} {looks : List Surroundings} {op : Operation}
    {env' : Surroundings} (h : Stage cfg env kind looks op) (hnow : env.now ≤ env'.now) :
    Stage cfg env' kind looks op := by
  cases h with
  | header done hlooks => exact .header done hlooks
  | piece done hlast => exact .piece done fun l hl => (hlast l hl).trans hnow
  | waiting due hlast => exact .waiting due hlast

theorem Streaming.later {kind : StreamKind} {op : Operation} {env' : Surroundings}
    (h : Streaming cfg env s kind op) (hnow : env.now ≤ env'.now) :
    Streaming cfg env' s kind op :=
  { h with stage := h.stage.later hnow }

theorem Phase.later {env' : Surroundings} (h : Phase cfg env s) (hnow : env.now ≤ env'.now)
    (hterminated : env.terminated = true → env'.terminated = true) : Phase cfg env' s := by
  cases h with
  | new hs => exact .new hs
  | reading hs => exact .reading hs
  | answering response hout hkind hsent hstarted =>
    exact .answering response hout hkind hsent hstarted
  | streaming kind op hs => exact .streaming kind op (hs.later hnow)
  | ended hout hend hstarted hsent hsettled hpaced =>
    exact .ended hout (hend.imp_right (Or.imp_right hterminated)) hstarted hsent hsettled hpaced

theorem getElem?_singleton_eq {op op' : Operation} {k : ℕ} (h : [op][k]? = some op') :
    k = 0 ∧ op' = op := by
  cases k with
  | zero => exact ⟨rfl, (Option.some.inj h).symm⟩
  | succ k => simp at h

theorem Streaming.sent_prefix {kind : StreamKind} {op : Operation}
    (h : Streaming cfg env s kind op) : s.sent <+: s.promised :=
  ⟨op.rest s.out, h.sent⟩

theorem rest_of_all {out : List UInt8} {done : ℕ} {next : Continuation} (h : done = out.length) :
    (Operation.write done next).rest out = [] :=
  List.drop_of_length_le h.ge

/-- A tick of a session whose writes are done goes on with the stream. -/
theorem tick_streaming {kind : StreamKind} (hbegun : s.kind = some kind)
    (hout : s.outstanding = []) (hsent : s.sent = s.promised) (hremembers : kind.Remembers s)
    (hpaced : s.looks.IsChain fun a b => a.now + interval kind.window cfg ≤ b.now)
    (hlast : ∀ l ∈ s.looks.getLast?, l.now + interval kind.window cfg ≤ env.now)
    (hstarted : s.started = true) :
    ∃ op, Streaming cfg env (s.resume cfg env kind.tick) kind op := by
  have hresume : ∃ op, Ticked cfg env kind s (s.resume cfg env kind.tick) op :=
    resume_tick hremembers
  obtain ⟨op, htick⟩ := hresume
  obtain ⟨hkind, hcamera, hkeeps, hstart⟩ := htick.kept
  refine ⟨op, hkind.trans hbegun, by rw [htick.outstanding, hout, List.nil_append], ?_, ?_, ?_,
    htick.remembers, ?_, hstart.trans hstarted⟩
  · rw [htick.looks]
    rcases htick.goes_on with rfl | rfl
    · exact .piece 0 (by simp)
    · exact .waiting _ (by simp)
  · simp only [promised, hkind, hbegun, Option.elim_some] at hsent ⊢
    rw [htick.body, hkeeps, hsent, List.append_assoc]
  · have hbefore : (s.resume cfg env kind.tick).settled = s.promised := by
      simp [HttpSession.settled, promised, hkind, hbegun, htick.looks, hcamera]
    rw [hbefore, hkeeps, hsent]
  · rw [htick.looks, List.isChain_append]
    refine ⟨hpaced, List.isChain_singleton _, ?_⟩
    intro l hl e he
    obtain rfl : env = e := by simpa using he
    exact hlast l hl

theorem Streaming.completed {kind : StreamKind} {op : Operation} {t : HttpSession}
    (h : Streaming cfg env s kind op) (ht : (s.without 0).completed cfg env op = some t) :
    ∃ op', Streaming cfg env t kind op' := by
  have hout : (s.without 0).outstanding = [] := by rw [without, h.outstanding]; rfl
  have hsent := h.sent
  have hrest (done : ℕ) (next : Continuation) (hall : done = (s.without 0).out.length) :
      (Operation.write done next).rest s.out = [] := rest_of_all hall
  have htick (hdone : s.sent = s.promised)
      (hlast : ∀ l ∈ s.looks.getLast?, l.now + interval kind.window cfg ≤ env.now) :
      ∃ op, Streaming cfg env ((s.without 0).resume cfg env kind.tick) kind op :=
    tick_streaming h.begun hout hdone h.remembers h.paced hlast h.started
  cases h.stage with
  | header done hlooks =>
    simp only [HttpSession.completed, Option.ite_none_right_eq_some, Option.some.injEq] at ht
    obtain ⟨hall, rfl⟩ := ht
    rw [hrest _ _ hall, List.append_nil] at hsent
    exact htick hsent (by simp [hlooks])
  | piece done hlast =>
    simp only [HttpSession.completed, Option.ite_none_right_eq_some, Option.some.injEq] at ht
    obtain ⟨hall, rfl⟩ := ht
    rw [hrest _ _ hall, List.append_nil] at hsent
    rw [resume_arm]
    refine ⟨.wait (env.now + interval kind.window cfg) kind.tick, h.begun, ?_, ?_, ?_,
      h.settled, ?_, h.paced, h.started⟩
    · rw [armTimer, await, hout]
      rfl
    · exact .waiting _ fun l hl => Nat.add_le_add_right (hlast l hl) _
    · exact (List.append_nil _).trans hsent
    · have hremembers := h.remembers
      cases kind <;> exact hremembers
  | waiting due hlast =>
    simp only [HttpSession.completed, Option.ite_none_right_eq_some, Option.some.injEq] at ht
    obtain ⟨hdue, rfl⟩ := ht
    exact htick ((List.append_nil _).symm.trans hsent) fun l hl => (hlast l hl).trans hdue

/-- Bytes that the socket takes are no longer to be sent. -/
theorem Streaming.transfer {kind : StreamKind} {done : ℕ} {next : Continuation}
    (h : Streaming cfg env s kind (.write done next)) (n : ℕ) :
    Streaming cfg env
      { s with
        sent := s.sent ++ (s.out.drop done).take n
        outstanding := s.outstanding.set 0 (.write (min (done + n) s.out.length) next) }
      kind (.write (min (done + n) s.out.length) next) where
  begun := h.begun
  outstanding := by rw [h.outstanding]; rfl
  stage := by
    cases h.stage with
    | header _ hlooks => exact .header _ hlooks
    | piece _ hlast => exact .piece _ hlast
  sent := by
    have hsent := h.sent
    have hmin : s.out.drop (min (done + n) s.out.length) = (s.out.drop done).drop n := by
      rw [List.drop_drop]
      rcases le_total (done + n) s.out.length with hle | hle
      · rw [min_eq_left hle]
      · rw [min_eq_right hle, List.drop_length, List.drop_of_length_le hle]
    show s.sent ++ (s.out.drop done).take n ++ s.out.drop (min (done + n) s.out.length) =
      s.promised
    rw [hmin, List.append_assoc, List.take_append_drop]
    exact hsent
  settled := h.settled.trans (List.prefix_append _ _)
  remembers := by
    have hremembers := h.remembers
    cases kind <;> exact hremembers
  paced := h.paced
  started := h.started

theorem respond_header {files : List Char → Option (List Char)} {version : ℕ}
    {action : RouteAction} {r : Reply} (h : respond cfg files version action = some r) :
    (∃ response, r = .whole response) ∨ (∃ camera, r = .stream mjpegHeader camera) ∨
      ∃ camera, r = .sse sseHeader camera := by
  cases action with
  | startMjpeg camera => exact .inr (.inl ⟨camera, (Option.some.inj h).symm⟩)
  | startSse camera => exact .inr (.inr ⟨camera, (Option.some.inj h).symm⟩)
  | sendString body ctype => exact .inl ⟨_, (Option.some.inj h).symm⟩
  | sendFile rel =>
    obtain ⟨response, _, hr⟩ := Option.map_eq_some_iff.mp h
    exact .inl ⟨response, hr.symm⟩
  | sendStatus status msg => exact .inl ⟨_, (Option.some.inj h).symm⟩

/-- A stream begins with the header of its kind. -/
theorem streaming_start (kind : StreamKind) (header : String) (camera : List Char)
    (hheader : kind.header = bytesOf header.toList) :
    Streaming cfg env
      ((({} : HttpSession).doRead.without 0).startStream kind kind.tick header camera) kind
      (.write 0 kind.tick) where
  begun := rfl
  outstanding := rfl
  stage := .header 0 rfl
  sent := by
    have hbody : kind.body camera [] = [] := by cases kind <;> rfl
    show [] ++ bytesOf header.toList = kind.header ++ kind.body camera []
    rw [hbody, hheader, List.nil_append, List.append_nil]
  settled := List.prefix_rfl
  remembers := by cases kind <;> rfl
  paced := .nil
  started := rfl

theorem phase_reply {files : List Char → Option (List Char)} {version : ℕ}
    {cameraOrder : List (List Char)} {target : List Char} {r : Reply}
    (h : handle cfg files version cameraOrder target = some r) :
    Phase cfg env ((({} : HttpSession).doRead.without 0).reply r) := by
  obtain ⟨action, _, hr⟩ := Option.bind_eq_some_iff.mp h
  rcases respond_header hr with ⟨response, rfl⟩ | ⟨camera, rfl⟩ | ⟨camera, rfl⟩
  · exact .answering response rfl rfl rfl rfl
  · exact .streaming .mjpeg _ (streaming_start .mjpeg mjpegHeader camera rfl)
  · exact .streaming .sse _ (streaming_start .sse sseHeader camera rfl)

/-- A request is read once, right after the start. -/
theorem Phase.of_read {k : ℕ} (h : Phase cfg env s) (hread : s.outstanding[k]? = some .read) :
    k = 0 ∧ s = ({} : HttpSession).doRead := by
  cases h with
  | new hs => simp [hs] at hread
  | reading hs =>
    have hout : s.outstanding = [.read] := by rw [hs]; rfl
    exact ⟨(getElem?_singleton_eq (hout ▸ hread)).1, hs⟩
  | answering response hout _ _ _ =>
    have hop := (getElem?_singleton_eq (hout ▸ hread)).2
    contradiction
  | streaming kind op hs =>
    obtain rfl := (getElem?_singleton_eq (hs.outstanding ▸ hread)).2
    cases hs.stage
  | ended hout _ _ _ _ _ => simp [hout] at hread

/-- After an error a session is over. -/
theorem Phase.fail {k : ℕ} {op : Operation} (h : Phase cfg env s)
    (hop : s.outstanding[k]? = some op) : Phase cfg env ((s.without k).broken op) := by
  cases h with
  | new hs => simp [hs] at hop
  | reading hs =>
    have hout : s.outstanding = [.read] := by rw [hs]; rfl
    obtain ⟨rfl, rfl⟩ := getElem?_singleton_eq (hout ▸ hop)
    rw [hs]
    exact .ended rfl (.inl rfl) rfl List.prefix_rfl List.prefix_rfl
      (by simp [broken, without, doRead, await])
  | answering response hout hkind hsent hstarted =>
    obtain ⟨rfl, rfl⟩ := getElem?_singleton_eq (hout ▸ hop)
    refine .ended (by simp [broken, without, hout]) (.inl rfl) hstarted ?_ ?_ ?_
    · simp [broken, without, hsent]
    · simp [settled, broken, without, hkind]
    · simp [broken, without, hkind]
  | streaming kind op' hs =>
    obtain ⟨rfl, rfl⟩ := getElem?_singleton_eq (hs.outstanding ▸ hop)
    have hnot : ∀ response, op ≠ .respond response := by
      rintro response rfl
      cases hs.stage
    have hbroken : (s.without 0).broken op = { s.without 0 with failed := true } := by
      cases op with
      | respond response => exact absurd rfl (hnot response)
      | _ => rfl
    rw [hbroken]
    refine .ended (by simp [without, hs.outstanding]) (.inl rfl) hs.started hs.sent_prefix
      hs.settled ?_
    intro kind' hkind'
    obtain rfl : kind = kind' := Option.some.inj (hs.begun.symm.trans hkind')
    exact hs.paced
  | ended hout _ _ _ _ _ => simp [hout] at hop

theorem Phase.complete {k : ℕ} {op : Operation} {t : HttpSession} (h : Phase cfg env s)
    (hop : s.outstanding[k]? = some op) (ht : (s.without k).completed cfg env op = some t) :
    Phase cfg env t := by
  cases h with
  | new hs => simp [hs] at hop
  | reading hs =>
    have hout : s.outstanding = [.read] := by rw [hs]; rfl
    obtain ⟨rfl, rfl⟩ := getElem?_singleton_eq (hout ▸ hop)
    contradiction
  | answering response hout hkind hsent hstarted =>
    obtain ⟨rfl, rfl⟩ := getElem?_singleton_eq (hout ▸ hop)
    rw [completed, Option.some.injEq] at ht
    subst ht
    refine .ended (by simp [without, hout]) (.inr (.inl rfl)) hstarted ?_ ?_ ?_
    · simp [without, hsent]
    · simp [settled, without, hkind]
    · simp [without, hkind]
  | streaming kind op' hs =>
    obtain ⟨rfl, rfl⟩ := getElem?_singleton_eq (hs.outstanding ▸ hop)
    obtain ⟨op', ht'⟩ := hs.completed ht
    exact .streaming kind op' ht'
  | ended hout _ _ _ _ _ => simp [hout] at hop

theorem next_phase {env' : Surroundings} {t : HttpSession} {e : Event} (h : Phase cfg env s)
    (hstep : s.next cfg env e = some (env', t)) : Phase cfg env' t := by
  cases e with
  | run =>
    simp only [next, Option.ite_none_left_eq_some, Option.some.injEq, Prod.mk.injEq] at hstep
    obtain ⟨hstarted, rfl, rfl⟩ := hstep
    cases h with
    | new hs => exact .reading (by rw [hs])
    | reading hs => exact absurd (by rw [hs]; rfl) hstarted
    | answering _ _ _ _ hrun => exact absurd hrun hstarted
    | streaming _ _ hs => exact absurd hs.started hstarted
    | ended _ _ hrun _ _ _ => exact absurd hrun hstarted
  | request k target version files =>
    simp only [next] at hstep
    split at hstep
    · rename_i hread
      obtain ⟨rfl, rfl⟩ := h.of_read hread
      split at hstep
      · simp only [Option.some.injEq, Prod.mk.injEq] at hstep
        obtain ⟨rfl, rfl⟩ := hstep
        exact .ended rfl (.inr (.inr rfl)) rfl List.prefix_rfl List.prefix_rfl
          (by simp [without, doRead, await])
      · rename_i r hr
        simp only [Option.some.injEq, Prod.mk.injEq] at hstep
        obtain ⟨rfl, rfl⟩ := hstep
        exact phase_reply hr
    · contradiction
  | transfer k n =>
    simp only [next] at hstep
    split at hstep
    · rename_i done cont hop
      simp only [Option.some.injEq, Prod.mk.injEq] at hstep
      obtain ⟨rfl, rfl⟩ := hstep
      cases h with
      | new hs => simp [hs] at hop
      | reading hs =>
        have hout : s.outstanding = [.read] := by rw [hs]; rfl
        have hread := (getElem?_singleton_eq (hout ▸ hop)).2
        contradiction
      | answering response hout _ _ _ =>
        have hrespond := (getElem?_singleton_eq (hout ▸ hop)).2
        contradiction
      | streaming kind op hs =>
        obtain ⟨rfl, rfl⟩ := getElem?_singleton_eq (hs.outstanding ▸ hop)
        exact .streaming kind _ (hs.transfer n)
      | ended hout _ _ _ _ _ => simp [hout] at hop
    · contradiction
  | complete k =>
    simp only [next, Option.bind_eq_some_iff, Option.map_eq_some_iff, Prod.mk.injEq] at hstep
    obtain ⟨op, hop, t, ht, rfl, rfl⟩ := hstep
    exact h.complete hop ht
  | fail k =>
    simp only [next, Option.map_eq_some_iff, Prod.mk.injEq] at hstep
    obtain ⟨op, hop, rfl, rfl⟩ := hstep
    exact h.fail hop

end HttpSession
end ForkliftSafety
