import ForkliftSafety.Infrastructure.HttpSession
import ForkliftSafety.Infrastructure.ViewerOutput

/-! What the clients of `MjpegStreamServer` get, at any moment of any run of its sessions. -/
namespace ForkliftSafety
open Transition Records SharedDets Text Json

/-- Digits behind which something else stands are read to their end. -/
theorem readSize_stable {s rest : List UInt8} {n : ℕ} (h : readSize s = some (n, rest))
    (hrest : rest ≠ []) (more : List UInt8) : readSize (s ++ more) = some (n, rest ++ more) := by
  unfold readSize at h ⊢
  simp only [Option.ite_none_left_eq_some, Option.some.injEq, Prod.mk.injEq] at h
  obtain ⟨hdigits, hn, rfl⟩ := h
  have hlength : (s.takeWhile isDigitByte).length ≠ s.length := by
    intro hall
    have hboth := congrArg List.length (List.takeWhile_append_dropWhile (p := isDigitByte) (l := s))
    rw [List.length_append, hall] at hboth
    exact hrest (List.length_eq_zero_iff.mp (by omega))
  have htake : (s ++ more).takeWhile isDigitByte = s.takeWhile isDigitByte := by
    rw [List.takeWhile_append, if_neg hlength]
  have hdrop : (s ++ more).dropWhile isDigitByte = s.dropWhile isDigitByte ++ more := by
    rw [List.dropWhile_append, if_neg (by simpa using hrest)]
  simp only [htake, hdrop, if_neg hdigits, hn]

theorem readPart_eq_some {s body rest : List UInt8} (h : readPart s = some (body, rest)) :
    ∃ digits, s = partHeader ++ digits ∧
      readSize digits = some (body.length, crlf ++ crlf ++ (body ++ (crlf ++ rest))) := by
  simp only [readPart, Option.bind_eq_some_iff, Option.map_eq_some_iff, Prod.mk.injEq] at h
  obtain ⟨digits, hheader, ⟨n, blank⟩, hsize, content, hblank, ⟨front, tail⟩, htake, last, hend,
    rfl, rfl⟩ := h
  obtain ⟨hcontent, hlength⟩ := takeExactly_eq_some htake
  refine ⟨digits, strip_eq_some hheader, ?_⟩
  rw [hsize, hlength, ← strip_eq_some hend, ← hcontent, ← strip_eq_some hblank]

theorem readPart_stable : Stable readPart := by
  intro s more body rest h
  obtain ⟨digits, rfl, hsize⟩ := readPart_eq_some h
  have hmore := readSize_stable hsize
    (List.append_ne_nil_of_left_ne_nil (by decide) _) more
  have hshape : crlf ++ crlf ++ (body ++ (crlf ++ rest)) ++ more =
      crlf ++ crlf ++ (body ++ (crlf ++ (rest ++ more))) := by simp only [List.append_assoc]
  rw [readPart, List.append_assoc, strip_append, Option.bind_some, hmore, Option.bind_some, hshape,
    strip_append, Option.bind_some, takeExactly_append, Option.bind_some, strip_append]
  rfl

theorem findStr_stable {pat s : List Char} {i : ℕ} (hpat : pat ≠ []) (h : findStr pat s = some i)
    (more : List Char) : findStr pat (s ++ more) = some i ∧ i + pat.length ≤ s.length := by
  induction s generalizing i with
  | nil => simp [findStr, hpat] at h
  | cons c s ih =>
    rw [findStr] at h
    rw [List.cons_append, findStr]
    by_cases hpre : pat.isPrefixOf (c :: s) = true
    · rw [if_pos hpre, Option.some.injEq] at h
      have hpre' := List.isPrefixOf_iff_prefix.mp hpre
      have hlong : pat.isPrefixOf (c :: (s ++ more)) = true :=
        List.isPrefixOf_iff_prefix.mpr (hpre'.trans ⟨more, rfl⟩)
      have hlength := hpre'.length_le
      rw [if_pos hlong]
      exact ⟨congrArg some h, by omega⟩
    · rw [if_neg hpre, Option.map_eq_some_iff] at h
      obtain ⟨j, hj, rfl⟩ := h
      obtain ⟨hfind, hle⟩ := ih hj
      have hshort : ¬ pat.isPrefixOf (c :: (s ++ more)) = true := by
        intro hlong
        have hboth := List.prefix_or_prefix_of_prefix (List.isPrefixOf_iff_prefix.mp hlong)
          (⟨more, rfl⟩ : c :: s <+: c :: (s ++ more))
        rcases hboth with hin | hin
        · exact hpre (List.isPrefixOf_iff_prefix.mpr hin)
        · have hlength := hin.length_le
          rw [List.length_cons] at hlength
          omega
      rw [if_neg hshort, hfind, List.length_cons]
      exact ⟨rfl, by omega⟩

theorem readMessage_stable : Stable readMessage := by
  intro s more json rest h
  simp only [readMessage, Option.bind_eq_some_iff, Option.map_eq_some_iff, Prod.mk.injEq] at h
  obtain ⟨text, hdata, i, hfind, rfl, rfl⟩ := h
  obtain ⟨hmore, hle⟩ := findStr_stable (by simp) hfind more
  have hlength : i + 2 ≤ text.length := hle
  rw [strip_eq_some hdata, readMessage, List.append_assoc, strip_append, Option.bind_some, hmore,
    Option.map_some, List.take_append_of_le_length (by omega),
    List.drop_append_of_le_length hlength]

namespace HttpSession
variable {cfg : ViewerServerConfig} {c : Threads.Config ℕ Surroundings HttpSession}

theorem next_env {env env' : Surroundings} {s t : HttpSession} {e : Event}
    (h : s.next cfg env e = some (env', t)) :
    env'.dets = env.dets ∧ env'.frames = env.frames ∧ env'.now = env.now ∧
      (env.terminated = true → env'.terminated = true) := by
  have hsame : env' = env ∨ env' = { env with terminated := true } := by
    cases e with
    | run =>
      simp only [next, Option.ite_none_left_eq_some, Option.some.injEq, Prod.mk.injEq] at h
      exact .inl h.2.1.symm
    | request k target version files =>
      simp only [next] at h
      split at h
      · split at h
        · exact .inr (Prod.mk.inj (Option.some.inj h)).1.symm
        · exact .inl (Prod.mk.inj (Option.some.inj h)).1.symm
      · contradiction
    | transfer k n =>
      simp only [next] at h
      split at h
      · exact .inl (Prod.mk.inj (Option.some.inj h)).1.symm
      · contradiction
    | complete k =>
      simp only [next, Option.bind_eq_some_iff, Option.map_eq_some_iff, Prod.mk.injEq] at h
      obtain ⟨_, _, _, _, henv, _⟩ := h
      exact .inl henv.symm
    | fail k =>
      simp only [next, Option.map_eq_some_iff, Prod.mk.injEq] at h
      obtain ⟨_, _, henv, _⟩ := h
      exact .inl henv.symm
  rcases hsame with rfl | rfl
  · exact ⟨rfl, rfl, rfl, id⟩
  · exact ⟨rfl, rfl, rfl, fun _ => rfl⟩

theorem program_next {i : ℕ} {env env' : Surroundings} {s t : HttpSession} {e : Event}
    (h : (program cfg).next i (env, s) e = some (env', t)) :
    s.next cfg env e = some (env', t) := by
  simp only [program, Option.ite_none_left_eq_some] at h
  exact h.2

theorem program_env {env env' : Surroundings} {e : Change}
    (h : (program cfg).env env e = some env') : env' = change env e := by
  simp only [program, Option.ite_none_left_eq_some, Option.some.injEq] at h
  exact h.2.symm

theorem system_phase (hc : (system cfg).Reachable c) (i : ℕ) :
    Phase cfg c.shared (c.locals i) := by
  refine Threads.Program.reachable_forall (I := fun _ g s => Phase cfg g s)
    (R := fun _ g g' => g.now ≤ g'.now ∧ (g.terminated = true → g'.terminated = true))
    (fun _ => .new rfl) ?_ ?_ ?_ ?_ hc i
  · intro _ g s e g' t hs hstep
    exact next_phase hs (program_next hstep)
  · intro _ j g s e g' t _ hstep
    obtain ⟨_, _, hnow, hterminated⟩ := next_env (program_next hstep)
    exact ⟨hnow.ge, hterminated⟩
  · intro _ g e g' hstep
    rw [program_env hstep]
    cases e with
    | elapse ms => exact ⟨Nat.le_add_right _ _, id⟩
    | _ => exact ⟨le_rfl, id⟩
  · intro _ g g' s hs hrest
    exact hs.later hrest.1 hrest.2

/-- A session that has not ended waits for exactly one thing, and nothing touches its buffer while
a write of it is outstanding: what the socket has taken and what it will take is what was to be
written. -/
structure Attended (env : Surroundings) (s : HttpSession) : Prop where
  one : s.outstanding.length ≤ 1
  waits : s.started = true → s.outstanding = [] →
    s.failed = true ∨ s.shutDown = true ∨ env.terminated = true
  intact : ∀ op ∈ s.outstanding, s.sent ++ op.rest s.out = s.promised

theorem Phase.attended {env : Surroundings} {s : HttpSession} (h : Phase cfg env s) :
    Attended env s := by
  cases h with
  | new hs => exact ⟨by simp [hs], by simp [hs], by simp [hs]⟩
  | reading hs =>
    refine ⟨by simp [hs, doRead, await], by simp [hs, doRead, await], ?_⟩
    simp [hs, doRead, await, Operation.rest, promised]
  | answering response hout hkind hsent hstarted =>
    refine ⟨by simp [hout], by simp [hout], ?_⟩
    simp [hout, Operation.rest, promised, hkind, hsent]
  | streaming kind op hs =>
    refine ⟨by simp [hs.outstanding], by simp [hs.outstanding], ?_⟩
    simpa [hs.outstanding] using hs.sent
  | ended hout hend _ _ _ _ => exact ⟨by simp [hout], fun _ _ => hend, by simp [hout]⟩

/-- What waits for nothing is not called again. -/
theorem next_of_ended {env : Surroundings} {s : HttpSession} (hstarted : s.started = true)
    (hout : s.outstanding = []) (e : Event) : s.next cfg env e = none := by
  cases e <;> simp [next, hstarted, hout]

/-- Each session waits for one thing at a time until it ends, and then nothing happens to it any
more. -/
theorem session_attended (hc : (system cfg).Reachable c) (i : ℕ) :
    Attended c.shared (c.locals i) ∧
      ((c.locals i).started = true → (c.locals i).outstanding = [] →
        ∀ d, (system cfg).Path c d → d.locals i = c.locals i) := by
  refine ⟨(system_phase hc i).attended, fun hstarted hout d hd => ?_⟩
  apply hd.preserves (I := fun d => d.locals i = c.locals i) rfl
  intro d label d' hd hstep
  cases label with
  | thread j e =>
    obtain ⟨g, s, hnext, rfl⟩ := Threads.Program.system_thread hstep
    by_cases hij : i = j
    · subst hij
      have hnone := program_next hnext
      rw [hd, next_of_ended hstarted hout] at hnone
      contradiction
    · exact (Function.update_of_ne hij _ _).trans hd
  | env e =>
    obtain ⟨g, _, rfl⟩ := Threads.Program.system_env hstep
    exact hd

theorem destutter'_cons_prefix {α : Type*} (R : α → α → Prop) [DecidableRel R] (a : α)
    (xs : List α) : [a] <+: xs.destutter' R a := by
  induction xs with
  | nil => exact List.prefix_rfl
  | cons b xs ih =>
    rw [List.destutter'_cons]
    split_ifs
    · exact ⟨_, rfl⟩
    · exact ih

theorem destutter'_append_prefix {α : Type*} (R : α → α → Prop) [DecidableRel R] (a : α)
    (xs ys : List α) : xs.destutter' R a <+: (xs ++ ys).destutter' R a := by
  induction xs generalizing a with
  | nil => exact destutter'_cons_prefix R a ys
  | cons b xs ih =>
    rw [List.cons_append, List.destutter'_cons, List.destutter'_cons]
    split_ifs
    · exact List.cons_prefix_cons.mpr ⟨rfl, ih b⟩
    · exact ih a

theorem framesToSend_grows (camera : List Char) (looks more : List (SharedFrames JpegPtr)) :
    framesToSend camera looks <+: framesToSend camera (looks ++ more) := by
  have hfound : found camera (looks ++ more) = found camera looks ++ found camera more := by
    rw [found, List.map_append, List.reduceOption_append]
    rfl
  rw [framesToSend, framesToSend, hfound]
  cases found camera looks with
  | nil => exact List.nil_prefix
  | cons jpeg frames => exact destutter'_append_prefix _ jpeg frames _

theorem framesToSend_dropLast (camera : List Char) (looks : List (SharedFrames JpegPtr)) :
    framesToSend camera looks.dropLast <+: framesToSend camera looks := by
  obtain ⟨more, hmore⟩ := List.dropLast_prefix looks
  conv_rhs => rw [← hmore]
  exact framesToSend_grows camera looks.dropLast more

/-- The frames that a session has begun to send. -/
def frames (s : HttpSession) (looks : List Surroundings) : List (List UInt8) :=
  (framesToSend s.camera (looks.map Surroundings.frames)).map JpegPtr.bytes

theorem frames_dropLast (s : HttpSession) : s.frames s.looks.dropLast <+: s.frames s.looks := by
  unfold frames
  rw [List.map_dropLast]
  exact (framesToSend_dropLast s.camera _).map JpegPtr.bytes

theorem body_mjpeg (s : HttpSession) (looks : List Surroundings) :
    StreamKind.mjpeg.body s.camera looks = (s.frames looks).flatMap mjpegPart := by
  rw [StreamKind.body, mjpegStream, MjpegSession.stream_written, frames, List.flatMap_map]

/-- What the socket of a stream has taken lies between what was begun before the last tick and what
has been begun now. -/
theorem Phase.sent_between {env : Surroundings} {s : HttpSession} {kind : StreamKind}
    (h : Phase cfg env s) (hkind : s.kind = some kind) :
    s.sent <+: s.promised ∧ s.settled <+: s.sent := by
  cases h with
  | new hs => simp [hs] at hkind
  | reading hs => simp [hs, doRead, await] at hkind
  | answering _ _ hnone _ _ => simp [hnone] at hkind
  | streaming _ op hs => exact ⟨⟨op.rest s.out, hs.sent⟩, hs.settled⟩
  | ended _ _ _ hsent hsettled _ => exact ⟨hsent, hsettled⟩

/-- A session that waits for its timer has sent all it has begun. -/
theorem Phase.sent_waiting {env : Surroundings} {s : HttpSession} {due : ℕ} {next : Continuation}
    (h : Phase cfg env s) (hwait : s.outstanding = [.wait due next]) :
    s.sent = s.promised := by
  have hall := h.attended.intact (.wait due next) (by simp [hwait])
  rwa [Operation.rest, List.append_nil] at hall

theorem promised_eq {s : HttpSession} {kind : StreamKind} (hkind : s.kind = some kind) :
    s.promised = kind.header ++ kind.body s.camera s.looks := by
  rw [promised, hkind, Option.elim_some]

theorem settled_eq {s : HttpSession} {kind : StreamKind} (hkind : s.kind = some kind)
    (hlooks : s.looks ≠ []) :
    s.settled = kind.header ++ kind.body s.camera s.looks.dropLast := by
  rw [settled, hkind, Option.elim_some, if_neg hlooks]

theorem Phase.mjpeg_received {env : Surroundings} {s : HttpSession} (hphase : Phase cfg env s)
    (hkind : s.kind = some .mjpeg) :
    let got := received readPart (s.sent.drop StreamKind.mjpeg.header.length)
    s.frames s.looks.dropLast <+: got ∧ got <+: s.frames s.looks ∧
      ∀ due next, s.outstanding = [.wait due next] → got = s.frames s.looks := by
  intro got
  obtain ⟨hsent, hsettled⟩ := hphase.sent_between hkind
  have hread : ∀ jpeg ∈ s.frames s.looks, Readable mjpegPart readPart jpeg :=
    fun jpeg _ => mjpegPart_readable jpeg
  have hpromised := promised_eq hkind
  rw [body_mjpeg] at hpromised
  rw [hpromised] at hsent
  have hbefore : s.frames s.looks.dropLast = [] ∨
      StreamKind.mjpeg.header ++ (s.frames s.looks.dropLast).flatMap mjpegPart <+: s.sent := by
    by_cases hlooks : s.looks = []
    · exact .inl (by rw [hlooks]; rfl)
    · rw [settled_eq hkind hlooks, body_mjpeg] at hsettled
      exact .inr hsettled
  obtain ⟨hleast, hmost, hall⟩ :=
    received_between readPart_stable hread (frames_dropLast s) hsent hbefore
  exact ⟨hleast, hmost, fun due next hwait => hall ((hphase.sent_waiting hwait).trans hpromised)⟩

/-- The client of an MJPEG stream gets whole frames only, in their order and none twice in a row:
all that the session had begun before its last tick, and when the session waits for its timer, all
that it has begun. It holds after an error, too. -/
theorem mjpeg_client_decodes (hc : (system cfg).Reachable c) (i : ℕ)
    (hkind : (c.locals i).kind = some .mjpeg) :
    let s := c.locals i
    let got := received readPart (s.sent.drop StreamKind.mjpeg.header.length)
    s.frames s.looks.dropLast <+: got ∧ got <+: s.frames s.looks ∧
      ∀ due next, s.outstanding = [.wait due next] → got = s.frames s.looks :=
  (system_phase hc i).mjpeg_received hkind

/-- The session of the event stream as the messages that it has begun to send. -/
def sseSession (camera : List Char) (looks : List SharedDets) : SseSession :=
  looks.foldl (fun s dets => s.tick dets (fun _ => 0) camera) {}

theorem sseSession_append (camera : List Char) (looks : List SharedDets) (dets : SharedDets) :
    sseSession camera (looks ++ [dets]) =
      (sseSession camera looks).tick dets (fun _ => 0) camera := by
  simp [sseSession]

def documents (s : HttpSession) (looks : List Surroundings) : List (List Char) :=
  (sseSession s.camera (looks.map Surroundings.dets)).sent.flatten.map SseMessage.json

theorem sseStream_eq (camera : List Char) (looks : List SharedDets) :
    sseStream camera looks =
      ((sseSession camera looks).sent.flatten.flatMap fun m => dataLine m.json,
        (sseSession camera looks).sseLastSeq) := by
  induction looks using List.reverseRecOn with
  | nil => rfl
  | append_singleton looks dets ih =>
    rw [sseStream_append, ih, sseSession_append, SseSession.tick, sseTick_eq fun _ => 0]
    split_ifs <;> simp

theorem body_sse (s : HttpSession) (looks : List Surroundings) :
    StreamKind.sse.body s.camera looks = bytesOf ((s.documents looks).flatMap dataLine) := by
  rw [StreamKind.body, sseStream_eq, documents, List.flatMap_map]

theorem documents_dropLast (s : HttpSession) :
    s.documents s.looks.dropLast <+: s.documents s.looks := by
  obtain hnil | ⟨looks, last, hlooks⟩ := List.eq_nil_or_concat' s.looks
  · rw [hnil]
    exact List.prefix_rfl
  · rw [hlooks, List.dropLast_concat, documents, documents, List.map_append, List.map_singleton,
      sseSession_append, SseSession.tick_sent, List.flatten_append, List.map_append]
    exact List.prefix_append _ _

/-- A text of one line, whose characters stand for bytes. -/
structure ByteLine (json : List Char) : Prop where
  oneLine : OneLine json
  small : ∀ ch ∈ json, ch.toNat < 256

theorem small_of_all {text : List Char} (h : (text.all fun ch => decide (ch.toNat < 256)) = true) :
    ∀ ch ∈ text, ch.toNat < 256 := by
  simpa using h

theorem map_byteChar_bytesOf {text : List Char} (h : ∀ ch ∈ text, ch.toNat < 256) :
    (bytesOf text).map byteChar = text := by
  rw [bytesOf, List.map_map]
  conv_rhs => rw [← List.map_id text]
  apply List.map_congr_left
  intro ch hch
  rw [Function.comp_apply, byteChar, charByte, UInt8.toNat_ofNat', Nat.mod_eq_of_lt (h ch hch),
    Char.ofNat_toNat, id]

theorem ByteLine.nil : ByteLine [] := ⟨List.not_mem_nil, fun _ h => absurd h List.not_mem_nil⟩

/-- The pipelines publish texts of one line. -/
def StoresLines (_ : Threads.Config ℕ Surroundings HttpSession) :
    Threads.Label ℕ Event Change → Prop
  | .env (.storeDets _ json) => ByteLine json
  | _ => True

def HasLines (dets : SharedDets) : Prop := ∀ cam, ByteLine (dets.entry cam).json

theorem resume_looks (env : Surroundings) (s : HttpSession) (next : Continuation) :
    (s.resume cfg env next).looks = s.looks ∨
      (s.resume cfg env next).looks = s.looks ++ [env] := by
  cases next with
  | mjpegTick =>
    right
    show (s.mjpegTick cfg env).looks = _
    unfold mjpegTick
    split
    · rfl
    · split_ifs <;> rfl
  | mjpegArmTimer | sseArmTimer => exact .inl rfl
  | sseTick =>
    right
    show (s.sseTick cfg env).looks = _
    unfold sseTick
    split <;> rfl

theorem next_looks {env env' : Surroundings} {s t : HttpSession} {e : Event}
    (h : s.next cfg env e = some (env', t)) : t.looks = s.looks ∨ t.looks = s.looks ++ [env] := by
  cases e with
  | run =>
    simp only [next, Option.ite_none_left_eq_some, Option.some.injEq, Prod.mk.injEq] at h
    rw [← h.2.2]
    exact .inl rfl
  | request k target version files =>
    simp only [next] at h
    split at h
    · split at h
      · rw [← (Prod.mk.inj (Option.some.inj h)).2]
        exact .inl rfl
      · rename_i r _
        rw [← (Prod.mk.inj (Option.some.inj h)).2]
        cases r <;> exact .inl rfl
    · contradiction
  | transfer k n =>
    simp only [next] at h
    split at h
    · rw [← (Prod.mk.inj (Option.some.inj h)).2]
      exact .inl rfl
    · contradiction
  | complete k =>
    simp only [next, Option.bind_eq_some_iff, Option.map_eq_some_iff, Prod.mk.injEq] at h
    obtain ⟨op, _, t, ht, _, rfl⟩ := h
    cases op with
    | read => contradiction
    | respond response =>
      rw [← Option.some.inj ht]
      exact .inl rfl
    | write done next =>
      simp only [completed, Option.ite_none_right_eq_some, Option.some.injEq] at ht
      rw [← ht.2]
      exact resume_looks env (s.without k) next
    | wait due next =>
      simp only [completed, Option.ite_none_right_eq_some, Option.some.injEq] at ht
      rw [← ht.2]
      exact resume_looks env (s.without k) next
  | fail k =>
    simp only [next, Option.map_eq_some_iff, Prod.mk.injEq] at h
    obtain ⟨op, _, _, rfl⟩ := h
    cases op <;> exact .inl rfl

theorem looks_lines (hc : ((system cfg).restrict StoresLines).Reachable c) :
    HasLines c.shared.dets ∧ ∀ i, ∀ l ∈ (c.locals i).looks, HasLines l.dets := by
  apply hc.invariant (I := fun c => HasLines c.shared.dets ∧
    ∀ i, ∀ l ∈ (c.locals i).looks, HasLines l.dets)
  · exact ⟨fun _ => .nil, fun _ l hl => absurd hl List.not_mem_nil⟩
  · rintro c label d _ ⟨hdets, hlooks⟩ ⟨hlabel, hstep⟩
    cases label with
    | thread j e =>
      obtain ⟨g, s, hnext, rfl⟩ := Threads.Program.system_thread hstep
      have hown := program_next hnext
      have hsame : g.dets = c.shared.dets := (next_env hown).1
      refine ⟨hsame ▸ hdets, fun i l hl => ?_⟩
      simp only [Function.update_apply] at hl
      split_ifs at hl with hij
      · rcases next_looks hown with h | h
        · exact hlooks j l (h ▸ hl)
        · rw [h, List.mem_append, List.mem_singleton] at hl
          rcases hl with hl | rfl
          · exact hlooks j l hl
          · exact hdets
      · exact hlooks i l hl
    | env e =>
      obtain ⟨g, hg, rfl⟩ := Threads.Program.system_env hstep
      refine ⟨?_, hlooks⟩
      show HasLines g.dets
      rw [program_env hg]
      cases e with
      | storeDets cam json =>
        intro other
        show ByteLine ((c.shared.dets.storeDets cam json).entry other).json
        rw [entry_storeDets]
        split_ifs
        · exact hlabel
        · exact hdets other
      | store cam jpeg => exact hdets
      | elapse ms => exact hdets

/-- A message carries what its camera's entry holds. -/
theorem json_of_onOffer {dets : SharedDets} {updates : List Char → ℕ} {camera : List Char}
    {m : SseMessage} (h : m ∈ onOffer dets updates camera) :
    ∃ cam, m.json = (dets.entry cam).json := by
  by_cases hcamera : camera = []
  · subst hcamera
    exact ⟨m.camera, by rw [(mem_newest.mp (mem_newest_of_onOffer_nil h)).2]⟩
  · rw [onOffer_named hcamera] at h
    exact ⟨camera, by rw [(mem_newest.mp h).2]⟩

theorem documents_lines {s : HttpSession} {looks : List Surroundings}
    (h : ∀ l ∈ looks, HasLines l.dets) : ∀ doc ∈ s.documents looks, ByteLine doc := by
  induction looks using List.reverseRecOn with
  | nil => exact fun doc hdoc => absurd hdoc List.not_mem_nil
  | append_singleton looks last ih =>
    intro doc hdoc
    rw [documents, List.map_append, List.map_singleton, sseSession_append, SseSession.tick_sent,
      List.flatten_append, List.map_append, List.mem_append] at hdoc
    rcases hdoc with hold | hnew
    · exact ih (fun l hl => h l (List.mem_append_left _ hl)) doc hold
    · simp only [List.flatten_cons, List.flatten_nil, List.append_nil, List.mem_map] at hnew
      obtain ⟨m, hm, rfl⟩ := hnew
      unfold SseSession.written at hm
      split_ifs at hm
      · exact absurd hm List.not_mem_nil
      · obtain ⟨cam, hjson⟩ := json_of_onOffer hm
        rw [hjson]
        exact h last (by simp) cam

/-- What is in a stream of such texts. -/
theorem map_byteChar_stream {docs : List (List Char)} (h : ∀ doc ∈ docs, ByteLine doc) :
    (StreamKind.sse.header ++ bytesOf (docs.flatMap dataLine)).map byteChar =
      sseHeader.toList ++ docs.flatMap dataLine := by
  have hheader : StreamKind.sse.header.map byteChar = sseHeader.toList :=
    map_byteChar_bytesOf (small_of_all (by decide +kernel))
  rw [List.map_append, hheader, map_byteChar_bytesOf]
  intro ch hch
  obtain ⟨doc, hdoc, hmem⟩ := List.mem_flatMap.mp hch
  rw [dataLine, List.mem_append, List.mem_append] at hmem
  rcases hmem with (hdata | hjson) | hend
  · exact small_of_all (by decide) ch hdata
  · exact (h doc hdoc).small ch hjson
  · exact small_of_all (by decide) ch hend

theorem Phase.sse_received {env : Surroundings} {s : HttpSession} (hphase : Phase cfg env s)
    (hkind : s.kind = some .sse) (hlines : ∀ doc ∈ s.documents s.looks, ByteLine doc) :
    let got := received readMessage ((s.sent.map byteChar).drop sseHeader.toList.length)
    s.documents s.looks.dropLast <+: got ∧ got <+: s.documents s.looks ∧
      ∀ due next, s.outstanding = [.wait due next] → got = s.documents s.looks := by
  intro got
  obtain ⟨hsent, hsettled⟩ := hphase.sent_between hkind
  have hread : ∀ doc ∈ s.documents s.looks, Readable dataLine readMessage doc :=
    fun doc hdoc => dataLine_readable (hlines doc hdoc).oneLine
  have hbefore := documents_dropLast s
  have hpromised := promised_eq hkind
  rw [body_sse] at hpromised
  rw [hpromised] at hsent
  have hchars := hsent.map byteChar
  rw [map_byteChar_stream hlines] at hchars
  have hfinished : s.documents s.looks.dropLast = [] ∨
      sseHeader.toList ++ (s.documents s.looks.dropLast).flatMap dataLine <+:
        s.sent.map byteChar := by
    by_cases hlooks : s.looks = []
    · exact .inl (by rw [hlooks]; rfl)
    · rw [settled_eq hkind hlooks, body_sse] at hsettled
      have hold := hsettled.map byteChar
      rw [map_byteChar_stream fun doc hdoc => hlines doc (hbefore.subset hdoc)] at hold
      exact .inr hold
  obtain ⟨hleast, hmost, hall⟩ :=
    received_between readMessage_stable hread hbefore hchars hfinished
  refine ⟨hleast, hmost, fun due next hwait => hall ?_⟩
  rw [hphase.sent_waiting hwait, hpromised, map_byteChar_stream hlines]

/-- The client of a detection stream gets whole documents only, those that the session had begun to
send before its last tick and perhaps some of the last tick's, and all of them when the session
waits for its timer. -/
theorem sse_client_decodes (hc : ((system cfg).restrict StoresLines).Reachable c) (i : ℕ)
    (hkind : (c.locals i).kind = some .sse) :
    let s := c.locals i
    let got := received readMessage ((s.sent.map byteChar).drop sseHeader.toList.length)
    s.documents s.looks.dropLast <+: got ∧ got <+: s.documents s.looks ∧
      ∀ due next, s.outstanding = [.wait due next] → got = s.documents s.looks :=
  (system_phase hc.of_restrict i).sse_received hkind (documents_lines ((looks_lines hc).2 i))

theorem getElem_add_mul_le {d : ℕ} {times : List ℕ}
    (h : times.IsChain fun a b => a + d ≤ b) {i j : ℕ} (hij : i ≤ j) (hj : j < times.length) :
    times[i] + (j - i) * d ≤ times[j] := by
  induction j, hij using Nat.le_induction with
  | base => simp
  | succ j hij ih =>
    have hnext := List.isChain_iff_getElem.mp h j hj
    have hcount : j + 1 - i = j - i + 1 := by omega
    have hprev := ih (by omega)
    rw [hcount, Nat.add_mul, Nat.one_mul]
    omega

theorem Phase.paced {env : Surroundings} {s : HttpSession} {kind : StreamKind}
    (h : Phase cfg env s) (hkind : s.kind = some kind) :
    s.looks.IsChain fun a b => a.now + interval kind.window cfg ≤ b.now := by
  cases h with
  | new hs => simp [hs] at hkind
  | reading hs => simp [hs, doRead, await] at hkind
  | answering _ _ hnone _ _ => simp [hnone] at hkind
  | streaming kind' op hs =>
    obtain rfl : kind' = kind := Option.some.inj (hs.begun.symm.trans hkind)
    exact hs.paced
  | ended _ _ _ _ _ hpaced => exact hpaced kind hkind

theorem fps_pos (cfg : ViewerServerConfig) : 0 < fps cfg := by
  unfold fps
  split_ifs <;> omega

/-- Only a rate above the window leaves no time between the ticks. -/
theorem interval_eq_zero_iff (kind : StreamKind) (cfg : ViewerServerConfig) :
    interval kind.window cfg = 0 ↔ kind.window < cfg.targetFps := by
  have hpos := fps_pos cfg
  have hwindow : 500 ≤ kind.window := by cases kind <;> decide
  rw [interval, Int.toNat_eq_zero]
  constructor
  · intro hle
    have hlt : kind.window < fps cfg := by
      by_contra hge
      have hone := Int.ediv_le_ediv hpos (not_lt.mp hge)
      rw [Int.ediv_self hpos.ne'] at hone
      omega
    unfold fps at hlt
    split_ifs at hlt <;> omega
  · intro hlt
    have hfps : fps cfg = cfg.targetFps := if_pos (by omega)
    rw [hfps, Int.ediv_eq_zero_of_lt (by omega) hlt]

/-- However late its writes and its timers complete, a stream has as much time between two of its
ticks as the ticks between them ask for. -/
theorem stream_paced (hc : (system cfg).Reachable c) (i : ℕ) {kind : StreamKind}
    (hkind : (c.locals i).kind = some kind) {m n : ℕ} (hmn : m ≤ n)
    (hn : n < (c.locals i).looks.length) :
    (c.locals i).looks[m].now + (n - m) * interval kind.window cfg ≤ (c.locals i).looks[n].now ∧
      (interval kind.window cfg = 0 ↔ kind.window < cfg.targetFps) := by
  refine ⟨?_, interval_eq_zero_iff kind cfg⟩
  have hchain := (system_phase hc i).paced hkind
  have htimes : ((c.locals i).looks.map Surroundings.now).IsChain
      fun a b => a + interval kind.window cfg ≤ b := List.isChain_map _ |>.mpr hchain
  have hspaced := getElem_add_mul_le htimes hmn (by simpa using hn)
  simpa only [List.getElem_map] using hspaced

/-- A client of a camera's stream: the header, a frame, and the first bytes of a second frame. -/
def streamRun : List (Threads.Label ℕ Event Change) :=
  [.thread 0 .run, .thread 0 (.request 0 "/stream?camera=a".toList 11 fun _ => none),
    .env (.store ['a'] ⟨1, [0xff, 0xd8]⟩), .thread 0 (.transfer 0 400), .thread 0 (.complete 0),
    .thread 0 (.transfer 0 30), .thread 0 (.transfer 0 400), .thread 0 (.complete 0),
    .env (.store ['a'] ⟨2, [0xff, 0xd9]⟩), .env (.elapse 66), .thread 0 (.complete 0),
    .thread 0 (.transfer 0 30)]

theorem streamRun_spec : ∃ c, exec (program {}).step start streamRun = some c ∧
    (c.locals 0).kind = some .mjpeg ∧ (c.locals 0).looks.length = 2 := by
  have hview : (exec (program {}).step start streamRun).map
      (fun c => ((c.locals 0).kind, (c.locals 0).looks.length)) = some (some .mjpeg, 2) := by
    decide +kernel
  obtain ⟨c, hrun, hc⟩ := Option.map_eq_some_iff.mp hview
  obtain ⟨hkind, hlooks⟩ := Prod.mk.inj hc
  exact ⟨c, hrun, hkind, hlooks⟩

theorem streamRun_paced : ∃ c, exec (program {}).step start streamRun = some c ∧
    ∃ h : 1 < (c.locals 0).looks.length,
      (c.locals 0).looks[0].now + (1 - 0) * interval StreamKind.mjpeg.window {} ≤
          (c.locals 0).looks[1].now ∧
        (interval StreamKind.mjpeg.window {} = 0 ↔ StreamKind.mjpeg.window < 15) := by
  obtain ⟨c, hrun, hkind, hlooks⟩ := streamRun_spec
  have hlt : 1 < (c.locals 0).looks.length := by omega
  exact ⟨c, hrun, hlt, stream_paced (reachable_of_exec hrun) 0 hkind (Nat.zero_le 1) hlt⟩

theorem streamRun_attended : ∃ c, exec (program {}).step start streamRun = some c ∧
    Attended c.shared (c.locals 0) := by
  obtain ⟨c, hrun, _⟩ := streamRun_spec
  exact ⟨c, hrun, (session_attended (reachable_of_exec hrun) 0).1⟩

theorem streamRun_decodes : ∃ c, exec (program {}).step start streamRun = some c ∧
    received readPart ((c.locals 0).sent.drop StreamKind.mjpeg.header.length) <+:
      (c.locals 0).frames (c.locals 0).looks := by
  obtain ⟨c, hrun, hkind, _⟩ := streamRun_spec
  exact ⟨c, hrun, (mjpeg_client_decodes (reachable_of_exec hrun) 0 hkind).2.1⟩

/-- A client of all detections, which gets the documents of two cameras at once. -/
def eventRun : List (Threads.Label ℕ Event Change) :=
  [.env (.storeDets ['a'] "\x7b\x7d".toList), .env (.storeDets ['b'] "\x7b\x7d".toList),
    .thread 0 .run, .thread 0 (.request 0 "/detections".toList 11 fun _ => none),
    .thread 0 (.transfer 0 400), .thread 0 (.complete 0), .thread 0 (.transfer 0 12)]

theorem eventRun_decodes : ∃ c, exec (program {}).step start eventRun = some c ∧
    received readMessage (((c.locals 0).sent.map byteChar).drop sseHeader.toList.length) <+:
      (c.locals 0).documents (c.locals 0).looks := by
  have hview : (exec (program {}).step start eventRun).map (fun c => (c.locals 0).kind) =
      some (some .sse) := by
    decide +kernel
  obtain ⟨c, hrun, hkind⟩ := Option.map_eq_some_iff.mp hview
  have hlines : ∀ label ∈ eventRun, ∀ u, StoresLines u label := by
    have hline : ByteLine ['\x7b', '\x7d'] := ⟨by simp [OneLine], small_of_all (by decide)⟩
    intro label hlabel u
    simp only [eventRun, List.mem_cons, List.not_mem_nil, or_false] at hlabel
    rcases hlabel with rfl | rfl | rfl | rfl | rfl | rfl | rfl
    · exact hline
    · exact hline
    all_goals trivial
  have hc : ((system {}).restrict StoresLines).Reachable c := path_restrict_of_exec hlines hrun
  exact ⟨c, hrun, (sse_client_decodes hc 0 hkind).2.1⟩

end HttpSession
end ForkliftSafety
