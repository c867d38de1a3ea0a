import ForkliftSafety.Infrastructure.SharedState
import ForkliftSafety.Library.Transition
import Mathlib.Data.List.Induction
import Mathlib.Data.List.Nodup

/-! The detection streams of `MjpegStreamServer`: a session without a camera next to the session of
each camera, all with their ticks at the same moments. -/
namespace ForkliftSafety
open Transition SharedDets

/-- What `sse_tick` writes, if anything, and the counter that the session keeps. -/
def sseTick (dets : SharedDets) (camera : List Char) (sseLastSeq : ℕ) : Option (List Char) × ℕ :=
  if camera = [] then
    let (payload, seq) := dets.latestDetsAll
    if payload ≠ [] ∧ seq ≠ sseLastSeq then (some payload, seq) else (none, sseLastSeq)
  else
    let (json, seq) := dets.latestDetsFor camera
    if json ≠ [] ∧ seq ≠ sseLastSeq then (some (dataLine json), seq) else (none, sseLastSeq)

/-- One `data:` line, with the camera and the number of the update that it carries. -/
structure SseMessage where
  camera : List Char
  update : ℕ
  json : List Char
  deriving DecidableEq, Repr

def SseMessage.source (m : SseMessage) : List Char × ℕ := (m.camera, m.update)

def messagesFor (c : List Char) (messages : List SseMessage) : List SseMessage :=
  messages.filter fun m => m.camera = c

section Offer
variable (dets : SharedDets) (updates : List Char → ℕ)

/-- The newest update of a camera, where `updates` counts those of each camera. -/
def newest (c : List Char) : List SseMessage :=
  if (dets.entry c).json = [] then [] else [⟨c, updates c, (dets.entry c).json⟩]

/-- The entries that `latest_dets_all` does not skip. -/
def shown (entries : List (List Char × DetEntry)) : List (List Char × DetEntry) :=
  entries.filter fun e => !e.2.json.isEmpty

/-- The messages of the text that a session can write. -/
def onOffer (camera : List Char) : List SseMessage :=
  if camera = [] then (shown dets.latestDets).map fun e => ⟨e.1, updates e.1, e.2.json⟩
  else newest dets updates camera

/-- The counter that a session looks at. -/
def counterOf (camera : List Char) : ℕ :=
  if camera = [] then dets.globalDetSeq else (dets.entry camera).seq

variable {dets updates}

theorem counterOf_nil : counterOf dets [] = dets.globalDetSeq := if_pos rfl

theorem counterOf_named {c : List Char} (h : c ≠ []) : counterOf dets c = (dets.entry c).seq :=
  if_neg h

theorem onOffer_named {c : List Char} (h : c ≠ []) :
    onOffer dets updates c = newest dets updates c := if_neg h

theorem allLoop_eq (out : List Char) (entries : List (List Char × DetEntry)) :
    allLoop out entries = out ++ (shown entries).flatMap fun e => dataLine e.2.json := by
  induction entries generalizing out with
  | nil => simp [allLoop, shown]
  | cons head rest ih =>
    obtain ⟨cam, e⟩ := head
    rw [allLoop, shown]
    by_cases h : e.json.isEmpty = true
    · rw [if_pos h, ih, List.filter_cons_of_neg (by simp [h]), shown]
    · rw [if_neg h, ih, List.filter_cons_of_pos (by simp [h]), List.flatMap_cons,
        List.append_assoc, shown]

theorem dataLine_ne_nil (json : List Char) : dataLine json ≠ [] :=
  List.append_ne_nil_of_right_ne_nil _ (by decide)

theorem flatMap_dataLine_eq_nil_iff (entries : List (List Char × DetEntry)) :
    (entries.flatMap fun e => dataLine e.2.json) = [] ↔ entries = [] := by
  cases entries with
  | nil => simp
  | cons e entries => simp [dataLine_ne_nil]

/-- A tick writes the messages on offer when there are any and the counter has changed. -/
theorem sseTick_eq (updates : List Char → ℕ) (camera : List Char) (sseLastSeq : ℕ) :
    sseTick dets camera sseLastSeq =
      if onOffer dets updates camera ≠ [] ∧ counterOf dets camera ≠ sseLastSeq then
        (some ((onOffer dets updates camera).flatMap fun m => dataLine m.json),
          counterOf dets camera)
      else (none, sseLastSeq) := by
  unfold sseTick onOffer counterOf
  by_cases hcamera : camera = []
  · simp only [if_pos hcamera, latestDetsAll, allLoop_eq, List.nil_append, ne_eq,
      flatMap_dataLine_eq_nil_iff, List.map_eq_nil_iff, List.flatMap_map]
  · simp only [if_neg hcamera, latestDetsFor_eq, newest]
    by_cases hjson : (dets.entry camera).json = []
    · simp [hjson]
    · simp [hjson]

/-- Each camera is on offer once, with its newest update. -/
theorem messagesFor_onOffer_nil (c : List Char) :
    messagesFor c (onOffer dets updates []) = newest dets updates c := by
  have hcommute : (shown dets.latestDets).filter (fun e => e.1 = c) =
      shown (dets.latestDets.filter fun e => e.1 = c) := List.filter_comm _ _ _
  have hmap : messagesFor c (onOffer dets updates []) =
      ((shown dets.latestDets).filter fun e => e.1 = c).map
        fun e => ⟨e.1, updates e.1, e.2.json⟩ := by
    rw [onOffer, if_pos rfl, messagesFor, List.filter_map]
    rfl
  rw [hmap, hcommute, filter_key_eq dets.uniqueKeys, newest, entry]
  cases dets.latestDets.lookup c with
  | none => rfl
  | some e =>
    by_cases hjson : e.json = []
    · simp [shown, hjson]
    · simp [shown, hjson]

theorem mem_newest {c : List Char} {m : SseMessage} :
    m ∈ newest dets updates c ↔
      (dets.entry c).json ≠ [] ∧ m = ⟨c, updates c, (dets.entry c).json⟩ := by
  unfold newest
  split_ifs with hjson <;> simp [hjson]

theorem messagesFor_newest (c : List Char) :
    messagesFor c (newest dets updates c) = newest dets updates c := by
  rw [messagesFor, List.filter_eq_self]
  intro m hm
  rw [(mem_newest.mp hm).2]
  exact decide_eq_true rfl

theorem mem_newest_of_onOffer_nil {m : SseMessage} (h : m ∈ onOffer dets updates []) :
    m ∈ newest dets updates m.camera := by
  rw [← messagesFor_onOffer_nil, messagesFor, List.mem_filter]
  exact ⟨h, decide_eq_true rfl⟩

end Offer

/-- A session, with the messages it wrote at each of its ticks. -/
structure SseSession where
  sseLastSeq : ℕ := 0
  sent : List (List SseMessage) := []

namespace SseSession

def tick (dets : SharedDets) (updates : List Char → ℕ) (camera : List Char) (s : SseSession) :
    SseSession :=
  let (text, seq) := sseTick dets camera s.sseLastSeq
  { sseLastSeq := seq,
    sent := s.sent ++ [if text.isSome then onOffer dets updates camera else []] }

def sources (s : SseSession) : List (List Char × ℕ) := s.sent.flatten.map SseMessage.source

/-- What the session writes now. -/
def written (dets : SharedDets) (updates : List Char → ℕ) (camera : List Char) (s : SseSession) :
    List SseMessage :=
  if counterOf dets camera = s.sseLastSeq then [] else onOffer dets updates camera

variable (dets : SharedDets) (updates : List Char → ℕ) (camera : List Char) (s : SseSession)

theorem tick_sent :
    (s.tick dets updates camera).sent = s.sent ++ [s.written dets updates camera] := by
  unfold tick written
  rw [sseTick_eq updates]
  by_cases hoffer : onOffer dets updates camera = [] <;>
    by_cases hseq : counterOf dets camera = s.sseLastSeq <;> simp [hoffer, hseq]

/-- A tick with something on offer takes the counter over, whether it writes or not. -/
theorem tick_sseLastSeq :
    (s.tick dets updates camera).sseLastSeq =
      if onOffer dets updates camera = [] then s.sseLastSeq else counterOf dets camera := by
  unfold tick
  rw [sseTick_eq updates]
  by_cases hoffer : onOffer dets updates camera = [] <;>
    by_cases hseq : counterOf dets camera = s.sseLastSeq <;> simp [hoffer, hseq]

theorem tick_sources :
    (s.tick dets updates camera).sources =
      s.sources ++ (s.written dets updates camera).map SseMessage.source := by
  simp [sources, tick_sent]

/-- Of one camera, the session of all cameras and its own session write the newest update, each by
its counter. -/
theorem messagesFor_written {camera c : List Char} (h : camera = [] ∨ camera = c) :
    messagesFor c (s.written dets updates camera) =
      if counterOf dets camera = s.sseLastSeq then [] else newest dets updates c := by
  have hoffer : messagesFor c (onOffer dets updates camera) = newest dets updates c := by
    by_cases hcamera : camera = []
    · rw [hcamera, messagesFor_onOffer_nil]
    · rw [onOffer_named hcamera, h.resolve_left hcamera, messagesFor_newest]
  rw [written, apply_ite (messagesFor c), hoffer]
  rfl

/-- No update stands twice in what a session writes at one tick. -/
theorem written_sources_nodup :
    ((s.written dets updates camera).map SseMessage.source).Nodup := by
  unfold written onOffer
  split_ifs
  · simp
  · have hkeys : ((shown dets.latestDets).map Prod.fst).Nodup :=
      dets.uniqueKeys.sublist (List.filter_sublist.map _)
    have hinj : Function.Injective fun c => (c, updates c) := fun c d h => (Prod.mk.inj h).1
    simpa [List.map_map, Function.comp_def, SseMessage.source] using List.Nodup.map hinj hkeys
  · unfold newest
    split_ifs <;> simp

/-- The session of a named camera writes that camera's newest update only, and only when its counter
has changed. -/
theorem of_mem_written {c : List Char} (hc : c ≠ []) {p : List Char × ℕ}
    (h : p ∈ (s.written dets updates c).map SseMessage.source) :
    p = (c, updates c) ∧ (dets.entry c).seq ≠ s.sseLastSeq ∧ onOffer dets updates c ≠ [] := by
  obtain ⟨m, hm, rfl⟩ := List.mem_map.mp h
  unfold written at hm
  split_ifs at hm with hseq
  · simp at hm
  · obtain ⟨_, rfl⟩ := mem_newest.mp (onOffer_named hc ▸ hm)
    exact ⟨rfl, counterOf_named hc ▸ hseq, List.ne_nil_of_mem hm⟩

end SseSession

inductive DetAction where
  | storeDets (cam json : List Char)
  | tick
  deriving DecidableEq, Repr

/-- The detections with the number of updates of each camera, and one session for each camera
parameter. The empty parameter asks for all cameras. -/
structure DetStreams where
  dets : SharedDets := {}
  updates : List Char → ℕ := fun _ => 0
  sessions : List Char → SseSession := fun _ => {}

namespace DetStreams

def next (s : DetStreams) : DetAction → DetStreams
  | .storeDets cam json =>
    { s with dets := s.dets.storeDets cam json,
             updates := Function.update s.updates cam (s.updates cam + 1) }
  | .tick => { s with sessions := fun c => (s.sessions c).tick s.dets s.updates c }

def system : LTS DetStreams DetAction := LTS.ofNext {} fun s a => some (s.next a)

/-- The session without a camera, read for one camera, and the session of that camera write the
same at each tick, and no session gets an update twice. -/
structure InAgreement (s : DetStreams) : Prop where
  agree : ∀ c, (s.sessions []).sent.map (messagesFor c) = (s.sessions c).sent.map (messagesFor c)
  once : ∀ c, (s.sessions c).sources.Nodup

/-- The counter of all cameras is new to its session exactly when the counter of each camera is new
to its own. A camera without a name has no session of its own; for it, its newest update must be
new. -/
structure InStep (s : DetStreams) : Prop where
  together : ∀ c, c ≠ [] → (s.dets.entry c).json ≠ [] →
    (s.dets.globalDetSeq ≠ (s.sessions []).sseLastSeq ↔
      (s.dets.entry c).seq ≠ (s.sessions c).sseLastSeq)
  unnamed : (s.dets.entry []).json ≠ [] → s.dets.globalDetSeq ≠ (s.sessions []).sseLastSeq →
    ([], s.updates []) ∉ (s.sessions []).sources

/-- The session of a named camera has nothing newer than the camera, and once it has the newest
update it has the counter of that update. -/
structure Own (s : DetStreams) (c : List Char) : Prop where
  upTo : ∀ n, (c, n) ∈ (s.sessions c).sources → n ≤ s.updates c ∧
    (n = s.updates c → (s.dets.entry c).seq = (s.sessions c).sseLastSeq)
  once : (s.sessions c).sources.Nodup

theorem Own.storeDets {s : DetStreams} {c : List Char} (h : s.Own c) (cam json : List Char) :
    (s.next (.storeDets cam json)).Own c := by
  refine ⟨fun n hn => ?_, h.once⟩
  obtain ⟨hle, hseq⟩ := h.upTo n hn
  simp only [next, entry_storeDets, Function.update_apply]
  by_cases hc : c = cam
  · subst hc
    simp only [if_true]
    omega
  · simp only [if_neg hc]
    exact ⟨hle, hseq⟩

theorem Own.tick {s : DetStreams} {c : List Char} (hc : c ≠ []) (h : s.Own c) :
    (s.next .tick).Own c := by
  constructor
  · intro n hn
    simp only [next, SseSession.tick_sources, List.mem_append] at hn
    simp only [next, SseSession.tick_sseLastSeq, counterOf_named hc]
    rcases hn with hold | hnew
    · obtain ⟨hle, hseq⟩ := h.upTo n hold
      refine ⟨hle, fun heq => ?_⟩
      split_ifs
      · exact hseq heq
      · rfl
    · obtain ⟨hsource, _, hoffer⟩ := SseSession.of_mem_written _ _ _ hc hnew
      rw [if_neg hoffer]
      exact ⟨Nat.le_of_eq (Prod.mk.inj hsource).2, fun _ => rfl⟩
  · simp only [next, SseSession.tick_sources]
    rw [List.nodup_append]
    refine ⟨h.once, SseSession.written_sources_nodup _ _ _ _, ?_⟩
    rintro p hold q hnew rfl
    obtain ⟨rfl, hseq, _⟩ := SseSession.of_mem_written _ _ _ hc hnew
    exact hseq ((h.upTo _ hold).2 rfl)

theorem own_of_reachable {s : DetStreams} (h : system.Reachable s) {c : List Char} (hc : c ≠ []) :
    s.Own c := by
  apply h.invariant (I := fun s => s.Own c)
  · exact ⟨fun n hn => by simp [SseSession.sources, system, LTS.ofNext] at hn, List.nodup_nil⟩
  · intro s a t _ hs hstep
    obtain rfl : s.next a = t := Option.some.inj hstep
    cases a with
    | storeDets cam json => exact hs.storeDets cam json
    | tick => exact hs.tick hc

/-- An update that the session of all cameras has written of a named camera, the session of that
camera has written too. -/
theorem InAgreement.mem_sources {s : DetStreams} (h : s.InAgreement) {c : List Char} {n : ℕ}
    (hn : (c, n) ∈ (s.sessions []).sources) : (c, n) ∈ (s.sessions c).sources := by
  obtain ⟨m, hm, hmn⟩ := List.mem_map.mp hn
  obtain ⟨messages, hmessages, hmem⟩ := List.mem_flatten.mp hm
  have hcamera : m.camera = c := congrArg Prod.fst hmn
  have hfor : messagesFor c messages ∈ (s.sessions c).sent.map (messagesFor c) :=
    h.agree c ▸ List.mem_map_of_mem hmessages
  obtain ⟨own, hown, heq⟩ := List.mem_map.mp hfor
  have hmfor : m ∈ messagesFor c own := by
    rw [heq, messagesFor, List.mem_filter]
    exact ⟨hmem, by simpa using hcamera⟩
  have hmown : m ∈ (s.sessions c).sent.flatten :=
    List.mem_flatten.mpr ⟨own, hown, List.mem_of_mem_filter hmfor⟩
  exact List.mem_map.mpr ⟨m, hmown, hmn⟩

/-- The sessions write the same of a camera at the next tick. -/
theorem tick_agree_iff {s : DetStreams} (h : s.InAgreement) :
    (∀ c, ((s.next .tick).sessions []).sent.map (messagesFor c) =
        ((s.next .tick).sessions c).sent.map (messagesFor c)) ↔
      ∀ c, c ≠ [] → (s.dets.entry c).json ≠ [] →
        (s.dets.globalDetSeq ≠ (s.sessions []).sseLastSeq ↔
          (s.dets.entry c).seq ≠ (s.sessions c).sseLastSeq) := by
  apply forall_congr'
  intro c
  simp only [next, SseSession.tick_sent, List.map_append, h.agree c, List.map_cons, List.map_nil,
    List.append_cancel_left_eq, List.cons.injEq, and_true,
    SseSession.messagesFor_written _ _ _ (.inl rfl : [] = [] ∨ [] = c),
    SseSession.messagesFor_written _ _ _ (.inr rfl : c = [] ∨ c = c)]
  by_cases hc : c = []
  · simp [hc]
  · rw [counterOf_nil, counterOf_named hc]
    by_cases hjson : (s.dets.entry c).json = []
    · simp [newest, hjson]
    · have hnewest : newest s.dets s.updates c ≠ [] := by simp [newest, hjson]
      by_cases hglobal : s.dets.globalDetSeq = (s.sessions []).sseLastSeq <;>
        by_cases hseq : (s.dets.entry c).seq = (s.sessions c).sseLastSeq <;>
        simp [hc, hjson, hglobal, hseq, hnewest, hnewest.symm]

/-- While the counters are in step, the session of all cameras writes nothing twice. -/
theorem InStep.fresh {s : DetStreams} (hstep : s.InStep) (hs : system.Reachable s)
    (h : s.InAgreement) {m : SseMessage} (hm : m ∈ (s.sessions []).written s.dets s.updates []) :
    m.source ∉ (s.sessions []).sources := by
  intro hold
  unfold SseSession.written at hm
  rw [counterOf_nil] at hm
  split_ifs at hm with hglobal
  · simp at hm
  · obtain ⟨hjson, hm⟩ := mem_newest.mp (mem_newest_of_onOffer_nil hm)
    have hsource : m.source = (m.camera, s.updates m.camera) := by rw [hm]; rfl
    rw [hsource] at hold
    by_cases hcamera : m.camera = []
    · rw [hcamera] at hold hjson
      exact hstep.unnamed hjson hglobal hold
    · -- The camera's own session has the update too, so its counter is not new to that session.
      have hseq := ((own_of_reachable hs hcamera).upTo _ (h.mem_sources hold)).2 rfl
      exact (hstep.together _ hcamera hjson).mp hglobal hseq

/-- A tick keeps reachable agreement exactly when it finds the counters in step. -/
theorem tick_inAgreement_iff {s : DetStreams} (hs : system.Reachable s) (h : s.InAgreement) :
    (s.next .tick).InAgreement ↔ s.InStep := by
  constructor
  · intro ht
    refine ⟨(tick_agree_iff h).mp ht.agree, fun hjson hglobal hold => ?_⟩
    have honce := ht.once []
    simp only [next, SseSession.tick_sources] at honce
    have hmem : (⟨[], s.updates [], (s.dets.entry []).json⟩ : SseMessage) ∈
        (s.sessions []).written s.dets s.updates [] := by
      apply List.mem_of_mem_filter
      rw [← messagesFor, SseSession.messagesFor_written _ _ _ (.inl rfl), counterOf_nil,
        if_neg hglobal]
      exact mem_newest.mpr ⟨hjson, rfl⟩
    exact (List.disjoint_of_nodup_append honce) hold (List.mem_map.mpr ⟨_, hmem, rfl⟩)
  · intro hstep
    refine ⟨(tick_agree_iff h).mpr hstep.together, fun c => ?_⟩
    by_cases hc : c = []
    · subst hc
      simp only [next, SseSession.tick_sources]
      refine (h.once []).append (SseSession.written_sources_nodup _ _ _ _) ?_
      intro p hold hnew
      obtain ⟨m, hm, rfl⟩ := List.mem_map.mp hnew
      exact hstep.fresh hs h hm hold
    · exact (own_of_reachable (hs.step (a := .tick) rfl) hc).once

end DetStreams

/-- Counted up `n` times, a counter of 64 bits shows another value. -/
def Moves (n : ℕ) : Prop := ¬ 2 ^ 64 ∣ n

instance (n : ℕ) : Decidable (Moves n) := inferInstanceAs (Decidable (¬ _))

/-- What the updates and ticks of a run come to: the texts that are stored, and how many updates
came, of each camera and of any, since the last tick that found a text of it and news. -/
structure Schedule where
  dets : SharedDets := .empty
  unseen : List Char → ℕ := fun _ => 0
  unseenAny : ℕ := 0

namespace Schedule

/-- There is a text of some camera, and there were updates. -/
def News (S : Schedule) : Prop := shown S.dets.latestDets ≠ [] ∧ Moves S.unseenAny

instance (S : Schedule) : Decidable S.News := inferInstanceAs (Decidable (_ ∧ _))

def next (S : Schedule) : DetAction → Schedule
  | .storeDets cam json =>
    { dets := S.dets.storeDets cam json,
      unseen := Function.update S.unseen cam (S.unseen cam + 1),
      unseenAny := S.unseenAny + 1 }
  | .tick =>
    if S.News then
      { S with unseen := fun c => if (S.dets.entry c).json = [] then S.unseen c else 0,
               unseenAny := 0 }
    else S

/-- Of the cameras of which there is a text, either every one was updated since the last tick with
news, or none. -/
structure AllOrNone (S : Schedule) : Prop where
  named : ∀ c, c ≠ [] → (S.dets.entry c).json ≠ [] → (Moves S.unseenAny ↔ Moves (S.unseen c))
  unnamed : (S.dets.entry []).json ≠ [] → Moves S.unseenAny → S.unseen [] ≠ 0

/-- Every tick of a run finds that all cameras were updated, or none. -/
def Together (run : List DetAction) : Prop :=
  Along next (fun S a => a = .tick → S.AllOrNone) {} run

/-- How the counts of updates go with the counters and the messages of the sessions. -/
structure Tracks (S : Schedule) (s : DetStreams) : Prop where
  dets : S.dets = s.dets
  any : s.dets.globalDetSeq = ((s.sessions []).sseLastSeq + S.unseenAny) % 2 ^ 64
  own : ∀ c, c ≠ [] → (s.dets.entry c).seq = ((s.sessions c).sseLastSeq + S.unseen c) % 2 ^ 64
  small : ∀ c, (s.sessions c).sseLastSeq < 2 ^ 64
  upTo : ∀ n, ([], n) ∈ (s.sessions []).sources →
    n ≤ s.updates [] ∧ (n = s.updates [] → S.unseen [] = 0)
  seen : (s.dets.entry []).json ≠ [] → S.unseen [] = 0 →
    ([], s.updates []) ∈ (s.sessions []).sources

theorem ne_iff_moves {counter last n : ℕ} (h : counter = (last + n) % 2 ^ 64)
    (hsmall : last < 2 ^ 64) : counter ≠ last ↔ Moves n := by
  unfold Moves
  omega

theorem counted_of_not_moves {counter last n : ℕ} (h : counter = (last + n) % 2 ^ 64)
    (hn : ¬ Moves n) : counter = (counter + n) % 2 ^ 64 := by
  unfold Moves at hn
  omega

theorem counted_zero {counter last n : ℕ} (h : counter = (last + n) % 2 ^ 64) :
    counter = (counter + 0) % 2 ^ 64 := by
  omega

variable {S : Schedule} {s : DetStreams}

theorem Tracks.any_moves_iff (h : S.Tracks s) :
    s.dets.globalDetSeq ≠ (s.sessions []).sseLastSeq ↔ Moves S.unseenAny :=
  ne_iff_moves h.any (h.small [])

/-- The schedule tells whether the counters are in step. -/
theorem Tracks.allOrNone_iff (h : S.Tracks s) : S.AllOrNone ↔ s.InStep := by
  have hown : ∀ c, c ≠ [] →
      ((s.dets.entry c).seq ≠ (s.sessions c).sseLastSeq ↔ Moves (S.unseen c)) :=
    fun c hc => ne_iff_moves (h.own c hc) (h.small c)
  constructor
  · rintro ⟨hnamed, hunnamed⟩
    rw [h.dets] at hnamed hunnamed
    refine ⟨fun c hc hjson => ?_, fun hjson hnew hold => ?_⟩
    · rw [h.any_moves_iff, hown c hc]
      exact hnamed c hc hjson
    · exact hunnamed hjson (h.any_moves_iff.mp hnew) ((h.upTo _ hold).2 rfl)
  · rintro ⟨htogether, hunnamed⟩
    refine ⟨fun c hc hjson => ?_, fun hjson hmoves hzero => ?_⟩
    · rw [h.dets] at hjson
      rw [← h.any_moves_iff, ← hown c hc]
      exact htogether c hc hjson
    · rw [h.dets] at hjson
      exact hunnamed hjson (h.any_moves_iff.mpr hmoves) (h.seen hjson hzero)

theorem Tracks.storeDets (h : S.Tracks s) (cam json : List Char) :
    (S.next (.storeDets cam json)).Tracks (s.next (.storeDets cam json)) := by
  refine ⟨?_, ?_, fun c hc => ?_, h.small, fun n hn => ?_, fun hjson hzero => ?_⟩
  · simp only [next, DetStreams.next, h.dets]
  · have hany := h.any
    simp only [next, DetStreams.next, SharedDets.storeDets, incrementSeq]
    omega
  · have hown := h.own c hc
    simp only [next, DetStreams.next, entry_storeDets, Function.update_apply, incrementSeq]
    by_cases hcam : c = cam
    · subst hcam
      simp only [if_true]
      omega
    · simpa only [if_neg hcam] using hown
  · obtain ⟨hle, hlast⟩ := h.upTo n hn
    simp only [next, DetStreams.next, Function.update_apply]
    by_cases hcam : [] = cam
    · subst hcam
      simp only [if_true]
      omega
    · simpa only [if_neg hcam] using ⟨hle, hlast⟩
  · simp only [next, DetStreams.next, entry_storeDets, Function.update_apply] at hjson hzero ⊢
    by_cases hcam : [] = cam
    · subst hcam
      simp at hzero
    · simp only [if_neg hcam] at hjson hzero ⊢
      exact h.seen hjson hzero

/-- A text of a camera is on offer to the session of all cameras. -/
theorem shown_ne_nil {dets : SharedDets} {c : List Char} (hjson : (dets.entry c).json ≠ []) :
    shown dets.latestDets ≠ [] := by
  intro hnil
  have hoffer : onOffer dets (fun _ => 0) [] = [] := by
    rw [onOffer, if_pos rfl, hnil, List.map_nil]
  have hnewest : messagesFor c (onOffer dets (fun _ => 0) []) = newest dets (fun _ => 0) c :=
    messagesFor_onOffer_nil c
  rw [hoffer, newest, if_neg hjson] at hnewest
  contradiction

theorem onOffer_nil_iff (dets : SharedDets) (updates : List Char → ℕ) :
    onOffer dets updates [] = [] ↔ shown dets.latestDets = [] := by
  rw [onOffer, if_pos rfl, List.map_eq_nil_iff]

/-- A tick that finds no news leaves the counts as they are. -/
theorem next_tick_quiet (hany : ¬ Moves S.unseenAny) : S.next .tick = S :=
  if_neg fun hnews => hany hnews.2

theorem Tracks.unseen_kept (h : S.Tracks s) {c : List Char} (hjson : (s.dets.entry c).json = []) :
    (S.next .tick).unseen c = S.unseen c := by
  simp only [next, h.dets]
  split_ifs
  · simp [hjson]
  · rfl

theorem Tracks.unseen_zero (h : S.Tracks s) {c : List Char} (hjson : (s.dets.entry c).json ≠ [])
    (hany : Moves S.unseenAny) : (S.next .tick).unseen c = 0 := by
  have hnews : S.News := ⟨h.dets ▸ shown_ne_nil hjson, hany⟩
  simp only [next, if_pos hnews, h.dets, if_neg hjson]

theorem Tracks.tick_any (h : S.Tracks s) :
    (s.next .tick).dets.globalDetSeq =
      (((s.next .tick).sessions []).sseLastSeq + (S.next .tick).unseenAny) % 2 ^ 64 := by
  simp only [DetStreams.next, SseSession.tick_sseLastSeq, onOffer_nil_iff, counterOf_nil]
  by_cases hshown : shown s.dets.latestDets = []
  · have hsame : S.next .tick = S := if_neg fun hnews => hnews.1 (h.dets ▸ hshown)
    rw [if_pos hshown, hsame]
    exact h.any
  · rw [if_neg hshown]
    by_cases hany : Moves S.unseenAny
    · have hnews : S.News := ⟨h.dets ▸ hshown, hany⟩
      have hzero : (S.next .tick).unseenAny = 0 := by simp only [next, if_pos hnews]
      rw [hzero]
      exact counted_zero h.any
    · rw [next_tick_quiet hany]
      exact counted_of_not_moves h.any hany

/-- Where the counters are in step, the session of a camera has no news when no camera has. -/
theorem Tracks.tick_own (h : S.Tracks s) (hstep : s.InStep) {c : List Char} (hc : c ≠ []) :
    ((s.next .tick).dets.entry c).seq =
      (((s.next .tick).sessions c).sseLastSeq + (S.next .tick).unseen c) % 2 ^ 64 := by
  simp only [DetStreams.next, SseSession.tick_sseLastSeq, onOffer_named hc, counterOf_named hc]
  by_cases hjson : (s.dets.entry c).json = []
  · rw [if_pos (by simp [newest, hjson]), h.unseen_kept hjson]
    exact h.own c hc
  · rw [if_neg (by simp [newest, hjson])]
    by_cases hany : Moves S.unseenAny
    · rw [h.unseen_zero hjson hany]
      exact counted_zero (h.own c hc)
    · have hnone : ¬ Moves (S.unseen c) := by
        rw [← (h.allOrNone_iff.mpr hstep).named c hc (h.dets ▸ hjson)]
        exact hany
      rw [next_tick_quiet hany]
      exact counted_of_not_moves (h.own c hc) hnone

theorem Tracks.tick_small (h : S.Tracks s) (c : List Char) :
    ((s.next .tick).sessions c).sseLastSeq < 2 ^ 64 := by
  simp only [DetStreams.next, SseSession.tick_sseLastSeq]
  split_ifs
  · exact h.small c
  · by_cases hc : c = []
    · rw [hc, counterOf_nil, h.any]
      exact Nat.mod_lt _ (by decide)
    · rw [counterOf_named hc, h.own c hc]
      exact Nat.mod_lt _ (by decide)

theorem Tracks.tick_upTo (h : S.Tracks s) {n : ℕ}
    (hn : ([], n) ∈ ((s.next .tick).sessions []).sources) :
    n ≤ s.updates [] ∧ (n = s.updates [] → (S.next .tick).unseen [] = 0) := by
  simp only [DetStreams.next, SseSession.tick_sources, List.mem_append] at hn
  rcases hn with hold | hnew
  · obtain ⟨hle, hlast⟩ := h.upTo n hold
    refine ⟨hle, fun hn => ?_⟩
    by_cases hjson : (s.dets.entry []).json = []
    · rw [h.unseen_kept hjson]
      exact hlast hn
    · by_cases hany : Moves S.unseenAny
      · exact h.unseen_zero hjson hany
      · rw [next_tick_quiet hany]
        exact hlast hn
  · obtain ⟨m, hm, hsource⟩ := List.mem_map.mp hnew
    unfold SseSession.written at hm
    rw [counterOf_nil] at hm
    split_ifs at hm with hcounter
    · simp at hm
    · obtain ⟨hjson, hm⟩ := mem_newest.mp (mem_newest_of_onOffer_nil hm)
      obtain ⟨hcamera, hupdate⟩ := Prod.mk.inj hsource
      rw [hcamera] at hjson hm
      rw [hm] at hupdate
      exact ⟨Nat.le_of_eq hupdate.symm,
        fun _ => h.unseen_zero hjson (h.any_moves_iff.mp hcounter)⟩

theorem Tracks.tick_seen (h : S.Tracks s) (hjson : (s.dets.entry []).json ≠ [])
    (hzero : (S.next .tick).unseen [] = 0) :
    ([], s.updates []) ∈ ((s.next .tick).sessions []).sources := by
  simp only [DetStreams.next, SseSession.tick_sources, List.mem_append]
  by_cases hany : Moves S.unseenAny
  · have hcounter := h.any_moves_iff.mpr hany
    refine .inr (List.mem_map.mpr ⟨⟨[], s.updates [], (s.dets.entry []).json⟩, ?_, rfl⟩)
    apply List.mem_of_mem_filter (p := fun m => m.camera = [])
    rw [← messagesFor, SseSession.messagesFor_written _ _ _ (.inl rfl), counterOf_nil,
      if_neg hcounter]
    exact mem_newest.mpr ⟨hjson, rfl⟩
  · rw [next_tick_quiet hany] at hzero
    exact .inl (h.seen hjson hzero)

theorem Tracks.tick (h : S.Tracks s) (hstep : s.InStep) :
    (S.next .tick).Tracks (s.next .tick) where
  dets := by
    simp only [next, DetStreams.next]
    split_ifs <;> exact h.dets
  any := h.tick_any
  own _ hc := h.tick_own hstep hc
  small c := h.tick_small c
  upTo _ hn := h.tick_upTo hn
  seen hjson hzero := h.tick_seen hjson hzero

theorem tracks_start : Tracks {} {} where
  dets := rfl
  any := rfl
  own _ _ := rfl
  small _ := Nat.two_pow_pos 64
  upTo _ h := absurd h List.not_mem_nil
  seen h _ := absurd rfl h

end Schedule

namespace DetStreams

/-- The state after a run. -/
def after (run : List DetAction) : DetStreams := run.foldl next {}

theorem after_concat (run : List DetAction) (a : DetAction) :
    after (run ++ [a]) = (after run).next a := List.foldl_concat ..

theorem after_reachable (run : List DetAction) : system.Reachable (after run) := by
  induction run using List.reverseRecOn with
  | nil => exact LTS.Reachable.start
  | append_singleton run a ih => exact after_concat run a ▸ ih.step (a := a) rfl

/-- What agrees after a step agreed before. -/
theorem InAgreement.before {s : DetStreams} {a : DetAction} (h : (s.next a).InAgreement) :
    s.InAgreement := by
  cases a with
  | storeDets cam json => exact ⟨h.agree, h.once⟩
  | tick =>
    constructor
    · intro c
      have hagree := h.agree c
      simp only [next, SseSession.tick_sent, List.map_append] at hagree
      exact (List.append_inj' hagree rfl).1
    · intro c
      have honce := h.once c
      simp only [next, SseSession.tick_sources] at honce
      exact honce.of_append_left

/-- As long as the sessions agree, the schedule tells their counters. -/
theorem InAgreement.tracks {run : List DetAction} (h : (after run).InAgreement) :
    Schedule.Tracks (run.foldl Schedule.next {}) (after run) := by
  induction run using List.reverseRecOn with
  | nil => exact Schedule.tracks_start
  | append_singleton run a ih =>
    rw [after_concat] at h
    rw [after_concat, List.foldl_concat]
    have htracks := ih h.before
    cases a with
    | storeDets cam json => exact htracks.storeDets cam json
    | tick => exact htracks.tick ((tick_inAgreement_iff (after_reachable run) h.before).mp h)

/-- The sessions agree, and repeat nothing, in exactly the runs in which every camera is updated
between two ticks with news, or none. -/
theorem detections_agree_iff (run : List DetAction) :
    (after run).InAgreement ↔ Schedule.Together run := by
  induction run using List.reverseRecOn with
  | nil => exact iff_of_true ⟨fun _ => rfl, fun _ => List.nodup_nil⟩ (along_nil _)
  | append_singleton run a ih =>
    rw [after_concat, Schedule.Together, along_concat_iff, ← Schedule.Together, ← ih]
    have hlast : (after run).InAgreement → (((after run).next a).InAgreement ↔
        (a = .tick → (run.foldl Schedule.next {}).AllOrNone)) := by
      intro h
      cases a with
      | storeDets cam json =>
        simp only [reduceCtorEq, false_implies, iff_true]
        exact ⟨h.agree, h.once⟩
      | tick =>
        rw [tick_inAgreement_iff (after_reachable run) h, h.tracks.allOrNone_iff]
        simp
    exact ⟨fun h => ⟨h.before, (hlast h.before).mp h⟩, fun h => (hlast h.1).mpr h.2⟩

/-- Two cameras; after the first tick only one of them is updated. The second tick sends the other's
update again, which its own session does not. -/
theorem detections_disagree : ∃ s, system.Reachable s ∧ ¬ s.InAgreement := by
  have hrun : ∃ s, system.Reachable s ∧
      (s.sessions []).sent.map (messagesFor ['b']) = [[⟨['b'], 1, ['y']⟩], [⟨['b'], 1, ['y']⟩]] ∧
        (s.sessions ['b']).sent.map (messagesFor ['b']) = [[⟨['b'], 1, ['y']⟩], []] :=
    exists_reachable_of_exec
      [.storeDets ['a'] ['x'], .storeDets ['b'] ['y'], .tick, .storeDets ['a'] ['z'], .tick]
      ⟨_, rfl, by decide, by decide⟩
  obtain ⟨s, hs, hall, hown⟩ := hrun
  refine ⟨s, hs, fun h => ?_⟩
  have hsame := h.agree ['b']
  rw [hall, hown] at hsame
  exact absurd hsame (by decide)

end DetStreams
end ForkliftSafety
