import ForkliftSafety.Infrastructure.DetectionStream

/-! One session of a detection stream, of all cameras or of one, between updates in any order:
whether what it has sent last is what the store holds. -/
namespace ForkliftSafety
open Transition SharedDets

/-- The cameras of which a session sends. -/
def Serves (camera c : List Char) : Prop := camera = [] ∨ camera = c

instance (camera c : List Char) : Decidable (Serves camera c) :=
  inferInstanceAs (Decidable (_ ∨ _))

/-- What a tick found in the store, and all that the session had sent right after it. -/
structure TickRecord where
  dets : SharedDets
  updates : List Char → ℕ
  sent : List SseMessage

/-- The last message of each camera is the text that the tick found stored for it. -/
def TickRecord.Current (camera : List Char) (r : TickRecord) : Prop :=
  ∀ c, Serves camera c → (r.dets.entry c).json ≠ [] →
    (messagesFor c r.sent).getLast? = some ⟨c, r.updates c, (r.dets.entry c).json⟩

/-- The store, one session, and its ticks so far. `unseen` are the cameras of the updates that the
session's counter has counted since its last tick. -/
structure SseStream where
  dets : SharedDets := .empty
  updates : List Char → ℕ := fun _ => 0
  session : SseSession := {}
  unseen : List (List Char) := []
  ticks : List TickRecord := []

namespace SseStream
variable (camera : List Char)

/-- `publish_detections` stores no empty text. -/
def next (s : SseStream) : DetAction → Option SseStream
  | .storeDets cam json =>
    if json = [] then none
    else some { s with
      dets := s.dets.storeDets cam json
      updates := Function.update s.updates cam (s.updates cam + 1)
      unseen := if Serves camera cam then cam :: s.unseen else s.unseen }
  | .tick =>
    let session := s.session.tick s.dets s.updates camera
    some { s with
      session := session
      unseen := []
      ticks := s.ticks ++ [⟨s.dets, s.updates, session.sent.flatten⟩] }

def system : LTS SseStream DetAction := LTS.ofNext {} (next camera)

/-- The session has never settled on stale data. -/
def AlwaysCurrent (s : SseStream) : Prop := ∀ r ∈ s.ticks, r.Current camera

/-- No update of a camera is sent after a newer one. -/
def Ordered (s : SseStream) : Prop :=
  s.session.sent.flatten.Pairwise fun m n => m.camera = n.camera → m.update ≤ n.update

/-- The counter has not come round to the value that the session remembers. -/
def CounterMoved (s : SseStream) : Prop := s.unseen = [] ∨ ¬ 2 ^ 64 ∣ s.unseen.length

theorem counterOf_storeDets (dets : SharedDets) (cam json : List Char) :
    counterOf (dets.storeDets cam json) camera =
      if Serves camera cam then incrementSeq (counterOf dets camera)
      else counterOf dets camera := by
  unfold Serves
  by_cases hcamera : camera = []
  · simp only [hcamera, counterOf_nil, true_or, if_true]
    rfl
  · rw [counterOf_named hcamera, counterOf_named hcamera, entry_storeDets]
    by_cases hcam : camera = cam
    · simp [hcam]
    · simp [hcamera, hcam]

/-- A session has something on offer once there are detections of a camera that it serves. -/
theorem onOffer_ne_nil {dets : SharedDets} {c : List Char} (hc : Serves camera c)
    (hjson : (dets.entry c).json ≠ []) (updates : List Char → ℕ) :
    onOffer dets updates camera ≠ [] := by
  have hnewest : newest dets updates c ≠ [] := by simp [newest, hjson]
  intro hnil
  rcases hc with rfl | rfl
  · apply hnewest
    rw [← messagesFor_onOffer_nil, hnil]
    rfl
  · by_cases hcamera : camera = []
    · subst hcamera
      apply hnewest
      rw [← messagesFor_onOffer_nil, hnil]
      rfl
    · exact hnewest (onOffer_named hcamera ▸ hnil)

theorem mem_onOffer {dets : SharedDets} {updates : List Char → ℕ} {m : SseMessage}
    (h : m ∈ onOffer dets updates camera) : m.update = updates m.camera := by
  have hnewest : m ∈ newest dets updates m.camera := by
    by_cases hcamera : camera = []
    · subst hcamera
      exact mem_newest_of_onOffer_nil h
    · rw [onOffer_named hcamera] at h
      have hc := congrArg SseMessage.camera (mem_newest.mp h).2
      rwa [hc]
  exact congrArg SseMessage.update (mem_newest.mp hnewest).2

theorem mem_written {s : SseSession} {dets : SharedDets} {updates : List Char → ℕ} {m : SseMessage}
    (h : m ∈ s.written dets updates camera) : m.update = updates m.camera := by
  unfold SseSession.written at h
  split_ifs at h
  · contradiction
  · exact mem_onOffer camera h

/-- How the counters, the updates that the session has not seen and its messages go together. -/
structure Tracked (s : SseStream) : Prop where
  counter : counterOf s.dets camera = (s.session.sseLastSeq + s.unseen.length) % 2 ^ 64
  small : s.session.sseLastSeq < 2 ^ 64
  served : ∀ c ∈ s.unseen, Serves camera c ∧ (s.dets.entry c).json ≠ []
  newer : ∀ m ∈ s.session.sent.flatten, m.update ≤ s.updates m.camera ∧
    (m.camera ∈ s.unseen → m.update < s.updates m.camera)
  ordered : s.Ordered
  held : s.AlwaysCurrent camera → ∀ c, Serves camera c → c ∉ s.unseen →
    (s.dets.entry c).json ≠ [] →
    (messagesFor c s.session.sent.flatten).getLast? =
      some ⟨c, s.updates c, (s.dets.entry c).json⟩

variable {camera} {s t : SseStream}

/-- An update raises the count of its camera over those that the session has sent. -/
theorem Tracked.newer_updated (h : s.Tracked camera) {m : SseMessage}
    (hm : m ∈ s.session.sent.flatten) (cam : List Char) :
    m.update ≤ Function.update s.updates cam (s.updates cam + 1) m.camera ∧
      (m.camera = cam ∨ m.camera ∈ s.unseen →
        m.update < Function.update s.updates cam (s.updates cam + 1) m.camera) := by
  obtain ⟨hle, hlt⟩ := h.newer m hm
  simp only [Function.update_apply]
  split_ifs with hcam
  · rw [← hcam]
    exact ⟨by omega, fun _ => by omega⟩
  · exact ⟨hle, fun hc => hlt (hc.resolve_left hcam)⟩

/-- The session counts the update of a camera that it serves, and has not seen it. -/
theorem Tracked.storeServed (h : s.Tracked camera) {cam json : List Char} (hjson : json ≠ [])
    (hserves : Serves camera cam) :
    Tracked camera { s with
      dets := s.dets.storeDets cam json
      updates := Function.update s.updates cam (s.updates cam + 1)
      unseen := cam :: s.unseen } := by
  have hcounter := counterOf_storeDets camera s.dets cam json
  rw [if_pos hserves, h.counter] at hcounter
  refine ⟨?_, h.small, ?_, ?_, h.ordered, ?_⟩
  · show counterOf (s.dets.storeDets cam json) camera =
      (s.session.sseLastSeq + (s.unseen.length + 1)) % 2 ^ 64
    rw [hcounter, incrementSeq]
    omega
  · intro c hc
    rw [entry_storeDets]
    rcases List.mem_cons.mp hc with rfl | hc
    · exact ⟨hserves, by simpa using hjson⟩
    · refine ⟨(h.served c hc).1, ?_⟩
      split_ifs
      · exact hjson
      · exact (h.served c hc).2
  · intro m hm
    obtain ⟨hle, hlt⟩ := h.newer_updated hm cam
    exact ⟨hle, fun hc => hlt (List.mem_cons.mp hc)⟩
  · intro hcurrent c hc hunseen hentry
    rw [List.mem_cons, not_or] at hunseen
    simp only [entry_storeDets, if_neg hunseen.1, Function.update_apply] at hentry ⊢
    exact h.held hcurrent c hc hunseen.2 hentry

/-- The update of another camera does not concern the session. -/
theorem Tracked.storeUnserved (h : s.Tracked camera) {cam json : List Char}
    (hserves : ¬ Serves camera cam) :
    Tracked camera { s with
      dets := s.dets.storeDets cam json
      updates := Function.update s.updates cam (s.updates cam + 1) } := by
  have hcounter := counterOf_storeDets camera s.dets cam json
  rw [if_neg hserves] at hcounter
  have hne : ∀ c, Serves camera c → c ≠ cam := by
    rintro c hc rfl
    exact hserves hc
  refine ⟨hcounter.trans h.counter, h.small, ?_, ?_, h.ordered, ?_⟩
  · intro c hc
    obtain ⟨hserved, hentry⟩ := h.served c hc
    rw [entry_storeDets, if_neg (hne c hserved)]
    exact ⟨hserved, hentry⟩
  · intro m hm
    obtain ⟨hle, hlt⟩ := h.newer_updated hm cam
    exact ⟨hle, fun hc => hlt (.inr hc)⟩
  · intro hcurrent c hc hunseen hentry
    simp only [entry_storeDets, if_neg (hne c hc), Function.update_apply] at hentry ⊢
    exact h.held hcurrent c hc hunseen hentry

theorem Tracked.storeDets (h : s.Tracked camera) {cam json : List Char}
    (ht : s.next camera (.storeDets cam json) = some t) : t.Tracked camera := by
  simp only [next] at ht
  split_ifs at ht with hjson hserves <;> obtain rfl := Option.some.inj ht
  · exact h.storeServed hjson hserves
  · exact h.storeUnserved hserves

/-- Without a served camera in the store nothing is unseen. -/
theorem Tracked.unseen_of_onOffer (h : s.Tracked camera)
    (hoffer : onOffer s.dets s.updates camera = []) : s.unseen = [] := by
  cases hunseen : s.unseen with
  | nil => rfl
  | cons c rest =>
    obtain ⟨hserves, hjson⟩ := h.served c (by rw [hunseen]; exact List.mem_cons_self)
    exact absurd hoffer (onOffer_ne_nil camera hserves hjson s.updates)

theorem Tracked.tick (h : s.Tracked camera) (ht : s.next camera .tick = some t) :
    t.Tracked camera := by
  obtain rfl := Option.some.inj ht
  have hsent : (s.session.tick s.dets s.updates camera).sent.flatten =
      s.session.sent.flatten ++ s.session.written s.dets s.updates camera := by
    simp [SseSession.tick_sent]
  have hnow : counterOf s.dets camera < 2 ^ 64 := by
    rw [h.counter]
    exact Nat.mod_lt _ (by decide)
  refine ⟨?_, ?_, by simp, ?_, ?_, ?_⟩
  · rw [SseSession.tick_sseLastSeq]
    split_ifs with hoffer
    · rw [h.counter, h.unseen_of_onOffer hoffer]
    · simp only [List.length_nil, Nat.add_zero]
      exact (Nat.mod_eq_of_lt hnow).symm
  · rw [SseSession.tick_sseLastSeq]
    split_ifs
    · exact h.small
    · exact hnow
  · intro m hm
    rw [hsent, List.mem_append] at hm
    refine ⟨?_, by simp⟩
    rcases hm with hold | hnew
    · exact (h.newer m hold).1
    · exact Nat.le_of_eq (mem_written camera hnew)
  · rw [Ordered, hsent, List.pairwise_append]
    refine ⟨h.ordered, ?_, ?_⟩
    · rw [List.pairwise_iff_forall_sublist]
      intro m n hmn hcamera
      have hm := mem_written camera (hmn.subset List.mem_cons_self)
      have hn := mem_written camera (hmn.subset (List.mem_cons_of_mem m List.mem_cons_self))
      rw [hm, hn, hcamera]
    · intro m hm n hn hcamera
      rw [mem_written camera hn, ← hcamera]
      exact (h.newer m hm).1
  · intro hcurrent c hc _ hjson
    exact hcurrent _ (List.mem_append_right _ List.mem_cons_self) c hc hjson

theorem tracked_of_reachable (hs : (system camera).Reachable s) : s.Tracked camera := by
  apply hs.invariant (I := fun s => s.Tracked camera)
  · refine ⟨?_, Nat.two_pow_pos 64, ?_, ?_, List.Pairwise.nil, ?_⟩
    · unfold counterOf
      split_ifs <;> rfl
    · intro c hc
      contradiction
    · intro m hm
      contradiction
    · intro _ c _ _ hjson
      exact absurd rfl hjson
  · intro s a t _ h hstep
    cases a with
    | storeDets cam json => exact h.storeDets hstep
    | tick => exact h.tick hstep

/-- A tick leaves the session with the stored detections of every camera that it serves exactly when
the counter has moved since the tick before. -/
theorem tick_current_iff (h : s.Tracked camera) (hcurrent : s.AlwaysCurrent camera)
    (ht : s.next camera .tick = some t) : t.AlwaysCurrent camera ↔ s.CounterMoved := by
  obtain rfl := Option.some.inj ht
  have hsent : (s.session.tick s.dets s.updates camera).sent.flatten =
      s.session.sent.flatten ++ s.session.written s.dets s.updates camera := by
    simp [SseSession.tick_sent]
  have hsame : counterOf s.dets camera = s.session.sseLastSeq ↔ 2 ^ 64 ∣ s.unseen.length := by
    have hcounter := h.counter
    have hsmall := h.small
    rw [hcounter]
    omega
  constructor
  · intro hafter
    by_contra hstuck
    rw [CounterMoved, not_or, not_not] at hstuck
    obtain ⟨c, rest, hunseen⟩ := List.exists_cons_of_ne_nil hstuck.1
    have hc : c ∈ s.unseen := by
      rw [hunseen]
      exact List.mem_cons_self
    obtain ⟨hserves, hjson⟩ := h.served c hc
    have hlast := hafter _ (List.mem_append_right _ List.mem_cons_self) c hserves hjson
    have hnothing : s.session.written s.dets s.updates camera = [] := by
      rw [SseSession.written, if_pos (hsame.mpr hstuck.2)]
    rw [hsent, hnothing, List.append_nil] at hlast
    have hold := List.mem_of_mem_filter (List.mem_of_getLast? hlast)
    exact absurd ((h.newer _ hold).2 hc) (lt_irrefl _)
  · intro hmoved r hr
    rcases List.mem_append.mp hr with hr | hr
    · exact hcurrent r hr
    rw [List.mem_singleton.mp hr]
    intro c hserves hjson
    show (messagesFor c _).getLast? = _
    rw [hsent, messagesFor, List.filter_append, ← messagesFor, ← messagesFor,
      SseSession.messagesFor_written _ _ _ hserves]
    split_ifs with hcounter
    · have hseen : s.unseen = [] := hmoved.resolve_right (not_not.mpr (hsame.mp hcounter))
      rw [List.append_nil]
      exact h.held hcurrent c hserves (by rw [hseen]; exact List.not_mem_nil) hjson
    · rw [newest, if_neg hjson, List.getLast?_append]
      rfl

theorem ticks_storeDets {camera : List Char} {s t : SseStream} {cam json : List Char}
    (h : s.next camera (.storeDets cam json) = some t) : t.ticks = s.ticks := by
  rw [next, Option.ite_none_left_eq_some] at h
  rw [← Option.some.inj h.2]

/-- Nothing is ever sent after a newer update of its camera. In exactly the runs in which no tick
finds the counter where the tick before left it, with updates in between, what a session has sent
last of each camera is what the tick found in the store. -/
theorem stream_current_iff (camera : List Char) (s : SseStream) :
    ((system camera).Reachable s → s.Ordered) ∧
      (((system camera).restrict fun s a => a = .tick → s.CounterMoved).Reachable s ↔
        (system camera).Reachable s ∧ s.AlwaysCurrent camera) := by
  refine ⟨fun hs => (tracked_of_reachable hs).ordered, ?_⟩
  refine LTS.reachable_restrict_iff (fun r hr => by contradiction) ?_ ?_ s
  · intro s a t hstep ht r hr
    cases a with
    | storeDets cam json =>
      exact ht r ((ticks_storeDets hstep).symm ▸ hr)
    | tick =>
      obtain rfl := Option.some.inj hstep
      exact ht r (List.mem_append_left _ hr)
  · intro s a t hs h hstep
    cases a with
    | storeDets cam json =>
      simp only [reduceCtorEq, false_implies, iff_true]
      intro r hr
      exact h r (ticks_storeDets hstep ▸ hr)
    | tick =>
      simp only [true_implies]
      exact tick_current_iff (tracked_of_reachable hs) h hstep

/-- After `n` updates of one camera, with no tick before or between. -/
theorem reachable_after_updates (n : ℕ) :
    ∃ s, (system []).Reachable s ∧ s.unseen.length = n ∧ s.ticks = [] := by
  induction n with
  | zero => exact ⟨{}, LTS.Reachable.start, rfl, rfl⟩
  | succ n ih =>
    obtain ⟨s, hs, hunseen, hticks⟩ := ih
    refine ⟨_, hs.step (a := .storeDets ['a'] ['x']) rfl, ?_, hticks⟩
    rw [← hunseen]
    rfl

/-- `2 ^ 64` updates bring the counter back to zero, and the first tick sends nothing. -/
theorem stream_stale_after_wrap :
    ∃ s, (system []).Reachable s ∧ ¬ s.AlwaysCurrent [] := by
  obtain ⟨s, hs, hunseen, hticks⟩ := reachable_after_updates (2 ^ 64)
  refine ⟨_, hs.step (a := .tick) rfl, ?_⟩
  have hcurrent : s.AlwaysCurrent [] := by
    intro r hr
    rw [hticks] at hr
    contradiction
  rw [tick_current_iff (tracked_of_reachable hs) hcurrent rfl, CounterMoved, hunseen, not_or]
  exact ⟨List.ne_nil_of_length_pos (by rw [hunseen]; exact Nat.two_pow_pos 64),
    not_not.mpr (Nat.dvd_refl _)⟩

end SseStream
end ForkliftSafety
