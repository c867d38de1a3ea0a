import Mathlib.Data.Fin.Basic
import ForkliftSafety.Application.Pipeline

/-! The cooldown of a whole pipeline: each worker keeps a table of its own. -/
namespace ForkliftSafety
open Transition Threads

section Spacing
variable {W : ℕ} (p : Pipeline)

/-- The alerts a pipeline has handed to `publish`, in order. -/
def PipelineShared.alerts (g : PipelineShared W) : List Alert := g.published.map Prod.snd

/-- The alert that the step hands over, if any, is at least the cooldown away from every alert of
its track that another worker has handed over. -/
def SparesOthers (c : Config (Fin W) (PipelineShared W) Worker)
    (label : Label (Fin W) WorkerStep PipelineEvent) : Prop :=
  match label with
  | .env _ => True
  | .thread w _ => ∀ a ∈ (c.locals w).handing p, ∀ y ∈ c.shared.published, y.1 ≠ w →
      y.2.forkliftTrackId = a.forkliftTrackId →
      p.cfg.alertCooldown * 1000000 ≤ |a.timestamp - y.2.timestamp|

theorem rateLimited_append {cooldown : Milliseconds} {alerts : List Alert} {a : Alert} :
    RateLimited cooldown (alerts ++ [a]) ↔ RateLimited cooldown alerts ∧
      ∀ b ∈ alerts, b.forkliftTrackId = a.forkliftTrackId →
        cooldown * 1000000 ≤ |a.timestamp - b.timestamp| := by
  simp [RateLimited, List.pairwise_append]

theorem rateLimited_of_nonpos {cooldown : Milliseconds} (h : cooldown ≤ 0)
    (alerts : List Alert) : RateLimited cooldown alerts := by
  apply List.pairwise_of_forall
  intro a b _
  have habs := abs_nonneg (b.timestamp - a.timestamp)
  linarith

/-- The alerts of one worker are rate limited. -/
theorem FollowsLoop.rateLimited {publish : ℕ → PublishResult} {w : Fin W}
    {g : PipelineShared W} {l : Worker} {ds : List Delivery}
    (h : FollowsLoop p publish w g l ds) :
    RateLimited p.cfg.alertCooldown (g.publishedBy w) :=
  (handedAlerts_rateLimited p publish h.sorted).sublist (h.published_prefix p).sublist

end Spacing

section Runs
variable {p : Pipeline} {publish : Fin p.cfg.inferenceWorkers → ℕ → PublishResult}
  {now : TimePoint}
  {c d : Config (Fin p.cfg.inferenceWorkers) (PipelineShared p.cfg.inferenceWorkers) Worker}

theorem publishedBy_rateLimited (hc : (pipelineSystem p publish now).Reachable c)
    (w : Fin p.cfg.inferenceWorkers) :
    RateLimited p.cfg.alertCooldown (c.shared.publishedBy w) := by
  obtain ⟨ds, h⟩ := worker_followsLoop hc w
  exact h.rateLimited p

/-- What a step adds to the published alerts. -/
theorem step_published {label : Label (Fin p.cfg.inferenceWorkers) WorkerStep PipelineEvent}
    (h : (pipelineSystem p publish now).step c label d) :
    (d.shared.published = c.shared.published ∧ SparesOthers p c label) ∨
    ∃ w a, d.shared.published = c.shared.published ++ [(w, a)] ∧
      (SparesOthers p c label ↔ ∀ y ∈ c.shared.published, y.1 ≠ w →
        y.2.forkliftTrackId = a.forkliftTrackId →
        p.cfg.alertCooldown * 1000000 ≤ |a.timestamp - y.2.timestamp|) := by
  cases label with
  | env e =>
    obtain ⟨g, hg, rfl⟩ := Program.system_env h
    exact .inl ⟨(pipelineEnv_shared hg).2.2, trivial⟩
  | thread w step =>
    obtain ⟨g, l, hnext, rfl⟩ := Program.system_thread h
    have hpublished := (workerNext_shared p hnext).2.2
    unfold SparesOthers
    cases hhanding : (c.locals w).handing p with
    | none =>
      left
      rw [hhanding] at hpublished
      exact ⟨by simpa using hpublished, by simp [hhanding]⟩
    | some a =>
      right
      rw [hhanding] at hpublished
      exact ⟨w, a, hpublished, by simp [hhanding]⟩

/-- A step keeps the rate limit exactly when its alert spares those of the other workers; those
of its own worker it spares anyway. -/
theorem step_rateLimited_iff (hc : (pipelineSystem p publish now).Reachable c)
    {label : Label (Fin p.cfg.inferenceWorkers) WorkerStep PipelineEvent}
    (hlimited : RateLimited p.cfg.alertCooldown c.shared.alerts)
    (h : (pipelineSystem p publish now).step c label d) :
    RateLimited p.cfg.alertCooldown d.shared.alerts ↔ SparesOthers p c label := by
  rcases step_published h with ⟨hsame, hspares⟩ | ⟨w, a, hadd, hspares⟩
  · rw [PipelineShared.alerts, hsame]
    exact ⟨fun _ => hspares, fun _ => hlimited⟩
  · have hown := publishedBy_rateLimited (hc.step h) w
    rw [PipelineShared.publishedBy, hadd, List.filter_append, List.map_append] at hown
    simp only [decide_true, List.filter_cons_of_pos, List.filter_nil, List.map_cons,
      List.map_nil] at hown
    rw [rateLimited_append] at hown
    rw [hspares, PipelineShared.alerts, hadd, List.map_append]
    show RateLimited _ (c.shared.alerts ++ [a]) ↔ _
    rw [rateLimited_append]
    constructor
    · intro hall y hy _ htrack
      exact hall.2 y.2 (List.mem_map_of_mem hy) htrack
    · intro hothers
      refine ⟨hlimited, ?_⟩
      intro b hb htrack
      obtain ⟨y, hy, rfl⟩ := List.mem_map.mp hb
      by_cases hyw : y.1 = w
      · apply hown.2 y.2 _ htrack
        exact List.mem_map_of_mem (List.mem_filter.mpr ⟨hy, decide_eq_true hyw⟩)
      · exact hothers y hy hyw htrack

theorem rateLimited_of_step {label : Label (Fin p.cfg.inferenceWorkers) WorkerStep PipelineEvent}
    (h : (pipelineSystem p publish now).step c label d)
    (hd : RateLimited p.cfg.alertCooldown d.shared.alerts) :
    RateLimited p.cfg.alertCooldown c.shared.alerts := by
  have hprefix : c.shared.alerts <+: d.shared.alerts := by
    unfold PipelineShared.alerts
    rcases step_published h with ⟨hsame, _⟩ | ⟨w, a, hadd, _⟩
    · rw [hsame]
    · rw [hadd, List.map_append]
      exact List.prefix_append _ _
  exact hd.sublist hprefix.sublist

/-- With one worker every alert is its own. -/
theorem rateLimited_of_one_worker (hone : p.cfg.inferenceWorkers ≤ 1)
    (hc : (pipelineSystem p publish now).Reachable c) :
    RateLimited p.cfg.alertCooldown c.shared.alerts := by
  have hsub : Subsingleton (Fin p.cfg.inferenceWorkers) := Fin.subsingleton_iff_le_one.mpr hone
  cases hpublished : c.shared.published with
  | nil =>
    rw [PipelineShared.alerts, hpublished]
    exact List.Pairwise.nil
  | cons x xs =>
    have hown := publishedBy_rateLimited hc x.1
    have hall : (c.shared.published.filter fun y => y.1 = x.1) = c.shared.published := by
      rw [List.filter_eq_self]
      intro y _
      exact decide_eq_true (Subsingleton.elim y.1 x.1)
    rw [PipelineShared.publishedBy, hall] at hown
    exact hown

end Runs

section TwoWorkers
variable {W : ℕ} (p : Pipeline) (publish : Fin W → ℕ → PublishResult)

/-- The capture thread is between two frames, and the queue is empty. -/
structure Ready (g : PipelineShared W) : Prop where
  running : g.running = true
  capture : g.capture = .testing
  items : g.frames.items = []
  policy : g.frames.policy = .dropOldestWhenFull

theorem capture_segment {g : PipelineShared W} (h : Ready g) :
    ∃ q : ConcurrentQueue Frame, q.items = [liveFrame] ∧ q.policy = .dropOldestWhenFull ∧
      exec pipelineEnv g [.capture none, .capture (some liveFrame), .capture none] =
        some { g with frames := q } := by
  obtain ⟨q, hpush, hitems, hpolicy⟩ : ∃ q, g.frames.push liveFrame = some (q, true) ∧
      q.items = [liveFrame] ∧ q.policy = .dropOldestWhenFull := by
    unfold ConcurrentQueue.push
    simp only [h.policy, h.items]
    split_ifs
    · exact ⟨_, rfl, rfl, rfl⟩
    · exact ⟨_, rfl, rfl, rfl⟩
  refine ⟨q, hitems, hpolicy, ?_⟩
  simp [exec, pipelineEnv, captureNext, h.running, h.capture, hpush]

/-- What a worker does with one alarm frame, with the two viewer steps where they are taken. -/
def alarmSteps : List WorkerStep :=
  [.advance, .advance, .advance, .inferEnds (.detections (alarmScene p.safetyZone))] ++
    ((if p.viewing.isSome then [.advance, .advance] else []) ++ [.advance, .advance, .advance])

/-- A fresh worker that finds an alarm frame in the queue publishes its alert. -/
theorem worker_segment (w : Fin W) {g : PipelineShared W} (hrunning : g.running = true)
    (hitems : g.frames.items = [liveFrame]) :
    ∃ g' l' a, exec (workerNext p publish w) (g, {}) (alarmSteps p) = some (g', l') ∧
      g'.published = g.published ++ [(w, a)] ∧
      (a.forkliftTrackId = -1 ∧ a.timestamp = g.clock) ∧
      (g'.clock = g.clock ∧ g'.running = true ∧ g'.capture = g.capture) ∧
      g'.frames.items = [] ∧ g'.frames.policy = g.frames.policy := by
  obtain ⟨a, heval, htrack, hts⟩ := evaluate_alarmScene p.safetyZone p.cameraId g.clock
  have hpop := g.frames.popLatest_snoc [] liveFrame hitems
  have hempty : liveFrame.empty = false := rfl
  cases hview : p.viewing.isSome
  · simp only [alarmSteps, exec, workerNext, hview, Bool.false_eq_true, ↓reduceIte, List.nil_append,
      List.cons_append, Option.bind_some, hrunning, hpop, hempty, heval]
    exact ⟨_, _, a, rfl, rfl, ⟨htrack, hts⟩, ⟨rfl, rfl, rfl⟩, rfl, rfl⟩
  · simp only [alarmSteps, exec, workerNext, hview, Bool.false_eq_true, ↓reduceIte, List.nil_append,
      List.cons_append, Option.bind_some, hrunning, hpop, hempty, heval, publishView_lastAlert]
    exact ⟨_, _, a, rfl, rfl, ⟨htrack, hts⟩, ⟨rfl, rfl, rfl⟩, rfl, rfl⟩

end TwoWorkers

section Violation
variable {p : Pipeline} (publish : Fin p.cfg.inferenceWorkers → ℕ → PublishResult)
  (now : TimePoint)
  {c : Config (Fin p.cfg.inferenceWorkers) (PipelineShared p.cfg.inferenceWorkers) Worker}

/-- One frame is captured and a fresh worker raises its alarm. -/
theorem path_of_alarm (hc : Ready c.shared) {w : Fin p.cfg.inferenceWorkers}
    (hw : c.locals w = {}) :
    ∃ d a, (pipelineSystem p publish now).Path c d ∧ Ready d.shared ∧
      d.shared.clock = c.shared.clock ∧
      d.shared.published = c.shared.published ++ [(w, a)] ∧
      (a.forkliftTrackId = -1 ∧ a.timestamp = c.shared.clock) ∧
      ∀ v, v ≠ w → d.locals v = c.locals v := by
  obtain ⟨q, hitems, hpolicy, hcapture⟩ := capture_segment hc
  let b : Config (Fin p.cfg.inferenceWorkers) (PipelineShared p.cfg.inferenceWorkers) Worker :=
    ⟨{ c.shared with frames := q }, c.locals⟩
  obtain ⟨g, l, a, hwork, hpublished, halert, ⟨hclock, hrunning, hcap⟩, hleft, hpol⟩ :=
    worker_segment p publish w (g := b.shared) hc.running hitems
  rw [← hw] at hwork
  have hfirst : (pipelineSystem p publish now).Path c b := Program.path_of_env hcapture
  have hsecond : (pipelineSystem p publish now).Path b
      ⟨g, Function.update c.locals w l⟩ := Program.path_of_segment hwork
  refine ⟨_, a, hfirst.trans hsecond, ⟨hrunning, hcap.trans hc.capture, hleft, ?_⟩, hclock,
    hpublished, halert, ?_⟩
  · exact hpol.trans hpolicy
  · intro v hv
    exact Function.update_of_ne hv l c.locals

/-- Two workers take turns on two frames at one time: both alerts go out. -/
theorem rateLimit_broken (hmany : 1 < p.cfg.inferenceWorkers) (hcool : 0 < p.cfg.alertCooldown) :
    ∃ c, (pipelineSystem p publish now).Reachable c ∧
      ¬ RateLimited p.cfg.alertCooldown c.shared.alerts := by
  obtain ⟨second, first, hne⟩ := (Fin.nontrivial_iff_two_le.mpr hmany).exists_pair_ne
  have hstart : Ready (started p now).shared := ⟨rfl, rfl, rfl, rfl⟩
  obtain ⟨d, a, hpath, hready, hclock, hpublished, ⟨htrack, hts⟩, hrest⟩ :=
    path_of_alarm publish now hstart (w := first) rfl
  obtain ⟨e, b, hpath', _, _, hpublished', ⟨htrack', hts'⟩, _⟩ :=
    path_of_alarm publish now hready (w := second) (hrest second hne)
  refine ⟨e, LTS.Reachable.path hpath hpath', ?_⟩
  intro hlimited
  rw [PipelineShared.alerts, hpublished', hpublished, List.map_append, List.map_append,
    show (started p now).shared.published = [] from rfl] at hlimited
  have hspaced := (List.pairwise_append.mp hlimited).2.2 a (by simp) b (by simp)
    (by rw [htrack, htrack'])
  rw [hts', hts, hclock, sub_self, abs_zero] at hspaced
  linarith

end Violation

/-- All runs of a pipeline keep the rate limit exactly when it has at most one worker or no
cooldown; and any run keeps it exactly when each alert handed over is at least the cooldown away
from the alerts of its track that other workers have handed over. -/
theorem pipeline_rateLimited_iff (p : Pipeline)
    (publish : Fin p.cfg.inferenceWorkers → ℕ → PublishResult) (now : TimePoint) :
    ((∀ c, (pipelineSystem p publish now).Reachable c →
        RateLimited p.cfg.alertCooldown c.shared.alerts) ↔
      p.cfg.inferenceWorkers ≤ 1 ∨ p.cfg.alertCooldown ≤ 0) ∧
    ∀ c, ((pipelineSystem p publish now).restrict (SparesOthers p)).Reachable c ↔
      (pipelineSystem p publish now).Reachable c ∧
        RateLimited p.cfg.alertCooldown c.shared.alerts := by
  constructor
  · constructor
    · intro h
      by_contra hneither
      push Not at hneither
      obtain ⟨c, hc, hbroken⟩ := rateLimit_broken publish now hneither.1 hneither.2
      exact hbroken (h c hc)
    · intro h c hc
      rcases h with hone | hnone
      · exact rateLimited_of_one_worker hone hc
      · exact rateLimited_of_nonpos hnone _
  · have hstart : RateLimited p.cfg.alertCooldown (started p now).shared.alerts :=
      List.Pairwise.nil
    exact LTS.reachable_restrict_iff (M := pipelineSystem p publish now)
      (I := fun c => RateLimited p.cfg.alertCooldown c.shared.alerts) hstart
      (fun _ _ _ hstep ht => rateLimited_of_step hstep ht)
      (fun _ _ _ hs hI hstep => step_rateLimited_iff hs hI hstep)

/-- Two workers, the default cooldown and one clock reading for two alarms. -/
theorem two_workers_break_rateLimit :
    ∃ c, (pipelineSystem { cameraId := "dock", cfg := { inferenceWorkers := 2 } }
        (fun _ _ => .ok ()) 0).Reachable c ∧
      ¬ RateLimited 2000 c.shared.alerts :=
  rateLimit_broken (p := { cameraId := "dock", cfg := { inferenceWorkers := 2 } }) _ _
    (by decide) (by decide)

end ForkliftSafety
