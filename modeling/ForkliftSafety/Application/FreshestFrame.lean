import ForkliftSafety.Application.Pipeline
import ForkliftSafety.Infrastructure.VideoSource

/-! Which frames the workers of a pipeline get when its capture thread reads from a real source.
The source numbers the frames, and the queue between them is a lossy buffer. -/
namespace ForkliftSafety
open Transition Threads Buffer

/-- A pipeline and its source, with the frames pushed so far. -/
structure SourcedShared (W : ℕ) where
  base : PipelineShared W
  source : SourceState
  pushed : List Frame := []

section System
variable {W : ℕ} (p : Pipeline) (publish : Fin W → ℕ → PublishResult) (src : CameraSource)

/-- The body of `capture_loop` up to the push: what it read, if anything, and the source after. -/
def captureRead (s : SourceState) (a : CapAnswers) : Option Frame × SourceState :=
  if s.isOpened then
    match src.readFrame s a with
    | (none, s') => (none, CameraSource.close s')
    | (some frame, s') => (some frame, s')
  else (none, (src.openSource s a).2)

/-- A step of `capture_loop` on its source. -/
def sourcedCapture (g : SourcedShared W) (a : CapAnswers) : Option (SourcedShared W) :=
  match g.base.capture with
  | .reading =>
    let r := captureRead src g.source a
    (captureNext g.base r.1).map fun b => { g with base := b, source := r.2 }
  | .pushing frame =>
    (captureNext g.base none).map fun b => { g with base := b, pushed := g.pushed ++ [frame] }
  | _ => (captureNext g.base none).map fun b => { g with base := b }

inductive SourcedEvent where
  | tick (now : TimePoint)
  | capture (a : CapAnswers)
  | stop

def sourcedEnv (g : SourcedShared W) : SourcedEvent → Option (SourcedShared W)
  | .tick now => (pipelineEnv g.base (.tick now)).map fun b => { g with base := b }
  | .capture a => sourcedCapture src g a
  | .stop => (pipelineEnv g.base .stop).map fun b => { g with base := b }

def sourcedProgram : Program (Fin W) (SourcedShared W) Worker WorkerStep SourcedEvent where
  next w s a := (workerNext p publish w (s.1.base, s.2) a).map
    fun r => ({ s.1 with base := r.1 }, r.2)
  env := sourcedEnv src

end System

/-- Right after `start`, when `capture_loop` has made its first attempt to open the source. -/
def sourcedStart (p : Pipeline) (now : TimePoint) (src : CameraSource) (a : CapAnswers) :
    Config (Fin p.cfg.inferenceWorkers) (SourcedShared p.cfg.inferenceWorkers) Worker where
  shared := { base := (started p now).shared, source := (src.openSource {} a).2 }
  locals := (started p now).locals

def sourcedSystem (p : Pipeline) (publish : Fin p.cfg.inferenceWorkers → ℕ → PublishResult)
    (now : TimePoint) (src : CameraSource) (a : CapAnswers) :
    LTS (Config (Fin p.cfg.inferenceWorkers) (SourcedShared p.cfg.inferenceWorkers) Worker)
      (Label (Fin p.cfg.inferenceWorkers) WorkerStep SourcedEvent) :=
  (sourcedProgram p publish src).system (sourcedStart p now src a)

/-- The frame that `capture_loop` has read and not yet pushed. -/
def CapturePc.inHand : CapturePc → List Frame
  | .pushing frame => [frame]
  | _ => []

/-- The numbers a source gives to its first `n` frames. -/
def frameNumbers (n : ℕ) : List ℕ := (List.range n).map fun i => (i + 1) % 2 ^ 64

theorem frameNumbers_succ (n : ℕ) :
    frameNumbers (n + 1) = frameNumbers n ++ [(n + 1) % 2 ^ 64] := by
  simp only [frameNumbers, List.range_succ, List.map_append, List.map_cons, List.map_nil]

/-- Short of `2 ^ 64` frames the numbers grow. -/
theorem frameNumbers_pairwise {n : ℕ} (h : n < 2 ^ 64) :
    (frameNumbers n).Pairwise (· < ·) := by
  have hnowrap : frameNumbers n = (List.range n).map (· + 1) := by
    apply List.map_congr_left
    intro i hi
    rw [List.mem_range] at hi
    exact Nat.mod_eq_of_lt (by omega)
  rw [hnowrap, List.pairwise_map]
  exact List.pairwise_lt_range.imp fun hij => by omega

section Invariant
variable {W : ℕ} {p : Pipeline} {src : CameraSource}

/-- The frames read from the source, in order. -/
def SourcedShared.read (g : SourcedShared W) : List Frame := g.pushed ++ g.base.capture.inHand

/-- The frames read carry the source's numbers, and the queue's ledger accounts for those pushed
and those taken. -/
structure Accounted (capacity : ℕ) (g : SourcedShared W) : Prop where
  policy : g.base.frames.policy = .dropOldestWhenFull
  capacity_eq : g.base.frames.capacity = capacity
  numbered : g.read.map Frame.sequence = frameNumbers g.read.length
  count : g.source.sequence = g.read.length % 2 ^ 64
  ledger : ∃ L : Ledger Frame, g.base.frames.Follows L ∧ L.produced = g.pushed ∧
    L.delivered = g.base.taken.map Prod.snd

/-- The frames read carry the source's numbers. -/
structure Numbered (g : SourcedShared W) : Prop where
  numbered : g.read.map Frame.sequence = frameNumbers g.read.length
  count : g.source.sequence = g.read.length % 2 ^ 64

theorem Accounted.toNumbered {capacity : ℕ} {g : SourcedShared W} (h : Accounted capacity g) :
    Numbered g := ⟨h.numbered, h.count⟩

/-- Steps that read and push nothing keep the numbers. -/
theorem Numbered.of_eq {g g' : SourcedShared W} (h : Numbered g) (hpushed : g'.pushed = g.pushed)
    (hhand : g'.base.capture.inHand = g.base.capture.inHand)
    (hsource : g'.source.sequence = g.source.sequence) : Numbered g' := by
  have hread : g'.read = g.read := by
    rw [SourcedShared.read, hpushed, hhand, SourcedShared.read]
  exact ⟨by rw [hread, h.numbered], by rw [hread, hsource, h.count]⟩

/-- Short of `2 ^ 64` frames, the numbers of those pushed grow. -/
theorem Numbered.pushed_increasing {g : SourcedShared W} (h : Numbered g)
    (hfew : g.pushed.length < 2 ^ 64) : (g.pushed.map Frame.sequence).Pairwise (· < ·) := by
  have hread : g.pushed.map Frame.sequence =
      (frameNumbers g.read.length).take g.pushed.length := by
    rw [← h.numbered, SourcedShared.read, List.map_append]
    exact (List.take_left' (by rw [List.length_map])).symm
  have htake : g.pushed.map Frame.sequence = frameNumbers g.pushed.length := by
    rw [hread, frameNumbers, ← List.map_take, List.take_range, frameNumbers]
    congr 2
    simp [SourcedShared.read]
  rw [htake]
  exact frameNumbers_pairwise hfew

/-- A step on the source is a step of the pipeline without it. -/
theorem sourcedEnv_base {g g' : SourcedShared W} {e : SourcedEvent}
    (h : sourcedEnv src g e = some g') : ∃ e', pipelineEnv g.base e' = some g'.base := by
  cases e with
  | tick now =>
    obtain ⟨b, hb, rfl⟩ := Option.map_eq_some_iff.mp h
    exact ⟨_, hb⟩
  | stop =>
    obtain ⟨b, hb, rfl⟩ := Option.map_eq_some_iff.mp h
    exact ⟨_, hb⟩
  | capture a =>
    have hcapture (read : Option Frame) :
        pipelineEnv g.base (.capture read) = captureNext g.base read := rfl
    change sourcedCapture src g a = some g' at h
    unfold sourcedCapture at h
    split at h <;>
    · obtain ⟨b, hb, rfl⟩ := Option.map_eq_some_iff.mp h
      exact ⟨.capture _, (hcapture _).trans hb⟩

/-- What one worker step does to the queue: nothing, or one `pop_latest` that returns a frame. -/
theorem workerNext_frames {publish : Fin W → ℕ → PublishResult} {w : Fin W}
    {g g' : PipelineShared W} {l l' : Worker} {a : WorkerStep}
    (h : workerNext p publish w (g, l) a = some (g', l')) :
    g'.capture = g.capture ∧
    ((g'.frames = g.frames ∧ g'.taken = g.taken) ∨
      ∃ frame, g.frames.popLatest = some (g'.frames, some frame) ∧
        g'.taken = g.taken ++ [(w, frame)]) := by
  cases workerNext_move p publish h with
  | finish _ hpop => exact ⟨rfl, .inl ⟨ConcurrentQueue.popLatest_closed hpop, rfl⟩⟩
  | @take q frame _ hpop => exact ⟨rfl, .inr ⟨frame, hpop, rfl⟩⟩
  | test | check | stream | detail | evaluate | pass | hand | infer =>
    exact ⟨rfl, .inl ⟨rfl, rfl⟩⟩

/-- One pass of `capture_loop` reads a frame under the next number, or none. -/
theorem captureRead_sequence (src : CameraSource) (s : SourceState) (a : CapAnswers) :
    ((captureRead src s a).1 = none ∧ (captureRead src s a).2.sequence = s.sequence) ∨
    ∃ frame, (captureRead src s a).1 = some frame ∧
      frame.sequence = (s.sequence + 1) % 2 ^ 64 ∧
      (captureRead src s a).2.sequence = (s.sequence + 1) % 2 ^ 64 := by
  unfold captureRead
  by_cases hopen : s.isOpened
  · rcases src.readFrame_sequence s a with hnone | ⟨frame, hframe, hseq, hnext⟩
    · left
      simp [hopen, hnone]
    · right
      obtain ⟨r, s', hr⟩ : ∃ r s', src.readFrame s a = (r, s') := ⟨_, _, rfl⟩
      rw [hr] at hframe hnext
      change r = some frame at hframe
      subst hframe
      simp only [hopen, hr, ↓reduceIte]
      exact ⟨frame, rfl, hseq, hnext⟩
  · left
    simp [hopen]

/-- Steps that keep the numbers and leave the queue and its records alone keep the account. -/
theorem Accounted.of_numbered {capacity : ℕ} {g g' : SourcedShared W} (h : Accounted capacity g)
    (hnumbered : Numbered g')
    (hframes : g'.base.frames.items = g.base.frames.items ∧
      g'.base.frames.dropped = g.base.frames.dropped ∧
      g'.base.frames.policy = g.base.frames.policy ∧
      g'.base.frames.capacity = g.base.frames.capacity)
    (htaken : g'.base.taken = g.base.taken) (hpushed : g'.pushed = g.pushed) :
    Accounted capacity g' := by
  obtain ⟨hitems, hdropped, hpolicy, hcapacity⟩ := hframes
  obtain ⟨L, hL, hproduced, hdelivered⟩ := h.ledger
  constructor
  · rw [hpolicy, h.policy]
  · rw [hcapacity, h.capacity_eq]
  · exact hnumbered.numbered
  · exact hnumbered.count
  · exact ⟨L, ⟨hitems.trans hL.items, hdropped.trans hL.dropped⟩, by rw [hproduced, hpushed],
      by rw [hdelivered, htaken]⟩

theorem Accounted.worker {capacity : ℕ} {publish : Fin W → ℕ → PublishResult} {w : Fin W}
    {g : SourcedShared W} {b : PipelineShared W} {l l' : Worker} {a : WorkerStep}
    (h : Accounted capacity g) (hstep : workerNext p publish w (g.base, l) a = some (b, l')) :
    Accounted capacity { g with base := b } := by
  obtain ⟨hcapture, hpop⟩ := workerNext_frames hstep
  have hnumbered : Numbered { g with base := b } :=
    h.toNumbered.of_eq rfl (by rw [hcapture]) rfl
  rcases hpop with ⟨hframes, htaken⟩ | ⟨frame, hpop, htaken⟩
  · exact h.of_numbered hnumbered (by simp [hframes]) htaken rfl
  · obtain ⟨L, hL, hproduced, hdelivered⟩ := h.ledger
    obtain ⟨_, hpolicy, hcapacity, L', hL', hproduced', hdelivered'⟩ :=
      ConcurrentQueue.popLatest_follows hL hpop
    constructor
    · exact hpolicy.trans h.policy
    · exact hcapacity.trans h.capacity_eq
    · exact hnumbered.numbered
    · exact hnumbered.count
    · refine ⟨L', hL', hproduced'.trans hproduced, ?_⟩
      rw [hdelivered', hdelivered, htaken, List.map_append]
      rfl

/-- What a pass of `capture_loop` reads leaves the queue and what was pushed as they are. -/
theorem sourcedCapture_reading {g g' : SourcedShared W} {a : CapAnswers}
    (hpc : g.base.capture = .reading) (hstep : sourcedCapture src g a = some g') :
    g'.base.frames = g.base.frames ∧ g'.base.taken = g.base.taken ∧ g'.pushed = g.pushed := by
  simp only [sourcedCapture, captureNext, hpc] at hstep
  rcases captureRead_sequence src g.source a with ⟨hnone, _⟩ | ⟨frame, hsome, _, _⟩
  · simp only [hnone, Option.map_some, Option.some.injEq] at hstep
    subst hstep
    exact ⟨rfl, rfl, rfl⟩
  · simp only [hsome, Option.map_some, Option.some.injEq] at hstep
    subst hstep
    exact ⟨rfl, rfl, rfl⟩

/-- `capture_loop` reads: the frame it has in hand carries the next number. -/
theorem Numbered.reading {g g' : SourcedShared W} {a : CapAnswers} (h : Numbered g)
    (hpc : g.base.capture = .reading) (hstep : sourcedCapture src g a = some g') :
    Numbered g' := by
  have hempty : g.base.capture.inHand = [] := by
    rw [hpc]
    rfl
  simp only [sourcedCapture, captureNext, hpc] at hstep
  rcases captureRead_sequence src g.source a with ⟨hnone, hseq⟩ | ⟨frame, hsome, hf, hseq⟩
  · simp only [hnone, Option.map_some, Option.some.injEq] at hstep
    subst hstep
    exact h.of_eq rfl hempty.symm hseq
  · simp only [hsome, Option.map_some, Option.some.injEq] at hstep
    subst hstep
    have hold : g.read = g.pushed := by rw [SourcedShared.read, hempty, List.append_nil]
    have hnumbered := h.numbered
    have hcount := h.count
    rw [hold] at hnumbered hcount
    -- The source counted the pushed frames, so the new number is the next one.
    have hnext : (g.source.sequence + 1) % 2 ^ 64 = (g.pushed.length + 1) % 2 ^ 64 := by
      rw [hcount, Nat.mod_add_mod]
    constructor
    · simp only [SourcedShared.read, CapturePc.inHand, List.map_append, List.map_cons,
        List.map_nil, List.length_append, List.length_cons, List.length_nil, Nat.zero_add,
        frameNumbers_succ]
      rw [hnumbered, hf, hnext]
    · simp only [SourcedShared.read, CapturePc.inHand, List.length_append, List.length_cons,
        List.length_nil, Nat.zero_add]
      rw [hseq, hnext]

/-- No step of `capture_loop` breaks the numbering. -/
theorem Numbered.capture {g g' : SourcedShared W} {a : CapAnswers} (h : Numbered g)
    (hstep : sourcedCapture src g a = some g') : Numbered g' := by
  cases hpc : g.base.capture
  case reading => exact h.reading hpc hstep
  case done => simp [sourcedCapture, captureNext, hpc] at hstep
  case testing =>
    simp only [sourcedCapture, captureNext, hpc, Option.map_some, Option.some.injEq] at hstep
    subst hstep
    have hhand : (if g.base.running then CapturePc.reading else .done).inHand =
        g.base.capture.inHand := by
      rw [hpc]
      by_cases hrunning : g.base.running <;> simp [hrunning, CapturePc.inHand]
    exact h.of_eq rfl hhand rfl
  case pushing frame =>
    simp only [sourcedCapture, hpc, Option.map_eq_some_iff] at hstep
    obtain ⟨b, hb, rfl⟩ := hstep
    simp only [captureNext, hpc, Option.map_eq_some_iff] at hb
    obtain ⟨r, _, rfl⟩ := hb
    have hread : SourcedShared.read
        { g with
          base := { g.base with frames := r.1, capture := .testing }
          pushed := g.pushed ++ [frame] } = g.read := by
      simp [SourcedShared.read, hpc, CapturePc.inHand]
    exact ⟨by rw [hread, h.numbered], by rw [hread]; exact h.count⟩

theorem Numbered.env {g g' : SourcedShared W} {e : SourcedEvent} (h : Numbered g)
    (hstep : sourcedEnv src g e = some g') : Numbered g' := by
  cases e with
  | capture a => exact h.capture hstep
  | tick | stop =>
    obtain ⟨b, hb, rfl⟩ := Option.map_eq_some_iff.mp hstep
    cases pipelineEnv_move hb <;> exact h.of_eq rfl rfl rfl

/-- `capture_loop` pushes the frame in hand. -/
theorem Accounted.pushing {capacity : ℕ} {g g' : SourcedShared W} {a : CapAnswers} {frame : Frame}
    (h : Accounted capacity g) (hcap : 1 ≤ capacity) (hpc : g.base.capture = .pushing frame)
    (hstep : sourcedCapture src g a = some g') : Accounted capacity g' := by
  have hnumbered := h.toNumbered.capture hstep
  obtain ⟨L, hL, hproduced, hdelivered⟩ := h.ledger
  obtain ⟨q, hpush, hpolicy, hcapacity, hq⟩ := ConcurrentQueue.push_follows hL h.policy
    (by rw [h.capacity_eq]; exact hcap) frame
  simp only [sourcedCapture, captureNext, hpc, hpush, Option.map_some, Option.some.injEq] at hstep
  subst hstep
  constructor
  · exact hpolicy.trans h.policy
  · exact hcapacity.trans h.capacity_eq
  · exact hnumbered.numbered
  · exact hnumbered.count
  · refine ⟨_, hq, ?_, ?_⟩
    · rw [Ledger.produced_put, Ledger.produced_discard, hproduced]
    · rw [Ledger.delivered_put, Ledger.delivered_discard, hdelivered]

theorem Accounted.capture {capacity : ℕ} {g g' : SourcedShared W} {a : CapAnswers}
    (h : Accounted capacity g) (hcap : 1 ≤ capacity) (hstep : sourcedCapture src g a = some g') :
    Accounted capacity g' := by
  have hnumbered := h.toNumbered.capture hstep
  cases hpc : g.base.capture
  case reading =>
    obtain ⟨hframes, htaken, hpushed⟩ := sourcedCapture_reading hpc hstep
    exact h.of_numbered hnumbered (by simp [hframes]) htaken hpushed
  case pushing frame => exact h.pushing hcap hpc hstep
  case done => simp [sourcedCapture, captureNext, hpc] at hstep
  case testing =>
    simp only [sourcedCapture, captureNext, hpc, Option.map_some, Option.some.injEq] at hstep
    subst hstep
    exact h.of_numbered hnumbered ⟨rfl, rfl, rfl, rfl⟩ rfl rfl

theorem Accounted.env {capacity : ℕ} {g g' : SourcedShared W} {e : SourcedEvent}
    (h : Accounted capacity g) (hcap : 1 ≤ capacity) (hstep : sourcedEnv src g e = some g') :
    Accounted capacity g' := by
  have hnumbered := h.toNumbered.env hstep
  cases e with
  | capture a => exact h.capture hcap hstep
  | tick | stop =>
    obtain ⟨b, hb, rfl⟩ := Option.map_eq_some_iff.mp hstep
    cases pipelineEnv_move hb <;> exact h.of_numbered hnumbered ⟨rfl, rfl, rfl, rfl⟩ rfl rfl

end Invariant

section Runs
variable {p : Pipeline} {publish : Fin p.cfg.inferenceWorkers → ℕ → PublishResult}
  {now : TimePoint} {src : CameraSource} {a : CapAnswers}
  {c d : Config (Fin p.cfg.inferenceWorkers) (SourcedShared p.cfg.inferenceWorkers) Worker}

/-- Every reachable state accounts for its frames. -/
theorem sourced_accounted (hcap : 1 ≤ p.cfg.frameQueueCapacity)
    (hc : (sourcedSystem p publish now src a).Reachable c) :
    Accounted p.cfg.frameQueueCapacity c.shared := by
  apply hc.invariant (I := fun c => Accounted p.cfg.frameQueueCapacity c.shared)
  · refine ⟨rfl, rfl, rfl, ?_, {}, ⟨rfl, rfl⟩, rfl, rfl⟩
    show (src.openSource {} a).2.sequence = 0
    rw [CameraSource.openSource_sequence]
  · intro c label d _ h hstep
    cases label with
    | thread w step =>
      obtain ⟨g, l, hnext, rfl⟩ := Program.system_thread hstep
      obtain ⟨r, hr, heq⟩ := Option.map_eq_some_iff.mp hnext
      rw [Prod.mk.injEq] at heq
      obtain ⟨rfl, rfl⟩ := heq
      exact h.worker hr
    | env e =>
      obtain ⟨g, hg, rfl⟩ := Program.system_env hstep
      exact h.env hcap hg

/-- A step that takes a frame takes the last one pushed. -/
theorem step_takes_newest (h : Accounted p.cfg.frameQueueCapacity c.shared)
    {label : Label (Fin p.cfg.inferenceWorkers) WorkerStep SourcedEvent}
    (hstep : (sourcedSystem p publish now src a).step c label d)
    {w : Fin p.cfg.inferenceWorkers} {frame : Frame}
    (htaken : d.shared.base.taken = c.shared.base.taken ++ [(w, frame)]) :
    c.shared.pushed.getLast? = some frame := by
  have hgrows : d.shared.base.taken ≠ c.shared.base.taken := by
    rw [htaken]
    simp
  cases label with
  | thread v step =>
    obtain ⟨g, l, hnext, rfl⟩ := Program.system_thread hstep
    obtain ⟨r, hr, heq⟩ := Option.map_eq_some_iff.mp hnext
    rw [Prod.mk.injEq] at heq
    obtain ⟨rfl, rfl⟩ := heq
    obtain ⟨_, ⟨_, hsame⟩ | ⟨frame', hpop, htaken'⟩⟩ := workerNext_frames hr
    · exact absurd hsame hgrows
    · obtain ⟨L, hL, hproduced, _⟩ := h.ledger
      have hnewest := (ConcurrentQueue.popLatest_follows hL hpop).1
      have hboth := htaken'.symm.trans htaken
      simp only [List.append_cancel_left_eq, List.cons.injEq, Prod.mk.injEq, and_true] at hboth
      rw [← hboth.2, ← hproduced]
      exact hnewest
  | env e =>
    obtain ⟨g, hg, rfl⟩ := Program.system_env hstep
    obtain ⟨e', henv⟩ := sourcedEnv_base hg
    have hkeeps : g.base.taken = c.shared.base.taken := (pipelineEnv_shared henv).2.1
    exact absurd hkeeps hgrows

end Runs

/-- In this state, the next frame taken is the last one pushed, the numbers of those taken grow,
and the drop counter makes up the difference between the frames pushed and the frames taken or
still queued. -/
structure TakesFreshest (p : Pipeline) (publish : Fin p.cfg.inferenceWorkers → ℕ → PublishResult)
    (now : TimePoint) (src : CameraSource) (a : CapAnswers)
    (c : Config (Fin p.cfg.inferenceWorkers) (SourcedShared p.cfg.inferenceWorkers) Worker) :
    Prop where
  newest : ∀ label d, (sourcedSystem p publish now src a).step c label d →
    ∀ w frame, d.shared.base.taken = c.shared.base.taken ++ [(w, frame)] →
      c.shared.pushed.getLast? = some frame
  increasing : (c.shared.base.taken.map fun x => x.2.sequence).Pairwise (· < ·)
  balance : c.shared.base.frames.dropped + c.shared.base.taken.length +
    c.shared.base.frames.items.length = c.shared.pushed.length

/-- With room in the queue and short of `2 ^ 64` frames, whatever the interleaving and however
often the source is closed, opened again or rewound. -/
theorem pipeline_takesFreshest {p : Pipeline}
    {publish : Fin p.cfg.inferenceWorkers → ℕ → PublishResult} {now : TimePoint}
    {src : CameraSource} {a : CapAnswers}
    {c : Config (Fin p.cfg.inferenceWorkers) (SourcedShared p.cfg.inferenceWorkers) Worker}
    (hcap : 1 ≤ p.cfg.frameQueueCapacity)
    (hc : (sourcedSystem p publish now src a).Reachable c)
    (hfew : c.shared.pushed.length < 2 ^ 64) : TakesFreshest p publish now src a c := by
  have h := sourced_accounted hcap hc
  obtain ⟨L, hL, hproduced, hdelivered⟩ := h.ledger
  constructor
  · intro label d hstep w frame htaken
    exact step_takes_newest h hstep htaken
  · have hpushed := h.toNumbered.pushed_increasing hfew
    have hsub : (c.shared.base.taken.map Prod.snd).Sublist c.shared.pushed := by
      rw [← hdelivered, ← hproduced]
      exact (List.sublist_append_left _ _).trans L.delivered_sublist
    have htaken := hpushed.sublist (hsub.map Frame.sequence)
    rwa [List.map_map] at htaken
  · have hbalance := L.length_balance
    rw [hL.dropped, hL.items, ← hproduced]
    rw [hdelivered, List.length_map] at hbalance
    exact hbalance

/-- A video file that is read to its end, rewound and read again: two frames are pushed before the
worker looks, and it takes the second. -/
theorem rewound_video_takesFreshest :
    ∃ c, (c.shared.base.taken.map fun x => x.2.sequence) = [2] ∧
      c.shared.base.frames.dropped = 1 ∧
      TakesFreshest { cameraId := "dock" } (fun _ _ => .ok ()) 0 (.videoFile {})
        ⟨true, ⟨true, ⟨1, 1⟩⟩, ⟨false, {}⟩, 0⟩ c := by
  let good : CapAnswers := ⟨true, ⟨true, ⟨1, 1⟩⟩, ⟨false, {}⟩, 0⟩
  let rewound : CapAnswers := ⟨true, ⟨false, {}⟩, ⟨true, ⟨1, 1⟩⟩, 0⟩
  have hrun : ∃ c, (sourcedSystem { cameraId := "dock" } (fun _ _ => .ok ()) 0 (.videoFile {})
      good).Reachable c ∧ (c.shared.base.taken.map fun x => x.2.sequence) = [2] ∧
      c.shared.base.frames.dropped = 1 ∧ c.shared.pushed.length = 2 :=
    exists_reachable_of_exec
      [.env (.capture good), .env (.capture good), .env (.capture good), .env (.capture good),
        .env (.capture rewound), .env (.capture good), .thread 0 .advance, .thread 0 .advance]
      ⟨_, rfl, rfl, rfl, rfl⟩
  obtain ⟨c, hc, hseq, hdropped, hlen⟩ := hrun
  exact ⟨c, hseq, hdropped, pipeline_takesFreshest (by decide) hc (by rw [hlen]; decide)⟩

end ForkliftSafety
