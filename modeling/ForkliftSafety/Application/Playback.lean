import ForkliftSafety.Application.FreshestFrame
import ForkliftSafety.Infrastructure.VideoFile

/-! `capture_loop` over a video file: which frames of the file it pushes, and when it pushes one of
them again. -/
namespace ForkliftSafety
open Transition

/-- Where `capture_loop` stands. A frame goes with its place in the file. -/
inductive PlaybackPc where
  | opening
  | testing
  | passing
  | pushing (k : ℕ) (frame : Frame)
  | done

/-- The place in the file of the frame that is read and not yet pushed. -/
def PlaybackPc.inHand : PlaybackPc → List ℕ
  | .pushing k _ => [k]
  | _ => []

structure Playback where
  running : Bool := true
  source : FileSource := {}
  pc : PlaybackPc := .opening
  pushed : List (ℕ × Frame) := []

/-- A step of `capture_loop`, with what an opening of the file comes to in it, or a `stop`. -/
inductive PlaybackEvent where
  | capture (opens : Bool) (now : TimePoint)
  | stop

namespace Playback

section System
variable (file : VideoFile) (cfg : VideoFileConfig)

/-- The body of the loop up to the push. -/
def pass (s : FileSource) (opens : Bool) (now : TimePoint) : Option (ℕ × Frame) × FileSource :=
  if s.cap.isOpened then
    match s.readFrame file cfg now with
    | (none, s') => (none, s'.close)
    | (some read, s') => (some read, s')
  else (none, s.openSource opens)

def capture (s : Playback) (opens : Bool) (now : TimePoint) : Option Playback :=
  match s.pc with
  | .opening => some { s with source := s.source.openSource opens, pc := .testing }
  | .testing => some { s with pc := if s.running then .passing else .done }
  | .passing =>
    match pass file cfg s.source opens now with
    | (none, source) => some { s with source := source, pc := .testing }
    | (some (k, frame), source) => some { s with source := source, pc := .pushing k frame }
  | .pushing k frame => some { s with pc := .testing, pushed := s.pushed ++ [(k, frame)] }
  | .done => none

def next (s : Playback) : PlaybackEvent → Option Playback
  | .capture opens now => s.capture file cfg opens now
  | .stop => some { s with running := false }

def system : LTS Playback PlaybackEvent := LTS.ofNext {} (next file cfg)

/-- The body of the loop is the one of any source, with the answers of the file. -/
theorem pass_agrees (s : FileSource) (opens : Bool) (now : TimePoint) :
    (pass file cfg s opens now).1.map Prod.snd =
        (captureRead (.videoFile cfg) s.state (s.answers file opens now)).1 ∧
      (pass file cfg s opens now).2.state =
        (captureRead (.videoFile cfg) s.state (s.answers file opens now)).2 := by
  obtain ⟨hframe, hstate⟩ := FileSource.readFrame_agrees file cfg s opens now
  unfold pass captureRead
  by_cases h : s.cap.isOpened = true
  · rw [if_pos h, if_pos (show s.state.isOpened = true from h)]
    obtain ⟨r, s', hr⟩ : ∃ r s', s.readFrame file cfg now = (r, s') := ⟨_, _, rfl⟩
    obtain ⟨q, t, hq⟩ : ∃ q t, (CameraSource.videoFile cfg).readFrame s.state
      (s.answers file opens now) = (q, t) := ⟨_, _, rfl⟩
    rw [hr, hq] at hframe hstate
    rw [hr, hq]
    obtain rfl : r.map Prod.snd = q := hframe
    obtain rfl : s'.state = t := hstate
    cases r with
    | none => exact ⟨rfl, s'.close_agrees⟩
    | some read => exact ⟨rfl, rfl⟩
  · rw [if_neg h, if_neg (show ¬ s.state.isOpened = true from h)]
    cases opens <;> exact ⟨rfl, rfl⟩

end System

section Once
variable {file : VideoFile} {cfg : VideoFileConfig}

/-- The places in the file of the frames that were read, in the order of their reading. -/
def played (s : Playback) : List ℕ := s.pushed.map Prod.fst ++ s.pc.inHand

/-- No frame of the file has been pushed twice. -/
structure PlayedOnce (file : VideoFile) (s : Playback) : Prop where
  once : (s.pushed.map Prod.fst).Nodup
  few : s.pushed.length ≤ file.frames.length

/-- While the loop goes on, no opening of the file succeeds after a frame has been pushed. -/
def NotReopened (s : Playback) : PlaybackEvent → Prop
  | .capture opens _ => s.pc = .passing → s.source.cap.isOpened = false → opens = true →
      s.running = true → s.pushed = []
  | .stop => True

theorem NotReopened.of_pc {s : Playback} (h : s.pc ≠ .passing) {opens : Bool} {now : TimePoint} :
    NotReopened s (.capture opens now) :=
  fun hpc => absurd hpc h

theorem NotReopened.of_isOpened {s : Playback} (h : s.source.cap.isOpened = true) {opens : Bool}
    {now : TimePoint} : NotReopened s (.capture opens now) := by
  intro _ hclosed
  rw [h] at hclosed
  contradiction

/-- The frames are read in the order of the file, and while the loop goes on an open capture stands
behind the last of them. -/
structure InOrder (file : VideoFile) (s : Playback) : Prop where
  order : s.played = List.range s.played.length
  few : s.played.length ≤ file.frames.length
  position : s.source.cap.isOpened = true → s.running = true ∨ s.pc = .passing →
    s.source.cap.position = s.played.length
  fresh : s.pc = .opening → s.pushed = []

theorem InOrder.playedOnce {s : Playback} (h : InOrder file s) : PlayedOnce file s := by
  have hnodup : s.played.Nodup := by
    rw [h.order]
    exact List.nodup_range
  have hfew := h.few
  constructor
  · exact hnodup.of_append_left
  · unfold played at hfew
    rw [List.length_append, List.length_map] at hfew
    omega

/-- A pass at the end of the file closes it. -/
theorem pass_end {s : FileSource} (hopen : s.cap.isOpened = true) (hloop : cfg.loop = false)
    (hend : file.frames[s.cap.position]? = none) (opens : Bool) (now : TimePoint) :
    pass file cfg s opens now = (none, s.close) := by
  rw [pass, if_pos hopen, FileSource.readFrame_end hloop hend]

theorem pass_frame {s : FileSource} {mat : Image} (hopen : s.cap.isOpened = true)
    (hmat : file.frames[s.cap.position]? = some mat) (opens : Bool) (now : TimePoint) :
    pass file cfg s opens now =
      s.stamp cfg { s.cap with position := s.cap.position + 1 } s.cap.position mat now := by
  rw [pass, if_pos hopen, FileSource.readFrame_frame hopen hmat]
  rfl

theorem pass_closed {s : FileSource} (hclosed : s.cap.isOpened = false) (opens : Bool)
    (now : TimePoint) : pass file cfg s opens now = (none, s.openSource opens) := by
  rw [pass, if_neg (by simp [hclosed])]

theorem close_isOpened (s : FileSource) : s.close.cap.isOpened = false := by
  unfold FileSource.close
  split_ifs with h
  · rfl
  · simpa using h

/-- A pass in a loop that has not opened the file again. -/
theorem InOrder.passing {s t : Playback} (h : InOrder file s) (hloop : cfg.loop = false)
    (hpc : s.pc = .passing) {opens : Bool} {now : TimePoint}
    (hguard : NotReopened s (.capture opens now)) (hstep : s.capture file cfg opens now = some t) :
    InOrder file t := by
  have hplayed : s.played = s.pushed.map Prod.fst := by simp [played, hpc, PlaybackPc.inHand]
  have horder := h.order
  have hfew := h.few
  simp only [capture, hpc] at hstep
  by_cases hopen : s.source.cap.isOpened = true
  · have hposition := h.position hopen (.inr hpc)
    cases hmat : file.frames[s.source.cap.position]? with
    | none =>
      rw [pass_end hopen hloop hmat, Option.some.injEq] at hstep
      subst hstep
      have hsame : Playback.played { s with source := s.source.close, pc := .testing } =
          s.played := by simp [played, hpc, PlaybackPc.inHand]
      refine ⟨by rw [hsame, ← horder], by rw [hsame]; exact hfew, fun hopened => ?_, by simp⟩
      rw [close_isOpened] at hopened
      contradiction
    | some mat =>
      rw [pass_frame hopen hmat] at hstep
      simp only [FileSource.stamp, Option.some.injEq] at hstep
      subst hstep
      have hlt : s.source.cap.position < file.frames.length := (List.getElem?_eq_some_iff.mp hmat).1
      have hmore (frame : Frame) (source : FileSource) : Playback.played
          { s with source := source, pc := .pushing s.source.cap.position frame } =
            List.range (s.played.length + 1) := by
        rw [List.range_succ, ← horder, ← hposition, hplayed]
        rfl
      refine ⟨by rw [hmore, List.length_range], ?_, fun _ _ => ?_, by simp⟩
      · rw [hmore, List.length_range]
        omega
      · rw [hmore, List.length_range, ← hposition]
  · have hclosed : s.source.cap.isOpened = false := by simpa using hopen
    rw [pass_closed hclosed, Option.some.injEq] at hstep
    subst hstep
    have hsame : Playback.played { s with source := s.source.openSource opens, pc := .testing } =
        s.played := by simp [played, hpc, PlaybackPc.inHand]
    refine ⟨by rw [hsame, ← horder], by rw [hsame]; exact hfew, fun hopened hruns => ?_, by simp⟩
    have hrunning : s.running = true := hruns.resolve_right (by simp)
    have hnothing := hguard hpc hclosed hopened hrunning
    rw [hsame, hplayed, hnothing]
    rfl

theorem InOrder.step {s t : Playback} {e : PlaybackEvent} (h : InOrder file s)
    (hloop : cfg.loop = false) (hguard : NotReopened s e) (hstep : next file cfg s e = some t) :
    InOrder file t := by
  cases e with
  | stop =>
    obtain rfl := Option.some.inj hstep
    exact ⟨h.order, h.few, fun hopen hruns => h.position hopen (hruns.imp_left nofun), h.fresh⟩
  | capture opens now =>
    change s.capture file cfg opens now = some t at hstep
    cases hpc : s.pc with
    | passing => exact h.passing hloop hpc hguard hstep
    | done => simp [capture, hpc] at hstep
    | opening =>
      simp only [capture, hpc, Option.some.injEq] at hstep
      subst hstep
      have hempty := h.fresh hpc
      have hsame : Playback.played { s with source := s.source.openSource opens, pc := .testing } =
          [] := by simp [played, hempty, PlaybackPc.inHand]
      refine ⟨by rw [hsame]; rfl, by rw [hsame]; exact Nat.zero_le _, fun _ _ => ?_, nofun⟩
      rw [hsame]
      rfl
    | testing =>
      simp only [capture, hpc, Option.some.injEq] at hstep
      subst hstep
      have hsame : Playback.played
          { s with pc := if s.running = true then .passing else .done } = s.played := by
        by_cases hrunning : s.running = true <;> simp [played, hpc, hrunning, PlaybackPc.inHand]
      refine ⟨by rw [hsame, ← h.order], by rw [hsame]; exact h.few, fun hopen hruns => ?_, ?_⟩
      · rw [hsame]
        apply h.position hopen
        left
        by_cases hrunning : s.running = true
        · exact hrunning
        · simp [hrunning] at hruns
      · intro hopening
        by_cases hrunning : s.running = true <;> simp [hrunning] at hopening
    | pushing k frame =>
      simp only [capture, hpc, Option.some.injEq] at hstep
      subst hstep
      have hsame : Playback.played { s with pc := .testing, pushed := s.pushed ++ [(k, frame)] } =
          s.played := by simp [played, hpc, PlaybackPc.inHand]
      refine ⟨by rw [hsame, ← h.order], by rw [hsame]; exact h.few, fun hopen hruns => ?_, nofun⟩
      rw [hsame]
      exact h.position hopen (.inl (hruns.resolve_right nofun))

theorem inOrder_of_reachable (hloop : cfg.loop = false) {s : Playback}
    (h : ((system file cfg).restrict NotReopened).Reachable s) : InOrder file s := by
  apply h.invariant (I := InOrder file)
  · exact ⟨rfl, Nat.zero_le _, nofun, fun _ => rfl⟩
  · intro s e t _ hs hstep
    obtain ⟨hguard, hnext⟩ := LTS.restrict_step hstep
    exact hs.step hloop hguard hnext

/-- Opened again after some frames, the loop can push the first frame again. -/
theorem replays {s t : Playback} {e : PlaybackEvent} (h : InOrder file s)
    (hguard : ¬ NotReopened s e) (hstep : next file cfg s e = some t) :
    ∃ u, (system file cfg).Path t u ∧ ¬ PlayedOnce file u := by
  cases e with
  | stop => exact absurd trivial hguard
  | capture opens now =>
    simp only [NotReopened, Classical.not_imp] at hguard
    obtain ⟨hpc, hclosed, rfl, hrunning, hsome⟩ := hguard
    have hplayed : s.played = s.pushed.map Prod.fst := by simp [played, hpc, PlaybackPc.inHand]
    have hlength : s.played.length = s.pushed.length := by rw [hplayed, List.length_map]
    have hpositive : 0 < s.pushed.length := List.length_pos_iff.mpr hsome
    have hfew := h.few
    obtain ⟨mat, hmat⟩ : ∃ mat, file.frames[0]? = some mat :=
      ⟨_, List.getElem?_eq_getElem (show 0 < file.frames.length by omega)⟩
    simp only [next, capture, hpc, pass_closed hclosed, Option.some.injEq] at hstep
    subst hstep
    obtain ⟨frame, source, hread⟩ : ∃ frame source,
        pass file cfg (s.source.openSource true) true now = (some (0, frame), source) :=
      ⟨_, _, pass_frame rfl hmat true now⟩
    obtain ⟨u, hrun, hpushed⟩ : ∃ u, exec (next file cfg)
        { s with source := s.source.openSource true, pc := .testing }
          [.capture true now, .capture true now, .capture true now] = some u ∧
        u.pushed.map Prod.fst = s.pushed.map Prod.fst ++ [0] := by
      simp [exec, next, capture, hrunning, hread]
    refine ⟨u, path_of_exec hrun, fun hu => ?_⟩
    have hzero : 0 ∈ s.pushed.map Prod.fst := by
      rw [← hplayed, h.order, List.mem_range]
      omega
    have honce := hu.once
    rw [hpushed, List.nodup_append] at honce
    exact honce.2.2 0 hzero 0 List.mem_cons_self rfl

end Once

/-- A file that does not loop is played once in every run that does not open it again while the
loop goes on, and the first time that it is opened again, it can be played again. -/
theorem played_once_until_reopened {file : VideoFile} {cfg : VideoFileConfig}
    (hloop : cfg.loop = false) :
    (∀ s, ((system file cfg).restrict NotReopened).Reachable s → PlayedOnce file s) ∧
      ∀ s e t, ((system file cfg).restrict NotReopened).Reachable s → (system file cfg).step s e t →
        ¬ NotReopened s e → ∃ u, (system file cfg).Path t u ∧ ¬ PlayedOnce file u :=
  ⟨fun _ hs => (inOrder_of_reachable hloop hs).playedOnce,
    fun _ _ _ hs hstep hguard => replays (inOrder_of_reachable hloop hs) hguard hstep⟩

/-- A video of one frame. -/
def clip : VideoFile where
  frames := [⟨1, 1⟩]
  readable := by simp [CapRead.failed]

/-- The frame is pushed in a run that opens the file once. -/
theorem clip_played_once : ∃ s, s.pushed.map Prod.fst = [0] ∧ PlayedOnce clip s := by
  have hrun : ∃ s, ((system clip { loop := false }).restrict NotReopened).Reachable s ∧
      s.pushed.map Prod.fst = [0] := by
    let M := (system clip { loop := false }).restrict NotReopened
    let a : PlaybackEvent := .capture true 0
    have hstart : M.Reachable {} := LTS.Reachable.start
    have hopened := hstart.next a (.of_pc (by intro h; cases h)) rfl
    have htested := hopened.next a (.of_pc (by intro h; cases h)) rfl
    have hread := htested.next a (.of_isOpened rfl) rfl
    have hpushed := hread.next a (.of_pc (by intro h; cases h)) rfl
    exact ⟨_, hpushed, rfl⟩
  obtain ⟨s, hs, hpushed⟩ := hrun
  exact ⟨s, hpushed, (played_once_until_reopened rfl).1 s hs⟩

/-- With an opening after the end, it is pushed a second time. -/
theorem clip_played_twice :
    ∃ s, (system clip { loop := false }).Reachable s ∧ ¬ PlayedOnce clip s := by
  have hrun : ∃ s, (system clip { loop := false }).Reachable s ∧
      s.pushed.map Prod.fst = [0, 0] :=
    exists_reachable_of_exec (List.replicate 11 (.capture true 0)) ⟨_, rfl, rfl⟩
  obtain ⟨s, hs, hpushed⟩ := hrun
  refine ⟨s, hs, fun h => ?_⟩
  have honce := h.once
  rw [hpushed] at honce
  exact absurd honce (by decide)

end Playback
end ForkliftSafety
