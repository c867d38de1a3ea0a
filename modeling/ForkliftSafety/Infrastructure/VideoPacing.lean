import ForkliftSafety.Infrastructure.VideoSource
import ForkliftSafety.Library.Pacing
import Mathlib.Data.Rat.Floor

/-! How `VideoFileSource` keeps to the frame rate of its file. -/
namespace ForkliftSafety
open Pacing

/-- The frame rate that `open` goes by; `none` is metadata that is not a number. -/
def nativeFps (fps : Option ℚ) : ℚ :=
  match fps with
  | some fps => if fps ≤ 0 ∨ fps > 240 then 25 else fps
  | none => 25

/-- `static_cast<long>(1000.0 / fps)`. -/
def frameIntervalOf (fps : Option ℚ) : Milliseconds := ⌊1000 / nativeFps fps⌋

theorem nativeFps_range (fps : Option ℚ) : 0 < nativeFps fps ∧ nativeFps fps ≤ 240 := by
  cases fps with
  | none => norm_num [nativeFps]
  | some fps =>
    unfold nativeFps
    by_cases h : fps ≤ 0 ∨ fps > 240
    · norm_num [h]
    · rw [not_or, not_le, not_lt] at h
      simpa [not_le.mpr h.1, not_lt.mpr h.2] using h

/-- No metadata makes an interval that turns pacing off. -/
theorem frameIntervalOf_pos (fps : Option ℚ) : 0 < frameIntervalOf fps := by
  obtain ⟨hpos, hmax⟩ := nativeFps_range fps
  have hone : (1 : ℚ) ≤ 1000 / nativeFps fps := by
    rw [le_div_iff₀ hpos]
    linarith
  exact Int.floor_pos.mpr hone

/-- The fields of an open `VideoFileSource` that pacing goes by. -/
structure Pacer where
  realtimePacing : Bool
  frameInterval : Milliseconds
  nextFrameAt : TimePoint
  deriving DecidableEq, Repr

namespace Pacer

/-- What `open` leaves, at the time `now`. -/
def opened (cfg : VideoFileConfig) (fps : Option ℚ) (now : TimePoint) : Pacer where
  realtimePacing := cfg.realtimePacing
  frameInterval := frameIntervalOf fps
  nextFrameAt := now

/-- The frame interval in the unit of the clock. -/
def interval (p : Pacer) : ℤ := p.frameInterval * 1000000

/-- `pace`, with how long it asks `sleep_for` to sleep. -/
def pace (p : Pacer) (now : TimePoint) : ℤ × Pacer :=
  if !p.realtimePacing || p.frameInterval ≤ 0 then (0, p)
  else if now < p.nextFrameAt then
    (p.nextFrameAt - now, { p with nextFrameAt := p.nextFrameAt + p.interval })
  else (0, { p with nextFrameAt := now + p.interval })

/-- Calls of `pace` one after another. The clock does not go back, and a call may return any time
after its sleep: `sleep_for` sleeps no shorter than it was asked to. -/
inductive Paces : Pacer → TimePoint → List (Call TimePoint) → Prop
  | nil {p : Pacer} {clock : TimePoint} : Paces p clock []
  | cons {p : Pacer} {clock : TimePoint} {c : Call TimePoint} {rest : List (Call TimePoint)}
      (hclock : clock ≤ c.now) (hsleep : c.now + (p.pace c.now).1 ≤ c.returned)
      (hrest : Paces (p.pace c.now).2 c.returned rest) : Paces p clock (c :: rest)

variable {p : Pacer}

/-- With pacing on, a call sleeps until its turn, and both branches put the next turn one interval
after the later of the turn and the reading of the clock. -/
theorem pace_of_on (hreal : p.realtimePacing = true) (hpos : 0 < p.frameInterval)
    (now : TimePoint) : p.pace now = (max p.nextFrameAt now - now,
      { p with nextFrameAt := advance p.interval p.nextFrameAt now }) := by
  have hon : (!p.realtimePacing || decide (p.frameInterval ≤ 0)) = false := by
    simp [hreal, hpos]
  unfold pace advance
  rw [hon]
  by_cases hearly : now < p.nextFrameAt
  · simp [hearly, hearly.le]
  · simp [hearly, not_lt.mp hearly]

theorem Paces.paced {clock : TimePoint} {calls : List (Call TimePoint)} (h : Paces p clock calls)
    (hreal : p.realtimePacing = true) (hpos : 0 < p.frameInterval) :
    Paced p.interval p.nextFrameAt clock calls := by
  induction h with
  | nil => exact .nil
  | @cons p clock c rest hclock hsleep hrest ih =>
    rw [pace_of_on hreal hpos] at hsleep ih
    rw [add_sub_cancel] at hsleep
    exact .cons hclock hsleep (ih hreal hpos)

/-- A source that was opened to be paced is paced, whatever the metadata of its file. -/
theorem opened_paced {cfg : VideoFileConfig} {fps : Option ℚ} {now clock : TimePoint}
    {calls : List (Call TimePoint)} (hreal : cfg.realtimePacing = true)
    (h : Paces (opened cfg fps now) clock calls) :
    Paced (opened cfg fps now).interval now clock calls :=
  h.paced hreal (frameIntervalOf_pos fps)

/-- However long the calls are held up, before them or in their sleep, two of them return as far
apart as the calls between them take at the frame rate of the file, and after a call that came late
the frames it was late for are not made up for. -/
theorem pace_never_bursts {clock : TimePoint} {calls : List (Call TimePoint)}
    (hreal : p.realtimePacing = true) (hpos : 0 < p.frameInterval) (h : Paces p clock calls)
    {i j : ℕ} (hij : i < j) (hj : j < calls.length) :
    ((j : ℤ) - i - 1) * p.interval ≤ calls[j].returned - calls[i].returned ∧
      ((j : ℤ) - i) * p.interval ≤ calls[j].returned - calls[i].now := by
  have hpaced := h.paced hreal hpos
  have hspacing := hpaced.spacing hij hj
  have hbacklog := hpaced.no_backlog hij.le hj
  have hbetween : ((j - i - 1 : ℕ) : ℤ) = (j : ℤ) - i - 1 := by omega
  rw [nsmul_eq_mul] at hspacing hbacklog
  rw [hbetween] at hspacing
  rw [Nat.cast_sub hij.le] at hbacklog
  exact ⟨hspacing, hbacklog⟩

/-- Forty milliseconds a frame. The second sleep is over fifty milliseconds late, and the third call
returns at once. -/
theorem pace_never_bursts_oversleep :
    ∃ calls : List (Call TimePoint),
      calls.map Call.returned = [0, 90000000, 90000000, 130000000] ∧
      Paces (opened {} (some 25) 0) 0 calls ∧
      ∀ j, (hj : j < calls.length) → 0 < j →
        ((j : ℤ) - (0 : ℕ) - 1) * 40000000 ≤ calls[j].returned - calls[0].returned := by
  have hfps : nativeFps (some 25) = 25 := by norm_num [nativeFps]
  have hinterval : frameIntervalOf (some 25) = 40 := by
    rw [frameIntervalOf, hfps]
    norm_num
  have hopened : opened {} (some 25) 0 = ⟨true, 40, 0⟩ := by
    rw [opened, hinterval]
  let calls : List (Call TimePoint) :=
    [⟨0, 0⟩, ⟨5000000, 90000000⟩, ⟨90000000, 90000000⟩, ⟨90000001, 130000000⟩]
  have hruns : Paces ⟨true, 40, 0⟩ 0 calls := by
    refine .cons ?_ ?_ (.cons ?_ ?_ (.cons ?_ ?_ (.cons ?_ ?_ .nil))) <;> decide
  refine ⟨calls, rfl, hopened ▸ hruns, fun j hj hpos => ?_⟩
  exact (pace_never_bursts rfl (by decide) hruns hpos hj).1

end Pacer
end ForkliftSafety
