import Mathlib.Algebra.Order.Group.Basic
import Mathlib.Tactic.Abel

/-! Calls that wait for their turn in a schedule. A late call moves the schedule on, an early one
only uses up its turn, and no call has to return in time. -/
namespace Pacing

/-- When a call reads the clock and when it returns. -/
structure Call (T : Type*) where
  now : T
  returned : T
  deriving DecidableEq, Repr

variable {T : Type*} [AddCommGroup T] [LinearOrder T]

/-- The turn after a call that read the clock at `now`. -/
def advance (interval due now : T) : T := max due now + interval

/-- Calls one after another from a time on: each reads the clock after the one before it has
returned, and returns when its own turn has come. -/
inductive Paced (interval : T) : T → T → List (Call T) → Prop
  | nil {due clock : T} : Paced interval due clock []
  | cons {due clock : T} {c : Call T} {rest : List (Call T)} (hclock : clock ≤ c.now)
      (hturn : max due c.now ≤ c.returned)
      (hrest : Paced interval (advance interval due c.now) c.returned rest) :
      Paced interval due clock (c :: rest)

variable {interval due clock : T} {calls : List (Call T)}

/-- The calls from one on, whose reading of the clock moves its turn on. -/
theorem Paced.drop (h : Paced interval due clock calls) (i : ℕ) :
    ∃ due' clock', Paced interval due' clock' (calls.drop i) := by
  induction i generalizing due clock calls with
  | zero => exact ⟨due, clock, h⟩
  | succ i ih =>
    cases h with
    | nil => exact ⟨due, clock, .nil⟩
    | cons hclock hturn hrest => exact ih hrest

theorem Paced.returned_le_now (h : Paced interval due clock calls) {i : ℕ}
    (hi : i + 1 < calls.length) : calls[i].returned ≤ calls[i + 1].now := by
  obtain ⟨due', clock', hdrop⟩ := h.drop i
  rw [List.drop_eq_getElem_cons (by omega), List.drop_eq_getElem_cons hi] at hdrop
  cases hdrop with
  | cons _ _ hrest =>
    cases hrest with
    | cons hclock _ _ => exact hclock

variable [IsOrderedAddMonoid T]

/-- Each call uses up one turn, so the turns pile up in front of the later ones. -/
theorem Paced.due_add_le (h : Paced interval due clock calls) (k : ℕ) (hk : k < calls.length) :
    due + k • interval ≤ calls[k].returned := by
  induction h generalizing k with
  | nil => simp at hk
  | @cons due clock first rest hclock hturn hrest ih =>
    cases k with
    | zero =>
      rw [zero_nsmul, add_zero]
      exact (le_max_left _ _).trans hturn
    | succ k =>
      have hk' : k < rest.length := by simpa using hk
      have hlater := ih k hk'
      have hadvance : due + interval ≤ advance interval due first.now :=
        add_le_add_left (le_max_left due first.now) interval
      calc due + (k + 1) • interval = due + interval + k • interval := by
            rw [succ_nsmul]
            abel
        _ ≤ advance interval due first.now + k • interval := add_le_add_left hadvance _
        _ ≤ rest[k].returned := hlater

/-- A call that reads the clock late moves every later turn on, so none of the turns that were
missed is made up for. -/
theorem Paced.no_backlog (h : Paced interval due clock calls) {i j : ℕ} (hij : i ≤ j)
    (hj : j < calls.length) :
    (j - i) • interval ≤ calls[j].returned - calls[i].now := by
  obtain ⟨due', clock', hdrop⟩ := h.drop i
  rw [List.drop_eq_getElem_cons (by omega)] at hdrop
  cases hdrop with
  | cons hclock hturn hrest =>
    rw [le_sub_iff_add_le, add_comm]
    rcases hij.eq_or_lt with rfl | hlt
    · rw [Nat.sub_self, zero_nsmul, add_zero]
      exact (le_max_right _ _).trans hturn
    · have hk : j - i - 1 < (calls.drop (i + 1)).length := by
        rw [List.length_drop]
        omega
      have hlater := hrest.due_add_le (j - i - 1) hk
      have hplace : i + 1 + (j - i - 1) = j := by omega
      have hcount : j - i = j - i - 1 + 1 := by omega
      simp only [List.getElem_drop, hplace] at hlater
      have hadvance : calls[i].now + interval ≤ advance interval due' calls[i].now :=
        add_le_add_left (le_max_right _ _) interval
      calc calls[i].now + (j - i) • interval
          = calls[i].now + interval + (j - i - 1) • interval := by
            rw [hcount, succ_nsmul, Nat.add_sub_cancel]
            abel
        _ ≤ advance interval due' calls[i].now + (j - i - 1) • interval :=
            add_le_add_left hadvance _
        _ ≤ calls[j].returned := hlater

/-- Any two calls return as far apart as the calls between them need. -/
theorem Paced.spacing (h : Paced interval due clock calls) {i j : ℕ} (hij : i < j)
    (hj : j < calls.length) :
    (j - i - 1) • interval ≤ calls[j].returned - calls[i].returned := by
  have hlate := h.no_backlog (Nat.succ_le_of_lt hij) hj
  have hnow := h.returned_le_now (show i + 1 < calls.length by omega)
  have hcount : j - (i + 1) = j - i - 1 := by omega
  rw [hcount] at hlate
  exact hlate.trans (sub_le_sub_left hnow _)

end Pacing
