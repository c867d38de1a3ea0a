import Mathlib.Algebra.BigOperators.Group.Finset.Piecewise
import Mathlib.Algebra.Order.BigOperators.Group.Finset
import Mathlib.Data.Fintype.Basic

/-! Condition variables: threads that sleep, notifications that awaken some of them, and the count
that keeps a sleeper from being forgotten. -/
namespace Monitor

/-- A condition variable, seen from the local state of a thread: whether it sleeps there, and
whether it was awakened and has yet to look at its predicate again. -/
structure Condition (κ : Type*) where
  asleep : κ → Bool
  awakened : κ → Bool
  wake : κ → κ
  awakened_wake : ∀ l, asleep l = true → awakened (wake l) = true
  asleep_wake : ∀ l, asleep l = true → asleep (wake l) = false
  not_both : ∀ l, asleep l = true → awakened l = false

namespace Condition
variable {ι κ : Type*} (C : Condition κ)

def Sleeps (locals : ι → κ) : Prop := ∃ i, C.asleep (locals i) = true

def notifyAll (locals : ι → κ) : ι → κ := fun i =>
  if C.asleep (locals i) then C.wake (locals i) else locals i

theorem notifyAll_not_sleeps (locals : ι → κ) : ¬ C.Sleeps (C.notifyAll locals) := by
  rintro ⟨i, hi⟩
  simp only [notifyAll] at hi
  split_ifs at hi with h
  · rw [C.asleep_wake _ h] at hi
    contradiction
  · exact h hi

section NotifyOne
variable [DecidableEq ι] [Fintype ι]

/-- Awakens one sleeper, of whatever choice, and does nothing only when there is none. -/
def notifyOne (locals : ι → κ) : Option ι → Option (ι → κ)
  | some i =>
    if C.asleep (locals i) then some (Function.update locals i (C.wake (locals i))) else none
  | none => if ∀ i, C.asleep (locals i) = false then some locals else none

variable {C}

theorem notifyOne_cases {locals locals' : ι → κ} {choice : Option ι}
    (h : C.notifyOne locals choice = some locals') :
    (∃ i, choice = some i ∧ C.asleep (locals i) = true ∧
      locals' = Function.update locals i (C.wake (locals i))) ∨
    (¬ C.Sleeps locals ∧ locals' = locals) := by
  cases choice with
  | some i =>
    simp only [notifyOne] at h
    split_ifs at h with hi
    exact .inl ⟨i, rfl, hi, (Option.some.inj h).symm⟩
  | none =>
    simp only [notifyOne] at h
    split_ifs at h with hnone
    refine .inr ⟨?_, (Option.some.inj h).symm⟩
    rintro ⟨i, hi⟩
    rw [hnone i] at hi
    contradiction

/-- Some choice of sleeper is always possible. -/
theorem exists_notifyOne (C : Condition κ) (locals : ι → κ) :
    ∃ choice locals', C.notifyOne locals choice = some locals' := by
  by_cases h : ∃ i, C.asleep (locals i) = true
  · obtain ⟨i, hi⟩ := h
    exact ⟨some i, _, if_pos hi⟩
  · refine ⟨none, locals, if_pos fun i => ?_⟩
    exact Bool.eq_false_iff.mpr fun hi => h ⟨i, hi⟩

end NotifyOne

section Count
variable [Fintype ι]

/-- How many threads were awakened and have yet to look again. -/
def awakenedCount (locals : ι → κ) : ℕ := ∑ i, (C.awakened (locals i)).toNat

variable {C}

theorem awakenedCount_update [DecidableEq ι] (locals : ι → κ) (i : ι) (l : κ) :
    C.awakenedCount (Function.update locals i l) + (C.awakened (locals i)).toNat =
      C.awakenedCount locals + (C.awakened l).toNat := by
  let f : κ → ℕ := fun l => (C.awakened l).toNat
  have hupdate : C.awakenedCount (Function.update locals i l) =
      f l + ∑ j ∈ Finset.univ \ {i}, f (locals j) := by
    change ∑ j, (f ∘ Function.update locals i l) j = _
    rw [Function.comp_update, Finset.sum_update_of_mem (Finset.mem_univ i)]
    rfl
  have hbefore : C.awakenedCount locals =
      f (locals i) + ∑ j ∈ Finset.univ \ {i}, f (locals j) :=
    Finset.sum_eq_add_sum_sdiff_singleton_of_mem (Finset.mem_univ i) _
  rw [hupdate, hbefore]
  change f l + _ + f (locals i) = f (locals i) + _ + f l
  omega

theorem awakenedCount_pos_iff {locals : ι → κ} :
    0 < C.awakenedCount locals ↔ ∃ i, C.awakened (locals i) = true := by
  rw [awakenedCount, Finset.sum_pos_iff_of_nonneg fun i _ => Nat.zero_le _]
  simp only [Finset.mem_univ, true_and]
  refine exists_congr fun i => ?_
  cases C.awakened (locals i) <;> simp

theorem awakenedCount_congr {locals locals' : ι → κ}
    (h : ∀ i, C.awakened (locals' i) = C.awakened (locals i)) :
    C.awakenedCount locals' = C.awakenedCount locals := by
  simp only [awakenedCount, h]

/-- While a thread sleeps, each of the `available` places is covered by an awakened thread. -/
def Covered (C : Condition κ) (available : ℕ) (locals : ι → κ) : Prop :=
  C.Sleeps locals → available ≤ C.awakenedCount locals

theorem covered_zero (locals : ι → κ) : C.Covered 0 locals := fun _ => Nat.zero_le _

theorem covered_of_not_sleeps {available : ℕ} {locals : ι → κ} (h : ¬ C.Sleeps locals) :
    C.Covered available locals := fun hs => absurd hs h

theorem Covered.mono {available fewer : ℕ} {locals : ι → κ} (h : C.Covered available locals)
    (hle : fewer ≤ available) : C.Covered fewer locals := fun hs => hle.trans (h hs)

/-- Nobody is left alone with a place that no awakened thread is about to look at. -/
theorem Covered.exists_awakened {available : ℕ} {locals : ι → κ} (h : C.Covered available locals)
    (hs : C.Sleeps locals) (hpos : 0 < available) : ∃ i, C.awakened (locals i) = true :=
  awakenedCount_pos_iff.mp (hpos.trans_le (h hs))

/-- A thread that does not go to sleep moves; if it was awakened, it used up a place. -/
theorem Covered.update [DecidableEq ι] {available left : ℕ} {locals : ι → κ}
    (h : C.Covered available locals) {i : ι} {l : κ} (hl : C.asleep l = false)
    (hleft : left + (C.awakened (locals i)).toNat ≤ available + (C.awakened l).toNat) :
    C.Covered left (Function.update locals i l) := by
  rintro ⟨j, hj⟩
  have hji : j ≠ i := by
    rintro rfl
    rw [Function.update_self, hl] at hj
    contradiction
  rw [Function.update_of_ne hji] at hj
  have hcount := awakenedCount_update (C := C) locals i l
  have hcover := h ⟨j, hj⟩
  omega

/-- One more place, and one notification for it. -/
theorem Covered.notifyOne [DecidableEq ι] {available : ℕ} {locals locals' : ι → κ}
    {choice : Option ι} (h : C.Covered available locals)
    (hnotify : C.notifyOne locals choice = some locals') :
    C.Covered (available + 1) locals' := by
  rcases notifyOne_cases hnotify with ⟨i, _, hi, rfl⟩ | ⟨hnone, rfl⟩
  · apply h.update (C.asleep_wake _ hi)
    rw [C.awakened_wake _ hi, C.not_both _ hi]
    exact le_rfl
  · exact covered_of_not_sleeps hnone

/-- A step that changes no thread as far as this condition variable goes. -/
theorem Covered.congr {available : ℕ} {locals locals' : ι → κ} (h : C.Covered available locals)
    (hasleep : ∀ i, C.asleep (locals' i) = C.asleep (locals i))
    (hawakened : ∀ i, C.awakened (locals' i) = C.awakened (locals i)) :
    C.Covered available locals' := by
  rintro ⟨i, hi⟩
  rw [awakenedCount_congr hawakened]
  exact h ⟨i, by rw [← hasleep, hi]⟩

end Count
end Condition
end Monitor
