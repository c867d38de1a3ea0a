import Mathlib.Data.List.Basic

/-! What holds at every moment of a list of calls. -/
namespace Trace
variable {σ α : Type*} (step : σ → α → σ)

/-- `P` holds before the first call, between the calls and after the last one. -/
def Throughout (P : σ → Prop) : σ → List α → Prop
  | s, [] => P s
  | s, a :: rest => P s ∧ Throughout P (step s a) rest

variable {step} {P Q : σ → Prop} {s : σ} {as bs : List α}

theorem throughout_iff :
    Throughout step P s as ↔ ∀ front, front <+: as → P (front.foldl step s) := by
  induction as generalizing s with
  | nil => simp [Throughout]
  | cons a as ih =>
    rw [Throughout, ih]
    constructor
    · rintro ⟨hfirst, hrest⟩ front hfront
      cases front with
      | nil => exact hfirst
      | cons b front =>
        obtain ⟨rfl, htail⟩ := List.cons_prefix_cons.mp hfront
        exact hrest front htail
    · intro h
      refine ⟨h [] List.nil_prefix, fun front hfront => ?_⟩
      exact h (a :: front) (List.cons_prefix_cons.mpr ⟨rfl, hfront⟩)

theorem Throughout.append (hfirst : Throughout step P s as)
    (hrest : Throughout step P (as.foldl step s) bs) : Throughout step P s (as ++ bs) := by
  induction as generalizing s with
  | nil => exact hrest
  | cons a as ih => exact ⟨hfirst.1, ih hfirst.2 hrest⟩

/-- Calls that keep `Q` keep what follows from it. -/
theorem throughout_of_kept (hs : Q s) (hkept : ∀ s, Q s → ∀ a ∈ as, Q (step s a))
    (himp : ∀ s, Q s → P s) : Throughout step P s as := by
  induction as generalizing s with
  | nil => exact himp s hs
  | cons a as ih =>
    have hnext := hkept s hs a List.mem_cons_self
    exact ⟨himp s hs, ih hnext fun s hs b hb => hkept s hs b (List.mem_cons_of_mem a hb)⟩

end Trace
