import Mathlib.Logic.Function.Basic
import ForkliftSafety.Library.Transition

/-! Threads with local states over one shared state, interleaved step by step, in an environment
that only acts on the shared state. -/
namespace Threads
open Transition

structure Config (ι γ κ : Type*) where
  shared : γ
  locals : ι → κ

inductive Label (ι α ε : Type*) where
  | thread (i : ι) (a : α)
  | env (e : ε)

/-- `next i` is what thread `i` does to the shared state and its own. -/
structure Program (ι γ κ α ε : Type*) where
  next : ι → γ × κ → α → Option (γ × κ)
  env : γ → ε → Option γ

variable {ι γ κ α ε : Type*} [DecidableEq ι]

namespace Program
variable (P : Program ι γ κ α ε)

def step (c : Config ι γ κ) : Label ι α ε → Option (Config ι γ κ)
  | .thread i a =>
    (P.next i (c.shared, c.locals i) a).map fun r => ⟨r.1, Function.update c.locals i r.2⟩
  | .env e => (P.env c.shared e).map fun g => ⟨g, c.locals⟩

def system (start : Config ι γ κ) : LTS (Config ι γ κ) (Label ι α ε) := .ofNext start P.step

variable {P} {start : Config ι γ κ}

theorem system_thread {c d : Config ι γ κ} {i : ι} {a : α}
    (h : (P.system start).step c (.thread i a) d) :
    ∃ g l, P.next i (c.shared, c.locals i) a = some (g, l) ∧
      d = ⟨g, Function.update c.locals i l⟩ := by
  obtain ⟨⟨g, l⟩, hnext, hd⟩ := Option.map_eq_some_iff.mp h
  exact ⟨g, l, hnext, hd.symm⟩

theorem system_env {c d : Config ι γ κ} {e : ε} (h : (P.system start).step c (.env e) d) :
    ∃ g, P.env c.shared e = some g ∧ d = ⟨g, c.locals⟩ := by
  obtain ⟨g, henv, hd⟩ := Option.map_eq_some_iff.mp h
  exact ⟨g, henv, hd.symm⟩

/-- Rely and guarantee: what each thread keeps by its own steps, and no step of the others or of
the environment breaks, holds throughout. `R i` bounds what the rest does to the shared state. -/
theorem reachable_forall {I : ι → γ → κ → Prop} {R : ι → γ → γ → Prop}
    (h0 : ∀ i, I i start.shared (start.locals i))
    (hown : ∀ i g l a g' l', I i g l → P.next i (g, l) a = some (g', l') → I i g' l')
    (hothers : ∀ i j g l a g' l', j ≠ i → P.next j (g, l) a = some (g', l') → R i g g')
    (henv : ∀ i g e g', P.env g e = some g' → R i g g')
    (hstable : ∀ i g g' l, I i g l → R i g g' → I i g' l) {c : Config ι γ κ}
    (hc : (P.system start).Reachable c) (i : ι) : I i c.shared (c.locals i) := by
  revert i
  apply hc.invariant (I := fun c => ∀ i, I i c.shared (c.locals i)) h0
  intro c label d _ ih hstep i
  cases label with
  | thread j a =>
    obtain ⟨g, l, hnext, rfl⟩ := system_thread hstep
    show I i g (Function.update c.locals j l i)
    by_cases hij : i = j
    · subst hij
      rw [Function.update_self]
      exact hown i _ _ a g l (ih i) hnext
    · rw [Function.update_of_ne hij]
      exact hstable i _ g _ (ih i) (hothers i j _ _ a g l (Ne.symm hij) hnext)
  | env e =>
    obtain ⟨g, hg, rfl⟩ := system_env hstep
    exact hstable i _ g _ (ih i) (henv i _ e g hg)

/-- A segment of one thread, with no other step between, is a path of the system. -/
theorem path_of_segment {i : ι} {as : List α} {c : Config ι γ κ} {g : γ} {l : κ}
    (h : exec (P.next i) (c.shared, c.locals i) as = some (g, l)) :
    (P.system start).Path c ⟨g, Function.update c.locals i l⟩ := by
  induction as generalizing c with
  | nil =>
    rw [exec, Option.some.injEq, Prod.mk.injEq] at h
    obtain ⟨rfl, rfl⟩ := h
    rw [Function.update_eq_self]
    exact Relation.ReflTransGen.refl
  | cons a as ih =>
    rw [exec, Option.bind_eq_some_iff] at h
    obtain ⟨⟨g', l'⟩, hfirst, hrest⟩ := h
    let d : Config ι γ κ := ⟨g', Function.update c.locals i l'⟩
    have hstep : (P.system start).step c (.thread i a) d :=
      Option.map_eq_some_iff.mpr ⟨(g', l'), hfirst, rfl⟩
    have htail := ih (c := d) (by simpa only [d, Function.update_self] using hrest)
    simp only [d, Function.update_idem] at htail
    exact Relation.ReflTransGen.head ⟨_, hstep⟩ htail

/-- A segment of the environment is a path of the system. -/
theorem path_of_env {es : List ε} {c : Config ι γ κ} {g : γ}
    (h : exec P.env c.shared es = some g) : (P.system start).Path c ⟨g, c.locals⟩ := by
  induction es generalizing c with
  | nil =>
    rw [exec, Option.some.injEq] at h
    rw [← h]
    exact Relation.ReflTransGen.refl
  | cons e es ih =>
    rw [exec, Option.bind_eq_some_iff] at h
    obtain ⟨g', hfirst, hrest⟩ := h
    have hstep : (P.system start).step c (.env e) ⟨g', c.locals⟩ :=
      Option.map_eq_some_iff.mpr ⟨g', hfirst, rfl⟩
    exact Relation.ReflTransGen.head ⟨_, hstep⟩ (ih (c := ⟨g', c.locals⟩) hrest)

end Program
end Threads
