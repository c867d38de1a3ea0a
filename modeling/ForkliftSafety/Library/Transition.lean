import Mathlib.Data.Nat.Notation
import Mathlib.Logic.Relation

/-! Labelled transition systems, their reachable states, and runs whose steps meet a guard. -/
namespace Transition

structure LTS (σ α : Type*) where
  start : σ
  step : σ → α → σ → Prop

variable {σ α : Type*}

/-- A partial next-state function read as a transition system. -/
def LTS.ofNext (start : σ) (next : σ → α → Option σ) : LTS σ α where
  start := start
  step s a t := next s a = some t

namespace LTS
variable (M : LTS σ α)

def Steps (s t : σ) : Prop := ∃ a, M.step s a t

def Path (s t : σ) : Prop := Relation.ReflTransGen M.Steps s t

def Reachable (s : σ) : Prop := M.Path M.start s

/-- Only the steps that meet the guard in the state they leave. -/
def restrict (guard : σ → α → Prop) : LTS σ α where
  start := M.start
  step s a t := guard s a ∧ M.step s a t

variable {M}

theorem Reachable.start : M.Reachable M.start := Relation.ReflTransGen.refl

theorem Reachable.step {s t : σ} {a : α} (h : M.Reachable s) (ha : M.step s a t) :
    M.Reachable t := Relation.ReflTransGen.tail h ⟨a, ha⟩

theorem Reachable.path {s t : σ} (h : M.Reachable s) (ht : M.Path s t) : M.Reachable t :=
  Relation.ReflTransGen.trans h ht

/-- What one step preserves, every run preserves. -/
theorem Path.preserves {I : σ → Prop} {s t : σ} (h : M.Path s t) (hs : I s)
    (hstep : ∀ s a t, I s → M.step s a t → I t) : I t := by
  induction h with
  | refl => exact hs
  | tail _ hlast ih =>
    obtain ⟨a, ha⟩ := hlast
    exact hstep _ a _ ih ha

/-- The invariant rule: the start and one step of a reachable state suffice. -/
theorem Reachable.invariant {I : σ → Prop} {s : σ} (h : M.Reachable s) (h0 : I M.start)
    (hstep : ∀ s a t, M.Reachable s → I s → M.step s a t → I t) : I s := by
  have hboth : M.Reachable s ∧ I s := by
    refine Path.preserves (I := fun s => M.Reachable s ∧ I s) h ⟨Reachable.start, h0⟩ ?_
    intro s a t hs ha
    exact ⟨hs.1.step ha, hstep s a t hs.1 hs.2 ha⟩
  exact hboth.2

theorem restrict_step {guard : σ → α → Prop} {s t : σ} {a : α}
    (h : (M.restrict guard).step s a t) : guard s a ∧ M.step s a t := h

/-- A run that meets a guard is a run. -/
theorem Path.of_restrict {guard : σ → α → Prop} {s t : σ} (h : (M.restrict guard).Path s t) :
    M.Path s t := by
  have hsteps : (M.restrict guard).Steps ≤ M.Steps := by
    rintro u v ⟨a, ha⟩
    exact ⟨a, (restrict_step ha).2⟩
  exact Relation.ReflTransGen.mono hsteps _ _ h

theorem Reachable.of_restrict {guard : σ → α → Prop} {s : σ}
    (h : (M.restrict guard).Reachable s) : M.Reachable s := Path.of_restrict h

/-- When the guard lets through exactly the steps that keep a property, the runs that meet the guard
keep it, and the first step that does not meet it breaks the property. -/
theorem restrict_keeps {guard : σ → α → Prop} {I : σ → Prop} (h0 : I M.start)
    (hguard : ∀ s a t, M.Reachable s → I s → M.step s a t → (I t ↔ guard s a)) :
    (∀ s, (M.restrict guard).Reachable s → I s) ∧
      ∀ s a t, (M.restrict guard).Reachable s → M.step s a t → (I t ↔ guard s a) := by
  have hruns : ∀ s, (M.restrict guard).Reachable s → I s := by
    intro s h
    apply h.invariant h0
    intro s a t hs hI hstep
    obtain ⟨hg, ht⟩ := restrict_step hstep
    exact (hguard s a t hs.of_restrict hI ht).mpr hg
  exact ⟨hruns, fun s a t hs => hguard s a t hs.of_restrict (hruns s hs)⟩

/-- When the guard lets through exactly the steps that keep a property which no step restores,
the runs that meet the guard are the runs that keep the property. This is for runs that stay in `K`,
which no step enters. -/
theorem reachable_restrict_iff_of {guard : σ → α → Prop} {I K : σ → Prop} (h0 : I M.start)
    (hK : ∀ s a t, M.step s a t → K t → K s) (hback : ∀ s a t, M.step s a t → I t → I s)
    (hguard : ∀ s a t, M.Reachable s → K t → I s → M.step s a t → (I t ↔ guard s a)) {s : σ}
    (hs : K s) : (M.restrict guard).Reachable s ↔ M.Reachable s ∧ I s := by
  constructor
  · intro h
    refine ⟨h.of_restrict, ?_⟩
    induction h with
    | refl => exact h0
    | tail hprev hlast ih =>
      obtain ⟨a, ha⟩ := hlast
      obtain ⟨hg, hstep⟩ := restrict_step ha
      have hprevious : (M.restrict guard).Reachable _ := hprev
      exact (hguard _ a _ hprevious.of_restrict hs (ih (hK _ a _ hstep hs)) hstep).mpr hg
  · rintro ⟨h, hI⟩
    induction h with
    | refl => exact Reachable.start
    | tail hprev hlast ih =>
      obtain ⟨a, ha⟩ := hlast
      have hprevious := hback _ a _ ha hI
      exact (ih (hK _ a _ ha hs) hprevious).step ⟨(hguard _ a _ hprev hs hprevious ha).mp hI, ha⟩

theorem reachable_restrict_iff {guard : σ → α → Prop} {I : σ → Prop} (h0 : I M.start)
    (hback : ∀ s a t, M.step s a t → I t → I s)
    (hguard : ∀ s a t, M.Reachable s → I s → M.step s a t → (I t ↔ guard s a)) (s : σ) :
    (M.restrict guard).Reachable s ↔ M.Reachable s ∧ I s :=
  reachable_restrict_iff_of (K := fun _ => True) h0 (fun _ _ _ _ _ => trivial) hback
    (fun s a t hs _ => hguard s a t hs) trivial

/-- A run that meets the guard goes on with a step that does. -/
theorem Reachable.next {start s t : σ} {next : σ → α → Option σ} {guard : σ → α → Prop}
    (h : ((LTS.ofNext start next).restrict guard).Reachable s) (a : α) (hguard : guard s a)
    (hstep : next s a = some t) : ((LTS.ofNext start next).restrict guard).Reachable t :=
  h.step (a := a) ⟨hguard, hstep⟩

end LTS

/-- Execute a list of labels from a state. -/
def exec (next : σ → α → Option σ) : σ → List α → Option σ
  | s, [] => some s
  | s, a :: as => (next s a).bind fun t => exec next t as

theorem exec_append (next : σ → α → Option σ) (s : σ) (as bs : List α) :
    exec next s (as ++ bs) = (exec next s as).bind fun t => exec next t bs := by
  induction as generalizing s with
  | nil => rfl
  | cons a as ih => simp only [List.cons_append, exec, Option.bind_assoc, ih]

/-- What can be executed can be executed up to any label. -/
theorem exec_prefix {next : σ → α → Option σ} {s t : σ} {as bs : List α}
    (h : exec next s as = some t) (hpre : bs <+: as) : ∃ u, exec next s bs = some u := by
  obtain ⟨rest, rfl⟩ := hpre
  rw [exec_append, Option.bind_eq_some_iff] at h
  obtain ⟨u, hu, _⟩ := h
  exact ⟨u, hu⟩

/-- An execution of labels that meet a guard in every state is a run that meets it. -/
theorem path_restrict_of_exec {next : σ → α → Option σ} {guard : σ → α → Prop} {start s t : σ}
    {as : List α} (hguard : ∀ a ∈ as, ∀ u, guard u a) (h : exec next s as = some t) :
    ((LTS.ofNext start next).restrict guard).Path s t := by
  induction as generalizing s with
  | nil =>
    rw [exec, Option.some.injEq] at h
    exact h ▸ Relation.ReflTransGen.refl
  | cons a as ih =>
    rw [exec, Option.bind_eq_some_iff] at h
    obtain ⟨u, hu, hrest⟩ := h
    have hlater := ih (fun b hb => hguard b (List.mem_cons_of_mem a hb)) hrest
    exact Relation.ReflTransGen.head ⟨a, hguard a List.mem_cons_self s, hu⟩ hlater

theorem path_of_exec {next : σ → α → Option σ} {start s t : σ} {as : List α}
    (h : exec next s as = some t) : (LTS.ofNext start next).Path s t := by
  have hrun : ((LTS.ofNext start next).restrict fun _ _ => True).Path s t :=
    path_restrict_of_exec (fun _ _ _ => trivial) h
  exact hrun.of_restrict

theorem reachable_of_exec {next : σ → α → Option σ} {start s : σ} {as : List α}
    (h : exec next start as = some s) : (LTS.ofNext start next).Reachable s :=
  path_of_exec h

/-- A property seen at the end of an execution holds of some reachable state. -/
theorem exists_reachable_of_exec {next : σ → α → Option σ} {start : σ} {P : σ → Prop}
    (as : List α) (h : ∃ s ∈ exec next start as, P s) :
    ∃ s, (LTS.ofNext start next).Reachable s ∧ P s := by
  obtain ⟨s, hs, hP⟩ := h
  exact ⟨s, reachable_of_exec hs, hP⟩

section Measure
variable {next : σ → α → Option σ} {I : σ → Prop} {quiet : α → Prop} {measure : σ → ℕ}

/-- What the quiet steps keep, a run of them keeps, and it is no longer than they can lower the
measure. -/
theorem length_le_of_exec
    (hstep : ∀ s a t, I s → quiet a → next s a = some t → I t ∧ measure t < measure s)
    {s t : σ} {as : List α} (hs : I s) (hquiet : ∀ a ∈ as, quiet a)
    (h : exec next s as = some t) : I t ∧ as.length + measure t ≤ measure s := by
  induction as generalizing s with
  | nil =>
    rw [exec, Option.some.injEq] at h
    rw [← h]
    exact ⟨hs, by simp⟩
  | cons a as ih =>
    rw [exec, Option.bind_eq_some_iff] at h
    obtain ⟨u, hu, hrest⟩ := h
    obtain ⟨hkept, hlower⟩ := hstep s a u hs (hquiet a List.mem_cons_self) hu
    obtain ⟨ht, hlength⟩ := ih hkept (fun b hb => hquiet b (List.mem_cons_of_mem a hb)) hrest
    refine ⟨ht, ?_⟩
    rw [List.length_cons]
    omega

end Measure

section Along
variable {τ : Type*} {next : σ → α → σ} {P : σ → α → Prop}

/-- Each input of a list meets `P` in the state in which it comes. -/
def Along (next : σ → α → σ) (P : σ → α → Prop) (s : σ) (as : List α) : Prop :=
  ∀ before a after, as = before ++ a :: after → P (before.foldl next s) a

theorem along_nil (s : σ) : Along next P s [] := by
  intro before a after h
  simp at h

theorem along_cons (s : σ) (a : α) (as : List α) :
    Along next P s (a :: as) ↔ P s a ∧ Along next P (next s a) as := by
  constructor
  · intro h
    refine ⟨h [] a as rfl, fun before b after hsplit => ?_⟩
    exact h (a :: before) b after (by rw [hsplit, List.cons_append])
  · rintro ⟨hfirst, hrest⟩ before b after hsplit
    cases before with
    | nil =>
      obtain ⟨rfl, rfl⟩ := List.cons.inj hsplit
      exact hfirst
    | cons c before =>
      obtain ⟨rfl, htail⟩ := List.cons.inj hsplit
      exact hrest before b after htail

theorem along_concat_iff {s : σ} {as : List α} {a : α} :
    Along next P s (as ++ [a]) ↔ Along next P s as ∧ P (as.foldl next s) a := by
  induction as generalizing s with
  | nil =>
    rw [List.nil_append, along_cons, List.foldl_nil]
    exact ⟨fun h => ⟨along_nil s, h.1⟩, fun h => ⟨h.2, along_nil _⟩⟩
  | cons b as ih => rw [List.cons_append, along_cons, along_cons, ih, List.foldl_cons, and_assoc]

/-- Two machines that go in step for as long as the inputs meet their conditions meet them along
the same lists. -/
theorem along_iff_of_simulation {next' : τ → α → τ} {Q : τ → α → Prop} (R : τ → σ)
    (hcond : ∀ t a, P (R t) a ↔ Q t a) (hnext : ∀ t a, Q t a → next (R t) a = R (next' t a))
    (t : τ) (as : List α) : Along next P (R t) as ↔ Along next' Q t as := by
  induction as generalizing t with
  | nil => exact ⟨fun _ => along_nil t, fun _ => along_nil (R t)⟩
  | cons a as ih =>
    rw [along_cons, along_cons, hcond]
    apply and_congr_right
    intro h
    rw [hnext t a h]
    exact ih (next' t a)

end Along
end Transition
