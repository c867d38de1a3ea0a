import Mathlib.Data.List.Basic

/-! Lists that are filled by one write after the other, and loops whose steps do not fail. -/
namespace Scatter
variable {α : Type*}

def write (blob : List α) (ws : List (ℕ × α)) : List α :=
  ws.foldl (fun blob w => blob.set w.1 w.2) blob

@[simp] theorem length_write (blob : List α) (ws : List (ℕ × α)) :
    (write blob ws).length = blob.length := by
  induction ws generalizing blob with
  | nil => rfl
  | cons w ws ih =>
    change (write (blob.set w.1 w.2) ws).length = blob.length
    rw [ih, List.length_set]

theorem getElem?_write_of_notMem {ws : List (ℕ × α)} {i : ℕ} (h : i ∉ ws.map Prod.fst)
    (blob : List α) : (write blob ws)[i]? = blob[i]? := by
  induction ws generalizing blob with
  | nil => rfl
  | cons w ws ih =>
    rw [List.map_cons, List.mem_cons, not_or] at h
    change (write (blob.set w.1 w.2) ws)[i]? = blob[i]?
    rw [ih h.2, List.getElem?_set_ne (Ne.symm h.1)]

/-- A place that is written once has what was written there. -/
theorem getElem?_write {ws : List (ℕ × α)} (hnodup : (ws.map Prod.fst).Nodup) {w : ℕ × α}
    (hw : w ∈ ws) {blob : List α} (hlt : w.1 < blob.length) : (write blob ws)[w.1]? = some w.2 := by
  induction ws generalizing blob with
  | nil => contradiction
  | cons w' ws ih =>
    rw [List.map_cons, List.nodup_cons] at hnodup
    change (write (blob.set w'.1 w'.2) ws)[w.1]? = some w.2
    rcases List.mem_cons.mp hw with rfl | hlater
    · rw [getElem?_write_of_notMem hnodup.1, List.getElem?_set_self hlt]
    · exact ih hnodup.2 hlater (by simpa using hlt)

/-- A loop whose body succeeds while an invariant holds, and keeps it, is the loop without the
checks. -/
theorem foldlM_eq_foldl {σ α : Type*} {f : σ → α → Option σ} {g : σ → α → σ} {I : σ → Prop}
    {l : List α} (hstep : ∀ x ∈ l, ∀ s, I s → f s x = some (g s x) ∧ I (g s x)) {s : σ}
    (hs : I s) : l.foldlM f s = some (l.foldl g s) ∧ I (l.foldl g s) := by
  induction l generalizing s with
  | nil => exact ⟨rfl, hs⟩
  | cons x xs ih =>
    obtain ⟨hx, hI⟩ := hstep x List.mem_cons_self s hs
    have hrest := ih (fun y hy => hstep y (List.mem_cons_of_mem x hy)) hI
    rw [List.foldlM_cons, hx, List.foldl_cons]
    exact hrest

end Scatter
