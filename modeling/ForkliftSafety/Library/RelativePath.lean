import Mathlib.Data.List.Basic
import Mathlib.Data.List.Infix
import Mathlib.Tactic.Tauto

/-! Lexical meaning of a relative path: a walk down from a directory that `..` takes up again. -/
namespace RelativePath

def components (path : List Char) : List (List Char) := path.splitOn '/'

/-- One component of a walk, which stands at a list of components, deepest first. It may not
climb above its start. -/
def step (here : List (List Char)) (c : List Char) : Option (List (List Char)) :=
  if c = [] ∨ c = ['.'] then some here
  else if c = ['.', '.'] then
    match here with
    | [] => none
    | _ :: above => some above
  else some (c :: here)

def walk (here : List (List Char)) (cs : List (List Char)) : Option (List (List Char)) :=
  cs.foldlM step here

/-- The place a path leads to from its start, if no part of it climbs above. -/
def normalise (path : List Char) : Option (List (List Char)) := walk [] (components path)

/-- A walk that ends inside was inside all the way. -/
theorem walk_prefix {here cs ds : List (List Char)} (h : (walk here ds).isSome) (hp : cs <+: ds) :
    (walk here cs).isSome := by
  obtain ⟨es, rfl⟩ := hp
  rw [walk, List.foldlM_append] at h
  cases hcs : walk here cs with
  | none =>
    rw [walk] at hcs
    simp [hcs] at h
  | some _ => rfl

/-- Without a `..` a walk only goes down. -/
theorem walk_of_notMem {cs : List (List Char)} (h : ['.', '.'] ∉ cs) (here : List (List Char)) :
    walk here cs = some ((cs.filter fun c => c ≠ [] ∧ c ≠ ['.']).reverse ++ here) := by
  induction cs generalizing here with
  | nil => rfl
  | cons c cs ih =>
    have hc : c ≠ ['.', '.'] := by
      intro heq
      exact h (heq ▸ List.mem_cons_self)
    have hcs : ['.', '.'] ∉ cs := fun hmem => h (List.mem_cons_of_mem c hmem)
    rw [walk, List.foldlM_cons]
    unfold step
    rw [if_neg hc]
    by_cases hstay : c = [] ∨ c = ['.']
    · have hdrop : ¬ (c ≠ [] ∧ c ≠ ['.']) := by tauto
      rw [if_pos hstay, List.filter_cons_of_neg (by simpa using hdrop)]
      exact ih hcs here
    · have hkeep : c ≠ [] ∧ c ≠ ['.'] := by tauto
      rw [if_neg hstay, List.filter_cons_of_pos (by simpa using hkeep), List.reverse_cons,
        List.append_assoc]
      exact ih hcs (c :: here)

theorem infix_intercalate_of_mem (sep : List Char) {c : List Char} {cs : List (List Char)}
    (h : c ∈ cs) : c <:+: sep.intercalate cs := by
  induction cs with
  | nil => simp at h
  | cons d ds ih =>
    cases ds with
    | nil =>
      rw [List.mem_singleton.mp h]
      simp
    | cons e es =>
      rw [List.intercalate_cons_cons]
      rcases List.mem_cons.mp h with rfl | h
      · exact ⟨[], sep ++ sep.intercalate (e :: es), by simp⟩
      · exact (ih h).trans ⟨d ++ sep, [], by simp⟩

/-- A component of a path is a part of its text. -/
theorem infix_of_mem_components {path c : List Char} (h : c ∈ components path) : c <:+: path := by
  have hinfix := infix_intercalate_of_mem ['/'] h
  rwa [components, List.intercalate_splitOn] at hinfix

/-- A text without `..` in it names a place inside. -/
theorem normalise_of_not_infix {path : List Char} (h : ¬ ['.', '.'] <:+: path) :
    normalise path = some ((components path).filter fun c => c ≠ [] ∧ c ≠ ['.']).reverse := by
  have hnone : ['.', '.'] ∉ components path := fun hmem => h (infix_of_mem_components hmem)
  rw [normalise, walk_of_notMem hnone, List.append_nil]

end RelativePath
