import Mathlib.Data.List.Basic
import Mathlib.Data.List.Induction
import Mathlib.Order.Basic

/-! Windows that roll along a growing list: an element goes in at the back, and those that have
become too old for it go out at the front. -/
namespace RollingWindow
variable {α : Type*}

/-- What is too old ends before the first element that is not. -/
theorem dropWhile_eq_filter {old : α → Bool} {l : List α}
    (h : l.Pairwise fun a b => old b = true → old a = true) :
    l.dropWhile old = l.filter fun a => !old a := by
  induction l with
  | nil => rfl
  | cons a l ih =>
    rw [List.pairwise_cons] at h
    cases ha : old a with
    | true => simp [ha, ih h.2]
    | false =>
      have hall : ∀ b ∈ l, (!old b) = true := by
        intro b hb
        cases hold : old b with
        | true => exact absurd (h.1 b hb hold) (by simp [ha])
        | false => rfl
      simp [ha, List.filter_eq_self.mpr hall]

variable (old : α → α → Bool)

/-- The window after the next element. -/
def push (w : List α) (a : α) : List α := (w ++ [a]).dropWhile (old a)

def window (l : List α) : List α := l.foldl (push old) []

/-- What is not too old for the last element. -/
def recent (l : List α) : List α := l.filter fun a => l.getLast?.all fun last => !old last a

theorem window_concat (l : List α) (a : α) : window old (l ++ [a]) = push old (window old l) a :=
  List.foldl_concat ..

theorem recent_concat (l : List α) (a : α) :
    recent old (l ++ [a]) = (l ++ [a]).filter fun b => !old a b := by
  simp [recent]

theorem recent_sublist (l : List α) : List.Sublist (recent old l) l := List.filter_sublist

variable [Preorder α]

/-- `old now a` for an element of the same time or before makes that old as well, and it stays. -/
structure Ages : Prop where
  earlier : ∀ {now a b : α}, a ≤ b → old now b = true → old now a = true
  later : ∀ {now now' a : α}, now ≤ now' → old now a = true → old now' a = true

variable {old}

theorem push_eq_filter (hold : Ages old) {w : List α} {a : α} (hw : (w ++ [a]).Pairwise (· ≤ ·)) :
    push old w a = (w ++ [a]).filter fun b => !old a b :=
  dropWhile_eq_filter (hw.imp fun hle => hold.earlier hle)

/-- In a list that is ordered by time the window has what is recent, all of it and no more: what it
has let go of never comes back into it. -/
theorem window_eq_recent (hold : Ages old) {l : List α} (hl : l.Pairwise (· ≤ ·)) :
    window old l = recent old l := by
  induction l using List.reverseRecOn with
  | nil => rfl
  | append_singleton l a ih =>
    have hbefore := hl.sublist (List.sublist_append_left l [a])
    have hlast : ∀ b ∈ l, b ≤ a := fun b hb => List.pairwise_append.mp hl |>.2.2 b hb a (by simp)
    have hsorted : (recent old l ++ [a]).Pairwise (· ≤ ·) :=
      hl.sublist ((recent_sublist old l).append_right [a])
    rw [window_concat, ih hbefore, push_eq_filter hold hsorted, recent_concat, List.filter_append,
      List.filter_append]
    congr 1
    rw [recent, List.filter_filter]
    apply List.filter_congr
    intro b _
    cases hb : old a b with
    | true => rfl
    | false =>
      cases hl? : l.getLast? with
      | none => rfl
      | some last =>
        cases hold' : old last b with
        | true =>
          have hle := hlast last (List.mem_of_getLast? hl?)
          exact absurd (hold.later hle hold') (by simp [hb])
        | false => simp [hold']

end RollingWindow
