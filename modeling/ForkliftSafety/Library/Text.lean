import Mathlib.Data.List.Basic
import Mathlib.Data.List.Infix

/-! Strings as lists of characters, with the partial operations of C++ strings: `none` stands for
an `out_of_range` that is thrown, or for `npos` where a search fails. -/
namespace Text

def find (s : List Char) (c : Char) : Option ℕ := s.findIdx? (· = c)

/-- The first position at which `pat` occurs. -/
def findStr (pat : List Char) : List Char → Option ℕ
  | [] => if pat.isEmpty then some 0 else none
  | c :: s =>
    if pat.isPrefixOf (c :: s) then some 0 else (findStr pat s).map (· + 1)

def substr (s : List Char) (pos : ℕ) : Option (List Char) :=
  if pos ≤ s.length then some (s.drop pos) else none

def substrN (s : List Char) (pos n : ℕ) : Option (List Char) :=
  (substr s pos).map (·.take n)

/-- The pieces that successive calls of `getline` deliver: a separator at the very end closes the
last piece and opens no further one. -/
def getlines (sep : Char) (s : List Char) : List (List Char) :=
  let pieces := s.splitOn sep
  if pieces.getLast? = some [] then pieces.dropLast else pieces

theorem find_lt {s : List Char} {c : Char} {i : ℕ} (h : find s c = some i) : i < s.length := by
  unfold find at h
  exact (List.findIdx?_eq_some_iff_findIdx_eq.mp h).1

theorem find_eq_none_iff {s : List Char} {c : Char} : find s c = none ↔ c ∉ s := by
  rw [find, List.findIdx?_eq_none_iff]
  constructor
  · intro h hmem
    simpa using h c hmem
  · intro h x hx
    simp only [decide_eq_false_iff_not]
    rintro rfl
    exact h hx

/-- A search that succeeds splits the string at the first occurrence. -/
theorem find_eq_some {s : List Char} {c : Char} {i : ℕ} (h : find s c = some i) :
    s = s.take i ++ c :: s.drop (i + 1) ∧ c ∉ s.take i := by
  unfold find at h
  obtain ⟨hlt, hget, hbefore⟩ := List.findIdx?_eq_some_iff_getElem.mp h
  constructor
  · have hc : s[i] = c := by simpa using hget
    rw [← hc, List.cons_getElem_drop_succ, List.take_append_drop]
  · intro hmem
    obtain ⟨j, hj, hget⟩ := List.mem_take_iff_getElem.mp hmem
    have hne := hbefore j (by omega)
    simp [hget] at hne

/-- The search finds the first occurrence. -/
theorem find_append {before after : List Char} {c : Char} (h : c ∉ before) :
    find (before ++ c :: after) c = some before.length := by
  have hnone : before.findIdx? (fun x => decide (x = c)) = none := find_eq_none_iff.mpr h
  rw [find, List.findIdx?_append, hnone, List.findIdx?_cons]
  simp

/-- A text without the separator is one piece, and the empty text is none. -/
theorem getlines_of_notMem {s : List Char} {sep : Char} (h : sep ∉ s) (hne : s ≠ []) :
    getlines sep s = [s] := by
  rw [getlines, List.splitOn_eq_singleton h]
  simp [hne]

theorem substr_eq {s : List Char} {pos : ℕ} (h : pos ≤ s.length) :
    substr s pos = some (s.drop pos) := if_pos h

theorem substrN_zero (s : List Char) (n : ℕ) : substrN s 0 n = some (s.take n) := rfl

/-- What follows a separator. -/
theorem substr_after (before after : List Char) (c : Char) :
    substr (before ++ c :: after) (before.length + 1) = some after := by
  have hlength : before.length + 1 = (before ++ [c]).length := by simp
  rw [List.append_cons, hlength, substr_eq (by simp), List.drop_left]

theorem substrN_before (before after : List Char) :
    substrN (before ++ after) 0 before.length = some before := by
  rw [substrN_zero, List.take_left]

/-- A text without the first character of the string that is searched for ends where it begins. -/
theorem findStr_append {c : Char} {pat before after : List Char} (h : c ∉ before) :
    findStr (c :: pat) (before ++ (c :: pat ++ after)) = some before.length := by
  induction before with
  | nil =>
    have hprefix : (c :: pat).isPrefixOf (c :: pat ++ after) = true :=
      List.isPrefixOf_iff_prefix.mpr (List.prefix_append _ _)
    rw [List.cons_append] at hprefix
    rw [List.nil_append, List.cons_append, findStr, if_pos hprefix, List.length_nil]
  | cons d before ih =>
    rw [List.mem_cons, not_or] at h
    have hno : ¬ (c :: pat).isPrefixOf (d :: (before ++ (c :: pat ++ after))) = true := by
      simp [List.isPrefixOf, h.1]
    rw [List.cons_append, findStr, if_neg hno, ih h.2]
    rfl

/-- The search for a string fails exactly when it is nowhere in the text. -/
theorem findStr_eq_none_iff {pat s : List Char} : findStr pat s = none ↔ ¬ pat <:+: s := by
  induction s with
  | nil => cases pat <;> simp [findStr]
  | cons c s ih =>
    rw [findStr, List.infix_cons_iff, not_or, ← ih]
    by_cases h : pat.isPrefixOf (c :: s)
    · rw [if_pos h]
      simp [List.isPrefixOf_iff_prefix.mp h]
    · have hbegins : ¬ pat <+: c :: s := fun hp => h (List.isPrefixOf_iff_prefix.mpr hp)
      rw [if_neg h]
      simp [hbegins]

end Text
