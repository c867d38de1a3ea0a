import Mathlib.Data.List.Basic
import Mathlib.Tactic.Linarith

/-! Decimal numerals of integers, and texts put together from fields that a separator ends. -/
namespace Decimal

/-- A numeral is an optional sign and the digits of the magnitude. -/
theorem toList_toString (n : ℤ) :
    (toString n).toList =
      if 0 ≤ n then Nat.toDigits 10 n.toNat else '-' :: Nat.toDigits 10 (-n).toNat := by
  rw [Int.toString_eq_repr, Int.repr_eq_if]
  by_cases h : 0 ≤ n
  · rw [if_pos h, if_pos h, Nat.toList_repr]
  · rw [if_neg h, if_neg h, String.toList_append, Nat.toList_repr]
    rfl

theorem isDigit_of_mem {n : ℕ} {c : Char} (h : c ∈ Nat.toDigits 10 n) : c.isDigit = true :=
  Nat.isDigit_of_mem_toDigits (by decide) (by decide) h

/-- A numeral has no character other than digits and the sign. -/
theorem notMem_toString {c : Char} (hdigit : c.isDigit = false) (hsign : c ≠ '-') (n : ℤ) :
    c ∉ (toString n).toList := by
  rw [toList_toString]
  intro h
  split_ifs at h
  · rw [isDigit_of_mem h] at hdigit
    contradiction
  · rcases List.mem_cons.mp h with rfl | h
    · exact hsign rfl
    · rw [isDigit_of_mem h] at hdigit
      contradiction

theorem toDigits_injective {m n : ℕ} (h : Nat.toDigits 10 m = Nat.toDigits 10 n) : m = n := by
  have hvalue := congrArg (fun ds => Nat.ofDigitChars 10 ds 0) h
  simpa using hvalue

theorem toString_injective {m n : ℤ} (h : (toString m).toList = (toString n).toList) : m = n := by
  have hsign (k : ℕ) (ds : List Char) : Nat.toDigits 10 k ≠ '-' :: ds := by
    intro hk
    have hdigit := isDigit_of_mem (n := k) (c := '-') (by rw [hk]; exact List.mem_cons_self)
    contradiction
  rw [toList_toString, toList_toString] at h
  by_cases hm : 0 ≤ m <;> by_cases hn : 0 ≤ n
  · rw [if_pos hm, if_pos hn] at h
    have hnat := toDigits_injective h
    omega
  · rw [if_pos hm, if_neg hn] at h
    exact absurd h (hsign _ _)
  · rw [if_neg hm, if_pos hn] at h
    exact absurd h.symm (hsign _ _)
  · rw [if_neg hm, if_neg hn, List.cons.injEq] at h
    have hnat := toDigits_injective h.2
    omega

/-- A last field that does not contain its separator can be read off, whatever comes before. -/
theorem append_cons_inj_of_notMem_right {α : Type*} {xs xs' ys ys' : List α} {s : α}
    (hys : s ∉ ys) (hys' : s ∉ ys') (h : xs ++ s :: ys = xs' ++ s :: ys') :
    xs = xs' ∧ ys = ys' := by
  rcases List.append_eq_append_iff.mp h with ⟨zs, rfl, hzs⟩ | ⟨zs, rfl, hzs⟩
  · cases zs with
    | nil =>
      rw [List.nil_append, List.cons.injEq] at hzs
      exact ⟨(List.append_nil xs).symm, hzs.2⟩
    | cons z zs =>
      rw [List.cons_append, List.cons.injEq] at hzs
      apply absurd _ hys
      rw [hzs.2]
      simp
  · cases zs with
    | nil =>
      rw [List.nil_append, List.cons.injEq] at hzs
      exact ⟨List.append_nil xs', hzs.2.symm⟩
    | cons z zs =>
      rw [List.cons_append, List.cons.injEq] at hzs
      apply absurd _ hys'
      rw [hzs.2]
      simp

end Decimal
