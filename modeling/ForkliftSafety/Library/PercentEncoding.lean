import Mathlib.Data.List.Basic
import Mathlib.Data.List.Flatten
import Mathlib.Data.List.GetD

/-! Percent-encoding: characters that are not kept become the bytes of their UTF-8 form, each as a
percent sign and two hexadecimal digits. -/
namespace PercentEncoding

def hexDigits : List Char := "0123456789ABCDEF".toList

def hexDigit (n : ℕ) : Char := hexDigits.getD n '0'

def escapeByte (b : UInt8) : List Char :=
  ['%', hexDigit (b.toNat / 16), hexDigit (b.toNat % 16)]

variable (keep : Char → Bool)

def escapeChar (c : Char) : List Char :=
  if keep c then [c] else (String.utf8EncodeChar c).flatMap escapeByte

def escape (s : List Char) : List Char := s.flatMap (escapeChar keep)

variable {keep}

theorem hexDigit_mem {n : ℕ} (h : n < 16) : hexDigit n ∈ hexDigits := by
  have hlen : hexDigits.length = 16 := rfl
  rw [hexDigit, List.getD_eq_getElem _ _ (hlen ▸ h)]
  exact List.getElem_mem _

theorem mem_escapeByte {b : UInt8} {c : Char} (h : c ∈ escapeByte b) :
    c = '%' ∨ c ∈ hexDigits := by
  have hb : b.toNat < 256 := b.toNat_lt
  simp only [escapeByte, List.mem_cons, List.not_mem_nil, or_false] at h
  rcases h with rfl | rfl | rfl
  · exact .inl rfl
  · exact .inr (hexDigit_mem (by omega))
  · exact .inr (hexDigit_mem (by omega))

/-- Encoded texts hold kept characters, percent signs and hexadecimal digits only. -/
theorem mem_escape {s : List Char} {c : Char} (h : c ∈ escape keep s) :
    keep c = true ∨ c = '%' ∨ c ∈ hexDigits := by
  obtain ⟨d, _, hd⟩ := List.mem_flatMap.mp h
  unfold escapeChar at hd
  split_ifs at hd with hkeep
  · rw [List.mem_singleton] at hd
    exact .inl (hd ▸ hkeep)
  · obtain ⟨b, _, hb⟩ := List.mem_flatMap.mp hd
    exact .inr (mem_escapeByte hb)

/-- An escaped character takes up three places or more. -/
theorem length_escapeChar (keep : Char → Bool) (c : Char) :
    (keep c = true ∧ escapeChar keep c = [c]) ∨
      (keep c = false ∧ 3 ≤ (escapeChar keep c).length) := by
  unfold escapeChar
  split_ifs with hkeep
  · exact .inl ⟨hkeep, rfl⟩
  · refine .inr ⟨Bool.eq_false_iff.mpr hkeep, ?_⟩
    obtain ⟨b, bs, hbytes⟩ := List.exists_cons_of_ne_nil (String.utf8EncodeChar_ne_nil (c := c))
    rw [hbytes, List.flatMap_cons, List.length_append]
    simp [escapeByte]

theorem length_le_escape (keep : Char → Bool) (s : List Char) :
    s.length ≤ (escape keep s).length := by
  induction s with
  | nil => exact Nat.le_refl 0
  | cons c s ih =>
    rw [escape, List.flatMap_cons, List.length_append, List.length_cons]
    have hrest : s.length ≤ (s.flatMap (escapeChar keep)).length := ih
    rcases length_escapeChar keep c with ⟨_, heq⟩ | ⟨_, hlen⟩
    · rw [heq, List.length_singleton]
      omega
    · omega

/-- A text is its own encoding exactly when all its characters are kept. -/
theorem escape_eq_self_iff {s : List Char} : escape keep s = s ↔ ∀ c ∈ s, keep c = true := by
  induction s with
  | nil => simp [escape]
  | cons c s ih =>
    have hrest := length_le_escape keep s
    have hcons : escape keep (c :: s) = escapeChar keep c ++ escape keep s := List.flatMap_cons
    rw [hcons, List.forall_mem_cons, ← ih]
    rcases length_escapeChar keep c with ⟨hkeep, heq⟩ | ⟨hdrop, hlen⟩
    · rw [heq, hkeep, List.singleton_append, List.cons_inj_right]
      simp
    · constructor
      · intro h
        have hlength := congrArg List.length h
        rw [List.length_append, List.length_cons] at hlength
        omega
      · rintro ⟨hkeep, _⟩
        rw [hdrop] at hkeep
        contradiction

end PercentEncoding
