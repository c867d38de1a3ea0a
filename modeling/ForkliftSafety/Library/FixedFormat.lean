import ForkliftSafety.Library.GeneralFormat

/-! The format `%.2f` printed into a buffer that may cut it off, and when what is left is a JSON
number. -/
namespace FixedFormat
open GeneralFormat

/-- The magnitude in hundredths. -/
def hundredths (x : ℚ) : ℕ := (roundHalfEven (|x| * 100)).toNat

/-- What stands before the point. -/
def wholeText (x : ℚ) : List Char :=
  (if decide (x < 0) then ['-'] else []) ++ Nat.toDigits 10 (hundredths x / 100)

def fraction (x : ℚ) : List Char :=
  [Nat.digitChar (hundredths x / 10 % 10), Nat.digitChar (hundredths x % 10)]

def fixedText (x : ℚ) : List Char := wholeText x ++ '.' :: fraction x

/-- What a variable of a floating-point type may hold. -/
inductive FloatValue where
  | finite (x : ℚ)
  | infinite (negative : Bool)
  | nan (negative : Bool)
  deriving DecidableEq, Repr

def signText (negative : Bool) : List Char := if negative then ['-'] else []

def floatText : FloatValue → List Char
  | .finite x => fixedText x
  | .infinite negative => signText negative ++ ['i', 'n', 'f']
  | .nan negative => signText negative ++ ['n', 'a', 'n']

/-- What `snprintf` leaves in a buffer of `size` characters, the last of which ends the string. -/
def snprintf (size : ℕ) (text : List Char) : List Char := text.take (size - 1)

theorem fraction_digits (x : ℚ) : ∀ c ∈ fraction x, c.isDigit = true := by
  intro c hc
  simp only [fraction, List.mem_cons, List.not_mem_nil, or_false] at hc
  rcases hc with rfl | rfl
  · rw [Nat.isDigit_digitChar, decide_eq_true_eq]
    exact Nat.mod_lt _ (by decide)
  · rw [Nat.isDigit_digitChar, decide_eq_true_eq]
    exact Nat.mod_lt _ (by decide)

theorem mem_fixedText {x : ℚ} {c : Char} (h : c ∈ fixedText x) :
    c.isDigit = true ∨ c ∈ ['-', '.'] := by
  simp only [fixedText, wholeText, List.mem_append, List.mem_cons] at h
  rcases h with (hsign | hwhole) | rfl | hfraction
  · have hminus : c = '-' := by
      by_cases hx : x < 0 <;> simp [hx] at hsign
      exact hsign
    rw [hminus]
    exact Or.inr (by decide)
  · exact Or.inl (Decimal.isDigit_of_mem hwhole)
  · exact Or.inr (by decide)
  · exact Or.inl (fraction_digits x c hfraction)

/-- The characters of a printed value. -/
theorem mem_floatText {x : FloatValue} {c : Char} (h : c ∈ floatText x) :
    c.isDigit = true ∨ c ∈ ['-', '.', 'i', 'n', 'f', 'a'] := by
  cases x with
  | finite x =>
    refine (mem_fixedText h).imp_right fun hc => ?_
    exact List.mem_append_left ['i', 'n', 'f', 'a'] hc
  | infinite negative =>
    refine Or.inr ?_
    revert h
    cases negative <;> simp [floatText, signText] <;> tauto
  | nan negative =>
    refine Or.inr ?_
    revert h
    cases negative <;> simp [floatText, signText] <;> tauto

/-- Cut off in front of the point, the text is a whole number. -/
theorem take_within {x : ℚ} {n : ℕ} (hn : 2 ≤ n) (h : n ≤ (wholeText x).length) :
    ∃ t : Json.NumberText, t.text = (fixedText x).take n := by
  have htake : (fixedText x).take n = (wholeText x).take n := List.take_append_of_le_length h
  have hdigits := Json.toDigits_intDigits (hundredths x / 100)
  have hcut (k : ℕ) : Json.IntDigits ((Nat.toDigits 10 (hundredths x / 100)).take (k + 1)) :=
    intDigits_take hdigits k
  rw [htake, wholeText]
  by_cases hx : x < 0
  · obtain ⟨k, rfl⟩ : ∃ k, n = k + 2 := ⟨n - 2, by omega⟩
    refine ⟨⟨true, _, [], none, hcut k, by simp, by simp⟩, ?_⟩
    simp [Json.NumberText.text, Json.NumberText.fracText, Json.NumberText.expText, hx]
  · obtain ⟨k, rfl⟩ : ∃ k, n = k + 1 := ⟨n - 1, by omega⟩
    refine ⟨⟨false, _, [], none, hcut k, by simp, by simp⟩, ?_⟩
    simp [Json.NumberText.text, Json.NumberText.fracText, Json.NumberText.expText, hx]

/-- With a digit behind the point left, the text is a number. -/
theorem take_behind {x : ℚ} {n : ℕ} (h : (wholeText x).length + 2 ≤ n) :
    ∃ t : Json.NumberText, t.text = (fixedText x).take n := by
  obtain ⟨k, rfl⟩ : ∃ k, n = (wholeText x).length + (k + 2) :=
    ⟨n - (wholeText x).length - 2, by omega⟩
  have htake : (fixedText x).take ((wholeText x).length + (k + 2)) =
      wholeText x ++ '.' :: (fraction x).take (k + 1) := by
    rw [fixedText, List.take_length_add_append]
    rfl
  have hne : (fraction x).take (k + 1) ≠ [] := by simp [fraction]
  refine ⟨⟨decide (x < 0), _, (fraction x).take (k + 1), none,
    Json.toDigits_intDigits (hundredths x / 100), ?_, by simp⟩, ?_⟩
  · intro c hc
    exact fraction_digits x c (List.mem_of_mem_take hc)
  · rw [htake, wholeText]
    simp only [Json.NumberText.text, Json.NumberText.fracText, Json.NumberText.expText, if_neg hne,
      List.append_nil, List.append_assoc]

/-- Unless it is cut off right behind the point, what is left is a number. -/
theorem snprintf_number {x : ℚ} {size : ℕ} (hsize : 3 ≤ size)
    (h : (wholeText x).length + 2 ≠ size) :
    ∃ t : Json.NumberText, t.text = snprintf size (fixedText x) := by
  unfold snprintf
  by_cases hlong : size - 1 ≤ (wholeText x).length
  · exact take_within (by omega) hlong
  · exact take_behind (by omega)

theorem snprintf_pointless {x : ℚ} {size : ℕ} (h : (wholeText x).length + 2 = size) :
    snprintf size (fixedText x) = wholeText x ++ ['.'] := by
  have hsize : size - 1 = (wholeText x).length + 1 := by omega
  rw [snprintf, hsize, fixedText, List.take_length_add_append]
  rfl

end FixedFormat
