import Mathlib.Data.Int.Log
import Mathlib.Data.List.DropRight
import Mathlib.Data.Rat.Floor
import Mathlib.Tactic.Ring
import ForkliftSafety.Library.Json

/-! The general format `%g` with six significant digits, as C++ streams print floating-point
numbers by default. Its texts are JSON numbers, and short integers are printed exactly. -/
namespace GeneralFormat

/-- The exponent of the first significant digit of a positive number. -/
def decimalExponent (x : ℚ) : ℤ :=
  if 1 ≤ x then (Nat.log 10 ⌊x⌋.toNat : ℤ) else -(Nat.clog 10 ⌈x⁻¹⌉.toNat : ℤ)

def roundHalfEven (x : ℚ) : ℤ :=
  let r := x - ⌊x⌋
  if r < 1 / 2 then ⌊x⌋
  else if 1 / 2 < r then ⌊x⌋ + 1
  else if ⌊x⌋ % 2 = 0 then ⌊x⌋
  else ⌊x⌋ + 1

/-- Six significant digits as one number, and the exponent of the first of them. Rounding up may
carry into a seventh. -/
def significant (x : ℚ) : ℕ × ℤ :=
  let e := decimalExponent x
  let d := (roundHalfEven (x * 10 ^ (5 - e))).toNat
  if d = 10 ^ 6 then (10 ^ 5, e + 1) else (d, e)

def stripZeros (ds : List Char) : List Char := ds.rdropWhile (· = '0')

def exponentDigits (e : ℤ) : List Char :=
  let ds := Nat.toDigits 10 e.natAbs
  if ds.length < 2 then '0' :: ds else ds

/-- The whole digits, the digits behind the point and the exponent of a non-negative number. -/
structure Parts where
  ip : List Char
  fp : List Char
  exponent : Option (Bool × List Char)

/-- Six digits with the exponent `e` of the first, in scientific or in fixed notation. -/
def layout (ds : List Char) (e : ℤ) : Parts :=
  if e < -4 ∨ 6 ≤ e then
    ⟨ds.take 1, stripZeros (ds.drop 1), some (decide (e < 0), exponentDigits e)⟩
  else if e < 0 then ⟨['0'], stripZeros (List.replicate (-e - 1).toNat '0' ++ ds), none⟩
  else ⟨ds.take (e.toNat + 1), stripZeros (ds.drop (e.toNat + 1)), none⟩

def parts (x : ℚ) : Parts :=
  if x = 0 then ⟨['0'], [], none⟩
  else layout (Nat.toDigits 10 (significant x).1) (significant x).2

theorem mem_of_mem_stripZeros {ds : List Char} {c : Char} (hc : c ∈ stripZeros ds) : c ∈ ds :=
  (List.rdropWhile_prefix _ ds).subset hc

theorem intDigits_take {ds : List Char} (h : Json.IntDigits ds) (n : ℕ) :
    Json.IntDigits (ds.take (n + 1)) := by
  rcases h with rfl | ⟨c, cs, rfl, hc, hall⟩
  · exact Or.inl (by simp)
  · right
    refine ⟨c, cs.take n, by rw [List.take_succ_cons], hc, ?_⟩
    intro d hd
    exact hall d (List.mem_of_mem_take hd)

theorem exponentDigits_digits (e : ℤ) :
    exponentDigits e ≠ [] ∧ ∀ c ∈ exponentDigits e, c.isDigit = true := by
  unfold exponentDigits
  by_cases hlen : (Nat.toDigits 10 e.natAbs).length < 2
  · rw [if_pos hlen]
    refine ⟨by simp, ?_⟩
    intro c hc
    rcases List.mem_cons.mp hc with rfl | hc
    · rfl
    · exact Decimal.isDigit_of_mem hc
  · rw [if_neg hlen]
    exact ⟨Nat.toDigits_ne_nil, fun c hc => Decimal.isDigit_of_mem hc⟩

/-- What a number text asks of its digits. -/
structure Parts.WellFormed (p : Parts) : Prop where
  ip : Json.IntDigits p.ip
  fp : ∀ c ∈ p.fp, c.isDigit = true
  exponent : ∀ e ∈ p.exponent, e.2 ≠ [] ∧ ∀ c ∈ e.2, c.isDigit = true

theorem layout_wellFormed {ds : List Char} (h : Json.IntDigits ds)
    (hds : ∀ c ∈ ds, c.isDigit = true) (e : ℤ) : (layout ds e).WellFormed := by
  have hstrip : ∀ n, ∀ c ∈ stripZeros (ds.drop n), c.isDigit = true := by
    intro n c hc
    exact hds c (List.mem_of_mem_drop (mem_of_mem_stripZeros hc))
  unfold layout
  split_ifs
  · refine ⟨intDigits_take h 0, hstrip 1, ?_⟩
    intro e' he
    rw [Option.mem_some_iff] at he
    rw [← he]
    exact exponentDigits_digits e
  · refine ⟨Or.inl rfl, ?_, by simp⟩
    intro c hc
    rcases List.mem_append.mp (mem_of_mem_stripZeros hc) with hzero | hmem
    · rw [List.eq_of_mem_replicate hzero]
      rfl
    · exact hds c hmem
  · exact ⟨intDigits_take h e.toNat, hstrip _, by simp⟩

theorem parts_wellFormed (x : ℚ) : (parts x).WellFormed := by
  unfold parts
  split_ifs
  · exact ⟨Or.inl rfl, by simp, by simp⟩
  · exact layout_wellFormed (Json.toDigits_intDigits _) (fun c hc => Decimal.isDigit_of_mem hc) _

/-- The printed number, with the proof that it has the form of a JSON number. -/
def numberText (x : ℚ) : Json.NumberText where
  negative := decide (x < 0)
  ip := (parts |x|).ip
  fp := (parts |x|).fp
  exponent := (parts |x|).exponent
  ipDigits := (parts_wellFormed |x|).ip
  fpDigits := (parts_wellFormed |x|).fp
  expDigits := (parts_wellFormed |x|).exponent

/-- What `stream << x` prints. -/
def format (x : ℚ) : String := String.ofList (numberText x).text

@[simp] theorem format_toList (x : ℚ) : (format x).toList = (numberText x).text :=
  String.toList_ofList

theorem roundHalfEven_natCast (n : ℕ) : roundHalfEven (n : ℚ) = n := by
  unfold roundHalfEven
  have hfloor : ⌊(n : ℚ)⌋ = (n : ℤ) := Int.floor_natCast n
  have hrest : (n : ℚ) - ⌊(n : ℚ)⌋ < 1 / 2 := by
    rw [hfloor, Int.cast_natCast, sub_self]
    norm_num
  rw [if_pos hrest, hfloor]

theorem decimalExponent_natCast {n : ℕ} (h : 1 ≤ n) :
    decimalExponent (n : ℚ) = Nat.log 10 n := by
  unfold decimalExponent
  have hone : (1 : ℚ) ≤ n := by exact_mod_cast h
  have hfloor : ⌊(n : ℚ)⌋ = (n : ℤ) := Int.floor_natCast n
  rw [if_pos hone, hfloor, Int.toNat_natCast]

theorem toDigits_mul_pow {n : ℕ} (h : 0 < n) (k : ℕ) :
    Nat.toDigits 10 (n * 10 ^ k) = Nat.toDigits 10 n ++ List.replicate k '0' := by
  induction k with
  | zero => simp
  | succ k ih =>
    have hpos : 0 < n * 10 ^ k := Nat.mul_pos h (Nat.pow_pos (by decide))
    have happend := Nat.toDigits_append_toDigits (b := 10) (by decide) hpos (d := 0) (by decide)
    have hmul : 10 * (n * 10 ^ k) + 0 = n * 10 ^ (k + 1) := by ring
    rw [hmul, ih] at happend
    rw [← happend, List.replicate_succ', List.append_assoc]
    rfl

theorem length_toDigits {n : ℕ} (h : 0 < n) :
    (Nat.toDigits 10 n).length = Nat.log 10 n + 1 := by
  have hupper : (Nat.toDigits 10 n).length ≤ Nat.log 10 n + 1 := by
    rw [Nat.length_toDigits_le_iff (by decide) (by omega)]
    exact Nat.lt_pow_succ_log_self (by decide) n
  have hpos : 0 < (Nat.toDigits 10 n).length := Nat.length_toDigits_pos
  by_cases hlog : Nat.log 10 n = 0
  · omega
  · have hlower : ¬ (Nat.toDigits 10 n).length ≤ Nat.log 10 n := by
      rw [Nat.length_toDigits_le_iff (by decide) (by omega), not_lt]
      exact Nat.pow_log_le_self 10 h.ne'
    omega

/-- Scaling an integer of at most six digits to six digits is exact. -/
theorem significant_natCast {n : ℕ} (h : 0 < n) (hsix : n < 10 ^ 6) :
    significant (n : ℚ) = (n * 10 ^ (5 - Nat.log 10 n), (Nat.log 10 n : ℤ)) := by
  have hlog : Nat.log 10 n < 6 := Nat.log_lt_of_lt_pow h.ne' hsix
  have hscale : (n : ℚ) * 10 ^ (5 - (Nat.log 10 n : ℤ)) =
      ((n * 10 ^ (5 - Nat.log 10 n) : ℕ) : ℚ) := by
    have hexp : (5 : ℤ) - (Nat.log 10 n : ℤ) = ((5 - Nat.log 10 n : ℕ) : ℤ) := by omega
    rw [hexp, zpow_natCast]
    push_cast
    ring
  have hless : n * 10 ^ (5 - Nat.log 10 n) < 10 ^ 6 := by
    calc
      n * 10 ^ (5 - Nat.log 10 n) < 10 ^ (Nat.log 10 n + 1) * 10 ^ (5 - Nat.log 10 n) :=
        Nat.mul_lt_mul_of_pos_right (Nat.lt_pow_succ_log_self (by decide) n)
          (Nat.pow_pos (by decide))
      _ = 10 ^ 6 := by
        rw [← pow_add]
        congr 1
        omega
  unfold significant
  simp only [decimalExponent_natCast h, hscale, roundHalfEven_natCast, Int.toNat_natCast,
    if_neg hless.ne]

theorem stripZeros_replicate (k : ℕ) : stripZeros (List.replicate k '0') = [] := by
  unfold stripZeros
  rw [List.rdropWhile_eq_nil_iff]
  intro c hc
  simp [List.eq_of_mem_replicate hc]

theorem parts_natCast {n : ℕ} (hsix : n < 10 ^ 6) :
    parts (n : ℚ) = ⟨Nat.toDigits 10 n, [], none⟩ := by
  by_cases hzero : n = 0
  · subst hzero
    rfl
  · have hpos : 0 < n := Nat.pos_of_ne_zero hzero
    have hlog : Nat.log 10 n < 6 := Nat.log_lt_of_lt_pow hzero hsix
    have hne : (n : ℚ) ≠ 0 := by exact_mod_cast hzero
    have hfixed : ¬ ((Nat.log 10 n : ℤ) < -4 ∨ 6 ≤ (Nat.log 10 n : ℤ)) := by omega
    have hwhole : ¬ (Nat.log 10 n : ℤ) < 0 := by omega
    have hlen := length_toDigits hpos
    unfold parts layout
    rw [if_neg hne, significant_natCast hpos hsix]
    simp only [if_neg hfixed, if_neg hwhole, toDigits_mul_pow hpos, Int.toNat_natCast]
    rw [List.take_left' hlen, List.drop_left' hlen, stripZeros_replicate]

/-- An integer of at most six digits is printed as its numeral. -/
theorem numberText_intCast {n : ℤ} (hsix : |n| < 10 ^ 6) :
    numberText (n : ℚ) = Json.integerText n := by
  have habs : |(n : ℚ)| = ((n.natAbs : ℕ) : ℚ) := by
    rw [Nat.cast_natAbs, Int.cast_abs]
  have hnat : n.natAbs < 10 ^ 6 := by
    have hcast : (n.natAbs : ℤ) < 10 ^ 6 := by rwa [Int.natCast_natAbs]
    omega
  have hparts := parts_natCast hnat
  have hsign : decide ((n : ℚ) < 0) = decide (n < 0) := by
    simp only [Int.cast_lt_zero]
  unfold numberText Json.integerText
  simp only [habs, hparts, hsign]

end GeneralFormat
