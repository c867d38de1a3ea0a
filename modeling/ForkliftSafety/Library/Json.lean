import Mathlib.Data.Rat.Defs
import Mathlib.Algebra.Order.Field.Rat
import Mathlib.Algebra.Order.Field.Basic
import ForkliftSafety.Library.Decimal

/-! JSON texts: a recursive-descent parser over characters, and the rules by which texts that are
put together from parts are read back. -/
namespace Json

inductive Value where
  | null
  | bool (b : Bool)
  | number (x : ℚ)
  | string (s : List Char)
  | array (items : List Value)
  | object (members : List (List Char × Value))

def isWs (c : Char) : Bool := c = ' ' || c = '\t' || c = '\n' || c = '\r'

def skipWs (s : List Char) : List Char := s.dropWhile isWs

/-- One character after white space. -/
def expect (c : Char) (s : List Char) : Option (List Char) :=
  match skipWs s with
  | [] => none
  | d :: s => if d = c then some s else none

theorem skipWs_cons {c : Char} (hc : isWs c = false) (s : List Char) :
    skipWs (c :: s) = c :: s := by
  rw [skipWs, List.dropWhile_cons_of_neg (by simp [hc])]

theorem expect_self {c : Char} (hc : isWs c = false) (s : List Char) :
    expect c (c :: s) = some s := by
  rw [expect, skipWs_cons hc]
  simp

theorem expect_ne {c d : Char} (hd : isWs d = false) (hne : d ≠ c) (s : List Char) :
    expect c (d :: s) = none := by
  rw [expect, skipWs_cons hd]
  simp [hne]

def hexValue (c : Char) : Option ℕ :=
  if '0' ≤ c ∧ c ≤ '9' then some (c.toNat - '0'.toNat)
  else if 'a' ≤ c ∧ c ≤ 'f' then some (c.toNat - 'a'.toNat + 10)
  else if 'A' ≤ c ∧ c ≤ 'F' then some (c.toNat - 'A'.toNat + 10)
  else none

def hex4 : List Char → Option (ℕ × List Char)
  | a :: b :: c :: d :: s =>
    match hexValue a, hexValue b, hexValue c, hexValue d with
    | some a, some b, some c, some d => some (4096 * a + 256 * b + 16 * c + d, s)
    | _, _, _, _ => none
  | _ => none

/-- What a surrogate without its partner is read as. -/
def replacement : Char := Char.ofNat 0xfffd

/-- The digits of a `\u` escape, with those of a second one when the first is the leading half of a
surrogate pair. -/
def unicodeEscape (s : List Char) : Option (Char × List Char) :=
  (hex4 s).map fun first =>
    if 0xd800 ≤ first.1 ∧ first.1 < 0xdc00 then
      match first.2 with
      | '\\' :: 'u' :: t =>
        match hex4 t with
        | some (low, t') =>
          if 0xdc00 ≤ low ∧ low < 0xe000 then
            (Char.ofNat (0x10000 + (first.1 - 0xd800) * 0x400 + (low - 0xdc00)), t')
          else (replacement, first.2)
        | none => (replacement, first.2)
      | _ => (replacement, first.2)
    else if 0xdc00 ≤ first.1 ∧ first.1 < 0xe000 then (replacement, first.2)
    else (Char.ofNat first.1, first.2)

/-- The characters of the two-character escapes. -/
def simpleEscapes : List (Char × Char) :=
  [('"', '"'), ('\\', '\\'), ('/', '/'), ('b', Char.ofNat 8), ('f', Char.ofNat 12), ('n', '\n'),
    ('r', '\r'), ('t', '\t')]

/-- What follows a backslash. -/
def escape : List Char → Option (Char × List Char)
  | [] => none
  | c :: s =>
    match simpleEscapes.lookup c with
    | some e => some (e, s)
    | none => if c = 'u' then unicodeEscape s else none

/-- A string from behind its opening quote to behind its closing one. -/
def chars : ℕ → List Char → Option (List Char × List Char)
  | 0, _ => none
  | _ + 1, [] => none
  | n + 1, c :: s =>
    if c = '"' then some ([], s)
    else if c = '\\' then
      (escape s).bind fun e => (chars n e.2).map fun r => (e.1 :: r.1, r.2)
    else if c.toNat < 0x20 then none
    else (chars n s).map fun r => (c :: r.1, r.2)

/-- The characters that stand for themselves in a string. -/
def Plain (c : Char) : Prop := c ≠ '"' ∧ c ≠ '\\' ∧ 0x20 ≤ c.toNat

instance (c : Char) : Decidable (Plain c) := inferInstanceAs (Decidable (_ ∧ _))

def PlainText (s : List Char) : Prop := ∀ c ∈ s, Plain c

instance (s : List Char) : Decidable (PlainText s) := List.decidableBAll Plain s

theorem chars_quote (n : ℕ) (s : List Char) : chars (n + 1) ('"' :: s) = some ([], s) := rfl

theorem chars_escape {s s' : List Char} {e : Char} (h : escape s = some (e, s')) (n : ℕ) :
    chars (n + 1) ('\\' :: s) = (chars n s').map fun r => (e :: r.1, r.2) := by
  rw [chars, if_neg (by decide), if_pos rfl, h, Option.bind_some]

theorem chars_cons {c : Char} (hc : Plain c) (n : ℕ) (s : List Char) :
    chars (n + 1) (c :: s) = (chars n s).map fun r => (c :: r.1, r.2) := by
  obtain ⟨hquote, hback, hctl⟩ := hc
  rw [chars, if_neg hquote, if_neg hback, if_neg (by omega)]

/-- A string ends with a quote, or goes on behind an escape or a plain character. -/
theorem chars_cases {n : ℕ} {c : Char} {s a rest : List Char}
    (h : chars (n + 1) (c :: s) = some (a, rest)) :
    (c = '"' ∧ a = [] ∧ rest = s) ∨
    (c = '\\' ∧ ∃ e s' v, escape s = some (e, s') ∧ chars n s' = some (v, rest) ∧ a = e :: v) ∨
    (Plain c ∧ ∃ v, chars n s = some (v, rest) ∧ a = c :: v) := by
  rw [chars] at h
  split_ifs at h with hquote hback hctl
  · obtain ⟨rfl, rfl⟩ := Prod.mk.inj (Option.some.inj h)
    exact .inl ⟨hquote, rfl, rfl⟩
  · obtain ⟨⟨e, s'⟩, hescape, hmap⟩ := Option.bind_eq_some_iff.mp h
    obtain ⟨⟨v, r⟩, hv, heq⟩ := Option.map_eq_some_iff.mp hmap
    obtain ⟨rfl, rfl⟩ := Prod.mk.inj heq
    exact .inr (.inl ⟨hback, e, s', v, hescape, hv, rfl⟩)
  · obtain ⟨⟨v, r⟩, hv, heq⟩ := Option.map_eq_some_iff.mp h
    obtain ⟨rfl, rfl⟩ := Prod.mk.inj heq
    exact .inr (.inr ⟨⟨hquote, hback, not_lt.mp hctl⟩, v, hv, rfl⟩)

theorem chars_plain {s : List Char} (hs : PlainText s) {n : ℕ} (hn : s.length < n)
    (rest : List Char) : chars n (s ++ '"' :: rest) = some (s, rest) := by
  induction s generalizing n with
  | nil =>
    obtain ⟨n, rfl⟩ : ∃ m, n = m + 1 := ⟨n - 1, by simp at hn; omega⟩
    exact chars_quote n rest
  | cons c s ih =>
    obtain ⟨n, rfl⟩ : ∃ m, n = m + 1 := ⟨n - 1, by simp at hn; omega⟩
    obtain ⟨hc, hplain⟩ := List.forall_mem_cons.mp hs
    have hrest := ih hplain (n := n) (by simp at hn; omega)
    rw [List.cons_append, chars_cons hc, hrest, Option.map_some]

/-- Four digits are read off the front, whatever follows them. -/
theorem hex4_local {s s' : List Char} {u : ℕ} (h : hex4 s = some (u, s')) :
    ∃ used, s = used ++ s' ∧ '"' ∉ used ∧ ∀ r, hex4 (used ++ r) = some (u, r) := by
  unfold hex4 at h
  split at h
  · rename_i a b c d t
    split at h
    · rename_i ha hb hc hd
      simp only [Option.some.injEq, Prod.mk.injEq] at h
      obtain ⟨rfl, rfl⟩ := h
      have hquote : hexValue '"' = none := by decide
      have hne : ∀ {x : Char} {y : ℕ}, hexValue x = some y → '"' ≠ x := by
        rintro x y hxy rfl
        rw [hquote] at hxy
        contradiction
      refine ⟨[a, b, c, d], rfl, by simp [hne ha, hne hb, hne hc, hne hd], fun r => ?_⟩
      simp [hex4, ha, hb, hc, hd]
    · contradiction
  · contradiction

theorem hex4_split {s s' : List Char} {u : ℕ} (h : hex4 s = some (u, s')) :
    ∃ used, s = used ++ s' ∧ '"' ∉ used := by
  obtain ⟨used, hsplit, hquote, _⟩ := hex4_local h
  exact ⟨used, hsplit, hquote⟩

theorem unicodeEscape_split {s s' : List Char} {e : Char}
    (h : unicodeEscape s = some (e, s')) : ∃ used, s = used ++ s' ∧ '"' ∉ used := by
  obtain ⟨⟨u, t⟩, hu, heq⟩ := Option.map_eq_some_iff.mp h
  obtain ⟨used, rfl, hused⟩ := hex4_split hu
  have hsingle : ∀ c : Char, (c, t) = (e, s') → ∃ used', used ++ t = used' ++ s' ∧ '"' ∉ used' := by
    intro c hc
    rw [Prod.mk.injEq] at hc
    exact ⟨used, by rw [hc.2], hused⟩
  simp only at heq
  split_ifs at heq
  · split at heq
    · split at heq
      · -- A surrogate pair takes the digits of both escapes.
        rename_i t low t' hlow
        obtain ⟨used', rfl, hused'⟩ := hex4_split hlow
        split_ifs at heq
        · rw [Prod.mk.injEq] at heq
          refine ⟨used ++ '\\' :: 'u' :: used', ?_, ?_⟩
          · rw [← heq.2]
            simp
          · simp [hused, hused']
        · exact hsingle _ heq
      · exact hsingle _ heq
    · exact hsingle _ heq
  · exact hsingle _ heq
  · exact hsingle _ heq

/-- An escape uses up one quote or none. -/
theorem escape_split {s s' : List Char} {e : Char} (h : escape s = some (e, s')) :
    ∃ used, s = used ++ s' ∧ used ≠ [] ∧ (used = ['"'] ∨ '"' ∉ used) := by
  cases s with
  | nil => contradiction
  | cons c s =>
    rw [escape] at h
    cases hc : simpleEscapes.lookup c with
    | some d =>
      simp only [hc, Option.some.injEq, Prod.mk.injEq] at h
      refine ⟨[c], by rw [h.2]; rfl, by simp, ?_⟩
      by_cases hquote : c = '"'
      · exact Or.inl (by rw [hquote])
      · exact Or.inr (by simp [Ne.symm hquote])
    | none =>
      simp only [hc] at h
      split_ifs at h with hu
      obtain ⟨used, rfl, hused⟩ := unicodeEscape_split h
      refine ⟨c :: used, rfl, by simp, Or.inr ?_⟩
      simp [hu, hused]

/-- An escape in a text before a quote stays in the text, unless it is the quote itself. -/
theorem escape_quoted {s s' rest : List Char} {e : Char}
    (h : escape (s ++ '"' :: rest) = some (e, s')) :
    (∃ used w, s = used ++ w ∧ used ≠ [] ∧ s' = w ++ '"' :: rest) ∨ (s = [] ∧ s' = rest) := by
  obtain ⟨used, hsplit, hused, hquotes⟩ := escape_split h
  rcases List.append_eq_append_iff.mp hsplit with ⟨z, hz, hrest⟩ | ⟨w, hw, hs'⟩
  · cases z with
    | nil =>
      left
      rw [List.append_nil] at hz
      exact ⟨used, [], by rw [hz, List.append_nil], hused, hrest.symm⟩
    | cons d z =>
      right
      rw [List.cons_append, List.cons.injEq] at hrest
      have hone : s ++ d :: z = ['"'] := by
        rcases hquotes with hone | hnone
        · rw [← hz, hone]
        · apply absurd _ hnone
          rw [hz, ← hrest.1]
          simp
      obtain ⟨rfl, hz'⟩ : s = [] ∧ d :: z = ['"'] := by
        cases s with
        | nil => exact ⟨rfl, hone⟩
        | cons x s => simp at hone
      rw [List.cons.injEq] at hz'
      rw [hrest.2, hz'.2]
      exact ⟨rfl, rfl⟩
  · exact Or.inl ⟨used, w, hw, hused, hs'⟩

/-- A text that is put between quotes as it is reads as something that ends in the text only when it
reads as the text and all its characters are plain, if no string can end in a backslash that goes on
behind the closing quote. The induction is on the text: an escape leaves less of it than there is
still to match. -/
theorem plain_of_chars_before {tail : List Char}
    (htail : ∀ n e v r, chars n tail = some (v, r) → (e :: v).getLast? ≠ some '\\')
    {n : ℕ} {p s rest : List Char} (h : chars n (s ++ '"' :: tail) = some (p ++ s, rest)) :
    p = [] ∧ PlainText s := by
  induction hlen : s.length using Nat.strong_induction_on generalizing n p s rest with
  | _ len ih =>
    cases n with
    | zero => contradiction
    | succ n =>
      cases s with
      | nil =>
        simp only [List.nil_append, chars, ↓reduceIte, Option.some.injEq, Prod.mk.injEq,
          List.append_nil] at h
        exact ⟨h.1.symm, by simp [PlainText]⟩
      | cons c s =>
        rw [List.cons_append] at h
        rcases chars_cases h with
          ⟨_, hnil, _⟩ | ⟨hback, e, s', v, hescape, hv, heq⟩ | ⟨hplain, v, hv, heq⟩
        · simp at hnil
        · exfalso
          rcases escape_quoted hescape with ⟨used, w, rfl, hused, rfl⟩ | ⟨rfl, rfl⟩
          · have hshort : w.length < len := by
              simp only [List.length_cons, List.length_append] at hlen
              omega
            obtain ⟨q, hq, hne⟩ : ∃ q, v = q ++ w ∧ q ≠ [] := by
              cases p with
              | nil => exact ⟨used, (List.cons.inj heq).2.symm, hused⟩
              | cons d p =>
                refine ⟨p ++ c :: used, ?_, by simp⟩
                rw [← (List.cons.inj heq).2]
                simp
            rw [hq] at hv
            exact hne (ih w.length hshort hv rfl).1
          · -- The escape swallows the closing quote, and the string goes on behind it.
            have hlast := htail n e v rest hv
            rw [← heq, hback] at hlast
            simp at hlast
        · have hshort : s.length < len := by
            rw [← hlen]
            exact Nat.lt_succ_self _
          cases p with
          | nil =>
            rw [← (List.cons.inj heq).2, ← List.nil_append s] at hv
            obtain ⟨_, hs⟩ := ih s.length hshort (p := []) hv rfl
            exact ⟨rfl, List.forall_mem_cons.mpr ⟨hplain, hs⟩⟩
          | cons d p =>
            exfalso
            have hq : v = (p ++ [c]) ++ s := by
              rw [← (List.cons.inj heq).2]
              simp
            rw [hq] at hv
            have hnil := (ih s.length hshort hv rfl).1
            simp at hnil

/-- A comma and the quote of another string: a string that goes on there ends in the comma. -/
theorem plain_of_chars {n : ℕ} {p s more rest : List Char}
    (h : chars n (s ++ '"' :: ',' :: '"' :: more) = some (p ++ s, rest)) :
    p = [] ∧ PlainText s := by
  refine plain_of_chars_before (fun n e v r hv => ?_) h
  obtain rfl : v = [','] := by
    cases n with
    | zero => contradiction
    | succ n =>
      cases n with
      | zero => simp [chars] at hv
      | succ n =>
        simp [chars] at hv
        exact hv.1.symm
  simp

/-- A closing bracket and the end of the text: no string goes on there. -/
theorem plain_of_chars_last {n : ℕ} {p s rest : List Char}
    (h : chars n (s ++ ['"', ']']) = some (p ++ s, rest)) : p = [] ∧ PlainText s := by
  refine plain_of_chars_before (fun n e v r hv => ?_) h
  exfalso
  cases n with
  | zero => contradiction
  | succ n => cases n <;> simp [chars] at hv

def spanDigits (s : List Char) : List Char × List Char :=
  (s.takeWhile Char.isDigit, s.dropWhile Char.isDigit)

/-- A zero alone, or digits that do not begin with one. -/
def intPart : List Char → Option (List Char × List Char)
  | [] => none
  | c :: s =>
    if c = '0' then some (['0'], s)
    else if c.isDigit then some (c :: (spanDigits s).1, (spanDigits s).2)
    else none

/-- The digits behind a point; none where there is no point. -/
def fracPart : List Char → Option (List Char × List Char)
  | [] => some ([], [])
  | c :: s =>
    if c = '.' then if (spanDigits s).1 = [] then none else some (spanDigits s)
    else some ([], c :: s)

def signPart : List Char → Bool × List Char
  | [] => (false, [])
  | c :: s => if c = '-' then (true, s) else if c = '+' then (false, s) else (false, c :: s)

def expPart : List Char → Option (ℤ × List Char)
  | [] => some (0, [])
  | c :: s =>
    if c = 'e' ∨ c = 'E' then
      let r := signPart s
      let ds := spanDigits r.2
      if ds.1 = [] then none
      else some ((if r.1 then -1 else 1) * (Nat.ofDigitChars 10 ds.1 0 : ℤ), ds.2)
    else some (0, c :: s)

def numberValue (negative : Bool) (ip fp : List Char) (e : ℤ) : ℚ :=
  (if negative then -1 else 1) * (Nat.ofDigitChars 10 (ip ++ fp) 0 : ℚ) * 10 ^ (e - fp.length)

def unsigned (negative : Bool) (s : List Char) : Option (Value × List Char) :=
  (intPart s).bind fun ip =>
    (fracPart ip.2).bind fun fp =>
      (expPart fp.2).map fun e => (.number (numberValue negative ip.1 fp.1 e.1), e.2)

def number : List Char → Option (Value × List Char)
  | [] => none
  | c :: s => if c = '-' then unsigned true s else unsigned false (c :: s)

/-- Digits as a number may begin with them. -/
def IntDigits (ip : List Char) : Prop :=
  ip = ['0'] ∨ ∃ c ds, ip = c :: ds ∧ c ≠ '0' ∧ ∀ d ∈ ip, d.isDigit = true

theorem spanDigits_append {ds : List Char} (hds : ∀ c ∈ ds, c.isDigit = true) {c : Char}
    (hc : c.isDigit = false) (rest : List Char) :
    spanDigits (ds ++ c :: rest) = (ds, c :: rest) := by
  unfold spanDigits
  rw [List.takeWhile_append_of_pos hds, List.dropWhile_append_of_pos hds,
    List.takeWhile_cons_of_neg (by simp [hc]), List.dropWhile_cons_of_neg (by simp [hc]),
    List.append_nil]

theorem intPart_append {ip : List Char} (hip : IntDigits ip) {c : Char}
    (hc : c.isDigit = false) (rest : List Char) :
    intPart (ip ++ c :: rest) = some (ip, c :: rest) := by
  rcases hip with rfl | ⟨d, ds, rfl, hd, hall⟩
  · rfl
  · have hdigit : d.isDigit = true := hall d List.mem_cons_self
    have hspan := spanDigits_append (fun x hx => hall x (List.mem_cons_of_mem d hx)) hc rest
    rw [List.cons_append, intPart, if_neg hd, if_pos hdigit, hspan]

/-- The number that a text of sign, whole digits, digits behind the point and exponent stands for,
when no further character of a number follows. -/
structure NumberText where
  negative : Bool
  ip : List Char
  fp : List Char
  /-- The sign and the digits of the exponent. -/
  exponent : Option (Bool × List Char)
  ipDigits : IntDigits ip
  fpDigits : ∀ c ∈ fp, c.isDigit = true
  expDigits : ∀ e ∈ exponent, e.2 ≠ [] ∧ ∀ c ∈ e.2, c.isDigit = true

namespace NumberText
variable (t : NumberText)

def expText : List Char :=
  match t.exponent with
  | none => []
  | some (negative, ds) => 'e' :: (if negative then '-' else '+') :: ds

def fracText : List Char := if t.fp = [] then [] else '.' :: t.fp

def text : List Char :=
  (if t.negative then ['-'] else []) ++ (t.ip ++ (t.fracText ++ t.expText))

def expValue : ℤ :=
  match t.exponent with
  | none => 0
  | some (negative, ds) => (if negative then -1 else 1) * (Nat.ofDigitChars 10 ds 0 : ℤ)

def value : ℚ := numberValue t.negative t.ip t.fp t.expValue

end NumberText

/-- A character that can end a number: it is no part of one. -/
def EndsNumber (c : Char) : Prop := c.isDigit = false ∧ c ≠ '.' ∧ c ≠ 'e' ∧ c ≠ 'E'

theorem expPart_append (t : NumberText) {c : Char} (hc : EndsNumber c) (rest : List Char) :
    expPart (t.expText ++ c :: rest) = some (t.expValue, c :: rest) := by
  unfold NumberText.expText NumberText.expValue
  cases hexp : t.exponent with
  | none =>
    have hne : ¬ (c = 'e' ∨ c = 'E') := by
      rintro (he | he)
      · exact hc.2.2.1 he
      · exact hc.2.2.2 he
    simp only [List.nil_append, expPart, if_neg hne]
  | some e =>
    obtain ⟨negative, ds⟩ := e
    obtain ⟨hne, hds⟩ := t.expDigits _ hexp
    have hspan := spanDigits_append hds hc.1 rest
    by_cases hneg : negative <;>
      simp only [hneg, List.cons_append, expPart, true_or, ↓reduceIte, Bool.false_eq_true,
        signPart, hspan, hne, Char.reduceEq]

/-- What can follow the whole digits starts with no digit. -/
theorem fracPart_append (t : NumberText) {c : Char} (hc : EndsNumber c) (rest : List Char) :
    fracPart (t.fracText ++ (t.expText ++ c :: rest)) = some (t.fp, t.expText ++ c :: rest) := by
  obtain ⟨d, tail, htail, hd⟩ : ∃ d tail, t.expText ++ c :: rest = d :: tail ∧
      d.isDigit = false ∧ d ≠ '.' := by
    unfold NumberText.expText
    cases t.exponent with
    | none => exact ⟨c, rest, rfl, hc.1, hc.2.1⟩
    | some e => exact ⟨'e', _, rfl, by decide, by decide⟩
  rw [htail]
  unfold NumberText.fracText
  by_cases hfp : t.fp = []
  · rw [if_pos hfp, List.nil_append, fracPart, if_neg hd.2, hfp]
  · have hspan := spanDigits_append t.fpDigits hd.1 tail
    rw [if_neg hfp, List.cons_append, fracPart, if_pos rfl, hspan, if_neg hfp]

theorem unsigned_append (t : NumberText) {c : Char} (hc : EndsNumber c) (rest : List Char) :
    unsigned t.negative (t.ip ++ (t.fracText ++ (t.expText ++ c :: rest))) =
      some (.number t.value, c :: rest) := by
  obtain ⟨d, tail, htail, hd⟩ : ∃ d tail, t.fracText ++ (t.expText ++ c :: rest) = d :: tail ∧
      d.isDigit = false := by
    unfold NumberText.fracText NumberText.expText
    by_cases hfp : t.fp = []
    · cases t.exponent with
      | none => exact ⟨c, rest, by simp [hfp], hc.1⟩
      | some e => exact ⟨'e', _, by simp [hfp]; rfl, by decide⟩
    · exact ⟨'.', _, by simp [hfp]; rfl, by decide⟩
  rw [unsigned, htail, intPart_append t.ipDigits hd tail, Option.bind_some, ← htail,
    fracPart_append t hc rest, Option.bind_some, expPart_append t hc rest]
  rfl

/-- A number is read back whole. -/
theorem number_append (t : NumberText) {c : Char} (hc : EndsNumber c) (rest : List Char) :
    number (t.text ++ c :: rest) = some (.number t.value, c :: rest) := by
  have hunsigned := unsigned_append t hc rest
  unfold NumberText.text
  by_cases hneg : t.negative = true
  · simp only [hneg, ↓reduceIte, List.cons_append, List.nil_append, List.append_assoc, number]
    rwa [hneg] at hunsigned
  · rw [Bool.not_eq_true] at hneg
    obtain ⟨d, ds, hip, hd⟩ : ∃ d ds, t.ip = d :: ds ∧ d ≠ '-' := by
      rcases t.ipDigits with hzero | ⟨d, ds, hip, _, hall⟩
      · exact ⟨'0', [], hzero, by decide⟩
      · refine ⟨d, ds, hip, ?_⟩
        rintro rfl
        have hminus := hall '-' (by rw [hip]; exact List.mem_cons_self)
        contradiction
    rw [hneg, hip, List.cons_append] at hunsigned
    simp only [hneg, Bool.false_eq_true, ↓reduceIte, List.nil_append, List.append_assoc, hip,
      List.cons_append, number, if_neg hd]
    exact hunsigned

theorem toDigits_intDigits (n : ℕ) : IntDigits (Nat.toDigits 10 n) := by
  by_cases hzero : n = 0
  · left
    rw [hzero]
    rfl
  · right
    have hhead : ∀ m, m ≠ 0 → ∃ c ds, Nat.toDigits 10 m = c :: ds ∧ c ≠ '0' := by
      intro m
      induction m using Nat.strong_induction_on with
      | _ m ih =>
        intro hm
        by_cases hlt : m < 10
        · refine ⟨m.digitChar, [], Nat.toDigits_of_lt_base hlt, ?_⟩
          rw [ne_eq, Nat.digitChar_eq_zero]
          exact hm
        · obtain ⟨c, ds, hds, hc⟩ := ih (m / 10) (by omega) (by omega)
          refine ⟨c, ds ++ [(m % 10).digitChar], ?_, hc⟩
          rw [Nat.toDigits_of_base_le (by decide) (not_lt.mp hlt), hds, List.cons_append]
    obtain ⟨c, ds, hds, hc⟩ := hhead n hzero
    refine ⟨c, ds, hds, hc, ?_⟩
    intro d hd
    exact Decimal.isDigit_of_mem hd

/-- The decimal numeral of an integer. -/
def integerText (n : ℤ) : NumberText where
  negative := decide (n < 0)
  ip := Nat.toDigits 10 n.natAbs
  fp := []
  exponent := none
  ipDigits := toDigits_intDigits n.natAbs
  fpDigits := by simp
  expDigits := by simp

theorem integerText_text (n : ℤ) : (integerText n).text = (toString n).toList := by
  rw [Decimal.toList_toString]
  unfold integerText NumberText.text NumberText.fracText NumberText.expText
  by_cases hn : 0 ≤ n
  · have habs : n.natAbs = n.toNat := by omega
    simp [hn, not_lt.mpr hn, habs]
  · have habs : n.natAbs = (-n).toNat := by omega
    simp [hn, not_le.mp hn, habs]

theorem integerText_value (n : ℤ) : (integerText n).value = n := by
  unfold integerText NumberText.value NumberText.expValue numberValue
  simp only [List.append_nil, Nat.ofDigitChars_ten_toDigits, List.length_nil, Nat.cast_zero,
    sub_zero, zpow_zero, mul_one]
  by_cases hn : n < 0
  · have habs : ((n.natAbs : ℕ) : ℚ) = -(n : ℚ) := by
      rw [Nat.cast_natAbs, abs_of_neg hn, Int.cast_neg]
    simp [hn, habs]
  · have habs : ((n.natAbs : ℕ) : ℚ) = (n : ℚ) := by
      rw [Nat.cast_natAbs, abs_of_nonneg (not_lt.mp hn)]
    simp [hn, habs]

def literal (rest : List Char) (v : Value) (s : List Char) : Option (Value × List Char) :=
  if rest.isPrefixOf s then some (v, s.drop rest.length) else none

/-- The elements of an array from behind its bracket, when there is at least one. -/
def elements (pv : List Char → Option (Value × List Char)) :
    ℕ → List Char → Option (List Value × List Char)
  | 0, _ => none
  | n + 1, s =>
    (pv s).bind fun v =>
      match expect ',' v.2 with
      | some s => (elements pv n s).map fun r => (v.1 :: r.1, r.2)
      | none => (expect ']' v.2).map fun s => ([v.1], s)

/-- The members of an object from behind its brace, when there is at least one. -/
def members (pv : List Char → Option (Value × List Char)) :
    ℕ → List Char → Option (List (List Char × Value) × List Char)
  | 0, _ => none
  | n + 1, s =>
    (expect '"' s).bind fun s =>
      (chars (s.length + 1) s).bind fun key =>
        (expect ':' key.2).bind fun s =>
          (pv s).bind fun v =>
            match expect ',' v.2 with
            | some s => (members pv n s).map fun r => ((key.1, v.1) :: r.1, r.2)
            | none => (expect '}' v.2).map fun s => ([(key.1, v.1)], s)

/-- The first argument bounds the depth of nesting. -/
def value : ℕ → List Char → Option (Value × List Char)
  | 0, _ => none
  | n + 1, s =>
    match skipWs s with
    | [] => none
    | c :: s =>
      if c = '{' then
        match expect '}' s with
        | some s => some (.object [], s)
        | none => (members (value n) s.length s).map fun r => (.object r.1, r.2)
      else if c = '[' then
        match expect ']' s with
        | some s => some (.array [], s)
        | none => (elements (value n) s.length s).map fun r => (.array r.1, r.2)
      else if c = '"' then (chars (s.length + 1) s).map fun r => (.string r.1, r.2)
      else if c = 't' then literal ['r', 'u', 'e'] (.bool true) s
      else if c = 'f' then literal ['a', 'l', 's', 'e'] (.bool false) s
      else if c = 'n' then literal ['u', 'l', 'l'] .null s
      else number (c :: s)

/-- A whole text is one value and white space. -/
def parse (s : List Char) : Option Value :=
  (value (s.length + 1) s).bind fun r => if skipWs r.2 = [] then some r.1 else none

/-- The text is read as the value wherever a comma or a closing brace follows it. -/
def Reads (pv : List Char → Option (Value × List Char)) (text : List Char) (v : Value) : Prop :=
  ∀ c rest, c = ',' ∨ c = '}' → pv (text ++ c :: rest) = some (v, c :: rest)

def quoted (s : List Char) : List Char := '"' :: s ++ ['"']

theorem quoted_append (s rest : List Char) : quoted s ++ rest = '"' :: (s ++ '"' :: rest) := by
  simp [quoted]

theorem value_quote (n : ℕ) (s : List Char) :
    value (n + 1) ('"' :: s) = (chars (s.length + 1) s).map fun r => (.string r.1, r.2) := by
  rw [value, skipWs_cons (by decide)]
  simp

theorem reads_quoted {s : List Char} (hs : PlainText s) (n : ℕ) :
    Reads (value (n + 1)) (quoted s) (.string s) := by
  intro c rest _
  rw [quoted_append, value_quote, chars_plain hs (by rw [List.length_append]; omega)]
  rfl

/-- A sign or a digit begins no other kind of value. -/
theorem value_number {d : Char} (hd : d = '-' ∨ d.isDigit = true) (n : ℕ) (s : List Char) :
    value (n + 1) (d :: s) = number (d :: s) := by
  have hother : ∀ x : Char, x ≠ '-' → x.isDigit = false → d ≠ x := by
    rintro x hminus hdigit rfl
    rcases hd with hd | hd
    · exact hminus hd
    · rw [hdigit] at hd
      contradiction
  have hws : isWs d = false := by
    unfold isWs
    simp [hother ' ' (by decide) (by decide), hother '\t' (by decide) (by decide),
      hother '\n' (by decide) (by decide), hother '\r' (by decide) (by decide)]
  rw [value, skipWs_cons hws]
  simp only
  rw [if_neg (hother '{' (by decide) (by decide)), if_neg (hother '[' (by decide) (by decide)),
    if_neg (hother '"' (by decide) (by decide)), if_neg (hother 't' (by decide) (by decide)),
    if_neg (hother 'f' (by decide) (by decide)), if_neg (hother 'n' (by decide) (by decide))]

theorem IntDigits.head {ip : List Char} (h : IntDigits ip) :
    ∃ d ds, ip = d :: ds ∧ d.isDigit = true := by
  rcases h with rfl | ⟨d, ds, rfl, _, hall⟩
  · exact ⟨'0', [], rfl, by decide⟩
  · exact ⟨d, ds, rfl, hall d List.mem_cons_self⟩

/-- A number text begins with a sign or a digit. -/
theorem NumberText.text_head (t : NumberText) :
    ∃ d tail, t.text = d :: tail ∧ (d = '-' ∨ d.isDigit = true) := by
  unfold NumberText.text
  cases t.negative
  · obtain ⟨d, ds, hip, hd⟩ := t.ipDigits.head
    exact ⟨d, _, by simp [hip]; rfl, Or.inr hd⟩
  · exact ⟨'-', _, by simp; rfl, Or.inl rfl⟩

theorem reads_number (t : NumberText) (n : ℕ) :
    Reads (value (n + 1)) t.text (.number t.value) := by
  intro c rest hc
  have hends : EndsNumber c := by
    rcases hc with rfl | rfl <;> exact ⟨by decide, by decide, by decide, by decide⟩
  have hnumber := number_append t hends rest
  obtain ⟨d, tail, htext, hd⟩ := t.text_head
  rw [htext, List.cons_append] at hnumber ⊢
  rw [value_number hd, hnumber]

theorem reads_integer (x : ℤ) (n : ℕ) :
    Reads (value (n + 1)) (toString x).toList (.number x) := by
  have hreads := reads_number (integerText x) n
  rwa [integerText_text, integerText_value] at hreads

/-- A member as it stands in an object. -/
def memberText (key text : List Char) : List Char := quoted key ++ ':' :: text

section Members
variable {pv : List Char → Option (Value × List Char)} {key : List Char}

/-- A member up to its value. -/
theorem members_key (hkey : PlainText key) (n : ℕ) (text : List Char) :
    members pv (n + 1) (memberText key text) =
      (pv text).bind fun v =>
        match expect ',' v.2 with
        | some s => (members pv n s).map fun r => ((key, v.1) :: r.1, r.2)
        | none => (expect '}' v.2).map fun s => ([(key, v.1)], s) := by
  rw [memberText, quoted_append, members, expect_self (by decide), Option.bind_some,
    chars_plain hkey (by rw [List.length_append]; omega), Option.bind_some, expect_self (by decide),
    Option.bind_some]

theorem memberText_append (key text rest : List Char) :
    memberText key text ++ rest = memberText key (text ++ rest) := by
  simp [memberText]

theorem members_cons (hkey : PlainText key) {text : List Char} {v : Value}
    (hread : Reads pv text v) (n : ℕ) (more : List Char) :
    members pv (n + 1) (memberText key text ++ ',' :: more) =
      (members pv n more).map fun r => ((key, v) :: r.1, r.2) := by
  rw [memberText_append, members_key hkey, hread ',' more (Or.inl rfl), Option.bind_some]
  simp only [expect_self (show isWs ',' = false by decide)]

theorem members_last (hkey : PlainText key) {text : List Char} {v : Value}
    (hread : Reads pv text v) (n : ℕ) (rest : List Char) :
    members pv (n + 1) (memberText key text ++ '}' :: rest) = some ([(key, v)], rest) := by
  rw [memberText_append, members_key hkey, hread '}' rest (Or.inr rfl), Option.bind_some]
  simp only [expect_ne (show isWs '}' = false by decide) (show '}' ≠ ',' by decide),
    expect_self (show isWs '}' = false by decide)]
  rfl

/-- A text in quotes as it is, before another member, is plain when the member reads with it. -/
theorem plain_of_members (hkey : PlainText key) {k n : ℕ} {s more : List Char}
    {ms : List (List Char × Value)} {rest : List Char}
    (h : members (value (k + 1)) (n + 1) (memberText key (quoted s) ++ ',' :: '"' :: more) =
      some (ms, rest))
    (hms : ms.lookup key = some (.string s)) : PlainText s := by
  rw [memberText_append, members_key hkey, quoted_append, value_quote] at h
  obtain ⟨v, hv, hrest⟩ := Option.bind_eq_some_iff.mp h
  obtain ⟨⟨t, r⟩, hchars, rfl⟩ := Option.map_eq_some_iff.mp hv
  obtain ⟨more', rfl⟩ : ∃ more', ms = (key, .string t) :: more' := by
    simp only at hrest
    split at hrest
    · obtain ⟨q, _, heq⟩ := Option.map_eq_some_iff.mp hrest
      exact ⟨q.1, (congrArg Prod.fst heq).symm⟩
    · obtain ⟨q, _, heq⟩ := Option.map_eq_some_iff.mp hrest
      exact ⟨[], (congrArg Prod.fst heq).symm⟩
  have ht : t = s := by simpa using hms
  rw [ht, ← List.nil_append s] at hchars
  exact (plain_of_chars (p := []) (by simpa using hchars)).2

end Members

/-- A member with the text of its value and what that should be read as. -/
structure Field where
  key : List Char
  text : List Char
  value : Value

namespace Field

def entry (f : Field) : List Char × Value := (f.key, f.value)

def member (f : Field) : List Char := memberText f.key f.text

structure ReadsIn (f : Field) (pv : List Char → Option (Value × List Char)) : Prop where
  key : PlainText f.key
  text : Reads pv f.text f.value

end Field

/-- Members with a comma behind each, before the rest of an object. -/
def leading (fs : List Field) (more : List Char) : List Char :=
  fs.foldr (fun f rest => f.member ++ ',' :: rest) more

def objectText (fs : List Field) (last : Field) : List Char :=
  '{' :: leading fs (last.member ++ ['}'])

theorem leading_append (fs gs : List Field) (more : List Char) :
    leading (fs ++ gs) more = leading fs (leading gs more) := by
  rw [leading, leading, leading, List.foldr_append]

theorem leading_append_right (fs : List Field) (more rest : List Char) :
    leading fs more ++ rest = leading fs (more ++ rest) := by
  induction fs with
  | nil => rfl
  | cons f fs ih =>
    rw [leading, List.foldr_cons, List.append_assoc, List.cons_append]
    change f.member ++ ',' :: (leading fs more ++ rest) = _
    rw [ih]
    rfl

theorem length_leading (fs : List Field) (more : List Char) :
    fs.length + more.length ≤ (leading fs more).length := by
  induction fs with
  | nil => simp [leading]
  | cons f fs ih =>
    have hcons : leading (f :: fs) more = f.member ++ ',' :: leading fs more := rfl
    rw [hcons, List.length_append, List.length_cons, List.length_cons]
    omega

/-- Every member begins with a quote, and so does what begins with members. -/
theorem leading_quote (fs : List Field) (last : Field) (rest : List Char) :
    ∃ s, leading fs (last.member ++ rest) = '"' :: s := by
  cases fs with
  | nil => exact ⟨_, by rw [leading, List.foldr_nil, Field.member, memberText, quoted_append]; rfl⟩
  | cons f fs =>
    exact ⟨_, by rw [leading, List.foldr_cons, Field.member, memberText, quoted_append]; rfl⟩

theorem members_leading {pv : List Char → Option (Value × List Char)} {fs : List Field}
    (hfs : ∀ f ∈ fs, f.ReadsIn pv) (n : ℕ) (more : List Char) :
    members pv (fs.length + n) (leading fs more) =
      (members pv n more).map fun r => (fs.map Field.entry ++ r.1, r.2) := by
  induction fs with
  | nil =>
    rw [List.length_nil, Nat.zero_add]
    cases h : members pv n more <;> simp [leading, h]
  | cons f fs ih =>
    have hf := hfs f List.mem_cons_self
    have hlen : (f :: fs).length + n = (fs.length + n) + 1 := by
      rw [List.length_cons]
      omega
    have hcons : leading (f :: fs) more = memberText f.key f.text ++ ',' :: leading fs more := rfl
    rw [hlen, hcons, members_cons hf.key hf.text, ih fun g hg => hfs g (List.mem_cons_of_mem f hg),
      Option.map_map]
    rfl

theorem value_brace (n : ℕ) (s : List Char) :
    value (n + 1) ('{' :: '"' :: s) =
      (members (value n) (s.length + 1) ('"' :: s)).map fun r => (.object r.1, r.2) := by
  rw [value, skipWs_cons (by decide)]
  simp only [↓reduceIte, expect_ne (show isWs '"' = false by decide) (show '"' ≠ '}' by decide),
    List.length_cons]

/-- The members of an object whose text is put together from its members' texts. -/
theorem value_objectText (n : ℕ) (fs : List Field) (last : Field) (rest : List Char) :
    ∃ k, value (n + 1) (objectText fs last ++ rest) =
      (members (value n) (fs.length + (k + 1))
        (leading fs (last.member ++ '}' :: rest))).map fun r => (.object r.1, r.2) := by
  have htext : objectText fs last ++ rest = '{' :: leading fs (last.member ++ '}' :: rest) := by
    rw [objectText, List.cons_append, leading_append_right, List.append_assoc]
    rfl
  obtain ⟨s, hs⟩ := leading_quote fs last ('}' :: rest)
  have hlen := length_leading fs (last.member ++ '}' :: rest)
  rw [hs, List.length_append, List.length_cons, List.length_cons] at hlen
  refine ⟨s.length - fs.length, ?_⟩
  have hfuel : fs.length + (s.length - fs.length + 1) = s.length + 1 := by omega
  rw [htext, hs, hfuel, value_brace]

/-- An object is read back from its members. -/
theorem reads_object {n : ℕ} {fs : List Field} {last : Field}
    (hfs : ∀ f ∈ fs, f.ReadsIn (value n)) (hlast : last.ReadsIn (value n)) (rest : List Char) :
    value (n + 1) (objectText fs last ++ rest) =
      some (.object (fs.map Field.entry ++ [last.entry]), rest) := by
  obtain ⟨k, hk⟩ := value_objectText n fs last rest
  rw [hk, members_leading hfs, Field.member, members_last hlast.key hlast.text]
  rfl

theorem lookup_append_of_ne {ms ms' : List (List Char × Value)} {key : List Char}
    (h : ∀ m ∈ ms, m.1 ≠ key) : (ms ++ ms').lookup key = ms'.lookup key := by
  induction ms with
  | nil => rfl
  | cons m ms ih =>
    have hm : m.1 ≠ key := h m List.mem_cons_self
    rw [List.cons_append, List.lookup_cons, beq_false_of_ne hm.symm]
    exact ih fun m' hm' => h m' (List.mem_cons_of_mem m hm')

/-- Members with different keys are found under their keys. -/
theorem lookup_of_mem {ms : List (List Char × Value)} (hkeys : (ms.map Prod.fst).Nodup)
    {key : List Char} {v : Value} (h : (key, v) ∈ ms) : ms.lookup key = some v := by
  obtain ⟨before, behind, rfl⟩ := List.append_of_mem h
  rw [List.map_append, List.nodup_append] at hkeys
  have hne : ∀ m ∈ before, m.1 ≠ key := by
    intro m hm
    exact hkeys.2.2 m.1 (List.mem_map_of_mem hm) key (by simp)
  rw [lookup_append_of_ne hne, List.lookup_cons_self]

/-- An object with a text in quotes as it is among its members, under a key that none of the
members before it has, shows by reading with that text under that key that the text is plain. -/
theorem plain_of_object {n : ℕ} {pre post : List Field} {last : Field} {key s rest r : List Char}
    {ms : List (List Char × Value)} (hpre : ∀ f ∈ pre, f.ReadsIn (value (n + 1)))
    (hkey : PlainText key) (hne : ∀ f ∈ pre, f.key ≠ key)
    (h : value (n + 2) (objectText (pre ++ ⟨key, quoted s, .string s⟩ :: post) last ++ rest) =
      some (.object ms, r))
    (hms : ms.lookup key = some (.string s)) : PlainText s := by
  obtain ⟨k, hk⟩ := value_objectText (n + 1) (pre ++ ⟨key, quoted s, .string s⟩ :: post) last rest
  rw [hk] at h
  obtain ⟨⟨ms', r'⟩, hmembers, heq⟩ := Option.map_eq_some_iff.mp h
  rw [Prod.mk.injEq, Value.object.injEq] at heq
  obtain ⟨rfl, rfl⟩ := heq
  have hfuel : (pre ++ ⟨key, quoted s, .string s⟩ :: post).length + (k + 1) =
      pre.length + ((post.length + k + 1) + 1) := by
    rw [List.length_append, List.length_cons]
    omega
  rw [hfuel, leading_append, members_leading hpre] at hmembers
  obtain ⟨⟨ms', r'⟩, hrest, heq⟩ := Option.map_eq_some_iff.mp hmembers
  rw [Prod.mk.injEq] at heq
  obtain ⟨rfl, rfl⟩ := heq
  obtain ⟨more, hmore⟩ := leading_quote post last ('}' :: rest)
  have hcons : leading (⟨key, quoted s, .string s⟩ :: post) (last.member ++ '}' :: rest) =
      memberText key (quoted s) ++ ',' :: '"' :: more := by
    rw [← hmore]
    rfl
  have hentries : ∀ m ∈ pre.map Field.entry, m.1 ≠ key := by
    intro m hm
    obtain ⟨f, hf, rfl⟩ := List.mem_map.mp hm
    exact hne f hf
  rw [hcons] at hrest
  rw [lookup_append_of_ne hentries] at hms
  exact plain_of_members hkey hrest hms

theorem length_objectText (fs : List Field) (last : Field) :
    fs.length + 2 ≤ (objectText fs last).length := by
  have hlen := length_leading fs (last.member ++ ['}'])
  rw [objectText, List.length_cons]
  rw [List.length_append, List.length_singleton] at hlen
  omega

/-- A whole text is one value, and white space behind it. -/
theorem parse_eq_some_iff {s : List Char} {v : Value} :
    parse s = some v ↔ ∃ r, value (s.length + 1) s = some (v, r) ∧ skipWs r = [] := by
  rw [parse, Option.bind_eq_some_iff]
  constructor
  · rintro ⟨⟨w, r⟩, hvalue, hend⟩
    simp only at hend
    split_ifs at hend with hws
    rw [Option.some.injEq] at hend
    subst hend
    exact ⟨r, hvalue, hws⟩
  · rintro ⟨r, hvalue, hws⟩
    exact ⟨(v, r), hvalue, by simp [hws]⟩

/-- What a whole text reads as, when it is an object's. -/
theorem parse_objectText (fs : List Field) (last : Field) (v : Value) :
    ∃ n, parse (objectText fs last) = some v ↔
      ∃ r, value (n + 3) (objectText fs last ++ []) = some (v, r) ∧ skipWs r = [] := by
  have hlen := length_objectText fs last
  refine ⟨(objectText fs last).length - 2, ?_⟩
  have hfuel : (objectText fs last).length - 2 + 3 = (objectText fs last).length + 1 := by omega
  rw [hfuel, List.append_nil, parse_eq_some_iff]

end Json
