import ForkliftSafety.Library.JsonArray
import Mathlib.Data.List.TakeWhile

/-! What a JSON value is read as is decided by the characters it takes and by whether a number can
go on behind them, so a text that another text goes on from is read alike as far as it reaches. -/
namespace Json

variable {α β : Type*}

/-- What may stand in the place of `rest` behind a value that was read up to there. -/
def Follows (rest rest' : List Char) : Prop :=
  rest'.head? = rest.head? ∨ ∀ c ∈ rest'.head?, EndsNumber c

theorem Follows.append {rest rest' : List Char} (h : Follows rest rest') (used : List Char) :
    Follows (used ++ rest) (used ++ rest') := by
  cases used with
  | nil => exact h
  | cons c used => exact Or.inl rfl

/-- What the end of a number and the character that was there have in common, the new character
has. -/
theorem Follows.head {rest rest' : List Char} (h : Follows rest rest') {P : Char → Prop}
    (hrest : ∀ c ∈ rest.head?, P c) (hends : ∀ c, EndsNumber c → P c) :
    ∀ c ∈ rest'.head?, P c := by
  intro c hc
  rcases h with hsame | hstop
  · exact hrest c (hsame ▸ hc)
  · exact hends c (hstop c hc)

/-- What the first parser reads off the front of a text, the second one reads off the front of
every text with the same characters there. -/
def Local (p q : List Char → Option (α × List Char)) : Prop :=
  ∀ t a rest, p t = some (a, rest) →
    ∃ used, t = used ++ rest ∧ ∀ rest', Follows rest rest' → q (used ++ rest') = some (a, rest')

section Combinators
variable {p p' : List Char → Option (α × List Char)}

theorem Local.map (h : Local p p') (f : α → β) :
    Local (fun s => (p s).map fun r => (f r.1, r.2)) fun s => (p' s).map fun r => (f r.1, r.2) := by
  intro t b rest hread
  obtain ⟨⟨a, rest₁⟩, hp, heq⟩ := Option.map_eq_some_iff.mp hread
  obtain ⟨rfl, rfl⟩ := Prod.mk.inj heq
  obtain ⟨used, rfl, hlocal⟩ := h t a _ hp
  refine ⟨used, rfl, fun rest' hrest => ?_⟩
  simp only [hlocal rest' hrest, Option.map_some]

theorem Local.bind (h : Local p p') {q q' : α → List Char → Option (β × List Char)}
    (hq : ∀ a, Local (q a) (q' a)) :
    Local (fun s => (p s).bind fun r => q r.1 r.2) fun s => (p' s).bind fun r => q' r.1 r.2 := by
  intro t b rest hread
  obtain ⟨⟨a, mid⟩, hp, hnext⟩ := Option.bind_eq_some_iff.mp hread
  obtain ⟨used, rfl, hlocal⟩ := h t a mid hp
  obtain ⟨used', rfl, hlocal'⟩ := hq a mid b rest hnext
  refine ⟨used ++ used', by rw [List.append_assoc], fun rest' hrest => ?_⟩
  simp only [List.append_assoc, hlocal _ (hrest.append used'), Option.bind_some,
    hlocal' rest' hrest]

/-- A parser that fails at the end of the text may be looked at behind its first character. -/
theorem Local.of_cons (hnil : p [] = none)
    (h : ∀ c, Local (fun s => p (c :: s)) fun s => p' (c :: s)) : Local p p' := by
  intro t a rest hread
  cases t with
  | nil => rw [hnil] at hread; contradiction
  | cons c s =>
    obtain ⟨used, rfl, hlocal⟩ := h c s a rest hread
    exact ⟨c :: used, rfl, hlocal⟩

end Combinators

theorem spanDigits_local {s ds rest : List Char} (h : spanDigits s = (ds, rest)) :
    s = ds ++ rest ∧ ∀ rest', Follows rest rest' → spanDigits (ds ++ rest') = (ds, rest') := by
  obtain ⟨rfl, rfl⟩ := Prod.mk.inj h
  refine ⟨List.takeWhile_append_dropWhile.symm, fun rest' hrest => ?_⟩
  have hdigits : ∀ c ∈ s.takeWhile Char.isDigit, c.isDigit = true :=
    fun c hc => List.mem_takeWhile_imp hc
  have hstop : ∀ c ∈ rest'.head?, c.isDigit = false := by
    refine hrest.head (fun c hc => ?_) fun c hc => hc.1
    have hhead := List.head?_dropWhile_not Char.isDigit s
    rw [Option.mem_def.mp hc] at hhead
    simpa using hhead
  cases rest' with
  | nil =>
    rw [List.append_nil, spanDigits, List.takeWhile_eq_self_iff.mpr hdigits,
      List.dropWhile_eq_nil_iff.mpr hdigits]
  | cons c rest' => exact spanDigits_append hdigits (hstop c rfl) rest'

theorem intPart_cons_local (c : Char) :
    Local (fun s => intPart (c :: s)) fun s => intPart (c :: s) := by
  intro s ip rest hread
  obtain ⟨ds, r, hspan⟩ : ∃ ds r, spanDigits s = (ds, r) := ⟨_, _, rfl⟩
  simp only [intPart, hspan] at hread ⊢
  split_ifs at hread with hzero hdigit
  · simp only [Option.some.injEq, Prod.mk.injEq] at hread
    obtain ⟨rfl, rfl⟩ := hread
    refine ⟨[], rfl, fun rest' _ => ?_⟩
    rw [if_pos hzero, List.nil_append]
  · simp only [Option.some.injEq, Prod.mk.injEq] at hread
    obtain ⟨rfl, rfl⟩ := hread
    obtain ⟨hsplit, hlocal⟩ := spanDigits_local hspan
    refine ⟨ds, hsplit, fun rest' hrest => ?_⟩
    rw [if_neg hzero, if_pos hdigit, hlocal rest' hrest]

theorem fracPart_none {rest : List Char} (h : ∀ c ∈ rest.head?, c ≠ '.') :
    fracPart rest = some ([], rest) := by
  cases rest with
  | nil => rfl
  | cons c s => rw [fracPart, if_neg (h c rfl)]

theorem fracPart_local : Local fracPart fracPart := by
  intro t fp rest hread
  cases t with
  | nil =>
    simp only [fracPart, Option.some.injEq, Prod.mk.injEq] at hread
    obtain ⟨rfl, rfl⟩ := hread
    exact ⟨[], rfl, fun rest' hrest => fracPart_none (hrest.head (by simp) fun c hc => hc.2.1)⟩
  | cons c s =>
    rw [fracPart] at hread
    split_ifs at hread with hpoint hdigits
    · rw [Option.some.injEq] at hread
      obtain ⟨rfl, hlocal⟩ := spanDigits_local hread
      refine ⟨c :: fp, rfl, fun rest' hrest => ?_⟩
      rw [hread] at hdigits
      rw [List.cons_append, fracPart, if_pos hpoint, hlocal rest' hrest, if_neg hdigits]
    · simp only [Option.some.injEq, Prod.mk.injEq] at hread
      obtain ⟨rfl, rfl⟩ := hread
      refine ⟨[], rfl, fun rest' hrest => fracPart_none ?_⟩
      exact hrest.head (by simpa using hpoint) fun d hd => hd.2.1

theorem expPart_none {rest : List Char} (h : ∀ c ∈ rest.head?, ¬ (c = 'e' ∨ c = 'E')) :
    expPart rest = some (0, rest) := by
  cases rest with
  | nil => rfl
  | cons c s => rw [expPart, if_neg (h c rfl)]

/-- A sign is taken before digits, and digits are no sign. -/
theorem signPart_local {s s' ds rest : List Char} {negative : Bool}
    (h : signPart s = (negative, s')) (hds : spanDigits s' = (ds, rest)) (hne : ds ≠ []) :
    ∃ sign, s = sign ++ s' ∧
      ∀ rest', signPart (sign ++ (ds ++ rest')) = (negative, ds ++ rest') := by
  obtain ⟨hsplit, _⟩ := spanDigits_local hds
  obtain ⟨d, ds', rfl⟩ := List.exists_cons_of_ne_nil hne
  have hdigit : d.isDigit = true := by
    have hmem : d ∈ s'.takeWhile Char.isDigit := by
      rw [show s'.takeWhile Char.isDigit = d :: ds' from congrArg Prod.fst hds]
      exact List.mem_cons_self
    exact List.mem_takeWhile_imp hmem
  have hother {c : Char} (hc : c.isDigit = false) : d ≠ c := by
    rintro rfl
    rw [hc] at hdigit
    contradiction
  cases s with
  | nil =>
    obtain ⟨rfl, rfl⟩ := Prod.mk.inj h
    simp at hsplit
  | cons c s =>
    rw [signPart] at h
    split_ifs at h with hminus hplus
    · obtain ⟨rfl, rfl⟩ := Prod.mk.inj h
      exact ⟨[c], rfl, fun rest' => by simp [signPart, hminus]⟩
    · obtain ⟨rfl, rfl⟩ := Prod.mk.inj h
      exact ⟨[c], rfl, fun rest' => by simp [signPart, hplus]⟩
    · obtain ⟨rfl, rfl⟩ := Prod.mk.inj h
      refine ⟨[], rfl, fun rest' => ?_⟩
      rw [List.nil_append, List.cons_append, signPart, if_neg (hother (by decide)),
        if_neg (hother (by decide))]

theorem expPart_local : Local expPart expPart := by
  intro t e rest hread
  cases t with
  | nil =>
    simp only [expPart, Option.some.injEq, Prod.mk.injEq] at hread
    obtain ⟨rfl, rfl⟩ := hread
    refine ⟨[], rfl, fun rest' hrest => expPart_none ?_⟩
    exact hrest.head (by simp) fun c hc => not_or.mpr hc.2.2
  | cons c s =>
    obtain ⟨negative, s', hsign⟩ : ∃ b s', signPart s = (b, s') := ⟨_, _, rfl⟩
    obtain ⟨ds, r, hspan⟩ : ∃ ds r, spanDigits s' = (ds, r) := ⟨_, _, rfl⟩
    simp only [expPart, hsign, hspan] at hread
    by_cases hexp : c = 'e' ∨ c = 'E'
    · rw [if_pos hexp] at hread
      by_cases hdigits : ds = []
      · simp [hdigits] at hread
      · simp only [if_neg hdigits, Option.some.injEq, Prod.mk.injEq] at hread
        obtain ⟨rfl, rfl⟩ := hread
        obtain ⟨rfl, hlocal⟩ := spanDigits_local hspan
        obtain ⟨sign, rfl, hsigned⟩ := signPart_local hsign hspan hdigits
        refine ⟨c :: (sign ++ ds), by simp, fun rest' hrest => ?_⟩
        rw [List.cons_append, List.append_assoc, expPart, if_pos hexp]
        simp only [hsigned rest', hlocal rest' hrest, if_neg hdigits]
    · simp only [if_neg hexp, Option.some.injEq, Prod.mk.injEq] at hread
      obtain ⟨rfl, rfl⟩ := hread
      refine ⟨[], rfl, fun rest' hrest => expPart_none ?_⟩
      exact hrest.head (by simpa using hexp) fun d hd => not_or.mpr hd.2.2

theorem unsigned_cons_local (negative : Bool) (c : Char) :
    Local (fun s => unsigned negative (c :: s)) fun s => unsigned negative (c :: s) := by
  unfold unsigned
  exact (intPart_cons_local c).bind fun ip => fracPart_local.bind fun fp =>
    expPart_local.map fun e => Value.number (numberValue negative ip fp e)

theorem number_cons_local (c : Char) :
    Local (fun s => number (c :: s)) fun s => number (c :: s) := by
  unfold number
  by_cases hminus : c = '-'
  · simp only [hminus, ↓reduceIte]
    exact Local.of_cons rfl (unsigned_cons_local true)
  · simp only [hminus, ↓reduceIte]
    exact unsigned_cons_local false c

/-- The second half of a surrogate pair, behind the first one. -/
def lowSurrogate : List Char → Option (ℕ × List Char)
  | '\\' :: 'u' :: t =>
    (hex4 t).bind fun low => if 0xdc00 ≤ low.1 ∧ low.1 < 0xe000 then some low else none
  | _ => none

theorem unicodeEscape_eq (s : List Char) :
    unicodeEscape s = (hex4 s).map fun first =>
      if 0xd800 ≤ first.1 ∧ first.1 < 0xdc00 then
        match lowSurrogate first.2 with
        | some low =>
          (Char.ofNat (0x10000 + (first.1 - 0xd800) * 0x400 + (low.1 - 0xdc00)), low.2)
        | none => (replacement, first.2)
      else if 0xdc00 ≤ first.1 ∧ first.1 < 0xe000 then (replacement, first.2)
      else (Char.ofNat first.1, first.2) := by
  unfold unicodeEscape
  congr 1
  funext first
  split_ifs with hhigh
  · split
    · rename_i t ht
      have hpartner : lowSurrogate first.2 = (hex4 t).bind fun low =>
          if 0xdc00 ≤ low.1 ∧ low.1 < 0xe000 then some low else none := by
        rw [ht]
        rfl
      rw [hpartner]
      cases hex4 t with
      | none => rfl
      | some low => by_cases hlow : 0xdc00 ≤ low.1 ∧ low.1 < 0xe000 <;> simp [hlow]
    · rename_i hno
      have hpartner : lowSurrogate first.2 = none := by
        unfold lowSurrogate
        split
        · rename_i t ht
          exact (hno t ht).elim
        · rfl
      rw [hpartner]
  · rfl
  · rfl

theorem lowSurrogate_local {s s' : List Char} {low : ℕ} (h : lowSurrogate s = some (low, s')) :
    ∃ used, s = used ++ s' ∧ '"' ∉ used ∧ ∀ r, lowSurrogate (used ++ r) = some (low, r) := by
  unfold lowSurrogate at h
  split at h
  · rename_i t
    obtain ⟨⟨u, r⟩, hhex, hrange⟩ := Option.bind_eq_some_iff.mp h
    rw [Option.ite_none_right_eq_some, Option.some.injEq] at hrange
    obtain ⟨hrange, heq⟩ := hrange
    obtain ⟨rfl, rfl⟩ := Prod.mk.inj heq
    obtain ⟨used, rfl, hquote, hlocal⟩ := hex4_local hhex
    refine ⟨'\\' :: 'u' :: used, rfl, by simp [hquote], fun r' => ?_⟩
    simp only [List.cons_append, lowSurrogate, hlocal r', Option.bind_some]
    exact if_pos hrange
  · contradiction

/-- Two texts that are the same up to a quote at least. -/
def SameString (s s' : List Char) : Prop :=
  ∃ u r r', s = u ++ r ∧ s' = u ++ r' ∧ '"' ∈ u

theorem SameString.symm {s s' : List Char} (h : SameString s s') : SameString s' s := by
  obtain ⟨u, r, r', hs, hs', hquote⟩ := h
  exact ⟨u, r', r, hs', hs, hquote⟩

/-- A quote ends the search for the second half of a surrogate pair. -/
theorem lowSurrogate_none {s s' : List Char} (h : SameString s s') (hs : lowSurrogate s = none) :
    lowSurrogate s' = none := by
  obtain ⟨u, r, r', rfl, rfl, hquote⟩ := h
  cases hfound : lowSurrogate (u ++ r') with
  | none => rfl
  | some low =>
    obtain ⟨used, hsplit, hnone, hlocal⟩ := lowSurrogate_local hfound
    rcases List.append_eq_append_iff.mp hsplit with ⟨w, rfl, _⟩ | ⟨w, rfl, _⟩
    · exact absurd (List.mem_append_left w hquote) hnone
    · rw [List.append_assoc, hlocal] at hs
      contradiction

theorem unicodeEscape_local {t s : List Char} {e : Char} (h : unicodeEscape t = some (e, s)) :
    ∃ used, t = used ++ s ∧ ∀ s', SameString s s' → unicodeEscape (used ++ s') = some (e, s') := by
  rw [unicodeEscape_eq] at h
  obtain ⟨⟨u, t₁⟩, hhex, heq⟩ := Option.map_eq_some_iff.mp h
  obtain ⟨used, rfl, _, hlocal⟩ := hex4_local hhex
  by_cases hhigh : 0xd800 ≤ u ∧ u < 0xdc00
  · cases hlow : lowSurrogate t₁ with
    | none =>
      simp only [if_pos hhigh, hlow, Prod.mk.injEq] at heq
      obtain ⟨rfl, rfl⟩ := heq
      refine ⟨used, rfl, fun s' hsame => ?_⟩
      simp only [unicodeEscape_eq, hlocal s', Option.map_some, if_pos hhigh,
        lowSurrogate_none hsame hlow]
    | some low =>
      simp only [if_pos hhigh, hlow, Prod.mk.injEq] at heq
      obtain ⟨rfl, rfl⟩ := heq
      obtain ⟨used', rfl, _, hlocal'⟩ := lowSurrogate_local hlow
      refine ⟨used ++ used', by rw [List.append_assoc], fun s' _ => ?_⟩
      simp only [unicodeEscape_eq, List.append_assoc, hlocal, Option.map_some, if_pos hhigh,
        hlocal']
  · refine ⟨used, ?_, fun s' _ => ?_⟩
    · simp only [if_neg hhigh] at heq
      split_ifs at heq <;> rw [(Prod.mk.inj heq).2]
    · simp only [unicodeEscape_eq, hlocal s', Option.map_some, if_neg hhigh] at heq ⊢
      split_ifs at heq ⊢ with hlow <;> rw [(Prod.mk.inj heq).1]

/-- An escape is read alike as long as the string goes on to its quote alike. -/
theorem escape_local {t s : List Char} {e : Char} (h : escape t = some (e, s)) :
    ∃ used, t = used ++ s ∧ ∀ s', SameString s s' → escape (used ++ s') = some (e, s') := by
  cases t with
  | nil => contradiction
  | cons c t =>
    rw [escape] at h
    cases hc : simpleEscapes.lookup c with
    | some d =>
      simp only [hc, Option.some.injEq, Prod.mk.injEq] at h
      obtain ⟨rfl, rfl⟩ := h
      refine ⟨[c], rfl, fun s' _ => ?_⟩
      simp only [List.cons_append, List.nil_append, escape, hc]
    | none =>
      simp only [hc] at h
      split_ifs at h with hu
      obtain ⟨used, rfl, hlocal⟩ := unicodeEscape_local h
      refine ⟨c :: used, rfl, fun s' hsame => ?_⟩
      simp only [List.cons_append, escape, hc, if_pos hu, hlocal s' hsame]

/-- A string is read up to its quote, whatever follows it, with as many steps as it has
characters. -/
theorem chars_local {n : ℕ} {t a rest : List Char} (h : chars n t = some (a, rest)) :
    ∃ used, t = used ++ rest ∧ '"' ∈ used ∧
      ∀ m rest', used.length ≤ m → chars m (used ++ rest') = some (a, rest') := by
  induction n generalizing t a rest with
  | zero => contradiction
  | succ n ih =>
    cases t with
    | nil => contradiction
    | cons c t =>
      rcases chars_cases h with
        ⟨rfl, rfl, rfl⟩ | ⟨rfl, e, t₁, v, hescape, hv, rfl⟩ | ⟨hplain, v, hv, rfl⟩
      · refine ⟨['"'], rfl, by simp, fun m rest' hm => ?_⟩
        obtain ⟨m, rfl⟩ : ∃ k, m = k + 1 := ⟨m - 1, by simp at hm; omega⟩
        exact chars_quote m rest'
      · obtain ⟨used, rfl, hlocal⟩ := escape_local hescape
        obtain ⟨used', rfl, hmem, hchars⟩ := ih hv
        refine ⟨'\\' :: (used ++ used'), by simp, by simp [hmem], fun m rest' hm => ?_⟩
        obtain ⟨m, rfl⟩ : ∃ k, m = k + 1 := ⟨m - 1, by simp at hm; omega⟩
        have hsame : SameString (used' ++ rest) (used' ++ rest') :=
          ⟨used', rest, rest', rfl, rfl, hmem⟩
        have hm' : used'.length ≤ m := by
          simp only [List.length_cons, List.length_append] at hm
          omega
        rw [List.cons_append, List.append_assoc, chars_escape (hlocal _ hsame),
          hchars m rest' hm', Option.map_some]
      · obtain ⟨used, rfl, hmem, hchars⟩ := ih hv
        refine ⟨c :: used, rfl, by simp [hmem], fun m rest' hm => ?_⟩
        obtain ⟨m, rfl⟩ : ∃ k, m = k + 1 := ⟨m - 1, by simp at hm; omega⟩
        have hm' : used.length ≤ m := by simpa using hm
        rw [List.cons_append, chars_cons hplain, hchars m rest' hm', Option.map_some]

theorem skipWs_append {ws : List Char} (hws : ∀ c ∈ ws, isWs c = true) (s : List Char) :
    skipWs (ws ++ s) = skipWs s := List.dropWhile_append_of_pos hws

theorem expect_split {c : Char} {s r : List Char} (h : expect c s = some r) :
    ∃ ws, (∀ d ∈ ws, isWs d = true) ∧ s = ws ++ c :: r := by
  unfold expect at h
  split at h
  · contradiction
  · rename_i d s' hs
    split_ifs at h with hd
    obtain rfl := Option.some.inj h
    refine ⟨s.takeWhile isWs, fun x hx => List.mem_takeWhile_imp hx, ?_⟩
    rw [← hd, ← hs]
    exact List.takeWhile_append_dropWhile.symm

theorem expect_ws {c : Char} {ws : List Char} (hws : ∀ d ∈ ws, isWs d = true)
    (hc : isWs c = false) (r : List Char) : expect c (ws ++ c :: r) = some r := by
  rw [expect, skipWs_append hws, skipWs_cons hc]
  exact if_pos rfl

theorem expect_ws_ne {c d : Char} {ws : List Char} (hws : ∀ d ∈ ws, isWs d = true)
    (hd : isWs d = false) (hne : d ≠ c) (r : List Char) : expect c (ws ++ d :: r) = none := by
  rw [expect, skipWs_append hws, skipWs_cons hd]
  exact if_neg hne

theorem expect_bind_local {c : Char} (hc : isWs c = false)
    {q q' : List Char → Option (α × List Char)} (hq : Local q q') :
    Local (fun s => (expect c s).bind q) fun s => (expect c s).bind q' := by
  intro t a rest hread
  obtain ⟨s, hs, hnext⟩ := Option.bind_eq_some_iff.mp hread
  obtain ⟨ws, hws, rfl⟩ := expect_split hs
  obtain ⟨used, rfl, hlocal⟩ := hq s a rest hnext
  refine ⟨ws ++ c :: used, by simp, fun rest' hrest => ?_⟩
  simp only [List.append_assoc, List.cons_append, expect_ws hws hc, Option.bind_some,
    hlocal rest' hrest]

/-- Items between commas, up to the character that closes the list. -/
def listing (close : Char) (p : List Char → Option (α × List Char)) :
    ℕ → List Char → Option (List α × List Char)
  | 0, _ => none
  | n + 1, s =>
    (p s).bind fun v =>
      match expect ',' v.2 with
      | some s => (listing close p n s).map fun r => (v.1 :: r.1, r.2)
      | none => (expect close v.2).map fun s => ([v.1], s)

theorem elements_eq_listing (pv : List Char → Option (Value × List Char)) (n : ℕ)
    (s : List Char) : elements pv n s = listing ']' pv n s := by
  induction n generalizing s with
  | zero => rfl
  | succ n ih =>
    conv_lhs => simp only [elements, ih]
    rfl

def member (pv : List Char → Option (Value × List Char)) (s : List Char) :
    Option ((List Char × Value) × List Char) :=
  (expect '"' s).bind fun s =>
    (chars (s.length + 1) s).bind fun key =>
      (expect ':' key.2).bind fun s => (pv s).map fun v => ((key.1, v.1), v.2)

theorem members_eq_listing (pv : List Char → Option (Value × List Char)) (n : ℕ)
    (s : List Char) : members pv n s = listing '}' (member pv) n s := by
  induction n generalizing s with
  | zero => rfl
  | succ n ih =>
    simp only [members, listing, member, ih, Option.bind_assoc, Option.bind_map]
    rfl

/-- A list is read up to what closes it, whatever follows it, with as many steps as it has
characters. -/
theorem listing_local {close : Char} (hclose : isWs close = false) (hcomma : close ≠ ',')
    {p p' : List Char → Option (α × List Char)} (h : Local p p') {n : ℕ} {t : List Char}
    {as : List α} {rest : List Char} (hread : listing close p n t = some (as, rest)) :
    ∃ used, t = used ++ rest ∧ (∃ c ∈ used, isWs c = false) ∧
      ∀ m rest', used.length ≤ m → listing close p' m (used ++ rest') = some (as, rest') := by
  induction n generalizing t as rest with
  | zero => contradiction
  | succ n ih =>
    obtain ⟨⟨a, t₁⟩, hp, hnext⟩ := Option.bind_eq_some_iff.mp hread
    obtain ⟨used, rfl, hlocal⟩ := h t a t₁ hp
    cases hsep : expect ',' t₁ with
    | some t₂ =>
      simp only [hsep] at hnext
      obtain ⟨⟨as', rest₁⟩, hmore, heq⟩ := Option.map_eq_some_iff.mp hnext
      obtain ⟨rfl, rfl⟩ := Prod.mk.inj heq
      obtain ⟨ws, hws, rfl⟩ := expect_split hsep
      obtain ⟨used', rfl, _, hlisting⟩ := ih hmore
      refine ⟨used ++ (ws ++ ',' :: used'), by simp, ⟨',', by simp, by decide⟩,
        fun m rest' hm => ?_⟩
      obtain ⟨m, rfl⟩ : ∃ k, m = k + 1 := ⟨m - 1, by simp at hm; omega⟩
      have hm' : used'.length ≤ m := by
        simp only [List.length_append, List.length_cons] at hm
        omega
      have hfollows : Follows (ws ++ ',' :: (used' ++ rest₁)) (ws ++ ',' :: (used' ++ rest')) :=
        Or.inl (by cases ws <;> rfl)
      simp only [List.append_assoc, List.cons_append, listing, hlocal _ hfollows,
        Option.bind_some, expect_ws hws (show isWs ',' = false by decide), hlisting m rest' hm',
        Option.map_some]
    | none =>
      simp only [hsep] at hnext
      obtain ⟨rest₁, hend, heq⟩ := Option.map_eq_some_iff.mp hnext
      obtain ⟨rfl, rfl⟩ := Prod.mk.inj heq
      obtain ⟨ws, hws, rfl⟩ := expect_split hend
      refine ⟨used ++ (ws ++ [close]), by simp, ⟨close, by simp, hclose⟩, fun m rest' hm => ?_⟩
      obtain ⟨m, rfl⟩ : ∃ k, m = k + 1 := ⟨m - 1, by simp at hm; omega⟩
      have hfollows : Follows (ws ++ close :: rest₁) (ws ++ close :: rest') :=
        Or.inl (by cases ws <;> rfl)
      simp only [List.append_assoc, List.cons_append, List.nil_append, listing,
        hlocal _ hfollows, Option.bind_some, expect_ws_ne hws hclose hcomma,
        expect_ws hws hclose, Option.map_some]

/-- A text that has more than white space is looked at no further. -/
theorem expect_none {c : Char} {used : List Char} (h : ∃ d ∈ used, isWs d = false)
    {rest : List Char} (hnone : expect c (used ++ rest) = none) (rest' : List Char) :
    expect c (used ++ rest') = none := by
  obtain ⟨d, s, hskip⟩ : ∃ d s, skipWs used = d :: s := by
    apply List.exists_cons_of_ne_nil
    intro hnil
    obtain ⟨d, hd, hws⟩ := h
    rw [List.dropWhile_eq_nil_iff.mp hnil d hd] at hws
    contradiction
  have happend (r : List Char) : expect c (used ++ r) = if d = c then some (s ++ r) else none := by
    have hall : skipWs (used ++ r) = d :: (s ++ r) := by
      rw [skipWs, List.dropWhile_append, show used.dropWhile isWs = d :: s from hskip]
      rfl
    rw [expect, hall]
  rw [happend] at hnone ⊢
  split_ifs at hnone with hd
  rw [if_neg hd]

/-- Brackets or braces, with nothing or a list between them. -/
theorem enclosed_local {close : Char} (hclose : isWs close = false) (hcomma : close ≠ ',')
    {p p' : List Char → Option (α × List Char)} (h : Local p p') (empty : β) (f : List α → β) :
    Local
      (fun s => match expect close s with
        | some s => some (empty, s)
        | none => (listing close p s.length s).map fun r => (f r.1, r.2))
      (fun s => match expect close s with
        | some s => some (empty, s)
        | none => (listing close p' s.length s).map fun r => (f r.1, r.2)) := by
  intro t b rest hread
  cases hend : expect close t with
  | some s =>
    simp only [hend, Option.some.injEq, Prod.mk.injEq] at hread
    obtain ⟨rfl, rfl⟩ := hread
    obtain ⟨ws, hws, rfl⟩ := expect_split hend
    refine ⟨ws ++ [close], by simp, fun rest' _ => ?_⟩
    simp only [List.append_assoc, List.cons_append, List.nil_append, expect_ws hws hclose]
  | none =>
    simp only [hend] at hread
    obtain ⟨⟨as, rest₁⟩, hlist, heq⟩ := Option.map_eq_some_iff.mp hread
    obtain ⟨rfl, rfl⟩ := Prod.mk.inj heq
    obtain ⟨used, rfl, hvisible, hlisting⟩ := listing_local hclose hcomma h hlist
    refine ⟨used, rfl, fun rest' _ => ?_⟩
    simp only [expect_none hvisible hend rest',
      hlisting _ rest' (show used.length ≤ (used ++ rest').length by simp), Option.map_some]

theorem chars_length_local :
    Local (fun s => chars (s.length + 1) s) fun s => chars (s.length + 1) s := by
  intro t a rest hread
  obtain ⟨used, rfl, _, hchars⟩ := chars_local hread
  refine ⟨used, rfl, fun rest' _ => hchars _ rest' ?_⟩
  rw [List.length_append]
  omega

theorem member_local {pv pv' : List Char → Option (Value × List Char)} (h : Local pv pv') :
    Local (member pv) (member pv') := by
  unfold member
  exact expect_bind_local (by decide) (chars_length_local.bind fun key =>
    expect_bind_local (by decide) (h.map fun v => (key, v)))

theorem literal_local (text : List Char) (v : Value) : Local (literal text v) (literal text v) := by
  intro t a rest hread
  unfold literal at hread ⊢
  split_ifs at hread with hprefix
  obtain ⟨rfl, rfl⟩ := Prod.mk.inj (Option.some.inj hread)
  obtain ⟨rest, rfl⟩ := List.isPrefixOf_iff_prefix.mp hprefix
  refine ⟨text, by simp, fun rest' _ => ?_⟩
  simp

/-- What a value is read as behind its first character. -/
def valueAt (n : ℕ) (c : Char) (s : List Char) : Option (Value × List Char) :=
  if c = '{' then
    match expect '}' s with
    | some s => some (.object [], s)
    | none => (members (value n) s.length s).map fun r => (.object r.1, r.2)
  else if c = '[' then
    match expect ']' s with
    | some s => some (.array [], s)
    | none => (elements (value n) s.length s).map fun r => (.array r.1, r.2)
  else if c = '"' then (chars (s.length + 1) s).map fun r => (.string r.1, r.2)
  else if c = 't' then literal ['r', 'u', 'e'] (.bool true) s
  else if c = 'f' then literal ['a', 'l', 's', 'e'] (.bool false) s
  else if c = 'n' then literal ['u', 'l', 'l'] .null s
  else number (c :: s)

theorem value_eq (n : ℕ) (s : List Char) : value (n + 1) s =
    match skipWs s with
    | [] => none
    | c :: s => valueAt n c s := rfl

theorem valueAt_local {n m : ℕ} (h : Local (value n) (value m)) (c : Char) :
    Local (valueAt n c) (valueAt m c) := by
  unfold valueAt
  simp only [members_eq_listing, elements_eq_listing]
  split_ifs
  · exact enclosed_local (by decide) (by decide) (member_local h) (Value.object []) Value.object
  · exact enclosed_local (by decide) (by decide) h (Value.array []) Value.array
  · exact chars_length_local.map Value.string
  · exact literal_local _ _
  · exact literal_local _ _
  · exact literal_local _ _
  · exact number_cons_local c

/-- What a value is read as is decided by the characters that it takes, and by whether a number can
go on behind them. A greater depth changes nothing. -/
theorem value_local {n m : ℕ} (hnm : n ≤ m) : Local (value n) (value m) := by
  induction n generalizing m with
  | zero =>
    intro t a rest hread
    contradiction
  | succ n ih =>
    obtain ⟨m, rfl⟩ : ∃ k, m = k + 1 := ⟨m - 1, by omega⟩
    intro t a rest hread
    rw [value_eq] at hread
    split at hread
    · contradiction
    · rename_i c s hs
      obtain ⟨used, rfl, hlocal⟩ := valueAt_local (ih (Nat.le_of_succ_le_succ hnm)) c s a rest hread
      have hsplit : t = t.takeWhile isWs ++ c :: (used ++ rest) := by
        rw [← hs]
        exact List.takeWhile_append_dropWhile.symm
      have hc : isWs c = false := by
        have hhead := List.head?_dropWhile_not isWs t
        rw [show t.dropWhile isWs = c :: (used ++ rest) from hs] at hhead
        simpa using hhead
      refine ⟨t.takeWhile isWs ++ c :: used, by simpa using hsplit, fun rest' hrest => ?_⟩
      have hws : ∀ d ∈ t.takeWhile isWs, isWs d = true := fun d hd => List.mem_takeWhile_imp hd
      rw [List.append_assoc, List.cons_append, value_eq, skipWs_append hws, skipWs_cons hc]
      exact hlocal rest' hrest

/-- The last character of a text stands behind one that is inside, or is that one. -/
theorem concat_split {s u t : List Char} {c d : Char} (h : s ++ [c] = u ++ d :: t) :
    (t = [] ∧ s = u ∧ c = d) ∨ ∃ t₁, t = t₁ ++ [c] ∧ s = u ++ d :: t₁ := by
  rcases t.eq_nil_or_concat with rfl | ⟨t₁, e, rfl⟩
  · obtain ⟨hsu, hcd⟩ := List.append_inj' h rfl
    exact .inl ⟨rfl, hsu, List.singleton_injective hcd⟩
  · rw [List.concat_eq_append, ← List.cons_append, ← List.append_assoc] at h
    obtain ⟨hsu, hce⟩ := List.append_inj' h rfl
    rw [List.singleton_injective hce, List.concat_eq_append]
    exact .inr ⟨t₁, rfl, hsu⟩

/-- Behind an element that a comma follows, the others are read. -/
theorem elements_comma {pv : List Char → Option (Value × List Char)} {n : ℕ} {v : Value}
    {t ws more rest : List Char} {vs : List Value} (hv : pv t = some (v, ws ++ ',' :: more))
    (hws : ∀ c ∈ ws, isWs c = true) (h : elements pv (n + 1) t = some (vs, rest)) :
    ∃ vs', vs = v :: vs' ∧ elements pv n more = some (vs', rest) := by
  obtain ⟨_, hread, hnext⟩ := Option.bind_eq_some_iff.mp h
  rw [hv] at hread
  obtain rfl := Option.some.inj hread
  simp only [expect_ws hws (show isWs ',' = false by decide)] at hnext
  obtain ⟨⟨vs', r⟩, hmore, heq⟩ := Option.map_eq_some_iff.mp hnext
  obtain ⟨rfl, rfl⟩ := Prod.mk.inj heq
  exact ⟨vs', rfl, hmore⟩

/-- A comma may stand in the place of the bracket. -/
theorem follows_comma (ws more : List Char) : Follows (ws ++ [']']) (ws ++ ',' :: more) := by
  apply Follows.append
  right
  intro c hc
  obtain rfl : ',' = c := Option.some.inj hc
  exact ⟨by decide, by decide, by decide, by decide⟩

/-- Where an array ended, more elements may follow: those it had are read as before. The induction
is on the elements: each is read up to a comma that both texts have, or up to the bracket that
became one. -/
theorem elements_prefix {pv pv' : List Char → Option (Value × List Char)} (hpv : Local pv pv')
    {n m : ℕ} {s more rest rest' : List Char} {vs vs' : List Value}
    (h : elements pv n (s ++ [']']) = some (vs, rest)) (hrest : skipWs rest = [])
    (h' : elements pv' m (s ++ ',' :: more) = some (vs', rest')) : vs <+: vs' := by
  induction n generalizing s m vs vs' with
  | zero => contradiction
  | succ n ih =>
    cases m with
    | zero => contradiction
    | succ m =>
      obtain ⟨⟨v, t⟩, hv, hnext⟩ := Option.bind_eq_some_iff.mp h
      obtain ⟨used, hsplit, hlocal⟩ := hpv _ v t hv
      cases hsep : expect ',' t with
      | some t₁ =>
        simp only [hsep] at hnext
        obtain ⟨⟨ws₁, r₁⟩, hmore, heq⟩ := Option.map_eq_some_iff.mp hnext
        obtain ⟨rfl, rfl⟩ := Prod.mk.inj heq
        obtain ⟨ws, hws, rfl⟩ := expect_split hsep
        rw [← List.append_assoc] at hsplit
        rcases concat_split hsplit with ⟨_, _, hlast⟩ | ⟨s₁, rfl, rfl⟩
        · contradiction
        · have htext : used ++ ws ++ ',' :: s₁ ++ ',' :: more =
              used ++ (ws ++ ',' :: (s₁ ++ ',' :: more)) := by simp
          have hsame : Follows (ws ++ ',' :: (s₁ ++ [']'])) (ws ++ ',' :: (s₁ ++ ',' :: more)) := by
            apply Follows.append
            left
            rfl
          rw [htext] at h'
          obtain ⟨vs₁, rfl, hmore'⟩ := elements_comma (hlocal _ hsame) hws h'
          exact (List.prefix_cons_inj v).mpr (ih hmore hmore')
      | none =>
        simp only [hsep] at hnext
        obtain ⟨r₁, hend, heq⟩ := Option.map_eq_some_iff.mp hnext
        obtain ⟨rfl, rfl⟩ := Prod.mk.inj heq
        obtain ⟨ws, hws, rfl⟩ := expect_split hend
        rw [← List.append_assoc] at hsplit
        rcases concat_split hsplit with ⟨rfl, rfl, _⟩ | ⟨r₂, rfl, _⟩
        · rw [List.append_assoc] at h'
          obtain ⟨vs₁, rfl, _⟩ := elements_comma (hlocal _ (follows_comma ws more)) hws h'
          exact ⟨vs₁, rfl⟩
        · have hbracket := List.dropWhile_eq_nil_iff.mp hrest ']' (by simp)
          contradiction

/-- An array whose text goes on behind its last element begins with the elements that it had. -/
theorem parse_array_prefix {s more : List Char} (hs : Begins s) {vs : List Value} {v : Value}
    (h : parse ('[' :: (s ++ [']'])) = some (.array vs))
    (h' : parse ('[' :: (s ++ ',' :: more)) = some v) : ∃ vs', v = .array vs' ∧ vs <+: vs' := by
  rw [parse_eq_some_iff] at h h'
  obtain ⟨rest, hread, hrest⟩ := h
  obtain ⟨rest', hread', _⟩ := h'
  rw [List.length_cons, value_bracket (begins_append hs _)] at hread hread'
  obtain ⟨⟨ws, r⟩, helements, heq⟩ := Option.map_eq_some_iff.mp hread
  obtain ⟨⟨ws', r'⟩, helements', heq'⟩ := Option.map_eq_some_iff.mp hread'
  obtain ⟨hws, rfl⟩ := Prod.mk.inj heq
  obtain rfl := Value.array.inj hws
  have hdepth : (s ++ [']']).length + 1 ≤ (s ++ ',' :: more).length + 1 := by simp
  exact ⟨ws', (Prod.mk.inj heq').1.symm, elements_prefix (value_local hdepth) helements hrest
    helements'⟩

/-- A separator stands between the first list and the second one. -/
theorem intercalate_append (sep x y : List α) (xs ys : List (List α)) :
    sep.intercalate (x :: xs ++ y :: ys) =
      sep.intercalate (x :: xs) ++ (sep ++ sep.intercalate (y :: ys)) := by
  induction xs generalizing x with
  | nil => simp
  | cons x' xs ih =>
    have hrest := ih x'
    rw [List.cons_append] at hrest ⊢
    rw [List.cons_append, List.intercalate_cons_cons, hrest, List.intercalate_cons_cons]
    simp only [List.append_assoc]

theorem begins_intercalate {x : List Char} (hx : Begins x) (sep : List Char)
    (xs : List (List Char)) : Begins (sep.intercalate (x :: xs)) := by
  cases xs with
  | nil => simpa using hx
  | cons x' xs =>
    rw [List.intercalate_cons_cons, List.append_assoc]
    exact begins_append hx _

/-- When items are added behind those of an array and both texts are read, what the first one is
read as is at the front of what the second one is read as. The items themselves need not be read as
one element each. -/
theorem arrayText_prefix {items more : List Item} (hitems : ∀ i ∈ items, Begins i.text)
    {vs vs' : List Value} (h : parse (arrayText items) = some (.array vs))
    (h' : parse (arrayText (items ++ more)) = some (.array vs')) : vs <+: vs' := by
  cases items with
  | nil =>
    have hempty : parse (arrayText []) = some (.array []) := rfl
    rw [hempty] at h
    obtain rfl := Value.array.inj (Option.some.inj h)
    exact List.nil_prefix
  | cons i items =>
    cases more with
    | nil =>
      rw [List.append_nil, h] at h'
      obtain rfl := Value.array.inj (Option.some.inj h')
      exact List.prefix_rfl
    | cons j more =>
      have hbegins : Begins ([','].intercalate ((i :: items).map Item.text)) :=
        begins_intercalate (hitems i List.mem_cons_self) _ _
      rw [arrayText, List.map_append, List.map_cons, List.map_cons, intercalate_append,
        List.append_assoc, List.append_assoc] at h'
      obtain ⟨ws, hws, hprefix⟩ := parse_array_prefix hbegins h h'
      obtain rfl := Value.array.inj hws
      exact hprefix

end Json
