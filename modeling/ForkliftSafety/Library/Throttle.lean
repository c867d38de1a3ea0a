import Mathlib.Data.List.Induction
import Mathlib.Logic.Function.Basic
import Mathlib.Order.Basic
import Mathlib.Tactic.Linarith

/-! A throttle admits an item unless an item of the same key was admitted too recently. What
counts as too recent is a parameter, so a rounded difference or a stepped clock fits as well. -/
namespace Throttle

structure Rule (α κ τ : Type*) where
  key : α → κ
  time : α → τ
  /-- `blocked now last`: an item at `now` is refused after an admission at `last`. -/
  blocked : τ → τ → Bool

variable {α κ τ : Type*} (r : Rule α κ τ)

def admits (m : κ → Option τ) (a : α) : Bool :=
  match m (r.key a) with
  | none => true
  | some last => !r.blocked (r.time a) last

theorem not_admits_iff (m : κ → Option τ) (a : α) :
    admits r m a = false ↔ ∃ last, m (r.key a) = some last ∧ r.blocked (r.time a) last := by
  unfold admits
  cases h : m (r.key a) <;> simp

theorem le_getLast [Preorder τ] {xs : List α} {a b : α}
    (hs : xs.Pairwise fun a b => r.time a ≤ r.time b) (ha : a ∈ xs) (hb : b ∈ xs.getLast?) :
    r.time a ≤ r.time b := by
  obtain ⟨ys, rfl⟩ := List.getLast?_eq_some_iff.mp hb
  rw [List.pairwise_append] at hs
  rcases List.mem_append.mp ha with ha | ha
  · exact hs.2.2 a ha b (by simp)
  · rw [List.mem_singleton.mp ha]

variable [DecidableEq κ]

/-- The table keeps the time of the last admission of each key. -/
def record (m : κ → Option τ) (a : α) : κ → Option τ :=
  if admits r m a then Function.update m (r.key a) (some (r.time a)) else m

def table (m : κ → Option τ) (xs : List α) : κ → Option τ := xs.foldl (record r) m

/-- Every item with its verdict, in order. -/
def scan : (κ → Option τ) → List α → List (α × Bool)
  | _, [] => []
  | m, a :: as => (a, admits r m a) :: scan (record r m a) as

def admitted (m : κ → Option τ) (xs : List α) : List α :=
  ((scan r m xs).filter Prod.snd).map Prod.fst

theorem scan_append (m : κ → Option τ) (xs ys : List α) :
    scan r m (xs ++ ys) = scan r m xs ++ scan r (table r m xs) ys := by
  induction xs generalizing m with
  | nil => rfl
  | cons a xs ih => simp only [List.cons_append, scan, ih, table, List.foldl_cons]

@[simp] theorem scan_map_fst (m : κ → Option τ) (xs : List α) :
    (scan r m xs).map Prod.fst = xs := by
  induction xs generalizing m with
  | nil => rfl
  | cons a xs ih => simp [scan, ih]

theorem admitted_sublist (m : κ → Option τ) (xs : List α) : (admitted r m xs).Sublist xs := by
  have h : (admitted r m xs).Sublist ((scan r m xs).map Prod.fst) :=
    List.filter_sublist.map Prod.fst
  rwa [scan_map_fst] at h

theorem mem_admitted_iff (m : κ → Option τ) (xs : List α) (a : α) :
    a ∈ admitted r m xs ↔ (a, true) ∈ scan r m xs := by
  simp [admitted]

theorem admitted_append (m : κ → Option τ) (xs ys : List α) :
    admitted r m (xs ++ ys) = admitted r m xs ++ admitted r (table r m xs) ys := by
  simp only [admitted, scan_append, List.filter_append, List.map_append]

theorem admitted_singleton (m : κ → Option τ) (a : α) :
    admitted r m [a] = if admits r m a then [a] else [] := by
  by_cases h : admits r m a <;> simp [admitted, scan, h]

theorem admitted_snoc (m : κ → Option τ) (xs : List α) (a : α) :
    admitted r m (xs ++ [a]) =
      admitted r m xs ++ if admits r (table r m xs) a then [a] else [] := by
  rw [admitted_append, admitted_singleton]

theorem table_snoc (m : κ → Option τ) (xs : List α) (a : α) :
    table r m (xs ++ [a]) = record r (table r m xs) a := by
  simp [table, List.foldl_append]

/-- From an empty table, the table holds the time of the last item admitted under each key. -/
theorem table_eq_getLast (xs : List α) (k : κ) :
    table r (fun _ => none) xs k =
      (((admitted r (fun _ => none) xs).filter fun a => r.key a = k).getLast?).map r.time := by
  induction xs using List.reverseRecOn with
  | nil => rfl
  | append_singleton xs a ih =>
    rw [table_snoc, admitted_snoc, record, List.filter_append]
    by_cases ha : admits r (table r (fun _ => none) xs) a
    · simp only [ha, ↓reduceIte]
      by_cases hk : r.key a = k
      · subst hk
        simp
      · simp [hk, Ne.symm hk, ih]
    · simp [ha, ih]

/-- A position in the scan is a position in the input, judged by the table of what precedes. -/
theorem scan_eq_append_cons {m : κ → Option τ} {xs : List α} {pre post : List (α × Bool)}
    {a : α} {f : Bool} (h : scan r m xs = pre ++ (a, f) :: post) :
    ∃ ys zs, xs = ys ++ a :: zs ∧ pre = scan r m ys ∧ f = admits r (table r m ys) a := by
  induction pre generalizing m xs with
  | nil =>
    cases xs with
    | nil => simp [scan] at h
    | cons x xs =>
      simp only [scan, List.nil_append, List.cons.injEq, Prod.mk.injEq] at h
      obtain ⟨⟨rfl, rfl⟩, _⟩ := h
      exact ⟨[], xs, rfl, rfl, rfl⟩
  | cons p pre ih =>
    cases xs with
    | nil => simp [scan] at h
    | cons x xs =>
      simp only [scan, List.cons_append, List.cons.injEq] at h
      obtain ⟨rfl, htail⟩ := h
      obtain ⟨ys, zs, rfl, rfl, rfl⟩ := ih htail
      exact ⟨x :: ys, zs, rfl, rfl, rfl⟩

/-- A refused item is blocked by an item of its key admitted before it. -/
theorem refused_has_blocker {xs : List α} {pre post : List (α × Bool)} {a : α}
    (h : scan r (fun _ => none) xs = pre ++ (a, false) :: post) :
    ∃ b, (b, true) ∈ pre ∧ r.key b = r.key a ∧ r.blocked (r.time a) (r.time b) := by
  obtain ⟨ys, zs, rfl, rfl, hf⟩ := scan_eq_append_cons r h
  obtain ⟨last, hlast, hblocked⟩ := (not_admits_iff r _ a).mp hf.symm
  rw [table_eq_getLast, Option.map_eq_some_iff] at hlast
  obtain ⟨b, hb, rfl⟩ := hlast
  have hmem := List.mem_of_getLast? hb
  rw [List.mem_filter, mem_admitted_iff] at hmem
  exact ⟨b, hmem.1, of_decide_eq_true hmem.2, hblocked⟩

/-- An admitted item is not blocked by the last item admitted under its key. -/
theorem admits_iff_getLast (xs : List α) (a : α) :
    admits r (table r (fun _ => none) xs) a = true ↔
      ∀ b ∈ ((admitted r (fun _ => none) xs).filter fun b => r.key b = r.key a).getLast?,
        r.blocked (r.time a) (r.time b) = false := by
  rw [← Bool.not_eq_false, not_admits_iff, table_eq_getLast]
  cases ((admitted r (fun _ => none) xs).filter fun b => r.key b = r.key a).getLast? <;> simp

/-- Items that the last admission of their key blocks are all refused. -/
theorem admitted_eq_nil {m : κ → Option τ} {xs : List α}
    (h : ∀ a ∈ xs, admits r m a = false) : admitted r m xs = [] := by
  induction xs with
  | nil => rfl
  | cons a xs ih =>
    have ha : admits r m a = false := h a List.mem_cons_self
    have hrecord : table r m [a] = m := by
      change record r m a = m
      simp [record, ha]
    rw [← List.singleton_append, admitted_append, admitted_singleton, hrecord,
      ih fun b hb => h b (List.mem_cons_of_mem a hb)]
    simp [ha]

/-- Of items of one key at one time, only the first is admitted. -/
theorem admitted_burst {m : κ → Option τ} {a : α} {xs : List α} (ha : admits r m a = true)
    (hkey : ∀ b ∈ xs, r.key b = r.key a) (htime : ∀ b ∈ xs, r.time b = r.time a)
    (hblocked : r.blocked (r.time a) (r.time a) = true) : admitted r m (a :: xs) = [a] := by
  have hrest : admitted r (table r m [a]) xs = [] := by
    apply admitted_eq_nil
    intro b hb
    rw [not_admits_iff]
    refine ⟨r.time a, ?_, ?_⟩
    · change record r m a (r.key b) = some (r.time a)
      simp [record, ha, hkey b hb]
    · rw [htime b hb]
      exact hblocked
  rw [← List.singleton_append, admitted_append, admitted_singleton, hrest]
  simp [ha]

/-- On a clock that never goes back, no admitted item is blocked by any earlier admitted item
of its key, when a later admission blocks whatever an earlier one blocks. -/
theorem admitted_spaced [Preorder τ]
    (hmono : ∀ t l l', l ≤ l' → r.blocked t l → r.blocked t l')
    {xs : List α} (hs : xs.Pairwise fun a b => r.time a ≤ r.time b) :
    (admitted r (fun _ => none) xs).Pairwise fun a b =>
      r.key a = r.key b → r.blocked (r.time b) (r.time a) = false := by
  induction xs using List.reverseRecOn with
  | nil => exact List.Pairwise.nil
  | append_singleton xs a ih =>
    have hxs := (List.pairwise_append.mp hs).1
    rw [admitted_snoc]
    split_ifs with ha
    · rw [List.pairwise_append]
      refine ⟨ih hxs, List.pairwise_singleton _ _, ?_⟩
      intro b hb c hc hkey
      rw [List.mem_singleton.mp hc] at hkey ⊢
      have hfilter : b ∈ (admitted r (fun _ => none) xs).filter fun b => r.key b = r.key a :=
        List.mem_filter.mpr ⟨hb, decide_eq_true hkey⟩
      have hsub := (List.filter_sublist (p := fun b => decide (r.key b = r.key a))).trans
        (admitted_sublist r (fun _ => none) xs)
      obtain ⟨last, hlast⟩ := Option.ne_none_iff_exists'.mp
        (mt List.getLast?_eq_none_iff.mp (List.ne_nil_of_mem hfilter))
      have hfree := (admits_iff_getLast r xs a).mp ha last hlast
      by_contra hblocked
      rw [Bool.not_eq_false] at hblocked
      have hle := le_getLast r (hxs.sublist hsub) hfilter hlast
      rw [hmono _ _ _ hle hblocked] at hfree
      contradiction
    · simpa using ih hxs

/-- When nothing but a later item passes the throttle, the admitted items of a key are strictly
later one after the other, whatever order they are offered in. -/
theorem admitted_increasing [Preorder τ] (hlater : ∀ t l, r.blocked t l = false → l < t)
    (xs : List α) :
    (admitted r (fun _ => none) xs).Pairwise fun a b =>
      r.key a = r.key b → r.time a < r.time b := by
  induction xs using List.reverseRecOn with
  | nil => exact List.Pairwise.nil
  | append_singleton xs a ih =>
    rw [admitted_snoc]
    split_ifs with ha
    · rw [List.pairwise_append]
      refine ⟨ih, List.pairwise_singleton _ _, ?_⟩
      intro b hb c hc hkey
      rw [List.mem_singleton.mp hc] at hkey ⊢
      have hfilter : b ∈ (admitted r (fun _ => none) xs).filter fun b => r.key b = r.key a :=
        List.mem_filter.mpr ⟨hb, decide_eq_true hkey⟩
      obtain ⟨last, hlast⟩ := Option.ne_none_iff_exists'.mp
        (mt List.getLast?_eq_none_iff.mp (List.ne_nil_of_mem hfilter))
      have hfree := (admits_iff_getLast r xs a).mp ha last hlast
      -- The admissions of the key so far are in order, so the last one is the latest.
      have hordered : ((admitted r (fun _ => none) xs).filter fun b => r.key b = r.key a).Pairwise
          fun x y => r.time x ≤ r.time y := by
        apply (ih.filter _).imp_of_mem
        intro x y hx hy hxy
        have hxk := of_decide_eq_true (List.mem_filter.mp hx).2
        have hyk := of_decide_eq_true (List.mem_filter.mp hy).2
        exact (hxy (hxk.trans hyk.symm)).le
      exact (le_getLast r hordered hfilter hlast).trans_lt (hlater _ _ hfree)
    · simpa using ih

theorem record_of_ne (m : κ → Option τ) {a : α} {k : κ} (h : r.key a ≠ k) :
    record r m a k = m k := by
  unfold record
  split_ifs with ha
  · exact Function.update_of_ne (Ne.symm h) _ _
  · rfl

theorem admitted_cons (m : κ → Option τ) (a : α) (xs : List α) :
    admitted r m (a :: xs) =
      (if admits r m a then [a] else []) ++ admitted r (record r m a) xs := by
  rw [← List.singleton_append, admitted_append, admitted_singleton]
  rfl

/-- Items of one key are judged by the table's entry for that key alone. -/
theorem admitted_congr {m m' : κ → Option τ} {k : κ} (hm : m k = m' k) {xs : List α}
    (hxs : ∀ a ∈ xs, r.key a = k) : admitted r m xs = admitted r m' xs := by
  induction xs generalizing m m' with
  | nil => rfl
  | cons a xs ih =>
    have hkey : r.key a = k := hxs a List.mem_cons_self
    have hadmits : admits r m a = admits r m' a := by
      unfold admits
      rw [hkey, hm]
    have hrecord : record r m a k = record r m' a k := by
      unfold record
      rw [hadmits]
      split_ifs with ha
      · rw [hkey, Function.update_self, Function.update_self]
      · exact hm
    rw [admitted_cons, admitted_cons, hadmits,
      ih hrecord fun b hb => hxs b (List.mem_cons_of_mem a hb)]

/-- The admissions of one key are those of its items alone. -/
theorem admitted_filter_key (m : κ → Option τ) (xs : List α) (k : κ) :
    (admitted r m xs).filter (fun a => r.key a = k) =
      admitted r m (xs.filter fun a => r.key a = k) := by
  induction xs generalizing m with
  | nil => rfl
  | cons a xs ih =>
    rw [admitted_cons, List.filter_append, ih]
    by_cases hkey : r.key a = k
    · rw [List.filter_cons_of_pos (by simpa using hkey), admitted_cons]
      split_ifs <;> simp [hkey]
    · have hothers : ∀ b ∈ xs.filter (fun b => r.key b = k), r.key b = k := by
        intro b hb
        exact of_decide_eq_true (List.mem_filter.mp hb).2
      rw [List.filter_cons_of_neg (by simpa using hkey),
        admitted_congr r (record_of_ne r m hkey) hothers]
      split_ifs <;> simp [hkey]

/-- Instants that keep a distance `d` from each other: at most `T / d + 1` fit in a closed window
of length `T`. -/
theorem length_le_of_spaced {d s T : ℤ} (hd : 0 < d) (hT : 0 ≤ T) {xs : List ℤ}
    (hspaced : xs.Pairwise fun x y => d ≤ y - x) (hwindow : ∀ x ∈ xs, s ≤ x ∧ x ≤ s + T) :
    (xs.length : ℤ) ≤ T / d + 1 := by
  have hreach : ∀ x ∈ xs.getLast?, s + (xs.length - 1) * d ≤ x := by
    induction xs using List.reverseRecOn with
    | nil => simp
    | append_singleton xs x ih =>
      intro y hy
      rw [List.getLast?_concat, Option.mem_some_iff] at hy
      subst hy
      rw [List.pairwise_append] at hspaced
      have hprev := ih hspaced.1 fun z hz => hwindow z (List.mem_append_left _ hz)
      have hlen : ((xs ++ [x]).length : ℤ) = xs.length + 1 := by simp
      rw [hlen]
      cases hlast : xs.getLast? with
      | none =>
        rw [List.getLast?_eq_none_iff] at hlast
        subst hlast
        have hx := (hwindow x (by simp)).1
        simpa using hx
      | some z =>
        have hz := hprev z hlast
        have hgap := hspaced.2.2 z (List.mem_of_getLast? hlast) x (by simp)
        linarith
  cases hlast : xs.getLast? with
  | none =>
    rw [List.getLast?_eq_none_iff] at hlast
    subst hlast
    have hdiv : 0 ≤ T / d := Int.ediv_nonneg hT hd.le
    simp only [List.length_nil, Nat.cast_zero]
    omega
  | some x =>
    have hlow := hreach x hlast
    have hhigh := (hwindow x (List.mem_of_getLast? hlast)).2
    have hmul : (xs.length - 1) * d ≤ T := by linarith
    have hdiv := (Int.le_ediv_iff_mul_le hd).mpr hmul
    omega

end Throttle
