import Mathlib.Data.List.Basic
import Mathlib.Data.List.Induction
import Mathlib.Data.List.Infix
import Mathlib.Order.Basic

/-! Greedy selection: items are visited in order, and one is kept unless a kept one blocks it. -/
namespace Greedy

variable {α : Type*} (blocks : α → α → Bool)

/-- The loop, with the items kept so far. -/
def visit : List α → List α → List α
  | kept, [] => kept
  | kept, a :: as =>
    if kept.any (blocks · a) then visit kept as else visit (kept ++ [a]) as

def select (xs : List α) : List α := visit blocks [] xs

theorem visit_sublist (kept xs : List α) : (visit blocks kept xs).Sublist (kept ++ xs) := by
  induction xs generalizing kept with
  | nil => simp [visit]
  | cons a xs ih =>
    rw [visit]
    split_ifs with h
    · exact (ih kept).trans ((List.sublist_cons_self a xs).append_left kept)
    · simpa using ih (kept ++ [a])

theorem kept_subset_visit (kept xs : List α) : kept ⊆ visit blocks kept xs := by
  induction xs generalizing kept with
  | nil => exact List.Subset.refl kept
  | cons a xs ih =>
    rw [visit]
    split_ifs with h
    · exact ih kept
    · exact List.Subset.trans (List.subset_append_left kept [a]) (ih (kept ++ [a]))

theorem select_sublist (xs : List α) : (select blocks xs).Sublist xs :=
  visit_sublist blocks [] xs

/-- An item that is dropped is blocked by a kept item visited before it. -/
theorem visit_covers {before : α → α → Prop} (kept xs : List α)
    (hs : (kept ++ xs).Pairwise before) {a : α} (ha : a ∈ xs) :
    a ∈ visit blocks kept xs ∨ ∃ k ∈ visit blocks kept xs, before k a ∧ blocks k a = true := by
  induction xs generalizing kept with
  | nil => exact absurd ha List.not_mem_nil
  | cons b xs ih =>
    rw [visit]
    split_ifs with h
    · rcases List.mem_cons.mp ha with rfl | ha
      · obtain ⟨k, hk, hblocks⟩ := List.any_eq_true.mp h
        have hbefore := (List.pairwise_append.mp hs).2.2 k hk a List.mem_cons_self
        exact Or.inr ⟨k, kept_subset_visit blocks kept xs hk, hbefore, hblocks⟩
      · exact ih kept (hs.sublist ((List.sublist_cons_self b xs).append_left kept)) ha
    · have hs' : (kept ++ [b] ++ xs).Pairwise before := by simpa using hs
      rcases List.mem_cons.mp ha with rfl | ha
      · exact Or.inl (kept_subset_visit blocks (kept ++ [a]) xs (by simp))
      · exact ih (kept ++ [b]) hs' ha

theorem select_covers {before : α → α → Prop} {xs : List α} (hs : xs.Pairwise before) {a : α}
    (ha : a ∈ xs) :
    a ∈ select blocks xs ∨ ∃ k ∈ select blocks xs, before k a ∧ blocks k a = true :=
  visit_covers blocks [] xs hs ha

theorem visit_append (kept xs ys : List α) :
    visit blocks kept (xs ++ ys) = visit blocks (visit blocks kept xs) ys := by
  induction xs generalizing kept with
  | nil => rfl
  | cons a xs ih =>
    rw [List.cons_append, visit, visit]
    split_ifs
    · exact ih kept
    · exact ih (kept ++ [a])

theorem select_concat_of_blocked {xs : List α} {a k : α} (hk : k ∈ select blocks xs)
    (h : blocks k a = true) : select blocks (xs ++ [a]) = select blocks xs := by
  have hany : (select blocks xs).any (blocks · a) = true := List.any_eq_true.mpr ⟨k, hk, h⟩
  rw [select, visit_append, visit, ← select, if_pos hany, visit]

theorem select_concat_of_free {xs : List α} {a : α}
    (h : ∀ k ∈ select blocks xs, blocks k a = false) :
    select blocks (xs ++ [a]) = select blocks xs ++ [a] := by
  have hany : ¬ (select blocks xs).any (blocks · a) = true := by
    rw [List.any_eq_true]
    rintro ⟨k, hk, hblocks⟩
    rw [h k hk] at hblocks
    contradiction
  rw [select, visit_append, visit, ← select, if_neg hany, visit]

/-- The next item is blocked by a kept one, or joins the kept ones. -/
theorem select_concat (xs : List α) (a : α) :
    (∃ k ∈ select blocks xs, blocks k a = true ∧ select blocks (xs ++ [a]) = select blocks xs) ∨
      (∀ k ∈ select blocks xs, blocks k a = false) ∧
        select blocks (xs ++ [a]) = select blocks xs ++ [a] := by
  by_cases h : ∀ k ∈ select blocks xs, blocks k a = false
  · exact .inr ⟨h, select_concat_of_free blocks h⟩
  · push Not at h
    obtain ⟨k, hk, hblocks⟩ := h
    have hblocks : blocks k a = true := by simpa using hblocks
    exact .inl ⟨k, hk, hblocks, select_concat_of_blocked blocks hk hblocks⟩

theorem select_map {β : Type*} (f : β → α) (xs : List β) :
    select blocks (xs.map f) = (select (fun k a => blocks (f k) (f a)) xs).map f := by
  induction xs using List.reverseRecOn with
  | nil => rfl
  | append_singleton xs a ih =>
    rw [List.map_append, List.map_singleton]
    rcases select_concat (fun k a => blocks (f k) (f a)) xs a with ⟨k, hk, hblocks, heq⟩ | ⟨h, heq⟩
    · have hk' : f k ∈ select blocks (xs.map f) := ih ▸ List.mem_map_of_mem hk
      rw [heq, select_concat_of_blocked blocks hk' hblocks, ih]
    · have h' : ∀ k ∈ select blocks (xs.map f), blocks k (f a) = false := by
        rw [ih]
        exact List.forall_mem_map.mpr h
      rw [heq, select_concat_of_free blocks h', ih, List.map_append, List.map_singleton]

/-- Each item meets `P` behind the items before it. -/
def AtEach (P : List α → α → Prop) (xs : List α) : Prop :=
  ∀ before a, before ++ [a] <+: xs → P before a

theorem atEach_nil (P : List α → α → Prop) : AtEach P [] := by
  intro before a h
  simp at h

theorem atEach_concat_iff {P : List α → α → Prop} {xs : List α} {a : α} :
    AtEach P (xs ++ [a]) ↔ AtEach P xs ∧ P xs a := by
  constructor
  · intro h
    exact ⟨fun before b hb => h before b (hb.trans (List.prefix_append xs [a])),
      h xs a (List.prefix_refl _)⟩
  · rintro ⟨hxs, ha⟩ before b hb
    rcases List.prefix_concat_iff.mp hb with heq | hb
    · obtain ⟨rfl, hlast⟩ := List.append_inj' heq rfl
      obtain rfl := List.singleton_inj.mp hlast
      exact ha
    · exact hxs before b hb

-- From here on the selection is cut at a limit and then read for the relevant items only.
section Relevant
variable (relevant : α → Bool) (limit : ℕ)

/-- An item that the relevant items before it leave room for passes the others too: none that is
kept blocks it, and the limit is not reached. -/
def Passes (before : List α) (a : α) : Prop :=
  relevant a = true → ((select blocks before).filter relevant).length < limit →
    (∀ k ∈ select blocks before, relevant k = true → blocks k a = false) →
      (∀ k ∈ select blocks before, blocks k a = false) ∧ (select blocks before).length < limit

/-- Every item passes. -/
def Undisturbed (xs : List α) : Prop := AtEach (Passes blocks relevant limit) xs

variable {blocks relevant limit}

/-- The cut selection, read for the relevant items, is that of the relevant items alone. Below the
limit nothing relevant has been cut off. -/
structure Alike (blocks : α → α → Bool) (relevant : α → Bool) (limit : ℕ) (xs : List α) : Prop where
  cut : ((select blocks xs).take limit).filter relevant =
    (select blocks (xs.filter relevant)).take limit
  whole : (select blocks (xs.filter relevant)).length < limit →
    (select blocks xs).filter relevant = select blocks (xs.filter relevant)

/-- What comes after the limit does not change what was selected before it. -/
theorem take_select_concat {xs : List α} (h : limit ≤ (select blocks xs).length) (a : α) :
    (select blocks (xs ++ [a])).take limit = (select blocks xs).take limit := by
  rcases select_concat blocks xs a with ⟨_, _, _, heq⟩ | ⟨_, heq⟩
  · rw [heq]
  · rw [heq, List.take_append_of_le_length h]

theorem length_select_le_concat (xs : List α) (a : α) :
    (select blocks xs).length ≤ (select blocks (xs ++ [a])).length := by
  rcases select_concat blocks xs a with ⟨_, _, _, heq⟩ | ⟨_, heq⟩
  · rw [heq]
  · rw [heq, List.length_append]
    omega

/-- Once the relevant items alone reach the limit, they fill it in the whole selection too. -/
theorem Alike.full {xs : List α} (h : Alike blocks relevant limit xs)
    (hfull : limit ≤ (select blocks (xs.filter relevant)).length) :
    limit ≤ (select blocks xs).length := by
  have hlength := congrArg List.length h.cut
  have hfilter := List.length_filter_le relevant ((select blocks xs).take limit)
  rw [List.length_take] at hlength hfilter
  omega

theorem filter_concat_of_relevant (xs : List α) {a : α} (ha : relevant a = true) :
    (xs ++ [a]).filter relevant = xs.filter relevant ++ [a] := by
  simp [List.filter_append, ha]

theorem filter_concat_of_irrelevant (xs : List α) {a : α} (ha : ¬ relevant a = true) :
    (xs ++ [a]).filter relevant = xs.filter relevant := by
  simp [List.filter_append, ha]

variable (blocks relevant limit) in
/-- One more item adds itself to the cut selection at most. -/
theorem cut_concat (xs : List α) (a : α) :
    ∃ added, added <+: [a] ∧ ((select blocks xs ++ [a]).take limit).filter relevant =
      ((select blocks xs).take limit).filter relevant ++ added.filter relevant := by
  refine ⟨[a].take (limit - (select blocks xs).length), List.take_prefix _ _, ?_⟩
  rw [List.take_append, List.filter_append]

/-- An item that is not relevant changes neither side. -/
theorem Alike.concat_irrelevant {xs : List α} {a : α} (h : Alike blocks relevant limit xs)
    (ha : ¬ relevant a = true) : Alike blocks relevant limit (xs ++ [a]) := by
  have hfilter := filter_concat_of_irrelevant xs ha
  rcases select_concat blocks xs a with ⟨_, _, _, heq⟩ | ⟨_, heq⟩
  · exact ⟨by rw [heq, hfilter, h.cut], by rw [heq, hfilter]; exact h.whole⟩
  · constructor
    · obtain ⟨added, hadded, hcut⟩ := cut_concat blocks relevant limit xs a
      have hnone : added.filter relevant = [] := by
        rw [List.filter_eq_nil_iff]
        intro b hb
        rwa [List.mem_singleton.mp (hadded.subset hb)]
      rw [heq, hfilter, hcut, hnone, List.append_nil, h.cut]
    · rw [heq, hfilter, filter_concat_of_irrelevant _ ha]
      exact h.whole

/-- Below the limit, a relevant item that passes is kept on both sides or on neither. -/
theorem Alike.concat_relevant {xs : List α} {a : α} (h : Alike blocks relevant limit xs)
    (ha : relevant a = true) (hpasses : Passes blocks relevant limit xs a)
    (hroom : (select blocks (xs.filter relevant)).length < limit) :
    Alike blocks relevant limit (xs ++ [a]) := by
  have hfilter := filter_concat_of_relevant xs ha
  have hwhole := h.whole hroom
  rcases select_concat blocks (xs.filter relevant) a with ⟨k, hk, hblocks, heq'⟩ | ⟨hfree, heq'⟩
  · have hk' : k ∈ select blocks xs := List.mem_of_mem_filter (hwhole ▸ hk)
    have heq := select_concat_of_blocked blocks hk' hblocks
    exact ⟨by rw [heq, hfilter, heq', h.cut], by rw [heq, hfilter, heq']; exact h.whole⟩
  · obtain ⟨hnone, hlimit⟩ := hpasses ha (hwhole ▸ hroom) fun k hk hrel =>
      hfree k (hwhole ▸ List.mem_filter.mpr ⟨hk, hrel⟩)
    have heq := select_concat_of_free blocks hnone
    have hboth : (select blocks xs ++ [a]).filter relevant =
        select blocks (xs.filter relevant) ++ [a] := by
      rw [filter_concat_of_relevant _ ha, hwhole]
    constructor
    · rw [heq, hfilter, heq', List.take_of_length_le (by simp; omega),
        List.take_of_length_le (by simp; omega), hboth]
    · rw [heq, hfilter, heq']
      exact fun _ => hboth

/-- From the limit on, both cuts stay as they are. -/
theorem Alike.concat_full {xs : List α} {a : α} (h : Alike blocks relevant limit xs)
    (ha : relevant a = true) (hfull : limit ≤ (select blocks (xs.filter relevant)).length) :
    Alike blocks relevant limit (xs ++ [a]) := by
  have hfilter := filter_concat_of_relevant xs ha
  constructor
  · rw [take_select_concat (h.full hfull), hfilter, take_select_concat hfull, h.cut]
  · intro hroom
    rw [hfilter] at hroom
    exact absurd (hfull.trans (length_select_le_concat _ a)) (Nat.not_le.mpr hroom)

theorem alike_of_undisturbed {xs : List α} (h : Undisturbed blocks relevant limit xs) :
    Alike blocks relevant limit xs := by
  induction xs using List.reverseRecOn with
  | nil => exact ⟨by simp [select, visit], by simp [select, visit]⟩
  | append_singleton xs a ih =>
    obtain ⟨hxs, ha⟩ := atEach_concat_iff.mp h
    by_cases hrelevant : relevant a = true
    · rcases Nat.lt_or_ge (select blocks (xs.filter relevant)).length limit with hroom | hfull
      · exact (ih hxs).concat_relevant hrelevant ha hroom
      · exact (ih hxs).concat_full hrelevant hfull
    · exact (ih hxs).concat_irrelevant hrelevant

section Read
variable {β : Type*} (f : α → β)

/-- The relevant items alone have `a` where the cut selection will never have an item that reads
the same. -/
def Diverged (blocks : α → α → Bool) (relevant : α → Bool) (limit : ℕ) (xs : List α) : Prop :=
  ∃ common a rest others,
    select blocks (xs.filter relevant) = common ++ a :: rest ∧ common.length < limit ∧
    ((select blocks xs).take limit).filter relevant = common ++ others ∧
    (∀ b ∈ others, f b ≠ f a) ∧
    (limit ≤ (select blocks xs).length ∨ ∃ k ∈ select blocks xs, blocks k a = true)

variable {f}

theorem Diverged.concat (hf : ∀ a b, f a = f b → ∀ k, blocks k a = blocks k b) {xs : List α}
    (h : Diverged f blocks relevant limit xs) (b : α) :
    Diverged f blocks relevant limit (xs ++ [b]) := by
  obtain ⟨common, a, rest, others, hsplit, hcommon, hcut, hothers, hwhy⟩ := h
  obtain ⟨rest', hsplit'⟩ : ∃ rest', select blocks ((xs ++ [b]).filter relevant) =
      common ++ a :: rest' := by
    by_cases hb : relevant b = true
    · rw [filter_concat_of_relevant xs hb]
      rcases select_concat blocks (xs.filter relevant) b with ⟨_, _, _, heq⟩ | ⟨_, heq⟩
      · exact ⟨rest, heq.trans hsplit⟩
      · exact ⟨rest ++ [b], by rw [heq, hsplit, List.append_assoc, List.cons_append]⟩
    · exact ⟨rest, by rw [filter_concat_of_irrelevant xs hb, hsplit]⟩
  rcases hwhy with hfull | ⟨k, hk, hblocks⟩
  · refine ⟨common, a, rest', others, hsplit', hcommon, ?_, hothers, .inl ?_⟩
    · rw [take_select_concat hfull, hcut]
    · exact hfull.trans (length_select_le_concat xs b)
  · rcases select_concat blocks xs b with ⟨_, _, _, heq⟩ | ⟨hfree, heq⟩
    · exact ⟨common, a, rest', others, hsplit', hcommon, by rw [heq, hcut], hothers,
        .inr ⟨k, heq ▸ hk, hblocks⟩⟩
    · obtain ⟨added, hadded, hcut'⟩ := cut_concat blocks relevant limit xs b
      refine ⟨common, a, rest', others ++ added.filter relevant, hsplit', hcommon, ?_, ?_,
        .inr ⟨k, heq ▸ List.mem_append_left _ hk, hblocks⟩⟩
      · rw [heq, hcut', hcut, List.append_assoc]
      · intro c hc
        rcases List.mem_append.mp hc with hc | hc
        · exact hothers c hc
        · -- What blocks `a` does not block the new item, so they do not read the same.
          obtain rfl := List.mem_singleton.mp (hadded.subset (List.mem_of_mem_filter hc))
          intro hsame
          rw [← hf _ _ hsame k, hfree k hk] at hblocks
          contradiction

/-- An item that does not pass is missing from the cut selection. -/
theorem Alike.diverged {xs : List α} {a : α} (h : Alike blocks relevant limit xs)
    (ha : ¬ Passes blocks relevant limit xs a) : Diverged f blocks relevant limit (xs ++ [a]) := by
  simp only [Passes, Classical.not_imp] at ha
  obtain ⟨hrelevant, hlength, hfree, hwhy⟩ := ha
  have hroom : (select blocks (xs.filter relevant)).length < limit := by
    by_contra hfull
    have hcut := congrArg List.length h.cut
    have hle := ((List.take_sublist limit (select blocks xs)).filter relevant).length_le
    rw [List.length_take] at hcut
    omega
  have hwhole := h.whole hroom
  have hfree' : ∀ k ∈ select blocks (xs.filter relevant), blocks k a = false := by
    intro k hk
    rw [← hwhole, List.mem_filter] at hk
    exact hfree k hk.1 hk.2
  have hcut : ((select blocks xs).take limit).filter relevant =
      select blocks (xs.filter relevant) := by
    rw [h.cut, List.take_of_length_le hroom.le]
  have hmissing : limit ≤ (select blocks xs).length ∨
      ∃ k ∈ select blocks xs, blocks k a = true := by
    by_contra hneither
    push Not at hneither
    exact hwhy ⟨fun k hk => by simpa using hneither.2 k hk, hneither.1⟩
  refine ⟨select blocks (xs.filter relevant), a, [], [], ?_, hroom, ?_, by simp, ?_⟩
  · rw [filter_concat_of_relevant xs hrelevant, select_concat_of_free blocks hfree']
  · rw [List.append_nil]
    rcases hmissing with hfull | ⟨k, hk, hblocks⟩
    · rw [take_select_concat hfull, hcut]
    · rw [select_concat_of_blocked blocks hk hblocks, hcut]
  · rcases hmissing with hfull | ⟨k, hk, hblocks⟩
    · exact .inl (hfull.trans (length_select_le_concat xs a))
    · exact .inr ⟨k, select_concat_of_blocked blocks hk hblocks ▸ hk, hblocks⟩

theorem diverged_of_not_undisturbed (hf : ∀ a b, f a = f b → ∀ k, blocks k a = blocks k b)
    {xs : List α} (h : ¬ Undisturbed blocks relevant limit xs) :
    Diverged f blocks relevant limit xs := by
  induction xs using List.reverseRecOn with
  | nil =>
    exact absurd (atEach_nil _) h
  | append_singleton xs a ih =>
    by_cases hxs : Undisturbed blocks relevant limit xs
    · have ha : ¬ Passes blocks relevant limit xs a :=
        fun ha => h (atEach_concat_iff.mpr ⟨hxs, ha⟩)
      exact (alike_of_undisturbed hxs).diverged ha
    · exact (ih hxs).concat hf a

theorem Diverged.ne {xs : List α} (h : Diverged f blocks relevant limit xs) :
    (((select blocks xs).take limit).filter relevant).map f ≠
      ((select blocks (xs.filter relevant)).take limit).map f := by
  obtain ⟨common, a, rest, others, hsplit, hcommon, hcut, hothers, _⟩ := h
  rw [hcut, hsplit, List.take_append, List.take_of_length_le hcommon.le]
  obtain ⟨n, hn⟩ : ∃ n, limit - common.length = n + 1 := ⟨limit - common.length - 1, by omega⟩
  rw [hn, List.take_succ_cons, List.map_append, List.map_append, ne_eq,
    List.append_cancel_left_eq]
  cases others with
  | nil => simp
  | cons b others =>
    intro hsame
    exact hothers b List.mem_cons_self (List.cons.inj hsame).1

/-- The other items leave the relevant ones alone exactly when every item passes. `f` is what is
read of an item; whatever reads the same is blocked by the same items. -/
theorem cut_filter_eq_iff (hf : ∀ a b, f a = f b → ∀ k, blocks k a = blocks k b) (xs : List α) :
    (((select blocks xs).take limit).filter relevant).map f =
        ((select blocks (xs.filter relevant)).take limit).map f ↔
      Undisturbed blocks relevant limit xs := by
  constructor
  · intro h
    by_contra hdisturbed
    exact (diverged_of_not_undisturbed hf hdisturbed).ne h
  · intro h
    rw [(alike_of_undisturbed h).cut]

end Read
end Relevant

end Greedy
