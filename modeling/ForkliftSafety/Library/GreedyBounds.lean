import ForkliftSafety.Library.Greedy

/-! Bounds on a greedy selection that can be read off the items: what nothing before it blocks is
kept, and what is kept is blocked by no such item. -/
namespace Greedy

variable {α : Type*}

/-- The items that pass a test against all the items before them. -/
def keepIf (test : List α → α → Bool) : List α → List α → List α
  | _, [] => []
  | before, a :: as => (if test before a then [a] else []) ++ keepIf test (before ++ [a]) as

theorem keepIf_append (test : List α → α → Bool) (before xs ys : List α) :
    keepIf test before (xs ++ ys) =
      keepIf test before xs ++ keepIf test (before ++ xs) ys := by
  induction xs generalizing before with
  | nil => simp [keepIf]
  | cons a xs ih =>
    rw [List.cons_append, keepIf, keepIf, ih, List.append_assoc, List.append_assoc,
      List.singleton_append]

theorem keepIf_concat (test : List α → α → Bool) (xs : List α) (a : α) :
    keepIf test [] (xs ++ [a]) = keepIf test [] xs ++ if test xs a then [a] else [] := by
  rw [keepIf_append, keepIf, keepIf, List.append_nil, List.nil_append]

variable (blocks : α → α → Bool)

/-- The items that no item before them blocks. -/
def uncontested (xs : List α) : List α := keepIf (fun before a => !before.any (blocks · a)) [] xs

/-- The items that no uncontested item before them blocks. -/
def contenders (xs : List α) : List α :=
  keepIf (fun before a => !(uncontested blocks before).any (blocks · a)) [] xs

/-- The next item is blocked by an earlier one, or is uncontested. -/
theorem uncontested_concat (xs : List α) (a : α) :
    (∃ k ∈ xs, blocks k a = true ∧ uncontested blocks (xs ++ [a]) = uncontested blocks xs) ∨
      (∀ k ∈ xs, blocks k a = false) ∧
        uncontested blocks (xs ++ [a]) = uncontested blocks xs ++ [a] := by
  rw [uncontested, keepIf_concat]
  by_cases hany : xs.any (blocks · a) = true
  · obtain ⟨k, hk, hblocks⟩ := List.any_eq_true.mp hany
    exact .inl ⟨k, hk, hblocks, by simp [hany, uncontested]⟩
  · refine .inr ⟨fun k hk => ?_, by simp [hany, uncontested]⟩
    simpa using fun hblocks => hany (List.any_eq_true.mpr ⟨k, hk, hblocks⟩)

/-- The next item is blocked by an uncontested one, or is a contender. -/
theorem contenders_concat (xs : List α) (a : α) :
    (∃ k ∈ uncontested blocks xs,
        blocks k a = true ∧ contenders blocks (xs ++ [a]) = contenders blocks xs) ∨
      (∀ k ∈ uncontested blocks xs, blocks k a = false) ∧
        contenders blocks (xs ++ [a]) = contenders blocks xs ++ [a] := by
  rw [contenders, keepIf_concat]
  by_cases hany : (uncontested blocks xs).any (blocks · a) = true
  · obtain ⟨k, hk, hblocks⟩ := List.any_eq_true.mp hany
    exact .inl ⟨k, hk, hblocks, by simp [hany, contenders]⟩
  · refine .inr ⟨fun k hk => ?_, by simp [hany, contenders]⟩
    simpa using fun hblocks => hany (List.any_eq_true.mpr ⟨k, hk, hblocks⟩)

/-- Nothing can drop what nothing blocks. -/
theorem uncontested_sublist_select (xs : List α) :
    (uncontested blocks xs).Sublist (select blocks xs) := by
  induction xs using List.reverseRecOn with
  | nil => exact List.Sublist.refl []
  | append_singleton xs a ih =>
    rcases uncontested_concat blocks xs a with ⟨_, _, _, heq⟩ | ⟨hfree, heq⟩
    · rw [heq]
      rcases select_concat blocks xs a with ⟨_, _, _, hselect⟩ | ⟨_, hselect⟩
      · exact hselect ▸ ih
      · exact hselect ▸ ih.trans (List.sublist_append_left _ _)
    · have hfree' : ∀ k ∈ select blocks xs, blocks k a = false := by
        intro k hk
        exact hfree k ((select_sublist blocks xs).subset hk)
      rw [heq, select_concat_of_free blocks hfree']
      exact ih.append (List.Sublist.refl [a])

/-- What is kept is a contender, since the uncontested items are kept as well. -/
theorem select_sublist_contenders (xs : List α) :
    (select blocks xs).Sublist (contenders blocks xs) := by
  induction xs using List.reverseRecOn with
  | nil => exact List.Sublist.refl []
  | append_singleton xs a ih =>
    rcases contenders_concat blocks xs a with ⟨k, hk, hblocks, heq⟩ | ⟨_, heq⟩
    · have hk' := (uncontested_sublist_select blocks xs).subset hk
      rw [heq, select_concat_of_blocked blocks hk' hblocks]
      exact ih
    · rw [heq]
      rcases select_concat blocks xs a with ⟨_, _, _, hselect⟩ | ⟨_, hselect⟩
      · exact hselect ▸ ih.trans (List.sublist_append_left _ _)
      · exact hselect ▸ ih.append (List.Sublist.refl [a])

/-- Without a contender that is contested there is none in any first part of the items. -/
theorem contenders_eq_of_concat {xs : List α} {a : α}
    (h : contenders blocks (xs ++ [a]) = uncontested blocks (xs ++ [a])) :
    contenders blocks xs = uncontested blocks xs := by
  have hsub : (uncontested blocks xs).Sublist (contenders blocks xs) :=
    (uncontested_sublist_select blocks xs).trans (select_sublist_contenders blocks xs)
  rcases contenders_concat blocks xs a with ⟨k, hk, hblocks, hright⟩ | ⟨_, hright⟩ <;>
    rcases uncontested_concat blocks xs a with ⟨_, _, _, hleft⟩ | ⟨hfree, hleft⟩ <;>
    rw [hright, hleft] at h
  · exact h
  · have hk' := (select_sublist blocks xs).subset ((uncontested_sublist_select blocks xs).subset hk)
    rw [hfree k hk'] at hblocks
    contradiction
  · have hlength := congrArg List.length h
    have hle := hsub.length_le
    rw [List.length_append, List.length_singleton] at hlength
    omega
  · exact List.append_cancel_right h

theorem contenders_eq_of_prefix {xs before : List α}
    (h : contenders blocks xs = uncontested blocks xs) (hpre : before <+: xs) :
    contenders blocks before = uncontested blocks before := by
  obtain ⟨rest, rfl⟩ := hpre
  induction rest using List.reverseRecOn with
  | nil => rwa [List.append_nil] at h
  | append_singleton rest a ih =>
    rw [← List.append_assoc] at h
    exact ih (contenders_eq_of_concat blocks h)

section Relevant
variable (relevant : α → Bool) (limit : ℕ)

/-- A relevant item that the uncontested relevant items leave room for is blocked by no other
contender, and the contenders do not reach the limit. Without another contender there is nothing to
ask. -/
def Cleared (before : List α) (a : α) : Prop :=
  relevant a = true → (∃ u ∈ contenders blocks before, relevant u = false) →
    ((uncontested blocks before).filter relevant).length < limit →
    (∀ k ∈ uncontested blocks before, relevant k = true → blocks k a = false) →
      (∀ u ∈ contenders blocks before, relevant u = false → blocks u a = false) ∧
        (contenders blocks before).length < limit

instance (before : List α) (a : α) : Decidable (Cleared blocks relevant limit before a) := by
  unfold Cleared
  infer_instance

/-- Every item is cleared. -/
def Clear (xs : List α) : Prop := AtEach (Cleared blocks relevant limit) xs

variable {blocks relevant limit}

theorem Cleared.passes {before : List α} {a : α} (h : Cleared blocks relevant limit before a) :
    Passes blocks relevant limit before a := by
  intro ha hroom hfree
  have hkept := uncontested_sublist_select blocks before
  have hcontends := select_sublist_contenders blocks before
  by_cases hother : ∃ u ∈ contenders blocks before, relevant u = false
  · have hfew : ((uncontested blocks before).filter relevant).length < limit :=
      (hkept.filter relevant).length_le.trans_lt hroom
    obtain ⟨hclear, hlimit⟩ := h ha hother hfew fun k hk => hfree k (hkept.subset hk)
    refine ⟨fun k hk => ?_, hcontends.length_le.trans_lt hlimit⟩
    by_cases hk' : relevant k = true
    · exact hfree k hk hk'
    · exact hclear k (hcontends.subset hk) (by simpa using hk')
  · have hall : ∀ k ∈ select blocks before, relevant k = true := by
      intro k hk
      by_contra hk'
      exact hother ⟨k, hcontends.subset hk, by simpa using hk'⟩
    rw [List.filter_eq_self.mpr hall] at hroom
    exact ⟨fun k hk => hfree k hk (hall k hk), hroom⟩

theorem Clear.undisturbed {xs : List α} (h : Clear blocks relevant limit xs) :
    Undisturbed blocks relevant limit xs := fun before a ha => (h before a ha).passes

/-- Where every contender is uncontested, both are what is kept, and the bounds are exact. -/
theorem clear_of_undisturbed {xs : List α} (hplain : contenders blocks xs = uncontested blocks xs)
    (h : Undisturbed blocks relevant limit xs) : Clear blocks relevant limit xs := by
  intro before a hpre ha _ hroom hfree
  have heq := contenders_eq_of_prefix blocks hplain ((List.prefix_append before [a]).trans hpre)
  have hselect : select blocks before = uncontested blocks before := by
    refine List.Sublist.antisymm ?_ (uncontested_sublist_select blocks before)
    exact heq ▸ select_sublist_contenders blocks before
  have hpasses := h before a hpre ha
  rw [hselect] at hpasses
  rw [heq]
  obtain ⟨hnone, hlimit⟩ := hpasses hroom hfree
  exact ⟨fun u hu _ => hnone u hu, hlimit⟩

end Relevant

end Greedy
