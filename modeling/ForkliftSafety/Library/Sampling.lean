import Mathlib.Data.List.Basic
import Mathlib.Data.List.Destutter
import Mathlib.Data.List.Induction
import Mathlib.Data.List.Sort

/-! Logs that grow at their end, and what a reader has seen who looks at the newest element from
time to time. -/
namespace Sampling
variable {α β : Type*}

/-- What can have been seen of a log: elements may be passed over or seen again and again, but none
is seen after a newer one. -/
inductive Sampled : List α → List α → Prop
  | start : Sampled [] []
  | grow {seen log : List α} (a : α) (h : Sampled seen log) : Sampled seen (log ++ [a])
  | look {seen log : List α} {a : α} (h : Sampled seen log) (ha : log.getLast? = some a) :
    Sampled (seen ++ [a]) log

namespace Sampled
variable {seen log : List α}

/-- A look at a log that may be empty. -/
theorem looked (h : Sampled seen log) : Sampled (seen ++ log.getLast?.toList) log := by
  cases ha : log.getLast? with
  | none => rwa [Option.toList_none, List.append_nil]
  | some a => exact h.look ha

theorem subset (h : Sampled seen log) : seen ⊆ log := by
  induction h with
  | start => exact List.Subset.refl []
  | grow a _ ih => exact List.Subset.trans ih (List.subset_append_left _ _)
  | look _ ha ih => exact List.append_subset.mpr ⟨ih, by simpa using List.mem_of_getLast? ha⟩

/-- What is passed over can be more. -/
theorem sublist (h : Sampled seen log) {fewer : List α} (hfewer : fewer.Sublist seen) :
    Sampled fewer log := by
  induction h generalizing fewer with
  | start => exact List.sublist_nil.mp hfewer ▸ .start
  | grow a _ ih => exact (ih hfewer).grow a
  | look _ ha ih =>
    obtain ⟨before, last, rfl, hbefore, hlast⟩ := List.sublist_append_iff.mp hfewer
    rcases List.sublist_singleton.mp hlast with rfl | rfl
    · rw [List.append_nil]
      exact ih hbefore
    · exact (ih hbefore).look ha

/-- What was seen of the images of a log are images of what was seen of the log. -/
theorem exists_of_map {f : α → β} {seen : List β} (h : Sampled seen (log.map f)) :
    ∃ origins, seen = origins.map f ∧ Sampled origins log := by
  generalize himage : log.map f = image at h
  induction h generalizing log with
  | start =>
    rw [List.map_eq_nil_iff.mp himage]
    exact ⟨[], rfl, .start⟩
  | grow b _ ih =>
    obtain ⟨before, last, rfl, hbefore, hlast⟩ := List.map_eq_append_iff.mp himage
    obtain ⟨a, rfl, rfl⟩ := List.map_eq_singleton_iff.mp hlast
    obtain ⟨origins, hseen, hsampled⟩ := ih hbefore
    exact ⟨origins, hseen, hsampled.grow a⟩
  | look _ hb ih =>
    obtain ⟨origins, rfl, hsampled⟩ := ih himage
    rw [← himage, List.getLast?_map, Option.map_eq_some_iff] at hb
    obtain ⟨a, ha, rfl⟩ := hb
    exact ⟨origins ++ [a], by rw [List.map_append]; rfl, hsampled.look ha⟩

/-- What grows in the log comes in this order for the reader. -/
theorem pairwise (h : Sampled seen log) {R : α → α → Prop} (hrefl : ∀ a, R a a)
    (hlog : log.Pairwise R) : seen.Pairwise R := by
  induction h with
  | start => exact .nil
  | grow a _ ih => exact ih (hlog.sublist (List.sublist_append_left _ _))
  | @look seen log a h ha ih =>
    rw [List.pairwise_append]
    refine ⟨ih hlog, List.pairwise_singleton R a, ?_⟩
    intro b hb c hc
    rw [List.mem_singleton.mp hc]
    obtain ⟨before, rfl⟩ := List.getLast?_eq_some_iff.mp ha
    rcases List.mem_append.mp (h.subset hb) with hold | hlast
    · exact (List.pairwise_append.mp hlog).2.2 b hold a (by simp)
    · rw [List.mem_singleton.mp hlast]
      exact hrefl a

/-- A reader who passes over what was seen last gets a part of the log, where keys tell the elements
of the log apart. -/
theorem destutter_sublist {κ : Type*} [LinearOrder κ] {key : α → κ} (h : Sampled seen log)
    (hlog : log.Pairwise fun a b => key a < key b) :
    (seen.destutter fun a b => ¬ key a = key b).Sublist log := by
  have hsub := seen.destutter_sublist fun a b => ¬ key a = key b
  have hle : (seen.destutter fun a b => ¬ key a = key b).Pairwise fun a b => key a ≤ key b :=
    (h.pairwise (fun a => le_refl (key a)) (hlog.imp le_of_lt)).sublist hsub
  have hne := seen.isChain_destutter fun a b => ¬ key a = key b
  have hchain : ((seen.destutter fun a b => ¬ key a = key b).map key).IsChain (· < ·) := by
    rw [List.isChain_map, List.isChain_iff_getElem]
    intro i hi
    have hstep := List.pairwise_iff_getElem.mp hle i (i + 1) (by omega) hi (by omega)
    exact lt_of_le_of_ne hstep (List.isChain_iff_getElem.mp hne i hi)
  have hlt : (seen.destutter fun a b => ¬ key a = key b).Pairwise fun a b => key a < key b :=
    List.pairwise_map.mp (List.isChain_iff_pairwise.mp hchain)
  have hnodup := List.Nodup.of_map key (hlt.map key fun _ _ hab => hab.ne)
  have hantisymm : Std.Antisymm fun a b => key a < key b :=
    ⟨fun a b hab hba => absurd hba hab.asymm⟩
  have hsubset := List.Subset.trans hsub.subset h.subset
  exact List.sublist_of_subperm_of_pairwise (List.subperm_of_subset hnodup hsubset) hlt hlog

end Sampled
end Sampling
