import Mathlib.Data.List.Nodup

/-! A buffer filled at the back and emptied from the front, where an item that leaves is either
delivered or discarded. The ledger remembers which, and subscribers take runs of what it
delivers. -/
namespace Buffer

variable {α : Type*}

def tag (f : Bool) (xs : List α) : List (α × Bool) := xs.map (·, f)

@[simp] theorem tag_map_fst (f : Bool) (xs : List α) : (tag f xs).map Prod.fst = xs := by
  induction xs with
  | nil => rfl
  | cons x xs ih => simpa [tag] using ih

@[simp] theorem tag_true_filter (xs : List α) : (tag true xs).filter Prod.snd = tag true xs := by
  simp [tag, List.filter_eq_self]

@[simp] theorem tag_false_filter (xs : List α) : (tag false xs).filter Prod.snd = [] := by
  simp [tag]

@[simp] theorem tag_true_filter_not (xs : List α) :
    (tag true xs).filter (fun x => !x.2) = [] := by
  simp [tag]

@[simp] theorem tag_false_filter_not (xs : List α) :
    (tag false xs).filter (fun x => !x.2) = tag false xs := by
  simp [tag, List.filter_eq_self]

structure Ledger (α : Type*) where
  /-- What has left, oldest first, with `true` where it was delivered. -/
  gone : List (α × Bool) := []
  pending : List α := []

namespace Ledger
variable (L : Ledger α)

def produced : List α := L.gone.map Prod.fst ++ L.pending

def delivered : List α := (L.gone.filter Prod.snd).map Prod.fst

def discarded : List α := (L.gone.filter fun x => !x.2).map Prod.fst

def put (v : α) : Ledger α := { L with pending := L.pending ++ [v] }

/-- The `n` oldest pending items leave. -/
def leave (n : ℕ) (isDelivered : Bool) : Ledger α where
  gone := L.gone ++ tag isDelivered (L.pending.take n)
  pending := L.pending.drop n

def discard (n : ℕ) : Ledger α := L.leave n false

def deliver (n : ℕ) : Ledger α := L.leave n true

@[simp] theorem produced_put (v : α) : (L.put v).produced = L.produced ++ [v] := by
  simp only [produced, put, List.append_assoc]

@[simp] theorem delivered_put (v : α) : (L.put v).delivered = L.delivered := rfl

@[simp] theorem discarded_put (v : α) : (L.put v).discarded = L.discarded := rfl

theorem produced_leave (n : ℕ) (f : Bool) : (L.leave n f).produced = L.produced := by
  simp only [produced, leave, List.map_append, tag_map_fst, List.append_assoc,
    List.take_append_drop]

@[simp] theorem produced_discard (n : ℕ) : (L.discard n).produced = L.produced :=
  L.produced_leave n false

@[simp] theorem produced_deliver (n : ℕ) : (L.deliver n).produced = L.produced :=
  L.produced_leave n true

@[simp] theorem delivered_discard (n : ℕ) : (L.discard n).delivered = L.delivered := by
  simp [delivered, discard, leave]

@[simp] theorem discarded_discard (n : ℕ) :
    (L.discard n).discarded = L.discarded ++ L.pending.take n := by
  simp [discarded, discard, leave]

@[simp] theorem delivered_deliver (n : ℕ) :
    (L.deliver n).delivered = L.delivered ++ L.pending.take n := by
  simp [delivered, deliver, leave]

@[simp] theorem discarded_deliver (n : ℕ) : (L.deliver n).discarded = L.discarded := by
  simp [discarded, deliver, leave]

/-- Nothing is lost or counted twice. -/
theorem length_balance :
    L.discarded.length + L.delivered.length + L.pending.length = L.produced.length := by
  have hsplit := List.length_eq_length_filter_add (l := L.gone) Prod.snd
  simp only [discarded, delivered, produced, List.length_append, List.length_map]
  omega

/-- What was delivered or may yet be is what was produced, in order, with gaps. -/
theorem delivered_sublist : (L.delivered ++ L.pending).Sublist L.produced :=
  (List.filter_sublist.map Prod.fst).append (List.Sublist.refl _)

theorem getLast?_produced {xs : List α} {v : α} (h : L.pending = xs ++ [v]) :
    L.produced.getLast? = some v := by
  rw [produced, h, ← List.append_assoc, List.getLast?_concat]

theorem delivered_eq_filter [DecidableEq α] (h : L.produced.Nodup) :
    L.delivered ++ L.pending = L.produced.filter (· ∉ L.discarded) := by
  have hone : ∀ v f g, (v, f) ∈ L.gone → (v, g) ∈ L.gone → f = g := by
    intro v f g hf hg
    have hnodup : (L.gone.map Prod.fst).Nodup := (List.nodup_append.mp h).1
    have heq := List.inj_on_of_nodup_map hnodup hf hg rfl
    exact congrArg Prod.snd heq
  have hpending : ∀ v ∈ L.pending, v ∉ L.discarded := by
    intro v hv hgone
    obtain ⟨x, hx, rfl⟩ := List.mem_map.mp hgone
    have hleft : x.1 ∈ L.gone.map Prod.fst := List.mem_map_of_mem (List.mem_of_mem_filter hx)
    exact (List.nodup_append.mp h).2.2 x.1 hleft x.1 hv rfl
  have hdelivered : L.delivered = (L.gone.map Prod.fst).filter (· ∉ L.discarded) := by
    rw [delivered, List.filter_map]
    congr 1
    apply List.filter_congr
    rintro ⟨v, f⟩ hx
    have hmem : v ∈ L.discarded ↔ f = false := by
      constructor
      · intro hv
        obtain ⟨⟨w, g⟩, hy, rfl⟩ := List.mem_map.mp hv
        rw [List.mem_filter] at hy
        rw [hone w f g hx hy.1]
        simpa using hy.2
      · rintro rfl
        exact List.mem_map.mpr ⟨(v, false), by simp [hx], rfl⟩
    cases f <;> simp [hmem]
  rw [produced, List.filter_append, ← hdelivered,
    List.filter_eq_self.mpr fun v hv => decide_eq_true (hpending v hv)]

end Ledger

/-- One who takes what is logged, from the moment of joining to the moment of leaving. The flags say
at which entries of the log it was there, and `taken` is what it took. -/
def Waiting (log : List α) (there : List Bool) (taken : List α) : Prop :=
  there = List.replicate log.length false ∧ taken = []

def Attending (log : List α) (there : List Bool) (taken : List α) : Prop :=
  ∃ before during, there = List.replicate before false ++ List.replicate during true ∧
    log.length = before + during ∧ taken = log.drop before

/-- What was taken is one contiguous run of the log, at the entries where the flags say so. -/
def TookRun (log : List α) (there : List Bool) (taken : List α) : Prop :=
  ∃ before during behind, there = List.replicate before false ++ List.replicate during true ++
    List.replicate behind false ∧ log.length = before + during + behind ∧
    taken = (log.drop before).take during

variable {log taken : List α} {there : List Bool}

theorem Waiting.miss (h : Waiting log there taken) (v : α) :
    Waiting (log ++ [v]) (there ++ [false]) taken := by
  obtain ⟨rfl, rfl⟩ := h
  refine ⟨?_, rfl⟩
  rw [List.length_append, List.length_singleton, List.replicate_succ']

theorem Waiting.attending (h : Waiting log there taken) : Attending log there taken := by
  obtain ⟨rfl, rfl⟩ := h
  exact ⟨log.length, 0, by simp, rfl, by simp⟩

theorem Attending.take (h : Attending log there taken) (v : α) :
    Attending (log ++ [v]) (there ++ [true]) (taken ++ [v]) := by
  obtain ⟨before, during, rfl, hlen, rfl⟩ := h
  refine ⟨before, during + 1, ?_, ?_, ?_⟩
  · rw [List.replicate_succ', List.append_assoc]
  · rw [List.length_append, List.length_singleton]
    omega
  · rw [List.drop_append_of_le_length (by omega)]

theorem Attending.tookRun (h : Attending log there taken) : TookRun log there taken := by
  obtain ⟨before, during, rfl, hlen, rfl⟩ := h
  refine ⟨before, during, 0, by simp, hlen, ?_⟩
  rw [List.take_of_length_le]
  rw [List.length_drop]
  omega

theorem TookRun.miss (h : TookRun log there taken) (v : α) :
    TookRun (log ++ [v]) (there ++ [false]) taken := by
  obtain ⟨before, during, behind, rfl, hlen, rfl⟩ := h
  refine ⟨before, during, behind + 1, ?_, ?_, ?_⟩
  · rw [List.replicate_succ', List.append_assoc]
  · rw [List.length_append, List.length_singleton]
    omega
  · rw [List.drop_append_of_le_length (by omega), List.take_append_of_le_length]
    rw [List.length_drop]
    omega

end Buffer
