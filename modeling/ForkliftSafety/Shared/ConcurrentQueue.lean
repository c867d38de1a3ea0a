import ForkliftSafety.Library.Buffer

/-! `ConcurrentQueue`: its critical sections, each one step under the queue's mutex, and the
lossy buffer that they implement. -/
namespace ForkliftSafety
open Buffer

inductive OverflowPolicy where
  | blockWhenFull | dropOldestWhenFull
  deriving DecidableEq, Repr

structure ConcurrentQueue (α : Type*) where
  capacity : ℕ
  policy : OverflowPolicy := .dropOldestWhenFull
  items : List α := []
  dropped : ℕ := 0
  closed : Bool := false
  deriving Repr

namespace ConcurrentQueue
variable {α : Type*}

/-- `none` while the caller waits for room. The boolean is what `push` returns. With capacity 0
there is no oldest item to drop, and `pop_front` is undefined; here it drops nothing. -/
def push (q : ConcurrentQueue α) (value : α) : Option (ConcurrentQueue α × Bool) :=
  match q.policy with
  | .blockWhenFull =>
    if q.closed then some (q, false)
    else if q.items.length < q.capacity then
      some ({ q with items := q.items ++ [value] }, true)
    else none
  | .dropOldestWhenFull =>
    if q.items.length ≥ q.capacity then
      some ({ q with items := q.items.tail ++ [value], dropped := q.dropped + 1 }, true)
    else some ({ q with items := q.items ++ [value] }, true)

/-- `none` while the caller waits; `some (_, none)` once the queue is closed and drained. -/
def pop (q : ConcurrentQueue α) : Option (ConcurrentQueue α × Option α) :=
  match q.items with
  | [] => if q.closed then some (q, none) else none
  | v :: rest => some ({ q with items := rest }, some v)

/-- The `while` loop of `pop_latest`: it discards all but the newest item and counts them. -/
def discardOlder : List α → ℕ → List α × ℕ
  | _ :: next :: rest, dropped => discardOlder (next :: rest) (dropped + 1)
  | items, dropped => (items, dropped)

/-- `none` while the caller waits; `some (_, none)` once the queue is closed and drained. -/
def popLatest (q : ConcurrentQueue α) : Option (ConcurrentQueue α × Option α) :=
  match discardOlder q.items q.dropped with
  | ([], _) => if q.closed then some (q, none) else none
  | (v :: rest, dropped) => some ({ q with items := rest, dropped := dropped }, some v)

def close (q : ConcurrentQueue α) : ConcurrentQueue α := { q with closed := true }

theorem discardOlder_snoc (xs : List α) (v : α) (dropped : ℕ) :
    discardOlder (xs ++ [v]) dropped = ([v], dropped + xs.length) := by
  induction xs generalizing dropped with
  | nil => rfl
  | cons x xs ih =>
    obtain ⟨y, ys, hys⟩ : ∃ y ys, xs ++ [v] = y :: ys := by
      cases xs <;> simp
    rw [List.cons_append, hys, discardOlder, ← hys, ih, List.length_cons]
    congr 1
    omega

/-- `pop_latest` takes the newest item and leaves nothing behind. -/
theorem popLatest_snoc (q : ConcurrentQueue α) (xs : List α) (v : α) (h : q.items = xs ++ [v]) :
    q.popLatest =
      some ({ q with items := [], dropped := q.dropped + xs.length }, some v) := by
  rw [popLatest, h, discardOlder_snoc]

theorem popLatest_nil (q : ConcurrentQueue α) (h : q.items = []) :
    q.popLatest = if q.closed then some (q, none) else none := by
  rw [popLatest, h]
  rfl

/-- A call waits, finds the queue closed and drained, or takes the newest item. -/
theorem popLatest_cases (q : ConcurrentQueue α) :
    (q.items = [] ∧ q.closed = false ∧ q.popLatest = none) ∨
    (q.items = [] ∧ q.closed = true ∧ q.popLatest = some (q, none)) ∨
    ∃ older v, q.items = older ++ [v] ∧ q.popLatest =
      some ({ q with items := [], dropped := q.dropped + older.length }, some v) := by
  rcases List.eq_nil_or_concat q.items with hnil | ⟨older, v, hitems⟩
  · have hpop := popLatest_nil q hnil
    cases hclosed : q.closed with
    | false => exact .inl ⟨hnil, rfl, by rw [hpop, hclosed]; rfl⟩
    | true => exact .inr (.inl ⟨hnil, rfl, by rw [hpop, hclosed]; rfl⟩)
  · rw [List.concat_eq_append] at hitems
    exact .inr (.inr ⟨older, v, hitems, popLatest_snoc q older v hitems⟩)

/-- The queue holds what the ledger has pending, and counts what it discarded. -/
structure Follows (q : ConcurrentQueue α) (L : Ledger α) : Prop where
  items : q.items = L.pending
  dropped : q.dropped = L.discarded.length

section Follows
variable {q : ConcurrentQueue α} {L : Ledger α}

theorem Follows.put (h : q.Follows L) (v : α) :
    ({ q with items := q.items ++ [v] } : ConcurrentQueue α).Follows (L.put v) := by
  constructor
  · show q.items ++ [v] = L.pending ++ [v]
    rw [h.items]
  · exact h.dropped

/-- Discarding the `n` oldest items and counting them. -/
theorem Follows.discard (h : q.Follows L) {n : ℕ} (hn : n ≤ q.items.length) :
    ({ q with items := q.items.drop n, dropped := q.dropped + n } : ConcurrentQueue α).Follows
      (L.discard n) := by
  constructor
  · show q.items.drop n = L.pending.drop n
    rw [h.items]
  · have hlen : n ≤ L.pending.length := h.items ▸ hn
    have hdropped := h.dropped
    simp only [Ledger.discarded_discard, List.length_append, List.length_take]
    omega

/-- Delivering the oldest item. -/
theorem Follows.deliver (h : q.Follows L) {v : α} {rest : List α} (hitems : q.items = v :: rest) :
    ({ q with items := rest } : ConcurrentQueue α).Follows (L.deliver 1) ∧
      (L.deliver 1).delivered = L.delivered ++ [v] := by
  have hpending : L.pending = v :: rest := h.items.symm.trans hitems
  refine ⟨⟨?_, ?_⟩, ?_⟩
  · show rest = L.pending.drop 1
    rw [hpending]
    rfl
  · simpa using h.dropped
  · rw [Ledger.delivered_deliver, hpending]
    rfl

/-- Discarding all but the newest item, and delivering that one. -/
theorem Follows.deliverNewest (h : q.Follows L) {older : List α} {v : α}
    (hitems : q.items = older ++ [v]) :
    ({ q with items := [], dropped := q.dropped + older.length } : ConcurrentQueue α).Follows
        ((L.discard older.length).deliver 1) ∧
      ((L.discard older.length).deliver 1).delivered = L.delivered ++ [v] := by
  have hlen : older.length ≤ q.items.length := by
    rw [hitems, List.length_append]
    omega
  have hnewest : q.items.drop older.length = [v] := by rw [hitems, List.drop_left]
  have hdelivered := (h.discard hlen).deliver hnewest
  rwa [Ledger.delivered_discard] at hdelivered

end Follows

/-- A drop-oldest `push` discards the oldest item of a full queue. -/
theorem push_follows {q : ConcurrentQueue α} {L : Ledger α} (h : q.Follows L)
    (hpolicy : q.policy = .dropOldestWhenFull) (hcap : 1 ≤ q.capacity) (v : α) :
    ∃ q', q.push v = some (q', true) ∧ q'.policy = q.policy ∧ q'.capacity = q.capacity ∧
      q'.Follows ((L.discard (if q.items.length ≥ q.capacity then 1 else 0)).put v) := by
  unfold push
  simp only [hpolicy]
  by_cases hfull : q.items.length ≥ q.capacity
  · simp only [hfull, ↓reduceIte]
    refine ⟨_, rfl, rfl, rfl, ?_⟩
    have hput := (h.discard (n := 1) (by omega)).put v
    rw [List.drop_one] at hput
    exact ⟨hput.items, hput.dropped⟩
  · simp only [hfull, ↓reduceIte]
    have hput := (h.discard (n := 0) (Nat.zero_le _)).put v
    exact ⟨_, rfl, rfl, rfl, hput.items, hput.dropped⟩

/-- `pop_latest` discards all but the newest item and delivers that one. -/
theorem popLatest_follows {q q' : ConcurrentQueue α} {L : Ledger α} (h : q.Follows L) {v : α}
    (hpop : q.popLatest = some (q', some v)) :
    L.produced.getLast? = some v ∧ q'.policy = q.policy ∧ q'.capacity = q.capacity ∧
      ∃ L' : Ledger α, q'.Follows L' ∧ L'.produced = L.produced ∧
        L'.delivered = L.delivered ++ [v] := by
  obtain ⟨_, _, hlast⟩ | ⟨_, _, hlast⟩ | ⟨older, u, hitems, hlast⟩ := q.popLatest_cases
  · simp [hlast] at hpop
  · simp [hlast] at hpop
  · rw [hlast, Option.some.injEq, Prod.mk.injEq, Option.some.injEq] at hpop
    obtain ⟨rfl, rfl⟩ := hpop
    have hpending : L.pending = older ++ [u] := h.items.symm.trans hitems
    obtain ⟨hfollows, hdelivered⟩ := h.deliverNewest hitems
    refine ⟨L.getLast?_produced hpending, rfl, rfl, _, hfollows, ?_, hdelivered⟩
    rw [Ledger.produced_deliver, Ledger.produced_discard]

/-- A closed and drained queue stays as it is. -/
theorem popLatest_closed {q q' : ConcurrentQueue α} (hpop : q.popLatest = some (q', none)) :
    q' = q := by
  obtain ⟨_, _, hlast⟩ | ⟨_, _, hlast⟩ | ⟨_, _, _, hlast⟩ := q.popLatest_cases
  · simp [hlast] at hpop
  · rw [hlast, Option.some.injEq, Prod.mk.injEq] at hpop
    exact hpop.1.symm
  · simp [hlast] at hpop

/-- A push keeps the order, whatever it drops. -/
theorem push_sublist {q q' : ConcurrentQueue α} {v : α} {b : Bool}
    (hpush : q.push v = some (q', b)) : q'.items.Sublist (q.items ++ [v]) := by
  unfold push at hpush
  split at hpush
  · split_ifs at hpush <;> obtain ⟨rfl, _⟩ := Prod.mk.inj (Option.some.inj hpush)
    · exact List.sublist_append_left _ _
    · exact List.Sublist.refl _
  · split_ifs at hpush <;> obtain ⟨rfl, _⟩ := Prod.mk.inj (Option.some.inj hpush)
    · exact (List.tail_sublist _).append (List.Sublist.refl _)
    · exact List.Sublist.refl _

theorem popLatest_sublist {q q' : ConcurrentQueue α} {v : α}
    (hpop : q.popLatest = some (q', some v)) : (v :: q'.items).Sublist q.items := by
  obtain ⟨_, _, hlast⟩ | ⟨_, _, hlast⟩ | ⟨_, _, hitems, hlast⟩ := q.popLatest_cases
  · simp [hlast] at hpop
  · simp [hlast] at hpop
  · rw [hlast, Option.some.injEq, Prod.mk.injEq, Option.some.injEq] at hpop
    obtain ⟨rfl, rfl⟩ := hpop
    rw [hitems]
    exact List.sublist_append_right _ _

theorem push_isClosed {q q' : ConcurrentQueue α} {v : α} {b : Bool}
    (hpush : q.push v = some (q', b)) : q'.closed = q.closed := by
  unfold push at hpush
  split at hpush <;> split_ifs at hpush <;>
    obtain ⟨rfl, _⟩ := Prod.mk.inj (Option.some.inj hpush) <;> rfl

theorem popLatest_isClosed {q q' : ConcurrentQueue α} {item : Option α}
    (hpop : q.popLatest = some (q', item)) :
    q'.closed = q.closed ∧ (item = none → q.closed = true) := by
  obtain ⟨_, _, hlast⟩ | ⟨_, hclosed, hlast⟩ | ⟨_, _, _, hlast⟩ := q.popLatest_cases
  · simp [hlast] at hpop
  · rw [hlast] at hpop
    obtain ⟨rfl, rfl⟩ := Prod.mk.inj (Option.some.inj hpop)
    exact ⟨rfl, fun _ => hclosed⟩
  · rw [hlast] at hpop
    obtain ⟨rfl, rfl⟩ := Prod.mk.inj (Option.some.inj hpop)
    exact ⟨rfl, nofun⟩

/-- A closed queue lets nobody wait. -/
theorem popLatest_of_closed {q : ConcurrentQueue α} (h : q.closed = true) : q.popLatest ≠ none := by
  obtain ⟨_, hopen, _⟩ | ⟨_, _, hlast⟩ | ⟨_, _, _, hlast⟩ := q.popLatest_cases
  · simp [h] at hopen
  · simp [hlast]
  · simp [hlast]

end ConcurrentQueue
end ForkliftSafety
