import Mathlib.Data.List.Basic
import Mathlib.Logic.Function.Basic
import ForkliftSafety.Library.Transition

/-! Machines that run side by side and hand what they emit to one more machine. -/
namespace Transition

/-- The steps of source `i` that emit a value are steps of the sink as well, fed with the value. The
sink takes its `own` steps by itself. -/
structure Funnel (ι : Type*) (σ α : ι → Type*) (τ β ο : Type*) where
  sourceStart : ∀ i, σ i
  sourceNext : ∀ i, σ i → α i → Option (σ i)
  emits : ∀ i, σ i → α i → Option ο
  sinkStart : τ
  sinkNext : τ → β → Option τ
  feed : ο → β
  own : β → Bool

namespace Funnel

/-- `log` says what was handed over, and by which source. -/
structure State (ι : Type*) (σ : ι → Type*) (τ ο : Type*) where
  sources : ∀ i, σ i
  sink : τ
  log : List (ι × ο) := []

inductive Move (ι : Type*) (α : ι → Type*) (β : Type*) where
  | source (i : ι) (a : α i)
  | sink (b : β)

variable {ι τ β ο γ : Type*} {σ α : ι → Type*} [DecidableEq ι] (F : Funnel ι σ α τ β ο)

def hand (i : ι) (sink : τ) (log : List (ι × ο)) : Option ο → Option (τ × List (ι × ο))
  | none => some (sink, log)
  | some o => (F.sinkNext sink (F.feed o)).map fun t => (t, log ++ [(i, o)])

def next (s : State ι σ τ ο) : Move ι α β → Option (State ι σ τ ο)
  | .source i a =>
    (F.sourceNext i (s.sources i) a).bind fun x =>
      (F.hand i s.sink s.log (F.emits i (s.sources i) a)).map fun r =>
        ⟨Function.update s.sources i x, r.1, r.2⟩
  | .sink b =>
    if F.own b then (F.sinkNext s.sink b).map fun t => { s with sink := t } else none

def system : LTS (State ι σ τ ο) (Move ι α β) :=
  .ofNext { sources := F.sourceStart, sink := F.sinkStart } F.next

/-- The values that a source of the log has handed over. -/
def State.handed (s : State ι σ τ ο) (i : ι) : List ο :=
  (s.log.filter fun x => x.1 = i).map Prod.snd

/-- What a view finds of the log, with the sources. -/
def State.seen (s : State ι σ τ ο) (view : ο → Option γ) : List (ι × γ) :=
  s.log.filterMap fun x => (view x.2).map (Prod.mk x.1)

/-- The values of one source among those of several. -/
def ofSource (i : ι) (xs : List (ι × γ)) : List γ := (xs.filter fun x => x.1 = i).map Prod.snd

variable {F} {s t : State ι σ τ ο}

/-- A source moves and the sink takes what it emits, or the sink moves by itself. -/
inductive Stepped (F : Funnel ι σ α τ β ο) (s t : State ι σ τ ο) : Prop
  | source (i : ι) (a : α i) (x : σ i) (hnext : F.sourceNext i (s.sources i) a = some x)
      (hsources : t.sources = Function.update s.sources i x)
      (hlog : t.log = s.log ++ (F.emits i (s.sources i) a).toList.map (Prod.mk i))
      (hsink : (F.emits i (s.sources i) a = none ∧ t.sink = s.sink) ∨
        ∃ o, F.emits i (s.sources i) a = some o ∧ F.sinkNext s.sink (F.feed o) = some t.sink)
  | sink (b : β) (hown : F.own b = true) (hnext : F.sinkNext s.sink b = some t.sink)
      (hsources : t.sources = s.sources) (hlog : t.log = s.log)

theorem stepped_of_next {m : Move ι α β} (h : F.next s m = some t) : Stepped F s t := by
  cases m with
  | source i a =>
    obtain ⟨x, hx, hrest⟩ := Option.bind_eq_some_iff.mp h
    obtain ⟨r, hr, rfl⟩ := Option.map_eq_some_iff.mp hrest
    cases hemit : F.emits i (s.sources i) a with
    | none =>
      rw [hemit] at hr
      obtain rfl := Option.some.inj hr
      exact .source i a x hx rfl (by simp [hemit]) (.inl ⟨hemit, rfl⟩)
    | some o =>
      rw [hemit] at hr
      obtain ⟨u, hu, rfl⟩ := Option.map_eq_some_iff.mp hr
      exact .source i a x hx rfl (by simp [hemit]) (.inr ⟨o, hemit, hu⟩)
  | sink b =>
    simp only [next, Option.ite_none_right_eq_some, Option.map_eq_some_iff] at h
    obtain ⟨hown, u, hu, rfl⟩ := h
    exact .sink b hown hu rfl rfl

/-- What a run does to one source is a run of that source. -/
theorem source_reachable (h : F.system.Reachable s) (i : ι) :
    (LTS.ofNext (F.sourceStart i) (F.sourceNext i)).Reachable (s.sources i) := by
  apply h.invariant (I := fun s =>
    (LTS.ofNext (F.sourceStart i) (F.sourceNext i)).Reachable (s.sources i)) LTS.Reachable.start
  intro s m t _ hs hstep
  cases stepped_of_next hstep with
  | source j a x hnext hsources _ _ =>
    rw [hsources]
    by_cases hij : i = j
    · subst hij
      rw [Function.update_self]
      exact hs.step hnext
    · rw [Function.update_of_ne hij]
      exact hs
  | sink _ _ _ hsources _ =>
    rw [hsources]
    exact hs

theorem sink_reachable (h : F.system.Reachable s) :
    (LTS.ofNext F.sinkStart F.sinkNext).Reachable s.sink := by
  apply h.invariant (I := fun s => (LTS.ofNext F.sinkStart F.sinkNext).Reachable s.sink)
    LTS.Reachable.start
  intro s m t _ hs hstep
  cases stepped_of_next hstep with
  | source _ _ _ _ _ _ hsink =>
    rcases hsink with ⟨_, hsame⟩ | ⟨o, _, hnext⟩
    · rw [hsame]
      exact hs
    · exact hs.step hnext
  | sink _ _ hnext _ _ => exact hs.step hnext

/-- A source that keeps a record of some of what it emits has handed over just that. -/
theorem handed_filterMap_eq (i : ι) (view : ο → Option γ) (record : σ i → List γ)
    (h0 : record (F.sourceStart i) = [])
    (hnext : ∀ x a y, F.sourceNext i x a = some y →
      record y = record x ++ (F.emits i x a).toList.filterMap view)
    (h : F.system.Reachable s) : (s.handed i).filterMap view = record (s.sources i) := by
  apply h.invariant (I := fun s => (s.handed i).filterMap view = record (s.sources i)) h0.symm
  intro s m t _ hs hstep
  unfold State.handed at hs ⊢
  cases stepped_of_next hstep with
  | source j a x hx hsources hlog _ =>
    rw [hsources, hlog, List.filter_append, List.map_append, List.filterMap_append, hs]
    by_cases hij : i = j
    · subst hij
      rw [Function.update_self, hnext _ a x hx]
      cases F.emits i (s.sources i) a <;> simp
    · rw [Function.update_of_ne hij]
      cases F.emits j (s.sources j) a <;> simp [Ne.symm hij]
  | sink _ _ _ hsources hlog =>
    rw [hsources, hlog]
    exact hs

/-- With a record of all of it, it has handed over the record. -/
theorem handed_eq (i : ι) (record : σ i → List ο) (h0 : record (F.sourceStart i) = [])
    (hnext : ∀ x a y, F.sourceNext i x a = some y →
      record y = record x ++ (F.emits i x a).toList)
    (h : F.system.Reachable s) : s.handed i = record (s.sources i) := by
  have hall := handed_filterMap_eq i some record h0 (by simpa using hnext) h
  rwa [List.filterMap_some] at hall

/-- A sink that keeps a record of some of what it is fed has recorded what the sources handed
over. -/
theorem fed_filterMap_eq (record : τ → List γ) (view : ο → Option γ)
    (h0 : record F.sinkStart = [])
    (hfeed : ∀ u o v, F.sinkNext u (F.feed o) = some v →
      record v = record u ++ (view o).toList)
    (hown : ∀ u b v, F.own b = true → F.sinkNext u b = some v → record v = record u)
    (h : F.system.Reachable s) : record s.sink = s.log.filterMap fun x => view x.2 := by
  apply h.invariant (I := fun s => record s.sink = s.log.filterMap fun x => view x.2) h0
  intro s m t _ hs hstep
  cases stepped_of_next hstep with
  | source i a x _ _ hlog hsink =>
    rcases hsink with ⟨hnone, hsame⟩ | ⟨o, hsome, hnext⟩
    · rw [hsame, hlog, hnone, hs]
      simp
    · rw [hfeed _ o _ hnext, hlog, hsome, hs, List.filterMap_append]
      cases hview : view o <;> simp [hview]
  | sink b hb hnext _ hlog =>
    rw [hown _ b _ hb hnext, hlog]
    exact hs

theorem fed_eq (record : τ → List γ) (view : ο → γ) (h0 : record F.sinkStart = [])
    (hfeed : ∀ u o v, F.sinkNext u (F.feed o) = some v → record v = record u ++ [view o])
    (hown : ∀ u b v, F.own b = true → F.sinkNext u b = some v → record v = record u)
    (h : F.system.Reachable s) : record s.sink = s.log.map fun x => view x.2 := by
  rw [fed_filterMap_eq record (fun o => some (view o)) h0 hfeed hown h, List.filterMap_eq_map']

omit [DecidableEq ι] in
theorem seen_values (view : ο → Option γ) :
    (s.seen view).map Prod.snd = s.log.filterMap fun x => view x.2 := by
  unfold State.seen
  rw [List.map_filterMap]
  congr 1
  funext x
  rw [Option.map_map]
  exact Option.map_id'

theorem ofSource_seen (i : ι) (view : ο → Option γ) :
    ofSource i (s.seen view) = (s.handed i).filterMap view := by
  unfold State.seen State.handed ofSource
  induction s.log with
  | nil => rfl
  | cons x log ih =>
    by_cases hsource : x.1 = i
    · cases hview : view x.2 <;> simp [hsource, hview, ih]
    · cases hview : view x.2 <;> simp [hsource, hview, ih]

/-- Everything of the log belongs to some source. -/
theorem mem_handed {x : ι × ο} (h : x ∈ s.log) : x.2 ∈ s.handed x.1 :=
  List.mem_map_of_mem (List.mem_filter.mpr ⟨h, decide_eq_true rfl⟩)

end Funnel
end Transition
