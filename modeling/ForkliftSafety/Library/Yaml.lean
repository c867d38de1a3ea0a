import Mathlib.Algebra.Ring.Int.Defs
import Mathlib.Data.Rat.Defs
import Mathlib.Data.List.Forall2
import Mathlib.Tactic.Tauto

/-! YAML node trees as yaml-cpp presents them, and the rules for readers that stop at the first
exception. -/
namespace Yaml

/-- `undefined` is what a missing key leads to. -/
inductive Node where
  | undefined
  | null
  | scalar (text : String)
  | sequence (items : List Node)
  | map (entries : List (Node × Node))

namespace Node

def isDefined : Node → Bool
  | .undefined => false
  | _ => true

theorem eq_undefined {n : Node} (h : n.isDefined = false) : n = .undefined := by
  cases n with
  | undefined => rfl
  | _ => contradiction

/-- The value of the first entry with the key. -/
def find (key : String) : List (Node × Node) → Node
  | [] => .undefined
  | (.scalar text, v) :: rest => if text = key then v else find key rest
  | _ :: rest => find key rest

def get (n : Node) (key : String) : Node :=
  match n with
  | .map entries => find key entries
  | _ => .undefined

/-- What a loop over a node visits. The visits of a map have keys and values, but are no nodes. -/
def items : Node → List Node
  | .sequence items => items
  | .map entries => entries.map fun _ => .undefined
  | _ => []

end Node

/-- The library's own functions, with `what()` of the exception where they throw. -/
structure Reader where
  loadFile : String → Except String Node
  asInt : Node → Except String ℤ
  asFloat : Node → Except String ℚ
  asBool : Node → Except String Bool
  asString : Node → Except String String
  subscriptError : Node → String → String
  /-- `as<int>` yields an `int`. -/
  asInt_range : ∀ n i, asInt n = .ok i → -2 ^ 31 ≤ i ∧ i < 2 ^ 31

/-- `n[key]`. -/
def Reader.index (Y : Reader) (n : Node) (key : String) : Except String Node :=
  match n with
  | .undefined | .scalar _ => .error (Y.subscriptError n key)
  | _ => .ok (n.get key)

theorem Reader.index_ok {Y : Reader} {n v : Node} {key : String} (h : Y.index n key = .ok v) :
    v = n.get key := by
  unfold index at h
  split at h
  · contradiction
  · contradiction
  · exact (Except.ok.inj h).symm

section Sequence
variable {ε α β : Type}

theorem bind_ok {x : Except ε α} {f : α → Except ε β} {b : β} (h : x >>= f = .ok b) :
    ∃ a, x = .ok a ∧ f a = .ok b := by
  cases x with
  | error e => contradiction
  | ok a => exact ⟨a, rfl, h⟩

theorem mapM_ok {f : α → Except ε β} {xs : List α} {ys : List β} (h : xs.mapM f = .ok ys) :
    List.Forall₂ (fun x y => f x = .ok y) xs ys := by
  induction xs generalizing ys with
  | nil =>
    rw [List.mapM_nil] at h
    rw [← Except.ok.inj h]
    exact .nil
  | cons x xs ih =>
    rw [List.mapM_cons] at h
    obtain ⟨y, hy, hrest⟩ := bind_ok h
    obtain ⟨ys', hys, hcons⟩ := bind_ok hrest
    rw [← Except.ok.inj hcons]
    exact .cons hy (ih hys)

/-- Pairs that are related one way are related another way when the first of each says so. -/
theorem forall₂_and_right_iff {R S : α → β → Prop} {P : β → Prop} {Q : α → Prop}
    (h : ∀ x y, R x y → (S x y ∧ P y ↔ Q x)) {xs : List α} {ys : List β}
    (hxs : List.Forall₂ R xs ys) :
    (List.Forall₂ S xs ys ∧ ∀ y ∈ ys, P y) ↔ ∀ x ∈ xs, Q x := by
  induction hxs with
  | nil => simp
  | cons hxy _ ih =>
    simp only [List.forall₂_cons, List.forall_mem_cons, ← ih, ← h _ _ hxy]
    tauto

theorem map_eq_of_forall₂ {γ : Type} {f : β → γ} {g : α → γ} {xs : List α} {ys : List β}
    (h : List.Forall₂ (fun x y => f y = g x) xs ys) : ys.map f = xs.map g := by
  induction h with
  | nil => rfl
  | cons hxy _ ih => rw [List.map_cons, List.map_cons, hxy, ih]

end Sequence

end Yaml
