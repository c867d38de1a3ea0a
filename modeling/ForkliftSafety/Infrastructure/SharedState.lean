import Mathlib.Logic.Function.Basic
import Mathlib.Algebra.Group.Nat.Even
import Mathlib.Data.List.Basic

/-! `SharedState` of `MjpegStreamServer`: the newest frame and the newest detections of each
camera. Each operation runs under one mutex. -/
namespace ForkliftSafety

/-- The frames of `SharedState`. Frames are shared pointers, so the model leaves their type open. -/
structure SharedFrames (φ : Type*) where
  latest : List Char → Option φ := fun _ => none
  cameraOrder : List (List Char) := []

namespace SharedFrames
variable {φ : Type*}

def latestFor (s : SharedFrames φ) (cam : List Char) : Option φ :=
  match cam, s.cameraOrder with
  | [], front :: _ => s.latest front
  | _, _ => s.latest cam

def store (s : SharedFrames φ) (cam : List Char) (jpeg : φ) : SharedFrames φ where
  latest := Function.update s.latest cam (some jpeg)
  cameraOrder := if (s.latest cam).isNone then s.cameraOrder ++ [cam] else s.cameraOrder

theorem latest_store (s : SharedFrames φ) (cam c : List Char) (jpeg : φ) :
    (s.store cam jpeg).latest c = if c = cam then some jpeg else s.latest c :=
  Function.update_apply ..

/-- A camera with a name is looked up under it. -/
theorem latestFor_of_ne_nil (s : SharedFrames φ) {cam : List Char} (h : cam ≠ []) :
    s.latestFor cam = s.latest cam := by
  cases cam with
  | nil => contradiction
  | cons c cam => rfl

/-- The empty name stands for the camera that was stored first. -/
theorem latestFor_nil (s : SharedFrames φ) :
    s.latestFor [] = s.latest (s.cameraOrder.head?.getD []) := by
  unfold latestFor
  cases s.cameraOrder <;> rfl

end SharedFrames

/-- `std::uint64_t` counters. -/
def incrementSeq (seq : ℕ) : ℕ := (seq + 1) % 2 ^ 64

structure DetEntry where
  json : List Char := []
  seq : ℕ := 0
  deriving DecidableEq, Repr

/-- A write into a map that is kept as a list of its entries. -/
def put (cam : List Char) (e : DetEntry) :
    List (List Char × DetEntry) → List (List Char × DetEntry)
  | [] => [(cam, e)]
  | (c, old) :: rest => if c = cam then (c, e) :: rest else (c, old) :: put cam e rest

theorem mem_keys_put {cam c : List Char} {e : DetEntry} {entries : List (List Char × DetEntry)} :
    c ∈ (put cam e entries).map Prod.fst ↔ c = cam ∨ c ∈ entries.map Prod.fst := by
  induction entries with
  | nil => simp [put]
  | cons head rest ih =>
    obtain ⟨d, old⟩ := head
    unfold put
    split_ifs with hd
    · subst hd
      simp
    · rw [List.map_cons, List.mem_cons, ih, List.map_cons, List.mem_cons]
      tauto

theorem keys_put_nodup {cam : List Char} {e : DetEntry} {entries : List (List Char × DetEntry)}
    (h : (entries.map Prod.fst).Nodup) : ((put cam e entries).map Prod.fst).Nodup := by
  induction entries with
  | nil => simp [put]
  | cons head rest ih =>
    obtain ⟨d, old⟩ := head
    rw [List.map_cons, List.nodup_cons] at h
    unfold put
    split_ifs with hd
    · rw [List.map_cons, List.nodup_cons]
      exact h
    · rw [List.map_cons, List.nodup_cons, mem_keys_put, not_or]
      exact ⟨⟨hd, h.1⟩, ih h.2⟩

theorem lookup_put (cam c : List Char) (e : DetEntry) (entries : List (List Char × DetEntry)) :
    (put cam e entries).lookup c = if c = cam then some e else entries.lookup c := by
  induction entries with
  | nil =>
    by_cases h : c = cam
    · simp [put, h]
    · simp [put, List.lookup_cons, beq_false_of_ne h, h]
  | cons head rest ih =>
    obtain ⟨d, old⟩ := head
    unfold put
    by_cases hd : d = cam
    · subst hd
      by_cases h : c = d
      · simp [h]
      · simp [List.lookup_cons, beq_false_of_ne h, h]
    · rw [if_neg hd]
      by_cases hcd : c = d
      · subst hcd
        simp [hd]
      · simp [List.lookup_cons, beq_false_of_ne hcd, ih]

/-- Where no key occurs twice, a key has one entry, the one that a lookup finds. -/
theorem filter_key_eq {entries : List (List Char × DetEntry)} (h : (entries.map Prod.fst).Nodup)
    (c : List Char) :
    (entries.filter fun e => e.1 = c) = ((entries.lookup c).map (Prod.mk c)).toList := by
  induction entries with
  | nil => rfl
  | cons head rest ih =>
    obtain ⟨d, e⟩ := head
    rw [List.map_cons, List.nodup_cons] at h
    by_cases hc : c = d
    · subst hc
      have hrest : (rest.filter fun e => e.1 = c) = [] := by
        rw [List.filter_eq_nil_iff]
        intro p hp
        simp only [decide_eq_true_eq]
        rintro rfl
        exact h.1 (List.mem_map.mpr ⟨p, hp, rfl⟩)
      simp [hrest]
    · have hd : ¬ d = c := fun hdc => hc hdc.symm
      rw [List.filter_cons_of_neg (by simpa using hd), ih h.2]
      simp [List.lookup_cons, beq_false_of_ne hc]

/-- The detections of `SharedState`. The order in which the code's hash map is iterated is left
open by the language; here it is the order of insertion. -/
structure SharedDets where
  latestDets : List (List Char × DetEntry) := []
  uniqueKeys : (latestDets.map Prod.fst).Nodup := by simp
  globalDetSeq : ℕ := 0

namespace SharedDets

theorem nodup_keys_nil : (([] : List (List Char × DetEntry)).map Prod.fst).Nodup := List.nodup_nil

/-- No detections have been published. -/
abbrev empty : SharedDets where
  uniqueKeys := nodup_keys_nil

/-- `latest_dets[cam]`: a missing entry is a default one. -/
def entry (d : SharedDets) (cam : List Char) : DetEntry := (d.latestDets.lookup cam).getD {}

def storeDets (d : SharedDets) (cam json : List Char) : SharedDets where
  latestDets := put cam { json := json, seq := incrementSeq (d.entry cam).seq } d.latestDets
  uniqueKeys := keys_put_nodup d.uniqueKeys
  globalDetSeq := incrementSeq d.globalDetSeq

/-- `{json, seq}`. -/
def latestDetsFor (d : SharedDets) (cam : List Char) : List Char × ℕ :=
  match d.latestDets.lookup cam with
  | none => ([], 0)
  | some e => (e.json, e.seq)

def dataLine (json : List Char) : List Char := "data: ".toList ++ json ++ "\n\n".toList

/-- The loop of `latest_dets_all`. -/
def allLoop : List Char → List (List Char × DetEntry) → List Char
  | out, [] => out
  | out, (_, e) :: rest => if e.json.isEmpty then allLoop out rest
    else allLoop (out ++ dataLine e.json) rest

def latestDetsAll (d : SharedDets) : List Char × ℕ := (allLoop [] d.latestDets, d.globalDetSeq)

theorem latestDetsFor_eq (d : SharedDets) (cam : List Char) :
    d.latestDetsFor cam = ((d.entry cam).json, (d.entry cam).seq) := by
  unfold latestDetsFor entry
  cases d.latestDets.lookup cam <;> rfl

/-- An update changes the entry of its camera only. -/
theorem entry_storeDets (d : SharedDets) (cam json c : List Char) :
    (d.storeDets cam json).entry c =
      if c = cam then { json := json, seq := incrementSeq (d.entry cam).seq } else d.entry c := by
  unfold entry storeDets
  rw [lookup_put]
  split_ifs <;> rfl

end SharedDets
end ForkliftSafety
