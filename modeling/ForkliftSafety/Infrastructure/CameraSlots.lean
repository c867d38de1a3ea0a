import ForkliftSafety.Infrastructure.CameraListing
import ForkliftSafety.Library.Scatter
import ForkliftSafety.Library.Transition

/-! The slots of the dashboard, which `loadCameras` fills from the list of the cameras while the
server goes on storing frames. Fetches of the list may overtake each other. -/
namespace ForkliftSafety
open Json

namespace Dashboard

def maxCameras : ℕ := 4

/-- The operator `===`. Arrays and objects are equal to themselves only, and those that were read
from another text are not the same. -/
def strictEq : Value → Value → Bool
  | .null, .null => true
  | .bool b, .bool c => b == c
  | .number x, .number y => x == y
  | .string s, .string t => s == t
  | _, _ => false

theorem eq_of_strictEq {v w : Value} (h : strictEq v w = true) : v = w := by
  cases v <;> cases w <;> simp_all [strictEq]

/-- A slot is its `camId`, which is `null` until a camera is assigned to it. -/
def assignCamera (slots : List Value) (idx : ℕ) (camId : Value) : List Value := slots.set idx camId

/-- `if (slots[idx].camId !== id) assignCamera(idx, id);` -/
def fillSlot (slots : List Value) (idx : ℕ) (id : Value) : List Value :=
  if strictEq (slots.getD idx .null) id then slots else assignCamera slots idx id

/-- The loop of `loadCameras`. -/
def fillSlots (slots cameras : List Value) : List Value :=
  (cameras.take maxCameras).zipIdx.foldl (fun slots entry => fillSlot slots entry.2 entry.1) slots

/-- What `loadCameras` does with the body of an answer. -/
def showCameras (slots : List Value) (body : List Char) : List Value :=
  match parse body with
  | some (.array cameras) => fillSlots slots cameras
  | _ => slots

theorem fillSlot_eq (slots : List Value) (idx : ℕ) (id : Value) :
    fillSlot slots idx id = slots.set idx id := by
  unfold fillSlot
  split_ifs with hsame
  · have hid : slots.getD idx .null = id := eq_of_strictEq hsame
    apply List.ext_getElem? fun i => ?_
    rw [List.getElem?_set]
    split_ifs with hi hlt
    · subst hi
      rw [List.getD_eq_getElem?_getD, List.getElem?_eq_getElem hlt, Option.getD_some] at hid
      rw [List.getElem?_eq_getElem hlt, hid]
    · rw [← hi]
      exact List.getElem?_eq_none (by omega)
    · rfl
  · rfl

theorem fillSlots_eq (slots cameras : List Value) :
    fillSlots slots cameras =
      Scatter.write slots ((cameras.take maxCameras).zipIdx.map Prod.swap) := by
  simp only [fillSlots, fillSlot_eq, Scatter.write, List.foldl_map, Prod.fst_swap, Prod.snd_swap]

theorem length_fillSlots (slots cameras : List Value) :
    (fillSlots slots cameras).length = slots.length := by
  rw [fillSlots_eq, Scatter.length_write]

/-- A slot has its camera of the list, or what it had when the list ends before it. -/
theorem getElem?_fillSlots {slots : List Value} (hslots : slots.length = maxCameras)
    (cameras : List Value) {i : ℕ} (hi : i < maxCameras) :
    (fillSlots slots cameras)[i]? = cameras[i]?.or slots[i]? := by
  have hkeys : ((cameras.take maxCameras).zipIdx.map Prod.swap).map Prod.fst =
      List.range' 0 (cameras.take maxCameras).length := by
    rw [List.map_map, ← List.zipIdx_map_snd]
    rfl
  rw [fillSlots_eq]
  cases hcamera : cameras[i]? with
  | none =>
    have hout : i ∉ ((cameras.take maxCameras).zipIdx.map Prod.swap).map Prod.fst := by
      rw [hkeys, List.mem_range'_1, List.length_take]
      have hlength := List.getElem?_eq_none_iff.mp hcamera
      omega
    rw [Scatter.getElem?_write_of_notMem hout, Option.none_or]
  | some v =>
    have hin : (i, v) ∈ (cameras.take maxCameras).zipIdx.map Prod.swap := by
      refine List.mem_map.mpr ⟨(v, i), List.mem_zipIdx_iff_getElem?.mpr ?_, rfl⟩
      rw [List.getElem?_take_of_lt hi, hcamera]
    have hnodup : (((cameras.take maxCameras).zipIdx.map Prod.swap).map Prod.fst).Nodup := by
      rw [hkeys]
      exact List.nodup_range'
    rw [Option.some_or]
    exact Scatter.getElem?_write hnodup hin (by omega)

/-- What a fetch of the list is answered with. -/
def answer (cameraOrder : List (List Char)) : Option (List Char) :=
  match route cameraOrder "/cameras".toList with
  | some (.sendString body _) => some body
  | _ => none

theorem answer_eq (cameraOrder : List (List Char)) :
    answer cameraOrder = some (camerasJson cameraOrder) := rfl

/-- A dashboard that is open while the server runs. A fetch has no body until it is answered. -/
structure Watching (φ : Type*) where
  frames : SharedFrames φ := {}
  fetches : List (Option (List Char)) := []
  slots : List Value := List.replicate maxCameras .null

/-- The server stores a frame or answers a fetch, `loadCameras` begins, and it ends with the body of
its fetch or with the exception that it catches. -/
inductive WatchEvent (φ : Type*) where
  | store (cam : List Char) (jpeg : φ)
  | loadCameras
  | answered (k : ℕ)
  | loaded (k : ℕ)
  | failed (k : ℕ)

namespace Watching
variable {φ : Type*}

def next (s : Watching φ) : WatchEvent φ → Option (Watching φ)
  | .store cam jpeg => some { s with frames := s.frames.store cam jpeg }
  | .loadCameras => some { s with fetches := s.fetches ++ [none] }
  | .answered k =>
    match s.fetches[k]? with
    | some none => some { s with fetches := s.fetches.set k (answer s.frames.cameraOrder) }
    | _ => none
  | .loaded k =>
    match s.fetches[k]? with
    | some (some body) =>
      some { s with fetches := s.fetches.eraseIdx k, slots := showCameras s.slots body }
    | _ => none
  | .failed k =>
    if k < s.fetches.length then some { s with fetches := s.fetches.eraseIdx k } else none

def system (φ : Type*) : Transition.LTS (Watching φ) (WatchEvent φ) := .ofNext {} next

/-- The values that are read from the list of the cameras, now or earlier in the run. -/
def Lists (s : Watching φ) (cameras : List Value) : Prop :=
  ∃ names, names <+: s.frames.cameraOrder ∧ parse (camerasJson names) = some (.array cameras)

/-- What a list has at a place, a longer one has there too. -/
theorem eq_of_isPrefix {vs ws : List Value} (h : vs <+: ws) {i : ℕ} {v w : Value}
    (hv : vs[i]? = some v) (hw : ws[i]? = some w) : v = w := by
  obtain ⟨more, rfl⟩ := h
  rw [List.getElem?_append_left (List.getElem?_eq_some_iff.mp hv).1, hv] at hw
  exact Option.some.inj hw

/-- Two lists of one run do not disagree about a place. -/
theorem Lists.agree {s : Watching φ} {vs ws : List Value} (hvs : s.Lists vs) (hws : s.Lists ws)
    {i : ℕ} {v w : Value} (hv : vs[i]? = some v) (hw : ws[i]? = some w) : v = w := by
  obtain ⟨names, hnames, hread⟩ := hvs
  obtain ⟨names', hnames', hread'⟩ := hws
  rcases List.prefix_or_prefix_of_prefix hnames hnames' with h | h
  · exact eq_of_isPrefix (camerasJson_grows h hread hread') hv hw
  · exact (eq_of_isPrefix (camerasJson_grows h hread' hread) hw hv).symm

/-- The answers on their way are lists of this run, and so is what the slots were filled from. -/
structure Consistent (s : Watching φ) : Prop where
  length : s.slots.length = maxCameras
  answers : ∀ body, some body ∈ s.fetches →
    ∃ names, names <+: s.frames.cameraOrder ∧ body = camerasJson names
  filled : ∀ (i : ℕ) (v : Value), s.slots[i]? = some v → v ≠ .null → ∃ cameras, s.Lists cameras ∧
    cameras[i]? = some v

/-- A slot that has a camera has the same one later. -/
def Keeps (s t : Watching φ) : Prop :=
  ∀ (i : ℕ) (v : Value), s.slots[i]? = some v → v ≠ .null → t.slots[i]? = some v

/-- A step shows an answer in the slots or leaves them as they are. The list grows at most, and a
new answer is the list as it is. -/
theorem next_cases {s t : Watching φ} {e : WatchEvent φ} (h : next s e = some t) :
    (t.slots = s.slots ∧ s.frames.cameraOrder <+: t.frames.cameraOrder ∧
      ∀ body, some body ∈ t.fetches →
        some body ∈ s.fetches ∨ body = camerasJson s.frames.cameraOrder) ∨
    ∃ k body, s.fetches[k]? = some (some body) ∧
      t = { s with fetches := s.fetches.eraseIdx k, slots := showCameras s.slots body } := by
  cases e with
  | store cam jpeg =>
    obtain rfl := Option.some.inj h
    exact .inl ⟨rfl, s.frames.store_grows cam jpeg, fun _ => .inl⟩
  | loadCameras =>
    obtain rfl := Option.some.inj h
    refine .inl ⟨rfl, List.prefix_rfl, fun body hbody => .inl ?_⟩
    simpa using hbody
  | answered k =>
    simp only [next] at h
    split at h
    · obtain rfl := Option.some.inj h
      refine .inl ⟨rfl, List.prefix_rfl, fun body hbody => ?_⟩
      refine (List.mem_or_eq_of_mem_set hbody).imp id fun hnew => ?_
      rw [answer_eq] at hnew
      exact Option.some.inj hnew
    · contradiction
  | loaded k =>
    simp only [next] at h
    split at h
    · rename_i body hfetch
      obtain rfl := Option.some.inj h
      exact .inr ⟨k, body, hfetch, rfl⟩
    · contradiction
  | failed k =>
    simp only [next, Option.ite_none_right_eq_some] at h
    obtain rfl := Option.some.inj h.2
    exact .inl ⟨rfl, List.prefix_rfl, fun body hbody => .inl (List.mem_of_mem_eraseIdx hbody)⟩

/-- A step that shows nothing. -/
theorem Consistent.waits {s t : Watching φ} (h : Consistent s) (hslots : t.slots = s.slots)
    (hgrows : s.frames.cameraOrder <+: t.frames.cameraOrder)
    (hanswers : ∀ body, some body ∈ t.fetches →
      some body ∈ s.fetches ∨ body = camerasJson s.frames.cameraOrder) :
    Consistent t ∧ Keeps s t := by
  refine ⟨⟨hslots ▸ h.length, fun body hbody => ?_, fun i v hv hnull => ?_⟩,
    fun i v hv _ => hslots ▸ hv⟩
  · rcases hanswers body hbody with hold | rfl
    · obtain ⟨names, hnames, hbody⟩ := h.answers body hold
      exact ⟨names, hnames.trans hgrows, hbody⟩
    · exact ⟨_, hgrows, rfl⟩
  · obtain ⟨cameras, ⟨names, hnames, hread⟩, hthere⟩ := h.filled i v (hslots ▸ hv) hnull
    exact ⟨cameras, ⟨names, hnames.trans hgrows, hread⟩, hthere⟩

/-- An answer fills the slots that its list reaches, and those that have a camera with the one they
have: the list that it came from and this one do not disagree. -/
theorem Consistent.fill {s : Watching φ} (h : Consistent s) {cameras : List Value}
    (hlists : s.Lists cameras) (fetches : List (Option (List Char)))
    (hfetches : fetches ⊆ s.fetches) :
    Consistent { s with fetches := fetches, slots := fillSlots s.slots cameras } ∧
      Keeps s { s with fetches := fetches, slots := fillSlots s.slots cameras } := by
  have hlength : (fillSlots s.slots cameras).length = maxCameras := by
    rw [length_fillSlots, h.length]
  refine ⟨⟨hlength, fun body hbody => h.answers body (hfetches hbody), fun i v hv hnull => ?_⟩,
    fun i v hv hnull => ?_⟩
  · have hi : i < maxCameras := hlength ▸ (List.getElem?_eq_some_iff.mp hv).1
    rw [getElem?_fillSlots h.length cameras hi, Option.or_eq_some_iff] at hv
    rcases hv with hnew | ⟨_, hold⟩
    · exact ⟨cameras, hlists, hnew⟩
    · exact h.filled i v hold hnull
  · have hi : i < maxCameras := h.length ▸ (List.getElem?_eq_some_iff.mp hv).1
    obtain ⟨earlier, hearlier, hthere⟩ := h.filled i v hv hnull
    show (fillSlots s.slots cameras)[i]? = some v
    rw [getElem?_fillSlots h.length cameras hi]
    cases hnew : cameras[i]? with
    | none => rw [Option.none_or, hv]
    | some w => rw [Option.some_or, hlists.agree hearlier hnew hthere]

theorem next_keeps {s t : Watching φ} {e : WatchEvent φ} (h : Consistent s)
    (hstep : next s e = some t) : Consistent t ∧ Keeps s t := by
  rcases next_cases hstep with ⟨hslots, hgrows, hanswers⟩ | ⟨k, body, hfetch, rfl⟩
  · exact h.waits hslots hgrows hanswers
  · have hfewer : s.fetches.eraseIdx k ⊆ s.fetches := (List.eraseIdx_sublist _ k).subset
    unfold showCameras
    split
    · rename_i cameras hread
      obtain ⟨names, hnames, rfl⟩ := h.answers body (List.mem_of_getElem? hfetch)
      exact h.fill ⟨names, hnames, hread⟩ _ hfewer
    · exact h.waits rfl List.prefix_rfl fun body hbody => .inl (hfewer hbody)

theorem system_consistent {s : Watching φ} (h : (system φ).Reachable s) : Consistent s := by
  apply h.invariant
  · refine ⟨rfl, fun body hbody => ?_, fun i v hv hnull => ?_⟩
    · exact absurd hbody List.not_mem_nil
    · exact absurd (List.eq_of_mem_replicate (List.mem_of_getElem? hv)) hnull
  · intro s e t _ hs hstep
    exact (next_keeps hs hstep).1

/-- What a run keeps of the slots. -/
theorem path_keeps {s t : Watching φ} (hs : (system φ).Reachable s) (h : (system φ).Path s t) :
    Keeps s t := by
  have hboth : Consistent t ∧ Keeps s t := by
    apply h.preserves (I := fun t => Consistent t ∧ Keeps s t)
    · exact ⟨system_consistent hs, fun i v hv _ => hv⟩
    · intro u e v hu hstep
      obtain ⟨hconsistent, hnext⟩ := next_keeps hu.1 hstep
      exact ⟨hconsistent, fun i w hw hnull => hnext i w (hu.2 i w hw hnull) hnull⟩
  exact hboth.2

end Watching

/-- The list of the cameras is stable, and so is every slot that the dashboard has assigned. -/
theorem cameras_stable {φ : Type*} :
    (∀ calls : List (List Char × φ), SharedFrames.StableListing calls) ∧
      ∀ s t : Watching φ, (Watching.system φ).Reachable s → (Watching.system φ).Path s t →
        ∀ (i : ℕ) (camId : Value), s.slots[i]? = some camId → camId ≠ .null →
          t.slots[i]? = some camId :=
  ⟨SharedFrames.storeAll_stable, fun _ _ hs ht => Watching.path_keeps hs ht⟩

/-- The longer list of the second fetch is shown first. The first fetch changes nothing then. -/
theorem cameras_stable_overtaken :
    ∃ s t : Watching Unit, (Watching.system Unit).Reachable s ∧ (Watching.system Unit).Path s t ∧
      s.fetches = [some "[\"gate\"]".toList] ∧ t.fetches = [] ∧
      t.slots[1]? = some (.string "dock".toList) := by
  obtain ⟨s, hrun, hfetches, hslot⟩ : ∃ s : Watching Unit,
      Transition.exec Watching.next {} [.store "gate".toList (), .loadCameras, .answered 0,
        .store "dock".toList (), .loadCameras, .answered 1, .loaded 1] = some s ∧
      s.fetches = [some "[\"gate\"]".toList] ∧ s.slots[1]? = some (.string "dock".toList) :=
    ⟨_, rfl, rfl, rfl⟩
  have hs : (Watching.system Unit).Reachable s := Transition.reachable_of_exec hrun
  have hlast : (Watching.system Unit).step s (.loaded 0)
      { s with fetches := [], slots := showCameras s.slots "[\"gate\"]".toList } := by
    show Watching.next s (.loaded 0) = _
    rw [Watching.next, hfetches]
    rfl
  have ht : (Watching.system Unit).Path s _ := .single ⟨_, hlast⟩
  exact ⟨s, _, hs, ht, hfetches, rfl, cameras_stable.2 s _ hs ht 1 _ hslot (by simp)⟩

end Dashboard
end ForkliftSafety
