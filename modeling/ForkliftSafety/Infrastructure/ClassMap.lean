import ForkliftSafety.Infrastructure.YamlConfigLoader

/-! The class map that `load_from_yaml` makes of a `classes` block: the forklift pass writes over
what the person pass wrote. -/
namespace ForkliftSafety
open Yaml

/-- The block of a document that names the classes of the model's output. -/
def classesOf (root : Node) : Node := (root.get "inference").get "classes"

section Passes
variable {Y : Reader} {classes : Node}

def readIndex (Y : Reader) (idx : Node) : Option ℤ := (Y.asInt idx).toOption

/-- The indices listed under a key of the block. -/
def listed (Y : Reader) (classes : Node) (key : String) : List ℤ :=
  (classes.get key).items.filterMap (readIndex Y)

theorem readIndex_of_ok {idx : Node} {i : ℤ} (h : Y.asInt idx = .ok i) :
    readIndex Y idx = some i := by
  rw [readIndex, h]
  rfl

theorem listed_of_missing {key : String} (h : (classes.get key).isDefined = false) :
    listed Y classes key = [] := by
  rw [listed, Node.eq_undefined h]
  rfl

/-- One pass sets the indices that it reads and leaves the others. -/
theorem foldlM_update_ok {cls : ObjectClass} {idxs : List Node} {m m' : ℤ → Option ObjectClass}
    (h : idxs.foldlM (fun m idx => do
      let i ← Y.asInt idx
      pure (Function.update m i (some cls))) m = .ok m') (i : ℤ) :
    m' i = if i ∈ idxs.filterMap (readIndex Y) then some cls else m i := by
  induction idxs generalizing m with
  | nil =>
    rw [List.foldlM_nil] at h
    rw [← Except.ok.inj h]
    simp
  | cons idx idxs ih =>
    rw [List.foldlM_cons] at h
    obtain ⟨m₁, hstep, hrest⟩ := bind_ok h
    obtain ⟨j, hj, hset⟩ := bind_ok hstep
    rw [ih hrest, ← Except.ok.inj hset, List.filterMap_cons_some (readIndex_of_ok hj)]
    by_cases hlater : i ∈ idxs.filterMap (readIndex Y)
    · rw [if_pos hlater, if_pos (List.mem_cons_of_mem j hlater)]
    · by_cases hij : i = j
      · subst hij
        rw [if_neg hlater, if_pos List.mem_cons_self, Function.update_self]
      · rw [if_neg hlater, if_neg (by simp [hij, hlater]), Function.update_of_ne hij]

theorem addClass_ok {key : String} {cls : ObjectClass} {m m' : ℤ → Option ObjectClass}
    (h : addClass Y classes key cls m = .ok m') (i : ℤ) :
    m' i = if i ∈ listed Y classes key then some cls else m i := by
  rcases getOr_ok h with ⟨_, hread⟩ | ⟨hmissing, rfl⟩
  · exact foldlM_update_ok hread i
  · rw [listed_of_missing hmissing, if_neg List.not_mem_nil]

/-- What the two passes make of the block. -/
def passedMap (Y : Reader) (classes : Node) : ℤ → Option ObjectClass := fun i =>
  if i ∈ listed Y classes "forklift" then some .forklift
  else if i ∈ listed Y classes "person" then some .person
  else none

theorem loadClasses_ok {m : ℤ → Option ObjectClass} (h : loadClasses Y classes = .ok m) :
    m = passedMap Y classes := by
  obtain ⟨persons, hperson, hforklift⟩ := bind_ok h
  funext i
  rw [addClass_ok hforklift, addClass_ok hperson]
  rfl

theorem passedMap_of_missing (h : classes.isDefined = false) :
    passedMap Y classes = fun _ => none := by
  rw [Node.eq_undefined h]
  rfl

theorem loadInference_classMap {root inf : Node} {cfg : InferenceConfig}
    (h : loadInference Y root inf = .ok cfg) :
    cfg.classMap = passedMap Y (inf.get "classes") := by
  rcases getOr_ok (loadInference_reads h).classMap with ⟨_, hread⟩ | ⟨hmissing, hdefault⟩
  · exact loadClasses_ok hread
  · rw [hdefault, passedMap_of_missing hmissing]

theorem loadRoot_classMap {root : Node} {cfg : SystemConfig} (h : loadRoot Y root = .ok cfg) :
    cfg.inference.classMap = passedMap Y (classesOf root) := by
  rcases getOr_ok (loadRoot_reads h).inference with ⟨_, hread⟩ | ⟨hmissing, hdefault⟩
  · exact loadInference_classMap hread
  · rw [hdefault, classesOf, Node.eq_undefined hmissing]
    rfl

end Passes

section Acceptance
variable {Y : Reader}

theorem foldlM_update_accepts (cls : ObjectClass) (idxs : List Node) (m : ℤ → Option ObjectClass) :
    (∃ m', idxs.foldlM (fun m idx => do
      let i ← Y.asInt idx
      pure (Function.update m i (some cls))) m = .ok m') ↔
      ∀ idx ∈ idxs, ∃ i, Y.asInt idx = .ok i := by
  induction idxs generalizing m with
  | nil => simp [pure, Except.pure]
  | cons idx idxs ih =>
    rw [List.foldlM_cons, List.forall_mem_cons]
    cases hidx : Y.asInt idx with
    | error e => simp [bind, Except.bind]
    | ok i =>
      rw [← ih (Function.update m i (some cls))]
      simp [bind, Except.bind, pure, Except.pure]

theorem addClass_accepts (classes : Node) (key : String) (cls : ObjectClass)
    (m : ℤ → Option ObjectClass) :
    (∃ m', addClass Y classes key cls m = .ok m') ↔
      Y.index classes key = .ok (classes.get key) ∧
        ∀ idx ∈ (classes.get key).items, ∃ i, Y.asInt idx = .ok i := by
  cases hnode : Y.index classes key with
  | error e => simp [addClass, getOr, hnode, bind, Except.bind]
  | ok node =>
    obtain rfl := Reader.index_ok hnode
    rw [← foldlM_update_accepts cls _ m, and_iff_right rfl]
    by_cases hdefined : (classes.get key).isDefined = true
    · simp only [addClass, getOr, hnode, hdefined, if_true, bind, Except.bind]
    · have hget := Node.eq_undefined (by simpa using hdefined)
      simp [addClass, getOr, hnode, hget, Node.isDefined, Node.items, bind, Except.bind]

/-- A block loads exactly when it has keys and every index reads as an integer: what is listed under
one key is never compared with what is listed under the other. -/
theorem loadClasses_accepts (classes : Node) :
    (∃ m, loadClasses Y classes = .ok m) ↔
      ∀ key ∈ ["person", "forklift"], Y.index classes key = .ok (classes.get key) ∧
        ∀ idx ∈ (classes.get key).items, ∃ i, Y.asInt idx = .ok i := by
  rw [List.forall_mem_cons, List.forall_mem_singleton,
    ← addClass_accepts classes "person" .person fun _ => none]
  constructor
  · rintro ⟨m, hm⟩
    obtain ⟨persons, hperson, hforklift⟩ := bind_ok hm
    exact ⟨⟨persons, hperson⟩, (addClass_accepts classes _ _ _).mp ⟨m, hforklift⟩⟩
  · rintro ⟨⟨persons, hperson⟩, hforklift⟩
    obtain ⟨m, hm⟩ := (addClass_accepts classes _ .forklift persons).mpr hforklift
    refine ⟨m, ?_⟩
    rw [loadClasses, hperson]
    exact hm

end Acceptance

section Meaning
variable {Y : Reader} {classes : Node}

/-- The map does what the block says. -/
structure MeansClasses (Y : Reader) (classes : Node) (m : ℤ → Option ObjectClass) : Prop where
  person : ∀ i ∈ listed Y classes "person", m i = some .person
  forklift : ∀ i ∈ listed Y classes "forklift", m i = some .forklift
  unlisted : ∀ i, i ∉ listed Y classes "person" → i ∉ listed Y classes "forklift" → m i = none

/-- No index is listed under both keys. -/
def DisjointClasses (Y : Reader) (classes : Node) : Prop :=
  ∀ i ∈ listed Y classes "person", i ∉ listed Y classes "forklift"

theorem MeansClasses.disjoint {m : ℤ → Option ObjectClass} (h : MeansClasses Y classes m) :
    DisjointClasses Y classes := by
  intro i hperson hforklift
  have hboth := (h.person i hperson).symm.trans (h.forklift i hforklift)
  simp at hboth

theorem passedMap_means (h : DisjointClasses Y classes) :
    MeansClasses Y classes (passedMap Y classes) where
  person i hperson := by
    rw [passedMap, if_neg (h i hperson), if_pos hperson]
  forklift i hforklift := by
    rw [passedMap, if_pos hforklift]
  unlisted i hperson hforklift := by
    rw [passedMap, if_neg hforklift, if_neg hperson]

/-- The block can be meant by some map exactly when no index is listed twice over. -/
theorem exists_means_iff : (∃ m, MeansClasses Y classes m) ↔ DisjointClasses Y classes := by
  constructor
  · rintro ⟨m, hm⟩
    exact hm.disjoint
  · intro h
    exact ⟨_, passedMap_means h⟩

/-- The loader's map of an accepted document means what the document says exactly when no index is
listed under both keys; no other document can be meant by any map, and the loader takes it all the
same. -/
theorem loadFromYaml_means_iff {path : String} {root : Node} {cfg : SystemConfig}
    (hfile : Y.loadFile path = .ok root) (h : loadFromYaml (some Y) path = .ok cfg) :
    (MeansClasses Y (classesOf root) cfg.inference.classMap ↔
      DisjointClasses Y (classesOf root)) ∧
    ((∃ m, MeansClasses Y (classesOf root) m) ↔ DisjointClasses Y (classesOf root)) := by
  refine ⟨?_, exists_means_iff⟩
  rw [loadRoot_classMap (loadFromYaml_root hfile h)]
  exact ⟨MeansClasses.disjoint, passedMap_means⟩

end Meaning

/-- A document that says which classes are persons and which are forklifts. -/
def classDocument (person forklift : List String) : Node :=
  .map [(.scalar "inference", .map [(.scalar "classes", .map [
    (.scalar "person", .sequence (person.map .scalar)),
    (.scalar "forklift", .sequence (forklift.map .scalar))])])]

/-- Car and truck stand in for the forklift. -/
theorem classDocument_means :
    MeansClasses (plainReader (classDocument ["0", "0"] ["2", "7"]))
      (classesOf (classDocument ["0", "0"] ["2", "7"]))
      (passedMap (plainReader (classDocument ["0", "0"] ["2", "7"]))
        (classesOf (classDocument ["0", "0"] ["2", "7"]))) := by
  have hload : ∃ cfg, loadFromYaml (some (plainReader (classDocument ["0", "0"] ["2", "7"])))
      "site.yaml" = .ok cfg := ⟨_, rfl⟩
  obtain ⟨cfg, hcfg⟩ := hload
  rw [← loadRoot_classMap (loadFromYaml_root rfl hcfg)]
  refine (loadFromYaml_means_iff rfl hcfg).1.mpr ?_
  unfold DisjointClasses
  decide

/-- A class under both keys loads, and every person is a forklift. -/
theorem classDocument_overlap :
    ∃ cfg, loadFromYaml (some (plainReader (classDocument ["0"] ["0"]))) "site.yaml" = .ok cfg ∧
      0 ∈ listed (plainReader (classDocument ["0"] ["0"]))
        (classesOf (classDocument ["0"] ["0"])) "person" ∧
      cfg.inference.classMap 0 = some .forklift ∧
      ¬ ∃ m, MeansClasses (plainReader (classDocument ["0"] ["0"]))
        (classesOf (classDocument ["0"] ["0"])) m := by
  refine ⟨_, rfl, by decide, by decide, ?_⟩
  rintro ⟨m, hm⟩
  have hboth := (hm.person 0 (by decide)).symm.trans (hm.forklift 0 (by decide))
  simp at hboth

end ForkliftSafety
