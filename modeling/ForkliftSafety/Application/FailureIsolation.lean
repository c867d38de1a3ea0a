import ForkliftSafety.Application.InferenceLoop

/-! Frames on which inference fails, and what they do to the rest of a run. -/
namespace ForkliftSafety

/-- `infer` is called on the frame and does not return detections. -/
def Delivery.fails (d : Delivery) : Bool :=
  !d.frame.empty &&
    match d.infer with
    | .detections _ => false
    | .error _ => true
    | .threw => true

/-- The loop is still waiting for frames, has passed over every frame it was given, and has
published what it would publish without the frames on which inference failed. -/
def FailuresIsolated (p : Pipeline) (publish : ℕ → PublishResult) (ds : List Delivery) : Prop :=
  let run := submittedLoop p publish ds
  let clean := submittedLoop p publish (ds.filter fun d => !d.fails)
  (run.future = .pending ∧ run.unprocessed = []) ∧
    run.state.handedAlerts = clean.state.handedAlerts

section Isolation
variable (p : Pipeline) (publish : ℕ → PublishResult)

theorem offers_of_fails {d : Delivery} (h : d.fails = true) : offers p d = [] := by
  unfold offers
  unfold Delivery.fails at h
  cases hempty : d.frame.empty
  · cases hinfer : d.infer with
    | detections ds => simp [hinfer] at h
    | error e => rfl
    | threw => rfl
  · rfl

theorem inferenceLoop_unprocessed (s : LoopState) {ds : List Delivery}
    (h : (inferenceLoop p publish s ds).future = .pending) :
    (inferenceLoop p publish s ds).unprocessed = [] := by
  induction ds generalizing s with
  | nil => rfl
  | cons d ds ih =>
    cases hbody : loopBody p publish s d with
    | none => simp [inferenceLoop, hbody] at h
    | some t =>
      simp only [inferenceLoop, hbody] at h ⊢
      exact ih t h

theorem flatMap_offers_filter (ds : List Delivery) :
    (ds.filter fun d => !d.fails).flatMap (offers p) = ds.flatMap (offers p) := by
  induction ds with
  | nil => rfl
  | cons d ds ih =>
    cases h : d.fails
    · simp [h, ih]
    · simp [h, ih, offers_of_fails p h]

/-- A run isolates its failed frames exactly when `infer` throws on none of them: an `Error`
result costs its own frame only, an exception costs the camera. -/
theorem failuresIsolated_iff (ds : List Delivery) :
    FailuresIsolated p publish ds ↔
      ∀ d ∈ ds, ¬ (d.frame.empty = false ∧ d.infer = .threw) := by
  have hthrows (d : Delivery) :
      ¬ (d.frame.empty = false ∧ d.infer = .threw) ↔ d.throws = false := by
    rw [← Bool.not_eq_true, Delivery.throws]
    simp
  simp only [hthrows]
  rw [← inferenceLoop_pending_iff p publish {} ds]
  constructor
  · intro h
    exact h.1.1
  · intro h
    have hnone := (inferenceLoop_pending_iff p publish {} ds).mp h
    have hclean : ∀ d ∈ ds.filter fun d => !d.fails, d.throws = false :=
      fun d hd => hnone d (List.mem_of_mem_filter hd)
    refine ⟨⟨h, inferenceLoop_unprocessed p publish {} h⟩, ?_⟩
    rw [handedAlerts_eq, handedAlerts_eq, passed_eq_self hnone, passed_eq_self hclean,
      flatMap_offers_filter]

end Isolation

/-- `infer` throws on the first frame; the alarm in the second frame is never published. -/
theorem exception_ends_detection :
    ¬ FailuresIsolated { cameraId := "dock" } (fun _ => .ok ())
      [⟨{ image := ⟨1280, 720⟩ }, .threw, 0, 0⟩,
        ⟨{ image := ⟨1280, 720⟩ }, .detections (alarmScene {}), 1, 1⟩] := by
  intro h
  exact absurd h.1.1 (by decide +kernel)

end ForkliftSafety
