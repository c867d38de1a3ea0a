import ForkliftSafety.Infrastructure.ViewerDocuments
import Mathlib.Data.List.Nodup

/-! What viewers can read of the output of `MjpegStreamServer`, after any calls of `store` and of
`publish_detections`. -/
namespace ForkliftSafety
open Json FixedFormat Records SharedDets Text

theorem integerField_oneLine {key : String} (hkey : OneLine key.toList) (n : ℤ) :
    FieldOneLine (integerField key n) :=
  ⟨hkey, Decimal.notMem_toString (by decide) (by decide) n⟩

theorem confText_oneLine (x : FloatValue) : OneLine (confText x) := by
  intro h
  rcases mem_floatText (List.mem_of_mem_take h) with hdigit | hother
  · contradiction
  · contradiction

section Output
variable (outside : ℚ → ℤ)

theorem coordinateFields_oneLine (b : BoundingBox) :
    ∀ f ∈ coordinateFields outside b, FieldOneLine f := by
  intro f hf
  simp only [coordinateFields, List.mem_cons, List.not_mem_nil, or_false] at hf
  rcases hf with rfl | rfl | rfl <;> exact integerField_oneLine (by decide) _

theorem heightField_oneLine (b : BoundingBox) : FieldOneLine (heightField outside b) :=
  integerField_oneLine (by decide) _

theorem detectionItem_oneLine (d : SentDetection) : OneLine (detectionItem outside d).text := by
  have hclass : PlainText d.cls.toString.toList := by
    cases d.cls <;> decide
  refine oneLine_objectText (fun f hf => ?_)
    ⟨show OneLine "conf".toList by decide, confText_oneLine _⟩
  rw [detectionFields, List.mem_cons, List.mem_append, List.mem_singleton] at hf
  rcases hf with rfl | hcoordinate | rfl
  · exact ⟨show OneLine "class".toList by decide,
      ((oneLine_of_plain hclass).cons (by decide)).append (by decide)⟩
  · exact coordinateFields_oneLine outside d.box f hcoordinate
  · exact heightField_oneLine outside d.box

theorem zoneItem_oneLine (z : SafetyZone) : OneLine (zoneItem outside z).text :=
  oneLine_objectText (coordinateFields_oneLine outside z.zoneBox)
    (heightField_oneLine outside z.zoneBox)

theorem detectionsJson_oneLine {u : DetectionUpdate} (h : PlainText u.cameraId) :
    OneLine (detectionsJson outside u) := by
  rw [detectionsJson_eq]
  refine oneLine_objectText (fun f hf => ?_) ⟨show OneLine "zones".toList by decide, ?_⟩
  · simp only [frameFields, List.mem_cons, List.not_mem_nil, or_false] at hf
    rcases hf with rfl | rfl | rfl | rfl
    · exact ⟨show OneLine "camera".toList by decide,
        ((oneLine_of_plain h).cons (by decide)).append (by decide)⟩
    · exact integerField_oneLine (by decide) _
    · exact integerField_oneLine (by decide) _
    · refine ⟨show OneLine "detections".toList by decide, oneLine_arrayText fun i hi => ?_⟩
      obtain ⟨d, _, rfl⟩ := List.mem_map.mp hi
      exact detectionItem_oneLine outside d
  · refine oneLine_arrayText fun i hi => ?_
    obtain ⟨z, _, rfl⟩ := List.mem_map.mp hi
    exact zoneItem_oneLine outside z

/-- One message of an event stream: what stands between `data: ` and the next blank line. -/
def readMessage (s : List Char) : Option (List Char × List Char) :=
  (strip "data: ".toList s).bind fun s =>
    (findStr ['\n', '\n'] s).map fun i => (s.take i, s.drop (i + 2))

theorem readMessage_append {json : List Char} (h : OneLine json) (rest : List Char) :
    readMessage ("data: ".toList ++ (json ++ (['\n', '\n'] ++ rest))) = some (json, rest) := by
  have hend : findStr ['\n', '\n'] (json ++ (['\n', '\n'] ++ rest)) = some json.length :=
    findStr_append h
  have hrest : (json ++ (['\n', '\n'] ++ rest)).drop (json.length + 2) = rest := by simp
  unfold readMessage
  simp only [strip_append, Option.bind_some, hend, Option.map_some, List.take_left, hrest]

theorem dataLine_readable {json : List Char} (h : OneLine json) :
    Readable dataLine readMessage json := by
  refine ⟨dataLine_ne_nil json, fun rest => ?_⟩
  have htext : dataLine json ++ rest = "data: ".toList ++ (json ++ (['\n', '\n'] ++ rest)) := by
    change "data: ".toList ++ json ++ ['\n', '\n'] ++ rest = _
    simp only [List.append_assoc]
  rw [htext]
  exact readMessage_append h rest

theorem decode_dataLines {js : List (List Char)} (h : ∀ j ∈ js, OneLine j) :
    decode readMessage (js.flatMap dataLine) = some js :=
  decode_flatMap fun j hj => dataLine_readable (h j hj)

/-- What reaches `SharedState` while the server runs: a frame of a camera, an update of its
detections, or a tick of a session of the event stream. -/
inductive ViewerCall (φ : Type*) where
  | store (cam : List Char) (jpeg : φ)
  | publishDetections (u : DetectionUpdate)
  | tick

/-- `text` is what the session has written. -/
structure ViewerState (φ : Type*) where
  frames : SharedFrames φ := {}
  dets : SharedDets := .empty
  sseLastSeq : ℕ := 0
  text : List Char := []

section Calls
variable {φ : Type*} (camera : List Char)

/-- The session asks for the detections of `camera`. -/
def ViewerState.call (s : ViewerState φ) : ViewerCall φ → ViewerState φ
  | .store cam jpeg => { s with frames := s.frames.store cam jpeg }
  | .publishDetections u =>
    { s with dets := s.dets.storeDets u.cameraId (detectionsJson outside u) }
  | .tick =>
    let (payload, seq) := sseTick s.dets camera s.sseLastSeq
    { s with sseLastSeq := seq, text := s.text ++ payload.getD [] }

def afterCalls (calls : List (ViewerCall φ)) : ViewerState φ :=
  calls.foldl (ViewerState.call outside camera) {}

def ViewerCall.storedName : ViewerCall φ → Option (List Char)
  | .store cam _ => some cam
  | _ => none

def ViewerCall.update : ViewerCall φ → Option DetectionUpdate
  | .publishDetections u => some u
  | _ => none

/-- The documents that were built. -/
def documents (calls : List (ViewerCall φ)) : List (List Char) :=
  (calls.filterMap ViewerCall.update).map (detectionsJson outside)

theorem afterCalls_concat (calls : List (ViewerCall φ)) (call : ViewerCall φ) :
    afterCalls outside camera (calls ++ [call]) =
      (afterCalls outside camera calls).call outside camera call := List.foldl_concat ..

theorem eraseDups_concat (names : List (List Char)) (name : List Char) :
    (names ++ [name]).eraseDups =
      if name ∈ names then names.eraseDups else names.eraseDups ++ [name] := by
  rw [List.eraseDups_append]
  by_cases hseen : name ∈ names
  · simp [List.removeAll, hseen]
  · simp [List.removeAll, hseen, List.eraseDups_cons]

/-- The frames that are there, and their cameras in the order in which they were seen first. -/
structure Listed (names : List (List Char)) (f : SharedFrames φ) : Prop where
  order : f.cameraOrder = names.eraseDups
  there : ∀ c, (f.latest c).isSome = true ↔ c ∈ names

theorem Listed.store {names : List (List Char)} {f : SharedFrames φ} (h : Listed names f)
    (cam : List Char) (jpeg : φ) : Listed (names ++ [cam]) (f.store cam jpeg) := by
  have hnew : (f.latest cam).isNone = true ↔ cam ∉ names := by
    rw [← h.there cam]
    simp
  constructor
  · show (if (f.latest cam).isNone then f.cameraOrder ++ [cam] else f.cameraOrder) = _
    rw [eraseDups_concat, h.order]
    by_cases hseen : cam ∈ names
    · rw [if_neg (by rw [hnew]; exact not_not.mpr hseen), if_pos hseen]
    · rw [if_pos (hnew.mpr hseen), if_neg hseen]
  · intro c
    rw [SharedFrames.latest_store, List.mem_append, List.mem_singleton]
    split_ifs with hc
    · simp [hc]
    · rw [h.there c]
      simp [hc]

theorem afterCalls_listed (calls : List (ViewerCall φ)) :
    Listed (calls.filterMap ViewerCall.storedName) (afterCalls outside camera calls).frames := by
  induction calls using List.reverseRecOn with
  | nil => exact ⟨rfl, fun c => by simp [afterCalls]⟩
  | append_singleton calls call ih =>
    rw [afterCalls_concat, List.filterMap_append]
    cases call with
    | store cam jpeg => exact ih.store cam jpeg
    | publishDetections u =>
      rw [List.filterMap_cons_none rfl, List.filterMap_nil, List.append_nil]
      exact ih
    | tick =>
      rw [List.filterMap_cons_none rfl, List.filterMap_nil, List.append_nil]
      exact ih

theorem mem_put {cam : List Char} {e : DetEntry} {entries : List (List Char × DetEntry)}
    {p : List Char × DetEntry} (h : p ∈ put cam e entries) : p.2 = e ∨ p ∈ entries := by
  induction entries with
  | nil =>
    rw [put, List.mem_singleton] at h
    exact .inl (h ▸ rfl)
  | cons head rest ih =>
    unfold put at h
    split_ifs at h
    · rcases List.mem_cons.mp h with rfl | h
      · exact .inl rfl
      · exact .inr (List.mem_cons_of_mem _ h)
    · rcases List.mem_cons.mp h with rfl | h
      · exact .inr List.mem_cons_self
      · exact (ih h).imp_right (List.mem_cons_of_mem _)

/-- A message on offer carries the document of an entry. -/
theorem exists_entry_of_onOffer {dets : SharedDets} {updates : List Char → ℕ} {m : SseMessage}
    (h : m ∈ onOffer dets updates camera) : ∃ p ∈ dets.latestDets, p.2.json = m.json := by
  unfold onOffer at h
  split_ifs at h
  · obtain ⟨p, hp, rfl⟩ := List.mem_map.mp h
    exact ⟨p, List.mem_of_mem_filter hp, rfl⟩
  · obtain ⟨hjson, rfl⟩ := mem_newest.mp h
    cases hlookup : dets.latestDets.lookup camera with
    | none => simp [entry, hlookup] at hjson
    | some e =>
      obtain ⟨before, after, hsplit, _⟩ := List.lookup_eq_some_iff.mp hlookup
      exact ⟨(camera, e), by simp [hsplit], by simp [entry, hlookup]⟩

/-- Entries hold documents, and a session writes one message for each document that it sends. -/
structure Sends (docs : List (List Char)) (s : ViewerState φ) : Prop where
  entries : ∀ p ∈ s.dets.latestDets, p.2.json ∈ docs
  written : ∃ js : List (List Char), (∀ j ∈ js, j ∈ docs) ∧ s.text = js.flatMap dataLine

theorem Sends.tick {docs : List (List Char)} {s : ViewerState φ} (h : Sends docs s) :
    Sends docs (s.call outside camera .tick) := by
  refine ⟨h.entries, ?_⟩
  obtain ⟨js, hjs, htext⟩ := h.written
  have hcall : (s.call outside camera .tick).text =
      s.text ++ (sseTick s.dets camera s.sseLastSeq).1.getD [] := rfl
  rw [hcall, sseTick_eq (fun _ => 0)]
  split_ifs
  · refine ⟨js ++ (onOffer s.dets (fun _ => 0) camera).map SseMessage.json, fun j hj => ?_, ?_⟩
    · rcases List.mem_append.mp hj with hj | hj
      · exact hjs j hj
      · obtain ⟨m, hm, rfl⟩ := List.mem_map.mp hj
        obtain ⟨p, hp, hjson⟩ := exists_entry_of_onOffer camera hm
        exact hjson ▸ h.entries p hp
    · rw [List.flatMap_append, List.flatMap_map, htext]
      rfl
  · exact ⟨js, hjs, by rw [htext, Option.getD_none, List.append_nil]⟩

theorem afterCalls_sends (calls : List (ViewerCall φ)) :
    Sends (documents outside calls) (afterCalls outside camera calls) := by
  induction calls using List.reverseRecOn with
  | nil => exact ⟨fun p hp => by simp [afterCalls] at hp, [], by simp [afterCalls]⟩
  | append_singleton calls call ih =>
    rw [afterCalls_concat, documents, List.filterMap_append]
    cases call with
    | store cam jpeg =>
      rw [List.filterMap_cons_none rfl, List.filterMap_nil, List.append_nil]
      exact ⟨ih.entries, ih.written⟩
    | publishDetections u =>
      rw [List.map_append]
      obtain ⟨js, hjs, htext⟩ := ih.written
      refine ⟨fun p hp => ?_, js, fun j hj => List.mem_append_left _ (hjs j hj), htext⟩
      rcases mem_put hp with hnew | hold
      · rw [hnew]
        exact List.mem_append_right _ List.mem_cons_self
      · exact List.mem_append_left _ (ih.entries p hold)
    | tick =>
      rw [List.filterMap_cons_none rfl, List.filterMap_nil, List.append_nil]
      exact ih.tick outside camera

theorem camerasJson_eq (names : List (List Char)) :
    camerasJson names = arrayText (names.map quotedItem) := by
  rw [camerasJson, arrayText, List.map_map]
  rfl

/-- Nothing that is put between quotes or written as a number spoils a text. -/
def PlainCall : ViewerCall φ → Prop
  | .store cam _ => PlainText cam
  | .publishDetections u => PlainText u.cameraId ∧ ∀ d ∈ u.detections, ConfFits d.confidence
  | .tick => True

/-- What viewers get can be read: the list of the cameras, every document, and the messages of a
session, each with one document. -/
structure WellFormed (calls : List (ViewerCall φ)) : Prop where
  cameras : parse (camerasJson (afterCalls outside camera calls).frames.cameraOrder) =
    some (.array ((calls.filterMap ViewerCall.storedName).eraseDups.map .string))
  documents : ∀ u ∈ calls.filterMap ViewerCall.update,
    ∃ ms, Shows outside u (detectionsJson outside u) ms
  messages : ∃ js, decode readMessage (afterCalls outside camera calls).text = some js ∧
    ∀ j ∈ js, ∃ u ∈ calls.filterMap ViewerCall.update, j = detectionsJson outside u

theorem cameras_readable_iff (calls : List (ViewerCall φ)) :
    parse (camerasJson (afterCalls outside camera calls).frames.cameraOrder) =
        some (.array ((calls.filterMap ViewerCall.storedName).eraseDups.map .string)) ↔
      ∀ cam ∈ calls.filterMap ViewerCall.storedName, PlainText cam := by
  rw [(afterCalls_listed outside camera calls).order, camerasJson_eq, parse_quoted_iff]
  simp only [List.mem_eraseDups]

/-- The messages of a session whose documents stay on their lines. -/
theorem messages_readable {calls : List (ViewerCall φ)}
    (h : ∀ u ∈ calls.filterMap ViewerCall.update, PlainText u.cameraId) :
    ∃ js, decode readMessage (afterCalls outside camera calls).text = some js ∧
      ∀ j ∈ js, ∃ u ∈ calls.filterMap ViewerCall.update, j = detectionsJson outside u := by
  obtain ⟨js, hjs, htext⟩ := (afterCalls_sends outside camera calls).written
  have hsource : ∀ j ∈ js, ∃ u ∈ calls.filterMap ViewerCall.update,
      j = detectionsJson outside u := by
    intro j hj
    obtain ⟨u, hu, rfl⟩ := List.mem_map.mp (hjs j hj)
    exact ⟨u, hu, rfl⟩
  refine ⟨js, ?_, hsource⟩
  rw [htext]
  apply decode_dataLines
  intro j hj
  obtain ⟨u, hu, rfl⟩ := hsource j hj
  exact detectionsJson_oneLine outside (h u hu)

/-- After any calls, what viewers get can be read exactly when no call spoils it. -/
theorem viewer_wellFormed_iff (calls : List (ViewerCall φ)) :
    WellFormed outside camera calls ↔ ∀ call ∈ calls, PlainCall call := by
  constructor
  · intro h call hcall
    cases call with
    | store cam jpeg =>
      have hplain := (cameras_readable_iff outside camera calls).mp h.cameras
      exact hplain cam (List.mem_filterMap.mpr ⟨_, hcall, rfl⟩)
    | publishDetections u =>
      obtain ⟨ms, hshows⟩ := h.documents u (List.mem_filterMap.mpr ⟨_, hcall, rfl⟩)
      exact plain_of_shows outside hshows
    | tick => trivial
  · intro h
    have hstored : ∀ cam ∈ calls.filterMap ViewerCall.storedName, PlainText cam := by
      intro cam hcam
      obtain ⟨call, hcall, hname⟩ := List.mem_filterMap.mp hcam
      cases call <;> cases hname
      exact h _ hcall
    have hupdates : ∀ u ∈ calls.filterMap ViewerCall.update,
        PlainText u.cameraId ∧ ∀ d ∈ u.detections, ConfFits d.confidence := by
      intro u hu
      obtain ⟨call, hcall, hupdate⟩ := List.mem_filterMap.mp hu
      cases call <;> cases hupdate
      exact h _ hcall
    exact {
      cameras := (cameras_readable_iff outside camera calls).mpr hstored
      documents := fun u hu =>
        ⟨_, shows_of_plain outside (hupdates u hu).1 (hupdates u hu).2⟩
      messages := messages_readable outside camera fun u hu => (hupdates u hu).1 }

end Calls

end Output

/-- A camera with a quotation mark in its name leaves no list of the cameras that can be read. -/
theorem quoted_camera_unreadable :
    ¬ WellFormed (φ := Unit) (fun _ => 0) []
      [.store "gate".toList (), .store "a\"b".toList ()] := by
  intro h
  have hcameras := h.cameras
  have hnone : parse (camerasJson ["gate".toList, "a\"b".toList]) = none := by decide
  change parse (camerasJson ["gate".toList, "a\"b".toList]) = _ at hcameras
  rw [hnone] at hcameras
  contradiction

end ForkliftSafety
