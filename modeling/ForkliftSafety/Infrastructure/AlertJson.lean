import ForkliftSafety.Domain.Detection
import ForkliftSafety.Library.GeneralFormat

/-! `WebSocketAlertPublisher::serialize`, and what a JSON parser makes of its texts. Strings are
put between quotes as they are. -/
namespace ForkliftSafety
open Json GeneralFormat

/-- The lambda `box`. -/
def boxJson (b : BoundingBox) : String :=
  "\x7b\"x\":" ++ format b.x ++ ",\"y\":" ++ format b.y ++
    ",\"w\":" ++ format b.width ++ ",\"h\":" ++ format b.height ++ "\x7d"

def serialize (alert : Alert) : String :=
  let epochMs := durationCastMs alert.timestamp
  "\x7b" ++
    "\"schema_version\":1," ++
    "\"alert_id\":\"" ++ alert.alertId ++ "\"," ++
    "\"type\":\"" ++ alert.type.toString ++ "\"," ++
    "\"severity\":\"" ++ alert.severity.toString ++ "\"," ++
    "\"camera_id\":\"" ++ alert.cameraId ++ "\"," ++
    "\"timestamp_ms\":" ++ toString epochMs ++ "," ++
    "\"person_track_id\":" ++ toString alert.personTrackId ++ "," ++
    "\"forklift_track_id\":" ++ toString alert.forkliftTrackId ++ "," ++
    "\"person_box\":" ++ boxJson alert.personBox ++ "," ++
    "\"forklift_box\":" ++ boxJson alert.forkliftBox ++ "," ++
    "\"safety_zone_box\":" ++ boxJson alert.safetyZoneBox ++ "," ++
    "\"distance_px\":" ++ format alert.distancePx ++
    "\x7d"

def numberField (key : String) (x : ℚ) : Field :=
  ⟨key.toList, (numberText x).text, .number (numberText x).value⟩

def integerField (key : String) (n : ℤ) : Field :=
  ⟨key.toList, (toString n).toList, .number n⟩

def stringField (key s : String) : Field := ⟨key.toList, quoted s.toList, .string s.toList⟩

def boxText (b : BoundingBox) : List Char :=
  objectText [numberField "x" b.x, numberField "y" b.y, numberField "w" b.width]
    (numberField "h" b.height)

def boxValue (b : BoundingBox) : Value :=
  .object [("x".toList, .number b.x), ("y".toList, .number b.y), ("w".toList, .number b.width),
    ("h".toList, .number b.height)]

def boxField (key : String) (b : BoundingBox) : Field := ⟨key.toList, boxText b, boxValue b⟩

theorem boxJson_toList (b : BoundingBox) : (boxJson b).toList = boxText b := by
  have hx : "\x7b\"x\":".toList = '{' :: (quoted "x".toList ++ [':']) := rfl
  have hy : ",\"y\":".toList = ',' :: (quoted "y".toList ++ [':']) := rfl
  have hw : ",\"w\":".toList = ',' :: (quoted "w".toList ++ [':']) := rfl
  have hh : ",\"h\":".toList = ',' :: (quoted "h".toList ++ [':']) := rfl
  have hclose : "\x7d".toList = ['}'] := rfl
  unfold boxJson
  simp only [String.toList_append, hx, hy, hw, hh, hclose, format_toList]
  simp only [boxText, objectText, leading, List.foldr_cons, List.foldr_nil, Field.member,
    memberText, numberField, List.append_assoc, List.cons_append, List.nil_append]

/-- The members between the alert id and the camera id. -/
def kindFields (a : Alert) : List Field :=
  [stringField "type" a.type.toString, stringField "severity" a.severity.toString]

/-- The members behind the camera id, but for the last. -/
def placeFields (a : Alert) : List Field :=
  [integerField "timestamp_ms" (durationCastMs a.timestamp),
    integerField "person_track_id" a.personTrackId,
    integerField "forklift_track_id" a.forkliftTrackId, boxField "person_box" a.personBox,
    boxField "forklift_box" a.forkliftBox, boxField "safety_zone_box" a.safetyZoneBox]

def alertFields (a : Alert) : List Field :=
  integerField "schema_version" 1 :: stringField "alert_id" a.alertId ::
    (kindFields a ++ stringField "camera_id" a.cameraId :: placeFields a)

theorem serialize_toList (a : Alert) :
    (serialize a).toList = objectText (alertFields a) (numberField "distance_px" a.distancePx) := by
  have hschema :
      "\"schema_version\":1,".toList = quoted "schema_version".toList ++ [':', '1', ','] := rfl
  have hone : (toString (1 : ℤ)).toList = ['1'] := rfl
  have hid : "\"alert_id\":\"".toList = quoted "alert_id".toList ++ [':', '"'] := rfl
  have htype : "\"type\":\"".toList = quoted "type".toList ++ [':', '"'] := rfl
  have hseverity : "\"severity\":\"".toList = quoted "severity".toList ++ [':', '"'] := rfl
  have hcamera : "\"camera_id\":\"".toList = quoted "camera_id".toList ++ [':', '"'] := rfl
  have htime : "\"timestamp_ms\":".toList = quoted "timestamp_ms".toList ++ [':'] := rfl
  have hperson : "\"person_track_id\":".toList = quoted "person_track_id".toList ++ [':'] := rfl
  have hforklift :
      "\"forklift_track_id\":".toList = quoted "forklift_track_id".toList ++ [':'] := rfl
  have hpersonBox : "\"person_box\":".toList = quoted "person_box".toList ++ [':'] := rfl
  have hforkliftBox : "\"forklift_box\":".toList = quoted "forklift_box".toList ++ [':'] := rfl
  have hzoneBox : "\"safety_zone_box\":".toList = quoted "safety_zone_box".toList ++ [':'] := rfl
  have hdistance : "\"distance_px\":".toList = quoted "distance_px".toList ++ [':'] := rfl
  have hopen : "\x7b".toList = ['{'] := rfl
  have hclose : "\x7d".toList = ['}'] := rfl
  have hcomma : ",".toList = [','] := rfl
  have hquote : "\",".toList = ['"', ','] := rfl
  unfold serialize
  simp only [String.toList_append, hschema, hid, htype, hseverity, hcamera, htime, hperson,
    hforklift, hpersonBox, hforkliftBox, hzoneBox, hdistance, hopen, hclose, hcomma, hquote,
    boxJson_toList, format_toList]
  simp only [alertFields, kindFields, placeFields, objectText, leading, List.cons_append,
    List.nil_append, List.foldr_cons, List.foldr_nil, boxField, Field.member, memberText,
    numberField, integerField, stringField]
  rw [hone]
  simp only [quoted, List.append_assoc, List.cons_append, List.nil_append]

/-- What a receiver should find, by key. -/
def alertMembers (a : Alert) : List (List Char × Value) :=
  [("alert_id".toList, .string a.alertId.toList), ("type".toList, .string a.type.toString.toList),
    ("severity".toList, .string a.severity.toString.toList),
    ("camera_id".toList, .string a.cameraId.toList),
    ("timestamp_ms".toList, .number (durationCastMs a.timestamp)),
    ("person_track_id".toList, .number a.personTrackId),
    ("forklift_track_id".toList, .number a.forkliftTrackId),
    ("person_box".toList, boxValue a.personBox), ("forklift_box".toList, boxValue a.forkliftBox),
    ("safety_zone_box".toList, boxValue a.safetyZoneBox)]

/-- The text of the alert is one JSON object, in which every member is found again. -/
def RoundTrips (a : Alert) : Prop :=
  ∃ ms, parse (serialize a).toList = some (.object ms) ∧
    ∀ m ∈ alertMembers a, ms.lookup m.1 = some m.2

/-- An integer that the default precision prints exactly. -/
def ShortInteger (x : ℚ) : Prop := ∃ n : ℤ, x = n ∧ |n| < 10 ^ 6

structure ShortBox (b : BoundingBox) : Prop where
  x : ShortInteger b.x
  y : ShortInteger b.y
  width : ShortInteger b.width
  height : ShortInteger b.height

/-- Every box of the alert has short integer coordinates. -/
structure ShortBoxes (a : Alert) : Prop where
  person : ShortBox a.personBox
  forklift : ShortBox a.forkliftBox
  safetyZone : ShortBox a.safetyZoneBox

theorem ShortInteger.value_eq {x : ℚ} (h : ShortInteger x) : (numberText x).value = x := by
  obtain ⟨n, rfl, hn⟩ := h
  rw [numberText_intCast hn, integerText_value]

theorem shortBox_intCast (x y w h : ℤ) (hsix : ∀ n ∈ [x, y, w, h], |n| < 10 ^ 6) :
    ShortBox ⟨x, y, w, h⟩ where
  x := ⟨x, rfl, hsix x (by simp)⟩
  y := ⟨y, rfl, hsix y (by simp)⟩
  width := ⟨w, rfl, hsix w (by simp)⟩
  height := ⟨h, rfl, hsix h (by simp)⟩

section Fields
variable {key : String} (hkey : PlainText key.toList) (n : ℕ)
include hkey

theorem numberField_readsIn (x : ℚ) : (numberField key x).ReadsIn (value (n + 1)) :=
  ⟨hkey, reads_number (numberText x) n⟩

theorem integerField_readsIn (x : ℤ) : (integerField key x).ReadsIn (value (n + 1)) :=
  ⟨hkey, reads_integer x n⟩

theorem stringField_readsIn {s : String} (hs : PlainText s.toList) :
    (stringField key s).ReadsIn (value (n + 1)) :=
  ⟨hkey, reads_quoted hs n⟩

theorem boxField_readsIn {b : BoundingBox} (hb : ShortBox b) :
    (boxField key b).ReadsIn (value (n + 2)) := by
  refine ⟨hkey, ?_⟩
  intro c rest _
  have hfields : ∀ f ∈ [numberField "x" b.x, numberField "y" b.y, numberField "w" b.width],
      f.ReadsIn (value (n + 1)) := by
    intro f hf
    simp only [List.mem_cons, List.not_mem_nil, or_false] at hf
    rcases hf with rfl | rfl | rfl <;> exact numberField_readsIn (by decide) n _
  have hheight : PlainText "h".toList := by decide
  have hread := reads_object hfields
    (numberField_readsIn hheight n b.height) (c :: rest)
  simpa [boxField, boxText, boxValue, Field.entry, numberField, hb.x.value_eq, hb.y.value_eq,
    hb.width.value_eq, hb.height.value_eq] using hread

end Fields

/-- The members that an alert's text is put together from. -/
def sentMembers (a : Alert) : List (List Char × Value) :=
  (alertFields a).map Field.entry ++ [(numberField "distance_px" a.distancePx).entry]

theorem sentMembers_keys (a : Alert) : ((sentMembers a).map Prod.fst).Nodup := by
  change ["schema_version".toList, "alert_id".toList, "type".toList, "severity".toList,
    "camera_id".toList, "timestamp_ms".toList, "person_track_id".toList,
    "forklift_track_id".toList, "person_box".toList, "forklift_box".toList,
    "safety_zone_box".toList, "distance_px".toList].Nodup
  decide

theorem alertMembers_subset (a : Alert) : ∀ m ∈ alertMembers a, m ∈ sentMembers a := by
  intro m hm
  have hsent : sentMembers a = ("schema_version".toList, .number (1 : ℤ)) ::
      (alertMembers a ++ [(numberField "distance_px" a.distancePx).entry]) := rfl
  rw [hsent]
  exact List.mem_cons_of_mem _ (List.mem_append_left _ hm)

theorem kindFields_readsIn (a : Alert) (n : ℕ) :
    ∀ f ∈ kindFields a, f.ReadsIn (value (n + 1)) := by
  intro f hf
  have htype : PlainText a.type.toString.toList := by
    cases a.type
    decide
  have hseverity : PlainText a.severity.toString.toList := by
    cases a.severity <;> decide
  simp only [kindFields, List.mem_cons, List.not_mem_nil, or_false] at hf
  rcases hf with rfl | rfl
  · exact stringField_readsIn (by decide) n htype
  · exact stringField_readsIn (by decide) n hseverity

theorem placeFields_readsIn {a : Alert} (h : ShortBoxes a) (n : ℕ) :
    ∀ f ∈ placeFields a, f.ReadsIn (value (n + 2)) := by
  intro f hf
  simp only [placeFields, List.mem_cons, List.not_mem_nil, or_false] at hf
  rcases hf with rfl | rfl | rfl | rfl | rfl | rfl
  · exact integerField_readsIn (by decide) (n + 1) _
  · exact integerField_readsIn (by decide) (n + 1) _
  · exact integerField_readsIn (by decide) (n + 1) _
  · exact boxField_readsIn (by decide) n h.person
  · exact boxField_readsIn (by decide) n h.forklift
  · exact boxField_readsIn (by decide) n h.safetyZone

theorem parse_serialize {a : Alert} (h : ShortBoxes a) (hid : PlainText a.alertId.toList)
    (hcamera : PlainText a.cameraId.toList) :
    parse (serialize a).toList = some (.object (sentMembers a)) := by
  obtain ⟨n, hn⟩ := parse_objectText (alertFields a) (numberField "distance_px" a.distancePx)
    (.object (sentMembers a))
  have hfields : ∀ f ∈ alertFields a, f.ReadsIn (value (n + 2)) := by
    intro f hf
    simp only [alertFields, List.mem_cons, List.mem_append] at hf
    rcases hf with rfl | rfl | hkind | rfl | hplace
    · exact integerField_readsIn (by decide) (n + 1) 1
    · exact stringField_readsIn (by decide) (n + 1) hid
    · exact kindFields_readsIn a (n + 1) f hkind
    · exact stringField_readsIn (by decide) (n + 1) hcamera
    · exact placeFields_readsIn h n f hplace
  have hlast := numberField_readsIn (show PlainText "distance_px".toList by decide) (n + 1)
    a.distancePx
  rw [serialize_toList, hn]
  exact ⟨[], reads_object hfields hlast [], rfl⟩

/-- A box as it is printed, to six digits. -/
def printedBox (b : BoundingBox) : Value :=
  .object [("x".toList, .number (numberText b.x).value),
    ("y".toList, .number (numberText b.y).value), ("w".toList, .number (numberText b.width).value),
    ("h".toList, .number (numberText b.height).value)]

def printedBoxField (key : String) (b : BoundingBox) : Field :=
  ⟨key.toList, boxText b, printedBox b⟩

/-- The members of a text, but for the last. -/
def printedFields (a : Alert) : List Field :=
  integerField "schema_version" 1 :: stringField "alert_id" a.alertId ::
    (kindFields a ++ [stringField "camera_id" a.cameraId,
      integerField "timestamp_ms" (durationCastMs a.timestamp),
      integerField "person_track_id" a.personTrackId,
      integerField "forklift_track_id" a.forkliftTrackId,
      printedBoxField "person_box" a.personBox, printedBoxField "forklift_box" a.forkliftBox,
      printedBoxField "safety_zone_box" a.safetyZoneBox])

def printedMembers (a : Alert) : List (List Char × Value) :=
  (printedFields a).map Field.entry ++ [(numberField "distance_px" a.distancePx).entry]

theorem printedBoxField_readsIn {key : String} (hkey : PlainText key.toList) (n : ℕ)
    (b : BoundingBox) : (printedBoxField key b).ReadsIn (value (n + 2)) := by
  refine ⟨hkey, ?_⟩
  intro c rest _
  have hfields : ∀ f ∈ [numberField "x" b.x, numberField "y" b.y, numberField "w" b.width],
      f.ReadsIn (value (n + 1)) := by
    intro f hf
    simp only [List.mem_cons, List.not_mem_nil, or_false] at hf
    rcases hf with rfl | rfl | rfl <;> exact numberField_readsIn (by decide) n _
  have hheight : PlainText "h".toList := by decide
  have hread := reads_object hfields
    (numberField_readsIn hheight n b.height) (c :: rest)
  simpa [printedBoxField, boxText, printedBox, Field.entry, numberField] using hread

/-- Whatever the coordinates are, a text with a plain alert id and a plain camera id can be read. -/
theorem parse_serialize_printed {a : Alert} (hid : PlainText a.alertId.toList)
    (hcamera : PlainText a.cameraId.toList) :
    parse (serialize a).toList = some (.object (printedMembers a)) := by
  obtain ⟨n, hn⟩ := parse_objectText (printedFields a) (numberField "distance_px" a.distancePx)
    (.object (printedMembers a))
  have hfields : ∀ f ∈ printedFields a, f.ReadsIn (value (n + 2)) := by
    intro f hf
    simp only [printedFields, List.mem_cons, List.mem_append, List.not_mem_nil, or_false] at hf
    rcases hf with rfl | rfl | hkind | rfl | rfl | rfl | rfl | rfl | rfl | rfl
    · exact integerField_readsIn (by decide) (n + 1) 1
    · exact stringField_readsIn (by decide) (n + 1) hid
    · exact kindFields_readsIn a (n + 1) f hkind
    · exact stringField_readsIn (by decide) (n + 1) hcamera
    · exact integerField_readsIn (by decide) (n + 1) _
    · exact integerField_readsIn (by decide) (n + 1) _
    · exact integerField_readsIn (by decide) (n + 1) _
    · exact printedBoxField_readsIn (by decide) n a.personBox
    · exact printedBoxField_readsIn (by decide) n a.forkliftBox
    · exact printedBoxField_readsIn (by decide) n a.safetyZoneBox
  have hlast := numberField_readsIn (show PlainText "distance_px".toList by decide) (n + 1)
    a.distancePx
  have htext : (serialize a).toList =
      objectText (printedFields a) (numberField "distance_px" a.distancePx) := serialize_toList a
  rw [htext, hn]
  exact ⟨[], reads_object hfields hlast [], rfl⟩

/-- The fields are read in order: the alert id is plain, and then so is the camera id. -/
theorem plain_of_roundTrips {a : Alert} (h : RoundTrips a) :
    PlainText a.alertId.toList ∧ PlainText a.cameraId.toList := by
  obtain ⟨ms, hparse, hms⟩ := h
  obtain ⟨n, hn⟩ := parse_objectText (alertFields a) (numberField "distance_px" a.distancePx)
    (.object ms)
  rw [serialize_toList, hn] at hparse
  obtain ⟨r, hvalue, _⟩ := hparse
  have hschema : (integerField "schema_version" 1).ReadsIn (value (n + 2)) :=
    integerField_readsIn (by decide) (n + 1) 1
  have hid : PlainText a.alertId.toList := by
    have hpre : ∀ f ∈ [integerField "schema_version" 1], f.ReadsIn (value (n + 2)) := by
      simpa using hschema
    have hne : ∀ f ∈ [integerField "schema_version" 1], f.key ≠ "alert_id".toList := by
      simp [integerField]
    have hfound := hms ("alert_id".toList, .string a.alertId.toList) List.mem_cons_self
    exact plain_of_object hpre (by decide) hne hvalue hfound
  have hcamera : PlainText a.cameraId.toList := by
    have hpre : ∀ f ∈ integerField "schema_version" 1 :: stringField "alert_id" a.alertId ::
        kindFields a, f.ReadsIn (value (n + 2)) := by
      intro f hf
      rw [List.mem_cons, List.mem_cons] at hf
      rcases hf with rfl | rfl | hkind
      · exact hschema
      · exact stringField_readsIn (by decide) (n + 1) hid
      · exact kindFields_readsIn a (n + 1) f hkind
    have hne : ∀ f ∈ integerField "schema_version" 1 :: stringField "alert_id" a.alertId ::
        kindFields a, f.key ≠ "camera_id".toList := by
      simp [integerField, stringField, kindFields]
    have hfound := hms ("camera_id".toList, .string a.cameraId.toList) (by
      simp only [alertMembers, List.mem_cons, true_or, or_true])
    exact plain_of_object hpre (by decide) hne hvalue hfound
  exact ⟨hid, hcamera⟩

/-- An alert survives the wire exactly when neither of its ids has a character that JSON wants
escaped. -/
theorem serialize_roundTrips_iff {a : Alert} (h : ShortBoxes a) :
    RoundTrips a ↔ PlainText a.alertId.toList ∧ PlainText a.cameraId.toList := by
  constructor
  · exact plain_of_roundTrips
  · rintro ⟨hid, hcamera⟩
    refine ⟨sentMembers a, parse_serialize h hid hcamera, ?_⟩
    intro m hm
    exact lookup_of_mem (sentMembers_keys a) (alertMembers_subset a m hm)

/-- An alert of a camera that is named without quotes. -/
def dockAlert : Alert where
  alertId := "dock-a-7"
  cameraId := "dock-a"
  timestamp := 1700000000123456789
  personBox := ⟨10, 20, 40, 80⟩
  forkliftBox := ⟨100, 50, 200, 150⟩
  safetyZoneBox := ⟨-20, 0, 440, 300⟩

theorem dockAlert_shortBoxes : ShortBoxes dockAlert where
  person := shortBox_intCast 10 20 40 80 (by decide)
  forklift := shortBox_intCast 100 50 200 150 (by decide)
  safetyZone := shortBox_intCast (-20) 0 440 300 (by decide)

theorem dockAlert_roundTrips : RoundTrips dockAlert :=
  (serialize_roundTrips_iff dockAlert_shortBoxes).mpr ⟨by decide, by decide⟩

/-- A quote in the camera's name ends the string early. -/
theorem quotedCamera_unreadable :
    ShortBoxes { dockAlert with cameraId := "dock \"A\"" } ∧
      ¬ RoundTrips { dockAlert with cameraId := "dock \"A\"" } := by
  refine ⟨⟨dockAlert_shortBoxes.person, dockAlert_shortBoxes.forklift,
    dockAlert_shortBoxes.safetyZone⟩, ?_⟩
  intro h
  have hplain : ¬ PlainText "dock \"A\"".toList := by decide
  exact hplain (plain_of_roundTrips h).2

end ForkliftSafety
