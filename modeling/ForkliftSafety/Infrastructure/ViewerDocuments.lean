import ForkliftSafety.Infrastructure.AlertJson
import ForkliftSafety.Infrastructure.DetectionStream
import ForkliftSafety.Infrastructure.MjpegStreamServer
import ForkliftSafety.Library.FixedFormat
import ForkliftSafety.Library.JsonArray
import ForkliftSafety.Library.Records

/-! The JSON that `MjpegStreamServer` writes for its viewers: the list of the cameras, the
detections of a frame, and their way through the event stream. Camera names are put between quotes
as they are. -/
namespace ForkliftSafety
open Json FixedFormat Records SharedDets Text

section Documents
variable (outside : ℚ → ℤ)

/-- `static_cast<int>`. The language leaves open what becomes of a value that no `int` can hold;
`outside` is what the compiler makes of it. -/
def castInt (x : ℚ) : ℤ :=
  let n := if 0 ≤ x then ⌊x⌋ else ⌈x⌉
  if -2 ^ 31 ≤ n ∧ n < 2 ^ 31 then n else outside x

/-- The loops over detections and zones, with a comma before every item but the first. -/
def commaLoop {α : Type} (item : α → List Char) : ℕ → List Char → List α → List Char
  | _, json, [] => json
  | i, json, a :: rest =>
    commaLoop item (i + 1) ((if i > 0 then json ++ [','] else json) ++ item a) rest

def intText (n : ℤ) : List Char := (toString n).toList

/-- `snprintf(buf, sizeof(buf), "%.2f", …)` with a buffer of 32 characters. -/
def confText (x : FloatValue) : List Char := snprintf 32 (floatText x)

/-- What `publish_detections` reads of a detection. Nothing there asks whether the confidence is a
number; the coordinates are. -/
structure SentDetection where
  box : BoundingBox
  cls : ObjectClass
  confidence : FloatValue

def detectionJson (d : SentDetection) : List Char :=
  "\x7b\"class\":\"".toList ++ d.cls.toString.toList ++
    "\",\"x\":".toList ++ intText (castInt outside d.box.x) ++
    ",\"y\":".toList ++ intText (castInt outside d.box.y) ++
    ",\"w\":".toList ++ intText (castInt outside d.box.width) ++
    ",\"h\":".toList ++ intText (castInt outside d.box.height) ++
    ",\"conf\":".toList ++ confText d.confidence ++ "\x7d".toList

def zoneJson (z : SafetyZone) : List Char :=
  "\x7b\"x\":".toList ++ intText (castInt outside z.zoneBox.x) ++
    ",\"y\":".toList ++ intText (castInt outside z.zoneBox.y) ++
    ",\"w\":".toList ++ intText (castInt outside z.zoneBox.width) ++
    ",\"h\":".toList ++ intText (castInt outside z.zoneBox.height) ++ "\x7d".toList

/-- The arguments of `publish_detections`. -/
structure DetectionUpdate where
  cameraId : List Char
  detections : List SentDetection
  zones : List SafetyZone
  frameW : ℤ
  frameH : ℤ

def detectionsJson (u : DetectionUpdate) : List Char :=
  let json := "\x7b\"camera\":\"".toList ++ u.cameraId ++
    "\",\"frame_w\":".toList ++ intText u.frameW ++
    ",\"frame_h\":".toList ++ intText u.frameH ++ ",\"detections\":[".toList
  let json := commaLoop (detectionJson outside) 0 json u.detections
  let json := json ++ "],\"zones\":[".toList
  commaLoop (zoneJson outside) 0 json u.zones ++ "]\x7d".toList

theorem commaLoop_behind {α : Type} (item : α → List Char) {i : ℕ} (hi : 0 < i) (json : List Char)
    (as : List α) : commaLoop item i json as = json ++ as.flatMap fun a => ',' :: item a := by
  induction as generalizing i json with
  | nil => simp [commaLoop]
  | cons a as ih =>
    rw [commaLoop, if_pos hi, ih (Nat.succ_pos i)]
    simp

theorem commaLoop_eq {α : Type} (item : α → List Char) (json : List Char) (as : List α) :
    commaLoop item 0 json as = json ++ [','].intercalate (as.map item) := by
  cases as with
  | nil => simp [commaLoop]
  | cons a as =>
    have hjoin : ∀ x : List Char, [','].intercalate (x :: as.map item) =
        x ++ as.flatMap fun b => ',' :: item b := by
      intro x
      induction as generalizing x with
      | nil => simp
      | cons b as ih => simp [ih]
    rw [commaLoop, if_neg (lt_irrefl 0), commaLoop_behind item (Nat.succ_pos 0), List.map_cons,
      hjoin, List.append_assoc]

/-- What a parser makes of the text of a confidence, where it can read it. -/
def confValue (x : FloatValue) : Value := ((number (confText x ++ ['}'])).map Prod.fst).getD .null

def confField (x : FloatValue) : Field := ⟨"conf".toList, confText x, confValue x⟩

/-- The coordinates of a box but for the last. -/
def coordinateFields (b : BoundingBox) : List Field :=
  [integerField "x" (castInt outside b.x), integerField "y" (castInt outside b.y),
    integerField "w" (castInt outside b.width)]

def heightField (b : BoundingBox) : Field := integerField "h" (castInt outside b.height)

def detectionFields (d : SentDetection) : List Field :=
  stringField "class" d.cls.toString ::
    (coordinateFields outside d.box ++ [heightField outside d.box])

def detectionItem (d : SentDetection) : Item where
  text := objectText (detectionFields outside d) (confField d.confidence)
  value := .object ((detectionFields outside d).map Field.entry ++ [(confField d.confidence).entry])

def zoneItem (z : SafetyZone) : Item where
  text := objectText (coordinateFields outside z.zoneBox) (heightField outside z.zoneBox)
  value := .object ((coordinateFields outside z.zoneBox).map Field.entry ++
    [(heightField outside z.zoneBox).entry])

def arrayField (key : String) (items : List Item) : Field :=
  ⟨key.toList, arrayText items, .array (items.map Item.value)⟩

def cameraField (cameraId : List Char) : Field :=
  ⟨"camera".toList, quoted cameraId, .string cameraId⟩

/-- The members of a document but for the camera and the zones. -/
def frameFields (u : DetectionUpdate) : List Field :=
  [integerField "frame_w" u.frameW, integerField "frame_h" u.frameH,
    arrayField "detections" (u.detections.map (detectionItem outside))]

def zonesField (u : DetectionUpdate) : Field :=
  arrayField "zones" (u.zones.map (zoneItem outside))

theorem detectionJson_eq (d : SentDetection) :
    detectionJson outside d = (detectionItem outside d).text := by
  have hclass : "\x7b\"class\":\"".toList = '{' :: (quoted "class".toList ++ [':', '"']) := rfl
  have hx : "\",\"x\":".toList = '"' :: ',' :: (quoted "x".toList ++ [':']) := rfl
  have hy : ",\"y\":".toList = ',' :: (quoted "y".toList ++ [':']) := rfl
  have hw : ",\"w\":".toList = ',' :: (quoted "w".toList ++ [':']) := rfl
  have hh : ",\"h\":".toList = ',' :: (quoted "h".toList ++ [':']) := rfl
  have hconf : ",\"conf\":".toList = ',' :: (quoted "conf".toList ++ [':']) := rfl
  have hclose : "\x7d".toList = ['}'] := rfl
  unfold detectionJson
  simp only [hclass, hx, hy, hw, hh, hconf, hclose]
  simp only [detectionItem, detectionFields, coordinateFields, heightField, intText, objectText,
    leading, List.cons_append, List.nil_append, List.foldr_cons, List.foldr_nil]
  simp only [confField, Field.member, memberText, integerField, stringField, List.append_assoc,
    quoted, List.cons_append, List.nil_append]

theorem zoneJson_eq (z : SafetyZone) : zoneJson outside z = (zoneItem outside z).text := by
  have hx : "\x7b\"x\":".toList = '{' :: (quoted "x".toList ++ [':']) := rfl
  have hy : ",\"y\":".toList = ',' :: (quoted "y".toList ++ [':']) := rfl
  have hw : ",\"w\":".toList = ',' :: (quoted "w".toList ++ [':']) := rfl
  have hh : ",\"h\":".toList = ',' :: (quoted "h".toList ++ [':']) := rfl
  have hclose : "\x7d".toList = ['}'] := rfl
  unfold zoneJson
  simp only [hx, hy, hw, hh, hclose]
  simp only [zoneItem, coordinateFields, heightField, intText, objectText, leading,
    List.cons_append, List.nil_append, List.foldr_cons, List.foldr_nil, Field.member, memberText,
    integerField, List.append_assoc]

theorem detectionsJson_eq (u : DetectionUpdate) :
    detectionsJson outside u =
      objectText (cameraField u.cameraId :: frameFields outside u) (zonesField outside u) := by
  have hcamera : "\x7b\"camera\":\"".toList = '{' :: (quoted "camera".toList ++ [':', '"']) := rfl
  have hwidth : "\",\"frame_w\":".toList = '"' :: ',' :: (quoted "frame_w".toList ++ [':']) := rfl
  have hheight : ",\"frame_h\":".toList = ',' :: (quoted "frame_h".toList ++ [':']) := rfl
  have hdetections : ",\"detections\":[".toList =
      ',' :: (quoted "detections".toList ++ [':', '[']) := rfl
  have hzones : "],\"zones\":[".toList = ']' :: ',' :: (quoted "zones".toList ++ [':', '[']) := rfl
  have hclose : "]\x7d".toList = [']', '}'] := rfl
  have hitems : (u.detections.map (detectionItem outside)).map Item.text =
      u.detections.map (detectionJson outside) := by
    rw [List.map_map]
    exact List.map_congr_left fun d _ => (detectionJson_eq outside d).symm
  have hzoneItems : (u.zones.map (zoneItem outside)).map Item.text =
      u.zones.map (zoneJson outside) := by
    rw [List.map_map]
    exact List.map_congr_left fun z _ => (zoneJson_eq outside z).symm
  unfold detectionsJson
  simp only [hcamera, hwidth, hheight, hdetections, hzones, hclose, commaLoop_eq]
  simp only [frameFields, zonesField, intText, objectText, leading, List.cons_append,
    List.foldr_cons, List.foldr_nil]
  simp only [cameraField, Field.member, arrayField, arrayText, hitems, hzoneItems, memberText,
    integerField, List.append_assoc, quoted, List.cons_append, List.nil_append]

/-- The confidence is a number whose text is not cut off right behind its point. -/
def ConfFits : FloatValue → Prop
  | .finite x => (wholeText x).length ≠ 30
  | .infinite _ => False
  | .nan _ => False

instance : DecidablePred ConfFits
  | .finite _ => inferInstanceAs (Decidable (_ ≠ _))
  | .infinite _ => inferInstanceAs (Decidable False)
  | .nan _ => inferInstanceAs (Decidable False)

theorem exists_confText {x : FloatValue} (h : ConfFits x) :
    ∃ t : NumberText, t.text = confText x ∧ confValue x = .number t.value := by
  cases x with
  | finite x =>
    have hroom : (wholeText x).length + 2 ≠ 32 := by
      unfold ConfFits at h
      omega
    obtain ⟨t, ht⟩ := snprintf_number (show 3 ≤ 32 by decide) hroom
    have hends : EndsNumber '}' := ⟨by decide, by decide, by decide, by decide⟩
    have htext : t.text = confText (.finite x) := ht
    refine ⟨t, htext, ?_⟩
    rw [confValue, ← htext, number_append t hends []]
    rfl
  | infinite negative => exact h.elim
  | nan negative => exact h.elim

theorem confField_readsIn {x : FloatValue} (h : ConfFits x) (n : ℕ) :
    (confField x).ReadsIn (value (n + 1)) := by
  obtain ⟨t, htext, hvalue⟩ := exists_confText h
  refine ⟨show PlainText "conf".toList by decide, ?_⟩
  show Json.Reads (value (n + 1)) (confText x) (confValue x)
  rw [hvalue, ← htext]
  exact reads_number t n

/-- A parser stops behind the point of a text that is cut off there, and at the first letter of
`inf` or `nan`. -/
theorem confText_fails {x : FloatValue} (h : ¬ ConfFits x) (n : ℕ) (rest : List Char) :
    value (n + 1) (confText x ++ '}' :: rest) = none := by
  cases x with
  | finite x =>
    have hcut : (wholeText x).length + 2 = 32 := by
      unfold ConfFits at h
      omega
    have htext : confText (.finite x) ++ '}' :: rest =
        (if decide (x < 0) then ['-'] else []) ++
          (Nat.toDigits 10 (hundredths x / 100) ++ '.' :: '}' :: rest) := by
      show snprintf 32 (fixedText x) ++ '}' :: rest = _
      rw [snprintf_pointless hcut, wholeText]
      simp only [List.append_assoc, List.cons_append, List.nil_append]
    rw [htext]
    exact value_pointless (toDigits_intDigits _) _ (by decide) n rest
  | infinite negative => cases negative <;> rfl
  | nan negative => cases negative <;> rfl

theorem coordinateFields_readsIn (b : BoundingBox) (n : ℕ) :
    ∀ f ∈ coordinateFields outside b, f.ReadsIn (value (n + 1)) := by
  intro f hf
  simp only [coordinateFields, List.mem_cons, List.not_mem_nil, or_false] at hf
  rcases hf with rfl | rfl | rfl <;> exact integerField_readsIn (by decide) n _

theorem detectionFields_readsIn (d : SentDetection) (n : ℕ) :
    ∀ f ∈ detectionFields outside d, f.ReadsIn (value (n + 1)) := by
  have hclass : PlainText d.cls.toString.toList := by
    cases d.cls <;> decide
  intro f hf
  rw [detectionFields, List.mem_cons, List.mem_append, List.mem_singleton] at hf
  rcases hf with rfl | hcoordinate | rfl
  · exact stringField_readsIn (by decide) n hclass
  · exact coordinateFields_readsIn outside d.box n f hcoordinate
  · exact integerField_readsIn (by decide) n _

theorem begins_objectText (fs : List Field) (last : Field) : Begins (objectText fs last) :=
  ⟨'{', _, rfl, by decide, by decide⟩

theorem detectionItem_readsIn {d : SentDetection} (h : ConfFits d.confidence) (n : ℕ) :
    (detectionItem outside d).ReadsIn (value (n + 2)) where
  begins := begins_objectText _ _
  text := reads_object (detectionFields_readsIn outside d n) (confField_readsIn h n)

theorem zoneItem_readsIn (z : SafetyZone) (n : ℕ) :
    (zoneItem outside z).ReadsIn (value (n + 2)) where
  begins := begins_objectText _ _
  text := reads_object (coordinateFields_readsIn outside z.zoneBox n)
    (integerField_readsIn (by decide) n _)

/-- A confidence that cannot be read spoils the detection. -/
theorem detectionItem_fails {d : SentDetection} (h : ¬ ConfFits d.confidence) (n : ℕ) :
    Fails (value (n + 2)) (detectionItem outside d).text :=
  object_fails_last (detectionFields_readsIn outside d n)
    (show PlainText "conf".toList by decide) (confText_fails h n)

theorem arrayField_readsIn {key : String} (hkey : PlainText key.toList) {items : List Item} {n : ℕ}
    (hitems : ∀ i ∈ items, i.ReadsIn (value n)) : (arrayField key items).ReadsIn (value (n + 1)) :=
  ⟨hkey, fun c rest _ => reads_array hitems (c :: rest)⟩

theorem zonesField_readsIn (u : DetectionUpdate) (n : ℕ) :
    (zonesField outside u).ReadsIn (value (n + 3)) := by
  refine arrayField_readsIn (by decide) fun i hi => ?_
  obtain ⟨z, _, rfl⟩ := List.mem_map.mp hi
  exact zoneItem_readsIn outside z n

theorem frameFields_readsIn {u : DetectionUpdate} (h : ∀ d ∈ u.detections, ConfFits d.confidence)
    (n : ℕ) : ∀ f ∈ frameFields outside u, f.ReadsIn (value (n + 3)) := by
  intro f hf
  simp only [frameFields, List.mem_cons, List.not_mem_nil, or_false] at hf
  rcases hf with rfl | rfl | rfl
  · exact integerField_readsIn (by decide) (n + 2) _
  · exact integerField_readsIn (by decide) (n + 2) _
  · refine arrayField_readsIn (by decide) fun i hi => ?_
    obtain ⟨d, hd, rfl⟩ := List.mem_map.mp hi
    exact detectionItem_readsIn outside (h d hd) n

theorem cameraField_readsIn {cameraId : List Char} (h : PlainText cameraId) (n : ℕ) :
    (cameraField cameraId).ReadsIn (value (n + 1)) :=
  ⟨show PlainText "camera".toList by decide, reads_quoted h n⟩

/-- The members of a document. -/
def documentMembers (u : DetectionUpdate) : List (List Char × Value) :=
  (cameraField u.cameraId :: frameFields outside u).map Field.entry ++
    [(zonesField outside u).entry]

/-- The document begins with a brace and nests four deep at most. -/
theorem parse_document_iff (u : DetectionUpdate) (v : Value) :
    ∃ n, parse (detectionsJson outside u) = some v ↔ ∃ r, value (n + 4)
      (objectText (cameraField u.cameraId :: frameFields outside u) (zonesField outside u) ++ []) =
        some (v, r) ∧ skipWs r = [] := by
  have hlength := length_objectText (cameraField u.cameraId :: frameFields outside u)
    (zonesField outside u)
  simp only [List.length_cons, frameFields, List.length_nil] at hlength
  refine ⟨(detectionsJson outside u).length - 3, ?_⟩
  have hfuel :
      (detectionsJson outside u).length - 3 + 4 = (detectionsJson outside u).length + 1 := by
    rw [detectionsJson_eq]
    simp only [frameFields]
    omega
  rw [hfuel, parse_eq_some_iff, List.append_nil, detectionsJson_eq]

theorem parse_detectionsJson {u : DetectionUpdate} (hcamera : PlainText u.cameraId)
    (hconf : ∀ d ∈ u.detections, ConfFits d.confidence) :
    parse (detectionsJson outside u) = some (.object (documentMembers outside u)) := by
  obtain ⟨n, hn⟩ := parse_document_iff outside u (.object (documentMembers outside u))
  have hfields : ∀ f ∈ cameraField u.cameraId :: frameFields outside u,
      f.ReadsIn (value (n + 3)) := by
    intro f hf
    rcases List.mem_cons.mp hf with rfl | hf
    · exact cameraField_readsIn hcamera (n + 2)
    · exact frameFields_readsIn outside hconf n f hf
  rw [hn]
  exact ⟨[], reads_object hfields (zonesField_readsIn outside u n) [], rfl⟩

/-- An object with the coordinates of a box. -/
def ShowsBox (b : BoundingBox) (v : Value) : Prop :=
  ∃ ms, v = .object ms ∧ ms.lookup "x".toList = some (.number (castInt outside b.x)) ∧
    ms.lookup "y".toList = some (.number (castInt outside b.y)) ∧
    ms.lookup "w".toList = some (.number (castInt outside b.width)) ∧
    ms.lookup "h".toList = some (.number (castInt outside b.height))

/-- Objects for boxes, as many and in the same order. -/
def ShowsBoxes (boxes : List BoundingBox) (v : Value) : Prop :=
  ∃ items, v = .array items ∧ List.Forall₂ (ShowsBox outside) boxes items

/-- The text is an object with the camera and the boxes of the update. -/
structure Shows (u : DetectionUpdate) (text : List Char) (ms : List (List Char × Value)) :
    Prop where
  parses : parse text = some (.object ms)
  camera : ms.lookup "camera".toList = some (.string u.cameraId)
  detections : ∃ v, ms.lookup "detections".toList = some v ∧
    ShowsBoxes outside (u.detections.map SentDetection.box) v
  zones : ∃ v, ms.lookup "zones".toList = some v ∧
    ShowsBoxes outside (u.zones.map SafetyZone.zoneBox) v

theorem detectionItem_showsBox (d : SentDetection) :
    ShowsBox outside d.box (detectionItem outside d).value :=
  ⟨_, rfl, rfl, rfl, rfl, rfl⟩

theorem zoneItem_showsBox (z : SafetyZone) :
    ShowsBox outside z.zoneBox (zoneItem outside z).value :=
  ⟨_, rfl, rfl, rfl, rfl, rfl⟩

theorem items_showBoxes {α : Type} (box : α → BoundingBox) (item : α → Item)
    (h : ∀ a, ShowsBox outside (box a) (item a).value) (as : List α) :
    ShowsBoxes outside (as.map box) (.array ((as.map item).map Item.value)) := by
  refine ⟨_, rfl, ?_⟩
  induction as with
  | nil => exact .nil
  | cons a as ih => exact .cons (h a) ih

theorem shows_of_plain {u : DetectionUpdate} (hcamera : PlainText u.cameraId)
    (hconf : ∀ d ∈ u.detections, ConfFits d.confidence) :
    Shows outside u (detectionsJson outside u) (documentMembers outside u) where
  parses := parse_detectionsJson outside hcamera hconf
  camera := rfl
  detections := ⟨_, rfl, items_showBoxes outside _ _ (detectionItem_showsBox outside) _⟩
  zones := ⟨_, rfl, items_showBoxes outside _ _ (zoneItem_showsBox outside) _⟩

/-- The camera is read first, and the detections up to the first that cannot be read. -/
theorem plain_of_shows {u : DetectionUpdate} {ms : List (List Char × Value)}
    (h : Shows outside u (detectionsJson outside u) ms) :
    PlainText u.cameraId ∧ ∀ d ∈ u.detections, ConfFits d.confidence := by
  obtain ⟨n, hn⟩ := parse_document_iff outside u (.object ms)
  obtain ⟨r, hvalue, _⟩ := hn.mp h.parses
  have hcamera : PlainText u.cameraId := by
    have hfirst := hvalue
    change value (n + 4) (objectText ([] ++ ⟨"camera".toList, quoted u.cameraId,
      .string u.cameraId⟩ :: frameFields outside u) (zonesField outside u) ++ []) = _ at hfirst
    exact plain_of_object (by simp) (by decide) (by simp) hfirst h.camera
  refine ⟨hcamera, ?_⟩
  by_contra hconf
  push Not at hconf
  obtain ⟨d, hd, hbad⟩ := hconf
  have hfind : (u.detections.find? fun d => ¬ ConfFits d.confidence).isSome = true := by
    rw [List.find?_isSome]
    exact ⟨d, hd, by simpa using hbad⟩
  obtain ⟨bad, hfound⟩ := Option.isSome_iff_exists.mp hfind
  obtain ⟨hbad, good, post, hsplit, hgood⟩ := List.find?_eq_some_iff_append.mp hfound
  have harray : Fails (value (n + 3)) (arrayText (u.detections.map (detectionItem outside))) := by
    rw [hsplit, List.map_append, List.map_cons]
    refine array_fails (fun i hi => ?_) (begins_objectText _ _)
      (detectionItem_fails outside (by simpa using hbad) n)
    obtain ⟨e, he, rfl⟩ := List.mem_map.mp hi
    exact detectionItem_readsIn outside (by simpa using hgood e he) n
  have hpre : ∀ f ∈ [cameraField u.cameraId, integerField "frame_w" u.frameW,
      integerField "frame_h" u.frameH], f.ReadsIn (value (n + 3)) := by
    intro f hf
    simp only [List.mem_cons, List.not_mem_nil, or_false] at hf
    rcases hf with rfl | rfl | rfl
    · exact cameraField_readsIn hcamera (n + 2)
    · exact integerField_readsIn (by decide) (n + 2) _
    · exact integerField_readsIn (by decide) (n + 2) _
  have hkey : PlainText "detections".toList := by decide
  have hfails : Fails (value (n + 4)) (objectText ([cameraField u.cameraId,
      integerField "frame_w" u.frameW, integerField "frame_h" u.frameH] ++
      [arrayField "detections" (u.detections.map (detectionItem outside))])
        (zonesField outside u)) := object_fails hpre hkey harray
  have hnothing := hfails []
  change value (n + 4) (objectText (cameraField u.cameraId :: frameFields outside u) _ ++ []) = _
    at hnothing
  rw [hnothing] at hvalue
  contradiction

end Documents
end ForkliftSafety
