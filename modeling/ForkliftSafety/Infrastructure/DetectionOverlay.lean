import ForkliftSafety.Application.EnforcedZones
import ForkliftSafety.Infrastructure.AlertPage
import ForkliftSafety.Infrastructure.ViewerDocuments
import ForkliftSafety.Library.Letterbox

/-! What the dashboard draws over the frames of a camera, next to the alerts that the pipeline
raises for them. The page computes its lengths with doubles; here its formulas are over the
rationals and nothing is rounded, so that boxes which only touch do so on the page as well. -/
namespace ForkliftSafety
open Json FixedFormat

namespace Dashboard

def numberOf (key : String) : Value → Option ℚ
  | .object ms =>
    match property key.toList ms with
    | .number x => some x
    | _ => none
  | _ => none

def textOf (key : String) : Value → Option (List Char)
  | .object ms =>
    match property key.toList ms with
    | .string s => some s
    | _ => none
  | _ => none

def itemsOf (key : String) : Value → List Value
  | .object ms =>
    match property key.toList ms with
    | .array items => items
    | _ => []
  | _ => []

def boxOf (v : Value) : Option BoundingBox :=
  match numberOf "x" v, numberOf "y" v, numberOf "w" v, numberOf "h" v with
  | some x, some y, some w, some h => some ⟨x, y, w, h⟩
  | _, _, _, _ => none

/-- `show`. -/
structure Overlays where
  person : Bool := true
  forklift : Bool := true
  zone : Bool := true

/-- Where the frame lies in an element of `dw` by `dh`, in exact arithmetic. -/
def renderedRect (dw dh fw fh : ℚ) : Letterbox ℚ :=
  let frameAspect := fw / fh
  let elemAspect := dw / dh
  if elemAspect > frameAspect then
    let renderW := dh * frameAspect
    ⟨(dw - renderW) / 2, 0, renderW / fw, dh / fh⟩
  else
    let renderH := dw / frameAspect
    ⟨0, (dh - renderH) / 2, dw / fw, renderH / fh⟩

def drawnBox (l : Letterbox ℚ) (b : BoundingBox) : BoundingBox :=
  ⟨l.offX + b.x * l.sx, l.offY + b.y * l.sy, b.width * l.sx, b.height * l.sy⟩

/-- What is drawn in one round of a loop. The chip of a detection has its lower edge at `chipY`. -/
inductive Mark where
  | zone (rect : BoundingBox)
  | object (cls : List Char) (rect : BoundingBox) (label : List Char) (chipY : ℚ)

def drawZone (l : Letterbox ℚ) (z : Value) : Option Mark :=
  (boxOf z).map fun b => .zone (drawnBox l b)

def labelOf (cls : List Char) (conf : ℚ) : List Char :=
  cls ++ ' ' :: intText ⌊conf * 100 + 1 / 2⌋ ++ ['%']

def drawDetection (o : Overlays) (l : Letterbox ℚ) (d : Value) : Option Mark :=
  match textOf "class" d, boxOf d, numberOf "conf" d with
  | some cls, some b, some conf =>
    if cls ≠ "person".toList ∧ cls ≠ "forklift".toList then none
    else if cls = "person".toList ∧ o.person = false then none
    else if cls = "forklift".toList ∧ o.forklift = false then none
    else
      let rect := drawnBox l b
      some (.object cls rect (labelOf cls conf)
        (if rect.y > 18 then rect.y - 3 else rect.y + rect.height + 15))
  | _, _, _ => none

/-- `none` when the function returns before it clears the canvas. Lengths are exact. -/
def drawFrame (o : Overlays) (dw dh : ℕ) (data : Value) : Option (List Mark) :=
  match numberOf "frame_w" data, numberOf "frame_h" data with
  | some fw, some fh =>
    if dw = 0 ∨ dh = 0 ∨ fw = 0 ∨ fh = 0 then none
    else
      let l := renderedRect dw dh fw fh
      some ((if o.zone then (itemsOf "zones" data).filterMap (drawZone l) else []) ++
        (itemsOf "detections" data).filterMap (drawDetection o l))
  | _, _ => none

/-- The two branches come to the largest picture that fits, in the middle of the element. -/
theorem renderedRect_eq {dw dh fw fh : ℚ} (hdh : 0 < dh) (hfw : 0 < fw) (hfh : 0 < fh) :
    renderedRect dw dh fw fh = .contain dw dh fw fh := by
  have hwide : dw / dh > fw / fh ↔ dh / fh < dw / fw := by
    rw [gt_iff_lt, div_lt_div_iff₀ hfh hdh, div_lt_div_iff₀ hfh hfw, mul_comm fw, mul_comm dw]
  have hw : fw * (dw / fw) = dw := mul_div_cancel₀ dw hfw.ne'
  have hh : fh * (dh / fh) = dh := mul_div_cancel₀ dh hfh.ne'
  unfold renderedRect Letterbox.contain Span.margin
  dsimp only
  split_ifs with hcase
  · rw [min_eq_right (hwide.mp hcase).le, hh, sub_self, zero_div]
    have hratio : dh * (fw / fh) = fw * (dh / fh) := by ring
    rw [hratio, mul_div_cancel_left₀ _ hfw.ne']
  · rw [min_eq_left (not_lt.mp fun h => hcase (hwide.mpr h)), hw, sub_self, zero_div]
    have hratio : dw / (fw / fh) = fh * (dw / fw) := by
      rw [div_div_eq_mul_div]
      ring
    rw [hratio, mul_div_cancel_left₀ _ hfh.ne']

theorem drawnBox_xSpan (l : Letterbox ℚ) (b : BoundingBox) :
    (drawnBox l b).xSpan = b.xSpan.place l.offX l.sx := rfl

theorem drawnBox_ySpan (l : Letterbox ℚ) (b : BoundingBox) :
    (drawnBox l b).ySpan = b.ySpan.place l.offY l.sy := rfl

/-- Boxes overlap on the page where they overlap in the frame. -/
theorem drawnBox_overlaps_iff {l : Letterbox ℚ} (hx : 0 < l.sx) (hy : 0 < l.sy)
    (a b : BoundingBox) : (drawnBox l a).Overlaps (drawnBox l b) ↔ a.Overlaps b := by
  rw [BoundingBox.overlaps_iff_spans, BoundingBox.overlaps_iff_spans, drawnBox_xSpan,
    drawnBox_xSpan, drawnBox_ySpan, drawnBox_ySpan, Span.place_meets_iff hx,
    Span.place_meets_iff hy]

theorem drawnBox_within_iff {l : Letterbox ℚ} (hx : 0 < l.sx) (hy : 0 < l.sy)
    (a b : BoundingBox) : (drawnBox l a).Within (drawnBox l b) ↔ a.Within b := by
  rw [BoundingBox.within_iff_spans, BoundingBox.within_iff_spans, drawnBox_xSpan,
    drawnBox_xSpan, drawnBox_ySpan, drawnBox_ySpan, Span.place_inside_iff hx,
    Span.place_inside_iff hy]

theorem within_trans {a b c : BoundingBox} (hab : a.Within b) (hbc : b.Within c) : a.Within c := by
  rw [BoundingBox.within_iff_spans] at hab hbc ⊢
  exact ⟨hab.1.trans hbc.1, hab.2.trans hbc.2⟩

/-- How the boxes of a frame of `fw` by `fh` lie on an element of `dw` by `dh`. -/
structure FitsIn (l : Letterbox ℚ) (dw dh fw fh : ℚ) : Prop where
  /-- Nothing is distorted. -/
  factor : l.sx = l.sy ∧ 0 < l.sx
  /-- The frame lies within the element, with the same room on both sides, -/
  shows : l.Shows dw dh fw fh
  middle : dw - (l.offX + fw * l.sx) = l.offX ∧ dh - (l.offY + fh * l.sy) = l.offY
  /-- and is as large as it can be. -/
  largest : ∀ l' : Letterbox ℚ, l'.sx = l'.sy → l'.Shows dw dh fw fh → l'.sx ≤ l.sx
  /-- A box of the frame is drawn within the picture of the frame, -/
  inside : ∀ b : BoundingBox, b.Within ⟨0, 0, fw, fh⟩ →
    (drawnBox l b).Within (drawnBox l ⟨0, 0, fw, fh⟩) ∧ (drawnBox l b).Within ⟨0, 0, dw, dh⟩
  /-- and boxes overlap as they do in the frame. -/
  overlaps : ∀ a b : BoundingBox, (drawnBox l a).Overlaps (drawnBox l b) ↔ a.Overlaps b

theorem contain_fitsIn {dw dh fw fh : ℚ} (hdw : 0 < dw) (hdh : 0 < dh) (hfw : 0 < fw)
    (hfh : 0 < fh) : FitsIn (.contain dw dh fw fh) dw dh fw fh := by
  have hpos := Letterbox.contain_pos hdw hdh hfw hfh
  have hshows : (Letterbox.contain dw dh fw fh).Shows dw dh fw fh :=
    Letterbox.contain_shows hfw hfh
  refine ⟨⟨rfl, hpos⟩, hshows, ⟨?_, ?_⟩, fun l' => Letterbox.contain_largest hfw hfh, ?_,
    drawnBox_overlaps_iff hpos hpos⟩
  · simp only [Letterbox.contain, Span.margin]
    ring
  · simp only [Letterbox.contain, Span.margin]
    ring
  · intro b hb
    have hdrawn := (drawnBox_within_iff hpos hpos b ⟨0, 0, fw, fh⟩).mpr hb
    have hpicture : (drawnBox (.contain dw dh fw fh) ⟨0, 0, fw, fh⟩).Within ⟨0, 0, dw, dh⟩ := hshows
    exact ⟨hdrawn, within_trans hdrawn hpicture⟩

/-- The formulas of `drawFrame`, computed exactly, put every box where the frame under it shows
it. -/
theorem renderedRect_fitsIn {dw dh fw fh : ℚ} (hdw : 0 < dw) (hdh : 0 < dh) (hfw : 0 < fw)
    (hfh : 0 < fh) : FitsIn (renderedRect dw dh fw fh) dw dh fw fh := by
  rw [renderedRect_eq hdh hfw hfh]
  exact contain_fitsIn hdw hdh hfw hfh

/-- A wide frame in a tall element. -/
theorem renderedRect_fitsIn_tall : renderedRect 300 400 1920 1080 = ⟨0, 925 / 8, 5 / 32, 5 / 32⟩ ∧
    FitsIn (renderedRect 300 400 1920 1080) 300 400 1920 1080 :=
  ⟨by norm_num [renderedRect],
    renderedRect_fitsIn (by norm_num) (by norm_num) (by norm_num) (by norm_num)⟩

def Mark.zoneRect : Mark → Option BoundingBox
  | .zone rect => some rect
  | .object _ _ _ _ => none

def Mark.personRect : Mark → Option BoundingBox
  | .zone _ => none
  | .object cls rect _ _ => if cls = "person".toList then some rect else none

section Documents
variable (outside : ℚ → ℤ)

/-- The box that a document has for a box. -/
def sentBox (b : BoundingBox) : BoundingBox :=
  ⟨castInt outside b.x, castInt outside b.y, castInt outside b.width, castInt outside b.height⟩

def sent (d : Detection) : SentDetection := ⟨d.box, d.cls, .finite d.confidence⟩

/-- What `inference_loop` hands to `publish_detections`. -/
def sentUpdate (u : ViewerUpdate) : DetectionUpdate :=
  ⟨u.cameraId.toList, u.detections.map sent, u.zones, u.frameW, u.frameH⟩

theorem exists_conf {d : SentDetection} (h : ConfFits d.confidence) :
    ∃ conf, numberOf "conf" (detectionItem outside d).value = some conf := by
  obtain ⟨t, _, hvalue⟩ := exists_confText h
  refine ⟨t.value, ?_⟩
  show (match confValue d.confidence with
    | .number x => some x
    | _ => none) = some t.value
  rw [hvalue]

/-- Only persons are drawn as persons. -/
theorem drawDetection_person (o : Overlays) (l : Letterbox ℚ) {d : Detection}
    (h : ConfFits (.finite d.confidence)) :
    (drawDetection o l (detectionItem outside (sent d)).value).bind Mark.personRect =
      if d.isPerson && o.person then some (drawnBox l (sentBox outside d.box)) else none := by
  obtain ⟨conf, hconf⟩ := exists_conf (d := sent d) outside h
  have hbox : boxOf (detectionItem outside (sent d)).value = some (sentBox outside d.box) := rfl
  have hclass : ∀ cls, d.cls = cls →
      textOf "class" (detectionItem outside (sent d)).value = some cls.toString.toList := by
    rintro cls rfl
    rfl
  cases hcls : d.cls with
  | person =>
    unfold drawDetection
    rw [hclass _ hcls, hbox, hconf]
    cases hshown : o.person <;>
      simp [ObjectClass.toString, Mark.personRect, Detection.isPerson, hcls]
  | forklift =>
    unfold drawDetection
    rw [hclass _ hcls, hbox, hconf]
    cases hshown : o.forklift <;>
      simp [ObjectClass.toString, Mark.personRect, Detection.isPerson, hcls]
  | unknown =>
    unfold drawDetection
    rw [hclass _ hcls, hbox, hconf]
    simp [ObjectClass.toString, Detection.isPerson, hcls]

theorem drawDetection_zone (o : Overlays) (l : Letterbox ℚ) (v : Value) :
    (drawDetection o l v).bind Mark.zoneRect = none := by
  unfold drawDetection
  split
  · split_ifs <;> rfl
  · rfl

/-- The zones come out of the first loop, in its order. -/
theorem zoneRects_drawn (o : Overlays) (l : Letterbox ℚ) (zones : List SafetyZone)
    (ds : List Value) :
    ((if o.zone then ((zones.map (zoneItem outside)).map Item.value).filterMap (drawZone l)
        else []) ++ ds.filterMap (drawDetection o l)).filterMap Mark.zoneRect =
      if o.zone then zones.map fun z => drawnBox l (sentBox outside z.zoneBox) else [] := by
  have hzone : drawZone l ∘ Item.value ∘ zoneItem outside =
      fun z => some (.zone (drawnBox l (sentBox outside z.zoneBox))) := rfl
  rw [List.filterMap_append, List.filterMap_filterMap (l := ds),
    List.filterMap_eq_nil_iff.mpr fun v _ => drawDetection_zone o l v, List.append_nil]
  cases o.zone with
  | false => rfl
  | true =>
    rw [if_pos rfl, if_pos rfl, List.map_map, List.filterMap_map, hzone, List.filterMap_filterMap]
    exact congrFun List.filterMap_eq_map' zones

/-- The persons come out of the second loop. -/
theorem personRects_drawn (o : Overlays) (l : Letterbox ℚ) (zones : List Value)
    {ds : List Detection} (hconf : ∀ d ∈ ds, ConfFits (.finite d.confidence)) :
    ((if o.zone then zones.filterMap (drawZone l) else []) ++
        (((ds.map sent).map (detectionItem outside)).map Item.value).filterMap
          (drawDetection o l)).filterMap Mark.personRect =
      if o.person then (ds.filter Detection.isPerson).map fun d =>
        drawnBox l (sentBox outside d.box) else [] := by
  have hzones : ∀ v ∈ zones, (drawZone l v).bind Mark.personRect = none := by
    intro v _
    unfold drawZone
    cases boxOf v <;> rfl
  have hnone : (if o.zone then zones.filterMap (drawZone l) else []).filterMap
      Mark.personRect = [] := by
    cases o.zone with
    | false => rfl
    | true =>
      rw [if_pos rfl, List.filterMap_filterMap]
      exact List.filterMap_eq_nil_iff.mpr hzones
  have hpersons : (((ds.map sent).map (detectionItem outside)).map Item.value).filterMap (fun v =>
      (drawDetection o l v).bind Mark.personRect) = ds.filterMap fun d =>
        if d.isPerson && o.person then some (drawnBox l (sentBox outside d.box)) else none := by
    rw [List.map_map, List.map_map, List.filterMap_map]
    exact List.filterMap_congr fun d hd => drawDetection_person outside o l (hconf d hd)
  rw [List.filterMap_append, hnone, List.nil_append, List.filterMap_filterMap, hpersons]
  cases o.person with
  | false => simp
  | true =>
    rw [if_pos rfl, ← List.filterMap_eq_map, List.filterMap_filter]
    simp

/-- The rectangles of a document, in its order: the zones and the persons, where they are shown. -/
theorem drawFrame_document (o : Overlays) {dw dh : ℕ} {u : ViewerUpdate}
    (hconf : ∀ d ∈ u.detections, ConfFits (.finite d.confidence))
    (hsize : ¬ (dw = 0 ∨ dh = 0 ∨ (u.frameW : ℚ) = 0 ∨ (u.frameH : ℚ) = 0)) :
    ∃ marks, drawFrame o dw dh (.object (documentMembers outside (sentUpdate u))) = some marks ∧
      marks.filterMap Mark.zoneRect = (if o.zone then u.zones.map fun z =>
        drawnBox (renderedRect dw dh u.frameW u.frameH) (sentBox outside z.zoneBox) else []) ∧
      marks.filterMap Mark.personRect = (if o.person then
        (u.detections.filter Detection.isPerson).map fun d =>
          drawnBox (renderedRect dw dh u.frameW u.frameH) (sentBox outside d.box) else []) := by
  have hwidth : numberOf "frame_w" (.object (documentMembers outside (sentUpdate u))) =
      some (u.frameW : ℚ) := rfl
  have hheight : numberOf "frame_h" (.object (documentMembers outside (sentUpdate u))) =
      some (u.frameH : ℚ) := rfl
  have hzones : itemsOf "zones" (.object (documentMembers outside (sentUpdate u))) =
      (u.zones.map (zoneItem outside)).map Item.value := rfl
  have hdetections : itemsOf "detections" (.object (documentMembers outside (sentUpdate u))) =
      ((u.detections.map sent).map (detectionItem outside)).map Item.value := rfl
  refine ⟨_, by rw [drawFrame, hwidth, hheight]; exact if_neg hsize, ?_, ?_⟩
  · rw [hzones]
    exact zoneRects_drawn outside o _ u.zones _
  · rw [hdetections]
    exact personRects_drawn outside o _ _ hconf

/-- A box as `cv::Rect` has it. -/
def PixelBox (b : BoundingBox) : Prop :=
  ∃ x y w h : ℤ, b = ⟨x, y, w, h⟩ ∧ ∀ n ∈ [x, y, w, h], -2 ^ 31 ≤ n ∧ n < 2 ^ 31

/-- The coordinates of a zone, none of which is negative, are small enough for an `int`. -/
def SmallZone (b : BoundingBox) : Prop := ∀ c ∈ [b.x, b.y, b.width, b.height], 0 ≤ c ∧ c < 2 ^ 31

theorem castInt_intCast {n : ℤ} (h : -2 ^ 31 ≤ n ∧ n < 2 ^ 31) : castInt outside n = n := by
  unfold castInt
  rw [Int.floor_intCast, Int.ceil_intCast, ite_self]
  exact if_pos h

theorem castInt_of_small {c : ℚ} (h : 0 ≤ c ∧ c < 2 ^ 31) : castInt outside c = ⌊c⌋ := by
  unfold castInt
  rw [if_pos h.1]
  have hlow : 0 ≤ ⌊c⌋ := Int.floor_nonneg.mpr h.1
  have hhigh : ⌊c⌋ < 2 ^ 31 := Int.floor_lt.mpr (by exact_mod_cast h.2)
  exact if_pos ⟨by omega, hhigh⟩

theorem sentBox_of_pixelBox {b : BoundingBox} (h : PixelBox b) : sentBox outside b = b := by
  obtain ⟨x, y, w, hh, rfl, hsmall⟩ := h
  simp only [List.mem_cons, List.not_mem_nil, or_false, forall_eq_or_imp, forall_eq] at hsmall
  obtain ⟨hx, hy, hw, hheight⟩ := hsmall
  simp only [sentBox, castInt_intCast outside hx, castInt_intCast outside hy,
    castInt_intCast outside hw, castInt_intCast outside hheight]

theorem sentBox_spans {b : BoundingBox} (h : SmallZone b) :
    (sentBox outside b).xSpan = b.xSpan.cut ∧ (sentBox outside b).ySpan = b.ySpan.cut := by
  unfold SmallZone at h
  simp only [List.mem_cons, List.not_mem_nil, or_false, forall_eq_or_imp, forall_eq] at h
  obtain ⟨hx, hy, hw, hh⟩ := h
  simp only [sentBox, castInt_of_small outside hx, castInt_of_small outside hy,
    castInt_of_small outside hw, castInt_of_small outside hh]
  exact ⟨rfl, rfl⟩

/-- Two more pixels to the right and below. -/
def roomier (b : BoundingBox) : BoundingBox :=
  { b with width := b.width + 2, height := b.height + 2 }

/-- The zone that is sent reaches a person only where the zone does. -/
theorem overlaps_of_sentBox {z q : BoundingBox} (hz : SmallZone z) (hq : PixelBox q)
    (h : (sentBox outside z).Overlaps (sentBox outside q)) : z.Overlaps q := by
  rw [sentBox_of_pixelBox outside hq, BoundingBox.overlaps_iff_spans, (sentBox_spans outside hz).1,
    (sentBox_spans outside hz).2] at h
  obtain ⟨x, y, w, hh, rfl, _⟩ := hq
  rw [BoundingBox.overlaps_iff_spans]
  exact ⟨h.1.of_cut, h.2.of_cut⟩

theorem roomier_overlaps {z q : BoundingBox} (hz : SmallZone z) (hq : PixelBox q)
    (h : z.Overlaps q) : (roomier (sentBox outside z)).Overlaps (sentBox outside q) := by
  have hx : (roomier (sentBox outside z)).xSpan = z.xSpan.cut.extend 2 :=
    congrArg (Span.extend 2) (sentBox_spans outside hz).1
  have hy : (roomier (sentBox outside z)).ySpan = z.ySpan.cut.extend 2 :=
    congrArg (Span.extend 2) (sentBox_spans outside hz).2
  rw [BoundingBox.overlaps_iff_spans] at h
  rw [sentBox_of_pixelBox outside hq, BoundingBox.overlaps_iff_spans, hx, hy]
  exact ⟨h.1.cut_extend, h.2.cut_extend⟩

/-- A person is drawn into a zone only where an alert is raised for the two. Where the zones and the
persons are shown, those of every alert are, and the person is drawn into the zone or misses it by
less than two pixels of the frame on its right or below. -/
structure Tells (o : Overlays) (l : Letterbox ℚ) (marks : List Mark) (alerts : List Alert) :
    Prop where
  seen : ∀ z ∈ marks.filterMap Mark.zoneRect, ∀ q ∈ marks.filterMap Mark.personRect,
    z.Overlaps q → ∃ a ∈ alerts, z = drawnBox l (sentBox outside a.safetyZoneBox) ∧
      q = drawnBox l (sentBox outside a.personBox)
  shown : o.zone = true → o.person = true → ∀ a ∈ alerts,
    (drawnBox l (sentBox outside a.safetyZoneBox) ∈ marks.filterMap Mark.zoneRect ∧
      drawnBox l (sentBox outside a.personBox) ∈ marks.filterMap Mark.personRect) ∧
    (drawnBox l (roomier (sentBox outside a.safetyZoneBox))).Overlaps
      (drawnBox l (sentBox outside a.personBox))

theorem tells_of_drawn {cfg : SafetyZoneConfig} {cameraId : String} {ds : List Detection}
    {frameTs : TimePoint} {o : Overlays} {l : Letterbox ℚ} (hx : 0 < l.sx) (hy : 0 < l.sy)
    (hpersons : ∀ d ∈ ds, d.cls = .person → PixelBox d.box)
    (hzones : ∀ z ∈ testedZones cfg ds, SmallZone z.zoneBox) {marks : List Mark}
    (hzoneRects : marks.filterMap Mark.zoneRect = if o.zone then (testedZones cfg ds).map fun z =>
      drawnBox l (sentBox outside z.zoneBox) else [])
    (hpersonRects : marks.filterMap Mark.personRect = if o.person then
      (ds.filter Detection.isPerson).map fun d => drawnBox l (sentBox outside d.box) else []) :
    Tells outside o l marks (evaluate cfg cameraId ds frameTs) where
  seen := by
    intro z hz q hq hover
    rw [hzoneRects] at hz
    rw [hpersonRects] at hq
    split_ifs at hz hq
    · obtain ⟨zone, hzone, rfl⟩ := List.mem_map.mp hz
      obtain ⟨d, hd, rfl⟩ := List.mem_map.mp hq
      obtain ⟨hmem, hperson⟩ := List.mem_filter.mp hd
      have hcls : d.cls = .person := of_decide_eq_true hperson
      rw [drawnBox_overlaps_iff hx hy] at hover
      have hreal := overlaps_of_sentBox outside (hzones zone hzone) (hpersons d hmem hcls) hover
      rw [testedZones_eq] at hzone
      obtain ⟨f, hf, rfl⟩ := List.mem_map.mp hzone
      obtain ⟨hfmem, hforklift⟩ := List.mem_filter.mp hf
      have hfcls : f.cls = .forklift := of_decide_eq_true hforklift
      refine ⟨alertFor cfg cameraId frameTs (f, d), ?_, rfl, rfl⟩
      rw [mem_evaluate_iff]
      have hover := (zoneForForklift_overlaps_iff cfg f d.box).mpr hreal
      exact ⟨f, d, ⟨⟨⟨hfmem, hfcls⟩, hmem, hcls⟩, hover⟩, rfl⟩
    all_goals simp_all
  shown := by
    intro ho hp a ha
    obtain ⟨f, d, ⟨⟨⟨hf, hfcls⟩, hd, hcls⟩, hover⟩, rfl⟩ := (mem_evaluate_iff _ _ _ _ a).mp ha
    have hzone : zoneForForklift cfg f ∈ testedZones cfg ds := by
      rw [testedZones_eq]
      exact List.mem_map_of_mem (List.mem_filter.mpr ⟨hf, decide_eq_true hfcls⟩)
    have hreal := (zoneForForklift_overlaps_iff cfg f d.box).mp hover
    rw [hzoneRects, hpersonRects, if_pos ho, if_pos hp]
    refine ⟨⟨List.mem_map.mpr ⟨_, hzone, rfl⟩, ?_⟩, ?_⟩
    · exact List.mem_map.mpr ⟨d, List.mem_filter.mpr ⟨hd, decide_eq_true hcls⟩, rfl⟩
    · rw [drawnBox_overlaps_iff hx hy]
      exact roomier_overlaps outside (hzones _ hzone) (hpersons d hd hcls) hreal

/-- From the engine's answer over the document to the page: whatever the size of the element, a
drawing in exact arithmetic tells which persons raise an alert. -/
theorem overlay_tells {p : Pipeline} {frame : Frame} {ds : List Detection} {dw dh : ℕ}
    (o : Overlays) (hname : PlainText p.cameraId.toList)
    (hconf : ∀ d ∈ ds, ConfFits (.finite d.confidence))
    (hpersons : ∀ d ∈ ds, d.cls = .person → PixelBox d.box)
    (hzones : ∀ z ∈ testedZones p.safetyZone ds, SmallZone z.zoneBox)
    (hframe : 0 < frame.image.cols ∧ 0 < frame.image.rows) (hsize : 0 < dw ∧ 0 < dh)
    (frameTs : TimePoint) :
    ∃ data marks, parse (detectionsJson outside (sentUpdate (viewOf p frame ds))) = some data ∧
      drawFrame o dw dh data = some marks ∧
      Tells outside o (.contain dw dh frame.image.cols frame.image.rows) marks
        (evaluate p.safetyZone p.cameraId ds frameTs) := by
  have hw : (0 : ℚ) < frame.image.cols := by exact_mod_cast hframe.1
  have hh : (0 : ℚ) < frame.image.rows := by exact_mod_cast hframe.2
  have hdw : (0 : ℚ) < dw := by exact_mod_cast hsize.1
  have hdh : (0 : ℚ) < dh := by exact_mod_cast hsize.2
  have hsent : ∀ d ∈ (sentUpdate (viewOf p frame ds)).detections, ConfFits d.confidence := by
    intro d hd
    obtain ⟨d, hmem, rfl⟩ := List.mem_map.mp hd
    exact hconf d hmem
  have hdrawn : ¬ (dw = 0 ∨ dh = 0 ∨ ((viewOf p frame ds).frameW : ℚ) = 0 ∨
      ((viewOf p frame ds).frameH : ℚ) = 0) := by
    simp only [viewOf]
    rintro (h | h | h | h)
    · exact hsize.1.ne' h
    · exact hsize.2.ne' h
    · exact hw.ne' h
    · exact hh.ne' h
  obtain ⟨marks, hmarks, hzoneRects, hpersonRects⟩ := drawFrame_document outside o hconf hdrawn
  refine ⟨_, marks, parse_detectionsJson outside hname hsent, hmarks, ?_⟩
  have hfit : renderedRect dw dh (viewOf p frame ds).frameW (viewOf p frame ds).frameH =
      .contain dw dh frame.image.cols frame.image.rows := by
    simp only [viewOf]
    exact renderedRect_eq hdh hw hh
  rw [hfit] at hzoneRects hpersonRects
  have hpos := Letterbox.contain_pos hdw hdh hw hh
  exact tells_of_drawn outside hpos hpos hpersons hzones hzoneRects hpersonRects

end Documents

def bayPipeline : Pipeline where
  cameraId := "bay"

def bayFrame : Frame where
  image := { cols := 1920, rows := 1080 }

/-- The zone of the forklift ends within the pixels in which the person begins. -/
def bayScene : List Detection :=
  [{ box := ⟨400, 300, 211, 160⟩, cls := .forklift, confidence := 9 / 10 },
    { box := ⟨716, 320, 60, 150⟩, cls := .person, confidence := 4 / 5 }]

theorem overlay_tells_bay : ∃ data marks,
    parse (detectionsJson (fun _ => 0) (sentUpdate (viewOf bayPipeline bayFrame bayScene))) =
      some data ∧
    drawFrame {} 640 480 data = some marks ∧
    Tells (fun _ => 0) {} (.contain (640 : ℕ) (480 : ℕ) (1920 : ℕ) (1080 : ℕ)) marks
      (evaluate bayPipeline.safetyZone "bay" bayScene 0) ∧
    (evaluate bayPipeline.safetyZone "bay" bayScene 0).length = 1 := by
  have hconf : ∀ d ∈ bayScene, ConfFits (.finite d.confidence) := by decide +kernel
  have hpersons : ∀ d ∈ bayScene, d.cls = .person → PixelBox d.box := by
    intro d hd hcls
    simp only [bayScene, List.mem_cons, List.not_mem_nil, or_false] at hd
    rcases hd with rfl | rfl
    · contradiction
    · exact ⟨716, 320, 60, 150, by norm_num, by decide⟩
  have hzones : ∀ z ∈ testedZones bayPipeline.safetyZone bayScene, SmallZone z.zoneBox := by
    unfold SmallZone
    decide +kernel
  have hname : PlainText bayPipeline.cameraId.toList := by decide
  have hframe : 0 < bayFrame.image.cols ∧ 0 < bayFrame.image.rows := by decide
  have hsize : 0 < 640 ∧ 0 < 480 := by decide
  obtain ⟨data, marks, hdata, hmarks, htells⟩ :=
    overlay_tells (fun _ => 0) {} hname hconf hpersons hzones hframe hsize 0
  exact ⟨data, marks, hdata, hmarks, htells, by decide +kernel⟩

end Dashboard
end ForkliftSafety
