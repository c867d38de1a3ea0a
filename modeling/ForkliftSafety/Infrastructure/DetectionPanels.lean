import ForkliftSafety.Infrastructure.CameraSlots
import ForkliftSafety.Infrastructure.DetectionOverlay
import ForkliftSafety.Library.RollingWindow

/-! The panels of the dashboard: `loadCameras` assigns cameras to them, `connectDetections` hands
each message of the one event stream to the panel of its camera, and animation frames draw what has
been handed out. -/
namespace ForkliftSafety
open Json Transition

namespace Dashboard

/-- A call of `drawFrame`: the toggles and the size of the image element as they were. -/
structure DrawCall where
  overlays : Overlays
  dw : ℕ
  dh : ℕ
  data : Value

def DrawCall.marks (c : DrawCall) : Option (List Mark) := drawFrame c.overlays c.dw c.dh c.data

/-- A slot with its elements on the page. `size` is that of the image element, and `redraw` says
whether the closure has been made. `since` and `calls` are history: how many messages had come when
the camera was assigned, and the calls of `drawFrame` for the canvas. -/
structure Panel where
  camId : Value := .null
  lastData : Option Value := none
  fpsFrames : List ℚ := []
  redraw : Bool := false
  fps : Option ℕ := none
  size : ℕ × ℕ := (0, 0)
  canvas : List Mark := []
  since : ℕ := 0
  calls : List DrawCall := []

/-- The loop that counts the arrivals which have left the window. -/
def expired (now : ℚ) : List ℚ → ℕ
  | [] => 0
  | t :: rest => if now - t > 2000 then expired now rest + 1 else 0

/-- `Math.round(n / 2)`. -/
def framesPerSecond (n : ℕ) : ℕ := (n + 1) / 2

namespace Panel

def assignCamera (received : ℕ) (camId : Value) (p : Panel) : Panel :=
  { p with camId := camId, lastData := none, fpsFrames := [], redraw := true, since := received }

/-- The part of `onmessage` behind the search for the panel. -/
def hear (now : ℚ) (data : Value) (p : Panel) : Panel :=
  let frames := p.fpsFrames ++ [now]
  let frames := frames.drop (expired now frames)
  { p with lastData := some data, fpsFrames := frames, fps := some (framesPerSecond frames.length) }

def draw (o : Overlays) (data : Value) (p : Panel) : Panel :=
  let call : DrawCall := ⟨o, p.size.1, p.size.2, data⟩
  { p with canvas := call.marks.getD p.canvas, calls := p.calls ++ [call] }

/-- The indicator of the rate is reset. -/
def resetRate (p : Panel) : Panel := { p with fps := none }

def resize (size : ℕ × ℕ) (p : Panel) : Panel := { p with size := size }

/-- `s.redraw && s.redraw()`. -/
def redrawn (o : Overlays) (p : Panel) : Panel :=
  if p.redraw then p.lastData.elim p fun data => p.draw o data else p

end Panel

/-- `data.camera`, which is not there unless `data` is an object with such a member. -/
def cameraOf : Value → Option Value
  | .object ms => ms.reverse.lookup "camera".toList
  | _ => none

/-- A dashboard that is open while the server runs. `draws` are the callbacks that wait for the next
animation frame, by panel. `received` is history: what has come, and when. -/
structure Panels (φ : Type*) where
  frames : SharedFrames φ := {}
  fetches : List (Option (List Char)) := []
  panels : List Panel := List.replicate maxCameras {}
  draws : List (ℕ × Value) := []
  overlays : Overlays := {}
  now : ℚ := 0
  received : List (ℚ × Value) := []

inductive OverlayKey where
  | person | forklift | zone
  deriving DecidableEq, Repr

/-- `show[key] = cb.checked`. -/
def Overlays.toggle (o : Overlays) (checked : Bool) : OverlayKey → Overlays
  | .person => { o with person := checked }
  | .forklift => { o with forklift := checked }
  | .zone => { o with zone := checked }

inductive PanelEvent (φ : Type*) where
  | watch (e : WatchEvent φ)
  | message (text : List Char)
  /-- `sse.onerror`. -/
  | error
  | animationFrame
  | toggle (key : OverlayKey) (checked : Bool)
  | resize (i dw dh : ℕ)
  | tick (now : ℚ)

/-- `if (slots[idx].camId !== id) assignCamera(idx, id);` -/
def fillPanel (received : ℕ) (id : Value) (p : Panel) : Panel :=
  if strictEq p.camId id then p else p.assignCamera received id

/-- The loop of `loadCameras`, which comes to each panel at most once. -/
def fillPanels (received : ℕ) : List Value → List Panel → List Panel
  | id :: ids, p :: panels => fillPanel received id p :: fillPanels received ids panels
  | _, panels => panels

namespace Panels
variable {φ : Type*}

def showCameras (s : Panels φ) (body : List Char) : List Panel :=
  match parse body with
  | some (.array cameras) => fillPanels s.received.length (cameras.take maxCameras) s.panels
  | _ => s.panels

/-- `slots.find(sl => sl.camId === data.camera)`, by its index. -/
def panelFor (s : Panels φ) (camera : Value) : Option ℕ :=
  s.panels.findIdx? fun p => strictEq p.camId camera

def receive (s : Panels φ) (data : Value) : Panels φ :=
  { s with received := s.received ++ [(s.now, data)] }

def handTo (s : Panels φ) (i : ℕ) (data : Value) : Panels φ :=
  { s with panels := s.panels.modify i (Panel.hear s.now data), draws := s.draws ++ [(i, data)] }

/-- `sse.onmessage`. -/
def onMessage (s : Panels φ) (text : List Char) : Panels φ :=
  match parse text with
  | none => s
  | some data =>
    match (cameraOf data).bind s.panelFor with
    | none => s.receive data
    | some i => (s.receive data).handTo i data

def drawAll (s : Panels φ) : List Panel :=
  s.draws.foldl (fun panels d => panels.modify d.1 (Panel.draw s.overlays d.2)) s.panels

/-- The part of the page that has to do with the list of the cameras. -/
def watching (s : Panels φ) : Watching φ := ⟨s.frames, s.fetches, s.panels.map Panel.camId⟩

def next (s : Panels φ) : PanelEvent φ → Option (Panels φ)
  | .watch (.loaded k) =>
    match s.fetches[k]? with
    | some (some body) =>
      some { s with fetches := s.fetches.eraseIdx k, panels := s.showCameras body }
    | _ => none
  | .watch e => (s.watching.next e).map fun w => { s with frames := w.frames, fetches := w.fetches }
  | .message text => some (s.onMessage text)
  | .error => some { s with panels := s.panels.map Panel.resetRate }
  | .animationFrame => some { s with panels := s.drawAll, draws := [] }
  | .toggle key checked =>
    let o := s.overlays.toggle checked key
    some { s with overlays := o, panels := s.panels.map (Panel.redrawn o) }
  | .resize i dw dh => some { s with panels := s.panels.modify i (Panel.resize (dw, dh)) }
  | .tick now => if s.now ≤ now then some { s with now := now } else none

def system (φ : Type*) : LTS (Panels φ) (PanelEvent φ) := .ofNext {} next

/-- What `draws` has for a panel. -/
def waiting (s : Panels φ) (i : ℕ) : List Value :=
  (s.draws.filter fun d => d.1 = i).map Prod.snd

/-- The messages of the panel's camera since it was assigned. -/
def heardBy (s : Panels φ) (p : Panel) : List (ℚ × Value) :=
  (s.received.drop p.since).filter fun m => (cameraOf m.2).any (strictEq p.camId)

end Panels

/-- A panel with what the page has for it. -/
structure PanelView where
  panel : Panel
  heard : List (ℚ × Value) := []
  waiting : List Value := []
  overlays : Overlays := {}
  now : ℚ := 0

def Panels.viewOf {φ : Type*} (s : Panels φ) (i : ℕ) (p : Panel) : PanelView :=
  ⟨p, s.heardBy p, s.waiting i, s.overlays, s.now⟩

namespace Panel

/-- Draw one after another. -/
def drawEach (o : Overlays) (ds : List Value) (p : Panel) : Panel :=
  ds.foldl (fun p data => p.draw o data) p

@[simp] theorem drawEach_nil (o : Overlays) (p : Panel) : p.drawEach o [] = p := rfl

theorem drawEach_concat (o : Overlays) (ds : List Value) (data : Value) (p : Panel) :
    p.drawEach o (ds ++ [data]) = (p.drawEach o ds).draw o data := List.foldl_concat ..

@[simp] theorem draw_camId (o : Overlays) (data : Value) (p : Panel) :
    (p.draw o data).camId = p.camId := rfl

@[simp] theorem draw_lastData (o : Overlays) (data : Value) (p : Panel) :
    (p.draw o data).lastData = p.lastData := rfl

@[simp] theorem draw_fpsFrames (o : Overlays) (data : Value) (p : Panel) :
    (p.draw o data).fpsFrames = p.fpsFrames := rfl

@[simp] theorem draw_redraw (o : Overlays) (data : Value) (p : Panel) :
    (p.draw o data).redraw = p.redraw := rfl

@[simp] theorem draw_fps (o : Overlays) (data : Value) (p : Panel) :
    (p.draw o data).fps = p.fps := rfl

@[simp] theorem draw_since (o : Overlays) (data : Value) (p : Panel) :
    (p.draw o data).since = p.since := rfl

@[simp] theorem draw_calls (o : Overlays) (data : Value) (p : Panel) :
    (p.draw o data).calls = p.calls ++ [⟨o, p.size.1, p.size.2, data⟩] := rfl

theorem drawEach_data (o : Overlays) (ds : List Value) (p : Panel) :
    (p.drawEach o ds).calls.map DrawCall.data = p.calls.map DrawCall.data ++ ds := by
  induction ds using List.reverseRecOn with
  | nil => simp
  | append_singleton ds data ih => simp [drawEach_concat, ih]

/-- What drawing leaves as it is. -/
structure SameData (p q : Panel) : Prop where
  camId : q.camId = p.camId
  lastData : q.lastData = p.lastData
  fpsFrames : q.fpsFrames = p.fpsFrames
  redraw : q.redraw = p.redraw
  fps : q.fps = p.fps
  since : q.since = p.since

theorem SameData.refl (p : Panel) : SameData p p := ⟨rfl, rfl, rfl, rfl, rfl, rfl⟩

theorem drawEach_sameData (o : Overlays) (ds : List Value) (p : Panel) :
    SameData p (p.drawEach o ds) := by
  induction ds using List.reverseRecOn with
  | nil => exact .refl p
  | append_singleton ds data ih =>
    rw [drawEach_concat]
    exact ⟨ih.camId, ih.lastData, ih.fpsFrames, ih.redraw, ih.fps, ih.since⟩

theorem redrawn_sameData (o : Overlays) (p : Panel) : SameData p (p.redrawn o) := by
  unfold redrawn
  split_ifs
  · cases p.lastData with
    | none => exact .refl p
    | some data => exact drawEach_sameData o [data] p
  · exact .refl p

/-- The canvas shows the last call of `drawFrame` that drew anything. -/
def Painted (p : Panel) : Prop :=
  p.canvas = (p.calls.filterMap DrawCall.marks).getLast?.getD []

theorem Painted.draw {p : Panel} (h : p.Painted) (o : Overlays) (data : Value) :
    (p.draw o data).Painted := by
  unfold Painted at h ⊢
  rw [draw_calls, List.filterMap_append, List.getLast?_append]
  show ((DrawCall.mk o p.size.1 p.size.2 data).marks.getD p.canvas) = _
  rw [h]
  cases hmarks : (DrawCall.mk o p.size.1 p.size.2 data).marks with
  | none => simp [hmarks]
  | some marks => simp [hmarks]

theorem Painted.drawEach {p : Panel} (h : p.Painted) (o : Overlays) (ds : List Value) :
    (p.drawEach o ds).Painted := by
  induction ds using List.reverseRecOn with
  | nil => exact h
  | append_singleton ds data ih =>
    rw [drawEach_concat]
    exact ih.draw o data

end Panel

/-- What an event does to an assigned panel or to one that gets its camera. -/
inductive PanelView.Step (v : PanelView) : PanelView → Prop
  | waits {now : ℚ} (hnow : v.now ≤ now) : Step v { v with now := now }
  | assigned (received : ℕ) {camId : Value} (hblank : v.panel.camId = .null)
      (hnew : camId ≠ .null) :
      Step v { v with panel := v.panel.assignCamera received camId, heard := [] }
  | heard {data : Value} (hassigned : v.panel.camId ≠ .null)
      (hcamera : cameraOf data = some v.panel.camId) :
      Step v { v with
        panel := v.panel.hear v.now data
        heard := v.heard ++ [(v.now, data)]
        waiting := v.waiting ++ [data] }
  | lost : Step v { v with panel := v.panel.resetRate }
  | drawn : Step v { v with panel := v.panel.drawEach v.overlays v.waiting, waiting := [] }
  | toggled (o : Overlays) : Step v { v with panel := v.panel.redrawn o, overlays := o }
  | resized (size : ℕ × ℕ) : Step v { v with panel := v.panel.resize size }

/-- An arrival has left the window of two seconds. -/
def tooOld (now t : ℚ) : Bool := now - t > 2000

theorem tooOld_ages : RollingWindow.Ages tooOld where
  earlier := by
    intro now a b hle h
    simp only [tooOld, gt_iff_lt, decide_eq_true_eq] at h ⊢
    linarith
  later := by
    intro now now' a hle h
    simp only [tooOld, gt_iff_lt, decide_eq_true_eq] at h ⊢
    linarith

theorem drop_expired (now : ℚ) (frames : List ℚ) :
    frames.drop (expired now frames) = frames.dropWhile (tooOld now) := by
  induction frames with
  | nil => rfl
  | cons t rest ih =>
    unfold expired
    by_cases h : now - t > 2000
    · rw [if_pos h, List.drop_succ_cons, ih, List.dropWhile_cons_of_pos]
      exact decide_eq_true h
    · rw [if_neg h, List.drop_zero, List.dropWhile_cons_of_neg]
      simpa [tooOld] using h

theorem hear_fpsFrames (now : ℚ) (data : Value) (p : Panel) :
    (p.hear now data).fpsFrames = RollingWindow.push tooOld p.fpsFrames now :=
  drop_expired now _

namespace PanelView

def times (v : PanelView) : List ℚ := v.heard.map Prod.fst

/-- The rate is that of the messages in the window, which are in the order of their arrival. -/
structure Rated (v : PanelView) : Prop where
  ordered : v.times.Pairwise (· ≤ ·)
  past : ∀ t ∈ v.times, t ≤ v.now
  window : v.panel.fpsFrames = RollingWindow.window tooOld v.times
  rate : ∀ n, v.panel.fps = some n → n = framesPerSecond v.panel.fpsFrames.length
  blank : v.panel.camId = .null → v.panel.fps = none

theorem Rated.sameData {v : PanelView} (h : v.Rated) {q : Panel} (hq : v.panel.SameData q)
    (waiting : List Value) (o : Overlays) :
    Rated { v with panel := q, waiting := waiting, overlays := o } where
  ordered := h.ordered
  past := h.past
  window := hq.fpsFrames.trans h.window
  rate := by
    intro n hn
    rw [hq.fpsFrames]
    exact h.rate n (hq.fps.symm.trans hn)
  blank := fun hnull => hq.fps.trans (h.blank (hq.camId.symm.trans hnull))

theorem Rated.step {v w : PanelView} (h : v.Rated) (hstep : v.Step w) : w.Rated := by
  cases hstep with
  | waits hnow => exact ⟨h.ordered, fun t ht => (h.past t ht).trans hnow, h.window, h.rate, h.blank⟩
  | assigned received hblank hnew =>
    refine ⟨.nil, fun t ht => absurd ht List.not_mem_nil, rfl, fun n hn => ?_, fun hnull => ?_⟩
    · exact absurd (hn.symm.trans (h.blank hblank)) (Option.some_ne_none n)
    · exact absurd hnull hnew
  | @heard data hassigned hcamera =>
    have htimes : (v.heard ++ [(v.now, data)]).map Prod.fst = v.times ++ [v.now] := by
      rw [List.map_append]
      rfl
    refine ⟨?_, ?_, ?_, ?_, fun hnull => absurd hnull hassigned⟩
    · show ((v.heard ++ [(v.now, data)]).map Prod.fst).Pairwise (· ≤ ·)
      rw [htimes, List.pairwise_append]
      exact ⟨h.ordered, List.pairwise_singleton _ _, by simpa using h.past⟩
    · show ∀ t ∈ (v.heard ++ [(v.now, data)]).map Prod.fst, t ≤ v.now
      rw [htimes]
      simpa [or_imp, forall_and] using h.past
    · show (v.panel.hear v.now data).fpsFrames =
        RollingWindow.window tooOld ((v.heard ++ [(v.now, data)]).map Prod.fst)
      rw [htimes, RollingWindow.window_concat, hear_fpsFrames, h.window]
    · intro n hn
      exact (Option.some.inj hn).symm
  | lost => exact ⟨h.ordered, h.past, h.window, nofun, fun _ => rfl⟩
  | drawn => exact h.sameData (Panel.drawEach_sameData _ _ _) [] _
  | toggled o => exact h.sameData (Panel.redrawn_sameData o _) _ o
  | resized size => exact ⟨h.ordered, h.past, h.window, h.rate, h.blank⟩

/-- The canvas is that of the newest message of the panel's camera, with the toggles as they are,
unless a callback waits that will draw it. Nothing of another camera is drawn. -/
structure Current (v : PanelView) : Prop where
  newest : v.panel.lastData = v.heard.getLast?.map Prod.snd
  redraws : v.panel.camId ≠ .null → v.panel.redraw = true
  blank : v.panel.camId = .null → v.heard = [] ∧ v.waiting = [] ∧ v.panel.calls = []
  hears : ∀ m ∈ v.heard, cameraOf m.2 = some v.panel.camId
  own : ∀ data, data ∈ v.waiting ∨ data ∈ v.panel.calls.map DrawCall.data →
    cameraOf data = some v.panel.camId
  painted : v.panel.Painted
  queued : ∀ data ∈ v.waiting.getLast?, v.panel.lastData = some data
  drawn : v.waiting = [] → ∀ data ∈ v.panel.lastData,
    ∃ dw dh, v.panel.calls.getLast? = some ⟨v.overlays, dw, dh, data⟩

/-- A change that leaves what is drawn and what waits. -/
theorem Current.same {v w : PanelView} (h : v.Current) (hdata : v.panel.SameData w.panel)
    (hcalls : w.panel.calls = v.panel.calls) (hcanvas : w.panel.canvas = v.panel.canvas)
    (hheard : w.heard = v.heard) (hwaiting : w.waiting = v.waiting)
    (hoverlays : w.overlays = v.overlays) : w.Current where
  newest := by rw [hdata.lastData, hheard, h.newest]
  redraws := by
    rw [hdata.camId, hdata.redraw]
    exact h.redraws
  blank := by
    rw [hdata.camId, hheard, hwaiting, hcalls]
    exact h.blank
  hears := by
    rw [hdata.camId, hheard]
    exact h.hears
  own := by
    rw [hdata.camId, hwaiting, hcalls]
    exact h.own
  painted := by
    rw [Panel.Painted, hcalls, hcanvas]
    exact h.painted
  queued := by
    rw [hwaiting, hdata.lastData]
    exact h.queued
  drawn := by
    rw [hwaiting, hdata.lastData, hcalls, hoverlays]
    exact h.drawn

theorem Current.assigned {v : PanelView} (h : v.Current) (received : ℕ) {camId : Value}
    (hblank : v.panel.camId = .null) (hnew : camId ≠ .null) :
    Current { v with panel := v.panel.assignCamera received camId, heard := [] } := by
  obtain ⟨_, hwaiting, hcalls⟩ := h.blank hblank
  refine ⟨rfl, fun _ => rfl, fun hnull => absurd hnull hnew, nofun, ?_, h.painted, ?_,
    fun _ => nofun⟩
  · rintro data (hdata | hdata)
    · exact absurd (hwaiting ▸ hdata) List.not_mem_nil
    · have hnone : data ∈ v.panel.calls.map DrawCall.data := hdata
      simp [hcalls] at hnone
  · intro data hdata
    have hnone : data ∈ v.waiting.getLast? := hdata
    simp [hwaiting] at hnone

theorem Current.heard {v : PanelView} (h : v.Current) {data : Value}
    (hassigned : v.panel.camId ≠ .null) (hcamera : cameraOf data = some v.panel.camId) :
    Current { v with
      panel := v.panel.hear v.now data
      heard := v.heard ++ [(v.now, data)]
      waiting := v.waiting ++ [data] } where
  newest := by simp [Panel.hear]
  redraws := h.redraws
  blank := fun hnull => absurd hnull hassigned
  hears := by
    intro m hm
    rcases List.mem_append.mp hm with hold | hlast
    · exact h.hears m hold
    · rw [List.mem_singleton.mp hlast]
      exact hcamera
  own := by
    rintro d (hd | hd)
    · rcases List.mem_append.mp hd with hold | hlast
      · exact h.own d (.inl hold)
      · rw [List.mem_singleton.mp hlast]
        exact hcamera
    · exact h.own d (.inr hd)
  painted := h.painted
  queued := by simp [Panel.hear]
  drawn := by simp

/-- After the callbacks nothing waits, and the last of them was for the newest message. -/
theorem Current.drawEach {v : PanelView} (h : v.Current) :
    Current { v with panel := v.panel.drawEach v.overlays v.waiting, waiting := [] } := by
  have hsame := Panel.drawEach_sameData v.overlays v.waiting v.panel
  refine ⟨hsame.lastData.trans h.newest, ?_, ?_, ?_, ?_, h.painted.drawEach _ _, nofun, ?_⟩
  · intro hassigned
    exact hsame.redraw.trans (h.redraws fun hnull => hassigned (hsame.camId.trans hnull))
  · intro hnull
    obtain ⟨hheard, hwaiting, hcalls⟩ := h.blank (hsame.camId.symm.trans hnull)
    refine ⟨hheard, rfl, ?_⟩
    show (v.panel.drawEach v.overlays v.waiting).calls = []
    rw [hwaiting, Panel.drawEach_nil, hcalls]
  · intro m hm
    exact (h.hears m hm).trans (congrArg some hsame.camId.symm)
  · rintro data (hdata | hdata)
    · exact absurd hdata List.not_mem_nil
    · rw [Panel.drawEach_data, List.mem_append, or_comm] at hdata
      exact (h.own data hdata).trans (congrArg some hsame.camId.symm)
  · intro _ data hdata
    rw [hsame.lastData] at hdata
    rcases List.eq_nil_or_concat v.waiting with hnone | ⟨before, last, hlast⟩
    · rw [hnone, Panel.drawEach_nil]
      exact h.drawn hnone data hdata
    · have hnewest : v.panel.lastData = some last := h.queued last (by simp [hlast])
      obtain rfl := Option.some.inj (hdata.symm.trans hnewest)
      rw [hlast, List.concat_eq_append, Panel.drawEach_concat, Panel.draw_calls]
      exact ⟨_, _, List.getLast?_concat⟩

theorem Current.camera_newest {v : PanelView} (h : v.Current) {data : Value}
    (hdata : v.panel.lastData = some data) : cameraOf data = some v.panel.camId := by
  rw [h.newest, Option.map_eq_some_iff] at hdata
  obtain ⟨m, hm, rfl⟩ := hdata
  exact h.hears m (List.mem_of_getLast? hm)

/-- A panel without the closure has nothing to draw. -/
theorem Current.redrawn_cases {v : PanelView} (h : v.Current) (o : Overlays) :
    (v.panel.lastData = none ∧ v.panel.redrawn o = v.panel) ∨
      ∃ data, v.panel.lastData = some data ∧ v.panel.redrawn o = v.panel.draw o data := by
  unfold Panel.redrawn
  cases hlast : v.panel.lastData with
  | none =>
    rw [Option.elim_none, ite_self]
    exact .inl ⟨rfl, rfl⟩
  | some data =>
    have hassigned : v.panel.camId ≠ .null := by
      intro hnull
      rw [h.newest, (h.blank hnull).1] at hlast
      contradiction
    rw [if_pos (h.redraws hassigned), Option.elim_some]
    exact .inr ⟨data, rfl, rfl⟩

theorem Current.redrawn {v : PanelView} (h : v.Current) (o : Overlays) :
    Current { v with panel := v.panel.redrawn o, overlays := o } := by
  rcases h.redrawn_cases o with ⟨hnone, hidle⟩ | ⟨data, hlast, hdraw⟩
  · rw [hidle]
    refine ⟨h.newest, h.redraws, h.blank, h.hears, h.own, h.painted, h.queued, ?_⟩
    intro _ data hdata
    exact absurd (hdata.symm.trans hnone) (Option.some_ne_none data)
  · rw [hdraw]
    have hcamera := h.camera_newest hlast
    refine ⟨h.newest, h.redraws, ?_, h.hears, ?_, h.painted.draw o data, h.queued, ?_⟩
    · intro hnull
      rw [h.newest, (h.blank hnull).1] at hlast
      contradiction
    · rintro d (hd | hd)
      · exact h.own d (.inl hd)
      · rw [Panel.draw_calls, List.map_append, List.mem_append] at hd
        rcases hd with hold | hnew
        · exact h.own d (.inr hold)
        · obtain rfl : d = data := by simpa using hnew
          exact hcamera
    · intro _ d hd
      obtain rfl := Option.some.inj (hd.symm.trans hlast)
      rw [Panel.draw_calls]
      exact ⟨_, _, List.getLast?_concat⟩

theorem Current.step {v w : PanelView} (h : v.Current) (hstep : v.Step w) : w.Current := by
  cases hstep with
  | waits hnow => exact h.same (.refl _) rfl rfl rfl rfl rfl
  | assigned received hblank hnew => exact h.assigned received hblank hnew
  | heard hassigned hcamera => exact h.heard hassigned hcamera
  | lost => exact ⟨h.newest, h.redraws, h.blank, h.hears, h.own, h.painted, h.queued, h.drawn⟩
  | drawn => exact h.drawEach
  | toggled o => exact h.redrawn o
  | resized size => exact h.same ⟨rfl, rfl, rfl, rfl, rfl, rfl⟩ rfl rfl rfl rfl rfl

end PanelView

theorem strictEq_string (name : List Char) : strictEq (.string name) (.string name) = true := by
  simp [strictEq]

theorem fillPanel_camId (received : ℕ) (id : Value) (p : Panel) :
    (fillPanel received id p).camId = id := by
  unfold fillPanel
  split_ifs with hsame
  · exact eq_of_strictEq hsame
  · rfl

theorem getElem?_fillPanels (received : ℕ) (ids : List Value) (panels : List Panel) (i : ℕ) :
    (fillPanels received ids panels)[i]? =
      panels[i]?.map fun p => ids[i]?.elim p fun id => fillPanel received id p := by
  induction ids generalizing panels i with
  | nil => simp [fillPanels]
  | cons id ids ih =>
    cases panels with
    | nil => simp [fillPanels]
    | cons p panels =>
      cases i with
      | zero => rfl
      | succ i => simpa [fillPanels] using ih panels i

/-- The panels are filled as the slots are. -/
theorem fillPanels_camIds {panels : List Panel} (hlength : panels.length = maxCameras)
    (received : ℕ) (cameras : List Value) :
    (fillPanels received (cameras.take maxCameras) panels).map Panel.camId =
      fillSlots (panels.map Panel.camId) cameras := by
  have hslots : (panels.map Panel.camId).length = maxCameras := by rw [List.length_map, hlength]
  apply List.ext_getElem?
  intro i
  rw [List.getElem?_map, getElem?_fillPanels, Option.map_map]
  rcases lt_or_ge i maxCameras with hi | hi
  · have hthere : i < panels.length := hlength.symm ▸ hi
    rw [getElem?_fillSlots hslots cameras hi, List.getElem?_take_of_lt hi, List.getElem?_map,
      List.getElem?_eq_getElem hthere]
    cases cameras[i]? with
    | none => rfl
    | some id => exact congrArg some (fillPanel_camId received id _)
  · have hlength' : (fillSlots (panels.map Panel.camId) cameras).length ≤ i := by
      rw [length_fillSlots, hslots]
      exact hi
    rw [List.getElem?_eq_none (hlength.trans_le hi), List.getElem?_eq_none hlength']
    rfl

theorem camIds_modify (f : Panel → Panel) (hf : ∀ p, (f p).camId = p.camId) (panels : List Panel)
    (i : ℕ) : (panels.modify i f).map Panel.camId = panels.map Panel.camId := by
  apply List.ext_getElem?
  intro j
  rw [List.getElem?_map, List.getElem?_map, List.getElem?_modify, Option.map_eq_map,
    Option.map_map]
  congr 1
  funext p
  show (if i = j then f p else p).camId = p.camId
  split_ifs
  · exact hf p
  · rfl

theorem camIds_map (f : Panel → Panel) (hf : ∀ p, (f p).camId = p.camId) (panels : List Panel) :
    (panels.map f).map Panel.camId = panels.map Panel.camId := by
  rw [List.map_map]
  exact List.map_congr_left fun p _ => hf p

/-- The callbacks of an animation frame, panel by panel. -/
theorem getElem?_foldl_draw (o : Overlays) (draws : List (ℕ × Value)) (panels : List Panel)
    (i : ℕ) :
    (draws.foldl (fun panels d => panels.modify d.1 (Panel.draw o d.2)) panels)[i]? =
      panels[i]?.map (Panel.drawEach o ((draws.filter fun d => d.1 = i).map Prod.snd)) := by
  induction draws using List.reverseRecOn with
  | nil => exact Option.map_id'.symm
  | append_singleton draws d ih =>
    rw [List.foldl_concat, List.getElem?_modify, ih, Option.map_eq_map, Option.map_map,
      List.filter_append, List.map_append]
    congr 1
    funext p
    by_cases hd : d.1 = i
    · simp [hd, Panel.drawEach_concat]
    · simp [hd]

namespace Panels
variable {φ : Type*} {s t : Panels φ} {e : PanelEvent φ}

theorem showCameras_camIds (hlength : s.panels.length = maxCameras) (body : List Char) :
    (s.showCameras body).map Panel.camId =
      Dashboard.showCameras (s.panels.map Panel.camId) body := by
  unfold showCameras Dashboard.showCameras
  cases parse body with
  | none => rfl
  | some v =>
    cases v with
    | array cameras => exact fillPanels_camIds hlength _ cameras
    | null | bool _ | number _ | string _ | object _ => rfl

theorem handTo_watching (s : Panels φ) (i : ℕ) (data : Value) :
    (s.handTo i data).watching = s.watching :=
  congrArg (Watching.mk s.frames s.fetches)
    (camIds_modify (Panel.hear s.now data) (fun _ => rfl) s.panels i)

theorem onMessage_watching (s : Panels φ) (text : List Char) :
    (s.onMessage text).watching = s.watching := by
  unfold onMessage
  split
  · rfl
  · split
    · rfl
    · exact (s.receive _).handTo_watching _ _

theorem getElem?_drawAll (s : Panels φ) (i : ℕ) :
    s.drawAll[i]? = s.panels[i]?.map (Panel.drawEach s.overlays (s.waiting i)) :=
  getElem?_foldl_draw ..

theorem drawAll_camIds (s : Panels φ) :
    s.drawAll.map Panel.camId = s.panels.map Panel.camId := by
  apply List.ext_getElem?
  intro i
  rw [List.getElem?_map, List.getElem?_map, getElem?_drawAll, Option.map_map]
  congr 1
  funext p
  exact (Panel.drawEach_sameData s.overlays _ p).camId

/-- Only an answer that is shown changes the slots. -/
theorem watching_slots {u v : Watching φ} {w : WatchEvent φ} (hw : ∀ k, w ≠ .loaded k)
    (h : u.next w = some v) : v.slots = u.slots := by
  cases w with
  | loaded k => exact absurd rfl (hw k)
  | store cam jpeg => rw [← Option.some.inj h]
  | loadCameras => rw [← Option.some.inj h]
  | answered k =>
    simp only [Watching.next] at h
    split at h
    · rw [← Option.some.inj h]
    · contradiction
  | failed k =>
    simp only [Watching.next, Option.ite_none_right_eq_some] at h
    rw [← Option.some.inj h.2]

/-- The steps that have to do with the list of the cameras. -/
theorem next_watch_cases {w : WatchEvent φ} (h : next s (.watch w) = some t) :
    (∃ v, s.watching.next w = some v ∧ v.slots = s.watching.slots ∧
      t = { s with frames := v.frames, fetches := v.fetches }) ∨
    ∃ k body, w = .loaded k ∧ s.fetches[k]? = some (some body) ∧
      t = { s with fetches := s.fetches.eraseIdx k, panels := s.showCameras body } := by
  cases w with
  | loaded k =>
    simp only [next] at h
    split at h
    · rename_i body hfetch
      exact .inr ⟨k, body, rfl, hfetch, (Option.some.inj h).symm⟩
    · contradiction
  | store _ _ | loadCameras | answered _ | failed _ =>
    simp only [next, Option.map_eq_some_iff] at h
    obtain ⟨v, hv, rfl⟩ := h
    exact .inl ⟨v, hv, watching_slots (by simp) hv, rfl⟩

/-- To the list of the cameras a step of the page is a step of its slots or nothing. -/
theorem next_watching (hlength : s.panels.length = maxCameras) (h : next s e = some t) :
    t.watching = s.watching ∨ ∃ w, Watching.next s.watching w = some t.watching := by
  cases e with
  | watch w =>
    refine .inr ⟨w, ?_⟩
    rcases next_watch_cases h with ⟨v, hv, hslots, rfl⟩ | ⟨k, body, rfl, hfetch, rfl⟩
    · rw [hv]
      exact congrArg some (congrArg (Watching.mk v.frames v.fetches) hslots)
    · have hbody : s.watching.fetches[k]? = some (some body) := hfetch
      simp only [Watching.next, hbody]
      simp only [watching, showCameras_camIds hlength]
  | message text =>
    obtain rfl := Option.some.inj h
    exact .inl (s.onMessage_watching text)
  | error =>
    obtain rfl := Option.some.inj h
    have hsame := camIds_map Panel.resetRate (fun _ => rfl) s.panels
    exact .inl (congrArg (Watching.mk s.frames s.fetches) hsame)
  | animationFrame =>
    obtain rfl := Option.some.inj h
    exact .inl (congrArg (Watching.mk s.frames s.fetches) s.drawAll_camIds)
  | toggle key checked =>
    obtain rfl := Option.some.inj h
    have hsame := camIds_map (Panel.redrawn (s.overlays.toggle checked key))
      (fun p => (Panel.redrawn_sameData _ p).camId) s.panels
    exact .inl (congrArg (Watching.mk s.frames s.fetches) hsame)
  | resize i dw dh =>
    obtain rfl := Option.some.inj h
    have hsame := camIds_modify (Panel.resize (dw, dh)) (fun _ => rfl) s.panels i
    exact .inl (congrArg (Watching.mk s.frames s.fetches) hsame)
  | tick now =>
    simp only [next, Option.ite_none_right_eq_some] at h
    obtain rfl := Option.some.inj h.2
    exact .inl rfl

/-- Cameras have names that need no escape, and no message is of a camera `null`. -/
def Named (_ : Panels φ) : PanelEvent φ → Prop
  | .watch (.store cam _) => PlainText cam
  | .message text => ∀ data, parse text = some data → cameraOf data ≠ some .null
  | _ => True

structure Settled (s : Panels φ) : Prop where
  reached : (Watching.system φ).Reachable s.watching
  listed : ∃ calls, s.frames = SharedFrames.storeAll calls ∧ ∀ call ∈ calls, PlainText call.1
  named : ∀ m ∈ s.received, cameraOf m.2 ≠ some .null
  since : ∀ p ∈ s.panels, p.since ≤ s.received.length

theorem Settled.length (h : Settled s) : s.panels.length = maxCameras := by
  have hslots := (Watching.system_consistent h.reached).length
  rwa [watching, List.length_map] at hslots

/-- An assigned panel has the camera that the server lists at its place. -/
theorem Settled.camera (h : Settled s) {i : ℕ} {p : Panel} (hp : s.panels[i]? = some p)
    (hassigned : p.camId ≠ .null) :
    ∃ name, s.frames.cameraOrder[i]? = some name ∧ p.camId = .string name := by
  obtain ⟨calls, hframes, hplain⟩ := h.listed
  have hslot : s.watching.slots[i]? = some p.camId := by
    rw [watching, List.getElem?_map, hp]
    rfl
  obtain ⟨cameras, ⟨names, hnames, hread⟩, hthere⟩ :=
    (Watching.system_consistent h.reached).filled i p.camId hslot hassigned
  have horder : s.frames.cameraOrder = (calls.map Prod.fst).eraseDups := by
    rw [hframes, (SharedFrames.storeAll_listed calls).order]
  have hnames' : ∀ name ∈ names, PlainText name := by
    intro name hname
    have hmem : name ∈ (calls.map Prod.fst).eraseDups := horder ▸ hnames.subset hname
    obtain ⟨call, hcall, rfl⟩ := List.mem_map.mp (List.mem_eraseDups.mp hmem)
    exact hplain call hcall
  rw [camerasJson_eq, (parse_quoted_iff names).mpr hnames', Option.some.injEq,
    Value.array.injEq] at hread
  rw [← hread, List.getElem?_map, Option.map_eq_some_iff] at hthere
  obtain ⟨name, hname, hcamera⟩ := hthere
  obtain ⟨more, hmore⟩ := hnames
  refine ⟨name, ?_, hcamera.symm⟩
  show s.watching.frames.cameraOrder[i]? = some name
  rw [← hmore, List.getElem?_append_left (List.getElem?_eq_some_iff.mp hname).1, hname]

/-- No two panels have one camera. -/
theorem Settled.distinct (h : Settled s) {i j : ℕ} {p q : Panel} (hp : s.panels[i]? = some p)
    (hq : s.panels[j]? = some q) (hassigned : p.camId ≠ .null) (hsame : p.camId = q.camId) :
    i = j := by
  obtain ⟨name, hname, hcamera⟩ := h.camera hp hassigned
  obtain ⟨name', hname', hcamera'⟩ := h.camera hq (hsame ▸ hassigned)
  obtain rfl : name = name' := by
    rw [hcamera, hcamera', Value.string.injEq] at hsame
    exact hsame
  obtain ⟨calls, hframes, _⟩ := h.listed
  have hnodup : s.frames.cameraOrder.Nodup := by
    rw [hframes, (SharedFrames.storeAll_listed calls).order]
    exact nodup_eraseDups _
  obtain ⟨hi, hi'⟩ := List.getElem?_eq_some_iff.mp hname
  obtain ⟨hj, hj'⟩ := List.getElem?_eq_some_iff.mp hname'
  exact (hnodup.getElem_inj_iff).mp (hi'.trans hj'.symm)

/-- The message is of the panel's camera. -/
def hears (p : Panel) (m : ℚ × Value) : Bool := (cameraOf m.2).any (strictEq p.camId)

theorem receive_heardBy {p : Panel} (hsince : p.since ≤ s.received.length) (data : Value) :
    (s.receive data).heardBy p = s.heardBy p ++ [(s.now, data)].filter (hears p) := by
  unfold heardBy receive
  rw [List.drop_append_of_le_length hsince, List.filter_append]
  rfl

/-- What a message does: it is no text that can be read, no panel has its camera, or it is handed to
the first panel that has. -/
theorem onMessage_cases (s : Panels φ) (text : List Char) : s.onMessage text = s ∨
    ∃ data, parse text = some data ∧
      (((∀ p ∈ s.panels, hears p (s.now, data) = false) ∧ s.onMessage text = s.receive data) ∨
      ∃ i p, s.panels[i]? = some p ∧ cameraOf data = some p.camId ∧
        s.onMessage text = (s.receive data).handTo i data) := by
  unfold onMessage
  cases hdata : parse text with
  | none => exact .inl rfl
  | some data =>
    refine .inr ⟨data, rfl, ?_⟩
    dsimp only
    cases hfind : (cameraOf data).bind s.panelFor with
    | none =>
      refine .inl ⟨fun p hp => ?_, rfl⟩
      cases hcamera : cameraOf data with
      | none => simp [hears, hcamera]
      | some camera =>
        rw [hcamera, Option.bind_some] at hfind
        simpa [hears, hcamera] using List.findIdx?_eq_none_iff.mp hfind p hp
    | some i =>
      obtain ⟨camera, hcamera, hfirst⟩ := Option.bind_eq_some_iff.mp hfind
      obtain ⟨hi, hsame, _⟩ := List.findIdx?_eq_some_iff_getElem.mp hfirst
      refine .inr ⟨i, s.panels[i], List.getElem?_eq_getElem hi, ?_, rfl⟩
      rw [hcamera, eq_of_strictEq hsame]

theorem hears_of_assigned (h : Settled s) {i : ℕ} {p : Panel} (hp : s.panels[i]? = some p)
    (hassigned : p.camId ≠ .null) {m : ℚ × Value} (hm : cameraOf m.2 = some p.camId) :
    hears p m = true := by
  obtain ⟨name, _, hcamera⟩ := h.camera hp hassigned
  rw [hears, hm, hcamera]
  exact strictEq_string name

theorem camera_of_hears {p : Panel} {m : ℚ × Value} (h : hears p m = true) :
    cameraOf m.2 = some p.camId := by
  obtain ⟨camera, hcamera, hsame⟩ := (Option.any_eq_true _ _).mp h
  rw [hcamera, eq_of_strictEq hsame]

theorem viewOf_receive {p : Panel} (hsince : p.since ≤ s.received.length) {data : Value}
    (hmiss : hears p (s.now, data) = false) (i : ℕ) :
    (s.receive data).viewOf i p = s.viewOf i p := by
  have hheard : (s.receive data).heardBy p = s.heardBy p := by
    rw [receive_heardBy hsince, List.filter_singleton, hmiss]
    exact List.append_nil _
  rw [viewOf, hheard]
  rfl

theorem waiting_handTo (s : Panels φ) (i j : ℕ) (data : Value) :
    (s.handTo i data).waiting j = s.waiting j ++ if i = j then [data] else [] := by
  unfold waiting handTo
  rw [List.filter_append, List.map_append]
  split_ifs with h <;> simp [h]

/-- A message, seen from one panel: it is new to the panel of its camera alone. -/
theorem onMessage_view (h : Settled s) {text : List Char}
    (hnamed : ∀ data, parse text = some data → cameraOf data ≠ some .null) {i : ℕ} {q : Panel}
    (hq : (s.onMessage text).panels[i]? = some q) :
    ∃ p, s.panels[i]? = some p ∧ (s.viewOf i p).Step ((s.onMessage text).viewOf i q) := by
  rcases s.onMessage_cases text with hsame | ⟨data, hdata, ⟨hmiss, heq⟩ | ⟨j, p, hp, hcamera, heq⟩⟩
  · rw [hsame] at hq ⊢
    exact ⟨q, hq, .waits le_rfl⟩
  · rw [heq] at hq ⊢
    have hmem : q ∈ s.panels := List.mem_of_getElem? hq
    rw [viewOf_receive (h.since q hmem) (hmiss q hmem)]
    exact ⟨q, hq, .waits le_rfl⟩
  · rw [heq] at hq ⊢
    have hassigned : p.camId ≠ .null := fun hnull => hnamed data hdata (hnull ▸ hcamera)
    have hpanel : (s.panels.modify j (Panel.hear s.now data))[i]? = some q := hq
    rw [List.getElem?_modify, Option.map_eq_map, Option.map_eq_some_iff] at hpanel
    obtain ⟨old, hold, rfl⟩ := hpanel
    have hsince := h.since old (List.mem_of_getElem? hold)
    refine ⟨old, hold, ?_⟩
    by_cases hji : j = i
    · subst hji
      obtain rfl := Option.some.inj (hp.symm.trans hold)
      have hhears : hears p (s.now, data) = true := hears_of_assigned h hp hassigned hcamera
      have hview : ((s.receive data).handTo j data).viewOf j (p.hear s.now data) =
          { s.viewOf j p with
            panel := p.hear s.now data
            heard := s.heardBy p ++ [(s.now, data)]
            waiting := s.waiting j ++ [data] } := by
        have hheard : (s.receive data).heardBy p = s.heardBy p ++ [(s.now, data)] := by
          rw [receive_heardBy hsince, List.filter_singleton, hhears]
          rfl
        rw [viewOf, waiting_handTo, if_pos rfl]
        exact congrArg (PanelView.mk _ · _ _ _) hheard
      rw [if_pos rfl, hview]
      exact .heard hassigned hcamera
    · have hmiss : hears old (s.now, data) = false := by
        rw [Bool.eq_false_iff]
        intro hhears
        have hsame := Option.some.inj (hcamera.symm.trans (camera_of_hears hhears))
        exact hji (h.distinct hp hold hassigned hsame)
      have hview : ((s.receive data).handTo j data).viewOf i old =
          (s.receive data).viewOf i old := by
        rw [viewOf, waiting_handTo, if_neg hji, List.append_nil]
        rfl
      rw [if_neg hji, hview, viewOf_receive hsince hmiss]
      exact .waits le_rfl

theorem heardBy_congr {p q : Panel} (hcamId : q.camId = p.camId) (hsince : q.since = p.since) :
    s.heardBy q = s.heardBy p := by
  unfold heardBy
  rw [hsince, hcamId]

/-- A panel that has a camera keeps it, so an answer assigns blank panels only. -/
theorem fillPanel_view (h : Settled s) {i : ℕ} {p : Panel} (hp : s.panels[i]? = some p)
    {id : Value} (hkept : p.camId ≠ .null → id = p.camId) :
    (s.viewOf i p).Step (s.viewOf i (fillPanel s.received.length id p)) := by
  by_cases hsame : strictEq p.camId id = true
  · rw [fillPanel, if_pos hsame]
    exact .waits le_rfl
  · have hblank : p.camId = .null := by
      by_contra hassigned
      obtain ⟨name, _, hcamera⟩ := h.camera hp hassigned
      rw [hkept hassigned, hcamera, strictEq_string] at hsame
      contradiction
    have hnew : id ≠ .null := by
      rintro rfl
      rw [hblank] at hsame
      exact hsame rfl
    have hheard : s.heardBy (p.assignCamera s.received.length id) = [] := by
      rw [heardBy]
      show List.filter _ (s.received.drop s.received.length) = []
      rw [List.drop_length, List.filter_nil]
    have hview : s.viewOf i (p.assignCamera s.received.length id) =
        { s.viewOf i p with panel := p.assignCamera s.received.length id, heard := [] } :=
      congrArg (PanelView.mk _ · _ _ _) hheard
    rw [fillPanel, if_neg hsame, hview]
    exact .assigned s.received.length hblank hnew

theorem showCameras_view (h : Settled s) {body : List Char}
    (hkeeps : Watching.Keeps s.watching (watching { s with panels := s.showCameras body })) {i : ℕ}
    {q : Panel} (hq : (s.showCameras body)[i]? = some q) :
    ∃ p, s.panels[i]? = some p ∧ (s.viewOf i p).Step (s.viewOf i q) := by
  have hslot : ∀ {panels : List Panel} {q : Panel}, panels[i]? = some q →
      (panels.map Panel.camId)[i]? = some q.camId := by
    intro panels q hq
    rw [List.getElem?_map, hq]
    rfl
  have hafter := hslot hq
  rw [showCameras] at hq
  split at hq
  · rename_i cameras _
    rw [getElem?_fillPanels, Option.map_eq_some_iff] at hq
    obtain ⟨p, hp, rfl⟩ := hq
    refine ⟨p, hp, ?_⟩
    cases hid : (cameras.take maxCameras)[i]? with
    | none => exact .waits le_rfl
    | some id =>
      rw [hid, Option.elim_some, fillPanel_camId] at hafter
      refine fillPanel_view h hp fun hassigned => ?_
      exact Option.some.inj (hafter.symm.trans (hkeeps i p.camId (hslot hp) hassigned))
  · exact ⟨q, hq, .waits le_rfl⟩

/-- Every event, seen from one panel. -/
theorem next_view (h : Settled s) (hkeeps : Watching.Keeps s.watching t.watching)
    (hguard : Named s e) (hstep : next s e = some t) {i : ℕ} {q : Panel}
    (hq : t.panels[i]? = some q) :
    ∃ p, s.panels[i]? = some p ∧ (s.viewOf i p).Step (t.viewOf i q) := by
  cases e with
  | watch w =>
    rcases next_watch_cases hstep with ⟨v, hv, hslots, rfl⟩ | ⟨k, body, rfl, hfetch, rfl⟩
    · exact ⟨q, hq, .waits le_rfl⟩
    · exact showCameras_view h hkeeps hq
  | message text =>
    obtain rfl := Option.some.inj hstep
    exact onMessage_view h hguard hq
  | error =>
    obtain rfl := Option.some.inj hstep
    rw [List.getElem?_map, Option.map_eq_some_iff] at hq
    obtain ⟨p, hp, rfl⟩ := hq
    exact ⟨p, hp, .lost⟩
  | animationFrame =>
    obtain rfl := Option.some.inj hstep
    rw [getElem?_drawAll, Option.map_eq_some_iff] at hq
    obtain ⟨p, hp, rfl⟩ := hq
    have hsame := Panel.drawEach_sameData s.overlays (s.waiting i) p
    have hheard := heardBy_congr (s := s) hsame.camId hsame.since
    refine ⟨p, hp, ?_⟩
    have hview : viewOf { s with panels := s.drawAll, draws := [] } i
        (p.drawEach s.overlays (s.waiting i)) =
          { s.viewOf i p with panel := p.drawEach s.overlays (s.waiting i), waiting := [] } :=
      congrArg (PanelView.mk _ · _ _ _) hheard
    rw [hview]
    exact .drawn
  | toggle key checked =>
    obtain rfl := Option.some.inj hstep
    rw [List.getElem?_map, Option.map_eq_some_iff] at hq
    obtain ⟨p, hp, rfl⟩ := hq
    have hsame := Panel.redrawn_sameData (s.overlays.toggle checked key) p
    have hheard := heardBy_congr (s := s) hsame.camId hsame.since
    refine ⟨p, hp, ?_⟩
    have hview : viewOf { s with overlays := s.overlays.toggle checked key } i
        (p.redrawn (s.overlays.toggle checked key)) =
          { s.viewOf i p with
            panel := p.redrawn (s.overlays.toggle checked key)
            overlays := s.overlays.toggle checked key } :=
      congrArg (PanelView.mk _ · _ _ _) hheard
    show (s.viewOf i p).Step (viewOf { s with overlays := s.overlays.toggle checked key } i _)
    rw [hview]
    exact .toggled _
  | resize j dw dh =>
    obtain rfl := Option.some.inj hstep
    rw [List.getElem?_modify, Option.map_eq_map, Option.map_eq_some_iff] at hq
    obtain ⟨p, hp, rfl⟩ := hq
    refine ⟨p, hp, ?_⟩
    split_ifs
    · exact .resized _
    · exact .waits le_rfl
  | tick now =>
    simp only [next, Option.ite_none_right_eq_some] at hstep
    obtain ⟨hnow, rfl⟩ := And.imp_right Option.some.inj hstep
    exact ⟨q, hq, .waits hnow⟩

/-- Only frames of cameras come in, and only messages are added to the history. -/
theorem next_history (hguard : Named s e) (hstep : next s e = some t) :
    (t.frames = s.frames ∨ ∃ cam jpeg, PlainText cam ∧ t.frames = s.frames.store cam jpeg) ∧
      (t.received = s.received ∨
        ∃ m, cameraOf m.2 ≠ some .null ∧ t.received = s.received ++ [m]) := by
  cases e with
  | watch w =>
    rcases next_watch_cases hstep with ⟨v, hv, _, rfl⟩ | ⟨k, body, rfl, _, rfl⟩
    · refine ⟨?_, .inl rfl⟩
      cases w with
      | store cam jpeg => exact .inr ⟨cam, jpeg, hguard, by rw [← Option.some.inj hv]; rfl⟩
      | loadCameras => exact .inl (by rw [← Option.some.inj hv]; rfl)
      | answered k =>
        simp only [Watching.next] at hv
        split at hv
        · exact .inl (by rw [← Option.some.inj hv]; rfl)
        · contradiction
      | loaded k =>
        simp only [Watching.next] at hv
        split at hv
        · exact .inl (by rw [← Option.some.inj hv]; rfl)
        · contradiction
      | failed k =>
        simp only [Watching.next, Option.ite_none_right_eq_some] at hv
        exact .inl (by rw [← Option.some.inj hv.2]; rfl)
    · exact ⟨.inl rfl, .inl rfl⟩
  | message text =>
    obtain rfl := Option.some.inj hstep
    rcases s.onMessage_cases text with hsame | ⟨data, hdata, ⟨_, heq⟩ | ⟨j, p, _, _, heq⟩⟩
    · rw [hsame]
      exact ⟨.inl rfl, .inl rfl⟩
    · rw [heq]
      exact ⟨.inl rfl, .inr ⟨_, hguard data hdata, rfl⟩⟩
    · rw [heq]
      exact ⟨.inl rfl, .inr ⟨_, hguard data hdata, rfl⟩⟩
  | error | animationFrame | toggle _ _ | resize _ _ _ =>
    obtain rfl := Option.some.inj hstep
    exact ⟨.inl rfl, .inl rfl⟩
  | tick now =>
    simp only [next, Option.ite_none_right_eq_some] at hstep
    obtain rfl := Option.some.inj hstep.2
    exact ⟨.inl rfl, .inl rfl⟩

/-- A panel counts the messages from an assignment on. -/
theorem next_since (h : Settled s) (hstep : next s e = some t) :
    ∀ q ∈ t.panels, q.since ≤ s.received.length := by
  intro q hq
  have hold : ∀ {i : ℕ} {p : Panel}, s.panels[i]? = some p → p.since ≤ s.received.length :=
    fun hp => h.since _ (List.mem_of_getElem? hp)
  obtain ⟨i, hq⟩ := List.mem_iff_getElem?.mp hq
  cases e with
  | watch w =>
    rcases next_watch_cases hstep with ⟨v, _, _, rfl⟩ | ⟨k, body, rfl, _, rfl⟩
    · exact hold hq
    · have hshown : (s.showCameras body)[i]? = some q := hq
      rw [showCameras] at hshown
      split at hshown
      · rename_i cameras _
        rw [getElem?_fillPanels, Option.map_eq_some_iff] at hshown
        obtain ⟨p, hp, rfl⟩ := hshown
        cases (cameras.take maxCameras)[i]? with
        | none => exact hold hp
        | some id =>
          rw [Option.elim_some, fillPanel]
          split_ifs
          · exact hold hp
          · exact le_rfl
      · exact hold hshown
  | message text =>
    obtain rfl := Option.some.inj hstep
    rcases s.onMessage_cases text with hsame | ⟨data, _, ⟨_, heq⟩ | ⟨j, p, _, _, heq⟩⟩
    · rw [hsame] at hq
      exact hold hq
    · rw [heq] at hq
      exact hold hq
    · rw [heq] at hq
      have hmodify : (s.panels.modify j (Panel.hear s.now data))[i]? = some q := hq
      rw [List.getElem?_modify, Option.map_eq_map, Option.map_eq_some_iff] at hmodify
      obtain ⟨old, hp, rfl⟩ := hmodify
      have hsince := hold hp
      split_ifs <;> exact hsince
  | error =>
    obtain rfl := Option.some.inj hstep
    rw [List.getElem?_map, Option.map_eq_some_iff] at hq
    obtain ⟨p, hp, rfl⟩ := hq
    have hsince := hold hp
    exact hsince
  | animationFrame =>
    obtain rfl := Option.some.inj hstep
    rw [getElem?_drawAll, Option.map_eq_some_iff] at hq
    obtain ⟨p, hp, rfl⟩ := hq
    rw [(Panel.drawEach_sameData _ _ p).since]
    exact hold hp
  | toggle key checked =>
    obtain rfl := Option.some.inj hstep
    rw [List.getElem?_map, Option.map_eq_some_iff] at hq
    obtain ⟨p, hp, rfl⟩ := hq
    rw [(Panel.redrawn_sameData _ p).since]
    exact hold hp
  | resize j dw dh =>
    obtain rfl := Option.some.inj hstep
    rw [List.getElem?_modify, Option.map_eq_map, Option.map_eq_some_iff] at hq
    obtain ⟨p, hp, rfl⟩ := hq
    have hsince := hold hp
    split_ifs <;> exact hsince
  | tick now =>
    simp only [next, Option.ite_none_right_eq_some] at hstep
    obtain rfl := Option.some.inj hstep.2
    exact hold hq

theorem Settled.next (h : Settled s) (hguard : Named s e) (hstep : next s e = some t) :
    Settled t ∧ Watching.Keeps s.watching t.watching := by
  obtain ⟨hframes, hreceived⟩ := next_history hguard hstep
  have hwatching : (Watching.system φ).Reachable t.watching ∧
      Watching.Keeps s.watching t.watching := by
    rcases next_watching h.length hstep with hsame | ⟨w, hw⟩
    · rw [hsame]
      exact ⟨h.reached, fun _ _ hv _ => hv⟩
    · exact ⟨h.reached.step hw, (Watching.next_keeps (Watching.system_consistent h.reached) hw).2⟩
  refine ⟨⟨hwatching.1, ?_, ?_, fun q hq => (next_since h hstep q hq).trans ?_⟩, hwatching.2⟩
  · obtain ⟨calls, hcalls, hplain⟩ := h.listed
    rcases hframes with hsame | ⟨cam, jpeg, hcam, hstored⟩
    · exact ⟨calls, hsame.trans hcalls, hplain⟩
    · refine ⟨calls ++ [(cam, jpeg)], ?_, ?_⟩
      · rw [hstored, hcalls, SharedFrames.storeAll_concat]
      · simpa [or_imp, forall_and] using ⟨fun a b => hplain (a, b), hcam⟩
  · rcases hreceived with hsame | ⟨m, hm, hgrown⟩
    · rw [hsame]
      exact h.named
    · rw [hgrown]
      simpa [or_imp, forall_and] using ⟨fun a b => h.named (a, b), hm⟩
  · rcases hreceived with hsame | ⟨m, _, hgrown⟩
    · rw [hsame]
    · rw [hgrown, List.length_append]
      exact Nat.le_add_right _ _

/-- What holds of every panel: the rate and the drawing are right. -/
structure Attended (s : Panels φ) (i : ℕ) (p : Panel) : Prop where
  rated : (s.viewOf i p).Rated
  current : (s.viewOf i p).Current

theorem attended_of_reachable (h : ((system φ).restrict Named).Reachable s) :
    Settled s ∧ ∀ i p, s.panels[i]? = some p → Attended s i p := by
  apply h.invariant
  · refine ⟨⟨.start, ⟨[], rfl, nofun⟩, nofun, fun p hp => ?_⟩, fun i p hp => ?_⟩
    · rw [List.eq_of_mem_replicate hp]
      exact le_rfl
    · obtain rfl := List.eq_of_mem_replicate (List.mem_of_getElem? hp)
      exact ⟨⟨.nil, nofun, rfl, nofun, fun _ => rfl⟩,
        ⟨rfl, fun hassigned => absurd rfl hassigned, fun _ => ⟨rfl, rfl, rfl⟩, nofun, nofun, rfl,
          nofun, fun _ => nofun⟩⟩
  · intro s e t _ hs hstep
    obtain ⟨hguard, hnext⟩ := Transition.LTS.restrict_step hstep
    obtain ⟨hsettled, hattended⟩ := hs
    obtain ⟨hafter, hkeeps⟩ := hsettled.next hguard hnext
    refine ⟨hafter, fun i q hq => ?_⟩
    obtain ⟨p, hp, hview⟩ := next_view hsettled hkeeps hguard hnext hq
    have hbefore := hattended i p hp
    exact ⟨hbefore.rated.step hview, hbefore.current.step hview⟩

/-- What an operator sees of a camera. -/
structure Shows (s : Panels φ) (i : ℕ) (p : Panel) : Prop where
  /-- The panel has the newest message of its camera that came since it got the camera. -/
  newest : p.lastData = (s.heardBy p).getLast?.map Prod.snd
  /-- Nothing of another camera has been drawn on its canvas or waits for that. -/
  own : ∀ data, data ∈ s.waiting i ∨ data ∈ p.calls.map DrawCall.data →
    cameraOf data = some p.camId
  /-- What waits ends with the newest message. -/
  queued : ∀ data ∈ (s.waiting i).getLast?, p.lastData = some data
  /-- When nothing waits, the canvas has that message, with the toggles as they are now. -/
  drawn : s.waiting i = [] → ∀ data ∈ p.lastData, ∃ dw dh,
    p.calls.getLast? = some ⟨s.overlays, dw, dh, data⟩ ∧
      ∀ marks, drawFrame s.overlays dw dh data = some marks → p.canvas = marks

/-- Whatever comes in between, every panel shows its own camera as of the newest message. -/
theorem panels_show (h : ((system φ).restrict Named).Reachable s) {i : ℕ} {p : Panel}
    (hp : s.panels[i]? = some p) : Shows s i p := by
  have hcurrent := ((attended_of_reachable h).2 i p hp).current
  refine ⟨hcurrent.newest, hcurrent.own, hcurrent.queued, fun hwaiting data hdata => ?_⟩
  obtain ⟨dw, dh, hlast⟩ := hcurrent.drawn hwaiting data hdata
  refine ⟨dw, dh, hlast, fun marks hmarks => ?_⟩
  have hcalls' : ∃ before, p.calls = before ++ [⟨s.overlays, dw, dh, data⟩] :=
    List.getLast?_eq_some_iff.mp hlast
  obtain ⟨before, hcalls⟩ := hcalls'
  have hpainted : p.canvas = (p.calls.filterMap DrawCall.marks).getLast?.getD [] :=
    hcurrent.painted
  have hmarks' : (DrawCall.mk s.overlays dw dh data).marks = some marks := hmarks
  rw [hpainted, hcalls]
  simp [hmarks']

/-- The rate is that of the messages of the panel's camera within the two seconds up to the last of
them, rounded up to whole ones for each second. -/
theorem panels_rate (h : ((system φ).restrict Named).Reachable s) {i : ℕ} {p : Panel}
    (hp : s.panels[i]? = some p) :
    ∀ n ∈ p.fps, n = framesPerSecond
      (RollingWindow.recent tooOld ((s.heardBy p).map Prod.fst)).length := by
  intro n hn
  have hrated := ((attended_of_reachable h).2 i p hp).rated
  have hwindow : p.fpsFrames = RollingWindow.window tooOld ((s.heardBy p).map Prod.fst) :=
    hrated.window
  have hordered : ((s.heardBy p).map Prod.fst).Pairwise (· ≤ ·) := hrated.ordered
  rw [← RollingWindow.window_eq_recent tooOld_ages hordered, ← hwindow]
  exact hrated.rate n hn

/-- The documents of the server are messages of a camera. -/
theorem named_document (outside : ℚ → ℤ) {u : DetectionUpdate} (hname : PlainText u.cameraId)
    (hconf : ∀ d ∈ u.detections, ConfFits d.confidence) :
    Named s (.message (detectionsJson outside u)) := by
  intro data hdata
  rw [parse_detectionsJson outside hname hconf] at hdata
  obtain rfl := Option.some.inj hdata
  have hcamera : cameraOf (.object (documentMembers outside u)) = some (.string u.cameraId) := rfl
  rw [hcamera]
  simp

end Panels

def gateUpdate (x : ℚ) : DetectionUpdate where
  cameraId := "gate".toList
  detections := []
  zones := [{ forkliftBox := ⟨x + 8, 50, 80, 60⟩, zoneBox := ⟨x, 40, 96, 80⟩ }]
  frameW := 640
  frameH := 360

def gateMessage (x : ℚ) : PanelEvent Unit :=
  .message (detectionsJson (fun _ => 0) (gateUpdate x))

/-- Two messages come before the first frame, and one when the first has left the window. -/
def gateEvents : List (PanelEvent Unit) :=
  [.watch (.store "gate".toList ()), .watch .loadCameras, .watch (.answered 0),
    .watch (.loaded 0), .resize 0 320 180, .tick 1000, gateMessage 100, .tick 1500,
    gateMessage 110, .animationFrame, .tick 3200, gateMessage 120, .animationFrame]

theorem gateEvents_named : ∀ e ∈ gateEvents, ∀ s, Panels.Named s e := by
  have hmessage : ∀ x s, Panels.Named s (gateMessage x) := fun x s =>
    Panels.named_document _ (show PlainText "gate".toList by decide) (by simp [gateUpdate])
  have hstore : PlainText "gate".toList := by decide
  intro e he s
  simp only [gateEvents, List.mem_cons, List.not_mem_nil, or_false] at he
  rcases he with rfl | rfl | rfl | rfl | rfl | rfl | rfl | rfl | rfl | rfl | rfl | rfl | rfl
  all_goals first | exact hmessage _ s | exact hstore | exact trivial

theorem gate_reachable : ∃ s p, ((Panels.system Unit).restrict Panels.Named).Reachable s ∧
    s.panels[0]? = some p ∧ s.draws = [] ∧ p.fpsFrames = [1500, 3200] ∧ p.fps = some 1 ∧
    p.canvas.length = 1 := by
  have hview : (Transition.exec Panels.next {} gateEvents).map (fun s =>
      (s.panels[0]?.map fun p => (p.fpsFrames, p.fps, p.canvas.length), s.draws.length)) =
        some (some ([1500, 3200], some 1, 1), 0) := by
    decide +kernel
  obtain ⟨s, hs, hsame⟩ := Option.map_eq_some_iff.mp hview
  obtain ⟨hpanel, hdraws⟩ := Prod.mk.inj hsame
  obtain ⟨p, hp, hsame⟩ := Option.map_eq_some_iff.mp hpanel
  obtain ⟨hframes, hsame⟩ := Prod.mk.inj hsame
  obtain ⟨hfps, hcanvas⟩ := Prod.mk.inj hsame
  exact ⟨s, p, path_restrict_of_exec gateEvents_named hs, hp, List.length_eq_zero_iff.mp hdraws,
    hframes, hfps, hcanvas⟩

theorem panels_show_gate : ∃ (s : Panels Unit) (p : Panel), s.waiting 0 = [] ∧
    p.canvas.length = 1 ∧ Panels.Shows s 0 p := by
  obtain ⟨s, p, hs, hp, hdraws, _, _, hcanvas⟩ := gate_reachable
  exact ⟨s, p, by rw [Panels.waiting, hdraws]; rfl, hcanvas, Panels.panels_show hs hp⟩

theorem panels_rate_gate : ∃ (s : Panels Unit) (p : Panel), p.fpsFrames = [1500, 3200] ∧
    p.fps = some 1 ∧ ∀ n ∈ p.fps, n = framesPerSecond
      (RollingWindow.recent tooOld ((s.heardBy p).map Prod.fst)).length := by
  obtain ⟨s, p, hs, hp, _, hframes, hfps, _⟩ := gate_reachable
  exact ⟨s, p, hframes, hfps, Panels.panels_rate hs hp⟩

end Dashboard
end ForkliftSafety
