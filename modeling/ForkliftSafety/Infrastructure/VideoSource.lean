import ForkliftSafety.Domain.Detection

/-! `RtspCameraSource` and `VideoFileSource` over a `cv::VideoCapture` whose answers come from
outside. Pacing, which only sleeps, is apart from this. -/
namespace ForkliftSafety

structure RtspConfig where
  cameraId : String := ""
  rtspUrl : String := ""
  reconnectBackoffMs : ℤ := 1000
  maxReconnectBackoffMs : ℤ := 15000
  readTimeoutMs : ℤ := 5000
  deriving DecidableEq, Repr

structure VideoFileConfig where
  cameraId : String := ""
  filePath : String := ""
  loop : Bool := true
  realtimePacing : Bool := true
  deriving DecidableEq, Repr

/-- What `cap_.read(mat)` returns and leaves in `mat`. -/
structure CapRead where
  ok : Bool
  mat : Image

/-- `!cap_.read(mat) || mat.empty()`. -/
def CapRead.failed (r : CapRead) : Bool := !r.ok || r.mat.cols = 0 || r.mat.rows = 0

/-- The answers one call of a source may need: whether `cap_.open` succeeds, up to two reads, and
the clock. -/
structure CapAnswers where
  opens : Bool
  first : CapRead
  second : CapRead
  now : TimePoint

/-- The fields of a source that change; `sequence` is a `uint64_t`. -/
structure SourceState where
  isOpened : Bool := false
  sequence : ℕ := 0

inductive CameraSource where
  | rtsp (cfg : RtspConfig)
  | videoFile (cfg : VideoFileConfig)

namespace CameraSource

def cameraId : CameraSource → String
  | .rtsp cfg => cfg.cameraId
  | .videoFile cfg => cfg.cameraId

/-- `open`: its result and the state after it. -/
def openSource (src : CameraSource) (s : SourceState) (a : CapAnswers) :
    Except Error Unit × SourceState :=
  let s' := { s with isOpened := a.opens }
  match src with
  | .rtsp cfg =>
    if a.opens then (.ok (), s')
    else (.error { code := 1, message := "failed to open RTSP: " ++ cfg.rtspUrl }, s')
  | .videoFile cfg =>
    if a.opens then (.ok (), s')
    else (.error { code := 1, message := "failed to open video file: " ++ cfg.filePath }, s')

def close (s : SourceState) : SourceState := { s with isOpened := false }

/-- The end of both `read_frame`s: the frame gets the next sequence number. -/
def stampFrame (src : CameraSource) (s : SourceState) (mat : Image) (now : TimePoint) :
    Option Frame × SourceState :=
  let sequence := (s.sequence + 1) % 2 ^ 64
  (some { cameraId := src.cameraId, sequence := sequence, capturedAt := now, image := mat },
    { s with sequence := sequence })

def readFrame (src : CameraSource) (s : SourceState) (a : CapAnswers) :
    Option Frame × SourceState :=
  if s.isOpened then
    match src with
    | .rtsp _ => if a.first.failed then (none, s) else src.stampFrame s a.first.mat a.now
    | .videoFile cfg =>
      if a.first.failed then
        if cfg.loop then
          -- The second read follows a rewind to the first frame.
          if a.second.failed then (none, s) else src.stampFrame s a.second.mat a.now
        else (none, s)
      else src.stampFrame s a.first.mat a.now
  else (none, s)

@[simp] theorem openSource_sequence (src : CameraSource) (s : SourceState) (a : CapAnswers) :
    (src.openSource s a).2.sequence = s.sequence := by
  unfold openSource
  cases src <;> by_cases h : a.opens <;> simp [h]

@[simp] theorem close_sequence (s : SourceState) : (close s).sequence = s.sequence := rfl

/-- A call of `read_frame` either returns a frame under the next number, or no frame and leaves
the count as it was. -/
theorem readFrame_sequence (src : CameraSource) (s : SourceState) (a : CapAnswers) :
    src.readFrame s a = (none, s) ∨ ∃ frame, (src.readFrame s a).1 = some frame ∧
      frame.sequence = (s.sequence + 1) % 2 ^ 64 ∧
      (src.readFrame s a).2.sequence = (s.sequence + 1) % 2 ^ 64 := by
  have hstamp (mat : Image) : ∃ frame, (src.stampFrame s mat a.now).1 = some frame ∧
      frame.sequence = (s.sequence + 1) % 2 ^ 64 ∧
      (src.stampFrame s mat a.now).2.sequence = (s.sequence + 1) % 2 ^ 64 :=
    ⟨_, rfl, rfl, rfl⟩
  unfold readFrame
  by_cases hopen : s.isOpened
  · cases src with
    | rtsp cfg =>
      by_cases hfirst : a.first.failed
      · simp [hopen, hfirst]
      · simpa [hopen, hfirst] using .inr (hstamp a.first.mat)
    | videoFile cfg =>
      by_cases hfirst : a.first.failed
      · by_cases hsecond : cfg.loop = true ∧ a.second.failed = false
        · simpa [hopen, hfirst, hsecond] using .inr (hstamp a.second.mat)
        · left
          by_cases hloop : cfg.loop <;> simp_all
      · simpa [hopen, hfirst] using .inr (hstamp a.first.mat)
  · simp [hopen]

end CameraSource
end ForkliftSafety
