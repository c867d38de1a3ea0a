import ForkliftSafety.Infrastructure.VideoSource
import Mathlib.Data.List.Basic

/-! `VideoFileSource` on a file: the `cv::VideoCapture` has a position in it, and the answers that
the source gets follow from there. -/
namespace ForkliftSafety

/-- A video whose frames can all be read. -/
structure VideoFile where
  frames : List Image
  readable : ∀ mat ∈ frames, CapRead.failed ⟨true, mat⟩ = false

/-- A `cv::VideoCapture`; `position` is the frame that is read next. -/
structure VideoCapture where
  isOpened : Bool := false
  position : ℕ := 0

namespace VideoCapture

/-- `cap_.open`: an open capture starts at the first frame. -/
def openFile (opens : Bool) : VideoCapture := { isOpened := opens }

def release : VideoCapture := {}

def setPosFrames (cap : VideoCapture) (k : ℕ) : VideoCapture := { cap with position := k }

def read (file : VideoFile) (cap : VideoCapture) : CapRead × VideoCapture :=
  match file.frames[cap.position]? with
  | some mat =>
    if cap.isOpened then (⟨true, mat⟩, { cap with position := cap.position + 1 })
    else (⟨false, {}⟩, cap)
  | none => (⟨false, {}⟩, cap)

variable {file : VideoFile} {cap : VideoCapture}

@[simp] theorem setPosFrames_isOpened (k : ℕ) : (cap.setPosFrames k).isOpened = cap.isOpened := rfl

@[simp] theorem read_isOpened : (cap.read file).2.isOpened = cap.isOpened := by
  unfold read
  cases file.frames[cap.position]? with
  | none => rfl
  | some mat => by_cases h : cap.isOpened = true <;> simp [h]

theorem read_frame {mat : Image} (h : cap.isOpened = true)
    (hmat : file.frames[cap.position]? = some mat) :
    cap.read file = (⟨true, mat⟩, { cap with position := cap.position + 1 }) := by
  simp [read, hmat, h]

theorem read_end (h : file.frames[cap.position]? = none) :
    cap.read file = (⟨false, {}⟩, cap) := by
  simp [read, h]

end VideoCapture

theorem VideoFile.not_failed (file : VideoFile) {k : ℕ} {mat : Image}
    (h : file.frames[k]? = some mat) : CapRead.failed ⟨true, mat⟩ = false :=
  file.readable mat (List.mem_of_getElem? h)

/-- The fields of a `VideoFileSource` that change. -/
structure FileSource where
  cap : VideoCapture := {}
  sequence : ℕ := 0

namespace FileSource
variable (file : VideoFile) (cfg : VideoFileConfig)

def openSource (s : FileSource) (opens : Bool) : FileSource :=
  { s with cap := VideoCapture.openFile opens }

def close (s : FileSource) : FileSource :=
  if s.cap.isOpened then { s with cap := VideoCapture.release } else s

/-- The end of `read_frame`, with the place in the file that the frame was read from. -/
def stamp (s : FileSource) (cap : VideoCapture) (k : ℕ) (mat : Image) (now : TimePoint) :
    Option (ℕ × Frame) × FileSource :=
  let sequence := (s.sequence + 1) % 2 ^ 64
  (some (k, { cameraId := cfg.cameraId, sequence := sequence, capturedAt := now, image := mat }),
    { cap := cap, sequence := sequence })

def readFrame (s : FileSource) (now : TimePoint) : Option (ℕ × Frame) × FileSource :=
  if s.cap.isOpened then
    let (r, cap) := s.cap.read file
    if r.failed then
      if cfg.loop then
        let (r', cap') := (cap.setPosFrames 0).read file
        if r'.failed then (none, { s with cap := cap' })
        else s.stamp cfg cap' 0 r'.mat now
      else (none, { s with cap := cap })
    else s.stamp cfg cap s.cap.position r.mat now
  else (none, s)

/-- What of the source does not depend on the file. -/
def state (s : FileSource) : SourceState := { isOpened := s.cap.isOpened, sequence := s.sequence }

/-- The answers that the capture gives in this state. -/
def answers (s : FileSource) (opens : Bool) (now : TimePoint) : CapAnswers where
  opens := opens
  first := (s.cap.read file).1
  second := ((s.cap.setPosFrames 0).read file).1
  now := now

variable {file cfg}

theorem readFrame_closed {s : FileSource} (h : s.cap.isOpened = false) (now : TimePoint) :
    s.readFrame file cfg now = (none, s) := by
  simp [readFrame, h]

theorem readFrame_frame {s : FileSource} {mat : Image} (h : s.cap.isOpened = true)
    (hmat : file.frames[s.cap.position]? = some mat) (now : TimePoint) :
    s.readFrame file cfg now =
      s.stamp cfg { s.cap with position := s.cap.position + 1 } s.cap.position mat now := by
  simp [readFrame, h, VideoCapture.read_frame h hmat, file.not_failed hmat]

/-- At its end, a file that does not loop yields nothing. -/
theorem readFrame_end {s : FileSource} (hloop : cfg.loop = false)
    (hend : file.frames[s.cap.position]? = none) (now : TimePoint) :
    s.readFrame file cfg now = (none, s) := by
  by_cases h : s.cap.isOpened = true
  · simp [readFrame, h, VideoCapture.read_end hend, CapRead.failed, hloop]
  · exact readFrame_closed (by simpa using h) now

variable (file cfg) in
/-- The source on a file is the source that gets the answers of its capture. -/
theorem readFrame_agrees (s : FileSource) (opens : Bool) (now : TimePoint) :
    (s.readFrame file cfg now).1.map Prod.snd =
        ((CameraSource.videoFile cfg).readFrame s.state (s.answers file opens now)).1 ∧
      (s.readFrame file cfg now).2.state =
        ((CameraSource.videoFile cfg).readFrame s.state (s.answers file opens now)).2 := by
  by_cases h : s.cap.isOpened = true
  · cases hmat : file.frames[s.cap.position]? with
    | some mat =>
      rw [readFrame_frame h hmat]
      simp [CameraSource.readFrame, state, answers, h, VideoCapture.read_frame h hmat,
        file.not_failed hmat, stamp, CameraSource.stampFrame, CameraSource.cameraId]
    | none =>
      have hend := VideoCapture.read_end hmat
      have hfailed : CapRead.failed ⟨false, {}⟩ = true := rfl
      by_cases hloop : cfg.loop = true
      · by_cases hagain : ((s.cap.setPosFrames 0).read file).1.failed = true
        · simp [readFrame, CameraSource.readFrame, state, answers, h, hend, hfailed, hloop, hagain]
        · simp [readFrame, CameraSource.readFrame, state, answers, h, hend, hfailed, hloop, hagain,
            stamp, CameraSource.stampFrame, CameraSource.cameraId]
      · simp [readFrame, CameraSource.readFrame, state, answers, h, hend, hfailed, hloop]
  · simp [readFrame, CameraSource.readFrame, state, h]

theorem close_agrees (s : FileSource) : s.close.state = CameraSource.close s.state := by
  by_cases h : s.cap.isOpened = true
  · simp [close, state, CameraSource.close, VideoCapture.release, h]
  · simp [close, state, CameraSource.close, h]

end FileSource
end ForkliftSafety
