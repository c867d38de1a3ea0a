import ForkliftSafety.Infrastructure.SharedState
import ForkliftSafety.Library.Decimal
import ForkliftSafety.Library.Records
import Mathlib.Data.List.Destutter
import Mathlib.Data.List.ReduceOption

/-! The parts of an MJPEG stream of `MjpegStreamServer`, and a reader of them. -/
namespace ForkliftSafety
open Records

def charByte (c : Char) : UInt8 := UInt8.ofNat c.toNat

def byteChar (b : UInt8) : Char := Char.ofNat b.toNat

def bytesOf (s : List Char) : List UInt8 := s.map charByte

def isDigitByte (b : UInt8) : Bool := (byteChar b).isDigit

theorem byteChar_charByte {c : Char} (h : c.isDigit = true) : byteChar (charByte c) = c := by
  have hsmall : c.toNat < 256 := by
    simp only [Char.isDigit, Bool.and_eq_true, decide_eq_true_eq] at h
    have hle : c.toNat ≤ 57 := h.2
    omega
  rw [byteChar, charByte, UInt8.toNat_ofNat', Nat.mod_eq_of_lt hsmall, Char.ofNat_toNat]

/-- A frame as `SharedState` holds it: an address and the bytes behind it. -/
structure JpegPtr where
  address : ℕ
  bytes : List UInt8
  deriving DecidableEq, Repr

def partHeader : List UInt8 :=
  bytesOf "--frame\r\nContent-Type: image/jpeg\r\nContent-Length: ".toList

def crlf : List UInt8 := bytesOf "\r\n".toList

/-- `std::to_string` of a size. -/
def sizeText (n : ℕ) : List UInt8 := bytesOf (Nat.toDigits 10 n)

/-- What `mjpeg_tick` writes for a frame. -/
def mjpegPart (jpeg : List UInt8) : List UInt8 :=
  partHeader ++ (sizeText jpeg.length ++ (crlf ++ crlf ++ (jpeg ++ crlf)))

/-- A decimal number of at least one digit. -/
def readSize (s : List UInt8) : Option (ℕ × List UInt8) :=
  let digits := s.takeWhile isDigitByte
  if digits = [] then none
  else some (Nat.ofDigitChars 10 (digits.map byteChar) 0, s.dropWhile isDigitByte)

/-- The reader of one part: header, `Content-Length`, blank line, as many bytes, and a line end. -/
def readPart (s : List UInt8) : Option (List UInt8 × List UInt8) :=
  (strip partHeader s).bind fun s =>
    (readSize s).bind fun size =>
      (strip (crlf ++ crlf) size.2).bind fun s =>
        (takeExactly size.1 s).bind fun body =>
          (strip crlf body.2).map fun rest => (body.1, rest)

theorem isDigitByte_of_mem {n : ℕ} {b : UInt8} (h : b ∈ sizeText n) : isDigitByte b = true := by
  obtain ⟨c, hc, rfl⟩ := List.mem_map.mp h
  have hdigit := Decimal.isDigit_of_mem hc
  rw [isDigitByte, byteChar_charByte hdigit, hdigit]

theorem map_byteChar_sizeText (n : ℕ) : (sizeText n).map byteChar = Nat.toDigits 10 n := by
  rw [sizeText, bytesOf, List.map_map]
  conv_rhs => rw [← List.map_id (Nat.toDigits 10 n)]
  apply List.map_congr_left
  intro c hc
  exact byteChar_charByte (Decimal.isDigit_of_mem hc)

/-- A size is read up to the line end behind it. -/
theorem readSize_append (n : ℕ) (rest : List UInt8) :
    readSize (sizeText n ++ (crlf ++ rest)) = some (n, crlf ++ rest) := by
  have hcr : isDigitByte (charByte '\r') = false := by decide
  have hdigits := fun b hb => isDigitByte_of_mem (n := n) (b := b) hb
  have hstop : crlf ++ rest = charByte '\r' :: (charByte '\n' :: rest) := rfl
  have hne : sizeText n ≠ [] := by
    rw [sizeText, bytesOf, ne_eq, List.map_eq_nil_iff]
    exact Nat.toDigits_ne_nil
  have htake : (sizeText n ++ (crlf ++ rest)).takeWhile isDigitByte = sizeText n := by
    rw [List.takeWhile_append_of_pos hdigits, hstop, List.takeWhile_cons_of_neg (by simp [hcr]),
      List.append_nil]
  have hdrop : (sizeText n ++ (crlf ++ rest)).dropWhile isDigitByte = crlf ++ rest := by
    rw [List.dropWhile_append_of_pos hdigits, hstop, List.dropWhile_cons_of_neg (by simp [hcr])]
  rw [readSize, htake, if_neg hne, hdrop, map_byteChar_sizeText, Nat.ofDigitChars_ten_toDigits]

/-- Whatever the bytes of the frame are, the reader takes exactly its part off. -/
theorem readPart_append (jpeg rest : List UInt8) :
    readPart (mjpegPart jpeg ++ rest) = some (jpeg, rest) := by
  have hshape : mjpegPart jpeg ++ rest =
      partHeader ++ (sizeText jpeg.length ++ (crlf ++ (crlf ++ (jpeg ++ (crlf ++ rest))))) := by
    simp only [mjpegPart, List.append_assoc]
  have hblank : crlf ++ (crlf ++ (jpeg ++ (crlf ++ rest))) =
      (crlf ++ crlf) ++ (jpeg ++ (crlf ++ rest)) := (List.append_assoc ..).symm
  rw [readPart, hshape, strip_append, Option.bind_some, readSize_append, Option.bind_some, hblank,
    strip_append, Option.bind_some, takeExactly_append, Option.bind_some, strip_append]
  rfl

theorem mjpegPart_readable (jpeg : List UInt8) : Readable mjpegPart readPart jpeg where
  nonempty := List.append_ne_nil_of_left_ne_nil (by decide) _
  read_append := readPart_append jpeg

/-- A session, with what it has written behind the header of the response. -/
structure MjpegSession where
  lastSent : Option JpegPtr := none
  written : List UInt8 := []

namespace MjpegSession

/-- `jpeg && jpeg != last_sent_`: shared pointers are compared by their address. -/
def fresh (lastSent : Option JpegPtr) (jpeg : JpegPtr) : Bool :=
  lastSent.map JpegPtr.address != some jpeg.address

def mjpegTick (camera : List Char) (s : MjpegSession) (frames : SharedFrames JpegPtr) :
    MjpegSession :=
  match frames.latestFor camera with
  | none => s
  | some jpeg =>
    if fresh s.lastSent jpeg then
      { lastSent := some jpeg, written := s.written ++ mjpegPart jpeg.bytes }
    else s

/-- A session over the states in which its ticks find the shared frames. -/
def stream (camera : List Char) (looks : List (SharedFrames JpegPtr)) : MjpegSession :=
  looks.foldl (mjpegTick camera) {}

end MjpegSession

def Repeated (a b : JpegPtr) : Prop := a.address = b.address

instance : DecidableRel Repeated := fun a b => inferInstanceAs (Decidable (a.address = b.address))

def found (camera : List Char) (looks : List (SharedFrames JpegPtr)) : List JpegPtr :=
  (looks.map fun frames => frames.latestFor camera).reduceOption

/-- The frames that a session of a camera is to send: each one that is not the one sent last. -/
def framesToSend (camera : List Char) (looks : List (SharedFrames JpegPtr)) : List JpegPtr :=
  (found camera looks).destutter fun a b => ¬ Repeated a b

namespace MjpegSession
variable {camera : List Char}

theorem fresh_some_iff {last jpeg : JpegPtr} :
    fresh (some last) jpeg = true ↔ ¬ Repeated last jpeg := by
  simp [fresh, Repeated]

theorem found_cons_none {frames : SharedFrames JpegPtr} (h : frames.latestFor camera = none)
    (looks : List (SharedFrames JpegPtr)) :
    found camera (frames :: looks) = found camera looks := by
  rw [found, List.map_cons, h, List.reduceOption_cons_of_none]
  rfl

theorem found_cons_some {frames : SharedFrames JpegPtr} {jpeg : JpegPtr}
    (h : frames.latestFor camera = some jpeg) (looks : List (SharedFrames JpegPtr)) :
    found camera (frames :: looks) = jpeg :: found camera looks := by
  rw [found, List.map_cons, h, List.reduceOption_cons_of_some]
  rfl

/-- A session that has sent a frame goes on with those that differ from the one before. -/
theorem written_after (looks : List (SharedFrames JpegPtr)) {s : MjpegSession} {last : JpegPtr}
    (h : s.lastSent = some last) :
    ∃ sent, (found camera looks).destutter' (fun a b => ¬ Repeated a b) last = last :: sent ∧
      (looks.foldl (mjpegTick camera) s).written =
        s.written ++ sent.flatMap fun jpeg => mjpegPart jpeg.bytes := by
  induction looks generalizing s last with
  | nil => exact ⟨[], rfl, (List.append_nil _).symm⟩
  | cons frames looks ih =>
    rw [List.foldl_cons]
    cases hlook : frames.latestFor camera with
    | none =>
      have htick : s.mjpegTick camera frames = s := by rw [mjpegTick, hlook]
      rw [found_cons_none hlook, htick]
      exact ih h
    | some jpeg =>
      rw [found_cons_some hlook]
      by_cases hsame : Repeated last jpeg
      · have hfresh : ¬ fresh s.lastSent jpeg = true := by
          rw [h, fresh_some_iff, not_not]
          exact hsame
        have htick : s.mjpegTick camera frames = s := by
          rw [mjpegTick, hlook]
          simp [hfresh]
        rw [htick, List.destutter'_cons_neg _ (not_not.mpr hsame)]
        exact ih h
      · have hfresh : fresh s.lastSent jpeg = true := by
          rw [h, fresh_some_iff]
          exact hsame
        have htick : s.mjpegTick camera frames =
            { lastSent := some jpeg, written := s.written ++ mjpegPart jpeg.bytes } := by
          rw [mjpegTick, hlook]
          simp [hfresh]
        have hlast : (s.mjpegTick camera frames).lastSent = some jpeg := by rw [htick]
        obtain ⟨sent, hsent, hwritten⟩ := ih hlast
        refine ⟨jpeg :: sent, ?_, ?_⟩
        · rw [List.destutter'_cons_pos _ hsame, hsent]
        · rw [hwritten, htick, List.flatMap_cons, List.append_assoc]

/-- A session writes the parts of the frames that it is to send. -/
theorem stream_written (camera : List Char) (looks : List (SharedFrames JpegPtr)) :
    (stream camera looks).written =
      (framesToSend camera looks).flatMap fun jpeg => mjpegPart jpeg.bytes := by
  unfold stream
  induction looks with
  | nil => rfl
  | cons frames looks ih =>
    rw [List.foldl_cons]
    cases hlook : frames.latestFor camera with
    | none =>
      have htick : mjpegTick camera {} frames = {} := by rw [mjpegTick, hlook]
      rw [htick, ih, framesToSend, framesToSend, found_cons_none hlook]
    | some jpeg =>
      have htick : mjpegTick camera {} frames =
          { lastSent := some jpeg, written := mjpegPart jpeg.bytes } := by
        rw [mjpegTick, hlook]
        rfl
      have hlast : (mjpegTick camera {} frames).lastSent = some jpeg := by rw [htick]
      obtain ⟨sent, hsent, hwritten⟩ := written_after looks hlast
      rw [hwritten, htick, framesToSend, found_cons_some hlook, List.destutter_cons', hsent,
        List.flatMap_cons]

end MjpegSession

/-- The reader gets back the frames behind any sequence of parts, and so the frames that a session
sends. -/
theorem mjpeg_parts_decode (jpegs : List (List UInt8)) (camera : List Char)
    (looks : List (SharedFrames JpegPtr)) :
    decode readPart (jpegs.flatMap mjpegPart) = some jpegs ∧
      decode readPart (MjpegSession.stream camera looks).written =
        some ((framesToSend camera looks).map JpegPtr.bytes) := by
  have hdecode (frames : List (List UInt8)) :
      decode readPart (frames.flatMap mjpegPart) = some frames :=
    decode_flatMap fun jpeg _ => mjpegPart_readable jpeg
  refine ⟨hdecode jpegs, ?_⟩
  rw [MjpegSession.stream_written, ← List.flatMap_map, hdecode]

end ForkliftSafety
