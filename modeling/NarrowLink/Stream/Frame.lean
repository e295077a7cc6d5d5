import NarrowLink.Stream.Pipe
import NarrowLink.Wire.LengthRecord

/-!
# Frames on a byte stream

A frame is written as a redundant length record followed by its bytes. Reading one expects the
stream to end before a record or not at all. A record without a majority, or one that announces more
than the reader accepts, loses the boundaries of all frames after it, and the reader should give up.
-/

namespace NarrowLink.Stream

open Wire

/-- The bytes that carry a frame. -/
def framed (frame : List UInt8) : List UInt8 :=
  LengthRecord.encode (UInt32.ofNat frame.length) ++ frame

/-- Writes a frame. -/
def Sink.writeFrame (s : Sink) (frame : List UInt8) : Option IoFault × Sink :=
  s.write (framed frame)

/-- Reads a frame of at most `limit` bytes, or finds the end of the stream. -/
def Source.readFrame (limit : Nat) (s : Source) : Except Error (Option (List UInt8)) × Source :=
  match s.takeOne with
  | (.error f, s₁) => (.error (.io f), s₁)
  | (.ok none, s₁) => (.ok none, s₁)
  | (.ok (some b), s₁) =>
    match s₁.take (LengthRecord.size - 1) with
    | (.error f, s₂) => (.error (.io f), s₂)
    | (.ok bs, s₂) =>
      match LengthRecord.decode (b :: bs) with
      | .error e => (.error e, s₂)
      | .ok (length, _) =>
        if limit < length.toNat then (.error (.messageTooLarge length.toNat limit), s₂)
        else
          match s₂.take length.toNat with
          | (.error f, s₃) => (.error (.io f), s₃)
          | (.ok frame, s₃) => (.ok (some frame), s₃)

/-- A frame that was read is gone from the stream, together with its record. -/
theorem Source.pending_readFrame {limit : Nat} {s s' : Source} {frame : List UInt8}
    (h : s.readFrame limit = (.ok (some frame), s')) : s'.pending < s.pending := by
  unfold Source.readFrame at h
  split at h
  · cases h
  · cases h
  rename_i b s₁ h₁
  split at h
  · cases h
  rename_i bs s₂ h₂
  split at h
  · cases h
  rename_i length rest h₃
  split at h
  · cases h
  split at h
  · cases h
  rename_i frame' s₃ h₄
  cases h
  have e₁ := Source.pending_takeOne h₁
  have e₂ := Source.pending_take h₂
  have e₃ := Source.pending_take h₄
  omega

end NarrowLink.Stream
