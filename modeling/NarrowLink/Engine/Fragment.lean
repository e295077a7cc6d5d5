import NarrowLink.Config
import NarrowLink.Wire.Packet

/-!
# Fragments of a message

A message is cut into payloads of the greatest length that the configuration allows, the last one
holding what is left. An empty message is a single empty payload. All fragments but the last say that
more follow.
-/

namespace NarrowLink.Engine

open Wire

/-- The pieces of a byte string, `size` bytes each but for the last. There is at least one, and no more
than `n`. -/
def piecesUpTo (size : Nat) : Nat → List UInt8 → List (List UInt8)
  | 0, bytes => [bytes]
  | n + 1, bytes =>
    if bytes.length ≤ size then [bytes]
    else bytes.take size :: piecesUpTo size n (bytes.drop size)

/-- The pieces of a byte string, `size` bytes each but for the last. -/
def pieces (size : Nat) (bytes : List UInt8) : List (List UInt8) :=
  piecesUpTo size bytes.length bytes

/-- The fragments with given payloads. -/
def fragmentsOf (header : Header) (channel : UInt8) : List (List UInt8) → List Packet
  | [] => []
  | [payload] => [.ofPayload { header with more := false } payload channel]
  | payload :: rest =>
    .ofPayload { header with more := true } payload channel :: fragmentsOf header channel rest

/-- The fragments of a message, from a source port to a destination port. -/
def fragments (config : Config) (src dst : UInt8) (kind : Kind) (channel : UInt8)
    (message : List UInt8) : List Packet :=
  fragmentsOf { kind := kind, dst := dst, src := src } channel (pieces config.maxPayload message)

theorem flatten_piecesUpTo (size n : Nat) (bytes : List UInt8) :
    (piecesUpTo size n bytes).flatten = bytes := by
  induction n generalizing bytes with
  | zero => simp [piecesUpTo]
  | succ n ih =>
    unfold piecesUpTo
    split
    · simp
    · simp [ih]

/-- No byte is lost. -/
theorem flatten_pieces (size : Nat) (bytes : List UInt8) : (pieces size bytes).flatten = bytes :=
  flatten_piecesUpTo size bytes.length bytes

theorem map_payload_fragmentsOf (header : Header) (channel : UInt8) (payloads : List (List UInt8)) :
    (fragmentsOf header channel payloads).map Packet.payload = payloads := by
  induction payloads with
  | nil => rfl
  | cons p ps ih =>
    cases ps with
    | nil => rfl
    | cons q qs => simpa [fragmentsOf, Packet.ofPayload] using ih

/-- The payloads of the fragments make up the message. -/
theorem flatMap_payload_fragments (config : Config) (src dst : UInt8) (kind : Kind) (channel : UInt8)
    (message : List UInt8) :
    (fragments config src dst kind channel message).flatMap Packet.payload = message := by
  rw [List.flatMap_def, fragments, map_payload_fragmentsOf, flatten_pieces]

end NarrowLink.Engine
