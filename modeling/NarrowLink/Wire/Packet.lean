import NarrowLink.Wire.Codec
import NarrowLink.Wire.Checksum

/-!
# Packets

A packet is a header and a payload, tagged with the virtual channel of the link that it travels on.
`Packet.encode` writes a packet as the frame that the link carries, with the length and the checksum
filled in; `Packet.decode` reads a frame. The checksum is verified before the header is interpreted,
so a flipped bit in the kind or the flags shows up as corruption and not as a malformed packet.
-/

namespace NarrowLink.Wire

/-- A packet on a virtual channel of the link. -/
structure Packet where
  header : Header
  payload : List UInt8
  channel : UInt8
deriving DecidableEq

namespace Packet

/-- The packet with a given payload, whose length is entered in the header. -/
def ofPayload (header : Header) (payload : List UInt8) (channel : UInt8) : Packet :=
  ⟨{ header with payloadLength := UInt16.ofNat payload.length }, payload, channel⟩

/-- The length of the packet as a frame. -/
def wireLength (p : Packet) : Nat := Header.size + p.payload.length

/-- The port that the packet is queued under, its destination. -/
def port (p : Packet) : UInt8 := p.header.dst

/-- The packet ends its message. -/
def isFinal (p : Packet) : Bool := !p.header.more

/-- The bytes that the checksum covers: the header after the checksum, and the payload. -/
def covered (p : Packet) : List UInt8 :=
  { p.header with payloadLength := UInt16.ofNat p.payload.length }.tailBytes ++ p.payload

/-- The frame that carries the packet. -/
def encode (p : Packet) : List UInt8 :=
  bytes16 (checksum p.covered) ++ p.covered

/-- Reads a frame received on a channel. -/
def decode (channel : UInt8) (frame : List UInt8) : Except Error Packet :=
  match frame with
  | c₁ :: c₀ :: s₁ :: s₀ :: l₁ :: l₀ :: b₆ :: b₇ :: b₈ :: b₉ :: b₁₀ :: b₁₁ :: payload =>
    let covered := s₁ :: s₀ :: l₁ :: l₀ :: b₆ :: b₇ :: b₈ :: b₉ :: b₁₀ :: b₁₁ :: payload
    let declared := (payloadLengthOf (word16 l₁ l₀)).toNat
    if declared ≠ payload.length then
      .error (.malformed (.lengthMismatch declared payload.length))
    else if word16 c₁ c₀ ≠ checksum covered then
      .error (.crcMismatch (word16 c₁ c₀) (checksum covered))
    else
      match Header.ofBytes frame with
      | .error e => .error e
      | .ok (header, rest) => .ok ⟨header, rest, channel⟩
  | short => .error (.malformed (.shortFrame short.length))

@[simp] theorem length_covered (p : Packet) : p.covered.length = 10 + p.payload.length := by
  simp [covered]

@[simp] theorem length_encode (p : Packet) : p.encode.length = p.wireLength := by
  simp [encode, wireLength, Header.size]
  omega

end Packet

end NarrowLink.Wire
