import NarrowLink.Wire.Flags

/-!
# Packet headers

Twelve bytes stand in front of the payload of every packet. A packet is either a datagram, which goes
straight to reassembly, or belongs to a connection. Three sequence numbers travel with it: `seq`
orders what is sent to a port, `fragSeq` orders the fragments of messages, and `relSeq` numbers what
a connection must deliver; `ack` is the next such number that the sender of the packet waits for.
-/

namespace NarrowLink.Wire

/-- The two kinds of traffic. -/
inductive Kind where
  | datagram
  | connection
deriving DecidableEq

/-- The kind as headers show it. -/
def Kind.text : Kind → String
  | .datagram => "Datagram"
  | .connection => "Connection"

/-- The header of a packet. -/
structure Header where
  /-- The checksum of all bytes after this field. -/
  crc : UInt16 := 0
  /-- The place in the order of transmission to the destination port. -/
  seq : UInt16 := 0
  /-- The length of the payload. -/
  payloadLength : UInt16 := 0
  kind : Kind
  /-- The place in the order of fragments. -/
  fragSeq : UInt8 := 0
  /-- The destination port. -/
  dst : UInt8
  /-- More fragments of the same message follow. -/
  more : Bool := false
  /-- The source port. -/
  src : UInt8
  flags : Flags := {}
  /-- The place in the reliable sequence of a connection. -/
  relSeq : UInt8 := 0
  /-- The next reliable sequence number that the sender waits for. -/
  ack : UInt8 := 0
deriving DecidableEq

namespace Header

/-- The length of a header on the wire. -/
def size : Nat := 12

/-- The greatest length of a payload, the greatest number of fourteen bits. -/
def maxPayload : Nat := 0x3fff

/-- The greatest port number. -/
def maxPort : UInt8 := 0x7f

/-- The header as messages show it. -/
def text (h : Header) : String :=
  "PCKT\x7b" ++ toString h.src ++ "->" ++ toString h.dst ++ " " ++ h.kind.text
    ++ " seq:" ++ toString h.seq
    ++ " frag:" ++ toString h.fragSeq ++ (if h.more then "+" else "")
    ++ " len:" ++ toString h.payloadLength
    ++ " " ++ h.flags.text
    ++ " rel:" ++ toString h.relSeq
    ++ " ack:" ++ toString h.ack ++ "\x7d"

end Header

end NarrowLink.Wire
