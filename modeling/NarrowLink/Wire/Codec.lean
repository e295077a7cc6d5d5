import NarrowLink.Error
import NarrowLink.Wire.BigEndian

/-!
# Headers as bytes

`Header.toBytes` writes the twelve bytes of a header and `Header.ofBytes` reads them from the front
of a byte string, giving back what follows. Two fields share their bytes with another: the kind
stands in the two high bits of the length, and the mark for more fragments in the high bit of the
destination port. A byte string is refused when it is too short, names a kind without a meaning, sets
the reserved bit of the source port or sets flags without a meaning, in this order.

* bytes 0 and 1: checksum of all that follows
* bytes 2 and 3: transmit sequence
* bytes 4 and 5: kind (two bits) and payload length (fourteen bits)
* byte 6: fragment sequence
* byte 7: more fragments (one bit) and destination port (seven bits)
* byte 8: source port
* byte 9: flags
* byte 10: reliable sequence
* byte 11: cumulative acknowledgement
-/

namespace NarrowLink.Wire

/-- The two bits that stand for a kind. -/
def Kind.code : Kind → UInt16
  | .datagram => 0
  | .connection => 1

/-- The kind that two bits stand for. -/
def Kind.ofCode? (code : UInt16) : Option Kind :=
  if code = 0 then some .datagram else if code = 1 then some .connection else none

/-- The payload length in the low fourteen bits of its field. -/
def payloadLengthOf (field : UInt16) : UInt16 := field &&& 0x3fff

namespace Header

/-- The field of the payload length and the kind. -/
def lengthAndKind (h : Header) : UInt16 := (h.kind.code <<< 14) ||| (h.payloadLength &&& 0x3fff)

/-- The field of the destination port and the mark for more fragments. -/
def portAndMore (h : Header) : UInt8 := (h.dst &&& 0x7f) ||| (if h.more then 0x80 else 0)

/-- All bytes of a header after the checksum. -/
def tailBytes (h : Header) : List UInt8 :=
  bytes16 h.seq ++ bytes16 h.lengthAndKind ++
    [h.fragSeq, h.portAndMore, h.src &&& 0x7f, h.flags.toByte, h.relSeq, h.ack]

/-- The bytes of a header. -/
def toBytes (h : Header) : List UInt8 := bytes16 h.crc ++ h.tailBytes

/-- Reads a header from the front of a byte string. -/
def ofBytes : List UInt8 → Except Error (Header × List UInt8)
  | c₁ :: c₀ :: s₁ :: s₀ :: l₁ :: l₀ :: frag :: port :: src :: flags :: rel :: ack :: rest =>
    let field := word16 l₁ l₀
    match Kind.ofCode? (field >>> 14) with
    | none => .error (.malformed (.unsupportedKind (field >>> 14).toNat))
    | some kind =>
      if maxPort < src then .error (.malformed (.reservedSourceBit src))
      else
        match Flags.ofByte? flags with
        | none => .error (.malformed (.unsupportedFlags flags))
        | some set =>
          .ok ({ crc := word16 c₁ c₀, seq := word16 s₁ s₀, payloadLength := payloadLengthOf field,
                 kind := kind, fragSeq := frag, dst := port &&& 0x7f, more := port &&& 0x80 != 0,
                 src := src, flags := set, relSeq := rel, ack := ack }, rest)
  | short => .error (.malformed (.shortHeader short.length))

@[simp] theorem length_tailBytes (h : Header) : h.tailBytes.length = 10 := rfl

@[simp] theorem length_toBytes (h : Header) : h.toBytes.length = size := rfl

end Header

end NarrowLink.Wire
