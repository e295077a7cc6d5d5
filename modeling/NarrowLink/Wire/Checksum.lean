/-!
# CRC-16/ARC

The checksum of a packet is the cyclic redundancy check with generator `0x8005`, bytes and remainder
taken low bit first, starting at zero. `shift` moves the remainder on by one bit, `absorb` by one
byte, and `checksum` runs over all bytes.
-/

namespace NarrowLink.Wire

namespace Checksum

/-- The generator without its leading term, low bit first. -/
def generator : UInt16 := 0xA001

/-- The remainder after one more bit: the bit that falls out decides whether the generator is taken
away. -/
def shift (r : UInt16) : UInt16 :=
  if r &&& 1 = 1 then (r >>> 1) ^^^ generator else r >>> 1

/-- The remainder after `n` more bits. -/
def shifts : Nat → UInt16 → UInt16
  | 0, r => r
  | n + 1, r => shifts n (shift r)

/-- The remainder after one more byte. -/
def absorb (r : UInt16) (b : UInt8) : UInt16 :=
  shifts 8 (r ^^^ b.toUInt16)

end Checksum

/-- The CRC-16/ARC of a byte string. -/
def checksum (bytes : List UInt8) : UInt16 :=
  bytes.foldl Checksum.absorb 0

theorem checksum_append (u v : List UInt8) :
    checksum (u ++ v) = v.foldl Checksum.absorb (checksum u) := by
  simp [checksum]

-- the check value of this checksum, that of the nine digits
example : checksum [0x31, 0x32, 0x33, 0x34, 0x35, 0x36, 0x37, 0x38, 0x39] = 0xBB3D := by
  decide +kernel

end NarrowLink.Wire
