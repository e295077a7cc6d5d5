/-!
# Big-endian words

Numbers wider than a byte travel with their high byte first. `bytes16` and `word16` undo each other,
and so do `bytes32` and `word32`.
-/

namespace NarrowLink.Wire

/-- The two bytes of a word, high byte first. -/
def bytes16 (n : UInt16) : List UInt8 :=
  [UInt8.ofNat (n.toNat / 256), UInt8.ofNat n.toNat]

/-- The word with the given high and low byte. -/
def word16 (hi lo : UInt8) : UInt16 :=
  UInt16.ofNat (hi.toNat * 256 + lo.toNat)

/-- The four bytes of a word, high byte first. -/
def bytes32 (n : UInt32) : List UInt8 :=
  [UInt8.ofNat (n.toNat / 16777216), UInt8.ofNat (n.toNat / 65536), UInt8.ofNat (n.toNat / 256),
    UInt8.ofNat n.toNat]

/-- The word with the given bytes, from the highest to the lowest. -/
def word32 (a b c d : UInt8) : UInt32 :=
  UInt32.ofNat (((a.toNat * 256 + b.toNat) * 256 + c.toNat) * 256 + d.toNat)

@[simp] theorem length_bytes16 (n : UInt16) : (bytes16 n).length = 2 := rfl

@[simp] theorem length_bytes32 (n : UInt32) : (bytes32 n).length = 4 := rfl

theorem toNat_word16 (hi lo : UInt8) : (word16 hi lo).toNat = hi.toNat * 256 + lo.toNat := by
  have h := hi.toNat_lt
  have l := lo.toNat_lt
  simp only [word16, UInt16.toNat_ofNat']
  omega

theorem word16_bytes16 (n : UInt16) :
    word16 (UInt8.ofNat (n.toNat / 256)) (UInt8.ofNat n.toNat) = n := by
  have h := n.toNat_lt
  apply UInt16.toNat_inj.1
  simp only [toNat_word16, UInt8.toNat_ofNat']
  omega

theorem bytes16_word16 (hi lo : UInt8) : bytes16 (word16 hi lo) = [hi, lo] := by
  have h := hi.toNat_lt
  have l := lo.toNat_lt
  simp only [bytes16, toNat_word16, List.cons.injEq, and_true]
  constructor <;> apply UInt8.toNat_inj.1 <;> simp only [UInt8.toNat_ofNat'] <;> omega

theorem toNat_word32 (a b c d : UInt8) :
    (word32 a b c d).toNat = ((a.toNat * 256 + b.toNat) * 256 + c.toNat) * 256 + d.toNat := by
  have := a.toNat_lt
  have := b.toNat_lt
  have := c.toNat_lt
  have := d.toNat_lt
  simp only [word32, UInt32.toNat_ofNat']
  omega

theorem word32_bytes32 (n : UInt32) :
    word32 (UInt8.ofNat (n.toNat / 16777216)) (UInt8.ofNat (n.toNat / 65536))
      (UInt8.ofNat (n.toNat / 256)) (UInt8.ofNat n.toNat) = n := by
  have h := n.toNat_lt
  apply UInt32.toNat_inj.1
  simp only [toNat_word32, UInt8.toNat_ofNat']
  omega

end NarrowLink.Wire
