/-!
# Hexadecimal text

Numbers in messages are written with lower-case hexadecimal digits, either as few as it takes
(`Hex.digits`) or padded with zeros to a fixed width (`Hex.padded`).
-/

namespace NarrowLink.Hex

/-- The digits of `n` in base sixteen, without leading zeros. -/
def digits (n : Nat) : String := String.ofList (Nat.toDigits 16 n)

/-- The digits of `n` with zeros in front up to `width` digits. -/
def padded (width n : Nat) : String :=
  let ds := Nat.toDigits 16 n
  String.ofList (List.replicate (width - ds.length) '0' ++ ds)

end NarrowLink.Hex
