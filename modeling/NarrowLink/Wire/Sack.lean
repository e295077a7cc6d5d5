import NarrowLink.Error

/-!
# Selective acknowledgements

The payload of a selective acknowledgement lists the ranges of reliable sequence numbers that arrived
beyond a gap: their number in one byte, then the first and the last number of each. Ranges include
both ends and may wrap around.
-/

namespace NarrowLink.Wire.Sack

/-- The length of a list of `count` ranges on the wire. -/
def size (count : Nat) : Nat := 1 + 2 * count

/-- The two ends of each range in turn. -/
def endsOf (ranges : List (UInt8 × UInt8)) : List UInt8 :=
  ranges.flatMap fun r => [r.1, r.2]

/-- The payload that lists the ranges. -/
def encode (ranges : List (UInt8 × UInt8)) : List UInt8 :=
  UInt8.ofNat ranges.length :: endsOf ranges

/-- The ranges whose ends follow each other in a byte string. -/
def pairs : List UInt8 → List (UInt8 × UInt8)
  | first :: last :: rest => (first, last) :: pairs rest
  | _ => []

/-- Reads the ranges that a payload lists. -/
def decode : List UInt8 → Except Error (List (UInt8 × UInt8))
  | [] => .error (.inconsistent .emptySack)
  | count :: ends =>
    if ends.length = 2 * count.toNat then .ok (pairs ends)
    else .error (.inconsistent (.sackLength count.toNat ends.length))

theorem pairs_endsOf (ranges : List (UInt8 × UInt8)) : pairs (endsOf ranges) = ranges := by
  induction ranges with
  | nil => rfl
  | cons r rest ih => simpa [endsOf, pairs] using ih

theorem length_endsOf (ranges : List (UInt8 × UInt8)) :
    (endsOf ranges).length = 2 * ranges.length := by
  induction ranges with
  | nil => rfl
  | cons r rest ih =>
    simp only [endsOf, List.flatMap_cons, List.length_append, List.length_cons,
      List.length_nil] at ih ⊢
    omega

/-- What is written is read back, as long as the number of ranges fits its byte. -/
theorem decode_encode {ranges : List (UInt8 × UInt8)} (h : ranges.length < 256) :
    decode (encode ranges) = .ok ranges := by
  have hn : (UInt8.ofNat ranges.length).toNat = ranges.length := by
    simp [UInt8.toNat_ofNat', Nat.mod_eq_of_lt h]
  simp [encode, decode, hn, length_endsOf, pairs_endsOf]

end NarrowLink.Wire.Sack
