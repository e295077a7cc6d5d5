import NarrowLink.Error
import NarrowLink.Wire.BigEndian

/-!
# Redundant length records

On a byte stream a frame is announced by its length, written five times over. The length is read by
majority: a value counts when more than half of the copies agree on it. A length that can not be read
loses every frame boundary after it, so the copies are worth their bytes.
-/

namespace NarrowLink.Wire.LengthRecord

/-- The number of copies. -/
def copies : Nat := 5

/-- The length of a record. -/
def size : Nat := 20

/-- The record that announces a length. -/
def encode (length : UInt32) : List UInt8 :=
  (List.replicate copies (bytes32 length)).flatten

/-- The value that occurs in more than half of a list. -/
def majority (values : List UInt32) : Option UInt32 :=
  values.find? fun v => decide (values.length < 2 * values.count v)

/-- The words whose bytes follow each other. -/
def words : List UInt8 → List UInt32
  | a :: b :: c :: d :: rest => word32 a b c d :: words rest
  | _ => []

/-- Reads the length that a record at the front of a byte string announces, giving back what
follows. -/
def decode (bytes : List UInt8) : Except Error (UInt32 × List UInt8) :=
  if bytes.length < size then .error (.malformed (.shortLengthRecord bytes.length))
  else
    match majority (words (bytes.take size)) with
    | none => .error .corruptLength
    | some length => .ok (length, bytes.drop size)

theorem length_encode (length : UInt32) : (encode length).length = size := rfl

end NarrowLink.Wire.LengthRecord
