/-!
# The flags of a packet

A packet carries six flags in the low bits of one byte. `Flags.toByte` writes them and
`Flags.ofByte?` reads them, refusing a byte that sets one of the two bits without a meaning
(`ofByte?_eq_some_iff`). The combinations that the protocol itself sends have names.
-/

namespace NarrowLink.Wire

/-- The six flags, all clear unless said otherwise. -/
structure Flags where
  /-- Opens a connection. -/
  syn : Bool := false
  /-- The cumulative acknowledgement counts. -/
  ack : Bool := false
  /-- Closes a connection. -/
  fin : Bool := false
  /-- Resets a connection. -/
  rst : Bool := false
  /-- The payload is a selective acknowledgement, not application data. -/
  ctrl : Bool := false
  /-- The packet carries application data in sequence. -/
  data : Bool := false
deriving DecidableEq

namespace Flags

/-- No flag at all. -/
def clear : Flags := {}

/-- The flags of the packet that asks for a connection. -/
def opening : Flags := { syn := true }

/-- The flags of the answer to a request for a connection. -/
def welcoming : Flags := { syn := true, ack := true }

/-- The flags of a pure acknowledgement. -/
def acknowledging : Flags := { ack := true }

/-- The flags of a selective acknowledgement. -/
def reporting : Flags := { ctrl := true, ack := true }

/-- The flags of application data. -/
def carrying : Flags := { data := true, ack := true }

/-- The flags of the packet that asks for an orderly close. -/
def closing : Flags := { fin := true }

/-- The flags of the answer to an orderly close. -/
def parting : Flags := { fin := true, ack := true }

/-- The flags of a reset. -/
def resetting : Flags := { rst := true }

/-- The flags of the refusal of a connection. -/
def refusing : Flags := { syn := true, rst := true }

/-- The value of a bit where it is set. -/
def bit (b : Bool) (value : UInt8) : UInt8 := if b then value else 0

/-- The byte that carries the flags. -/
def toByte (f : Flags) : UInt8 :=
  bit f.syn 1 ||| bit f.ack 2 ||| bit f.fin 4 ||| bit f.rst 8 ||| bit f.ctrl 16 ||| bit f.data 32

/-- The flags in the six low bits of a byte. -/
def ofLowBits (b : UInt8) : Flags where
  syn := b &&& 1 != 0
  ack := b &&& 2 != 0
  fin := b &&& 4 != 0
  rst := b &&& 8 != 0
  ctrl := b &&& 16 != 0
  data := b &&& 32 != 0

/-- The flags of a byte whose two high bits are clear. -/
def ofByte? (b : UInt8) : Option Flags :=
  if b ≤ 0x3f then some (ofLowBits b) else none

/-- Every flag that is set in the other is set here. -/
def contains (f g : Flags) : Bool := f.toByte &&& g.toByte == g.toByte

/-- The names of the flags that are set. -/
def names (f : Flags) : List String :=
  [(f.syn, "SYN"), (f.ack, "ACK"), (f.fin, "FIN"), (f.rst, "RST"), (f.ctrl, "CTRL"),
    (f.data, "DATA")].filterMap fun p => if p.1 then some p.2 else none

/-- The flags as messages show them. -/
def text (f : Flags) : String :=
  let shown := if f.names.isEmpty then "0x0" else " | ".intercalate f.names
  "PacketFlags(" ++ shown ++ ")"

theorem toByte_le (f : Flags) : f.toByte ≤ 0x3f := by
  cases f with
  | mk s a f r c d => cases s <;> cases a <;> cases f <;> cases r <;> cases c <;> cases d <;> decide

theorem ofLowBits_toByte (f : Flags) : ofLowBits f.toByte = f := by
  cases f with
  | mk s a f r c d => cases s <;> cases a <;> cases f <;> cases r <;> cases c <;> cases d <;> decide

theorem ofByte?_toByte (f : Flags) : ofByte? f.toByte = some f := by
  simp [ofByte?, toByte_le, ofLowBits_toByte]

theorem toByte_ofLowBits {b : UInt8} (h : b ≤ 0x3f) : (ofLowBits b).toByte = b := by
  have hn : b.toNat < 64 := by
    have := UInt8.le_iff_toNat_le.1 h
    simpa [Nat.lt_succ_iff] using this
  have all : ∀ n : Fin 64, (ofLowBits (UInt8.ofNat n.val)).toByte = UInt8.ofNat n.val := by decide
  have := all ⟨b.toNat, hn⟩
  simpa using this

/-- A byte is read as the flags that are written as it. -/
theorem ofByte?_eq_some_iff (b : UInt8) (f : Flags) : ofByte? b = some f ↔ f.toByte = b := by
  constructor
  · intro h
    unfold ofByte? at h
    split at h
    · rename_i hb
      cases h
      exact toByte_ofLowBits hb
    · cases h
  · rintro rfl
    exact ofByte?_toByte f

end Flags

end NarrowLink.Wire
