import NarrowLink.Config
import NarrowLink.Serial
import NarrowLink.Wire.Packet

/-!
# Packets in flight

Every packet that consumes a reliable sequence number is kept until it is acknowledged, in the order
in which it was sent. An acknowledgement removes all packets before a number (`acknowledgeBefore`) or
in a range (`acknowledgeWithin`); `removeBefore` and `removeWithin` also tell how many packets went.
`InFlight.due` collects the packets that have waited too long. The wait doubles with each
retransmission, up to a bound (`backoff`); a packet that has used up its retransmissions ends the
collection.
-/

namespace NarrowLink.Connection

open Wire

/-- A packet that is not acknowledged. -/
structure Flight where
  packet : Packet
  /-- When it was sent last. -/
  sentAt : Nat
  /-- How often it was sent again. -/
  retries : Nat
deriving DecidableEq

/-- The packets that are not acknowledged, in the order in which they were sent. -/
structure InFlight where
  flights : List Flight := []
deriving DecidableEq

namespace InFlight

/-- The number of packets. -/
def length (f : InFlight) : Nat := f.flights.length

/-- No packet is in flight. -/
def isEmpty (f : InFlight) : Bool := f.flights.isEmpty

/-- A packet with this number is in flight. -/
def contains (f : InFlight) (relSeq : UInt8) : Bool :=
  f.flights.any fun e => e.packet.header.relSeq == relSeq

/-- Adds a packet that was sent just now. -/
def push (f : InFlight) (p : Packet) (now : Nat) : InFlight :=
  ⟨f.flights ++ [⟨p, now, 0⟩]⟩

/-- Removes all packets before a number. -/
def acknowledgeBefore (f : InFlight) (ack : UInt8) : InFlight :=
  ⟨f.flights.filter fun e => !Serial.precedes e.packet.header.relSeq ack⟩

/-- Removes all packets in an inclusive range of numbers. -/
def acknowledgeWithin (f : InFlight) (first last : UInt8) : InFlight :=
  ⟨f.flights.filter fun e => !Serial.inRange e.packet.header.relSeq first last⟩

/-- The packets that are left, and before them the number of those that are gone. -/
def tally (f left : InFlight) : Nat × InFlight := (f.length - left.length, left)

/-- Removes all packets before a number, and tells how many there were. -/
def removeBefore (f : InFlight) (ack : UInt8) : Nat × InFlight :=
  f.tally (f.acknowledgeBefore ack)

/-- Removes all packets in an inclusive range of numbers, and tells how many there were. -/
def removeWithin (f : InFlight) (first last : UInt8) : Nat × InFlight :=
  f.tally (f.acknowledgeWithin first last)

/-- What is due at some time. -/
inductive Due where
  /-- These packets are to be sent again, in the order in which they were sent first. -/
  | packets (ps : List Packet)
  /-- The packet with this number has used up its retransmissions. -/
  | exhausted (relSeq : UInt8)
deriving DecidableEq

/-- How much longer a packet waits after some retransmissions than after none. -/
def factor (retries : Nat) : Nat := if retries < 32 then 1 <<< retries else 0xffffffff

/-- The time that a packet waits for its acknowledgement after some retransmissions. -/
def backoff (config : Config) (retries : Nat) : Nat :=
  min (config.timeout * factor retries) config.maxTimeout

/-- Collects what is due among the given packets, counting the retransmissions. -/
def collect (config : Config) (now : Nat) : List Flight → Due × List Flight
  | [] => (.packets [], [])
  | e :: es =>
    if now - e.sentAt < backoff config e.retries then
      let (due, es') := collect config now es
      (due, e :: es')
    else if config.maxRetransmissions ≤ e.retries then (.exhausted e.packet.header.relSeq, e :: es)
    else
      let again : Flight := { e with sentAt := now, retries := e.retries + 1 }
      match collect config now es with
      | (.packets ps, es') => (.packets (e.packet :: ps), again :: es')
      | (.exhausted r, es') => (.exhausted r, again :: es')

/-- Collects what is due, counting the retransmissions. -/
def due (f : InFlight) (config : Config) (now : Nat) : Due × InFlight :=
  let (due, flights) := collect config now f.flights
  (due, ⟨flights⟩)

theorem backoff_le (config : Config) (retries : Nat) : backoff config retries ≤ config.maxTimeout :=
  Nat.min_le_right _ _

theorem map_packet_collect (config : Config) (now : Nat) (es : List Flight) :
    (collect config now es).2.map Flight.packet = es.map Flight.packet := by
  induction es with
  | nil => rfl
  | cons e es ih =>
    unfold collect
    split
    · simpa using ih
    split
    · rfl
    split <;> rename_i h <;> simpa [h] using ih

/-- Looking for what is due neither removes packets nor reorders them. -/
theorem map_packet_due (f : InFlight) (config : Config) (now : Nat) :
    (f.due config now).2.flights.map Flight.packet = f.flights.map Flight.packet :=
  map_packet_collect config now f.flights

end InFlight

end NarrowLink.Connection
