import NarrowLink.Wire.Packet

/-!
# A link that loses what it is told to lose

A `Loopback` hands every frame at once to the peer at its other end. It can be told to lose the next
frames or all frames with some property, and to refuse frames as a link does that is down. What is
handed to it is recorded if it is a packet, including what is lost.
-/

namespace NarrowLink.Bench

open Wire

/-- A link inside one program. -/
structure Loopback where
  /-- There is a peer at the other end. -/
  hasPeer : Bool := false
  available : Bool := true
  /-- The number of frames that are lost next. -/
  toLose : Nat := 0
  /-- The packets that are lost. -/
  loses : Packet → Bool := fun _ => false
  /-- The packets that were handed to the link. -/
  sent : List Packet := []
  /-- The number of frames that the peer was given. -/
  delivered : Nat := 0

namespace Loopback

/-- Decides whether a packet is lost. -/
def judge (l : Loopback) (p : Packet) : Bool × Loopback :=
  if 0 < l.toLose then (true, { l with toLose := l.toLose - 1 }) else (l.loses p, l)

/-- Gives a frame to the peer. -/
def pass (l : Loopback) (channel : UInt8) (frame : List UInt8) :
    Except LinkError (Option (UInt8 × List UInt8)) × Loopback :=
  (.ok (some (channel, frame)), { l with delivered := l.delivered + 1 })

/-- Sends a frame, and tells what the peer is given. -/
def send (l : Loopback) (channel : UInt8) (frame : List UInt8) :
    Except LinkError (Option (UInt8 × List UInt8)) × Loopback :=
  if !l.available || !l.hasPeer then (.error .unavailable, l)
  else
    match Packet.decode channel frame with
    | .error _ => l.pass channel frame
    | .ok p =>
      let (lost, l) := l.judge p
      let l := { l with sent := l.sent ++ [p] }
      if lost then (.ok none, l) else l.pass channel frame

end Loopback

end NarrowLink.Bench
