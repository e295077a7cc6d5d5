import NarrowLink.Connection.State
import NarrowLink.Wire.Packet

/-!
# What a connection tells its owner

Changes of state are told before anything else that happened in the same call: an owner that answers
`outboundAvailable` by taking a final reset must not learn of the end of the connection before it
learns of the reset (`Event.stateFirst`).
-/

namespace NarrowLink.Connection

open Wire

/-- Something that happened to the connection on a local port. -/
inductive Event where
  | stateChanged (localPort remotePort : UInt8) (old new : State)
  /-- Packets wait for the transmitter. -/
  | outboundAvailable (localPort : UInt8)
  /-- Packets in sequence wait for reassembly. -/
  | inboundAvailable (localPort : UInt8)
  /-- A packet came for a port without a connection, and is answered with a reset. -/
  | rejected (localPort : UInt8) (reply : Packet)
deriving DecidableEq

namespace Event

/-- The local port that the event is about. -/
def port : Event → UInt8
  | .stateChanged p _ _ _ => p
  | .outboundAvailable p => p
  | .inboundAvailable p => p
  | .rejected p _ => p

/-- The event is a change of state. -/
def isStateChange : Event → Bool
  | .stateChanged _ _ _ _ => true
  | _ => false

/-- The event is the end of the connection. -/
def isDisconnect : Event → Bool
  | .stateChanged _ _ _ .disconnected => true
  | _ => false

/-- The changes of state, then the other events, each in the order in which they happened. -/
def stateFirst (es : List Event) : List Event :=
  es.filter isStateChange ++ es.filter fun e => !e.isStateChange

theorem stateFirst_perm (es : List Event) : (stateFirst es).Perm es :=
  List.filter_append_perm isStateChange es

end Event

end NarrowLink.Connection
