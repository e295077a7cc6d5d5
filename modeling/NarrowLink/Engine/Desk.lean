import NarrowLink.Connection.State
import NarrowLink.Reassembly
import NarrowLink.Transmitter

/-!
# An engine without its connections

The `Desk` holds what an engine has besides its connections: the transmitter and the reassembly, the
ports that applications are bound to, the counters of sequence numbers per destination port, the
resets that wait for room in the transmit queue, and what the application has yet to be told.

`Desk.submit` is the only way into the transmit queue. It numbers packets in the order of
transmission, all or none of them: the counters move on only if the queue takes the packets, so the
numbers of what was queued for a port have no gaps. Packets that the queue refuses stay with the caller as
they were. The engine leaves the numbers in them that they were to get, which makes no difference: they
are numbered anew each time they are submitted, and nothing reads a transmit number before that.
-/

namespace NarrowLink.Engine

open Wire
open Connection (Options State)

/-- How an application is bound to a local port. -/
structure Binding where
  channel : UInt8
  /-- The port that messages go to. -/
  remotePort : UInt8
  /-- The options of the connections of the port. -/
  options : Options
deriving DecidableEq

/-- The next sequence numbers for a destination port. Datagrams and connections number their fragments
apart, because packets of a connection that is reset are discarded and must leave no gap among the
datagrams. -/
structure Counters where
  seq : UInt16 := 0
  datagramFrag : UInt8 := 0
  connectionFrag : UInt8 := 0
deriving DecidableEq

/-- What an application is told. -/
inductive Notice where
  | connection (port : UInt8) (state : State)
  | link (up : Bool)
deriving DecidableEq

/-- An engine without its connections. -/
structure Desk where
  config : Config
  transmitter : Transmitter
  reassembly : Reassembly
  bindings : ByteMap (Option Binding)
  counters : ByteMap Counters
  /-- Resets of connections that are gone, waiting for room in the transmit queue. -/
  heldResets : List Packet
  active : Bool
  /-- What the application has yet to be told. -/
  notices : List Notice
deriving DecidableEq

namespace Desk

/-- The desk of an engine that has not been started. -/
def new (config : Config) : Desk where
  config := config
  transmitter := .new config
  reassembly := .new config
  bindings := .const none
  counters := .const {}
  heldResets := []
  active := false
  notices := []

/-- Notes something that the application has yet to be told. -/
def notify (d : Desk) (n : Notice) : Desk := { d with notices := d.notices ++ [n] }

/-- The binding of a port. -/
def binding (d : Desk) (port : UInt8) : Except Error Binding :=
  match d.bindings.get port with
  | some b => .ok b
  | none => .error (.portNotBound port)

/-! ## Numbering -/

/-- Numbers packets in the order of transmission to their ports. -/
def numberTransmit (c : ByteMap Counters) : List Packet → List Packet × ByteMap Counters
  | [] => ([], c)
  | p :: ps =>
    let k := c.get p.port
    let numbered : Packet := { p with header := { p.header with seq := k.seq } }
    let (rest, c') := numberTransmit (c.set p.port { k with seq := Serial.next k.seq }) ps
    (numbered :: rest, c')

/-- Numbers the fragments of a datagram message. -/
def numberDatagram (c : ByteMap Counters) : List Packet → List Packet × ByteMap Counters
  | [] => ([], c)
  | p :: ps =>
    let k := c.get p.port
    let numbered : Packet := { p with header := { p.header with fragSeq := k.datagramFrag } }
    let (rest, c') :=
      numberDatagram (c.set p.port { k with datagramFrag := Serial.next k.datagramFrag }) ps
    (numbered :: rest, c')

/-- Numbers the fragments of a message that goes through a connection. -/
def numberConnection (c : ByteMap Counters) : List Packet → List Packet × ByteMap Counters
  | [] => ([], c)
  | p :: ps =>
    let k := c.get p.port
    let numbered : Packet := { p with header := { p.header with fragSeq := k.connectionFrag } }
    let (rest, c') :=
      numberConnection (c.set p.port { k with connectionFrag := Serial.next k.connectionFrag }) ps
    (numbered :: rest, c')

/-- Enters in the counters that these fragments went through a connection. -/
def countConnection (d : Desk) (ps : List Packet) : Desk :=
  { d with
    counters := ps.foldl
      (fun c p => c.modify p.port fun k => { k with connectionFrag := Serial.next k.connectionFrag })
      d.counters }

/-! ## Queueing for transmission -/

/-- Queues all packets for transmission, or none. -/
def submit (d : Desk) (ps : List Packet) : Attempt Desk Unit :=
  let (numbered, counters) := numberTransmit d.counters ps
  match d.transmitter.submitAll numbered with
  | (.ok (), t) => (.ok (), { d with transmitter := t, counters := counters })
  | (.error e, _) => (.error e, d)

/-- Queues the fragments of a datagram message, all or none. -/
def submitDatagram (d : Desk) (ps : List Packet) : Attempt Desk Unit :=
  let (numbered, counters) := numberDatagram d.counters ps
  match ({ d with counters := counters } : Desk).submit numbered with
  | (.ok (), d') => (.ok (), d')
  | (.error e, _) => (.error e, d)

/-- Queues the resets that wait for room, if there is room for all of them. -/
def retryResets (d : Desk) : Desk :=
  match d.heldResets with
  | [] => d
  | resets =>
    match ({ d with heldResets := [] } : Desk).submit resets with
    | (.ok (), d') => d'
    | (.error _, _) => d

end Desk

end NarrowLink.Engine
