import NarrowLink.Connection.Basic

/-!
# What the owner of a connection does with it

The owner opens a connection (`Session.connect`) or lets it answer the request that created it
(`Session.accept`), sends messages (`Session.send`), ends it in order (`Session.close`) or at once
(`Session.reset`), takes what is queued in either direction, and looks at its timers
(`Session.checkTimers`). A message is sent whole or not at all: `Session.admits` decides beforehand whether
the state, the window and the outbound queue allow it.
-/

namespace NarrowLink.Connection.Session

open Wire

/-! ## Beginning and ending -/

/-- Asks the peer for a connection. -/
def connect (s : Session) (now : Nat) : Attempt Session Unit :=
  if s.state ≠ .disconnected then (.error (.portBusy s.localPort), s)
  else
    match s.postNumbered .opening now with
    | (.ok (), s') => (.ok (), s'.moveTo .connecting)
    | (.error e, s') => (.error e, s')

/-- Answers the packet that asked for this connection. -/
def accept (s : Session) (syn : Packet) (now : Nat) : Attempt Session Unit :=
  if s.state ≠ .disconnected then (.error (.inconsistent .alreadyOpen), s)
  else
    match { s with expected := Serial.next syn.header.relSeq }.postNumbered .welcoming now with
    | (.ok (), s') => (.ok (), s'.moveTo .connecting)
    | (.error e, s') => (.error e, s')

/-- Drops everything and queues a reset, unless the connection has ended or is being reset. -/
def reset (s : Session) : Session :=
  match s.state with
  | .resetting | .disconnected => s
  | _ =>
    let s := s.discard
    (s.post (s.packet .resetting s.nextSeq [])).moveTo .resetting

/-- Ends the connection in order. One that is not established yet is reset. -/
def close (s : Session) (now : Nat) : Attempt Session Unit :=
  match s.state with
  | .connected =>
    match s.postNumbered .closing now with
    | (.ok (), s') => (.ok (), s'.moveTo .disconnecting)
    | (.error e, s') => (.error e, s')
  | .connecting => (.ok (), s.reset)
  | .disconnecting | .resetting => (.error (.alreadyClosing s.localPort), s)
  | .disconnected => (.error (.notConnected s.localPort), s)

/-! ## Sending -/

/-- Decides whether a message of these packets could be sent right now. -/
def admits (s : Session) (ps : List Packet) : Except Error Unit :=
  if s.state ≠ .connected then .error (.notConnected s.localPort)
  else if s.config.window < s.inFlight.length + ps.length then .error .queueFull
  else
    let sack := (s.gapReport.map Packet.wireLength).getD 0
    if s.outbound.fits (wireLengths ps + sack) then .ok () else .error .queueFull

/-- The packet as this connection sends it under a number. -/
def stamped (s : Session) (relSeq : UInt8) (p : Packet) : Packet :=
  { p with
    header := { p.header with
      kind := .connection, src := s.localPort, dst := s.remotePort, flags := .carrying,
      relSeq := relSeq, ack := s.expected }
    channel := s.channel }

/-- The packets as this connection sends them, numbered from its next number on, and the connection
after it gave out these numbers. -/
def stamp (s : Session) : List Packet → List Packet × Session
  | [] => ([], s)
  | p :: ps =>
    let first := s.stamped s.nextSeq p
    let (rest, s') := { s with nextSeq := Serial.next s.nextSeq }.stamp ps
    (first :: rest, s')

/-- Puts packets in flight and queues them, one after the other. -/
def launch (s : Session) (now : Nat) : List Packet → Attempt Session Unit
  | [] => (.ok (), s)
  | p :: ps =>
    let s := { s with inFlight := s.inFlight.push p now }
    match s.outbound.push p with
    | .error e => (.error e, s)
    | .ok q => { s with outbound := q }.launch now ps

/-- Sends the fragments of a message. Once they are certain to be taken, `number` gives them their
fragment numbers, so that a refused message uses up none; what else `number` finds is handed back. -/
def send {α : Type} (s : Session) (ps : List Packet) (now : Nat)
    (number : List Packet → List Packet × α) : Attempt Session α :=
  match s.admits ps with
  | .error e => (.error e, s)
  | .ok () =>
    let (stampedPackets, s) := s.postGapReport.stamp ps
    let (numbered, a) := number stampedPackets
    match s.launch now numbered with
    | (.error e, s) => (.error e, s)
    | (.ok (), s) => (.ok a, s.raise (.outboundAvailable s.localPort))

/-! ## Taking what is queued -/

/-- Takes at most `n` packets from the outbound queue. The connection has ended once its reset is
taken, and nothing is taken after it. -/
def fetchOutboundUpTo : Nat → Session → List Packet × Session
  | 0, s => ([], s)
  | n + 1, s =>
    match s.outbound.popNext with
    | none => ([], s)
    | some (p, q) =>
      let s := { s with outbound := q }
      if p.header.flags.rst ∧ s.state = .resetting then ([p], s.moveTo .disconnected)
      else
        let (ps, s') := fetchOutboundUpTo n s
        (p :: ps, s')

/-- Takes all packets that are queued for the transmitter. -/
def fetchOutbound (s : Session) : List Packet × Session :=
  s.fetchOutboundUpTo s.outbound.length

/-- Puts packets back that could not be handed on. A full queue drops them. -/
def giveBack (s : Session) : List Packet → Session
  | [] => s
  | p :: ps =>
    match s.outbound.push p with
    | .ok q => { s with outbound := q }.giveBack ps
    | .error _ => s.giveBack ps

/-- Takes at most `n` packets in sequence from the inbound queue. -/
def fetchInboundUpTo : Nat → Session → List Packet × Session
  | 0, s => ([], s)
  | n + 1, s =>
    match s.inbound.pop s.localPort with
    | none => ([], s)
    | some (p, q) =>
      if Serial.precedes p.header.relSeq s.expected then
        let (ps, s') := fetchInboundUpTo n { s with inbound := q }
        (p :: ps, s')
      else ([], s)

/-- Takes the packets that are in sequence. -/
def fetchInbound (s : Session) : List Packet × Session :=
  s.fetchInboundUpTo (s.inbound.packets s.localPort).length

/-! ## Timers -/

/-- The connection waits for acknowledgements. -/
def isWaiting (s : Session) : Bool :=
  match s.state with
  | .connecting | .connected | .disconnecting => true
  | _ => false

/-- Reminds the owner of packets that wait for the transmitter, sends again what is due, and resets
the connection once a packet has used up its retransmissions. -/
def checkTimers (s : Session) (now : Nat) : Session :=
  let s := if s.outbound.isEmpty then s else s.raise (.outboundAvailable s.localPort)
  if s.options.retransmit && s.isWaiting then
    match s.inFlight.due s.config now with
    | (.packets ps, f) =>
      let s := { s with inFlight := f }
      ps.foldl (fun s p => s.post { p with header := { p.header with ack := s.expected } }) s
    | (.exhausted _, f) => { s with inFlight := f }.reset
  else s

end NarrowLink.Connection.Session
