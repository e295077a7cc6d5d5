import NarrowLink.Connection.Basic

/-!
# Packets that reach a connection

`Session.receive` is given every packet that the peer sent. A reset ends the connection in any state.
Otherwise the state and the role decide which packets fit; one that does not fit is refused with the
reason. While connecting, the initiator waits for the welcome and the responder for its confirmation
(`receiveConnecting`). On an open connection a packet may acknowledge, report a gap, close or carry
data (`receiveOpen`), where data is taken only inside the receive window and only once
(`receiveData`).
-/

namespace NarrowLink.Connection.Session

open Wire

/-- The packet is refused. -/
def refuse (s : Session) (why : Inconsistency) : Attempt Session Unit :=
  (.error (.inconsistent why), s)

/-- Takes a packet that closes the connection, or answers a request to close it. -/
def receiveClosing (s : Session) (p : Packet) : Attempt Session Unit :=
  if p.header.flags.ack then
    if s.state = .disconnecting then (.ok (), s.discard.moveTo .disconnected)
    else s.refuse .partingWithoutClosing
  else if p.header.relSeq ≠ s.expected then
    s.refuse (.closingOutOfOrder p.header.relSeq s.expected)
  else
    let s := { s with expected := Serial.next s.expected }
    let s := s.post (s.packet .parting s.nextSeq [])
    (.ok (), { s with inFlight := {} }.moveTo .disconnected)

/-- Takes a packet that carries application data. -/
def receiveData (s : Session) (p : Packet) : Attempt Session Unit :=
  let relSeq := p.header.relSeq
  if s.config.window ≤ Serial.distance s.expected relSeq then
    if Serial.precedes relSeq s.expected then (.ok (), s.postAck)
    else s.refuse (.outsideWindow relSeq s.expected)
  else if s.early.get relSeq then (.ok (), s.postAck)
  else
    match s.inbound.push p with
    | .error e => (.error e, s)
    | .ok q =>
      let t := ({ s with inbound := q }.arrive relSeq).advance
      let t := if t.expected ≠ s.expected then t.raise (.inboundAvailable s.localPort) else t
      (.ok (), t.postAck)

/-- Takes a packet on an open connection. -/
def receiveOpen (s : Session) (p : Packet) : Attempt Session Unit :=
  let flags := p.header.flags
  if flags.syn then
    if s.role = .initiator ∧ flags.ack ∧ Serial.next p.header.relSeq = s.expected then
      (.ok (), s.postAck)
    else s.refuse (.unexpectedSyn p.header)
  else
    let s := if flags.ack then s.acknowledge p.header.ack else s
    if flags.ctrl then
      match Sack.decode p.payload with
      | .error e => (.error e, s)
      | .ok ranges => (.ok (), s.acknowledgeRanges ranges)
    else if flags.fin then s.receiveClosing p
    else if flags.data then s.receiveData p
    else (.ok (), s)

/-- Takes a packet while the two ends agree on their first numbers. -/
def receiveConnecting (s : Session) (p : Packet) : Attempt Session Unit :=
  let flags := p.header.flags
  match s.role with
  | .initiator =>
    if flags ≠ .welcoming then s.refuse (.notWelcoming flags)
    else if !s.confirmsNew p.header.ack then s.refuse (.wrongWelcome p.header.ack s.nextSeq)
    else
      let s := s.acknowledge p.header.ack
      let s := ({ s with expected := p.header.relSeq }.arrive p.header.relSeq).advance
      (.ok (), (s.moveTo .connected).postAck)
  | .responder =>
    if flags = .opening then
      if Serial.next p.header.relSeq ≠ s.expected then s.refuse .otherOpening
      else (.ok (), s.post (s.packet .welcoming s.oldestUnacked []))
    else if !flags.ack || !s.confirmsNew p.header.ack then s.refuse (.notConfirming p.header)
    else
      let s := s.moveTo .connected
      if flags.data || flags.fin || flags.ctrl then s.receiveOpen p
      else (.ok (), s.acknowledge p.header.ack)

/-- Takes a packet that the peer sent. -/
def receive (s : Session) (p : Packet) : Attempt Session Unit :=
  if p.header.flags.rst then (.ok (), s.discard.moveTo .disconnected)
  else
    match s.state with
    | .connecting => s.receiveConnecting p
    | .connected | .disconnecting => s.receiveOpen p
    | .resetting => (.ok (), s)
    | .disconnected => (.error (.notConnected s.localPort), s)

end NarrowLink.Connection.Session
