import NarrowLink.Attempt
import NarrowLink.Config
import NarrowLink.Queue

/-!
# Reassembly of messages

Datagrams are queued per port in the order of their fragment numbers. A message is complete when the
queue of its port starts with the fragment that the port awaits and goes on without a gap up to a
final one (`isComplete`); the port is then announced. When as many fragments are queued as a message
may have and the port was not announced just now, a fragment was lost: everything up to the first
final fragment is discarded, and reassembly goes on behind it (`skipGap`).

A connection hands over its packets in order and without repetition, so its messages are assembled by
appending, apart from the datagrams. A fragment that does not continue the message begun starts a new
one; what was begun belonged to a connection that went away.
-/

namespace NarrowLink

open Wire

/-- A message that a connection has handed over in part. -/
structure Assembly where
  /-- The number of the fragment that continues it. -/
  nextFrag : UInt8
  /-- The number of its fragments so far. -/
  count : Nat
  content : List UInt8
deriving DecidableEq

/-- The receiving half of an engine. -/
structure Reassembly where
  config : Config
  queue : Queue
  /-- The number of the first fragment of the next message of each port. -/
  awaited : ByteMap UInt8
  /-- The ports with a complete message, in the order in which it became so. -/
  announced : List UInt8
  /-- The message that each port's connection has begun. -/
  begun : ByteMap (Option Assembly)
  /-- The complete messages of connections, in the order in which they became so. -/
  finished : List (UInt8 × List UInt8)
  active : Bool
  /-- The number of frames with a wrong checksum. -/
  corruptFrames : Nat
deriving DecidableEq

namespace Reassembly

/-- The reassembly that has seen nothing. -/
def new (config : Config) : Reassembly where
  config := config
  queue := .empty .fragment config.queueCapacity
  awaited := .const 0
  announced := []
  begun := .const none
  finished := []
  active := false
  corruptFrames := 0

/-- Lets messages be handed out. -/
def start (r : Reassembly) : Reassembly := { r with active := true }

/-- Ends the handing out of messages. -/
def stop (r : Reassembly) : Reassembly := { r with active := false }

/-- Reads a frame from the link, and counts those with a wrong checksum. -/
def readFrame (r : Reassembly) (channel : UInt8) (frame : List UInt8) : Attempt Reassembly Packet :=
  match Packet.decode channel frame with
  | .ok p => (.ok p, r)
  | .error e =>
    match e with
    | .crcMismatch _ _ => (.error e, { r with corruptFrames := r.corruptFrames + 1 })
    | _ => (.error e, r)

/-! ## Datagrams -/

/-- The packets start with the fragment `expected` and go on without a gap up to a final one. -/
def completeFrom : UInt8 → List Packet → Bool
  | _, [] => false
  | expected, p :: ps =>
    if p.header.fragSeq ≠ expected then false
    else if p.isFinal then true
    else completeFrom (Serial.next expected) ps

/-- A message of the port is complete. -/
def isComplete (r : Reassembly) (port : UInt8) : Bool :=
  completeFrom (r.awaited.get port) (r.queue.packets port)

/-- Announces a port that has a complete message and is not announced yet, and tells whether it did. -/
def announce (r : Reassembly) (port : UInt8) : Bool × Reassembly :=
  if port ∉ r.announced ∧ r.isComplete port then
    (true, { r with announced := r.announced ++ [port] })
  else (false, r)

/-- Takes at most `n` packets of a port, up to the first final one, and awaits what follows each. -/
def takeUpTo : Nat → Reassembly → UInt8 → List Packet × Reassembly
  | 0, r, _ => ([], r)
  | n + 1, r, port =>
    match r.queue.pop port with
    | none => ([], r)
    | some (p, q) =>
      let r := { r with queue := q, awaited := r.awaited.set port (Serial.next p.header.fragSeq) }
      if p.isFinal then ([p], r)
      else
        let (ps, r') := takeUpTo n r port
        (p :: ps, r')

/-- Takes the packets of a port up to and including the first final one. -/
def takeThroughFinal (r : Reassembly) (port : UInt8) : List Packet × Reassembly :=
  r.takeUpTo (r.queue.packets port).length port

/-- Discards what is queued of a message with a lost fragment. -/
def skipGap (r : Reassembly) (port : UInt8) : Reassembly := (r.takeThroughFinal port).2

/-- Queues a datagram. One before the fragment that is awaited and one that is queued already are
dropped. -/
def push (r : Reassembly) (p : Packet) : Attempt Reassembly Unit :=
  let port := p.port
  if Serial.precedes p.header.fragSeq (r.awaited.get port) then (.ok (), r)
  else if (r.queue.packets port).any (fun o => o.header.fragSeq == p.header.fragSeq) then (.ok (), r)
  else
    match r.queue.push p with
    | .error e => (.error e, r)
    | .ok q =>
      match ({ r with queue := q } : Reassembly).announce port with
      | (true, r) => (.ok (), r)
      | (false, r) =>
        if r.config.maxFragments ≤ (r.queue.packets port).length then
          (.ok (), ((r.skipGap port).announce port).2)
        else (.ok (), r)

/-! ## Packets of connections -/

/-- Appends a packet to the message that its port's connection has begun. A message that would have
too many fragments is dropped. -/
def append (r : Reassembly) (p : Packet) : Reassembly :=
  let port := p.port
  let current := (r.begun.get port).filter fun a => a.nextFrag == p.header.fragSeq
  if p.isFinal then
    let content := (current.map Assembly.content).getD [] ++ p.payload
    { r with
      begun := r.begun.set port none
      finished := r.finished ++ [(port, content)] }
  else
    let a := current.getD ⟨p.header.fragSeq, 0, []⟩
    if r.config.maxFragments ≤ a.count + 1 then
      { r with begun := r.begun.set port none }
    else
      { r with
        begun := r.begun.set port
          (some ⟨Serial.next p.header.fragSeq, a.count + 1, a.content ++ p.payload⟩) }

/-! ## Messages -/

/-- Takes the next complete message with its port, those of connections first. -/
def take (r : Reassembly) : Option (UInt8 × List UInt8) × Reassembly :=
  match r.finished with
  | m :: ms => (some m, { r with finished := ms })
  | [] =>
    match r.announced with
    | [] => (none, r)
    | port :: ports =>
      let (ps, r) := ({ r with announced := ports } : Reassembly).takeThroughFinal port
      (some (port, ps.flatMap Packet.payload), (r.announce port).2)

/-- Takes the next complete message while messages are handed out. -/
def takeIfActive (r : Reassembly) : Option (UInt8 × List UInt8) × Reassembly :=
  if r.active then r.take else (none, r)

/-- Takes at most `n` complete messages. -/
def takeAllUpTo : Nat → Reassembly → List (UInt8 × List UInt8) × Reassembly
  | 0, r => ([], r)
  | n + 1, r =>
    match r.takeIfActive with
    | (none, r) => ([], r)
    | (some m, r) =>
      let (ms, r') := takeAllUpTo n r
      (m :: ms, r')

/-- Takes all complete messages. Each of them uses up a message of a connection, or a packet and a
place among the announced ports, so there are no more of them than the bound says. -/
def takeAll (r : Reassembly) : List (UInt8 × List UInt8) × Reassembly :=
  r.takeAllUpTo (r.finished.length + r.announced.length + r.queue.length)

end Reassembly

end NarrowLink
