import NarrowLink.Attempt
import NarrowLink.Connection.Event
import NarrowLink.Connection.InFlight
import NarrowLink.Queue
import NarrowLink.Wire.Sack

/-!
# The state of a connection

`Session` is the state of one end of a connection between two ports. Every packet that
consumes a reliable sequence number stays in flight until the peer acknowledges it; pure
acknowledgements, selective ones and resets carry the next number without consuming it. What the
connection wants to send goes to its outbound queue, and what it may hand on to its inbound queue;
`events` collects what the owner has yet to be told.

This file holds the steps that all operations are made of: telling the owner (`raise`, `moveTo`),
queueing what carries no sequence number of its own (`post`) and what does (`postNumbered`), and
keeping account of what was acknowledged (`acknowledge`) and of what arrived (`advance`, `gapRanges`,
`postAck`).
-/

namespace NarrowLink.Connection

open Wire

/-- One end of a connection. -/
structure Session where
  config : Config
  role : Role
  localPort : UInt8
  remotePort : UInt8
  /-- The virtual channel that the packets travel on. -/
  channel : UInt8
  options : Options
  state : State
  /-- The number of the next packet that consumes one. -/
  nextSeq : UInt8
  /-- The oldest number that was sent and is not acknowledged cumulatively. -/
  oldestUnacked : UInt8
  /-- The number that is needed next for delivery in sequence. -/
  expected : UInt8
  outbound : Queue
  inbound : Queue
  /-- The numbers that arrived, but not in sequence yet. -/
  early : ByteMap Bool
  /-- Something arrived beyond a gap, which the peer should be told. -/
  hasGap : Bool
  inFlight : InFlight
  /-- What the owner has yet to be told. -/
  events : List Event
deriving DecidableEq

namespace Session

/-- The end of a connection that has not begun. -/
def new (config : Config) (role : Role) (localPort remotePort channel : UInt8) (options : Options) :
    Session where
  config := config
  role := role
  localPort := localPort
  remotePort := remotePort
  channel := channel
  options := options
  state := .disconnected
  nextSeq := 0
  oldestUnacked := 0
  expected := 0
  outbound := .empty .reliability config.connectionQueueCapacity
  inbound := .empty .reliability config.connectionQueueCapacity
  early := .const false
  hasGap := false
  inFlight := {}
  events := []

/-- The number of packets that are not acknowledged. -/
def unacknowledged (s : Session) : Nat := s.inFlight.length

/-! ## Telling the owner -/

/-- Notes an event that the owner has yet to be told, once. -/
def raise (s : Session) (e : Event) : Session :=
  if e ∈ s.events then s else { s with events := s.events ++ [e] }

/-- Moves to a state, and notes the change if it is one. -/
def moveTo (s : Session) (new : State) : Session :=
  if s.state = new then s
  else { s with state := new }.raise (.stateChanged s.localPort s.remotePort s.state new)

/-- Hands out what the owner has yet to be told, changes of state first. -/
def takeEvents (s : Session) : List Event × Session :=
  (Event.stateFirst s.events, { s with events := [] })

/-! ## Queueing -/

/-- A packet from this end to the other, acknowledging what is expected next. -/
def packet (s : Session) (flags : Flags) (relSeq : UInt8) (payload : List UInt8) : Packet :=
  .ofPayload
    { kind := .connection, dst := s.remotePort, src := s.localPort, flags := flags,
      relSeq := relSeq, ack := s.expected }
    payload s.channel

/-- Queues a packet that carries no application data. A full queue drops it. -/
def post (s : Session) (p : Packet) : Session :=
  match s.outbound.push p with
  | .ok q => { s with outbound := q }.raise (.outboundAvailable s.localPort)
  | .error _ => s

/-- Queues a packet without payload that consumes a number, and keeps it in flight. -/
def postNumbered (s : Session) (flags : Flags) (now : Nat) : Attempt Session Unit :=
  let p := s.packet flags s.nextSeq []
  if s.outbound.fits p.wireLength then
    let s := { s with nextSeq := Serial.next s.nextSeq, inFlight := s.inFlight.push p now }
    match s.outbound.push p with
    | .ok q => (.ok (), { s with outbound := q }.raise (.outboundAvailable s.localPort))
    | .error e => (.error e, s)
  else (.error .queueFull, s)

/-! ## What the peer acknowledged -/

/-- The number acknowledges a packet that was not acknowledged before. -/
def confirmsNew (s : Session) (ack : UInt8) : Bool :=
  ack != s.oldestUnacked && Serial.inRange ack s.oldestUnacked s.nextSeq

/-- Takes all packets before a number out of flight, if the number lies among those that were sent. -/
def acknowledge (s : Session) (ack : UInt8) : Session :=
  if Serial.inRange ack s.oldestUnacked s.nextSeq then
    { s with inFlight := s.inFlight.acknowledgeBefore ack, oldestUnacked := ack }
  else s

/-- Takes the packets in each of the ranges out of flight. -/
def acknowledgeRanges (s : Session) (ranges : List (UInt8 × UInt8)) : Session :=
  { s with inFlight := ranges.foldl (fun f r => f.acknowledgeWithin r.1 r.2) s.inFlight }

/-! ## What arrived -/

/-- Notes that a number arrived. -/
def arrive (s : Session) (relSeq : UInt8) : Session :=
  { s with early := s.early.set relSeq true }

/-- Takes the unbroken run of numbers from `expected` on out of those that arrived, at most `n` of
them, and gives the number after the run. -/
def runFrom : Nat → ByteMap Bool → UInt8 → ByteMap Bool × UInt8
  | 0, early, expected => (early, expected)
  | n + 1, early, expected =>
    if early.get expected then runFrom n (early.set expected false) (Serial.next expected)
    else (early, expected)

/-- Moves what is expected over everything that arrived in sequence. What is left lies beyond a gap. -/
def advance (s : Session) : Session :=
  let (early, expected) := runFrom 256 s.early s.expected
  { s with early := early, expected := expected, hasGap := early.values.any id }

/-- The ranges of numbers that arrived among the `n` numbers from `k` on. A range that reaches up to `k`
started with `begun`. -/
def rangesFrom (early : ByteMap Bool) : Nat → UInt8 → Option UInt8 → List (UInt8 × UInt8)
  | 0, _, none => []
  | 0, k, some first => [(first, k - 1)]
  | n + 1, k, begun =>
    if early.get k then rangesFrom early n (Serial.next k) (some (begun.getD k))
    else
      match begun with
      | none => rangesFrom early n (Serial.next k) none
      | some first => (first, k - 1) :: rangesFrom early n (Serial.next k) none

/-- The ranges of numbers that arrived beyond a gap, within the receive window. -/
def gapRanges (s : Session) : List (UInt8 × UInt8) :=
  rangesFrom s.early s.config.window s.expected none

/-- The selective acknowledgement that the peer should get now, if any. -/
def gapReport (s : Session) : Option Packet :=
  if s.hasGap && s.options.selectiveAck then
    some (s.packet .reporting s.nextSeq (Sack.encode s.gapRanges))
  else none

/-- Queues the selective acknowledgement that the peer should get now, if any. -/
def postGapReport (s : Session) : Session :=
  match s.gapReport with
  | some p => s.post p
  | none => s

/-- Queues a pure acknowledgement, and a selective one while there is a gap. -/
def postAck (s : Session) : Session :=
  (s.post (s.packet .acknowledging s.nextSeq [])).postGapReport

/-- Drops everything that was queued, that arrived and that is in flight. -/
def discard (s : Session) : Session :=
  { s with
    outbound := s.outbound.clear.2
    inbound := s.inbound.clear.2
    early := .const false
    hasGap := false
    inFlight := {} }

end Session

end NarrowLink.Connection
