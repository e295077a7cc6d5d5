import NarrowLink.Connection.Receive
import NarrowLink.Connection.Send
import NarrowLink.Proofs.Serial.Forward

/-!
# Two ends of a connection over a link

`Exchange` is a connection as a whole: its two ends, and for each of them the packets that are on the
way to it.  The link keeps packets in order and may lose any of them.  `Exchange.apply` is what one
thing that happens (`Act`) makes of it, and `Exchange.after` what a run of them makes of it.

Beside each session stands what an observer knows of it who counts without wrapping around (`End`):
the packets that were given a number, so that the place of a packet in this list is its number; how
many numbers the end has passed in sequence; and which numbers it has ever taken.
-/

namespace NarrowLink.Connection

open Wire

/-- The other end. -/
def Role.peer : Role → Role
  | .initiator => .responder
  | .responder => .initiator

@[simp] theorem Role.peer_peer (x : Role) : x.peer.peer = x := by cases x <;> rfl

theorem Role.peer_ne (x : Role) : x.peer ≠ x := by cases x <;> decide

/-- There are two ends. -/
theorem Role.eq_peer_of_ne {x y : Role} (h : y ≠ x) : y = x.peer := by
  cases x <;> cases y <;> first | rfl | exact absurd rfl h

/-- What an application gets to see of a packet. -/
structure Piece where
  payload : List UInt8
  more : Bool
  fragSeq : UInt8
deriving DecidableEq

/-- What an application gets to see of a packet. -/
def Piece.of (p : Packet) : Piece := ⟨p.payload, p.header.more, p.header.fragSeq⟩

/-- What the two ends of a connection are created with. -/
structure Terms where
  config : Config
  options : Role → Options
  port : Role → UInt8
  channel : Role → UInt8

/-- One end of a connection, and what is known of its past. -/
structure End where
  session : Session
  /-- The packets that were given a number, in the order of their numbers. -/
  sent : List Packet
  /-- How many numbers the end has passed in sequence. -/
  reached : Nat
  /-- The numbers that the end has taken, in sequence or early. -/
  took : Nat → Bool
  /-- What the end was asked to send and did not refuse. -/
  accepted : List Piece
  /-- What the end has handed out. -/
  handed : List Piece

/-- The end of a connection that has not begun. -/
def Terms.newEnd (t : Terms) (x : Role) : End where
  session := .new t.config x (t.port x) (t.port x.peer) (t.channel x) (t.options x)
  sent := []
  reached := 0
  took := fun _ => false
  accepted := []
  handed := []

/-- The end with a new session, and what can be read off it. -/
def End.observe (e : End) (s : Session) : End :=
  let reached := e.reached + Serial.distance e.session.expected s.expected
  { e with
    session := s
    sent := e.sent ++ (s.inFlight.flights.drop e.session.inFlight.length).map Flight.packet
    reached := reached
    took := fun n => e.took n || decide (n < reached) ||
      (decide (n < reached + 256) && s.early.get (Serial.forward 0 n)) }

/-- A connection as a whole. -/
structure Exchange where
  ends : Role → End
  /-- The packets on the way to an end, first to last. -/
  link : Role → List Packet
  /-- The initiator has asked for the connection. -/
  opened : Bool
  /-- The responder was asked for the connection. -/
  created : Bool

/-- The connection that has not begun. -/
def Terms.start (t : Terms) : Exchange where
  ends := t.newEnd
  link := fun _ => []
  opened := false
  created := false

/-- Things that happen to a connection. -/
inductive Act where
  /-- The initiator asks for the connection, once. -/
  | connect (now : Nat)
  /-- An end sends the fragments of a message, which are given these fragment numbers. -/
  | send (x : Role) (ps : List Packet) (numbers : List UInt8) (now : Nat)
  | close (x : Role) (now : Nat)
  | reset (x : Role)
  | tick (x : Role) (now : Nat)
  /-- The packets that are queued at an end go onto the link. -/
  | take (x : Role)
  /-- The next packet on the way to an end is lost. -/
  | lose (x : Role)
  /-- The next packet on the way to an end arrives, after which the end may hand out what is in
  sequence. -/
  | deliver (x : Role) (hands : Bool) (now : Nat)

/-- Gives fragment numbers to packets, as far as there are numbers. -/
def numberFragments : List UInt8 → List Packet → List Packet
  | n :: ns, p :: ps => { p with header := { p.header with fragSeq := n } } :: numberFragments ns ps
  | _, ps => ps

/-- The session of an end that a packet has reached. The first request makes the responder answer. -/
def Exchange.reacted (e : Exchange) (x : Role) (p : Packet) (now : Nat) : Session :=
  let s := (e.ends x).session
  if x = .responder ∧ e.created = false ∧ p.header.flags.syn then (s.accept p now).2
  else (s.receive p).2

namespace Exchange

/-- The connection with one end replaced. -/
def put (e : Exchange) (x : Role) (end' : End) : Exchange :=
  { e with ends := fun y => if y = x then end' else e.ends y }

/-- The connection with a new session at one end. -/
def update (e : Exchange) (x : Role) (s : Session) : Exchange := e.put x ((e.ends x).observe s)

/-- The connection with other packets on the way to an end. -/
def relink (e : Exchange) (x : Role) (ps : List Packet) : Exchange :=
  { e with link := fun y => if y = x then ps else e.link y }

/-- An end hands out what is in sequence. -/
def hand (e : Exchange) (x : Role) : Exchange :=
  let (ps, s) := (e.ends x).session.fetchInbound
  let e := e.update x s
  e.put x { e.ends x with handed := (e.ends x).handed ++ ps.map Piece.of }

/-- The packet arrives. -/
def arrive (e : Exchange) (x : Role) (p : Packet) (now : Nat) : Exchange :=
  { e.update x (e.reacted x p now) with
    created := e.created || (x = .responder && p.header.flags.syn) }

/-- What something that happens makes of a connection. -/
def apply (e : Exchange) : Act → Exchange
  | .connect now =>
    if e.opened then e
    else { e.update .initiator ((e.ends .initiator).session.connect now).2 with opened := true }
  | .send x ps numbers now =>
    let (answer, s) := (e.ends x).session.send ps now fun ps => (numberFragments numbers ps, ())
    let e := e.update x s
    match answer with
    | .error _ => e
    | .ok () =>
      let pieces := (numberFragments numbers ps).map Piece.of
      e.put x { e.ends x with accepted := (e.ends x).accepted ++ pieces }
  | .close x now => e.update x ((e.ends x).session.close now).2
  | .reset x => e.update x (e.ends x).session.reset
  | .tick x now => e.update x ((e.ends x).session.checkTimers now)
  | .take x =>
    let (ps, s) := (e.ends x).session.fetchOutbound
    (e.update x s).relink x.peer (e.link x.peer ++ ps)
  | .lose x => e.relink x (e.link x).tail
  | .deliver x hands now =>
    match e.link x with
    | [] => e
    | p :: ps =>
      let e := (e.relink x ps).arrive x p now
      if hands then e.hand x else e

/-- What a run makes of a connection. -/
def after (e : Exchange) (acts : List Act) : Exchange := acts.foldl apply e

theorem after_concat (e : Exchange) (acts : List Act) (a : Act) :
    e.after (acts ++ [a]) = (e.after acts).apply a := by
  simp [after]

theorem after_append (e : Exchange) (acts acts' : List Act) :
    e.after (acts ++ acts') = (e.after acts).after acts' :=
  List.foldl_append

/-! ## What becomes of the ends -/

variable (e : Exchange) (x : Role) (en : End) (s : Session) (p : Packet) (now : Nat)
  (ps : List Packet)

@[simp] theorem ends_put : (e.put x en).ends x = en := if_pos rfl

@[simp] theorem ends_put_peer : (e.put x en).ends x.peer = e.ends x.peer := if_neg x.peer_ne

@[simp] theorem ends_update : (e.update x s).ends x = (e.ends x).observe s := ends_put e x _

@[simp] theorem ends_update_peer : (e.update x s).ends x.peer = e.ends x.peer := ends_put_peer e x _

@[simp] theorem ends_arrive : (e.arrive x p now).ends x = (e.ends x).observe (e.reacted x p now) :=
  ends_update e x _

@[simp] theorem ends_arrive_peer : (e.arrive x p now).ends x.peer = e.ends x.peer :=
  ends_update_peer e x _

@[simp] theorem ends_relink : (e.relink x ps).ends = e.ends := rfl

@[simp] theorem reacted_relink (y : Role) : (e.relink y ps).reacted x p now = e.reacted x p now := rfl

@[simp] theorem ends_hand : (e.hand x).ends x =
    { (e.ends x).observe (e.ends x).session.fetchInbound.2 with
      handed := (e.ends x).handed ++ (e.ends x).session.fetchInbound.1.map Piece.of } := by
  simp [hand, End.observe]

@[simp] theorem ends_hand_peer : (e.hand x).ends x.peer = e.ends x.peer := by simp [hand]

end Exchange

/-! ## Runs to try things on -/

/-- A packet that a user wants to send. -/
def message : Packet :=
  ⟨{ kind := .connection, dst := 0, src := 0, flags := .carrying, relSeq := 0, ack := 0 }, [], 0⟩

/-- A connection between two ports with a window, whose ends send again what is lost, and both report gaps
or neither does. -/
def Terms.withWindow (window : Nat) (reports : Bool) : Terms where
  config := { window := window }
  options := fun _ => { retransmit := true, selectiveAck := reports }
  port := fun
    | .initiator => 7
    | .responder => 9
  channel := fun _ => 0

theorem valid_withWindow {window : Nat} (hpos : 0 < window) (hle : window ≤ 128) (reports : Bool) :
    (Terms.withWindow window reports).config.Valid where
  mtu_gt := by simp [Terms.withWindow, Header.size]
  maxPayload_le := by simp [Terms.withWindow, Config.maxPayload, Header.size, Header.maxPayload]
  window_pos := hpos
  window_le := hle
  maxFragments_pos := by simp [Terms.withWindow]
  maxFragments_le := by simp [Terms.withWindow]
  mtu_le_queueCapacity := by simp [Terms.withWindow]
  mtu_le_connectionQueueCapacity := by simp [Terms.withWindow]
  timeout_le := by simp [Terms.withWindow]

/-- The two ends agree on their first numbers. -/
def handshake : List Act :=
  [.connect 0, .take .initiator, .deliver .responder true 0, .take .responder,
    .deliver .initiator true 0, .take .initiator, .deliver .responder true 0]

/-- The initiator sends messages, one after the other. -/
def messages (count : Nat) : List Act :=
  (List.replicate count [.send .initiator [message] [] 0, .take .initiator]).flatten

end NarrowLink.Connection
