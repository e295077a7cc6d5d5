import NarrowLink.Connection.Receive
import NarrowLink.Connection.Send

/-!
# The table of connections

A `Table` keeps at most one connection per local port, on behalf of an owner. The owner is described
by an `Owner`: it reacts to what its connections tell it, and decides which connections it accepts. A
reaction may call back into the table, so both the table and the state of the owner, which travels
with the table, may change while an event is being told.

Every operation on a connection goes through `Table.onSession`, which tells the owner afterwards what
happened (`Table.tell`). A connection that has ended is removed once the owner knows, unless another
one has taken its port in the meantime; the serial numbers of the entries tell them apart.
-/

namespace NarrowLink.Connection

open Wire

/-- A connection in a table, with the number under which it was entered. -/
structure Entry where
  serial : Nat
  session : Session
deriving DecidableEq

/-- The connections of an owner whose state is of type `σ`. -/
structure Table (σ : Type) where
  config : Config
  entries : ByteMap (Option Entry)
  /-- The serial number of the next connection. -/
  nextSerial : Nat
  /-- The state of the owner. -/
  owner : σ

/-- What an owner does with its connections. -/
structure Owner (σ : Type) where
  /-- Learns of an event, and may call back into the table. -/
  react : Event → Table σ → Table σ
  /-- Decides whether a remote port may have a connection to a local one, and with which options. -/
  decideOn : (localPort remotePort : UInt8) → Table σ → Option Options × Table σ

namespace Table

variable {σ : Type}

/-- The table without connections. -/
def empty (config : Config) (owner : σ) : Table σ := ⟨config, .const none, 0, owner⟩

/-- Changes the state of the owner. -/
def onOwner (t : Table σ) (f : σ → σ) : Table σ := { t with owner := f t.owner }

/-- The connection on a port. -/
def session? (t : Table σ) (port : UInt8) : Option Session := (t.entries.get port).map Entry.session

/-- The state of the connection on a port. -/
def state? (t : Table σ) (port : UInt8) : Option State := (t.session? port).map Session.state

/-- The ports that have a connection, in ascending order. -/
def ports (t : Table σ) : List UInt8 := t.entries.keysWhere Option.isSome

/-- The number of connections. -/
def size (t : Table σ) : Nat := t.ports.length

/-- Removes the connection that was entered on a port under a number, if it is still there. -/
def remove (t : Table σ) (port : UInt8) (serial : Nat) : Table σ :=
  if (t.entries.get port).any (fun e => e.serial == serial) then
    { t with entries := t.entries.set port none }
  else t

/-- Tells the owner what happened to a connection, which is removed if it ended. -/
def tell (o : Owner σ) (t : Table σ) (port : UInt8) (serial : Nat) (events : List Event) : Table σ :=
  let told := events.foldl (fun t e => o.react e t) t
  if events.any Event.isDisconnect then told.remove port serial else told

/-- Runs an operation on the connection on a port, and tells the owner what happened. -/
def onSession {α : Type} (o : Owner σ) (t : Table σ) (port : UInt8) (f : Session → α × Session) :
    Option α × Table σ :=
  match t.entries.get port with
  | none => (none, t)
  | some e =>
    let (a, s) := f e.session
    let (events, s) := s.takeEvents
    let t := { t with entries := t.entries.set port (some { e with session := s }) }
    (some a, t.tell o port e.serial events)

/-- Enters a new connection on a port, and tells the owner what happened to it so far. -/
def enter (o : Owner σ) (t : Table σ) (port : UInt8) (s : Session) : Table σ :=
  let (events, s) := s.takeEvents
  let serial := t.nextSerial
  let t := { t with
    entries := t.entries.set port (some ⟨serial, s⟩)
    nextSerial := serial + 1 }
  t.tell o port serial events

/-- The answer of an operation on a connection, or the error if there is no connection. -/
def orElse {α : Type} (missing : Error) (r : Option (Except Error α) × Table σ) :
    Attempt (Table σ) α :=
  (r.1.getD (.error missing), r.2)

/-! ## Beginning -/

/-- Opens a connection as the initiator. -/
def connect (o : Owner σ) (t : Table σ) (now : Nat) (localPort remotePort channel : UInt8)
    (options : Options) : Attempt (Table σ) Unit :=
  if Header.maxPort < localPort then (.error (.invalidPort localPort), t)
  else if Header.maxPort < remotePort then (.error (.invalidPort remotePort), t)
  else if (t.entries.get localPort).isSome then (.error (.portBusy localPort), t)
  else
    match (Session.new t.config .initiator localPort remotePort channel options).connect now with
    | (.error e, _) => (.error e, t)
    | (.ok (), s) => (.ok (), t.enter o localPort s)

/-- The packet that turns another one away. -/
def rejection (p : Packet) (flags : Flags) : Packet :=
  .ofPayload
    { kind := .connection, dst := p.header.src, src := p.port, flags := flags,
      ack := Serial.next p.header.relSeq }
    [] p.channel

/-- Turns a packet away. -/
def reject (o : Owner σ) (t : Table σ) (p : Packet) (flags : Flags) : Table σ :=
  o.react (.rejected p.port (rejection p flags)) t

/-- Takes the packet that asks for a connection on a free port. The owner may have opened one there
itself while it was asked, which then gets the packet. -/
def receiveOpening (o : Owner σ) (t : Table σ) (now : Nat) (syn : Packet) :
    Attempt (Table σ) Unit :=
  let port := syn.port
  match o.decideOn port syn.header.src t with
  | (none, t) => (.error (.portNotOpen port), t.reject o syn .refusing)
  | (some options, t) =>
    if (t.entries.get port).isSome then
      orElse (.portNotOpen port) (t.onSession o port fun s => s.receive syn)
    else
      let s := Session.new t.config .responder port syn.header.src syn.channel options
      match s.accept syn now with
      | (.error e, _) => (.error e, t)
      | (.ok (), s) => (.ok (), t.enter o port s)

/-- Takes a packet from the link. It goes to the connection on its port; one that asks for a
connection may create it, and any other one that finds no connection is turned away. -/
def receive (o : Owner σ) (t : Table σ) (now : Nat) (p : Packet) : Attempt (Table σ) Unit :=
  match t.onSession o p.port fun s => s.receive p with
  | (some answer, t) => (answer, t)
  | (none, t) =>
    if p.header.flags = .opening then t.receiveOpening o now p
    else if p.header.flags.rst then (.error (.portNotOpen p.port), t)
    else (.error (.portNotOpen p.port), t.reject o p .resetting)

/-! ## Using -/

/-- Sends the fragments of a message through the connection on a port. -/
def send {α : Type} (o : Owner σ) (t : Table σ) (now : Nat) (port : UInt8) (ps : List Packet)
    (number : List Packet → List Packet × α) : Attempt (Table σ) α :=
  orElse (.notConnected port) (t.onSession o port fun s => s.send ps now number)

/-- Sends like `send`, but waits for room in the connection. The table stands still while the call
waits, so a connection without room is still without room when the time is up. -/
def sendWaiting {α : Type} (o : Owner σ) (t : Table σ) (now : Nat) (port : UInt8) (ps : List Packet)
    (number : List Packet → List Packet × α) : Attempt (Table σ) α :=
  match t.session? port with
  | none => (.error (.notConnected port), t)
  | some s =>
    match s.admits ps with
    | .error e => (.error e, t)
    | .ok () => t.send o now port ps number

/-- Takes what the connection on a port has for the transmitter. -/
def fetchOutbound (o : Owner σ) (t : Table σ) (port : UInt8) : List Packet × Table σ :=
  let (ps, t) := t.onSession o port Session.fetchOutbound
  (ps.getD [], t)

/-- Puts packets back that could not be handed to the transmitter. Without a connection they are
dropped. -/
def giveBack (o : Owner σ) (t : Table σ) (port : UInt8) (ps : List Packet) : Table σ :=
  (t.onSession o port fun s => ((), s.giveBack ps)).2

/-- Takes what the connection on a port has for reassembly. -/
def fetchInbound (o : Owner σ) (t : Table σ) (port : UInt8) : List Packet × Table σ :=
  let (ps, t) := t.onSession o port Session.fetchInbound
  (ps.getD [], t)

/-! ## Ending -/

/-- Ends the connection on a port in order. -/
def close (o : Owner σ) (t : Table σ) (now : Nat) (port : UInt8) : Attempt (Table σ) Unit :=
  orElse (.portNotOpen port) (t.onSession o port fun s => s.close now)

/-- Resets the connection on a port. -/
def reset (o : Owner σ) (t : Table σ) (port : UInt8) : Attempt (Table σ) Unit :=
  orElse (.portNotOpen port) (t.onSession o port fun s => (.ok (), s.reset))

/-- Resets all connections. -/
def resetAll (o : Owner σ) (t : Table σ) : Table σ :=
  t.ports.foldl (fun t port => (t.reset o port).2) t

/-- Looks at the timers of all connections. -/
def checkTimers (o : Owner σ) (t : Table σ) (now : Nat) : Table σ :=
  t.ports.foldl (fun t port => (t.onSession o port fun s => ((), s.checkTimers now)).2) t

end Table

end NarrowLink.Connection
