import NarrowLink.Engine.Fragment
import NarrowLink.Engine.Reactions

/-!
# The engine

An `Engine` is a table of connections whose owner is a desk. Applications bind ports to it, send
messages from them and open connections on them; the link hands it frames. A message of a port with a
connection goes through the connection, any other one goes out as datagrams, and either is taken whole
or not at all.

Time enters as the argument `now`. The worker of the transmitter and the application's side of
reassembly run when they are asked to (`transmit`, `deliver`), and the timer fires when it is asked to
(`fireTimer`).
-/

namespace NarrowLink

/-- A protocol engine between the applications of one end and its link. -/
structure Engine where
  connections : Connection.Table Engine.Desk

namespace Engine

open Wire
open Connection (Options State Table)

/-- What the engine has besides its connections. -/
def desk (e : Engine) : Desk := e.connections.owner

/-- The limits of the engine. -/
def config (e : Engine) : Config := e.connections.config

/-- Changes the desk. -/
def onDesk (e : Engine) (f : Desk → Desk) : Engine := ⟨e.connections.onOwner f⟩

/-- A call on the table of connections as a call on the engine. -/
def ofTable {α : Type} (r : Attempt (Table Desk) α) : Attempt Engine α := (r.1, ⟨r.2⟩)

/-- The engine that has not been started, if its configuration makes sense. -/
def new (config : Config) : Except ConfigError Engine :=
  match config.validate with
  | .ok () => .ok ⟨.empty config (.new config)⟩
  | .error e => .error e

/-- The text of a failure to set up an engine. -/
def setupMessage (e : ConfigError) : String := "invalid S3TP configuration: " ++ e.message

/-! ## Starting and stopping -/

/-- Starts the engine, unless it runs. The call that stops the engine returns when the worker of the
transmitter has ended (it does not come from the link while that is handed a frame), and a call that comes
meanwhile waits for it, and does nothing yet. -/
def start (e : Engine) : Engine :=
  if e.desk.active || e.desk.transmitter.busy then e
  else
    e.onDesk fun d =>
      { d with
        active := true
        reassembly := d.reassembly.start
        transmitter := d.transmitter.start }

/-- Resets all connections and stops the engine, if it runs. Queued packets stay queued. -/
def stop (e : Engine) : Engine :=
  if !e.desk.active then e
  else
    let e := e.onDesk fun d => { d with active := false }
    let e : Engine := ⟨e.connections.resetAll attending⟩
    e.onDesk fun d =>
      { d with reassembly := d.reassembly.stop, transmitter := d.transmitter.stop }

/-! ## What applications ask for -/

/-- Binds an application to a port. -/
def bind (e : Engine) (port : UInt8) (b : Binding) : Attempt Engine Unit :=
  if Header.maxPort < port then (.error (.invalidPort port), e)
  else if Header.maxPort < b.remotePort then (.error (.invalidPort b.remotePort), e)
  else if (e.desk.bindings.get port).isSome then (.error (.portBusy port), e)
  else (.ok (), e.onDesk fun d => { d with bindings := d.bindings.set port (some b) })

/-- Closes the connection on a port. -/
def closeConnection (e : Engine) (now : Nat) (port : UInt8) : Attempt Engine Unit :=
  ofTable (e.connections.close attending now port)

/-- Frees a port, and closes its connection if it has one that can be closed. -/
def unbind (e : Engine) (now : Nat) (port : UInt8) : Attempt Engine Unit :=
  match e.desk.binding port with
  | .error err => (.error err, e)
  | .ok _ =>
    let e := e.onDesk fun d => { d with bindings := d.bindings.set port none }
    (.ok (), (e.closeConnection now port).2)

/-- The greatest length of a message. A connection must be able to have all of it in flight. -/
def messageLimit (e : Engine) (hasConnection : Bool) : Nat :=
  let fragments := if hasConnection then min e.config.maxFragments e.config.window
    else e.config.maxFragments
  fragments * e.config.maxPayload

/-- Sends the fragments of a message through the connection on a port. -/
def sendThroughConnection (e : Engine) (now : Nat) (port : UInt8) (ps : List Packet) :
    Attempt Engine Unit :=
  let number := fun stamped =>
    let numbered := (Desk.numberConnection e.desk.counters stamped).1
    (numbered, numbered)
  let outcome :=
    match e.config.sendTimeout with
    | some _ => e.connections.sendWaiting attending now port ps number
    | none => e.connections.send attending now port ps number
  match ofTable outcome with
  | (.ok numbered, e) => (.ok (), e.onDesk fun d => d.countConnection numbered)
  | (.error err, e) => (.error err, e)

/-- Sends a message from a bound port. -/
def sendMessage (e : Engine) (now : Nat) (port : UInt8) (message : List UInt8) :
    Attempt Engine Unit :=
  if !e.desk.active then (.error .stopped, e)
  else
    match e.desk.binding port with
    | .error err => (.error err, e)
    | .ok b =>
      if !e.desk.transmitter.linkUp then (.error .linkUnavailable, e)
      else
        let hasConnection := (e.connections.session? port).isSome
        let limit := e.messageLimit hasConnection
        if limit < message.length then (.error (.messageTooLarge message.length limit), e)
        else if hasConnection then
          e.sendThroughConnection now port
            (fragments e.config port b.remotePort .connection b.channel message)
        else
          let ps := fragments e.config port b.remotePort .datagram b.channel message
          let (answer, d) := e.desk.submitDatagram ps
          (answer, e.onDesk fun _ => d)

/-- Opens a connection on a bound port. A reset that an earlier connection of the port left behind
would end the new one, so it is dropped. -/
def openConnection (e : Engine) (now : Nat) (localPort remotePort : UInt8) (options : Options) :
    Attempt Engine Unit :=
  if !e.desk.active then (.error .stopped, e)
  else
    match e.desk.binding localPort with
    | .error err => (.error err, e)
    | .ok b =>
      if !e.desk.transmitter.linkUp then (.error .linkUnavailable, e)
      else
        match ofTable (e.connections.connect attending now localPort remotePort b.channel options) with
        | (.error err, e) => (.error err, e)
        | (.ok (), e) =>
          (.ok (), e.onDesk fun d =>
            { d with heldResets := d.heldResets.filter fun p => p.header.src != localPort })

/-- The state of the connection on a port. -/
def connectionState (e : Engine) (port : UInt8) : Option State := e.connections.state? port

/-! ## What the link tells -/

/-- Takes a frame from the link. What is not a packet, and what its destination refuses, is dropped. -/
def receiveFrame (e : Engine) (now : Nat) (channel : UInt8) (frame : List UInt8) : Engine :=
  if !e.desk.active then e
  else
    match e.desk.reassembly.readFrame channel frame with
    | (.error _, r) => e.onDesk fun d => { d with reassembly := r }
    | (.ok p, r) =>
      match p.header.kind with
      | .datagram => e.onDesk fun d => { d with reassembly := (r.push p).2 }
      | .connection => (ofTable (e.connections.receive attending now p)).2

/-- Notes whether the link is up, and tells the application. -/
def setLink (e : Engine) (up : Bool) : Engine :=
  e.onDesk fun d => { d with transmitter := d.transmitter.setLink up }.notify (.link up)

/-! ## What runs by itself -/

/-- The timer fires: resets that wait for room are tried again, and the timers of the connections are
looked at while the link is up, so that an outage does not use up their retransmissions. -/
def fireTimer (e : Engine) (now : Nat) : Engine :=
  if !e.desk.active then e
  else
    let e := e.onDesk Desk.retryResets
    if e.desk.transmitter.linkUp then ⟨e.connections.checkTimers attending now⟩ else e

/-- Hands all complete messages to the application, while the engine runs. -/
def deliver (e : Engine) : List (UInt8 × List UInt8) × Engine :=
  let (messages, r) := e.desk.reassembly.takeAll
  (messages, e.onDesk fun d => { d with reassembly := r })

/-- Offers what is queued for transmission to the link, which gives the listed replies first. Those that
are not used up are left over. -/
def transmit (e : Engine) (replies : List Reply) : List Offer × List Reply × Engine :=
  let (offers, left, t) := e.desk.transmitter.flush replies
  (offers, left, e.onDesk fun d => { d with transmitter := t })

/-- Tells the application what it has yet to be told. -/
def takeNotices (e : Engine) : List Notice × Engine :=
  (e.desk.notices, e.onDesk fun d => { d with notices := [] })

end Engine

end NarrowLink
