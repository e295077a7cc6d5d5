import NarrowLink.Engine.Basic
import NarrowLink.Proofs.Table.Viewing
import NarrowLink.Proofs.Transmitter.Acts

/-!
# Runs of an engine

`Act` lists what can happen to an engine: what applications ask for, what the link tells, the timer, and
the steps of the workers of the transmitter, in any order.  The timer and the call that stops the engine go
through the connections in ascending order of their ports.  So that nothing depends on this order, what they
do to one connection is an act as well.  A `Chronicle` is an engine with a record of
two things that the engine itself does not keep: the batches of packets that the transmit queue
accepted, and the messages that connections accepted.  What the transmit queue accepts during a call on
the table of connections is recorded by an owner that does what the desk does, and writes it down
(`logging`).
-/

namespace NarrowLink.Engine

open Wire
open Connection (Event Options Owner Table)

/-- One thing that happens to an engine. -/
inductive Act where
  | start
  | stop
  | bind (port : UInt8) (b : Binding)
  | unbind (now : Nat) (port : UInt8)
  | closeConnection (now : Nat) (port : UInt8)
  | sendMessage (now : Nat) (port : UInt8) (message : List UInt8)
  | openConnection (now : Nat) (localPort remotePort : UInt8) (options : Options)
  | receiveFrame (now : Nat) (channel : UInt8) (frame : List UInt8)
  | setLink (up : Bool)
  | fireTimer (now : Nat)
  /-- The timer tries the resets again that wait for room. -/
  | retryResets
  /-- The timer looks at one connection. -/
  | checkTimers (now : Nat) (port : UInt8)
  /-- The call that stops the engine resets one connection. -/
  | resetConnection (port : UInt8)
  | deliver
  | takeNotices
  /-- A worker goes on. -/
  | step (w : Nat)
  /-- The link answers for the packet that a worker has offered. -/
  | settle (w : Nat) (reply : Reply)

/-- The engine after a step of its transmitter. -/
def work (e : Engine) (a : Transmitter.Act) : Engine :=
  e.onDesk fun d => { d with transmitter := d.transmitter.apply a }

/-- Looks at the timers of the connection on a port. -/
def checkTimers (e : Engine) (now : Nat) (port : UInt8) : Engine :=
  ⟨(e.connections.onSession attending port fun s => ((), s.checkTimers now)).2⟩

/-- Resets the connection on a port. -/
def resetConnection (e : Engine) (port : UInt8) : Attempt Engine Unit :=
  ofTable (e.connections.reset attending port)

/-- What an act is answered, and the engine that it leaves behind. -/
def perform (e : Engine) : Act → Attempt Engine Unit
  | .start => (.ok (), e.start)
  | .stop => (.ok (), e.stop)
  | .bind port b => e.bind port b
  | .unbind now port => e.unbind now port
  | .closeConnection now port => e.closeConnection now port
  | .sendMessage now port message => e.sendMessage now port message
  | .openConnection now localPort remotePort options =>
    e.openConnection now localPort remotePort options
  | .receiveFrame now channel frame => (.ok (), e.receiveFrame now channel frame)
  | .setLink up => (.ok (), e.setLink up)
  | .fireTimer now => (.ok (), e.fireTimer now)
  | .retryResets => (.ok (), e.onDesk Desk.retryResets)
  | .checkTimers now port => (.ok (), e.checkTimers now port)
  | .resetConnection port => e.resetConnection port
  | .deliver => (.ok (), e.deliver.2)
  | .takeNotices => (.ok (), e.takeNotices.2)
  | .step w => (.ok (), e.work (.step w))
  | .settle w reply => (.ok (), e.work (.settle w reply))

/-- The engine that has not been started. -/
def fresh (config : Config) : Engine := ⟨.empty config (.new config)⟩

theorem new_eq_ok {config : Config} (h : config.Valid) : Engine.new config = .ok (fresh config) := by
  unfold Engine.new
  rw [(Config.validate_eq_ok_iff config).2 h]
  rfl

/-- The engine after a run. -/
def after (e : Engine) (acts : List Act) : Engine := acts.foldl (fun e a => (e.perform a).2) e

/-! ## What applications ask for, case by case -/

/-- The binding of a port on which applications may send and open connections right now. -/
def ready (e : Engine) (port : UInt8) : Except Error Binding :=
  if !e.desk.active then .error .stopped
  else
    match e.desk.binding port with
    | .error err => .error err
    | .ok b => if !e.desk.transmitter.linkUp then .error .linkUnavailable else .ok b

/-- The fragments of a message of a port, and whether they go through a connection. -/
def route (e : Engine) (port : UInt8) (message : List UInt8) : Except Error (Bool × List Packet) :=
  match e.ready port with
  | .error err => .error err
  | .ok b =>
    let connected := (e.connections.session? port).isSome
    if e.messageLimit connected < message.length then
      .error (.messageTooLarge message.length (e.messageLimit connected))
    else
      let kind := if connected then .connection else .datagram
      .ok (connected, fragments e.config port b.remotePort kind b.channel message)

theorem route_eq_ok {e : Engine} {port : UInt8} {message : List UInt8} {connected : Bool}
    {ps : List Packet} (h : e.route port message = .ok (connected, ps)) :
    connected = (e.connections.session? port).isSome ∧
      message.length ≤ e.messageLimit connected ∧
      ∃ b : Binding, ps = fragments e.config port b.remotePort
        (if connected then .connection else .datagram) b.channel message := by
  unfold route at h
  split at h
  · cases h
  rename_i b hb
  simp only at h
  split at h
  · cases h
  · rename_i hlimit
    cases h
    exact ⟨rfl, Nat.not_lt.1 hlimit, b, rfl⟩

/-- Sends fragments through the connection on a port of a table, with the next fragment numbers. -/
def passage {σ : Type} (o : Owner σ) (c : ByteMap Counters) (now : Nat) (port : UInt8)
    (ps : List Packet) (t : Table σ) : Attempt (Table σ) (List Packet) :=
  let number := fun stamped =>
    let numbered := (Desk.numberConnection c stamped).1
    (numbered, numbered)
  match t.config.sendTimeout with
  | some _ => t.sendWaiting o now port ps number
  | none => t.send o now port ps number

theorem sendThroughConnection_eq (e : Engine) (now : Nat) (port : UInt8) (ps : List Packet) :
    e.sendThroughConnection now port ps =
      match passage attending e.desk.counters now port ps e.connections with
      | (.ok numbered, t) => (.ok (), (⟨t⟩ : Engine).onDesk fun d => d.countConnection numbered)
      | (.error err, t) => (.error err, ⟨t⟩) := by
  unfold sendThroughConnection passage ofTable config
  cases e.connections.config.sendTimeout with
  | none =>
    simp only
    cases e.connections.send attending now port ps _ with
    | mk answer t => cases answer <;> rfl
  | some =>
    simp only
    cases e.connections.sendWaiting attending now port ps _ with
    | mk answer t => cases answer <;> rfl

theorem sendMessage_eq (e : Engine) (now : Nat) (port : UInt8) (message : List UInt8) :
    e.sendMessage now port message =
      match e.route port message with
      | .error err => (.error err, e)
      | .ok (true, ps) => e.sendThroughConnection now port ps
      | .ok (false, ps) =>
        ((e.desk.submitDatagram ps).1, e.onDesk fun _ => (e.desk.submitDatagram ps).2) := by
  unfold sendMessage route ready
  cases e.desk.active with
  | false => rfl
  | true =>
    cases e.desk.binding port with
    | error => rfl
    | ok b =>
      cases e.desk.transmitter.linkUp with
      | false => rfl
      | true =>
        cases hconnected : (e.connections.session? port).isSome with
        | false =>
          simp only [Bool.not_true, Bool.false_eq_true, if_false]
          split <;> rfl
        | true =>
          simp only [Bool.not_true, Bool.false_eq_true, if_false, if_true]
          split <;> rfl

theorem openConnection_eq (e : Engine) (now : Nat) (localPort remotePort : UInt8) (options : Options) :
    e.openConnection now localPort remotePort options =
      match e.ready localPort with
      | .error err => (.error err, e)
      | .ok b =>
        match e.connections.connect attending now localPort remotePort b.channel options with
        | (.error err, t) => (.error err, ⟨t⟩)
        | (.ok (), t) => (.ok (), (⟨t⟩ : Engine).onDesk fun d =>
            { d with heldResets := d.heldResets.filter fun p => p.header.src != localPort }) := by
  unfold openConnection ready ofTable
  cases e.desk.active with
  | false => rfl
  | true =>
    cases e.desk.binding localPort with
    | error => rfl
    | ok b =>
      cases e.desk.transmitter.linkUp with
      | false => rfl
      | true =>
        simp only [Bool.not_true, Bool.false_eq_true, if_false]
        cases e.connections.connect attending now localPort remotePort b.channel options with
        | mk answer t => cases answer <;> rfl

/-- The packet of a connection that a frame brings. -/
def arriving (e : Engine) (channel : UInt8) (frame : List UInt8) : Option Packet :=
  if !e.desk.active then none
  else
    match (e.desk.reassembly.readFrame channel frame).1 with
    | .ok p => if p.header.kind = .connection then some p else none
    | .error _ => none

/-! ## What the transmit queue accepts -/

/-- The batch that the transmit queue accepts when packets are submitted, if it does. -/
def Desk.accepted (d : Desk) (ps : List Packet) : List (List Packet) :=
  match d.submit ps with
  | (.ok (), _) => [(numberTransmit d.counters ps).1]
  | (.error _, _) => []

/-- The batch that the transmit queue accepts when datagrams are submitted, if it does. -/
def Desk.acceptedDatagram (d : Desk) (ps : List Packet) : List (List Packet) :=
  let (numbered, counters) := numberDatagram d.counters ps
  ({ d with counters := counters } : Desk).accepted numbered

/-- The batch that the transmit queue accepts when the resets that wait for room are tried again. -/
def Desk.acceptedResets (d : Desk) : List (List Packet) :=
  match d.heldResets with
  | [] => []
  | resets => ({ d with heldResets := [] } : Desk).accepted resets

/-- The batch that the transmit queue accepts when the desk reacts to an event. -/
def acceptedOn (event : Event) (t : Table Desk) : List (List Packet) :=
  match event with
  | .outboundAvailable port =>
    let (ps, t) := t.fetchOutbound listening port
    if ps.isEmpty then [] else t.owner.accepted ps
  | .rejected _ reply => t.owner.accepted [reply]
  | _ => []

/-- A desk, and the batches of packets that its transmit queue has accepted, first to last. -/
structure Logged where
  desk : Desk
  batches : List (List Packet)

/-- The desk as the owner of the connections, writing down what its transmit queue accepts. -/
def logging : Owner Logged where
  react event t :=
    (attending.react event (t.view Logged.desk)).view fun d =>
      ⟨d, t.owner.batches ++ acceptedOn event (t.view Logged.desk)⟩
  decideOn port _ t := (acceptance port (t.view Logged.desk), t)

/-- Connections whose owner starts with a record. -/
def withRecord (t : Table Desk) (batches : List (List Packet)) : Table Logged :=
  t.view fun d => ⟨d, batches⟩

/-- What the transmit queue accepts during calls on a table of connections. -/
def acceptedDuring (t : Table Desk) (calls : Table Logged → Table Logged) : List (List Packet) :=
  (calls (withRecord t [])).owner.batches

/-- The batches of packets that the transmit queue accepts during an act. -/
def accepted (e : Engine) : Act → List (List Packet)
  | .stop =>
    if e.desk.active then
      acceptedDuring (e.onDesk fun d => { d with active := false }).connections
        fun t => t.resetAll logging
    else []
  | .unbind now port =>
    match e.desk.binding port with
    | .error _ => []
    | .ok _ =>
      acceptedDuring (e.onDesk fun d => { d with bindings := d.bindings.set port none }).connections
        fun t => (t.close logging now port).2
  | .closeConnection now port => acceptedDuring e.connections fun t => (t.close logging now port).2
  | .sendMessage now port message =>
    match e.route port message with
    | .error _ => []
    | .ok (true, ps) =>
      acceptedDuring e.connections fun t => (passage logging e.desk.counters now port ps t).2
    | .ok (false, ps) => e.desk.acceptedDatagram ps
  | .openConnection now localPort remotePort options =>
    match e.ready localPort with
    | .error _ => []
    | .ok b => acceptedDuring e.connections fun t =>
        (t.connect logging now localPort remotePort b.channel options).2
  | .receiveFrame now channel frame =>
    match e.arriving channel frame with
    | none => []
    | some p => acceptedDuring e.connections fun t => (t.receive logging now p).2
  | .fireTimer now =>
    if e.desk.active then
      e.desk.acceptedResets ++
        if e.desk.transmitter.linkUp then
          acceptedDuring (e.onDesk Desk.retryResets).connections fun t => t.checkTimers logging now
        else []
    else []
  | .retryResets => e.desk.acceptedResets
  | .checkTimers now port =>
    acceptedDuring e.connections fun t =>
      (t.onSession logging port fun s => ((), s.checkTimers now)).2
  | .resetConnection port => acceptedDuring e.connections fun t => (t.reset logging port).2
  | _ => []

/-- The message that a connection accepts during an act, as its fragments. -/
def carried (e : Engine) : Act → List (List Packet)
  | .sendMessage now port message =>
    match e.route port message with
    | .ok (true, ps) =>
      match (passage attending e.desk.counters now port ps e.connections).1 with
      | .ok numbered => [numbered]
      | .error _ => []
    | _ => []
  | _ => []

/-- An engine, and what was accepted so far. -/
structure Chronicle where
  engine : Engine
  /-- The batches of packets that the transmit queue accepted, first to last. -/
  batches : List (List Packet)
  /-- The messages that connections accepted, first to last. -/
  messages : List (List Packet)

namespace Chronicle

/-- Something happens to the engine. -/
def act (c : Chronicle) (a : Act) : Chronicle :=
  ⟨(c.engine.perform a).2, c.batches ++ c.engine.accepted a, c.messages ++ c.engine.carried a⟩

/-- What a run of an engine accepts. -/
def after (config : Config) (acts : List Act) : Chronicle := acts.foldl act ⟨fresh config, [], []⟩

theorem engine_after (config : Config) (acts : List Act) :
    (after config acts).engine = (fresh config).after acts := by
  have hall : ∀ c : Chronicle, (acts.foldl act c).engine = c.engine.after acts := by
    induction acts with
    | nil => exact fun _ => rfl
    | cons a acts ih => exact fun c => ih (c.act a)
  exact hall _

end Chronicle

/-! ## The record and the engine -/

/-- The owner that writes down what is accepted does what the desk does. -/
theorem logging_shows : Owner.Shows Logged.desk logging attending where
  react _ _ := rfl
  decideOn _ _ _ := rfl

/-- The record put after another one. -/
def Logged.behind (before : List (List Packet)) (l : Logged) : Logged :=
  ⟨l.desk, before ++ l.batches⟩

/-- What was accepted before makes no difference. -/
theorem logging_behind (before : List (List Packet)) :
    Owner.Shows (Logged.behind before) logging logging where
  react event t := by
    unfold logging Table.view
    simp only [Logged.behind, List.append_assoc]
  decideOn _ _ _ := rfl

/-- Calls with a record leave the table of the engine behind, and what was accepted meanwhile is added to
the record. -/
theorem calls_withRecord {calls : {σ : Type} → Owner σ → Table σ → Table σ}
    (h : ∀ {σ τ : Type} {f : σ → τ} {o : Owner σ} {o' : Owner τ}, Owner.Shows f o o' →
      ∀ t, (calls o t).view f = calls o' (t.view f))
    (t : Table Desk) (batches : List (List Packet)) :
    calls logging (withRecord t batches) =
      withRecord (calls attending t) (batches ++ acceptedDuring t (calls logging)) := by
  have hstart : withRecord t batches = (withRecord t []).view (Logged.behind batches) := by
    unfold withRecord Table.view Logged.behind
    simp only [List.append_nil]
  have hshown : (calls logging (withRecord t [])).view Logged.desk = calls attending t :=
    h logging_shows (withRecord t [])
  rw [hstart, ← h (logging_behind batches), ← hshown]
  rfl

/-- Sending through a connection does not depend on the owner, but for what it does. -/
theorem passage_view {σ τ : Type} {f : σ → τ} {o : Owner σ} {o' : Owner τ} (h : Owner.Shows f o o')
    (c : ByteMap Counters) (now : Nat) (port : UInt8) (ps : List Packet) (t : Table σ) :
    Prod.map id (Table.view f) (passage o c now port ps t) = passage o' c now port ps (t.view f) := by
  have hconfig : (t.view f).config = t.config := rfl
  unfold passage
  rw [hconfig]
  cases t.config.sendTimeout with
  | none => exact h.send t now port ps _
  | some => exact h.sendWaiting t now port ps _

end NarrowLink.Engine
