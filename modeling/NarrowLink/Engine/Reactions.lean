import NarrowLink.Connection.Table
import NarrowLink.Engine.Desk

/-!
# How the desk reacts to its connections

The desk is the owner of the connections of an engine (`attending`). What waits for the transmitter is
queued for transmission; if there is no room for it, resets are kept until there is, since a connection
has ended when its reset was taken, and everything else goes back to the connection. What arrived in
sequence goes to reassembly, and the application is told of changes of state. Connections to bound
ports are accepted.

While the desk calls back into the table to take packets or to put them back, nothing but changes of
state can come up, so there it only passes those on (`listening`).
-/

namespace NarrowLink.Engine

open Wire
open Connection (Event Options Owner Table)

/-- The options of the connections that a port accepts, if it is bound. -/
def acceptance (port : UInt8) (t : Table Desk) : Option Options :=
  (t.owner.bindings.get port).map Binding.options

/-- The desk inside its own calls into the table. -/
def listening : Owner Desk where
  react event t :=
    match event with
    | .stateChanged port _ _ new => t.onOwner fun d => d.notify (.connection port new)
    | _ => t
  decideOn port _ t := (acceptance port t, t)

/-- Queues what a connection has for the transmitter. Resets that find no room are kept, and other
packets go back to the connection. -/
def forwardOutbound (t : Table Desk) (port : UInt8) : Table Desk :=
  let (ps, t) := t.fetchOutbound listening port
  if ps.isEmpty then t
  else
    match t.owner.submit ps with
    | (.ok (), d) => { t with owner := d }
    | (.error _, d) =>
      let (resets, others) := ps.partition fun p => p.header.flags.rst
      let t := { t with owner := { d with heldResets := d.heldResets ++ resets } }
      if others.isEmpty then t else t.giveBack listening port others

/-- Hands what a connection delivers to reassembly. -/
def forwardInbound (t : Table Desk) (port : UInt8) : Table Desk :=
  let (ps, t) := t.fetchInbound listening port
  t.onOwner fun d => { d with reassembly := ps.foldl Reassembly.append d.reassembly }

/-- The desk as the owner of the connections. -/
def attending : Owner Desk where
  react event t :=
    match event with
    | .stateChanged port _ _ new => t.onOwner fun d => d.notify (.connection port new)
    | .outboundAvailable port => forwardOutbound t port
    | .inboundAvailable port => forwardInbound t port
    | .rejected _ reply => t.onOwner fun d => (d.submit [reply]).2
  decideOn port _ t := (acceptance port t, t)

end NarrowLink.Engine
