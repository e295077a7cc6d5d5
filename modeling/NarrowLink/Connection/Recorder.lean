import NarrowLink.Connection.Table

/-!
# An owner that writes down what it is told

A `Recorder` keeps the events of its connections and the packets that it took from them. It accepts
the ports of a fixed list. It may take outbound packets at once, from inside the call that tells it
of them (`takesAtOnce`), and it may open a connection of its own on the port that it is being asked
about (`opensFirst`). What its own calls into the table raise is written down like everything else;
taking packets raises nothing but changes of state, so those need no further reaction.
-/

namespace NarrowLink.Connection

open Wire

/-- Something that a recorder was told. -/
inductive Note where
  | event (e : Event)
  /-- It was asked whether a remote port may have a connection to a local one. -/
  | asked (localPort remotePort : UInt8)
deriving DecidableEq

/-- The local port that a note is about. -/
def Note.port : Note → UInt8
  | .event e => e.port
  | .asked p _ => p

/-- What a recorder wrote down and took since it was last looked at, with the local port that each
packet comes from, and how it behaves. -/
structure Recorder where
  takesAtOnce : Bool := true
  opensFirst : Bool := false
  accepted : List (UInt8 × Options) := []
  notes : List Note := []
  taken : List (UInt8 × Packet) := []
deriving DecidableEq

namespace Recorder

/-- Writes down a note. -/
def write (r : Recorder) (n : Note) : Recorder := { r with notes := r.notes ++ [n] }

/-- Keeps packets that come from a local port. -/
def keep (r : Recorder) (port : UInt8) (ps : List Packet) : Recorder :=
  { r with taken := r.taken ++ ps.map fun p => (port, p) }

/-- Writes an event down, and keeps the packet that turns another one away. -/
def learn (r : Recorder) (e : Event) : Recorder :=
  let r := r.write (.event e)
  match e with
  | .rejected port reply => r.keep port [reply]
  | _ => r

/-- The options for a local port, if it is accepted. -/
def optionsFor (r : Recorder) (port : UInt8) : Option Options :=
  (r.accepted.find? fun a => a.1 == port).map Prod.snd

/-- The recorder as it behaves inside its own calls into the table. -/
def listening : Owner Recorder where
  react e t := t.onOwner fun r => r.learn e
  decideOn port _ t := (t.owner.optionsFor port, t)

/-- Reacts to an event: writes it down, and takes what waits for the transmitter. -/
def react (e : Event) (t : Table Recorder) : Table Recorder :=
  let t := t.onOwner fun r => r.learn e
  match e with
  | .outboundAvailable port =>
    if t.owner.takesAtOnce then
      let (ps, t) := t.fetchOutbound listening port
      t.onOwner fun r => r.keep port ps
    else t
  | _ => t

/-- The recorder while it is being asked about a connection. -/
def reacting : Owner Recorder where
  react := react
  decideOn port _ t := (t.owner.optionsFor port, t)

/-- Decides about a connection, perhaps after opening one on the same port. -/
def decideOn (localPort remotePort : UInt8) (t : Table Recorder) : Option Options × Table Recorder :=
  let t := t.onOwner fun r => r.write (.asked localPort remotePort)
  let t := if t.owner.opensFirst then (t.connect reacting 0 localPort remotePort 0 {}).2 else t
  (t.owner.optionsFor localPort, t)

/-- The recorder as the owner of a table. -/
def owner : Owner Recorder where
  react := react
  decideOn := decideOn

end Recorder

end NarrowLink.Connection
