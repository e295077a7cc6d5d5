/-!
# States, roles and options of a connection

A connection starts and ends `disconnected`. While it is `connecting` the two ends agree on their
first sequence numbers; a `connected` one carries data. A `disconnecting` one waits for the answer to
its request to close, and a `resetting` one waits until its reset is handed to the transmitter.
-/

namespace NarrowLink.Connection

/-- The state of a connection. -/
inductive State where
  | disconnected
  | connecting
  | connected
  | resetting
  | disconnecting
deriving DecidableEq

/-- The name of a state. -/
def State.name : State → String
  | .disconnected => "DISCONNECTED"
  | .connecting => "CONNECTING"
  | .connected => "CONNECTED"
  | .resetting => "RESETTING"
  | .disconnecting => "DISCONNECTING"

/-- The connection is on its way to be closed. -/
def State.isClosing : State → Bool
  | .resetting | .disconnecting => true
  | _ => false

/-- Which end of a connection this is. -/
inductive Role where
  /-- Asked for the connection. -/
  | initiator
  /-- Was asked for it. -/
  | responder
deriving DecidableEq

/-- What a connection does beyond the minimum. -/
structure Options where
  /-- Sends packets again that are not acknowledged in time, and resets the connection in the end. -/
  retransmit : Bool := false
  /-- Reports what arrived beyond a gap, so that only what is missing is sent again. -/
  selectiveAck : Bool := false
deriving DecidableEq

end NarrowLink.Connection
