import NarrowLink.Stream.Frame

/-!
# A link over a byte stream

A frame goes over the stream as one record: the number of its virtual channel, then its bytes.
`send` writes a frame and tells a link that went down from one that failed. `receive` reads frames
until the stream ends, the receiver is cancelled, or the frame boundaries are lost, and lists what
it tells the handler: that the link is up, each frame, and that the link is down.
-/

namespace NarrowLink.Stream

/-- What a failure to write means to the sender. -/
def linkErrorOf : IoFault → LinkError
  | .brokenPipe | .connectionReset | .connectionAborted | .notConnected => .unavailable
  | f => .io f

/-- Sends a frame of at most `maxFrame` bytes on a channel. -/
def send (maxFrame : Nat) (s : Sink) (channel : UInt8) (frame : List UInt8) :
    Except LinkError Unit × Sink :=
  if maxFrame < frame.length then (.error (.frameTooLarge frame.length), s)
  else
    match s.writeFrame (channel :: frame) with
    | (none, s') => (.ok (), s')
    | (some f, s') => (.error (linkErrorOf f), s')

/-- What the handler of received frames is told. -/
inductive Notice where
  | link (up : Bool)
  | frame (channel : UInt8) (content : List UInt8)
deriving DecidableEq

/-- Why a receiver gave up. -/
inductive ReceiveError where
  | lostBoundaries (cause : Error)
  | failed (cause : Error)
deriving DecidableEq

namespace ReceiveError

/-- The receiver can not go on after this error. -/
def ofError : Error → ReceiveError
  | .corruptLength => .lostBoundaries .corruptLength
  | .messageTooLarge n m => .lostBoundaries (.messageTooLarge n m)
  | e => .failed e

/-- The error that made the receiver give up. -/
def cause : ReceiveError → Error
  | .lostBoundaries e => e
  | .failed e => e

/-- The text of the failure, without its cause. -/
def message : ReceiveError → String
  | .lostBoundaries _ => "lost frame boundaries on link stream"
  | .failed _ => "error reading from link stream"

end ReceiveError

/-- The frames up to the end of the stream, a failure, or the frame that uses up `patience`. -/
def frames (maxFrame : Nat) (patience : Option Nat) (s : Source) :
    List Notice × Except ReceiveError Unit :=
  if patience = some 0 then ([], .ok ())
  else
    match _h : s.readFrame (maxFrame + 1) with
    | (.error e, _) => ([], .error (.ofError e))
    | (.ok none, _) => ([], .ok ())
    | (.ok (some []), s') => frames maxFrame patience s'
    | (.ok (some (channel :: content)), s') =>
      let (later, result) := frames maxFrame (patience.map (· - 1)) s'
      (.frame channel content :: later, result)
termination_by s.pending
decreasing_by all_goals exact Source.pending_readFrame (by assumption)

/-- Runs a receiver. With a `patience` it is cancelled at the start, or by the handler in the call
for the frame with that number. -/
def receive (maxFrame : Nat) (patience : Option Nat) (s : Source) :
    List Notice × Except ReceiveError Unit :=
  let (told, result) := frames maxFrame patience s
  (.link true :: told ++ [.link false], result)

end NarrowLink.Stream
