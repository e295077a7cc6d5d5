import NarrowLink.Attempt
import NarrowLink.Config
import NarrowLink.Queue

/-!
# The transmitter

A `Transmitter` owns the queue that all traffic to the link goes through, and workers that take
packets from it and offer them to the link. The packets of a port stand in the queue in the order of
their transmit sequence, and the ports take turns.

One worker is meant to be at work at a time. `start` starts a worker, unless one is attached, and the
call that stops the transmitter tells its worker to end (`halt`), lets go of it (`detach`), waits for
its end unless the worker itself makes the call, and notes that the transmitter has stopped
(`conclude`). A worker that has offered a packet looks whether it is to end only after the answer of the
link. If another one is started before that, it is to go on as well, and both take packets from the
queue. So `workers` has all that were ever started, each with the place where it is.

A worker goes from place to place (`step`), and other threads may act between any two of its steps. It
looks whether the link is up and something is queued, and waits until then; it takes the next packet from
the queue and offers it to the link; and the answer of the link settles the packet (`settle`). A packet
that the link refuses because it is down goes back to the queue if there is still room, and any other
refusal drops it.
-/

namespace NarrowLink

open Wire

/-- What the transmitter is doing. -/
inductive Activity where
  /-- Offering packets to the link. -/
  | running
  /-- Waiting for packets. -/
  | waiting
  /-- Waiting for the link. -/
  | blocked
  | stopped
deriving DecidableEq

/-- The place where a worker is. -/
inductive Worker where
  /-- About to look whether there is something to do. -/
  | going
  /-- Waiting for packets and for the link. -/
  | waiting
  /-- About to take the next packet from the queue. -/
  | taking
  /-- A packet is offered to the link, which has not answered. -/
  | offering (p : Packet)
  /-- About to put back a packet that the link has refused because it is down. -/
  | returning (p : Packet)
  | ended
deriving DecidableEq

/-- The packet that a worker has offered to the link. -/
def Worker.offered : Worker → Option Packet
  | .offering p => some p
  | _ => none

/-- What the link answers to a frame. -/
abbrev Reply := Except LinkError Unit

/-- A frame that was offered to the link, and the answer. -/
structure Offer where
  channel : UInt8
  frame : List UInt8
  reply : Reply

/-- The sending half of an engine. -/
structure Transmitter where
  queue : Queue
  /-- The workers are to go on. -/
  active : Bool
  linkUp : Bool
  activity : Activity
  /-- All workers that were started, first to last. -/
  workers : List Worker
  /-- The worker that was started last has not been let go of. -/
  attached : Bool
deriving DecidableEq

namespace Transmitter

/-- The transmitter that has not been started, on a link that is up. -/
def new (config : Config) : Transmitter where
  queue := .empty .transmit config.queueCapacity
  active := false
  linkUp := true
  activity := .stopped
  workers := []
  attached := false

/-- Queues a packet. -/
def submit (t : Transmitter) (p : Packet) : Attempt Transmitter Unit :=
  match t.queue.push p with
  | .ok q => (.ok (), { t with queue := q })
  | .error e => (.error e, t)

/-- Queues all packets or none. -/
def submitAll (t : Transmitter) (ps : List Packet) : Attempt Transmitter Unit :=
  match t.queue.pushAll ps with
  | .ok q => (.ok (), { t with queue := q })
  | .error e => (.error e, t)

/-- Notes whether the link is up. -/
def setLink (t : Transmitter) (up : Bool) : Transmitter := { t with linkUp := up }

/-! ## Starting and stopping -/

/-- Starts a worker, unless one is attached. -/
def start (t : Transmitter) : Transmitter :=
  if t.attached then t
  else { t with active := true, workers := t.workers ++ [.going], attached := true }

/-- The workers are to end. -/
def halt (t : Transmitter) : Transmitter := { t with active := false }

/-- Lets go of the worker that was started last. -/
def detach (t : Transmitter) : Transmitter := { t with attached := false }

/-- Notes that the transmitter has stopped. -/
def conclude (t : Transmitter) : Transmitter := { t with activity := .stopped }

/-- What the call that stops the transmitter does before it waits for the worker, which then notes its end
itself. Queued packets stay queued. -/
def stop (t : Transmitter) : Transmitter := t.halt.detach

/-- Some worker has not ended. -/
def busy (t : Transmitter) : Bool := t.workers.any fun x => x != .ended

/-! ## The workers -/

/-- A worker gets to a place. -/
def turn (t : Transmitter) (w : Nat) (x : Worker) : Transmitter :=
  { t with workers := t.workers.set w x }

/-- A worker goes on to the next place. One that waits does so if it is to end, or the link is up and
there is a packet, and one that has offered a packet only after the answer. -/
def step (t : Transmitter) (w : Nat) : Transmitter :=
  match t.workers[w]? with
  | some .going =>
    if !t.active then { t with activity := .stopped }.turn w .ended
    else if !t.linkUp then { t with activity := .blocked }.turn w .waiting
    else if t.queue.isEmpty then { t with activity := .waiting }.turn w .waiting
    else { t with activity := .running }.turn w .taking
  | some .waiting => if t.active && (!t.linkUp || t.queue.isEmpty) then t else t.turn w .going
  | some .taking =>
    match t.queue.popNext with
    | some (p, q) => { t with queue := q }.turn w (.offering p)
    | none => t.turn w .going
  | some (.returning p) => (t.submit p).2.turn w .going
  | _ => t

/-- The link answers for the packet that a worker has offered. -/
def settle (t : Transmitter) (w : Nat) (reply : Reply) : Transmitter :=
  match t.workers[w]? with
  | some (.offering p) =>
    match reply with
    | .error .unavailable => { t with linkUp := false }.turn w (.returning p)
    | _ => t.turn w .going
  | _ => t

/-! ## Running undisturbed -/

/-- A worker goes on until it has to wait, while nothing else happens. -/
def advance (t : Transmitter) (w : Nat) : Transmitter := ((t.step w).step w).step w

/-- The workers go on until they have to wait, one after the other. -/
def wake (t : Transmitter) : Transmitter := (List.range t.workers.length).foldl advance t

/-- The youngest worker that has offered a packet. -/
def offerer (t : Transmitter) : Option Nat :=
  (List.range t.workers.length).reverse.find? fun w =>
    (t.workers[w]?.bind Worker.offered).isSome

/-- The packet that this worker has offered. -/
def offered (t : Transmitter) : Option Packet :=
  t.offerer.bind fun w => t.workers[w]?.bind Worker.offered

/-- The link answers for the packet that is offered, and the worker goes on until it has to wait. -/
def answer (t : Transmitter) (reply : Reply) : Transmitter :=
  match t.offerer with
  | some w => (t.settle w reply).advance w
  | none => t

/-- The frames that the link is offered next, at most `n` of them. The link gives the replies of a list
first and takes everything after them; those that are not used up are left over. -/
def flushUpTo : Nat → Transmitter → List Reply → List Offer × List Reply × Transmitter
  | 0, t, replies => ([], replies, t)
  | n + 1, t, replies =>
    match t.offered with
    | none => ([], replies, t)
    | some p =>
      let reply := replies.headD (.ok ())
      let (offers, left, t') := flushUpTo n (t.answer reply) replies.tail
      (⟨p.channel, p.encode, reply⟩ :: offers, left, t')

/-- Lets a worker run until it waits. It offers each queued packet at most once, because it stops at
the first one that goes back to the queue. -/
def flush (t : Transmitter) (replies : List Reply) : List Offer × List Reply × Transmitter :=
  flushUpTo (t.queue.length + 1) t.wake replies

end Transmitter

end NarrowLink
