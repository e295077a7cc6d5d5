import NarrowLink.Connection.State

/-!
# An application that remembers what it is told

An `Application` keeps every message, every change of the state of a connection and every change of
the link that it is told of, in the order in which it is told.
-/

namespace NarrowLink.Bench

open Connection (State)

/-- What an application was told so far. -/
structure Application where
  messages : List (UInt8 × List UInt8) := []
  stateChanges : List (UInt8 × State) := []
  linkChanges : List Bool := []
deriving DecidableEq

namespace Application

/-- Takes a message for a port. -/
def deliver (a : Application) (port : UInt8) (message : List UInt8) : Application :=
  { a with messages := a.messages ++ [(port, message)] }

/-- Learns of the state of a connection. -/
def learnState (a : Application) (port : UInt8) (state : State) : Application :=
  { a with stateChanges := a.stateChanges ++ [(port, state)] }

/-- Learns whether the link is up. -/
def learnLink (a : Application) (up : Bool) : Application :=
  { a with linkChanges := a.linkChanges ++ [up] }

/-- The states that the connection of a port went through. -/
def states (a : Application) (port : UInt8) : List State :=
  (a.stateChanges.filter fun c => c.1 == port).map Prod.snd

/-- The first `n` messages, once there are so many. -/
def firstMessages (a : Application) (n : Nat) : Option (List (UInt8 × List UInt8)) :=
  if n ≤ a.messages.length then some (a.messages.take n) else none

/-- The connection of a port was in a state. -/
def reached (a : Application) (port : UInt8) (state : State) : Bool :=
  a.stateChanges.contains (port, state)

end Application

end NarrowLink.Bench
