import NarrowLink.Proofs.Queue.Stored
import NarrowLink.Transmitter

/-!
# What happens to a transmitter

`Act` lists what can happen to a transmitter, in steps as small as other threads can tell apart: the
calls of its users, the call that stops it in three parts, the steps of each worker, and the answers of
the link.

A transmitter has packets in its queue and in the hands of its workers (`stock`), which are those that are
offered to the link and those that are on their way back to the queue (`held`).  An act takes packets over
(`accepts`), and packets leave the transmitter because the link takes them (`delivers`), because it can not
send them (`drops`), or because it is down and they find no room in the queue (`loses`).
-/

namespace NarrowLink

open Wire

namespace Worker

/-- The packet that a worker is about to put back. -/
def refused : Worker → Option Packet
  | .returning p => some p
  | _ => none

/-- The packet that a worker has in its hands. -/
def held : Worker → Option Packet
  | .offering p | .returning p => some p
  | _ => none

end Worker

namespace Transmitter

/-- One thing that happens to a transmitter. -/
inductive Act where
  | submit (p : Packet)
  | submitAll (ps : List Packet)
  | setLink (up : Bool)
  | start
  | halt
  | detach
  | conclude
  /-- A worker goes on. -/
  | step (w : Nat)
  /-- The link answers for the packet that a worker has offered. -/
  | settle (w : Nat) (reply : Reply)

/-- The transmitter after an act. -/
def apply (t : Transmitter) : Act → Transmitter
  | .submit p => (t.submit p).2
  | .submitAll ps => (t.submitAll ps).2
  | .setLink up => t.setLink up
  | .start => t.start
  | .halt => t.halt
  | .detach => t.detach
  | .conclude => t.conclude
  | .step w => t.step w
  | .settle w reply => t.settle w reply

/-- The packets in the hands of the workers. -/
def held (t : Transmitter) : List Packet := t.workers.filterMap Worker.held

/-- All packets that the transmitter has. -/
def stock (t : Transmitter) : List Packet := t.queue.stored ++ t.held

/-- The packet that a worker has offered to the link. -/
def offeredBy (t : Transmitter) (w : Nat) : Option Packet := t.workers[w]?.bind Worker.offered

/-- The packet that a worker is about to put back. -/
def refusedTo (t : Transmitter) (w : Nat) : Option Packet := t.workers[w]?.bind Worker.refused

/-- The packets that the transmitter accepts with an act. -/
def accepts (t : Transmitter) : Act → List Packet
  | .submit p =>
    match (t.submit p).1 with
    | .ok _ => [p]
    | .error _ => []
  | .submitAll ps =>
    match (t.submitAll ps).1 with
    | .ok _ => ps
    | .error _ => []
  | _ => []

/-- The packet that the link takes with an act. -/
def delivers (t : Transmitter) : Act → List Packet
  | .settle w (.ok _) => (t.offeredBy w).toList
  | _ => []

/-- The packet that is dropped with an act because the link can not send it. -/
def drops (t : Transmitter) : Act → List Packet
  | .settle w (.error (.frameTooLarge _)) => (t.offeredBy w).toList
  | .settle w (.error (.io _)) => (t.offeredBy w).toList
  | _ => []

/-- The packet that finds no room in the queue after the link was down. -/
def loses (t : Transmitter) : Act → List Packet
  | .step w => (t.refusedTo w).toList.filter fun p => !t.queue.fits p.wireLength
  | _ => []

/-- The packet that leaves the transmitter with an act. -/
def leaving (t : Transmitter) (a : Act) : List Packet := t.delivers a ++ (t.drops a ++ t.loses a)

variable {t t' : Transmitter} {p : Packet} {w : Nat} {x : Worker}

theorem offeredBy_eq_some_iff : t.offeredBy w = some p ↔ t.workers[w]? = some (.offering p) := by
  unfold offeredBy
  cases t.workers[w]? with
  | none => simp
  | some x => cases x <;> simp [Worker.offered]

theorem refusedTo_eq_some_iff : t.refusedTo w = some p ↔ t.workers[w]? = some (.returning p) := by
  unfold refusedTo
  cases t.workers[w]? with
  | none => simp
  | some x => cases x <;> simp [Worker.refused]

theorem mem_held_of_offering (h : .offering p ∈ t.workers) : p ∈ t.held :=
  List.mem_filterMap.2 ⟨_, h, rfl⟩

/-! ## The workers -/

/-- A worker that turns to another place leaves the hands of the others alone. -/
theorem held_turn (h : t.workers[w]? = some x) :
    ∃ ahead behind, t.held = ahead ++ (x.held.toList ++ behind) ∧
      ∀ y, (t.turn w y).held = ahead ++ (y.held.toList ++ behind) := by
  obtain ⟨hw, rfl⟩ := List.getElem?_eq_some_iff.1 h
  have hall : ∀ y, (t.turn w y).held = (t.workers.take w).filterMap Worker.held ++
      (y.held.toList ++ (t.workers.drop (w + 1)).filterMap Worker.held) := by
    intro y
    show (t.workers.set w y).filterMap Worker.held = _
    rw [List.set_eq_take_append_cons_drop, if_pos hw, List.filterMap_append, List.filterMap_cons]
    cases y.held <;> rfl
  have hself : t.turn w t.workers[w] = t := by
    unfold turn
    rw [List.set_getElem_self]
  exact ⟨_, _, by rw [← hall, hself], hall⟩

/-- A worker that neither had a packet nor gets one. -/
theorem held_turn_of_none {y : Worker} (h : t.workers[w]? = some x) (hx : x.held = none)
    (hy : y.held = none) : (t.turn w y).held = t.held := by
  obtain ⟨ahead, behind, hbefore, hafter⟩ := held_turn h
  rw [hafter, hbefore, hx, hy]

theorem settle_of_offeredBy (h : t.offeredBy w = none) (reply : Reply) : t.settle w reply = t := by
  unfold settle
  split
  · rename_i p hp
    rw [offeredBy_eq_some_iff.2 hp] at h
    cases h
  · rfl

end Transmitter

end NarrowLink
