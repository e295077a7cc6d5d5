import Mathlib.Tactic.ByContra
import NarrowLink.Proofs.Exchange.Run

/-!
# The books of a connection

Numbers on the wire are bytes, but what they stand for are counts.  A `Ledger` keeps these counts for
one end of a connection: what it has sent and taken, what it knows of its peer, and for each packet
that waits in its queue which number the packet carries and what its end had taken when it was stamped
(`Parcel`).  What an end has taken at some time is an `Intake`, and these are ordered by inclusion.

A byte tells counts apart as long as they lie within half a turn of each other.  Two kinds of facts
keep them there: what holds at each end by itself (`Tidy`), and what holds between a sender and the
end that takes its packets (`Flow`).  `Sound` puts them together for both directions.
-/

namespace NarrowLink.Connection

open Wire

/-! ## What an end has taken -/

/-- What an end has taken at some time: all numbers before `reached`, and some beyond a gap. -/
structure Intake where
  reached : Nat
  early : Nat → Prop

namespace Intake

/-- The number was taken. -/
def took (i : Intake) (n : Nat) : Prop := n < i.reached ∨ i.early n

instance : LE Intake := ⟨fun i j => ∀ n, i.took n → j.took n⟩

/-- What lies beyond the gap lies in the window. -/
def Valid (window : Nat) (i : Intake) : Prop :=
  ∀ n, i.early n → i.reached < n ∧ n < i.reached + window

variable {window : Nat} {i j : Intake}

theorem le_refl (i : Intake) : i ≤ i := fun _ h => h

theorem le_trans {k : Intake} (h : i ≤ j) (h' : j ≤ k) : i ≤ k := fun n hn => h' n (h n hn)

theorem reached_le (h : i ≤ j) (hj : j.Valid window) : i.reached ≤ j.reached := by
  by_contra hlt
  rcases h j.reached (.inl (by omega)) with hlt' | hearly
  · omega
  · have := (hj _ hearly).1
    omega

/-- What was taken early is taken early still unless it was passed. -/
theorem early_of_le (h : i ≤ j) {n : Nat} (hn : i.took n) (hj : j.reached ≤ n) : j.early n := by
  rcases h n hn with hlt | hearly
  · omega
  · exact hearly

end Intake

/-! ## Packets with the counts they stand for -/

/-- A packet, the number that it carries, and what its sender had taken when it stamped the packet. -/
structure Parcel where
  packet : Packet
  number : Nat
  intake : Intake

namespace Parcel

/-- The packet was given its number, others only show the next one. -/
def Counts (p : Parcel) : Prop :=
  p.packet.header.flags.syn = true ∨ p.packet.header.flags.data = true ∨
    p.packet.header.flags = .closing

/-- The packet answers a request to close. -/
def Parts (p : Parcel) : Prop := p.packet.header.flags = .parting

end Parcel

/-- The flags of the packet that an end sends under a number, when the packets before number `bulk`
are all but the one that closes. -/
def flagsOf (x : Role) (bulk n : Nat) : Flags :=
  if n = 0 then
    match x with
    | .initiator => .opening
    | .responder => .welcoming
  else if n < bulk then .carrying
  else .closing

/-- The counts of one end of a connection. -/
structure Ledger where
  /-- The connection is established or is being so, and has not been ended. -/
  alive : Bool
  /-- The packets that were given a number. -/
  sent : List Packet
  /-- The number of packets that were given a number before the one that closes. -/
  bulk : Nat
  /-- The numbers of the packets in flight. -/
  flying : List Nat
  /-- What the end knows that its peer has taken. -/
  known : Intake
  /-- What the end has taken. -/
  intake : Intake
  /-- What the end had taken at some time. -/
  past : Intake → Prop
  /-- What waits to go onto the link. -/
  queue : List Parcel
  /-- What the end knew to have been taken in sequence when its queue was taken last. -/
  floor : Nat
  /-- The number of packets that had been given a number then. -/
  gone : Nat
  /-- How many numbers the end had passed then. -/
  told : Nat

/-- The packet carries what its parcel says. -/
structure Parcel.Fits (t : Terms) (x : Role) (sent : List Packet) (p : Parcel) : Prop where
  port_eq : p.packet.port = t.port x.peer
  relSeq : p.packet.header.relSeq = Serial.forward 0 p.number
  ack : p.packet.header.ack = Serial.forward 0 p.intake.reached
  /-- A packet with a number of its own is the one that was given this number, up to what it
  acknowledges. -/
  copy : p.Counts → ∃ q, sent[p.number]? = some q ∧
    p.packet.header.flags = q.header.flags ∧ Piece.of p.packet = Piece.of q
  control : ¬ p.Counts → p.packet.header.flags = .acknowledging ∨
    p.packet.header.flags = .reporting ∨ p.packet.header.flags = .parting ∨
    p.packet.header.flags = .resetting
  /-- A report lists only what was taken beyond a gap. -/
  report : p.packet.header.flags = .reporting → (t.options x).selectiveAck = true ∧
    ∀ ranges, Sack.decode p.packet.payload = .ok ranges → ∀ r ∈ ranges, ∀ b,
      Serial.inRange b r.1 r.2 = true → ∃ n, p.intake.early n ∧ b = Serial.forward 0 n

/-- What holds at an end by itself. -/
structure Tidy (t : Terms) (x : Role) (g : Ledger) : Prop where
  sent_shape : ∀ n q, g.sent[n]? = some q → q.header.relSeq = Serial.forward 0 n ∧
    q.header.flags = flagsOf x g.bulk n ∧ (n = 0 → Piece.of q = ⟨[], false, 0⟩)
  sent_port : ∀ q ∈ g.sent, q.port = t.port x.peer
  bulk_pos : g.sent ≠ [] → 0 < g.bulk
  bulk_le : g.bulk ≤ g.sent.length
  le_bulk : g.sent.length ≤ g.bulk + 1
  known_le : g.known.reached ≤ g.sent.length
  /-- The span of numbers that may be in flight. -/
  span : g.bulk ≤ g.known.reached + 127
  flying_sorted : g.flying.Pairwise (· < ·)
  flying_mem : ∀ n ∈ g.flying, g.known.reached ≤ n ∧ n < g.sent.length
  floor_le : g.floor ≤ g.known.reached
  gone_le : g.gone ≤ g.sent.length
  gone_near : g.gone ≤ g.floor + 128
  gone_near_open : g.sent.length = g.bulk → g.gone ≤ g.floor + 127
  told_le : g.told ≤ g.intake.reached
  queue_fits : ∀ p ∈ g.queue, p.Fits t x g.sent
  queue_number : ∀ p ∈ g.queue, p.number ≤ g.sent.length
  queue_counts : ∀ p ∈ g.queue, p.Counts → g.floor ≤ p.number
  queue_shows : ∀ p ∈ g.queue, ¬ p.Counts → g.gone ≤ p.number
  queue_sorted : g.queue.Pairwise fun p q => p.Counts → p.number ≤ q.number
  /-- What was given a number since the queue was taken last is still in it. -/
  queue_new : g.alive = true → ∀ n, g.gone ≤ n → n < g.sent.length →
    ∃ p ∈ g.queue, p.Counts ∧ p.number = n

/-- What holds between the sender `x`, whose packets `out` are on the way, and the end that takes
them, whose acknowledgements `back` are on the way. -/
structure Flow (t : Terms) (x : Role) (gx gy : Ledger) (out back : List Parcel) : Prop where
  chain : ∀ i j, gy.past i → gy.past j → i ≤ j ∨ j ≤ i
  valid : ∀ i, gy.past i → i.Valid t.config.window
  current : gy.past gy.intake
  latest : ∀ i, gy.past i → i ≤ gy.intake
  /-- Only what has left the queue is taken. -/
  took_gone : ∀ n, gy.intake.took n → n < gx.gone
  took_bulk : gy.alive = true → ∀ n, gy.intake.took n → n < gx.bulk
  out_fits : ∀ p ∈ out, p.Fits t x gx.sent
  out_gone : ∀ p ∈ out, p.Counts → p.number < gx.gone
  out_near : out.Pairwise fun p q => p.Counts → q.Counts → p.number < q.number + 128
  out_took : ∀ p ∈ out, p.Counts → ∀ n, gy.intake.took n → n < p.number + 128
  known_past : gy.past gx.known
  /-- What is not in flight any more is known to have been taken. -/
  known_early : gx.alive = true → ∀ n, gx.known.reached ≤ n → n < gx.sent.length → n ∉ gx.flying →
    gx.known.early n
  /-- Without reports only what was taken in sequence is not in flight any more. -/
  known_plain : (t.options x.peer).selectiveAck = false → gx.alive = true → ∀ n,
    gx.known.reached ≤ n → n < gx.sent.length → n ∈ gx.flying
  known_told : gx.known.reached ≤ gy.told
  back_past : ∀ p ∈ back, gy.past p.intake ∧ p.intake.reached ≤ gy.told
  back_known : gx.alive = true → ∀ p ∈ back, gx.known.reached ≤ p.intake.reached + 127
  back_near : back.Pairwise fun p q => ¬ p.Parts → p.intake.reached ≤ q.intake.reached + 127
  back_parts : ∀ p ∈ back, p.Parts → gx.sent.length = gx.bulk + 1 ∧ gx.bulk < p.intake.reached
  queue_past : ∀ p ∈ gy.queue, gy.past p.intake ∧ gy.told ≤ p.intake.reached
  queue_near : ∀ p ∈ gy.queue, ¬ p.Parts → p.intake.reached ≤ gy.told + 127
  queue_parts : ∀ p ∈ gy.queue, p.Parts →
    gx.sent.length = gx.bulk + 1 ∧ gx.bulk < p.intake.reached

/-- What holds of a connection as a whole: the books of the end `x` and of its peer, what is on the
way from the end, and what is on the way back. -/
structure Sound (t : Terms) (x : Role) (gx gy : Ledger) (out back : List Parcel) : Prop where
  tidy : Tidy t x gx
  tidy_peer : Tidy t x.peer gy
  flow : Flow t x gx gy out back
  flow_peer : Flow t x.peer gy gx back out

theorem Sound.symm {t : Terms} {x : Role} {gx gy : Ledger} {out back : List Parcel}
    (h : Sound t x gx gy out back) : Sound t x.peer gy gx back out :=
  ⟨h.tidy_peer, by rw [Role.peer_peer]; exact h.tidy, h.flow_peer,
    by rw [Role.peer_peer]; exact h.flow⟩

end NarrowLink.Connection
