import NarrowLink.ByteMap
import NarrowLink.Serial
import NarrowLink.Wire.Packet

/-!
# Packet queues

A queue keeps packets per port, the packets of a port in ascending order of one of their sequence
numbers, and is bounded by the bytes that its packets take on the wire. A packet is inserted behind
all packets of its port that it does not precede, so packets with equal numbers stay in the order in
which they came (`Order.insert`). The ports that have packets stand in line (`Queue.ready`):
`Queue.popNext` serves the first of them and sends it to the end of the line if it has more.

The parts of a queue are tied together by `used`, which counts the bytes of all packets, and `ready`,
which lists each port with packets once.
-/

namespace NarrowLink

open Wire

/-- The sequence number that a queue orders the packets of a port by. -/
inductive Order where
  /-- The order of transmission. -/
  | transmit
  /-- The order of fragments. -/
  | fragment
  /-- The reliable sequence of a connection. -/
  | reliability
deriving DecidableEq

namespace Order

/-- The first packet comes before the second. -/
def precedes : Order → Packet → Packet → Bool
  | .transmit, a, b => Serial.precedes a.header.seq b.header.seq
  | .fragment, a, b => Serial.precedes a.header.fragSeq b.header.fragSeq
  | .reliability, a, b => Serial.precedes a.header.relSeq b.header.relSeq

/-- Inserts a packet behind the last one that it does not precede. The packets behind that place are
the longest tail of packets that the new one precedes. -/
def insert (o : Order) (p : Packet) (ps : List Packet) : List Packet :=
  let back := ps.reverse
  (back.dropWhile (o.precedes p)).reverse ++ p :: (back.takeWhile (o.precedes p)).reverse

theorem insert_perm (o : Order) (p : Packet) (ps : List Packet) : (o.insert p ps).Perm (p :: ps) := by
  have h : (ps.reverse.dropWhile (o.precedes p)).reverse ++
      (ps.reverse.takeWhile (o.precedes p)).reverse = ps := by
    rw [← List.reverse_append, List.takeWhile_append_dropWhile, List.reverse_reverse]
  have key : (o.insert p ps).Perm (p :: ((ps.reverse.dropWhile (o.precedes p)).reverse ++
      (ps.reverse.takeWhile (o.precedes p)).reverse)) := List.perm_middle
  rwa [h] at key

theorem length_insert (o : Order) (p : Packet) (ps : List Packet) :
    (o.insert p ps).length = ps.length + 1 := by
  simpa using (o.insert_perm p ps).length_eq

end Order

/-- The bytes that packets take on the wire. -/
def wireLengths (ps : List Packet) : Nat := (ps.map Packet.wireLength).foldr (· + ·) 0

@[simp] theorem wireLengths_nil : wireLengths [] = 0 := rfl

@[simp] theorem wireLengths_cons (p : Packet) (ps : List Packet) :
    wireLengths (p :: ps) = p.wireLength + wireLengths ps := by
  simp [wireLengths]

/-- A bounded queue of packets per port. -/
structure Queue where
  order : Order
  /-- The bytes that the queue holds at most. -/
  capacity : Nat
  /-- The bytes of all packets in the queue. -/
  used : Nat
  /-- The packets of each port, first to last. -/
  ports : ByteMap (List Packet)
  /-- The ports that have packets, in the order in which they are served. -/
  ready : List UInt8
deriving DecidableEq

namespace Queue

/-- The queue without packets. -/
def empty (order : Order) (capacity : Nat) : Queue :=
  ⟨order, capacity, 0, .const [], []⟩

/-- The packets of a port, first to last. -/
def packets (q : Queue) (port : UInt8) : List Packet := q.ports.get port

/-- The number of packets of all ports. -/
def length (q : Queue) : Nat := (q.ports.values.map List.length).foldr (· + ·) 0

/-- No port has a packet. -/
def isEmpty (q : Queue) : Bool := q.ready.isEmpty

/-- So many bytes more do not exceed the capacity. -/
def fits (q : Queue) (bytes : Nat) : Bool := decide (q.used + bytes ≤ q.capacity)

/-- Adds a packet, whether there is room or not. -/
def add (q : Queue) (p : Packet) : Queue :=
  let old := q.packets p.port
  { q with
    used := q.used + p.wireLength
    ports := q.ports.set p.port (q.order.insert p old)
    ready := if old.isEmpty then q.ready ++ [p.port] else q.ready }

/-- Adds a packet if there is room for it. -/
def push (q : Queue) (p : Packet) : Except Error Queue :=
  if q.fits p.wireLength then .ok (q.add p) else .error .queueFull

/-- Adds all packets if there is room for all of them. -/
def pushAll (q : Queue) (ps : List Packet) : Except Error Queue :=
  if q.fits (wireLengths ps) then .ok (ps.foldl add q) else .error .queueFull

/-- The first packet of a port. -/
def peek (q : Queue) (port : UInt8) : Option Packet := (q.packets port).head?

/-- Takes the first packet of a port. -/
def pop (q : Queue) (port : UInt8) : Option (Packet × Queue) :=
  match q.packets port with
  | [] => none
  | p :: rest =>
    some (p, { q with
      used := q.used - p.wireLength
      ports := q.ports.set port rest
      ready := if rest.isEmpty then q.ready.filter (· != port) else q.ready })

/-- Takes the first packet of the port that is served next, which then goes to the end of the line if
it has more. -/
def popNext (q : Queue) : Option (Packet × Queue) :=
  match q.ready with
  | [] => none
  | port :: others =>
    match q.packets port with
    | [] => none
    | p :: rest =>
      some (p, { q with
        used := q.used - p.wireLength
        ports := q.ports.set port rest
        ready := if rest.isEmpty then others else others ++ [port] })

/-- Discards the packets of a port, and tells how many there were. -/
def erasePort (q : Queue) (port : UInt8) : Nat × Queue :=
  let old := q.packets port
  (old.length, { q with
    used := q.used - wireLengths old
    ports := q.ports.set port []
    ready := q.ready.filter (· != port) })

/-- Discards all packets, and tells how many there were. -/
def clear (q : Queue) : Nat × Queue :=
  (q.length, { q with used := 0, ports := .const [], ready := [] })

@[simp] theorem packets_empty (order : Order) (capacity : Nat) (port : UInt8) :
    (empty order capacity).packets port = [] := by
  simp [packets, empty]

theorem packets_add (q : Queue) (p : Packet) (port : UInt8) :
    (q.add p).packets port =
      if p.port = port then q.order.insert p (q.packets port) else q.packets port := by
  simp only [packets, add, ByteMap.get_set]
  split <;> rename_i h
  · rw [h]
  · rfl

theorem packets_pop {q q' : Queue} {port : UInt8} {p : Packet}
    (h : q.pop port = some (p, q')) :
    q.packets port = p :: q'.packets port ∧ ∀ r, r ≠ port → q'.packets r = q.packets r := by
  unfold pop at h
  split at h
  · cases h
  rename_i p' rest hp
  cases h
  simp only [packets] at hp ⊢
  exact ⟨by simp [hp], fun r hr => ByteMap.get_set_of_ne _ _ (Ne.symm hr)⟩

end Queue

end NarrowLink
