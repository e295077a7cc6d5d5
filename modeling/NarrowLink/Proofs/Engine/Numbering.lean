import Mathlib.Logic.Function.Iterate
import NarrowLink.Engine.Desk
import NarrowLink.Proofs.Serial.Forward

/-!
# Numbers without gaps

The desk gives out three numbers for each destination port: one for everything that is transmitted, and
one each for the fragments of datagrams and of connections.  The three are given out in one way
(`Numbering.number`).  If what was numbered so far has the numbers from the first one on, for each port,
and the counter stands at the next one (`Numbering.Counted`), then it stays so with what is numbered
next (`Counted.number`).
-/

namespace NarrowLink.Engine

open Wire

/-- A number that packets carry, and its place in the counters of their port. -/
structure Numbering (α : Type) [Serial α] where
  next : Counters → α
  /-- The counters after the next number was given out. -/
  advance : Counters → Counters
  read : Packet → α
  write : α → Packet → Packet
  next_advance : ∀ k, next (advance k) = Serial.next (next k)
  read_write : ∀ a p, read (write a p) = a
  port_write : ∀ a p, (write a p).port = p.port

namespace Numbering

/-- The order of transmission. -/
def transmit : Numbering UInt16 where
  next := Counters.seq
  advance k := { k with seq := Serial.next k.seq }
  read p := p.header.seq
  write a p := { p with header := { p.header with seq := a } }
  next_advance _ := rfl
  read_write _ _ := rfl
  port_write _ _ := rfl

/-- The order of the fragments of datagrams. -/
def datagram : Numbering UInt8 where
  next := Counters.datagramFrag
  advance k := { k with datagramFrag := Serial.next k.datagramFrag }
  read p := p.header.fragSeq
  write a p := { p with header := { p.header with fragSeq := a } }
  next_advance _ := rfl
  read_write _ _ := rfl
  port_write _ _ := rfl

/-- The order of the fragments that go through connections. -/
def connection : Numbering UInt8 where
  next := Counters.connectionFrag
  advance k := { k with connectionFrag := Serial.next k.connectionFrag }
  read p := p.header.fragSeq
  write a p := { p with header := { p.header with fragSeq := a } }
  next_advance _ := rfl
  read_write _ _ := rfl
  port_write _ _ := rfl

variable {α β : Type} [Serial α] [Serial β]

/-- Gives packets the next numbers of their ports. -/
def number (n : Numbering α) (c : ByteMap Counters) : List Packet → List Packet × ByteMap Counters
  | [] => ([], c)
  | p :: ps =>
    let (rest, c') := number n (c.modify p.port n.advance) ps
    (n.write (n.next (c.get p.port)) p :: rest, c')

/-- The counters after packets were given numbers. -/
def count (n : Numbering α) (c : ByteMap Counters) (ps : List Packet) : ByteMap Counters :=
  ps.foldl (fun c p => c.modify p.port n.advance) c

variable (n : Numbering α) {c c' : ByteMap Counters} {ps qs : List Packet} {port : UInt8}

theorem numberTransmit_eq (c : ByteMap Counters) (ps : List Packet) :
    Desk.numberTransmit c ps = transmit.number c ps := by
  induction ps generalizing c with
  | nil => rfl
  | cons p ps ih =>
    unfold Desk.numberTransmit number
    simp only
    rw [ih]
    rfl

theorem numberDatagram_eq (c : ByteMap Counters) (ps : List Packet) :
    Desk.numberDatagram c ps = datagram.number c ps := by
  induction ps generalizing c with
  | nil => rfl
  | cons p ps ih =>
    unfold Desk.numberDatagram number
    simp only
    rw [ih]
    rfl

theorem numberConnection_eq (c : ByteMap Counters) (ps : List Packet) :
    Desk.numberConnection c ps = connection.number c ps := by
  induction ps generalizing c with
  | nil => rfl
  | cons p ps ih =>
    unfold Desk.numberConnection number
    simp only
    rw [ih]
    rfl

/-! ## What numbering changes -/

/-- Packets get numbers, and nothing else changes. -/
theorem map_number {γ : Type} {f : Packet → γ} (hf : ∀ a p, f (n.write a p) = f p)
    (c : ByteMap Counters) (ps : List Packet) : (n.number c ps).1.map f = ps.map f := by
  induction ps generalizing c with
  | nil => rfl
  | cons p ps ih =>
    unfold number
    simp only
    rw [List.map_cons, List.map_cons, ih, hf]

/-- What does not depend on numbers holds of numbered packets. -/
theorem forall_number {P : Packet → Prop} (hP : ∀ a p, P p → P (n.write a p)) (c : ByteMap Counters)
    (h : ∀ p ∈ ps, P p) : ∀ q ∈ (n.number c ps).1, P q := by
  induction ps generalizing c with
  | nil => exact h
  | cons p ps ih =>
    intro q hq
    rcases List.mem_cons.1 hq with rfl | hq
    · exact hP _ p (h p List.mem_cons_self)
    · exact ih _ (fun p' hp' => h p' (List.mem_cons_of_mem p hp')) q hq

/-- The packets to a port. -/
def toPort (port : UInt8) (ps : List Packet) : List Packet := ps.filter fun p => p.port = port

/-- The numbers of the packets to a port. -/
def numbers (port : UInt8) (ps : List Packet) : List α := (toPort port ps).map n.read

theorem toPort_cons (p : Packet) (ps : List Packet) :
    toPort port (p :: ps) = if p.port = port then p :: toPort port ps else toPort port ps := by
  simp [toPort, List.filter_cons]

theorem numbers_cons (p : Packet) (ps : List Packet) :
    n.numbers port (p :: ps) =
      if p.port = port then n.read p :: n.numbers port ps else n.numbers port ps := by
  rw [numbers, toPort_cons]
  split <;> rfl

theorem numbers_append : n.numbers port (ps ++ qs) = n.numbers port ps ++ n.numbers port qs := by
  simp [numbers, toPort]

/-- Where a packet goes, and under which number. -/
def address (p : Packet) : UInt8 × α := (p.port, n.read p)

theorem numbers_eq_of_address (h : qs.map n.address = ps.map n.address) :
    n.numbers port qs = n.numbers port ps := by
  have hfound : ∀ ps : List Packet, n.numbers port ps =
      ((ps.map n.address).filter fun a => a.1 = port).map Prod.snd := by
    intro ps
    rw [List.filter_map, List.map_map]
    rfl
  rw [hfound, hfound, h]

theorem length_toPort (ps : List Packet) :
    (toPort port ps).length = (n.numbers port ps).length := by
  rw [numbers, List.length_map]

theorem counters_number (c : ByteMap Counters) (ps : List Packet) :
    (n.number c ps).2 = n.count c ps := by
  induction ps generalizing c with
  | nil => rfl
  | cons p ps ih => exact ih _

theorem get_count (c : ByteMap Counters) (ps : List Packet) (port : UInt8) :
    (n.count c ps).get port = n.advance^[(toPort port ps).length] (c.get port) := by
  unfold count
  induction ps generalizing c with
  | nil => rfl
  | cons p ps ih =>
    rw [List.foldl_cons, ih, toPort_cons, ByteMap.modify, ByteMap.get_set]
    split
    · rename_i hport
      rw [hport, List.length_cons, Function.iterate_succ_apply]
    · rfl

theorem next_count (c : ByteMap Counters) (ps : List Packet) (port : UInt8) :
    n.next ((n.count c ps).get port) =
      Serial.forward (n.next (c.get port)) (toPort port ps).length := by
  rw [get_count]
  generalize (toPort port ps).length = k
  induction k with
  | zero => rfl
  | succ k ih => rw [Function.iterate_succ_apply', n.next_advance, ih, Serial.forward_succ]

/-- The other counters stay as they are. -/
theorem next_count_of_frame {n : Numbering α} {m : Numbering β}
    (h : ∀ k, m.next (n.advance k) = m.next k) (c : ByteMap Counters) (ps : List Packet)
    (port : UInt8) : m.next ((n.count c ps).get port) = m.next (c.get port) := by
  rw [get_count]
  generalize (toPort port ps).length = k
  induction k with
  | zero => rfl
  | succ k ih => rw [Function.iterate_succ_apply', h, ih]

/-- The packets to a port get the numbers from the next one on. -/
theorem numbers_number (c : ByteMap Counters) (ps : List Packet) (port : UInt8) :
    n.numbers port (n.number c ps).1 =
      (List.range (toPort port ps).length).map (Serial.forward (n.next (c.get port))) := by
  induction ps generalizing c with
  | nil => rfl
  | cons p ps ih =>
    have hrest := ih (c.modify p.port n.advance)
    rw [ByteMap.modify, ByteMap.get_set] at hrest
    unfold number
    simp only
    rw [numbers_cons, toPort_cons, n.port_write, n.read_write]
    split
    · rename_i hport
      subst hport
      rw [if_pos rfl, n.next_advance] at hrest
      rw [ByteMap.modify, hrest, List.length_cons, List.range_succ_eq_map, List.map_cons,
        List.map_map]
      refine congrArg (List.cons _) (List.map_congr_left fun i _ => ?_)
      exact Serial.forward_next _ i
    · rename_i hport
      rw [if_neg hport] at hrest
      exact hrest

theorem length_toPort_number (c : ByteMap Counters) (ps : List Packet) :
    (toPort port (n.number c ps).1).length = (toPort port ps).length := by
  rw [n.length_toPort, n.numbers_number, List.length_map, List.length_range]

/-! ## Numbers from the first one on -/

/-- The packets to a port have the numbers from the first one on. -/
def Consecutive (ps : List Packet) : Prop :=
  ∀ port, n.numbers port ps = (List.range (toPort port ps).length).map (Serial.forward (n.next {}))

/-- The packets to a port have the numbers from the first one on, and the counter has the number after
them. -/
structure Counted (c : ByteMap Counters) (ps : List Packet) : Prop where
  consecutive : n.Consecutive ps
  next : ∀ port, n.next (c.get port) = Serial.forward (n.next {}) (toPort port ps).length

theorem counted_nil : n.Counted (.const {}) [] where
  consecutive _ := rfl
  next port := by
    rw [ByteMap.get_const]
    rfl

namespace Counted

variable {n}

theorem congr (h : n.Counted c ps) (hnext : ∀ port, n.next (c'.get port) = n.next (c.get port)) :
    n.Counted c' ps :=
  ⟨h.consecutive, fun port => (hnext port).trans (h.next port)⟩

/-- Other numbers are given out. -/
theorem other (h : n.Counted c ps) {m : Numbering β} (hm : ∀ k, n.next (m.advance k) = n.next k)
    (qs : List Packet) : n.Counted (m.count c qs) ps :=
  h.congr (next_count_of_frame hm c qs)

/-- The next packets get the next numbers. -/
theorem number (h : n.Counted c ps) (qs : List Packet) :
    n.Counted (n.count c qs) (ps ++ (n.number c qs).1) := by
  have hlen : ∀ port, (toPort port (ps ++ (n.number c qs).1)).length =
      (toPort port ps).length + (toPort port qs).length := by
    intro port
    rw [n.length_toPort, n.numbers_append, List.length_append, ← n.length_toPort, ← n.length_toPort,
      n.length_toPort_number]
  refine ⟨fun port => ?_, fun port => ?_⟩
  · rw [n.numbers_append, h.consecutive port, n.numbers_number, hlen, List.range_add, List.map_append,
      List.map_map, h.next port]
    refine congrArg (_ ++ ·) (List.map_congr_left fun i _ => ?_)
    exact (Serial.forward_add _ _ _).symm
  · rw [next_count, h.next port, hlen, Serial.forward_add]

/-- Other packets to the same ports under the same numbers. -/
theorem of_address (h : n.Counted c (ps ++ qs)) {rs : List Packet}
    (hrs : rs.map n.address = qs.map n.address) : n.Counted c (ps ++ rs) := by
  have hsame : ∀ port, n.numbers port (ps ++ rs) = n.numbers port (ps ++ qs) := fun port => by
    rw [n.numbers_append, n.numbers_append, n.numbers_eq_of_address hrs]
  refine ⟨fun port => ?_, fun port => ?_⟩
  · rw [n.length_toPort, hsame, ← n.length_toPort]
    exact h.consecutive port
  · rw [n.length_toPort, hsame, ← n.length_toPort]
    exact h.next port

end Counted

end Numbering

end NarrowLink.Engine
