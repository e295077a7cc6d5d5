import NarrowLink.Proofs.Queue.Accounting
import NarrowLink.Proofs.Queue.Insertion

/-!
# A queue that serves one port

The queues of a connection hold packets of one port only (`Queue.Holds`), so they are lists: adding a
packet inserts it, and what is served next is the first one.
-/

namespace NarrowLink

open Wire

theorem Order.insert_ne_nil (o : Order) (p : Packet) (ps : List Packet) : o.insert p ps ≠ [] := by
  intro h
  have := o.length_insert p ps
  rw [h] at this
  simp at this

namespace Queue

/-- The queue of a connection holds these packets, all of one port. -/
structure Holds (q : Queue) (port : UInt8) (ps : List Packet) : Prop where
  order : q.order = .reliability
  packets : q.packets port = ps
  others : ∀ other, other ≠ port → q.packets other = []
  ready : q.ready = if ps = [] then [] else [port]

variable {q : Queue} {port : UInt8} {ps : List Packet}

theorem holds_empty (capacity : Nat) (port : UInt8) : (empty .reliability capacity).Holds port [] :=
  ⟨rfl, packets_empty _ _ _, fun _ _ => packets_empty _ _ _, rfl⟩

theorem Holds.add (h : q.Holds port ps) {p : Packet} (hp : p.port = port) :
    (q.add p).Holds port (Order.reliability.insert p ps) := by
  subst hp
  refine ⟨h.order, ?_, ?_, ?_⟩
  · rw [packets_add_self, h.order, h.packets]
  · intro other hne
    rw [packets_add_of_ne _ hne.symm]
    exact h.others other hne
  · rw [if_neg (Order.insert_ne_nil _ _ _)]
    show (if (q.packets p.port).isEmpty then q.ready ++ [p.port] else q.ready) = _
    rw [h.packets, h.ready]
    cases ps <;> simp

theorem Holds.clear (h : q.Holds port ps) : q.clear.2.Holds port [] := by
  exact ⟨h.order, ByteMap.get_const _ _, fun other _ => ByteMap.get_const _ _, rfl⟩

theorem Holds.popNext_cons {p : Packet} (h : q.Holds port (p :: ps)) :
    ∃ q', q.popNext = some (p, q') ∧ q'.Holds port ps := by
  unfold popNext
  rw [h.ready, if_neg (by simp)]
  simp only [h.packets]
  refine ⟨_, rfl, h.order, ?_, ?_, ?_⟩
  · simp [Queue.packets]
  · intro other hne
    show (q.ports.set port ps).get other = []
    rw [ByteMap.get_set_of_ne _ _ hne.symm]
    exact h.others other hne
  · cases ps <;> simp

theorem Holds.pop_cons {p : Packet} (h : q.Holds port (p :: ps)) :
    ∃ q', q.pop port = some (p, q') ∧ q'.Holds port ps := by
  unfold pop
  rw [h.packets]
  refine ⟨_, rfl, h.order, ?_, ?_, ?_⟩
  · simp [Queue.packets]
  · intro other hne
    show (q.ports.set port ps).get other = []
    rw [ByteMap.get_set_of_ne _ _ hne.symm]
    exact h.others other hne
  · have hready := h.ready
    rw [if_neg (List.cons_ne_nil p ps)] at hready
    cases ps <;> simp [hready]

theorem Holds.length_eq (h : q.Holds port ps) : q.length = ps.length := by
  have he : q.ports = (ByteMap.const []).set port ps := by
    refine ByteMap.ext fun b => ?_
    rw [ByteMap.get_set]
    split
    · rename_i hb
      rw [← hb]
      exact h.packets
    · rename_i hb
      rw [ByteMap.get_const]
      exact h.others b (Ne.symm hb)
  have hs := ByteMap.sum_values_set List.length (.const []) port ps
  rw [ByteMap.get_const, ByteMap.values_const, List.map_replicate, List.sum_replicate] at hs
  show (q.ports.values.map List.length).sum = _
  rw [he]
  simpa using hs

end Queue

end NarrowLink
