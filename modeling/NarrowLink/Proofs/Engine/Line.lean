import NarrowLink.Proofs.Engine.Numbering
import NarrowLink.Proofs.Serial.Row
import NarrowLink.Proofs.Session.Formed
import NarrowLink.Proofs.Transmitter.Turns

/-!
# The transmit queue is a line

The packets of a port stand in the transmit queue under numbers in a row, up to the one that is given out
next, and the packet in the hands of the worker comes right before them (`Lined`).  A packet that goes
back to the queue must find its place in front of all others, which it does as long as they are fewer
than half of all numbers.  There is one worker at a time, because a call that starts the engine waits until
the last worker has ended.
-/

namespace NarrowLink

open Wire

namespace Engine

variable {config : Config} {x x' : Transmitter} {c c' : ByteMap Counters} {p : Packet}
  {ps : List Packet}

/-- The numbers of the packets of each port are in a row: the packet in the hands of the worker, those that
are queued, and the number that is given out next. -/
structure Lined (config : Config) (x : Transmitter) (c : ByteMap Counters) : Prop where
  order : x.queue.order = .transmit
  capacity : x.queue.capacity = config.queueCapacity
  consistent : x.queue.Consistent
  room : x.queue.used ≤ x.queue.capacity
  alone : x.Alone
  row : ∀ port, ∃ first,
    Serial.Row first ((x.queue.packets port).map fun p => p.header.seq) (c.get port).seq ∧
      ∀ p ∈ x.held, p.port = port → Serial.next p.header.seq = first

theorem lined_new (config : Config) : Lined config (.new config) (.const {}) where
  order := rfl
  capacity := rfl
  consistent := Queue.consistent_of_empty
  room := Nat.zero_le _
  alone := Transmitter.alone_new config
  row port := by
    refine ⟨0, ?_, fun p hp => nomatch hp⟩
    rw [show (Transmitter.new config).queue.packets port = [] from Queue.packets_empty _ _ _,
      ByteMap.get_const]
    exact .nil _

/-- Other numbers make no difference. -/
theorem Lined.congr (h : Lined config x c) (hseq : ∀ port, (c'.get port).seq = (c.get port).seq) :
    Lined config x c' := by
  refine { h with row := fun port => ?_ }
  rw [hseq]
  exact h.row port

/-- The next packet of a port goes to the end of the line. -/
theorem Lined.add (h : Lined config x c) (hseq : p.header.seq = (c.get p.port).seq)
    (hroom : x.queue.used + p.wireLength ≤ x.queue.capacity) :
    Lined config { x with queue := x.queue.add p } (c.modify p.port Numbering.transmit.advance) where
  order := h.order
  capacity := h.capacity
  consistent := h.consistent.add p
  room := hroom
  alone := h.alone
  row port := by
    obtain ⟨first, hrow, hheld⟩ := h.row port
    refine ⟨first, ?_, hheld⟩
    rw [ByteMap.modify, ByteMap.get_set, Queue.packets_add]
    split
    · rename_i hport
      subst hport
      have hmore : Serial.Row first ((x.queue.packets p.port ++ [p]).map fun p => p.header.seq)
          (Serial.next (c.get p.port).seq) := by
        rw [List.map_append, List.map_singleton, hseq]
        exact hrow.concat
      rw [h.order, Order.insert_of_row_concat hmore]
      exact hmore
    · exact hrow

theorem Lined.add_all (h : Lined config x c)
    (hroom : x.queue.used + wireLengths ps ≤ x.queue.capacity) :
    Lined config { x with queue := (Numbering.transmit.number c ps).1.foldl Queue.add x.queue }
      (Numbering.transmit.number c ps).2 := by
  induction ps generalizing x c with
  | nil => exact h
  | cons p ps ih =>
    rw [wireLengths_cons] at hroom
    have hadded := h.add (p := Numbering.transmit.write (c.get p.port).seq p) rfl
      (show x.queue.used + p.wireLength ≤ _ by omega)
    exact ih hadded (show x.queue.used + p.wireLength + _ ≤ x.queue.capacity by omega)

/-- All packets are queued under the next numbers. -/
theorem Lined.submit (h : Lined config x c)
    (hok : x.submitAll (Desk.numberTransmit c ps).1 = (.ok (), x')) :
    Lined config x' (Desk.numberTransmit c ps).2 := by
  rw [Numbering.numberTransmit_eq] at hok ⊢
  unfold Transmitter.submitAll Queue.pushAll at hok
  split at hok
  · rename_i q hq
    split at hq
    · rename_i hfits
      cases hok
      cases hq
      refine h.add_all ?_
      have hroom := of_decide_eq_true hfits
      unfold wireLengths at hroom ⊢
      rwa [Numbering.transmit.map_number fun _ _ => rfl] at hroom
    · cases hq
  · cases hok

/-- The worker keeps the line, if the queue has room for fewer packets than there are numbers in half a
turn. -/
theorem Lined.turn {leaving : List Packet} (h : Lined config x c)
    (hcapacity : config.queueCapacity < Header.size * (Serial.half UInt16 + 1))
    (ht : x.Turns x' leaving) (halone : x'.Alone) : Lined config x' c := by
  refine ⟨ht.order.trans h.order, ht.capacity.trans h.capacity, ht.consistent h.consistent,
    ht.used_le h.room, halone, fun port => ?_⟩
  obtain ⟨first, hrow, hheld⟩ := h.row port
  cases ht with
  | still queue held =>
    rw [queue, held]
    exact ⟨first, hrow, hheld⟩
  | gone before queue after =>
    obtain ⟨rfl, rfl⟩ := Transmitter.eq_nil_of_length_le (before ▸ h.alone.length_held_le)
    rw [queue, after]
    exact ⟨first, hrow, fun p hp => nomatch hp⟩
  | @back ahead behind p before room queue after =>
    obtain ⟨rfl, rfl⟩ := Transmitter.eq_nil_of_length_le (before ▸ h.alone.length_held_le)
    rw [queue, after, Queue.packets_add]
    split
    · rename_i hport
      have hfew : (x.queue.packets port).length < Serial.half UInt16 := by
        have hlen := h.consistent.length_packets_le port
        have hsize : Header.size ≤ p.wireLength := Nat.le_add_right _ _
        have hall := h.capacity ▸ room
        simp only [Header.size, Serial.half] at *
        omega
      rw [← hheld p (before ▸ List.mem_singleton_self p) hport] at hrow
      have hmore : Serial.Row p.header.seq ((p :: x.queue.packets port).map fun p => p.header.seq)
          (c.get port).seq := .cons hrow
      rw [h.order, Order.insert_of_row_cons hmore hfew]
      exact ⟨p.header.seq, hmore, fun y hy => nomatch hy⟩
    · exact ⟨first, hrow, fun y hy => nomatch hy⟩
  | @next ahead behind p before queue after offered =>
    obtain ⟨rfl, rfl⟩ := Transmitter.eq_nil_of_length_le (after ▸ halone.length_held_le)
    obtain ⟨hhead, hothers⟩ := h.consistent.packets_popNext queue
    rw [after]
    by_cases hport : port = p.port
    · subst hport
      rw [hhead, List.map_cons] at hrow
      cases hrow with
      | cons rest =>
        refine ⟨_, rest, fun y hy _ => ?_⟩
        rw [List.mem_singleton.1 hy]
    · rw [hothers port hport]
      refine ⟨first, hrow, fun y hy hyport => ?_⟩
      rw [List.mem_singleton.1 hy] at hyport
      exact absurd hyport.symm hport

/-- The numbers of the packets of a port are near each other. -/
theorem Lined.near (h : Lined config x c)
    (hcapacity : config.queueCapacity < Header.size * (Serial.half UInt16 + 1)) (port : UInt8) :
    Serial.Near ((x.queue.packets port).map fun p => p.header.seq) := by
  obtain ⟨first, hrow, -⟩ := h.row port
  refine hrow.near ?_
  rw [List.length_map]
  have hlen := h.consistent.length_packets_le port
  have hroom := h.capacity ▸ h.room
  simp only [Header.size, Serial.half] at *
  omega

end Engine

end NarrowLink
