import Mathlib.Data.List.Infix
import NarrowLink.Proofs.Queue.Consistency
import NarrowLink.Proofs.Serial.Row

/-!
# The packets of a port are sorted

A queue compares serial numbers, which have an order as long as they lie within half the number space
(`Order.Near`).  While this is so for the packets of each port (`Queue.Comparable`), the packets of a
port stand in ascending order, wherever the numbers wrap around (`Order.Ascending`).  Packets with equal
numbers stand in the order in which they came, whatever their numbers are (`Order.filter_insert`).

`Arrivals` follows a queue through calls and notes the packets that wait in the order in which they were
pushed.  For each port, the queue is a stable sort of them (`stablySorted_after`).
-/

namespace NarrowLink

open Wire

namespace Order

/-- The numbers that packets are ordered by. -/
def Number : Order → Type
  | .transmit => UInt16
  | .fragment | .reliability => UInt8

instance (o : Order) : Serial o.Number :=
  match o with
  | .transmit => inferInstanceAs (Serial UInt16)
  | .fragment | .reliability => inferInstanceAs (Serial UInt8)

instance (o : Order) : DecidableEq o.Number :=
  match o with
  | .transmit => inferInstanceAs (DecidableEq UInt16)
  | .fragment | .reliability => inferInstanceAs (DecidableEq UInt8)

/-- The number that a packet is ordered by. -/
def number : (o : Order) → Packet → o.Number
  | .transmit, p => p.header.seq
  | .fragment, p => p.header.fragSeq
  | .reliability, p => p.header.relSeq

/-- The numbers that packets are ordered by lie within half the number space in a row. -/
def Near : Order → List Packet → Prop
  | .transmit, ps => Serial.Near (ps.map fun p => p.header.seq)
  | .fragment, ps => Serial.Near (ps.map fun p => p.header.fragSeq)
  | .reliability, ps => Serial.Near (ps.map fun p => p.header.relSeq)

/-- No packet stands behind one that it precedes. -/
def Ascending (o : Order) (ps : List Packet) : Prop := ps.Pairwise fun x y => o.precedes y x = false

variable {o : Order} {p : Packet} {ps qs : List Packet}

theorem precedes_eq (o : Order) (p q : Packet) :
    o.precedes p q = Serial.precedes (o.number p) (o.number q) := by
  cases o <;> rfl

theorem near_iff : o.Near ps ↔ ∃ base : o.Number, ∀ p ∈ ps,
    Serial.distance base (o.number p) < Serial.half o.Number := by
  have hnear : o.Near ps ↔ Serial.Near (ps.map o.number) := by
    cases o <;> rfl
  rw [hnear]
  unfold Serial.Near
  simp only [List.forall_mem_map]

theorem Near.mono (h : o.Near ps) (hsub : ∀ q ∈ qs, q ∈ ps) : o.Near qs := by
  obtain ⟨base, hbase⟩ := near_iff.1 h
  exact near_iff.2 ⟨base, fun q hq => hbase q (hsub q hq)⟩

/-- Packets with one number stay in the order in which they came. -/
theorem filter_insert (o : Order) (p : Packet) (ps : List Packet) (n : o.Number) :
    ((o.insert p ps).filter fun x => o.number x = n) = (ps ++ [p]).filter fun x => o.number x = n := by
  obtain ⟨front, back, rfl, hinsert, hback, -⟩ := o.insert_split p ps
  rw [hinsert]
  simp only [List.filter_append, List.filter_cons, List.filter_nil]
  by_cases hp : o.number p = n
  · have hnone : (back.filter fun x => o.number x = n) = [] := by
      refine List.filter_eq_nil_iff.2 fun x hx => ?_
      have hprecedes := hback x hx
      rw [precedes_eq, hp] at hprecedes
      rw [decide_eq_true_eq]
      rintro rfl
      rw [Serial.not_precedes_self] at hprecedes
      cases hprecedes
    simp [hp, hnone]
  · simp [hp]

/-- In a window, packets ascend if they lie further and further from its beginning. -/
theorem ascending_iff {base : o.Number}
    (h : ∀ p ∈ ps, Serial.distance base (o.number p) < Serial.half o.Number) :
    o.Ascending ps ↔ ps.Pairwise fun x y =>
      Serial.distance base (o.number x) ≤ Serial.distance base (o.number y) := by
  refine List.Pairwise.iff_of_mem fun {x y} hx hy => ?_
  rw [← Nat.not_lt, ← Serial.precedes_iff_distance_lt (h y hy) (h x hx), ← precedes_eq,
    Bool.not_eq_true]

theorem Ascending.insert (hs : o.Ascending ps) (hnear : o.Near (p :: ps)) :
    o.Ascending (o.insert p ps) := by
  obtain ⟨base, hbase⟩ := near_iff.1 hnear
  have hps : ∀ x ∈ ps, Serial.distance base (o.number x) < Serial.half o.Number :=
    fun x hx => hbase x (List.mem_cons_of_mem p hx)
  have hall : ∀ x ∈ o.insert p ps, Serial.distance base (o.number x) < Serial.half o.Number :=
    fun x hx => hbase x (List.mem_cons.2 ((mem_insert o p).1 hx))
  refine (ascending_iff hall).2 (pairwise_le_insert (fun y hy => ?_) ((ascending_iff hps).1 hs))
  rw [precedes_eq]
  exact Serial.precedes_iff_distance_lt (hbase p List.mem_cons_self) (hps y hy)

end Order

namespace Queue

/-- The numbers of the packets of each port can be compared. -/
def Comparable (q : Queue) : Prop := ∀ port, q.order.Near (q.packets port)

variable {q q' : Queue} {p : Packet} {ps : List Packet} {port : UInt8}

/-- More packets do not drive out what is queued. -/
theorem mem_packets_foldl_add {x : Packet} (h : x ∈ q.packets port) :
    x ∈ (ps.foldl add q).packets port := by
  induction ps generalizing q with
  | nil => exact h
  | cons p ps ih =>
    refine ih ?_
    rw [packets_add]
    split
    · exact (Order.mem_insert _ _).2 (.inr h)
    · exact h

theorem Comparable.of_foldl_add (h : (ps.foldl add q).Comparable) : q.Comparable := fun port => by
  have hport := h port
  rw [order_foldl_add] at hport
  exact hport.mono fun x hx => mem_packets_foldl_add hx

/-! ## Packets in the order of their arrival -/

/-- A queue, and the packets that wait in it in the order in which they were pushed. -/
structure Arrivals where
  queue : Queue
  waiting : List Packet

namespace Arrivals

/-- The empty queue. -/
def start (order : Order) (capacity : Nat) : Arrivals := ⟨.empty order capacity, []⟩

/-- The packets that still wait after a call that took out this packet, if any. -/
def remaining (waiting : List Packet) (popped : Option Packet) : Call → List Packet
  | .erasePort port => waiting.filter fun p => p.port ≠ port
  | .clear => []
  | _ => (popped.map waiting.erase).getD waiting

/-- One more call. -/
def call (a : Arrivals) (c : Call) : Arrivals where
  queue := (a.queue.call c).queue
  waiting := remaining (a.waiting ++ if (a.queue.call c).error = none then c.offered else [])
    (a.queue.call c).popped c

/-- More calls, one after the other. -/
def after (a : Arrivals) (calls : List Call) : Arrivals := calls.foldl call a

/-- For each port, the queue is a stable sort of the packets that wait, in any window that their numbers
lie in, and what is taken out of a port is the first one. -/
structure StablySorted (order : Order) (a : Arrivals) : Prop where
  order_eq : a.queue.order = order
  ascending : ∀ port (base : order.Number),
    (∀ p ∈ a.queue.packets port, Serial.distance base (order.number p) < Serial.half order.Number) →
    (a.queue.packets port).Pairwise fun x y =>
      Serial.distance base (order.number x) ≤ Serial.distance base (order.number y)
  perm : ∀ port, (a.queue.packets port).Perm (ofPort port a.waiting)
  stable : ∀ port (n : order.Number), ((a.queue.packets port).filter fun p => order.number p = n) =
    (ofPort port a.waiting).filter fun p => order.number p = n
  pop : ∀ port, (a.queue.pop port).map Prod.fst = (a.queue.packets port).head?
  popNext : ∀ p q, a.queue.popNext = some (p, q) → (a.queue.packets p.port).head? = some p

/-- What a queue keeps up in order to be a stable sort. -/
structure Sorted (order : Order) (a : Arrivals) : Prop where
  order_eq : a.queue.order = order
  consistent : a.queue.Consistent
  ascending : ∀ port, order.Ascending (a.queue.packets port)
  stable : ∀ port (n : order.Number), ((a.queue.packets port).filter fun p => order.number p = n) =
    (ofPort port a.waiting).filter fun p => order.number p = n

variable {order : Order} {a : Arrivals} {waiting : List Packet}

theorem sorted_start (order : Order) (capacity : Nat) : (start order capacity).Sorted order where
  order_eq := rfl
  consistent := consistent_of_empty
  ascending port := by
    rw [show (start order capacity).queue.packets port = [] from packets_empty _ _ _]
    exact .nil
  stable port n := by
    rw [show (start order capacity).queue.packets port = [] from packets_empty _ _ _]
    rfl

/-! ### What goes in -/

theorem Sorted.add (h : Sorted order ⟨q, waiting⟩) (hnear : (q.add p).Comparable) :
    Sorted order ⟨q.add p, waiting ++ [p]⟩ := by
  obtain rfl : q.order = order := h.order_eq
  refine ⟨rfl, h.consistent.add p, fun port => ?_, fun port n => ?_⟩
  · show q.order.Ascending ((q.add p).packets port)
    have hport : q.order.Near ((q.add p).packets port) := hnear port
    rw [packets_add] at hport ⊢
    split
    · rename_i he
      rw [if_pos he] at hport
      exact (h.ascending port).insert (hport.mono fun x hx =>
        (Order.mem_insert _ _).2 (List.mem_cons.1 hx))
    · exact h.ascending port
  · have hstable : _ = (waiting.filter _).filter _ := h.stable port n
    show ((q.add p).packets port).filter _ = ((waiting ++ [p]).filter _).filter _
    rw [packets_add, List.filter_append, List.filter_append, ← hstable]
    split
    · rename_i he
      rw [Order.filter_insert, List.filter_append]
      simp [he]
    · rename_i he
      simp [he]

theorem Sorted.foldl_add (h : Sorted order ⟨q, waiting⟩) (hnear : (ps.foldl Queue.add q).Comparable) :
    Sorted order ⟨ps.foldl Queue.add q, waiting ++ ps⟩ := by
  induction ps generalizing q waiting with
  | nil => simpa using h
  | cons p ps ih =>
    rw [List.append_cons]
    exact ih (h.add (.of_foldl_add hnear)) hnear

/-! ### What goes out -/

/-- Taking out the first packet of a port keeps the others in order. -/
theorem Sorted.take (h : Sorted order ⟨q, waiting⟩) (horder : q'.order = q.order)
    (hq : q'.Consistent) (hhead : q.packets p.port = p :: q'.packets p.port)
    (hothers : ∀ port, port ≠ p.port → q'.packets port = q.packets port) :
    Sorted order ⟨q', waiting.erase p⟩ := by
  have herase : ∀ port, q'.packets port = (q.packets port).erase p := by
    intro port
    by_cases hport : port = p.port
    · rw [hport, hhead, List.erase_cons_head]
    · rw [hothers port hport, List.erase_of_not_mem]
      exact fun hp => hport (h.consistent.filed port p hp).symm
  refine ⟨horder.trans h.order_eq, hq, fun port => ?_, fun port n => ?_⟩
  · show order.Ascending (q'.packets port)
    rw [herase]
    exact (h.ascending port).sublist List.erase_sublist
  · have hstable : _ = (waiting.filter _).filter _ := h.stable port n
    show (q'.packets port).filter _ = ((waiting.erase p).filter _).filter _
    rw [herase, ← List.erase_filter, ← List.erase_filter, ← List.erase_filter, ← hstable]

theorem Sorted.erasePort (h : Sorted order ⟨q, waiting⟩) (port : UInt8) :
    Sorted order ⟨(q.erasePort port).2, waiting.filter fun p => p.port ≠ port⟩ := by
  have hpackets : ∀ r, (q.erasePort port).2.packets r = if port = r then [] else q.packets r :=
    fun r => ByteMap.get_set _ _ _ _
  refine ⟨h.order_eq, h.consistent.erasePort port, fun r => ?_, fun r n => ?_⟩
  · show order.Ascending ((q.erasePort port).2.packets r)
    rw [hpackets]
    split
    · exact .nil
    · exact h.ascending r
  · have hstable : _ = (waiting.filter _).filter _ := h.stable r n
    show ((q.erasePort port).2.packets r).filter _ = ((waiting.filter _).filter _).filter _
    rw [hpackets, List.filter_filter (p := fun p => p.port = r) (l := waiting)]
    split
    · rename_i hr
      rw [hr, List.filter_nil, eq_comm, List.filter_eq_nil_iff]
      intro p hp
      have := (List.mem_filter.1 hp).2
      simp at this
    · rename_i hr
      rw [hstable]
      congr 1
      refine List.filter_congr fun p _ => ?_
      by_cases hp : p.port = r
      · simp [hp, Ne.symm hr]
      · simp [hp]

theorem Sorted.clear (h : Sorted order ⟨q, waiting⟩) : Sorted order ⟨q.clear.2, []⟩ := by
  have hpackets : ∀ r, q.clear.2.packets r = [] := fun r => ByteMap.get_const _ _
  refine ⟨h.order_eq, consistent_clear q, fun r => ?_, fun r n => ?_⟩
  · show order.Ascending (q.clear.2.packets r)
    rw [hpackets]
    exact .nil
  · show (q.clear.2.packets r).filter _ = _
    rw [hpackets]
    rfl

/-! ### Runs -/

theorem call_eq {o : Outcome} {c : Call} (h : q.call c = o) : (Arrivals.mk q waiting).call c =
    ⟨o.queue, remaining (waiting ++ if o.error = none then c.offered else []) o.popped c⟩ := by
  subst h
  rfl

theorem Sorted.call (h : Sorted order ⟨q, waiting⟩) (c : Call)
    (hnear : (q.call c).queue.Comparable) : ((Arrivals.mk q waiting).call c).Sorted order := by
  have hsame : Sorted order ⟨q, waiting ++ []⟩ := by rwa [List.append_nil]
  cases c with
  | push p =>
    cases hpush : q.push p with
    | error e =>
      rw [call_eq (o := { queue := q, error := some e }) (by simp only [Queue.call, hpush])]
      exact hsame
    | ok q' =>
      have hcall : q.call (.push p) = { queue := q' } := by simp only [Queue.call, hpush]
      obtain ⟨-, rfl⟩ := push_eq_ok_iff.1 hpush
      rw [hcall] at hnear
      rw [call_eq hcall]
      exact h.add hnear
  | pushAll ps =>
    by_cases hfits : q.fits (wireLengths ps) = true
    · have hcall : q.call (.pushAll ps) = { queue := ps.foldl Queue.add q } := by
        simp only [Queue.call, moveAll_eq, if_pos hfits]
      rw [hcall] at hnear
      rw [call_eq hcall]
      exact h.foldl_add hnear
    · rw [call_eq (o := { queue := q, error := some .queueFull, left := ps })
        (by simp only [Queue.call, if_neg hfits])]
      exact hsame
  | pop port =>
    cases hpop : q.pop port with
    | none =>
      rw [call_eq (o := { queue := q }) (by simp only [Queue.call, hpop])]
      exact hsame
    | some taken =>
      obtain ⟨p, q'⟩ := taken
      obtain ⟨hhead, hothers⟩ := packets_pop hpop
      obtain rfl : p.port = port :=
        h.consistent.filed port p (show p ∈ q.packets port from hhead ▸ List.mem_cons_self)
      rw [call_eq (o := { queue := q', popped := some p }) (by simp only [Queue.call, hpop])]
      exact hsame.take (order_pop hpop) (h.consistent.pop hpop) hhead hothers
  | popNext =>
    cases hpop : q.popNext with
    | none =>
      rw [call_eq (o := { queue := q }) (by simp only [Queue.call, hpop])]
      exact hsame
    | some taken =>
      obtain ⟨p, q'⟩ := taken
      obtain ⟨hhead, hothers⟩ := h.consistent.packets_popNext hpop
      rw [call_eq (o := { queue := q', popped := some p }) (by simp only [Queue.call, hpop])]
      exact hsame.take (order_popNext hpop) (h.consistent.popNext hpop) hhead hothers
  | erasePort port => exact hsame.erasePort port
  | clear => exact hsame.clear

theorem Sorted.stablySorted (h : a.Sorted order) : a.StablySorted order where
  order_eq := h.order_eq
  ascending port base hbase := (Order.ascending_iff hbase).1 (h.ascending port)
  perm port := by
    refine List.perm_iff_count.2 fun p => ?_
    have hstable := congrArg (List.count p) (h.stable port (order.number p))
    rwa [List.count_filter (by simp), List.count_filter (by simp)] at hstable
  stable := h.stable
  pop port := by
    unfold Queue.pop
    split <;> rename_i hp <;> rw [hp] <;> rfl
  popNext p q hp := by
    rw [(h.consistent.packets_popNext hp).1]
    rfl

theorem after_concat (a : Arrivals) (calls : List Call) (c : Call) :
    a.after (calls ++ [c]) = (a.after calls).call c := by
  rw [after, List.foldl_concat, after]

/-- Whatever is called on a queue, it is a stable sort of the packets that wait in it, as long as the
numbers of the packets of each port always lie in some window of half the number space. -/
theorem stablySorted_after (order : Order) (capacity : Nat) (calls : List Call)
    (hnear : ∀ before later, calls = before ++ later →
      ((start order capacity).after before).queue.Comparable) :
    ((start order capacity).after calls).StablySorted order := by
  have hsorted : ((start order capacity).after calls).Sorted order := by
    induction calls using List.reverseRecOn with
    | nil => exact sorted_start order capacity
    | append_singleton calls c ih =>
      have hbefore := ih fun before later he => hnear before (later ++ [c]) (by rw [he]; simp)
      have hcalled := hnear (calls ++ [c]) [] (List.append_nil _).symm
      rw [after_concat] at hcalled ⊢
      exact hbefore.call c hcalled
  exact hsorted.stablySorted

/-- The numbers wrap around while packets come and go, and two packets share a number twice. -/
theorem stablySorted_of_wrapping :
    let packet : UInt16 → UInt8 → Packet := fun seq fragSeq =>
      ⟨{ kind := .datagram, dst := 7, src := 1, seq := seq, fragSeq := fragSeq }, [], 0⟩
    let calls := [.push (packet 65535 0), .push (packet 65534 0),
      .pushAll [packet 0 0, packet 65535 1], .popNext, .push (packet 1 0), .pop 7, .push (packet 0 1)]
    ((start .transmit 60).after calls).StablySorted .transmit ∧
      (((start .transmit 60).after calls).queue.packets 7).map
        (fun p => (p.header.seq, p.header.fragSeq)) = [(65535, 1), (0, 0), (0, 1), (1, 0)] := by
  intro packet calls
  refine ⟨stablySorted_after .transmit 60 calls fun before later he port => ?_, by decide +kernel⟩
  have hwindow : ∀ before ∈ calls.inits, ((start .transmit 60).after before).queue.order = .transmit ∧
      ∀ p ∈ ((start .transmit 60).after before).queue.stored,
        Serial.distance 65534 p.header.seq < Serial.half UInt16 := by
    decide +kernel
  obtain ⟨horder, hnumbers⟩ := hwindow before ((List.mem_inits _ _).2 ⟨later, he.symm⟩)
  rw [horder]
  exact Order.near_iff.2 ⟨(65534 : UInt16), fun p hp => hnumbers p (mem_stored_iff.2 ⟨port, hp⟩)⟩

end Arrivals

end Queue

end NarrowLink
