import Mathlib.Data.List.Basic
import Mathlib.Data.List.Induction
import NarrowLink.Proofs.Queue.Stored

/-!
# The records of a queue agree

A queue says three things about its packets: which there are for each port, which ports have any, and
how many bytes they take.  Every operation updates the three on its own, and they agree all the same
(`Consistent`).  A `History` follows a queue through calls and keeps apart the packets that were
accepted, taken out and discarded.  Whatever the calls, nothing gets lost, doubled or misfiled, the
capacity is kept, and a call that is refused changes nothing (`balanced_after`).
-/

namespace NarrowLink.Queue

open Wire

/-- What a queue says about the bytes and the ports of its packets is true. -/
structure Consistent (q : Queue) : Prop where
  counted : q.Counted
  nodup : q.ready.Nodup
  mem_ready_iff : ∀ port, port ∈ q.ready ↔ q.packets port ≠ []
  filed : ∀ port, ∀ p ∈ q.packets port, p.port = port

variable {q q' : Queue} {p : Packet} {port : UInt8}

theorem Consistent.used_eq (h : q.Consistent) : q.used = wireLengths q.stored :=
  counted_iff.1 h.counted

theorem Consistent.used_eq_zero (h : q.Consistent) (hnil : q.stored = []) : q.used = 0 := by
  rw [h.used_eq, hnil]
  rfl

/-- Every packet of a port takes its share of the bytes. -/
theorem Consistent.length_packets_le (h : q.Consistent) (port : UInt8) :
    Header.size * (q.packets port).length ≤ q.used :=
  Nat.le_trans (size_mul_length_le _) (h.counted.wireLengths_le port)

theorem consistent_of_empty {order : Order} {capacity : Nat} : (empty order capacity).Consistent where
  counted := counted_empty order capacity
  nodup := List.nodup_nil
  mem_ready_iff port := by
    rw [packets_empty]
    exact ⟨fun h => absurd h List.not_mem_nil, fun h => absurd rfl h⟩
  filed port p hp := by
    rw [packets_empty] at hp
    exact absurd hp List.not_mem_nil

/-! ## What goes in -/

theorem Consistent.add (h : q.Consistent) (p : Packet) : (q.add p).Consistent where
  counted := h.counted.add p
  nodup := by
    show (if (q.packets p.port).isEmpty then q.ready ++ [p.port] else q.ready).Nodup
    split
    · rename_i hnil
      have hnot : p.port ∉ q.ready := fun hm =>
        (h.mem_ready_iff p.port).1 hm (List.isEmpty_iff.1 hnil)
      refine List.nodup_append.2 ⟨h.nodup, by simp, fun a ha b hb e => ?_⟩
      rw [List.mem_singleton.1 hb] at e
      exact hnot (e ▸ ha)
    · exact h.nodup
  mem_ready_iff port := by
    have hne : (q.add p).packets p.port ≠ [] := by
      rw [packets_add_self]
      exact List.ne_nil_of_mem ((Order.mem_insert _ _).2 (.inl rfl))
    have hmem := h.mem_ready_iff port
    show port ∈ (if (q.packets p.port).isEmpty then q.ready ++ [p.port] else q.ready) ↔ _
    by_cases hport : port = p.port
    · subst hport
      refine iff_of_true ?_ hne
      split
      · simp
      · rename_i hnil
        exact hmem.2 fun e => hnil (List.isEmpty_iff.2 e)
    · rw [packets_add_of_ne q (Ne.symm hport), ← hmem]
      split
      · simp [hport]
      · exact .rfl
  filed port x hx := by
    rw [packets_add] at hx
    split at hx
    · rename_i hport
      rcases (Order.mem_insert _ _).1 hx with rfl | hx
      · exact hport
      · exact h.filed port x hx
    · exact h.filed port x hx

theorem used_foldl_add (q : Queue) (ps : List Packet) :
    (ps.foldl Queue.add q).used = q.used + wireLengths ps := by
  induction ps generalizing q with
  | nil => rfl
  | cons p ps ih =>
    rw [List.foldl_cons, ih, wireLengths_cons, ← Nat.add_assoc]
    rfl

theorem capacity_foldl_add (q : Queue) (ps : List Packet) :
    (ps.foldl Queue.add q).capacity = q.capacity := by
  induction ps generalizing q with
  | nil => rfl
  | cons p ps ih => exact ih (q.add p)

theorem Consistent.foldl_add (h : q.Consistent) (ps : List Packet) :
    (ps.foldl Queue.add q).Consistent := by
  induction ps generalizing q with
  | nil => exact h
  | cons p ps ih => exact ih (h.add p)

/-! ## What goes out -/

/-- Taking the first packets of a port keeps a queue consistent, if the port leaves the line exactly
when it has no packets left. -/
theorem Consistent.cut (h : q.Consistent) {front rest : List Packet}
    (hp : q.packets port = front ++ rest) (hports : q'.ports = q.ports.set port rest)
    (hused : q'.used = q.used - wireLengths front) (hnodup : q'.ready.Nodup)
    (hready : ∀ r, r ∈ q'.ready ↔ r ∈ q.ready ∧ (r = port → rest ≠ [])) : q'.Consistent where
  counted := by
    have hlen := wireLengths_perm (stored_of_ports_set hp hports)
    rw [wireLengths_append, ← h.used_eq] at hlen
    rw [counted_iff]
    omega
  nodup := hnodup
  mem_ready_iff r := by
    rw [hready, h.mem_ready_iff, packets, packets, hports, ByteMap.get_set]
    by_cases hr : port = r
    · subst hr
      rw [if_pos rfl, show q.ports.get port = front ++ rest from hp]
      exact ⟨fun hne => hne.2 rfl, fun hne => ⟨fun e => hne (List.append_eq_nil_iff.1 e).2, fun _ => hne⟩⟩
    · rw [if_neg hr]
      exact ⟨fun hne => hne.1, fun hne => ⟨hne, fun e => absurd e.symm hr⟩⟩
  filed r x hx := by
    rw [packets, hports, ByteMap.get_set] at hx
    split at hx
    · rename_i hr
      subst hr
      exact h.filed port x (hp ▸ List.mem_append_right _ hx)
    · exact h.filed r x hx

theorem Consistent.pop (h : q.Consistent) (hp : q.pop port = some (p, q')) : q'.Consistent := by
  unfold Queue.pop at hp
  split at hp
  · cases hp
  rename_i x rest hx
  cases hp
  have hfront : q.packets port = [p] ++ rest := hx
  refine h.cut hfront rfl rfl ?_ fun r => ?_
  · show (if rest.isEmpty then q.ready.filter (· != port) else q.ready).Nodup
    split
    · exact h.nodup.filter _
    · exact h.nodup
  · show r ∈ (if rest.isEmpty then q.ready.filter (· != port) else q.ready) ↔ _
    cases rest <;> simp

theorem Consistent.popNext (h : q.Consistent) (hp : q.popNext = some (p, q')) : q'.Consistent := by
  unfold Queue.popNext at hp
  split at hp
  · cases hp
  rename_i port others hready
  split at hp
  · cases hp
  rename_i x rest hx
  cases hp
  have hnodup := h.nodup
  rw [hready, List.nodup_cons] at hnodup
  have hfront : q.packets port = [p] ++ rest := hx
  refine h.cut hfront rfl rfl ?_ fun r => ?_
  · show (if rest.isEmpty then others else others ++ [port]).Nodup
    split
    · exact hnodup.2
    · refine List.nodup_append.2 ⟨hnodup.2, by simp, fun a ha b hb e => ?_⟩
      rw [List.mem_singleton.1 hb] at e
      exact hnodup.1 (e ▸ ha)
  · show r ∈ (if rest.isEmpty then others else others ++ [port]) ↔ _
    rw [hready]
    have hother : r ∈ others → r ≠ port := fun hm e => hnodup.1 (e ▸ hm)
    cases rest with
    | nil =>
      simp only [List.isEmpty_nil, if_true, List.mem_cons, ne_eq, not_true_eq_false, imp_false]
      exact ⟨fun hm => ⟨.inr hm, hother hm⟩, fun hm => hm.1.resolve_left hm.2⟩
    | cons y ys => simp [or_comm]

/-- Nothing is served next only if there is nothing. -/
theorem Consistent.popNext_eq_none_iff (h : q.Consistent) : q.popNext = none ↔ q.stored = [] := by
  rw [stored_eq_nil_iff]
  unfold Queue.popNext
  split
  · rename_i hready
    refine iff_of_true rfl fun port => ?_
    by_contra hne
    have := (h.mem_ready_iff port).2 hne
    rw [hready] at this
    exact List.not_mem_nil this
  · rename_i port others hready
    have hne := (h.mem_ready_iff port).1 (hready ▸ List.mem_cons_self)
    split
    · rename_i hnil
      exact absurd hnil hne
    · exact iff_of_false (by simp) fun hall => hne (hall port)

theorem Consistent.erasePort (h : q.Consistent) (port : UInt8) :
    (q.erasePort port).2.Consistent := by
  refine h.cut (List.append_nil _).symm rfl rfl (h.nodup.filter _) fun r => ?_
  show r ∈ q.ready.filter (· != port) ↔ _
  simp

theorem consistent_clear (q : Queue) : q.clear.2.Consistent where
  counted := by
    rw [counted_iff, stored_clear]
    rfl
  nodup := List.nodup_nil
  mem_ready_iff port := by
    show port ∈ [] ↔ (ByteMap.const []).get port ≠ []
    simp
  filed port x hx := by
    rw [packets, Queue.clear, ByteMap.get_const] at hx
    exact absurd hx List.not_mem_nil

theorem used_popNext_le (hp : q.popNext = some (p, q')) : q'.used ≤ q.used := by
  unfold Queue.popNext at hp
  split at hp
  · cases hp
  split at hp <;> cases hp
  exact Nat.sub_le _ _

theorem capacity_popNext (hp : q.popNext = some (p, q')) : q'.capacity = q.capacity := by
  unfold Queue.popNext at hp
  split at hp
  · cases hp
  split at hp <;> cases hp
  rfl

/-- The packet that is served next is the first one of its port. -/
theorem Consistent.packets_popNext (hq : q.Consistent) (h : q.popNext = some (p, q')) :
    q.packets p.port = p :: q'.packets p.port ∧
      ∀ port, port ≠ p.port → q'.packets port = q.packets port := by
  unfold Queue.popNext at h
  split at h
  · cases h
  rename_i port others _
  split at h
  · cases h
  rename_i x rest hx
  cases h
  have hport : p.port = port := hq.filed port p (by rw [hx]; exact List.mem_cons_self)
  subst hport
  exact ⟨by simp [packets, show q.ports.get p.port = p :: rest from hx],
    fun r hr => ByteMap.get_set_of_ne _ _ (Ne.symm hr)⟩

/-! ## Calls -/

/-- A call on a queue. -/
inductive Call where
  | push (p : Packet)
  | pushAll (ps : List Packet)
  | pop (port : UInt8)
  | popNext
  | erasePort (port : UInt8)
  | clear

/-- The packets that the caller wants to queue. -/
def Call.offered : Call → List Packet
  | .push p => [p]
  | .pushAll ps => ps
  | _ => []

/-- What comes of a call. -/
structure Outcome where
  queue : Queue
  /-- The reason for which the call is refused. -/
  error : Option Error := none
  /-- What is left of the caller's list of packets. -/
  left : List Packet := []
  /-- The packet that is taken out. -/
  popped : Option Packet := none
  /-- The number of packets that are said to be discarded. -/
  count : Nat := 0

/-- Moves packets from the front of a list into a queue until the list is empty. -/
def moveAll : Queue → List Packet → Queue × List Packet
  | q, [] => (q, [])
  | q, p :: ps => (q.add p).moveAll ps

/-- Calls an operation. -/
def call (q : Queue) : Call → Outcome
  | .push p =>
    match q.push p with
    | .ok q' => { queue := q' }
    | .error e => { queue := q, error := some e }
  | .pushAll ps =>
    if q.fits (wireLengths ps) then { queue := (q.moveAll ps).1, left := (q.moveAll ps).2 }
    else { queue := q, error := some .queueFull, left := ps }
  | .pop port =>
    match q.pop port with
    | some (p, q') => { queue := q', popped := some p }
    | none => { queue := q }
  | .popNext =>
    match q.popNext with
    | some (p, q') => { queue := q', popped := some p }
    | none => { queue := q }
  | .erasePort port => { queue := (q.erasePort port).2, count := (q.erasePort port).1 }
  | .clear => { queue := q.clear.2, count := q.clear.1 }

/-- The packets that a call discards. -/
def discards (q : Queue) : Call → List Packet
  | .erasePort port => q.packets port
  | .clear => q.stored
  | _ => []

theorem moveAll_eq (q : Queue) (ps : List Packet) : q.moveAll ps = (ps.foldl Queue.add q, []) := by
  induction ps generalizing q with
  | nil => rfl
  | cons p ps ih => exact ih (q.add p)

/-- Moving packets one by one is what `pushAll` does when there is room for all of them. -/
theorem call_pushAll (q : Queue) (ps : List Packet) :
    q.call (.pushAll ps) =
      match q.pushAll ps with
      | .ok q' => { queue := q' }
      | .error e => { queue := q, error := some e, left := ps } := by
  rw [call, moveAll_eq, Queue.pushAll]
  split <;> rfl

/-- What can come of a call. -/
inductive Called (q : Queue) : Call → Outcome → Prop
  | push {p : Packet} (hfits : q.used + p.wireLength ≤ q.capacity) :
      Called q (.push p) { queue := q.add p }
  | pushAll {ps : List Packet} (hfits : q.used + wireLengths ps ≤ q.capacity) :
      Called q (.pushAll ps) { queue := ps.foldl Queue.add q }
  | refused {c : Call} {left : List Packet} (hfull : q.capacity < q.used + wireLengths c.offered)
      (hd : q.discards c = []) (hleft : ∀ ps, c = .pushAll ps → left = ps) :
      Called q c { queue := q, error := some .queueFull, left := left }
  | pop {port : UInt8} {p : Packet} {q' : Queue} (h : q.pop port = some (p, q')) :
      Called q (.pop port) { queue := q', popped := some p }
  | popNext {p : Packet} {q' : Queue} (h : q.popNext = some (p, q')) :
      Called q .popNext { queue := q', popped := some p }
  | nothing {c : Call} (ho : c.offered = []) (hd : q.discards c = []) : Called q c { queue := q }
  | erasePort (port : UInt8) :
      Called q (.erasePort port) { queue := (q.erasePort port).2, count := (q.erasePort port).1 }
  | clear : Called q .clear { queue := q.clear.2, count := q.clear.1 }

theorem called (q : Queue) (c : Call) : q.Called c (q.call c) := by
  cases c with
  | push p =>
    simp only [call]
    split
    · rename_i q' hpush
      obtain ⟨hfits, rfl⟩ := push_eq_ok_iff.1 hpush
      exact .push hfits
    · rename_i e hpush
      obtain rfl := push_eq_error hpush
      refine .refused (Nat.lt_of_not_le fun hfits => ?_) rfl nofun
      have hok : q.push p = .ok (q.add p) := push_eq_ok_iff.2 ⟨hfits, rfl⟩
      rw [hok] at hpush
      cases hpush
  | pushAll ps =>
    simp only [call, moveAll_eq, fits, decide_eq_true_eq]
    split
    · rename_i hfits
      exact .pushAll hfits
    · rename_i hfull
      exact .refused (Nat.lt_of_not_le hfull) rfl fun _ hc => Call.pushAll.inj hc
  | pop port =>
    simp only [call]
    split
    · rename_i p q' hp
      exact .pop hp
    · exact .nothing rfl rfl
  | popNext =>
    simp only [call]
    split
    · rename_i p q' hp
      exact .popNext hp
    · exact .nothing rfl rfl
  | erasePort port => exact .erasePort port
  | clear => exact .clear

variable {c : Call} {o : Outcome}

theorem Called.consistent (ho : q.Called c o) (h : q.Consistent) : o.queue.Consistent := by
  cases ho with
  | push => exact h.add _
  | pushAll => exact h.foldl_add _
  | refused => exact h
  | pop hp => exact h.pop hp
  | popNext hp => exact h.popNext hp
  | nothing => exact h
  | erasePort port => exact h.erasePort port
  | clear => exact consistent_clear q

/-- No call exceeds the capacity, which stays what it is. -/
theorem Called.used_le (ho : q.Called c o) (hle : q.used ≤ q.capacity) :
    o.queue.capacity = q.capacity ∧ o.queue.used ≤ q.capacity := by
  cases ho with
  | push hfits => exact ⟨rfl, hfits⟩
  | @pushAll ps hfits =>
    refine ⟨capacity_foldl_add q ps, ?_⟩
    show (ps.foldl Queue.add q).used ≤ q.capacity
    rw [used_foldl_add]
    exact hfits
  | refused => exact ⟨rfl, hle⟩
  | pop hp => exact ⟨capacity_pop hp, Nat.le_trans (used_pop_le hp) hle⟩
  | popNext hp => exact ⟨capacity_popNext hp, Nat.le_trans (used_popNext_le hp) hle⟩
  | nothing => exact ⟨rfl, hle⟩
  | erasePort port => exact ⟨rfl, Nat.le_trans (Nat.sub_le _ _) hle⟩
  | clear => exact ⟨rfl, Nat.zero_le _⟩

/-- What a call takes over and what was there is what is there afterwards, what is taken out and what
is discarded. -/
theorem Called.stored (ho : q.Called c o) :
    ((if o.error = none then c.offered else []) ++ q.stored).Perm
      (o.queue.stored ++ (o.popped.toList ++ q.discards c)) := by
  cases ho with
  | push =>
    refine (q.stored_add _).symm.trans (.of_eq ?_)
    exact (List.append_nil _).symm
  | @pushAll ps =>
    refine (q.stored_foldl_add ps).symm.trans (.of_eq ?_)
    exact (List.append_nil _).symm
  | refused _ hd =>
    rw [hd]
    exact .of_eq (List.append_nil _).symm
  | pop hp => exact (stored_pop hp).trans (List.perm_append_singleton _ _).symm
  | popNext hp => exact (stored_popNext hp).trans (List.perm_append_singleton _ _).symm
  | nothing hoffered hd =>
    rw [hoffered, hd]
    exact .of_eq (List.append_nil _).symm
  | erasePort port => exact (q.stored_erasePort port).trans List.perm_append_comm
  | clear =>
    show q.stored.Perm (q.clear.2.stored ++ q.stored)
    rw [stored_clear, List.nil_append]

/-- The number of discarded packets is told truthfully. -/
theorem Called.count_eq (ho : q.Called c o) : o.count = (q.discards c).length := by
  cases ho with
  | push => rfl
  | pushAll => rfl
  | refused _ hd => rw [hd]; rfl
  | pop => rfl
  | popNext => rfl
  | nothing _ hd => rw [hd]; rfl
  | erasePort port => rfl
  | clear => exact q.length_stored.symm

/-- A refused call finds no room for the packets, and leaves the queue and the caller's list as they
are. -/
theorem Called.refused_eq {e : Error} (ho : q.Called c o) (he : o.error = some e) :
    e = .queueFull ∧ q.capacity < q.used + wireLengths c.offered ∧ o.queue = q ∧
      ∀ ps, c = .pushAll ps → o.left = ps := by
  cases ho with
  | refused hfull _ hleft =>
    cases he
    exact ⟨rfl, hfull, rfl, hleft⟩
  | _ => cases he

/-- A call that is not refused leaves nothing in the caller's list. -/
theorem Called.left_eq_nil (ho : q.Called c o) (he : o.error = none) : o.left = [] := by
  cases ho with
  | refused => cases he
  | _ => rfl

/-! ## Histories -/

/-- A queue, and what has become of the packets that came in. -/
structure History where
  queue : Queue
  accepted : List Packet
  popped : List Packet
  discarded : List Packet
  /-- The sum of the numbers of packets that were said to be discarded. -/
  told : Nat

namespace History

/-- The history of an empty queue. -/
def start (order : Order) (capacity : Nat) : History := ⟨.empty order capacity, [], [], [], 0⟩

/-- One more call. -/
def call (h : History) (c : Call) : History where
  queue := (h.queue.call c).queue
  accepted := h.accepted ++ if (h.queue.call c).error = none then c.offered else []
  popped := h.popped ++ (h.queue.call c).popped.toList
  discarded := h.discarded ++ h.queue.discards c
  told := h.told + (h.queue.call c).count

/-- More calls, one after the other. -/
def after (h : History) (calls : List Call) : History := calls.foldl call h

/-- The queue is consistent and within its capacity, every packet that was accepted is accounted for
once, and what can be called next is answered truthfully. -/
structure Balanced (capacity : Nat) (h : History) : Prop where
  used_eq : h.queue.used = wireLengths h.queue.stored
  used_le : h.queue.used ≤ capacity
  capacity_eq : h.queue.capacity = capacity
  ready_nodup : h.queue.ready.Nodup
  mem_ready_iff : ∀ port, port ∈ h.queue.ready ↔ h.queue.packets port ≠ []
  popNext_eq_none_iff : h.queue.popNext = none ↔ h.queue.stored = []
  filed : ∀ port, ∀ p ∈ h.queue.packets port, p.port = port
  port_of_pop : ∀ port p q, h.queue.pop port = some (p, q) → p.port = port
  accounted : h.accepted.Perm (h.queue.stored ++ (h.popped ++ h.discarded))
  told_eq : h.told = h.discarded.length
  refused : ∀ c e, (h.queue.call c).error = some e →
    e = .queueFull ∧ capacity < h.queue.used + wireLengths c.offered ∧
      (h.queue.call c).queue = h.queue ∧ ∀ ps, c = .pushAll ps → (h.queue.call c).left = ps
  taken : ∀ c, (h.queue.call c).error = none → (h.queue.call c).left = []

/-- The books of a history with a consistent queue that keeps its capacity. -/
structure Kept (capacity : Nat) (h : History) : Prop where
  consistent : h.queue.Consistent
  used_le : h.queue.used ≤ h.queue.capacity
  capacity_eq : h.queue.capacity = capacity
  accounted : h.accepted.Perm (h.queue.stored ++ (h.popped ++ h.discarded))
  told_eq : h.told = h.discarded.length

variable {capacity : Nat} {h : History}

theorem kept_start (order : Order) (capacity : Nat) : (start order capacity).Kept capacity where
  consistent := consistent_of_empty
  used_le := Nat.zero_le _
  capacity_eq := rfl
  accounted := by
    show [].Perm ((Queue.empty order capacity).stored ++ [])
    rw [stored_empty]
    exact .refl _
  told_eq := rfl

theorem Kept.call (hk : h.Kept capacity) (c : Call) : (h.call c).Kept capacity where
  consistent := (called h.queue c).consistent hk.consistent
  used_le := by
    obtain ⟨hcapacity, hused⟩ := (called h.queue c).used_le hk.used_le
    exact hcapacity ▸ hused
  capacity_eq := ((called h.queue c).used_le hk.used_le).1.trans hk.capacity_eq
  accounted := by
    show (h.accepted ++ if (h.queue.call c).error = none then c.offered else []).Perm
      ((h.queue.call c).queue.stored ++
        ((h.popped ++ (h.queue.call c).popped.toList) ++ (h.discarded ++ h.queue.discards c)))
    exact (perm_turnover hk.accounted (called h.queue c).stored).trans
      (.append_left _ (perm_append_append _ _ _ _))
  told_eq := by
    show h.told + (h.queue.call c).count = (h.discarded ++ h.queue.discards c).length
    rw [List.length_append, ← hk.told_eq, (called h.queue c).count_eq]

theorem Kept.after (hk : h.Kept capacity) (calls : List Call) : (h.after calls).Kept capacity := by
  induction calls using List.reverseRecOn with
  | nil => exact hk
  | append_singleton calls c ih =>
    rw [History.after, List.foldl_concat]
    exact ih.call c

theorem Kept.balanced (hk : h.Kept capacity) : h.Balanced capacity where
  used_eq := hk.consistent.used_eq
  used_le := hk.capacity_eq ▸ hk.used_le
  capacity_eq := hk.capacity_eq
  ready_nodup := hk.consistent.nodup
  mem_ready_iff := hk.consistent.mem_ready_iff
  popNext_eq_none_iff := hk.consistent.popNext_eq_none_iff
  filed := hk.consistent.filed
  port_of_pop port p q hp := by
    obtain ⟨hpackets, -⟩ := packets_pop hp
    exact hk.consistent.filed port p (hpackets ▸ List.mem_cons_self)
  accounted := hk.accounted
  told_eq := hk.told_eq
  refused c e he := hk.capacity_eq ▸ (called h.queue c).refused_eq he
  taken c he := (called h.queue c).left_eq_nil he

/-- Whatever is called on a queue that was empty, its records agree and no packet is lost, doubled or
moved to another port. -/
theorem balanced_after (order : Order) (capacity : Nat) (calls : List Call) :
    ((start order capacity).after calls).Balanced capacity :=
  ((kept_start order capacity).after calls).balanced

end History

end NarrowLink.Queue
