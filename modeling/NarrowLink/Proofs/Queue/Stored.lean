import NarrowLink.Proofs.Queue.Accounting

/-!
# All packets of a queue

`Queue.stored` lists the packets of all ports.  Its order means nothing, so the laws of the operations
are permutations: what `add` puts in is one packet more, and what is taken out or discarded is what is
missing afterwards.
-/

namespace NarrowLink

open Wire

/-- The second and the third of four lists change places. -/
theorem perm_append_append {α : Type} (as bs cs ds : List α) :
    ((as ++ bs) ++ (cs ++ ds)).Perm ((as ++ cs) ++ (bs ++ ds)) := by
  simp only [List.append_assoc]
  refine .append_left as ?_
  rw [← List.append_assoc, ← List.append_assoc]
  exact .append_right ds List.perm_append_comm

/-- If everything that came in is in stock or went out, and so it is with what comes in next, then it
stays so. -/
theorem perm_turnover {α : Type} {came stock gone more stock' gone' : List α}
    (h : came.Perm (stock ++ gone)) (hmore : (more ++ stock).Perm (stock' ++ gone')) :
    (came ++ more).Perm (stock' ++ (gone ++ gone')) := by
  refine (h.append_right more).trans (List.perm_append_comm.trans ?_)
  rw [← List.append_assoc]
  refine (hmore.append_right gone).trans ?_
  rw [List.append_assoc]
  exact .append_left stock' List.perm_append_comm

namespace ByteMap

/-- Replacing one list of a table replaces its elements among those of all lists. -/
theorem flatten_values_set_perm {α : Type} (m : ByteMap (List α)) (b : UInt8) (as : List α) :
    ((m.set b as).values.flatten ++ m.get b).Perm (m.values.flatten ++ as) := by
  rw [values_set, List.set_eq_take_append_cons_drop, if_pos (m.toNat_lt_length_values b)]
  conv_rhs => rw [m.values_eq b]
  simp only [List.flatten_append, List.flatten_cons, List.append_assoc]
  refine .append_left _ ?_
  -- the old and the new entry change places around the entries behind them
  refine .trans (.append_left as List.perm_append_comm) ?_
  refine .trans List.perm_append_comm ?_
  simp only [List.append_assoc]
  exact .refl _

end ByteMap

namespace Queue

/-- The packets of all ports. -/
def stored (q : Queue) : List Packet := q.ports.values.flatten

variable {q q' : Queue} {p : Packet} {port : UInt8}

theorem stored_empty (order : Order) (capacity : Nat) : (empty order capacity).stored = [] := by
  rw [stored, empty, ByteMap.values_const]
  exact List.flatten_replicate_nil

theorem stored_clear (q : Queue) : q.clear.2.stored = [] := by
  rw [stored, clear, ByteMap.values_const]
  exact List.flatten_replicate_nil

theorem length_stored (q : Queue) : q.stored.length = q.length := List.length_flatten

theorem mem_stored_iff : p ∈ q.stored ↔ ∃ port, p ∈ q.packets port := by
  rw [stored, List.mem_flatten]
  constructor
  · rintro ⟨ps, hps, hp⟩
    obtain ⟨port, rfl⟩ := ByteMap.exists_get_of_mem_values hps
    exact ⟨port, hp⟩
  · rintro ⟨port, hp⟩
    refine ⟨q.ports.get port, ?_, hp⟩
    rw [q.ports.values_eq port]
    exact List.mem_append_right _ List.mem_cons_self

theorem stored_eq_nil_iff : q.stored = [] ↔ ∀ port, q.packets port = [] := by
  constructor
  · intro h port
    refine List.eq_nil_iff_forall_not_mem.2 fun p hp => ?_
    exact List.eq_nil_iff_forall_not_mem.1 h p (mem_stored_iff.2 ⟨port, hp⟩)
  · intro h
    refine List.eq_nil_iff_forall_not_mem.2 fun p hp => ?_
    obtain ⟨port, hport⟩ := mem_stored_iff.1 hp
    exact List.eq_nil_iff_forall_not_mem.1 (h port) p hport

theorem stored_ne_nil {ps : List Packet} (h : q.stored.Perm (p :: ps)) : q.stored ≠ [] :=
  fun hnil => List.cons_ne_nil p ps (hnil ▸ h).nil_eq.symm

theorem counted_iff : q.Counted ↔ q.used = wireLengths q.stored := by
  have hsum : ∀ pss : List (List Packet), wireLengths pss.flatten = (pss.map wireLengths).sum := by
    intro pss
    induction pss with
    | nil => rfl
    | cons ps pss ih =>
      rw [List.flatten_cons, wireLengths_append, List.map_cons, List.sum_cons, ih]
  rw [Counted, stored, hsum]

/-! ## What goes in -/

theorem stored_add (q : Queue) (p : Packet) : (q.add p).stored.Perm (p :: q.stored) := by
  have hset := q.ports.flatten_values_set_perm p.port (q.order.insert p (q.packets p.port))
  have hins := (q.order.insert_perm p (q.packets p.port)).append_left q.ports.values.flatten
  exact (List.perm_append_right_iff (q.packets p.port)).1 (hset.trans (hins.trans List.perm_middle))

theorem stored_foldl_add (q : Queue) (ps : List Packet) :
    (ps.foldl add q).stored.Perm (ps ++ q.stored) := by
  induction ps generalizing q with
  | nil => exact .refl _
  | cons p ps ih =>
    exact (ih (q.add p)).trans (((q.stored_add p).append_left ps).trans List.perm_middle)

/-! ## What goes out -/

/-- A queue without the first packets of a port. -/
theorem stored_of_ports_set {front rest : List Packet} (hp : q.packets port = front ++ rest)
    (hq : q'.ports = q.ports.set port rest) : q.stored.Perm (front ++ q'.stored) := by
  have hset := q.ports.flatten_values_set_perm port rest
  rw [show q.ports.get port = front ++ rest from hp, ← hq, ← List.append_assoc] at hset
  exact ((List.perm_append_right_iff rest).1 hset).symm.trans List.perm_append_comm

theorem stored_pop (h : q.pop port = some (p, q')) : q.stored.Perm (p :: q'.stored) := by
  unfold pop at h
  split at h
  · cases h
  rename_i x rest hx
  cases h
  have hfront : _ = [p] ++ rest := hx
  exact stored_of_ports_set hfront rfl

theorem stored_popNext (h : q.popNext = some (p, q')) : q.stored.Perm (p :: q'.stored) := by
  unfold popNext at h
  split at h
  · cases h
  split at h
  · cases h
  rename_i x rest hx
  cases h
  have hfront : _ = [p] ++ rest := hx
  exact stored_of_ports_set hfront rfl

theorem stored_erasePort (q : Queue) (port : UInt8) :
    q.stored.Perm (q.packets port ++ (q.erasePort port).2.stored) :=
  stored_of_ports_set (List.append_nil _).symm rfl

end Queue

end NarrowLink
