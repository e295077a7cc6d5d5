import NarrowLink.Queue

/-!
# What the operations of a queue leave in it

The laws of `Queue.pop`, `Queue.push` and `Queue.add` that speak of the packets of a port and of the
fields that no operation changes.
-/

namespace NarrowLink

open Wire

/-- The packets of a port among others. -/
def ofPort (port : UInt8) (ps : List Packet) : List Packet := ps.filter fun p => p.port = port

theorem ofPort_append (port : UInt8) (ps qs : List Packet) :
    ofPort port (ps ++ qs) = ofPort port ps ++ ofPort port qs := List.filter_append _ _

theorem ofPort_singleton (port : UInt8) (p : Packet) :
    ofPort port [p] = if p.port = port then [p] else [] := by
  by_cases h : p.port = port
  · rw [if_pos h]
    exact List.filter_cons_of_pos (decide_eq_true h)
  · rw [if_neg h]
    exact List.filter_cons_of_neg (by simpa using h)

namespace Queue

variable {q q' : Queue} {p : Packet} {port : UInt8}

theorem pop_eq_none_iff : q.pop port = none ↔ q.packets port = [] := by
  unfold pop
  split <;> simp_all

theorem order_pop (h : q.pop port = some (p, q')) : q'.order = q.order := by
  unfold pop at h
  split at h <;> cases h
  rfl

theorem order_popNext (h : q.popNext = some (p, q')) : q'.order = q.order := by
  unfold popNext at h
  split at h
  · cases h
  split at h <;> cases h
  rfl

theorem order_foldl_add (q : Queue) (ps : List Packet) : (ps.foldl add q).order = q.order := by
  induction ps generalizing q with
  | nil => rfl
  | cons p ps ih => exact ih (q.add p)

theorem push_eq_ok_iff : q.push p = .ok q' ↔ q.used + p.wireLength ≤ q.capacity ∧ q' = q.add p := by
  unfold push fits
  simp only [decide_eq_true_eq]
  split
  · rename_i h
    rw [Except.ok.injEq]
    exact ⟨fun e => ⟨h, e.symm⟩, fun e => e.2.symm⟩
  · rename_i h
    constructor
    · intro e
      cases e
    · rintro ⟨hle, -⟩
      exact absurd hle h

theorem push_eq_error {e : Error} (h : q.push p = .error e) : e = .queueFull := by
  unfold push at h
  split at h <;> cases h
  rfl

theorem packets_add_self (q : Queue) (p : Packet) :
    (q.add p).packets p.port = q.order.insert p (q.packets p.port) := by
  rw [packets_add, if_pos rfl]

theorem packets_add_of_ne (q : Queue) {p : Packet} {port : UInt8} (h : p.port ≠ port) :
    (q.add p).packets port = q.packets port := by
  rw [packets_add, if_neg h]

end Queue

end NarrowLink
