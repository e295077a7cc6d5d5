import NarrowLink.Proofs.Queue.Accounting

/-!
# Sums over the packets of a queue

`Queue.total` adds up what each packet of a queue counts for, whatever that is, over all ports.  What
`add` puts in and `popNext` takes out counts once.
-/

namespace NarrowLink.Queue

open Wire

/-- What the packets of all ports count for together. -/
def total (f : Packet → Nat) (q : Queue) : Nat := (q.ports.values.map fun ps => (ps.map f).sum).sum

variable {f : Packet → Nat} {q q' : Queue} {p : Packet}

theorem total_of_empty_ports (h : q.ports = .const []) : q.total f = 0 := by
  rw [total, h, ByteMap.values_const, List.map_replicate, List.sum_replicate]
  rfl

@[simp] theorem total_empty (order : Order) (capacity : Nat) : (empty order capacity).total f = 0 :=
  total_of_empty_ports rfl

@[simp] theorem total_clear (q : Queue) : q.clear.2.total f = 0 := total_of_empty_ports rfl

theorem total_add (q : Queue) (p : Packet) : (q.add p).total f = q.total f + f p := by
  have hset := ByteMap.sum_values_set (fun ps => (ps.map f).sum) q.ports p.port
    (q.order.insert p (q.packets p.port))
  have hins := ((q.order.insert_perm p (q.packets p.port)).map f).sum_eq
  rw [List.map_cons, List.sum_cons] at hins
  simp only [total, add, packets] at *
  omega

theorem total_popNext (h : q.popNext = some (p, q')) : q.total f = f p + q'.total f := by
  unfold popNext at h
  split at h
  · cases h
  rename_i port others _
  split at h
  · cases h
  rename_i x rest hx
  cases h
  have hset := ByteMap.sum_values_set (fun ps => (ps.map f).sum) q.ports port rest
  simp only [packets] at hx
  rw [hx, List.map_cons, List.sum_cons] at hset
  simp only [total] at *
  omega

theorem sum_map_le_mul {α : Type} {g h : α → Nat} {n : Nat} (as : List α)
    (hg : ∀ a ∈ as, g a ≤ n * h a) : (as.map g).sum ≤ n * (as.map h).sum := by
  induction as with
  | nil => simp
  | cons a as ih =>
    rw [List.map_cons, List.sum_cons, List.map_cons, List.sum_cons, Nat.mul_add]
    exact Nat.add_le_add (hg a (by simp)) (ih fun b hb => hg b (by simp [hb]))

/-- If no packet counts for more than `n`, packets together count for no more than `n` each. -/
theorem sum_map_le_mul_length {n : Nat} (hf : ∀ p, f p ≤ n) (ps : List Packet) :
    (ps.map f).sum ≤ n * ps.length := by
  have := sum_map_le_mul (h := fun _ => 1) ps (by simpa using fun p _ => hf p)
  simpa using this

theorem total_le {n : Nat} (hf : ∀ p, f p ≤ n) (q : Queue) : q.total f ≤ n * q.length :=
  sum_map_le_mul q.ports.values fun ps _ => sum_map_le_mul_length hf ps

end NarrowLink.Queue
