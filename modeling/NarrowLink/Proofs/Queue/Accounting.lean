import Mathlib.Algebra.BigOperators.Group.List.Basic
import Mathlib.Algebra.GroupWithZero.Nat
import NarrowLink.Proofs.Queue.Contents
import NarrowLink.Proofs.Queue.Insertion

/-!
# The bytes of a queue

`used` counts the bytes that the packets of all ports take on the wire (`Queue.Counted`), so no port
can hold more than the queue says that it holds (`Counted.wireLengths_le`).
-/

namespace NarrowLink

open Wire

namespace ByteMap

variable {α : Type}

theorem length_values (m : ByteMap α) : m.values.length = 256 := by simp [values]

theorem values_const (a : α) : (const a).values = List.replicate 256 a := Vector.toList_replicate

theorem values_set (m : ByteMap α) (b : UInt8) (a : α) :
    (m.set b a).values = m.values.set b.toNat a := Vector.toList_set b.toNat_lt

theorem toNat_lt_length_values (m : ByteMap α) (b : UInt8) : b.toNat < m.values.length := by
  rw [length_values]
  exact b.toNat_lt

/-- The entry of a byte stands between those of smaller and greater bytes. -/
theorem values_eq (m : ByteMap α) (b : UInt8) :
    m.values = m.values.take b.toNat ++ m.get b :: m.values.drop (b.toNat + 1) := by
  have hb := m.toNat_lt_length_values b
  have hget : m.values[b.toNat] = m.get b := by simp [values, get]
  rw [← hget, List.getElem_cons_drop, List.take_append_drop]

theorem exists_get_of_mem_values {m : ByteMap α} {a : α} (h : a ∈ m.values) : ∃ b, m.get b = a := by
  obtain ⟨i, hi, ha⟩ := List.mem_iff_getElem.1 h
  rw [length_values] at hi
  refine ⟨UInt8.ofNat i, ?_⟩
  simpa [get, values, UInt8.toNat_ofNat, Nat.mod_eq_of_lt hi] using ha

theorem any_values_iff {m : ByteMap Bool} : m.values.any id = true ↔ ∃ b, m.get b = true := by
  rw [List.any_eq_true]
  constructor
  · rintro ⟨a, ha, htrue⟩
    obtain ⟨b, rfl⟩ := exists_get_of_mem_values ha
    exact ⟨b, htrue⟩
  · rintro ⟨b, hb⟩
    refine ⟨m.get b, ?_, hb⟩
    rw [m.values_eq b]
    simp

/-- What holds of all bytes can be read off the list of all values. -/
theorem forall_get_iff (m : ByteMap Bool) (P : UInt8 → Prop) :
    (∀ b, m.get b = true → P b) ↔
      ∀ entry ∈ m.values.zipIdx, entry.1 = true → P (UInt8.ofNat entry.2) := by
  have hget : ∀ b : UInt8, m.values[b.toNat]? = some (m.get b) := by
    intro b
    simp [values, get]
  constructor
  · rintro h ⟨a, i⟩ hentry ha
    have hi := List.mem_zipIdx_iff_getElem?.1 hentry
    have hlt := (List.getElem?_eq_some_iff.1 hi).1
    rw [length_values] at hlt
    have hnat : (UInt8.ofNat i).toNat = i := by
      rw [UInt8.toNat_ofNat']
      exact Nat.mod_eq_of_lt hlt
    refine h _ ?_
    have := hget (UInt8.ofNat i)
    rw [hnat, hi] at this
    rw [← ha]
    exact (Option.some.inj this).symm
  · intro h b hb
    have := h (m.get b, b.toNat) (List.mem_zipIdx_iff_getElem?.2 (hget b)) hb
    rwa [UInt8.ofNat_toNat] at this

/-- Replacing one entry replaces its share of a sum over all entries. -/
theorem sum_values_set (f : α → Nat) (m : ByteMap α) (b : UInt8) (a : α) :
    ((m.set b a).values.map f).sum + f (m.get b) = (m.values.map f).sum + f a := by
  rw [values_set, List.set_eq_take_append_cons_drop, if_pos (m.toNat_lt_length_values b)]
  conv_rhs => rw [m.values_eq b]
  simp only [List.map_append, List.map_cons, List.sum_append, List.sum_cons]
  omega

theorem le_sum_values (f : α → Nat) (m : ByteMap α) (b : UInt8) :
    f (m.get b) ≤ (m.values.map f).sum := by
  rw [m.values_eq b]
  simp only [List.map_append, List.map_cons, List.sum_append, List.sum_cons]
  omega

end ByteMap

theorem wireLengths_append (ps qs : List Packet) :
    wireLengths (ps ++ qs) = wireLengths ps + wireLengths qs := by
  induction ps with
  | nil => simp
  | cons p ps ih => simp only [List.cons_append, wireLengths_cons, ih, Nat.add_assoc]

theorem wireLengths_perm {ps qs : List Packet} (h : ps.Perm qs) : wireLengths ps = wireLengths qs :=
  (h.map _).sum_eq

/-- A packet without payload takes its header. -/
theorem wireLength_of_nil {p : Packet} (h : p.payload = []) : p.wireLength = Header.size := by
  rw [Packet.wireLength, h]
  rfl

/-- Every packet takes at least its header. -/
theorem size_mul_length_le (ps : List Packet) : Header.size * ps.length ≤ wireLengths ps := by
  induction ps with
  | nil => simp
  | cons p ps ih =>
    rw [wireLengths_cons, List.length_cons, Nat.mul_succ, Packet.wireLength]
    omega

namespace Queue

/-- `used` counts the bytes of the packets of all ports. -/
def Counted (q : Queue) : Prop := q.used = (q.ports.values.map wireLengths).sum

variable {q q' : Queue} {p : Packet} {port : UInt8}

theorem counted_empty (order : Order) (capacity : Nat) : (empty order capacity).Counted := by
  unfold Counted empty
  rw [ByteMap.values_const, List.map_replicate, List.sum_replicate]
  rfl

theorem Counted.wireLengths_le (h : q.Counted) (port : UInt8) :
    wireLengths (q.packets port) ≤ q.used := by
  rw [h]
  exact ByteMap.le_sum_values wireLengths q.ports port

theorem Counted.add (h : q.Counted) (p : Packet) : (q.add p).Counted := by
  have hs := ByteMap.sum_values_set wireLengths q.ports p.port
    (q.order.insert p (q.packets p.port))
  have hi := wireLengths_perm (q.order.insert_perm p (q.packets p.port))
  rw [wireLengths_cons] at hi
  unfold Counted at *
  simp only [Queue.add, packets] at *
  omega

theorem Counted.pop (h : q.Counted) (hp : q.pop port = some (p, q')) : q'.Counted := by
  unfold Queue.pop at hp
  split at hp
  · cases hp
  rename_i x rest hx
  cases hp
  have hs := ByteMap.sum_values_set wireLengths q.ports port rest
  unfold Counted at *
  simp only [packets] at hx
  rw [hx, wireLengths_cons] at hs
  simp only
  omega

theorem length_pop (hp : q.pop port = some (p, q')) : q.length = q'.length + 1 := by
  unfold Queue.pop at hp
  split at hp
  · cases hp
  rename_i x rest hx
  cases hp
  have hs := ByteMap.sum_values_set List.length q.ports port rest
  simp only [packets] at hx
  rw [hx, List.length_cons] at hs
  show (q.ports.values.map List.length).sum = ((q.ports.set port rest).values.map List.length).sum + 1
  omega

theorem used_pop_le (hp : q.pop port = some (p, q')) : q'.used ≤ q.used := by
  unfold Queue.pop at hp
  split at hp <;> cases hp
  exact Nat.sub_le _ _

theorem capacity_pop (hp : q.pop port = some (p, q')) : q'.capacity = q.capacity := by
  unfold Queue.pop at hp
  split at hp <;> cases hp
  rfl

end Queue

end NarrowLink
