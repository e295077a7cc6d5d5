import Mathlib.Data.List.Basic
import Mathlib.Data.List.Induction
import NarrowLink.Proofs.Serial.Row
import NarrowLink.Queue

/-!
# Where a queue puts a packet

`Order.insert` looks for the place of a packet from the end of the queue (`insert_concat`).  So a
packet is put before some tail of packets that it precedes, and behind a packet that it does not
precede (`insert_split`); what stands before a part that it does not precede stays where it is
(`insert_append`).  If the order of the queue agrees with the order of some key, an ascending queue
stays ascending (`pairwise_le_insert`, `pairwise_insert`).  If the numbers of packets are in a row, the
last one is put at the end (`insert_of_row_concat`), and the first one at the front
(`insert_of_row_cons`).
-/

namespace NarrowLink

open Wire

namespace Order

variable (o : Order) (p : Packet)

@[simp] theorem insert_nil : o.insert p [] = [p] := rfl

theorem insert_concat (ps : List Packet) (y : Packet) :
    o.insert p (ps ++ [y]) = if o.precedes p y then o.insert p ps ++ [y] else ps ++ [y, p] := by
  unfold insert
  simp only [List.reverse_append, List.reverse_cons, List.reverse_nil, List.nil_append,
    List.cons_append, List.dropWhile_cons, List.takeWhile_cons]
  split
  · simp
  · simp

/-- The packet stands before a tail of packets that it precedes, behind one that it does not
precede. -/
theorem insert_split (ps : List Packet) :
    ∃ front back, ps = front ++ back ∧ o.insert p ps = front ++ p :: back ∧
      (∀ y ∈ back, o.precedes p y = true) ∧
      ∀ z, front.getLast? = some z → o.precedes p z = false := by
  induction ps using List.reverseRecOn with
  | nil => exact ⟨[], [], rfl, rfl, by simp, by simp⟩
  | append_singleton ps y ih =>
    rw [insert_concat]
    by_cases h : o.precedes p y = true
    · obtain ⟨front, back, rfl, he, hb, hf⟩ := ih
      refine ⟨front, back ++ [y], by simp, by simp [h, he], ?_, hf⟩
      intro z hz
      rcases List.mem_append.1 hz with hz | hz
      · exact hb z hz
      · rw [List.mem_singleton.1 hz]
        exact h
    · refine ⟨ps ++ [y], [], by simp, by simp [h], by simp, ?_⟩
      intro z hz
      rw [List.getLast?_concat, Option.some.injEq] at hz
      rw [← hz]
      exact Bool.not_eq_true _ ▸ h

theorem mem_insert {ps : List Packet} {x : Packet} : x ∈ o.insert p ps ↔ x = p ∨ x ∈ ps := by
  rw [(o.insert_perm p ps).mem_iff, List.mem_cons]

/-- Packets that the new one does not precede keep their places at the front. -/
theorem insert_append {front : List Packet} (back : List Packet)
    (h : ∀ x ∈ front, o.precedes p x = false) :
    o.insert p (front ++ back) = front ++ o.insert p back := by
  induction back using List.reverseRecOn with
  | nil =>
    rcases List.eq_nil_or_concat' front with rfl | ⟨ps, y, rfl⟩
    · rfl
    · have hy := h y (by simp)
      simp [insert_concat, hy]
  | append_singleton back y ih =>
    rw [← List.append_assoc, insert_concat, insert_concat, ih]
    split <;> simp

/-- A packet that does not precede the last one becomes the last one. -/
theorem insert_eq_append {ps : List Packet}
    (h : ∀ y, ps.getLast? = some y → o.precedes p y = false) : o.insert p ps = ps ++ [p] := by
  rcases List.eq_nil_or_concat' ps with rfl | ⟨front, y, rfl⟩
  · rfl
  · rw [insert_concat, h y List.getLast?_concat]
    simp

/-- A packet that precedes all others becomes the first one. -/
theorem insert_eq_cons {ps : List Packet} (h : ∀ y ∈ ps, o.precedes p y = true) :
    o.insert p ps = p :: ps := by
  obtain ⟨front, back, rfl, he, -, hfront⟩ := o.insert_split p ps
  rcases List.eq_nil_or_concat' front with rfl | ⟨front, y, rfl⟩
  · exact he
  · have hno := hfront y List.getLast?_concat
    rw [h y (by simp)] at hno
    cases hno

section Key

variable {o p} {key : Packet → Nat} {ps : List Packet}

/-- In a queue that ascends by a key which the order agrees with, the new packet is put behind all
packets with a smaller key. -/
theorem insert_eq_filter (h : ∀ y ∈ ps, o.precedes p y = true ↔ key p < key y)
    (hs : ps.Pairwise fun x y => key x ≤ key y) :
    o.insert p ps = ps.filter (fun y => key y ≤ key p) ++
      p :: ps.filter (fun y => key p < key y) := by
  induction ps using List.reverseRecOn with
  | nil => rfl
  | append_singleton ps y ih =>
    obtain ⟨hs', -, hsy⟩ := List.pairwise_append.1 hs
    have ih' := ih (fun z hz => h z (by simp [hz])) hs'
    rw [insert_concat]
    by_cases hlt : key p < key y
    · rw [if_pos ((h y (by simp)).2 hlt), ih']
      simp [List.filter_append, hlt, Nat.not_le.2 hlt]
    · have hall : ∀ z ∈ ps, key z ≤ key p := fun z hz =>
        Nat.le_trans (hsy z hz y (by simp)) (Nat.not_lt.1 hlt)
      have hnp : ¬ o.precedes p y = true := fun e => hlt ((h y (by simp)).1 e)
      have hkept : ps.filter (fun z => key z ≤ key p) = ps :=
        List.filter_eq_self.2 fun z hz => decide_eq_true (hall z hz)
      have hnone : ps.filter (fun z => key p < key z) = [] :=
        List.filter_eq_nil_iff.2 fun z hz => by simpa using hall z hz
      rw [if_neg hnp, List.filter_append, List.filter_append, hkept, hnone]
      simp [Nat.not_lt.1 hlt]

/-- An ascending queue stays ascending. -/
theorem pairwise_le_insert (h : ∀ y ∈ ps, o.precedes p y = true ↔ key p < key y)
    (hs : ps.Pairwise fun x y => key x ≤ key y) :
    (o.insert p ps).Pairwise fun x y => key x ≤ key y := by
  rw [insert_eq_filter h hs, List.pairwise_append, List.pairwise_cons]
  refine ⟨hs.filter _, ⟨?_, hs.filter _⟩, ?_⟩
  · intro y hy
    exact Nat.le_of_lt (of_decide_eq_true (List.mem_filter.1 hy).2)
  · intro x hx y hy
    have hxp : key x ≤ key p := of_decide_eq_true (List.mem_filter.1 hx).2
    rcases List.mem_cons.1 hy with rfl | hy
    · exact hxp
    · exact Nat.le_trans hxp (Nat.le_of_lt (of_decide_eq_true (List.mem_filter.1 hy).2))

/-- If no two packets have the same key, the queue stays strictly ascending. -/
theorem pairwise_insert (h : ∀ y ∈ ps, o.precedes p y = true ↔ key p < key y)
    (hs : ps.Pairwise fun x y => key x < key y) (hne : ∀ y ∈ ps, key y ≠ key p) :
    (o.insert p ps).Pairwise fun x y => key x < key y := by
  have hle : ps.Pairwise fun x y => key x ≤ key y := hs.imp Nat.le_of_lt
  rw [insert_eq_filter h hle, List.pairwise_append, List.pairwise_cons]
  refine ⟨hs.filter _, ⟨?_, hs.filter _⟩, ?_⟩
  · intro y hy
    simpa using (List.mem_filter.1 hy).2
  · intro x hx y hy
    obtain ⟨hxps, hxp⟩ := List.mem_filter.1 hx
    have hlt : key x < key p := Nat.lt_of_le_of_ne (by simpa using hxp) (hne x hxps)
    rcases List.mem_cons.1 hy with rfl | hy
    · exact hlt
    · have hpy : key p < key y := by simpa using (List.mem_filter.1 hy).2
      omega

end Key

section Row

variable {p} {ps : List Packet} {first last : UInt16}

theorem insert_of_row_concat
    (h : Serial.Row first ((ps ++ [p]).map fun p => p.header.seq) last) :
    Order.transmit.insert p ps = ps ++ [p] := by
  rw [List.map_append, List.map_singleton] at h
  obtain ⟨n, hrow, hlast⟩ := h.of_append
  obtain rfl : n = p.header.seq := by
    cases hlast
    rfl
  refine insert_eq_append _ _ fun y hy => ?_
  have hnext : Serial.next y.header.seq = p.header.seq :=
    hrow.getLast? (by rw [List.getLast?_map, hy]; rfl)
  have hone : Serial.distance y.header.seq (Serial.next y.header.seq) = 1 :=
    Serial.distance_forward_self y.header.seq (n := 1) (by simp only [Serial.half]; omega)
  show Serial.precedes p.header.seq y.header.seq = false
  rw [← hnext, Serial.precedes, hone]
  rfl

theorem insert_of_row_cons
    (h : Serial.Row first ((p :: ps).map fun p => p.header.seq) last)
    (hfew : ps.length < Serial.half UInt16) : Order.transmit.insert p ps = p :: ps := by
  rw [List.map_cons] at h
  cases h with
  | cons hrow =>
    refine insert_eq_cons _ _ fun y hy => ?_
    obtain ⟨i, hi, hy⟩ := hrow.mem_iff.1 (List.mem_map_of_mem hy)
    rw [List.length_map] at hi
    show Serial.precedes p.header.seq y.header.seq = true
    rw [hy, Serial.forward_next, Serial.precedes_iff,
      Serial.distance_forward_self _ (by simp only [Serial.half] at *; omega)]
    omega

end Row

end Order

end NarrowLink
