import Mathlib.Tactic.SplitIfs
import NarrowLink.Serial

/-!
# Serial numbers as counts

A serial number on the wire stands for a count that never wraps around: `Serial.forward a n` is the
number `n` steps forward from `a`.  As long as two counts lie less than one turn apart, the distance
between their numbers is their difference (`distance_forward`), and as long as they lie less than half
a turn apart, their numbers are ordered as they are (`precedes_forward_iff`).  Numbers that lie less
than half a turn ahead of a common base are ordered by their distance from it
(`precedes_iff_distance_lt`).
-/

namespace NarrowLink.Serial

variable {α : Type} [Serial α]

/-! ## Distances without remainders -/

/-- The distance is a difference, with one turn added where the way leads over the wrap. -/
theorem distance_eq_ite (a b : α) :
    distance a b =
      if toNat a ≤ toNat b then toNat b - toNat a else toNat b + 2 * half α - toNat a := by
  have ha := toNat_lt a
  have hb := toNat_lt b
  unfold distance
  split
  · have e : toNat b + 2 * half α - toNat a = toNat b - toNat a + 2 * half α := by omega
    rw [e, Nat.add_mod_right, Nat.mod_eq_of_lt (by omega)]
  · rw [Nat.mod_eq_of_lt (by omega)]

theorem toNat_next_eq_ite (a : α) :
    toNat (next a) = if toNat a + 1 = 2 * half α then 0 else toNat a + 1 := by
  have ha := toNat_lt a
  rw [toNat_next]
  split
  · rename_i h
    rw [h, Nat.mod_self]
  · exact Nat.mod_eq_of_lt (by omega)

/-- Numbers less than half a turn ahead of a common base are ordered by their distance from it. -/
theorem precedes_iff_distance_lt {c x y : α} (hx : distance c x < half α)
    (hy : distance c y < half α) :
    precedes x y = true ↔ distance c x < distance c y := by
  have hc := toNat_lt c
  have hx' := toNat_lt x
  have hy' := toNat_lt y
  simp only [precedes, decide_eq_true_eq, distance_eq_ite] at *
  split_ifs at * <;> omega

theorem eq_of_distance_eq {c x y : α} (h : distance c x = distance c y) : x = y := by
  have hc := toNat_lt c
  have hx := toNat_lt x
  have hy := toNat_lt y
  refine toNat_inj x y ?_
  simp only [distance_eq_ite] at h
  split_ifs at h <;> omega

theorem distance_next (a b : α) :
    distance a (next b) = if distance a b + 1 = 2 * half α then 0 else distance a b + 1 := by
  have ha := toNat_lt a
  have hb := toNat_lt b
  simp only [distance_eq_ite, toNat_next_eq_ite]
  split_ifs <;> omega

/-- The way to a later number leads over every number in between. -/
theorem distance_sub {a b c : α} (h : distance a b ≤ distance a c) :
    distance b c = distance a c - distance a b := by
  have ha := toNat_lt a
  have hb := toNat_lt b
  have hc := toNat_lt c
  simp only [distance_eq_ite] at *
  split_ifs at * <;> omega

/-- Seen from a number behind it, a range holds what lies between its ends. -/
theorem inRange_iff_distance {c first last : α} (h : distance c first ≤ distance c last) (x : α) :
    inRange x first last = true ↔ distance c first ≤ distance c x ∧ distance c x ≤ distance c last := by
  have hlength := distance_sub h
  rw [inRange, decide_eq_true_eq]
  rcases Nat.lt_or_ge (distance c x) (distance c first) with hlt | hge
  · -- the way from the range to what lies before it leads almost all the way round
    have hback := distance_sub (Nat.le_of_lt hlt)
    have hne : first ≠ x := by
      rintro rfl
      exact Nat.lt_irrefl _ hlt
    have hround := distance_add_distance hne
    have hlast := distance_lt c last
    omega
  · have hway := distance_sub hge
    omega

/-! ## Counting forward -/

/-- The number `n` steps forward from `a`. -/
def forward (a : α) : Nat → α
  | 0 => a
  | n + 1 => next (forward a n)

@[simp] theorem forward_zero (a : α) : forward a 0 = a := rfl

theorem forward_succ (a : α) (n : Nat) : forward a (n + 1) = next (forward a n) := rfl

theorem forward_add (a : α) (m n : Nat) : forward a (m + n) = forward (forward a m) n := by
  induction n with
  | zero => rfl
  | succ n ih => rw [← Nat.add_assoc, forward_succ, ih, forward_succ]

theorem forward_next (a : α) (n : Nat) : forward (next a) n = forward a (n + 1) := by
  rw [Nat.add_comm, forward_add]
  rfl

theorem distance_forward_self (a : α) {n : Nat} (h : n < 2 * half α) :
    distance a (forward a n) = n := by
  induction n with
  | zero => exact distance_self a
  | succ n ih => rw [forward_succ, distance_next, ih (by omega), if_neg (by omega)]

/-- One whole turn leads back. -/
theorem forward_turn (a : α) : forward a (2 * half α) = a := by
  have hpos : 2 * half α ≠ 0 := Nat.ne_of_gt (Nat.mul_pos Nat.two_pos half_pos)
  obtain ⟨k, hk⟩ := Nat.exists_eq_succ_of_ne_zero hpos
  have hd : distance a (forward a (k + 1)) = distance a a := by
    rw [forward_succ, distance_next, distance_forward_self _ (by omega), if_pos (by omega),
      distance_self]
  rw [hk]
  exact eq_of_distance_eq hd

/-- Less than one turn apart, the distance of two numbers is the difference of their counts. -/
theorem distance_forward (a : α) {m n : Nat} (hmn : m ≤ n) (hn : n < m + 2 * half α) :
    distance (forward a m) (forward a n) = n - m := by
  obtain ⟨k, rfl⟩ := Nat.exists_eq_add_of_le hmn
  rw [forward_add, distance_forward_self _ (by omega)]
  omega

/-- The way back takes the rest of the turn. -/
theorem distance_forward_back (a : α) {m n : Nat} (hmn : m < n) (hn : n < m + 2 * half α) :
    distance (forward a n) (forward a m) = 2 * half α - (n - m) := by
  have hd := distance_forward a (Nat.le_of_lt hmn) hn
  have hne : forward a m ≠ forward a n := by
    intro e
    rw [e, distance_self] at hd
    omega
  have := distance_add_distance hne
  omega

theorem forward_distance (a b : α) : forward a (distance a b) = b :=
  eq_of_distance_eq (distance_forward_self a (distance_lt a b))

/-- Numbers less than one turn apart tell their counts apart. -/
theorem forward_inj (a : α) {m n : Nat} (hm : m < n + 2 * half α) (hn : n < m + 2 * half α)
    (h : forward a m = forward a n) : m = n := by
  rcases Nat.lt_trichotomy m n with hlt | heq | hgt
  · have := distance_forward a (Nat.le_of_lt hlt) hn
    rw [h, distance_self] at this
    omega
  · exact heq
  · have := distance_forward a (Nat.le_of_lt hgt) hm
    rw [h, distance_self] at this
    omega

/-- Less than half a turn apart, numbers are ordered as their counts are. -/
theorem precedes_forward_iff (a : α) {m n : Nat} (hm : m < n + half α)
    (hn : n ≤ m + half α) :
    precedes (forward a m) (forward a n) = true ↔ m < n := by
  simp only [precedes, decide_eq_true_eq]
  rcases Nat.lt_or_ge m n with hlt | hge
  · rw [distance_forward_back a hlt (by omega)]
    omega
  · rw [distance_forward a hge (by omega)]
    omega

end NarrowLink.Serial
