/-!
# Serial numbers

Sequence numbers on the wire are bytes or 16-bit words, and they wrap around. `Serial.distance a b`
counts the steps that lead forward from `a` to `b`; `Serial.precedes a b` says that `a` comes before
`b`, which is decided by the shorter way round (`precedes_iff`). Exactly half the number space apart,
each of two numbers precedes the other, so the order means something only among numbers that lie
within half the number space of each other.
-/

namespace NarrowLink

/-- A type of numbers that wrap around. -/
class Serial (α : Type) where
  /-- Half the size of the number space. -/
  half : Nat
  toNat : α → Nat
  /-- The number after this one, wrapping around. -/
  next : α → α
  half_pos : 0 < half
  toNat_lt : ∀ a, toNat a < 2 * half
  toNat_next : ∀ a, toNat (next a) = (toNat a + 1) % (2 * half)
  toNat_inj : ∀ a b, toNat a = toNat b → a = b

namespace Serial

instance : Serial UInt8 where
  half := 0x80
  toNat := UInt8.toNat
  next a := a + 1
  half_pos := by decide
  toNat_lt a := a.toNat_lt
  toNat_next a := by simp [UInt8.toNat_add]
  toNat_inj _ _ h := UInt8.toNat_inj.1 h

instance : Serial UInt16 where
  half := 0x8000
  toNat := UInt16.toNat
  next a := a + 1
  half_pos := by decide
  toNat_lt a := a.toNat_lt
  toNat_next a := by simp [UInt16.toNat_add]
  toNat_inj _ _ h := UInt16.toNat_inj.1 h

variable {α : Type} [Serial α]

/-- The steps that lead forward from `a` to `b`, wrapping around. -/
def distance (a b : α) : Nat :=
  (toNat b + 2 * half α - toNat a) % (2 * half α)

/-- `a` comes before `b`: going on from `b` to `a` takes at least half the number space. -/
def precedes (a b : α) : Bool :=
  decide (half α ≤ distance b a)

/-- `a` lies in the inclusive range from `first` forward to `last`. -/
def inRange (a first last : α) : Bool :=
  decide (distance first a ≤ distance first last)

theorem distance_lt (a b : α) : distance a b < 2 * half α :=
  Nat.mod_lt _ (Nat.mul_pos Nat.two_pos half_pos)

theorem distance_self (a : α) : distance a a = 0 := by
  rw [distance, Nat.add_sub_cancel_left, Nat.mod_self]

theorem distance_eq_zero_iff (a b : α) : distance a b = 0 ↔ a = b := by
  refine ⟨fun h => ?_, fun h => h ▸ distance_self a⟩
  have ha := toNat_lt a
  have hb := toNat_lt b
  refine toNat_inj a b ?_
  unfold distance at h
  rcases Nat.lt_or_ge (toNat b) (toNat a) with hlt | hge
  · rw [Nat.mod_eq_of_lt (by omega)] at h
    omega
  · have e : toNat b + 2 * half α - toNat a = toNat b - toNat a + 2 * half α := by omega
    rw [e, Nat.add_mod_right, Nat.mod_eq_of_lt (by omega)] at h
    omega

/-- The way back completes the circle. -/
theorem distance_add_distance {a b : α} (h : a ≠ b) :
    distance a b + distance b a = 2 * half α := by
  have ha := toNat_lt a
  have hb := toNat_lt b
  have hne : toNat a ≠ toNat b := fun e => h (toNat_inj a b e)
  unfold distance
  rcases Nat.lt_or_ge (toNat b) (toNat a) with hlt | hge
  · have e : toNat a + 2 * half α - toNat b = toNat a - toNat b + 2 * half α := by omega
    rw [e, Nat.add_mod_right, Nat.mod_eq_of_lt (by omega), Nat.mod_eq_of_lt (by omega)]
    omega
  · have e : toNat b + 2 * half α - toNat a = toNat b - toNat a + 2 * half α := by omega
    rw [e, Nat.add_mod_right, Nat.mod_eq_of_lt (by omega), Nat.mod_eq_of_lt (by omega)]
    omega

/-- `a` precedes `b` when at least one step and at most half the number space lead from `a` to `b`. -/
theorem precedes_iff (a b : α) :
    precedes a b = true ↔ 0 < distance a b ∧ distance a b ≤ half α := by
  by_cases h : a = b
  · subst h
    have := half_pos (α := α)
    simp only [precedes, distance_self, decide_eq_true_eq]
    omega
  · have hs := distance_add_distance h
    have hp : distance a b ≠ 0 := fun e => h ((distance_eq_zero_iff a b).1 e)
    simp only [precedes, decide_eq_true_eq]
    omega

theorem not_precedes_self (a : α) : precedes a a = false := by
  have := half_pos (α := α)
  simp only [precedes, distance_self, decide_eq_false_iff_not]
  omega

end Serial

end NarrowLink
