import NarrowLink.Connection.Basic
import NarrowLink.Proofs.Serial.Forward

/-!
# The ranges of a report

`Session.rangesFrom` looks at one number after the other, and lists a range for each unbroken run of
numbers that arrived.  As long as it does not go all the way round, the ranges stand in ascending order
with a gap before each of them, and they hold exactly what arrived (`runs_rangesFrom`).
-/

namespace NarrowLink.Connection.Session

open Wire

/-- From `lo` to less than `hi` steps ahead of number `e`, the ranges are the unbroken runs of numbers that
arrived, in ascending order. -/
structure Runs (early : ByteMap Bool) (e : UInt8) (lo hi : Nat) (ranges : List (UInt8 × UInt8)) :
    Prop where
  inside : ∀ r ∈ ranges, lo ≤ Serial.distance e r.1 ∧ Serial.distance e r.1 ≤ Serial.distance e r.2 ∧
    Serial.distance e r.2 < hi
  apart : ranges.Pairwise fun r r' => Serial.distance e r.2 + 1 < Serial.distance e r'.1
  early_iff : ∀ b, lo ≤ Serial.distance e b → Serial.distance e b < hi →
    (early.get b = true ↔ ∃ r ∈ ranges, Serial.distance e r.1 ≤ Serial.distance e b ∧
      Serial.distance e b ≤ Serial.distance e r.2)

variable {early : ByteMap Bool} {e k first : UInt8} {hi n : Nat} {ranges : List (UInt8 × UInt8)}

theorem distance_pred (h : 0 < Serial.distance e k) :
    Serial.distance e (k - 1) + 1 = Serial.distance e k := by
  have hnext := Serial.distance_next e (k - 1)
  rw [show Serial.next (k - 1) = k from UInt8.sub_add_cancel k 1] at hnext
  split at hnext <;> omega

theorem runs_nil (early : ByteMap Bool) (e : UInt8) {lo : Nat} (h : hi ≤ lo) : Runs early e lo hi [] where
  inside r hr := absurd hr List.not_mem_nil
  apart := .nil
  early_iff b hge hlt := by omega

/-- A number that is missing lies in front of the ranges. -/
theorem Runs.skip (h : Runs early e (Serial.distance e k + 1) hi ranges) (hk : early.get k = false) :
    Runs early e (Serial.distance e k) hi ranges where
  inside r hr := by
    obtain ⟨hlo, hends, hhi⟩ := h.inside r hr
    exact ⟨by omega, hends, hhi⟩
  apart := h.apart
  early_iff b hge hlt := by
    rcases Nat.eq_or_lt_of_le hge with heq | hgt
    · obtain rfl : b = k := Serial.eq_of_distance_eq heq.symm
      rw [hk]
      refine iff_of_false Bool.false_ne_true ?_
      rintro ⟨r, hr, hle, -⟩
      have := (h.inside r hr).1
      omega
    · exact h.early_iff b hgt hlt

/-- A range that has begun is an unbroken run up to a number. -/
structure Begun (early : ByteMap Bool) (e k first : UInt8) : Prop where
  before : Serial.distance e first < Serial.distance e k
  run : ∀ b, Serial.distance e first ≤ Serial.distance e b →
    Serial.distance e b < Serial.distance e k → early.get b = true

theorem begun_self (hk : early.get k = true)
    (hnext : Serial.distance e (Serial.next k) = Serial.distance e k + 1) :
    Begun early e (Serial.next k) k where
  before := by omega
  run b hge hlt := by
    have heq : Serial.distance e b = Serial.distance e k := by omega
    rwa [Serial.eq_of_distance_eq heq]

theorem Begun.next (h : Begun early e k first) (hk : early.get k = true)
    (hnext : Serial.distance e (Serial.next k) = Serial.distance e k + 1) :
    Begun early e (Serial.next k) first where
  before := by
    have := h.before
    omega
  run b hge hlt := by
    rcases Nat.lt_or_ge (Serial.distance e b) (Serial.distance e k) with hlt' | hge'
    · exact h.run b hge hlt'
    · have heq : Serial.distance e b = Serial.distance e k := by omega
      rwa [Serial.eq_of_distance_eq heq]

/-- A range that has begun ends before a number that is missing, or where the numbers end. -/
theorem Begun.end (hb : Begun early e k first)
    (h : Runs early e (Serial.distance e k + 1) hi ranges) (hhi : Serial.distance e k ≤ hi)
    (hk : Serial.distance e k < hi → early.get k = false) :
    Runs early e (Serial.distance e first) hi ((first, k - 1) :: ranges) := by
  have hbefore := hb.before
  have hlast := distance_pred (e := e) (k := k) (by omega)
  refine ⟨fun r hr => ?_, List.pairwise_cons.2 ⟨fun r hr => ?_, h.apart⟩, fun b hge hlt => ?_⟩
  · rcases List.mem_cons.1 hr with rfl | hr
    · simp only
      omega
    · have := h.inside r hr
      omega
  · have := (h.inside r hr).1
    simp only
    omega
  · simp only [List.mem_cons, exists_eq_or_imp]
    rcases Nat.lt_trichotomy (Serial.distance e b) (Serial.distance e k) with hlt' | heq | hgt
    · exact iff_of_true (hb.run b hge hlt') (.inl ⟨hge, by omega⟩)
    · obtain rfl : b = k := Serial.eq_of_distance_eq heq
      rw [hk hlt]
      refine iff_of_false Bool.false_ne_true ?_
      rintro (⟨-, hle⟩ | ⟨r, hr, hle, -⟩)
      · omega
      · have := (h.inside r hr).1
        omega
    · rw [h.early_iff b hgt hlt]
      exact ⟨.inr, fun hor => hor.resolve_left fun hle => by omega⟩

/-- The ranges among the next numbers, with a range that may have begun before them. -/
theorem runs_rangesFrom (early : ByteMap Bool) (hn : Serial.distance e k + n < 256) :
    Runs early e (Serial.distance e k) (Serial.distance e k + n) (rangesFrom early n k none) ∧
      ∀ first, Begun early e k first → Runs early e (Serial.distance e first)
        (Serial.distance e k + n) (rangesFrom early n k (some first)) := by
  induction n generalizing k with
  | zero =>
    refine ⟨runs_nil early e (Nat.le_refl _), fun first hb => ?_⟩
    exact hb.end (runs_nil early e (Nat.le_succ _)) (Nat.le_refl _) fun hlt => absurd hlt (Nat.lt_irrefl _)
  | succ n ih =>
    have hnext : Serial.distance e (Serial.next k) = Serial.distance e k + 1 := by
      rw [Serial.distance_next, if_neg (by simp only [Serial.half]; omega)]
    obtain ⟨hnone, hsome⟩ := ih (k := Serial.next k) (by omega)
    rw [hnext, Nat.add_right_comm] at hnone hsome
    by_cases hk : early.get k = true
    · refine ⟨?_, fun first hb => ?_⟩ <;> rw [rangesFrom, if_pos hk]
      · exact hsome k (begun_self hk hnext)
      · exact hsome first (hb.next hk hnext)
    · have hmissing : early.get k = false := Bool.not_eq_true _ ▸ hk
      refine ⟨?_, fun first hb => ?_⟩ <;> rw [rangesFrom, if_neg hk]
      · exact hnone.skip hmissing
      · exact hb.end hnone (Nat.le_add_right _ _) fun _ => hmissing

end NarrowLink.Connection.Session
