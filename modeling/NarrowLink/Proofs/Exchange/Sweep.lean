import NarrowLink.Connection.Basic
import NarrowLink.Proofs.Serial.Forward

/-!
# What arrived in sequence and what arrived early

`Session.runFrom` takes the unbroken run from what is expected on (`runFrom_spec`), and
`Session.rangesFrom` lists what arrived beyond it, and nothing else (`early_of_mem_rangesFrom`).
-/

namespace NarrowLink.Connection.Session

/-- The run that is taken is unbroken and ends where a number is missing, and what lies beyond it
stays as it is. -/
theorem runFrom_spec (n : Nat) (hn : n ≤ 256) (early : ByteMap Bool) (e : UInt8) :
    ∃ k ≤ n, (runFrom n early e).2 = Serial.forward e k ∧
      (∀ i < k, early.get (Serial.forward e i) = true) ∧
      (k < n → early.get (Serial.forward e k) = false) ∧
      ∀ b, (runFrom n early e).1.get b = true ↔
        early.get b = true ∧ ∀ i < k, b ≠ Serial.forward e i := by
  induction n generalizing early e with
  | zero => exact ⟨0, Nat.le_refl _, rfl, by simp, by simp, by simp [runFrom]⟩
  | succ n ih =>
    unfold runFrom
    by_cases he : early.get e = true
    · rw [if_pos he]
      obtain ⟨k, hk, hend, hrun, hstop, hrest⟩ :=
        ih (by omega) (early.set e false) (Serial.next e)
      refine ⟨k + 1, by omega, ?_, ?_, ?_, ?_⟩
      · rw [hend, Serial.forward_next]
      · intro i hi
        cases i with
        | zero => exact he
        | succ i =>
          have := hrun i (by omega)
          rw [Serial.forward_next, ByteMap.get_set] at this
          split at this
          · cases this
          · exact this
      · intro hlt
        have := hstop (by omega)
        rw [Serial.forward_next, ByteMap.get_set] at this
        split at this
        · rename_i hb
          -- the run would have gone all the way round
          have hd := Serial.distance_forward_self e (n := k + 1) (by simp only [Serial.half]; omega)
          rw [← hb, Serial.distance_self] at hd
          omega
        · exact this
      · intro b
        rw [hrest b, ByteMap.get_set]
        constructor
        · rintro ⟨hb, hnot⟩
          split at hb
          · cases hb
          · rename_i hne
            refine ⟨hb, fun i hi => ?_⟩
            cases i with
            | zero => exact Ne.symm hne
            | succ i =>
              rw [← Serial.forward_next]
              exact hnot i (by omega)
        · rintro ⟨hb, hnot⟩
          refine ⟨?_, fun i hi => ?_⟩
          · have h0 : e ≠ b := (hnot 0 (by omega)).symm
            rw [if_neg h0]
            exact hb
          · rw [Serial.forward_next]
            exact hnot (i + 1) (by omega)
    · rw [if_neg he]
      exact ⟨0, by omega, rfl, by simp, fun _ => Bool.not_eq_true _ ▸ he, by simp⟩

/-- What lies in an unbroken run has arrived. -/
theorem early_of_inRange {early : ByteMap Bool} {first b : UInt8} {len : Nat} (hpos : 0 < len)
    (hlen : len ≤ 256) (hall : ∀ i < len, early.get (Serial.forward first i) = true)
    (hb : Serial.inRange b first (Serial.forward first len - 1) = true) : early.get b = true := by
  obtain ⟨m, rfl⟩ := Nat.exists_eq_succ_of_ne_zero (Nat.pos_iff_ne_zero.1 hpos)
  have hlast : Serial.forward first (m + 1) - 1 = Serial.forward first m :=
    UInt8.add_sub_cancel (Serial.forward first m) 1
  have hd := of_decide_eq_true hb
  rw [hlast, Serial.distance_forward_self _ (by simp only [Serial.half]; omega)] at hd
  have := hall (Serial.distance first b) (by omega)
  rwa [Serial.forward_distance] at this

/-- Everything in the ranges has arrived, if everything has from where the first range began. -/
theorem early_of_mem_rangesFrom (early : ByteMap Bool) (n : Nat) (k : UInt8) (begun : Option UInt8)
    (hbegun : ∀ first, begun = some first → ∃ len, 0 < len ∧ len + n ≤ 256 ∧
      k = Serial.forward first len ∧ ∀ i < len, early.get (Serial.forward first i) = true)
    (hn : n ≤ 256) {r : UInt8 × UInt8} (hr : r ∈ rangesFrom early n k begun) {b : UInt8}
    (hb : Serial.inRange b r.1 r.2 = true) : early.get b = true := by
  induction n generalizing k begun with
  | zero =>
    cases begun with
    | none => cases hr
    | some first =>
      obtain ⟨len, hpos, hlen, rfl, hall⟩ := hbegun first rfl
      rw [rangesFrom, List.mem_singleton] at hr
      subst hr
      exact early_of_inRange hpos hlen hall hb
  | succ n ih =>
    unfold rangesFrom at hr
    by_cases hk : early.get k = true
    · rw [if_pos hk] at hr
      refine ih (Serial.next k) _ ?_ (by omega) hr
      rintro first ⟨⟩
      cases begun with
      | none =>
        refine ⟨1, by omega, by omega, rfl, fun i hi => ?_⟩
        rw [Nat.lt_one_iff.1 hi]
        exact hk
      | some first =>
        obtain ⟨len, hpos, hlen, rfl, hall⟩ := hbegun first rfl
        refine ⟨len + 1, by omega, by omega, rfl, fun i hi => ?_⟩
        rcases Nat.lt_succ_iff_lt_or_eq.1 hi with hi | rfl
        · exact hall i hi
        · exact hk
    · rw [if_neg hk] at hr
      have hnone : ∀ first, (none : Option UInt8) = some first → ∃ len, 0 < len ∧ len + n ≤ 256 ∧
          Serial.next k = Serial.forward first len ∧
          ∀ i < len, early.get (Serial.forward first i) = true := by
        intro first hf
        cases hf
      cases begun with
      | none => exact ih (Serial.next k) none hnone (by omega) hr
      | some first =>
        rcases List.mem_cons.1 hr with rfl | hr
        · obtain ⟨len, hpos, hlen, rfl, hall⟩ := hbegun first rfl
          exact early_of_inRange hpos (by omega) hall hb
        · exact ih (Serial.next k) none hnone (by omega) hr

end NarrowLink.Connection.Session
