import NarrowLink.Wire.LengthRecord

/-!
# Damaged length records

A length record says the same five times.  If at most two of its copies change, into whatever they
change, three are left that agree, and no other length has as many votes.  So the record still reads as
the length that was written (`Damaged.majority_eq`).
-/

namespace NarrowLink.Wire.LengthRecord

/-- A record after at most two of its copies have changed. -/
structure Damaged (record record' : List UInt8) : Prop where
  length_eq : record'.length = record.length
  changed_le : ((words record).zip (words record')).countP (fun w => w.1 != w.2) ≤ 2

theorem Damaged.refl (record : List UInt8) : Damaged record record where
  length_eq := rfl
  changed_le := by
    have hnone : ((words record).zip (words record)).countP (fun w => w.1 != w.2) = 0 := by
      refine List.countP_eq_zero.2 fun w hw => ?_
      rw [List.zip_eq_zipWith, List.zipWith_self] at hw
      obtain ⟨v, -, rfl⟩ := List.mem_map.1 hw
      simp
    omega

theorem length_words (bytes : List UInt8) : (words bytes).length = bytes.length / 4 := by
  fun_induction words bytes with
  | case1 a b c d rest ih =>
    rw [List.length_cons, ih]
    simp only [List.length_cons]
    omega
  | case2 bytes hfew =>
    match bytes, hfew with
    | [], _ | [_], _ | [_, _], _ | [_, _, _], _ => simp
    | a :: b :: c :: d :: rest, hfew => exact absurd rfl (hfew a b c d rest)

theorem words_bytes32_append (n : UInt32) (rest : List UInt8) :
    words (bytes32 n ++ rest) = n :: words rest :=
  congrArg (· :: words rest) (word32_bytes32 n)

theorem words_encode (length : UInt32) : words (encode length) = List.replicate copies length := by
  have hcopies : ∀ k, words (List.replicate k (bytes32 length)).flatten = List.replicate k length := by
    intro k
    induction k with
    | zero => rfl
    | succ k ih =>
      rw [List.replicate_succ, List.flatten_cons, words_bytes32_append, ih, List.replicate_succ]
  exact hcopies copies

/-- The copies that differ from a value are those that did not keep it. -/
theorem count_add_changed (v : UInt32) (ws : List UInt32) :
    ws.count v + ((List.replicate ws.length v).zip ws).countP (fun w => w.1 != w.2) = ws.length := by
  induction ws with
  | nil => rfl
  | cons w ws ih =>
    rw [List.length_cons, List.replicate_succ, List.zip_cons_cons, List.count_cons, List.countP_cons]
    by_cases hw : w = v
    · subst hw
      simp only [beq_self_eq_true, if_true, bne_self_eq_false, Bool.false_eq_true, if_false]
      omega
    · have hbeq : (w == v) = false := by simpa using hw
      have hbne : (v != w) = true := by simpa using Ne.symm hw
      simp only [hbeq, hbne, Bool.false_eq_true, if_false, if_true]
      omega

/-- Two values have no more votes together than there are votes. -/
theorem count_add_count_le {v w : UInt32} (h : v ≠ w) (ws : List UInt32) :
    ws.count v + ws.count w ≤ ws.length := by
  induction ws with
  | nil => exact Nat.le_refl 0
  | cons x ws ih =>
    rw [List.count_cons, List.count_cons, List.length_cons]
    by_cases hv : x = v
    · have hw : (x == w) = false := by simpa [hv] using h
      rw [hw, if_neg Bool.false_ne_true]
      split <;> omega
    · have hv' : (x == v) = false := by simpa using hv
      rw [hv', if_neg Bool.false_ne_true]
      split <;> omega

/-- The value with more than half of the votes wins the vote. -/
theorem majority_eq_some {ws : List UInt32} {v : UInt32} (h : ws.length < 2 * ws.count v) :
    majority ws = some v := by
  have hmem : v ∈ ws := List.count_pos_iff.1 (by omega)
  have hsome : (ws.find? fun w => decide (ws.length < 2 * ws.count w)).isSome :=
    List.find?_isSome.2 ⟨v, hmem, decide_eq_true h⟩
  obtain ⟨w, hw⟩ := Option.isSome_iff_exists.1 hsome
  have hvotes : ws.length < 2 * ws.count w := by simpa using List.find?_some hw
  by_cases hne : v = w
  · rw [majority, hw, hne]
  · have := count_add_count_le hne ws
    omega

theorem Damaged.majority_eq {length : UInt32} {record : List UInt8}
    (h : Damaged (encode length) record) : majority (words record) = some length := by
  have hfive : (words record).length = copies := by
    rw [length_words, h.length_eq, length_encode]
    rfl
  have hchanged := h.changed_le
  rw [words_encode, ← hfive] at hchanged
  have hsum := count_add_changed length (words record)
  refine majority_eq_some ?_
  have : copies = 5 := rfl
  omega

theorem Damaged.decode_eq {length : UInt32} {record : List UInt8}
    (h : Damaged (encode length) record) : decode record = .ok (length, []) := by
  have hsize : record.length = size := h.length_eq.trans (length_encode length)
  rw [decode, if_neg (by omega), List.take_of_length_le (by omega), h.majority_eq,
    List.drop_eq_nil_of_le (by omega)]

end NarrowLink.Wire.LengthRecord
