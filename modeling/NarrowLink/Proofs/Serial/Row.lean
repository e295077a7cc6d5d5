import NarrowLink.Proofs.Serial.Forward

/-!
# Numbers near each other

Serial numbers are comparable while they lie within half the number space in a row (`Near`).  Numbers in a
row (`Row`) do so if there are not too many of them (`Row.near`), and two numbers half the number space
apart never do (`not_near_of_opposite`).
-/

namespace NarrowLink.Serial

variable {α : Type} [Serial α] {a b : α} {ns : List α}

/-- The numbers lie within half the number space in a row. -/
def Near (ns : List α) : Prop := ∃ base, ∀ n ∈ ns, distance base n < half α

/-- A list of at most one number is near. -/
theorem near_of_length_le [Inhabited α] (h : ns.length ≤ 1) : Near ns := by
  cases ns with
  | nil => exact ⟨default, fun n hn => absurd hn List.not_mem_nil⟩
  | cons a ns =>
    cases ns with
    | nil =>
      refine ⟨a, fun n hn => ?_⟩
      rw [List.mem_singleton.1 hn, distance_self]
      exact half_pos
    | cons => simp at h

/-- Of two numbers behind another one, the one that is further behind is behind the other one. -/
theorem distance_sub_right {a b c : α} (h : distance b c ≤ distance a c) :
    distance a b = distance a c - distance b c := by
  have ha := toNat_lt a
  have hb := toNat_lt b
  have hc := toNat_lt c
  simp only [distance_eq_ite] at *
  split_ifs at * <;> omega

/-- Each of two opposite numbers is half the number space ahead of the other one. -/
theorem not_near_of_opposite (ha : a ∈ ns) (hb : b ∈ ns) (h : distance a b = half α) : ¬ Near ns := by
  rintro ⟨base, hnear⟩
  have hna := hnear a ha
  have hnb := hnear b hb
  have hpos := half_pos (α := α)
  rcases Nat.le_total (distance base a) (distance base b) with hle | hle
  · rw [distance_sub hle] at h
    omega
  · have hne : a ≠ b := by
      rintro rfl
      rw [distance_self] at h
      omega
    have hround := distance_add_distance hne
    rw [distance_sub hle] at hround
    omega

/-- The numbers from one number up to another one, which is not among them. -/
inductive Row : α → List α → α → Prop where
  | nil (a : α) : Row a [] a
  | cons {a b : α} {ns : List α} (rest : Row (next a) ns b) : Row a (a :: ns) b

namespace Row

theorem concat (h : Row a ns b) : Row a (ns ++ [b]) (next b) := by
  induction h with
  | nil a => exact .cons (.nil (next a))
  | cons _ ih => exact .cons ih

/-- The parts of a row are rows. -/
theorem of_append {ms : List α} (h : Row a (ns ++ ms) b) : ∃ c, Row a ns c ∧ Row c ms b := by
  induction ns generalizing a with
  | nil => exact ⟨a, .nil a, h⟩
  | cons n ns ih =>
    cases h with
    | cons rest =>
      obtain ⟨c, hns, hms⟩ := ih rest
      exact ⟨c, .cons hns, hms⟩

theorem mem_iff (h : Row a ns b) {n : α} : n ∈ ns ↔ ∃ i < ns.length, n = forward a i := by
  induction h with
  | nil a => simp
  | cons _ ih =>
    rw [List.mem_cons, ih, List.length_cons]
    constructor
    · rintro (rfl | ⟨i, hi, rfl⟩)
      · exact ⟨0, Nat.succ_pos _, rfl⟩
      · exact ⟨i + 1, Nat.succ_lt_succ hi, (forward_next _ i)⟩
    · rintro ⟨i, hi, rfl⟩
      cases i with
      | zero => exact .inl rfl
      | succ i => exact .inr ⟨i, Nat.lt_of_succ_lt_succ hi, (forward_next _ i).symm⟩

/-- Neighbours in a row differ. -/
theorem ne_of_cons_cons {m n : α} (h : Row a (m :: n :: ns) b) : n ≠ m := by
  cases h with
  | cons rest =>
    cases rest with
    | cons =>
      intro hnext
      have hnat := congrArg toNat hnext
      rw [toNat_next_eq_ite] at hnat
      have hlt := toNat_lt a
      have hpos := half_pos (α := α)
      split at hnat <;> omega

/-- The last number of a row comes right before its end. -/
theorem getLast? (h : Row a ns b) {n : α} (hn : ns.getLast? = some n) : next n = b := by
  induction h with
  | nil a => cases hn
  | cons rest ih =>
    cases rest with
    | nil =>
      cases hn
      rfl
    | cons => exact ih (by rwa [List.getLast?_cons_cons] at hn)

/-- Half the number space in a row, and no more. -/
theorem near (h : Row a ns b) (hlen : ns.length ≤ half α) : Near ns := by
  refine ⟨a, fun n hn => ?_⟩
  obtain ⟨i, hi, rfl⟩ := h.mem_iff.1 hn
  rw [distance_forward_self a (by omega)]
  omega

end Row

end NarrowLink.Serial
