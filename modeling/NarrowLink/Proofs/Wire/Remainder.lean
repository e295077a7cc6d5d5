import Mathlib.Data.Nat.Bitwise
import NarrowLink.Wire.Checksum

/-!
# The algebra of the checksum

Moving the remainder on is linear (`shift_xor`) and loses nothing (`shift_injective`), because the
highest bit of the generator is set.  So two byte strings that differ in two adjacent bytes only have
different checksums (`eq_of_foldl_absorb_eq`).

With its leading term the generator has four terms, an even number, so the remainder always has as many
ones as the bytes that it was taken of, up to an even number (`ones_shift`, `ones_checksum`).
-/

namespace NarrowLink.Wire

/-! ## Counting ones -/

/-- The number of ones among the lowest binary digits of a number. -/
def ones : Nat → Nat → Nat
  | 0, _ => 0
  | w + 1, n => n % 2 + ones w (n / 2)

/-- The number of ones in a byte string. -/
def onesOf (bytes : List UInt8) : Nat := (bytes.map fun b => ones 8 b.toNat).sum

/-- The number of bits in which two byte strings of the same length differ. -/
def bitsApart (f g : List UInt8) : Nat := (List.zipWith (fun a b => ones 8 (a ^^^ b).toNat) f g).sum

@[simp] theorem onesOf_nil : onesOf [] = 0 := rfl

@[simp] theorem onesOf_cons (b : UInt8) (bytes : List UInt8) :
    onesOf (b :: bytes) = ones 8 b.toNat + onesOf bytes := by
  simp [onesOf]

theorem ones_zero (w : Nat) : ones w 0 = 0 := by
  induction w with
  | zero => rfl
  | succ w ih => rw [ones, Nat.zero_div, ih]

theorem ones_succ (w n : Nat) : ones (w + 1) n = n % 2 + ones w (n / 2) := by rw [ones]

/-- The lowest digits and the ones above them are counted separately. -/
theorem ones_add (v w n : Nat) : ones (v + w) n = ones v n + ones w (n / 2 ^ v) := by
  induction v generalizing n with
  | zero => simp [ones]
  | succ v ih =>
    rw [Nat.succ_add, ones, ih, ones, Nat.div_div_eq_div_mul, ← Nat.pow_succ', Nat.add_assoc]

theorem ones_of_lt {w n : Nat} (v : Nat) (h : n < 2 ^ w) : ones (w + v) n = ones w n := by
  rw [ones_add, Nat.div_eq_of_lt h, ones_zero, Nat.add_zero]

theorem ones_mod (w n : Nat) : ones w (n % 2 ^ w) = ones w n := by
  induction w generalizing n with
  | zero => rfl
  | succ w ih =>
    rw [ones, ones, ← ih (n / 2), Nat.pow_succ', Nat.mod_mul_right_mod, Nat.mod_mul_right_div_self]

theorem ones_xor (w a b : Nat) : ones w (a ^^^ b) % 2 = (ones w a + ones w b) % 2 := by
  induction w generalizing a b with
  | zero => rfl
  | succ w ih =>
    have hlow : (a ^^^ b) % 2 = (a + b) % 2 := Nat.xor_mod_two_eq
    have hrest := ih (a / 2) (b / 2)
    rw [← Nat.xor_div_two] at hrest
    simp only [ones]
    omega

/-- Two byte strings with the same number of ones, up to an even number, differ in an even number of
bits. -/
theorem bitsApart_parity {f g : List UInt8} (h : g.length = f.length) :
    bitsApart f g % 2 = (onesOf f + onesOf g) % 2 := by
  induction f generalizing g with
  | nil =>
    rw [List.length_eq_zero_iff.1 h]
    rfl
  | cons a f ih =>
    cases g with
    | nil => cases h
    | cons b g =>
      have hrest := ih (Nat.succ.inj h)
      have hfirst := ones_xor 8 a.toNat b.toNat
      simp only [bitsApart, List.zipWith_cons_cons, List.sum_cons, UInt8.toNat_xor, onesOf_cons] at *
      omega

namespace Checksum

/-! ## One bit -/

theorem shift_eq_ite (r : UInt16) :
    shift r = (r >>> 1) ^^^ (if r.toNat % 2 = 1 then generator else 0) := by
  have hodd : r &&& 1 = 1 ↔ r.toNat % 2 = 1 := by
    rw [← UInt16.toNat_inj, UInt16.toNat_and]
    exact iff_of_eq (congrArg (· = 1) (Nat.and_two_pow_sub_one_eq_mod _ 1))
  unfold shift
  simp only [hodd]
  split
  · rfl
  · rw [UInt16.xor_zero]

theorem xor_xor_comm (a b c d : UInt16) : (a ^^^ b) ^^^ (c ^^^ d) = (a ^^^ c) ^^^ (b ^^^ d) := by
  ac_rfl

/-- Moving the remainder on is linear. -/
theorem shift_xor (a b : UInt16) : shift (a ^^^ b) = shift a ^^^ shift b := by
  have hodd : (a ^^^ b).toNat % 2 = (a.toNat % 2 + b.toNat % 2) % 2 := by
    rw [UInt16.toNat_xor, ← Nat.add_mod]
    exact Nat.xor_mod_two_eq
  rw [shift_eq_ite, shift_eq_ite a, shift_eq_ite b, UInt16.shiftRight_xor, hodd, xor_xor_comm]
  congr 1
  rcases Nat.mod_two_eq_zero_or_one a.toNat with ha | ha <;>
    rcases Nat.mod_two_eq_zero_or_one b.toNat with hb | hb <;> rw [ha, hb] <;> decide

/-- The bit that falls out can be read from the highest bit afterwards. -/
theorem eq_zero_of_shift_eq_zero {r : UInt16} (h : shift r = 0) : r = 0 := by
  have hhalf : (r >>> 1).toNat = r.toNat / 2 := by
    rw [UInt16.toNat_shiftRight]
    exact Nat.shiftRight_eq_div_pow _ _
  have hlt := r.toNat_lt
  rw [shift_eq_ite] at h
  split at h
  · have hgenerator := congrArg UInt16.toNat (UInt16.xor_eq_zero_iff.1 h)
    rw [hhalf] at hgenerator
    have : generator.toNat = 0xA001 := rfl
    omega
  · rw [UInt16.xor_zero] at h
    have hzero := congrArg UInt16.toNat h
    rw [hhalf] at hzero
    refine UInt16.toNat_inj.1 ?_
    show r.toNat = 0
    have : (0 : UInt16).toNat = 0 := rfl
    omega

/-- Moving the remainder on by one bit changes the number of ones by an even number. -/
theorem ones_shift (r : UInt16) : ones 16 (shift r).toNat % 2 = ones 16 r.toNat % 2 := by
  have hlt := r.toNat_lt
  have hhalf : (r >>> 1).toNat = r.toNat / 2 := by
    rw [UInt16.toNat_shiftRight]
    exact Nat.shiftRight_eq_div_pow _ _
  have hlow : ones 16 r.toNat = r.toNat % 2 + ones 15 (r.toNat / 2) := ones_succ 15 _
  have hhigh : ones 16 (r.toNat / 2) = ones 15 (r.toNat / 2) := ones_of_lt 1 (by omega)
  rw [shift_eq_ite, UInt16.toNat_xor, ones_xor, hhalf]
  split
  · have hgenerator : ones 16 generator.toNat = 3 := by decide
    omega
  · have hzero : ones 16 (0 : UInt16).toNat = 0 := rfl
    omega

/-! ## Many bits -/

theorem shifts_xor (n : Nat) (a b : UInt16) : shifts n (a ^^^ b) = shifts n a ^^^ shifts n b := by
  induction n generalizing a b with
  | zero => rfl
  | succ n ih => rw [shifts, shift_xor, ih, shifts, shifts]

theorem shift_injective : Function.Injective shift := by
  intro a b h
  have hdiff : shift (a ^^^ b) = 0 := by rw [shift_xor, h, UInt16.xor_self]
  exact UInt16.xor_eq_zero_iff.1 (eq_zero_of_shift_eq_zero hdiff)

theorem shifts_injective (n : Nat) : Function.Injective (shifts n) := by
  induction n with
  | zero => exact fun _ _ h => h
  | succ n ih => exact ih.comp shift_injective

/-- As long as no one falls out, the remainder only moves down. -/
theorem toNat_shifts_of_dvd {n : Nat} {r : UInt16} (h : 2 ^ n ∣ r.toNat) :
    (shifts n r).toNat = r.toNat / 2 ^ n := by
  induction n generalizing r with
  | zero => simp [shifts]
  | succ n ih =>
    have heven : r.toNat % 2 ≠ 1 := by
      have := Nat.dvd_trans (Nat.pow_dvd_pow 2 (Nat.le_add_left 1 n)) h
      omega
    have hhalf : (shift r).toNat = r.toNat / 2 := by
      rw [shift_eq_ite, if_neg heven, UInt16.xor_zero, UInt16.toNat_shiftRight]
      exact Nat.shiftRight_eq_div_pow _ _
    have hdvd : 2 ^ n ∣ (shift r).toNat := by
      rw [hhalf]
      exact Nat.dvd_div_of_mul_dvd (Nat.pow_succ' ▸ h)
    rw [shifts, ih hdvd, hhalf, Nat.div_div_eq_div_mul, Nat.pow_succ']

theorem ones_shifts (n : Nat) (r : UInt16) : ones 16 (shifts n r).toNat % 2 = ones 16 r.toNat % 2 := by
  induction n generalizing r with
  | zero => rfl
  | succ n ih => rw [shifts, ih, ones_shift]

/-! ## Bytes -/

theorem absorb_injective (b : UInt8) : Function.Injective fun r => absorb r b := by
  intro r s h
  exact (UInt16.xor_left_inj _).1 (shifts_injective 8 h)

theorem foldl_absorb_injective (bytes : List UInt8) :
    Function.Injective fun r => bytes.foldl absorb r := by
  induction bytes with
  | nil => exact fun _ _ h => h
  | cons b bytes ih => exact ih.comp (absorb_injective b)

theorem absorb_right_injective (r : UInt16) : Function.Injective (absorb r) := by
  intro a b h
  have hwide := (UInt16.xor_right_inj _).1 (shifts_injective 8 h)
  have := congrArg UInt16.toNat hwide
  rw [UInt8.toNat_toUInt16, UInt8.toNat_toUInt16] at this
  exact UInt8.toNat_inj.1 this

/-- Two bytes stand in the remainder side by side. -/
theorem absorb_absorb_inj {r : UInt16} {a a' b b' : UInt8}
    (h : absorb (absorb r a) b = absorb (absorb r a') b') : a = a' ∧ b = b' := by
  -- what the first bytes differ in comes out as what the second bytes differ in
  have hsame : absorb r a ^^^ b.toUInt16 = absorb r a' ^^^ b'.toUInt16 := shifts_injective 8 h
  have hout : absorb r a ^^^ absorb r a' = (b ^^^ b').toUInt16 := by
    refine UInt16.xor_eq_zero_iff.1 ?_
    rw [UInt8.toUInt16_xor, xor_xor_comm, hsame, UInt16.xor_self]
  have hin : absorb r a ^^^ absorb r a' = shifts 8 (a ^^^ a').toUInt16 := by
    rw [absorb, absorb, ← shifts_xor, xor_xor_comm, UInt16.xor_self, UInt16.zero_xor,
      UInt8.toUInt16_xor]
  -- but that comes out of the byte above too, and shifting loses nothing
  have hb := (b ^^^ b').toNat_lt
  have hhigh : ((b ^^^ b').toUInt16 <<< 8).toNat = 2 ^ 8 * (b ^^^ b').toNat := by
    rw [UInt16.toNat_shiftLeft, UInt8.toNat_toUInt16]
    show (b ^^^ b').toNat <<< 8 % 2 ^ 16 = _
    rw [Nat.shiftLeft_eq]
    omega
  have hdown : shifts 8 ((b ^^^ b').toUInt16 <<< 8) = (b ^^^ b').toUInt16 := by
    refine UInt16.toNat_inj.1 ?_
    rw [toNat_shifts_of_dvd ⟨_, hhigh⟩, hhigh, Nat.mul_div_cancel_left _ (by decide),
      UInt8.toNat_toUInt16]
  have hshifted := congrArg UInt16.toNat (shifts_injective 8 (hin.symm.trans (hout.trans hdown.symm)))
  rw [hhigh, UInt8.toNat_toUInt16] at hshifted
  have ha := (a ^^^ a').toNat_lt
  have hzero : (a ^^^ a').toNat = 0 ∧ (b ^^^ b').toNat = 0 := by omega
  exact ⟨UInt8.xor_eq_zero_iff.1 (UInt8.toNat_inj.1 hzero.1),
    UInt8.xor_eq_zero_iff.1 (UInt8.toNat_inj.1 hzero.2)⟩

/-- Byte strings that differ in the first two bytes only leave different remainders. -/
theorem eq_of_foldl_absorb_eq {r : UInt16} {f g : List UInt8} (hlength : g.length = f.length)
    (hrest : g.drop 2 = f.drop 2) (h : g.foldl absorb r = f.foldl absorb r) : g = f := by
  match f, g, hlength with
  | [], [], _ => rfl
  | [a], [a'], _ =>
    rw [List.foldl_cons, List.foldl_cons] at h
    rw [absorb_right_injective r h]
  | a :: b :: f, a' :: b' :: g, _ =>
    obtain rfl : g = f := hrest
    simp only [List.foldl_cons] at h
    obtain ⟨ha, hb⟩ := absorb_absorb_inj (foldl_absorb_injective g h)
    rw [ha, hb]

theorem ones_absorb (r : UInt16) (b : UInt8) :
    ones 16 (absorb r b).toNat % 2 = (ones 16 r.toNat + ones 8 b.toNat) % 2 := by
  have hbyte : ones 16 b.toUInt16.toNat = ones 8 b.toNat := by
    rw [UInt8.toNat_toUInt16]
    exact ones_of_lt 8 b.toNat_lt
  rw [absorb, ones_shifts, UInt16.toNat_xor, ones_xor, hbyte]

theorem ones_foldl_absorb (r : UInt16) (bytes : List UInt8) :
    ones 16 (bytes.foldl absorb r).toNat % 2 = (ones 16 r.toNat + onesOf bytes) % 2 := by
  induction bytes generalizing r with
  | nil => rw [List.foldl_nil, onesOf_nil, Nat.add_zero]
  | cons b bytes ih =>
    have hfirst := ones_absorb r b
    have hrest := ih (absorb r b)
    rw [List.foldl_cons, onesOf_cons]
    omega

end Checksum

/-- The checksum has as many ones as the bytes, up to an even number. -/
theorem ones_checksum (bytes : List UInt8) : ones 16 (checksum bytes).toNat % 2 = onesOf bytes % 2 := by
  have h := Checksum.ones_foldl_absorb 0 bytes
  have hzero : ones 16 (0 : UInt16).toNat = 0 := rfl
  rw [hzero, Nat.zero_add] at h
  exact h

end NarrowLink.Wire
