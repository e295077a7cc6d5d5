/-!
# Narrowing a number whose range is known

A length that was checked against a configured limit is written into a field narrower than the
number it was computed in. `narrow` keeps the value where the target can hold it and reports
`Overflow` where it can not; reaching the report means that a check is missing, and its message says
so.
-/

namespace NarrowLink

/-- A machine integer, named as messages name it, with the least and the greatest value it holds. -/
structure Machine where
  name : String
  least : Int
  greatest : Int

namespace Machine

/-- Eight bits without a sign. -/
def u8 : Machine := ⟨"u8", 0, 0xff⟩

/-- Sixteen bits without a sign. -/
def u16 : Machine := ⟨"u16", 0, 0xffff⟩

/-- Thirty-two bits without a sign. -/
def u32 : Machine := ⟨"u32", 0, 0xffffffff⟩

/-- Eight bits with a sign. -/
def i8 : Machine := ⟨"i8", -0x80, 0x7f⟩

end Machine

/-- A value that its target can not hold. -/
structure Overflow where
  value : Int
  target : Machine

/-- What is said of a value out of range. -/
def Overflow.message (o : Overflow) : String :=
  toString o.value ++ " is out of range for " ++ o.target.name ++ " - this is a bug"

/-- The value itself where the target holds it. -/
def narrow (target : Machine) (value : Int) : Except Overflow Int :=
  if target.least ≤ value ∧ value ≤ target.greatest then .ok value else .error ⟨value, target⟩

theorem narrow_eq_ok_iff (target : Machine) (value result : Int) :
    narrow target value = .ok result ↔
      result = value ∧ target.least ≤ value ∧ value ≤ target.greatest := by
  unfold narrow
  split <;> rename_i h
  · simp [h, eq_comm]
  · simp only [reduceCtorEq, false_iff]
    exact fun e => h e.2

end NarrowLink
