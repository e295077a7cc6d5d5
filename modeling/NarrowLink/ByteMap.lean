/-!
# Tables indexed by a byte

Ports and narrow sequence numbers are bytes, so a table with one entry for each of the 256 bytes is
total: `ByteMap.get` always answers, and `ByteMap.set` replaces one entry. Two tables with the same
entries are equal (`ByteMap.ext`).
-/

namespace NarrowLink

/-- One value for each byte. -/
structure ByteMap (α : Type) where
  slots : Vector α 256
deriving DecidableEq

namespace ByteMap

variable {α : Type}

/-- The table with the same value everywhere. -/
def const (a : α) : ByteMap α := ⟨Vector.replicate 256 a⟩

/-- The value for `b`. -/
def get (m : ByteMap α) (b : UInt8) : α :=
  have _inside : b.toNat < 256 := b.toNat_lt
  m.slots[b.toNat]

/-- The table with the value for `b` replaced. -/
def set (m : ByteMap α) (b : UInt8) (a : α) : ByteMap α := ⟨m.slots.set b.toNat a b.toNat_lt⟩

/-- The table with the value for `b` changed by `f`. -/
def modify (m : ByteMap α) (b : UInt8) (f : α → α) : ByteMap α := m.set b (f (m.get b))

/-- All values, in ascending order of their bytes. -/
def values (m : ByteMap α) : List α := m.slots.toList

/-- The bytes whose values satisfy `p`, in ascending order. -/
def keysWhere (m : ByteMap α) (p : α → Bool) : List UInt8 :=
  ((List.range 256).map UInt8.ofNat).filter fun b => p (m.get b)

@[simp] theorem get_const (a : α) (b : UInt8) : (const a).get b = a := by
  simp [const, get]

theorem get_set (m : ByteMap α) (b c : UInt8) (a : α) :
    (m.set b a).get c = if b = c then a else m.get c := by
  simp only [get, set, Vector.getElem_set]
  by_cases h : b = c
  · simp [h]
  · have : b.toNat ≠ c.toNat := fun e => h (UInt8.toNat_inj.1 e)
    simp [h, this]

@[simp] theorem get_set_self (m : ByteMap α) (b : UInt8) (a : α) : (m.set b a).get b = a := by
  simp [get_set]

theorem get_set_of_ne (m : ByteMap α) {b c : UInt8} (a : α) (h : b ≠ c) :
    (m.set b a).get c = m.get c := by
  simp [get_set, h]

@[ext] theorem ext {m n : ByteMap α} (h : ∀ b, m.get b = n.get b) : m = n := by
  cases m with
  | mk u =>
    cases n with
    | mk v =>
      congr 1
      refine Vector.ext fun i hi => ?_
      have := h (UInt8.ofNat i)
      simpa [get, UInt8.toNat_ofNat, Nat.mod_eq_of_lt hi] using this

theorem set_set (m : ByteMap α) (b : UInt8) (x y : α) : (m.set b x).set b y = m.set b y := by
  refine ext fun c => ?_
  simp only [get_set]
  split <;> rfl

end ByteMap

end NarrowLink
