import NarrowLink.Error

/-!
# Calls that may be refused

A call on a stateful part of an engine may be refused, and a refused call may have changed the state
before it failed. So its answer and the state that it leaves behind are given separately.
-/

namespace NarrowLink

/-- The answer of a call that may be refused, and the state that the call leaves behind. -/
abbrev Attempt (σ α : Type) := Except Error α × σ

end NarrowLink
