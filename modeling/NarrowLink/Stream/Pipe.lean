import NarrowLink.Error

/-!
# Byte streams

A `Sink` takes the bytes written to it until its room is used up, and fails from then on. A `Source`
is the list of what the next reads find: bytes, of which a read takes as many as it wants, or a
failure. Reading an exact number of bytes goes on after interruptions, fails with any other failure,
and fails with `unexpectedEof` at the end of the stream; the bytes read until then are lost.
-/

namespace NarrowLink.Stream

/-- Where bytes are written to. -/
structure Sink where
  /-- The bytes taken so far. -/
  taken : List UInt8 := []
  /-- The number of bytes that are still taken, and the failure after them; without it the sink takes
  everything. -/
  bound : Option (Nat × IoFault) := none
deriving DecidableEq

/-- Writes all bytes, or those that are taken before the sink fails. -/
def Sink.write (s : Sink) (bytes : List UInt8) : Option IoFault × Sink :=
  match s.bound with
  | none => (none, { s with taken := s.taken ++ bytes })
  | some (room, fault) =>
    let s' : Sink := ⟨s.taken ++ bytes.take room, some (room - bytes.length, fault)⟩
    (if bytes.length ≤ room then none else some fault, s')

/-- What one read finds. -/
inductive Piece where
  | bytes (content : List UInt8)
  | fault (fault : IoFault)
deriving DecidableEq

/-- What the reads of a stream find, one after the other. -/
abbrev Source := List Piece

/-- Reads exactly `n` bytes. -/
def Source.take (n : Nat) : Source → Except IoFault (List UInt8) × Source
  | [] => if n = 0 then (.ok [], []) else (.error .unexpectedEof, [])
  | .fault f :: s =>
    if n = 0 then (.ok [], .fault f :: s)
    else if f = .interrupted then take n s
    else (.error f, s)
  | .bytes bs :: s =>
    if n ≤ bs.length then (.ok (bs.take n), .bytes (bs.drop n) :: s)
    else
      match take (n - bs.length) s with
      | (.ok got, s') => (.ok (bs ++ got), s')
      | (.error f, s') => (.error f, s')

/-- Reads one byte, or finds the end of the stream. -/
def Source.takeOne : Source → Except IoFault (Option UInt8) × Source
  | [] => (.ok none, [])
  | .fault f :: s => if f = .interrupted then takeOne s else (.error f, s)
  | .bytes [] :: s => takeOne s
  | .bytes (b :: bs) :: s => (.ok (some b), .bytes bs :: s)

/-- The number of bytes that a source still holds. -/
def Source.pending : Source → Nat
  | [] => 0
  | .fault _ :: s => pending s
  | .bytes bs :: s => bs.length + pending s

theorem Source.pending_take {n : Nat} {s s' : Source} {got : List UInt8}
    (h : s.take n = (.ok got, s')) : s'.pending + n = s.pending := by
  induction s generalizing n s' got with
  | nil =>
    unfold Source.take at h
    split at h
    · cases h
      simpa [Source.pending]
    · cases h
  | cons p s ih =>
    cases p with
    | fault f =>
      unfold Source.take at h
      split at h
      · cases h
        simpa [Source.pending]
      split at h
      · simpa [Source.pending] using ih h
      · cases h
    | bytes bs =>
      unfold Source.take at h
      split at h
      · cases h
        simp only [Source.pending, List.length_drop]
        omega
      split at h
      · rename_i heq
        cases h
        have := ih heq
        simp only [Source.pending]
        omega
      · cases h

theorem Source.pending_takeOne {s s' : Source} {b : UInt8}
    (h : s.takeOne = (.ok (some b), s')) : s'.pending + 1 = s.pending := by
  induction s generalizing s' b with
  | nil => cases h
  | cons p s ih =>
    cases p with
    | fault f =>
      unfold Source.takeOne at h
      split at h
      · simpa [Source.pending] using ih h
      · cases h
    | bytes bs =>
      cases bs with
      | nil =>
        unfold Source.takeOne at h
        simpa [Source.pending] using ih h
      | cons c cs =>
        unfold Source.takeOne at h
        cases h
        simp only [Source.pending, List.length_cons]
        omega

end NarrowLink.Stream
