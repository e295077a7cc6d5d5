import Mathlib.Data.List.Perm.Subperm
import NarrowLink.Proofs.Session.Receiving

/-!
# How long a report is

A selective acknowledgement lists each range of numbers that arrived beyond a gap.  What is expected next
has not arrived, so there are no more ranges than pairs of numbers in the window, and each range has a
packet of its own in the inbound queue (`gapRanges_le`).
-/

namespace NarrowLink.Connection.Session

open Wire

/-! ## Ranges -/

/-- Two ranges are at least one number apart. -/
theorem length_rangesFrom_le (early : ByteMap Bool) (n : Nat) (k : UInt8) :
    2 * (rangesFrom early n k none).length ≤ n + 1 ∧
      ∀ first, 2 * (rangesFrom early n k (some first)).length ≤ n + 2 := by
  induction n generalizing k with
  | zero =>
    refine ⟨?_, fun first => ?_⟩ <;> simp [rangesFrom]
  | succ n ih =>
    obtain ⟨hnone, hsome⟩ := ih (Serial.next k)
    refine ⟨?_, fun first => ?_⟩
    · unfold rangesFrom
      split
      · exact hsome _
      · simp only
        omega
    · unfold rangesFrom
      split
      · have := hsome first
        simp only [Option.getD_some]
        omega
      · simp only [List.length_cons]
        omega

/-- Behind a number that is missing, each range takes up two numbers. -/
theorem length_rangesFrom_of_missing {early : ByteMap Bool} {k : UInt8} (h : early.get k = false)
    (n : Nat) : 2 * (rangesFrom early n k none).length ≤ n := by
  cases n with
  | zero => exact Nat.le_refl 0
  | succ n =>
    unfold rangesFrom
    rw [if_neg (by rw [h]; exact Bool.false_ne_true)]
    exact (length_rangesFrom_le early n (Serial.next k)).1

/-- The numbers that arrived among the `n` numbers from `k` on. -/
def arrivals (early : ByteMap Bool) (n : Nat) (k : UInt8) : List UInt8 :=
  ((List.range n).map (Serial.forward k)).filter early.get

theorem arrivals_succ (early : ByteMap Bool) (n : Nat) (k : UInt8) :
    arrivals early (n + 1) k =
      if early.get k then k :: arrivals early n (Serial.next k) else arrivals early n (Serial.next k) := by
  have hrest : (List.range (n + 1)).map (Serial.forward k) =
      k :: (List.range n).map (Serial.forward (Serial.next k)) := by
    rw [List.range_succ_eq_map, List.map_cons, List.map_map]
    exact congrArg (List.cons k) (List.map_congr_left fun i _ => (Serial.forward_next k i).symm)
  unfold arrivals
  rw [hrest, List.filter_cons]

/-- Something arrived in each range. -/
theorem length_rangesFrom_le_arrivals (early : ByteMap Bool) (n : Nat) (k : UInt8) :
    (rangesFrom early n k none).length ≤ (arrivals early n k).length ∧
      ∀ first, (rangesFrom early n k (some first)).length ≤ (arrivals early n k).length + 1 := by
  induction n generalizing k with
  | zero => exact ⟨Nat.le_refl 0, fun _ => Nat.le_refl 1⟩
  | succ n ih =>
    obtain ⟨hnone, hsome⟩ := ih (Serial.next k)
    rw [arrivals_succ]
    refine ⟨?_, fun first => ?_⟩
    · unfold rangesFrom
      split
      · exact hsome _
      · exact hnone
    · unfold rangesFrom
      split
      · exact Nat.le_succ_of_le (hsome first)
      · exact Nat.succ_le_succ hnone

/-! ## Reports of a session -/

variable {config : Config} {port : UInt8} {told : Prop} {s : Session}

/-- The packets that arrived early are in the inbound queue. -/
theorem length_arrivals_le {e : UInt8} {k : Nat} {ps : List Packet} (h : Waits s e k ps) {n : Nat}
    (hn : n ≤ 256) : (arrivals s.early n s.expected).length ≤ ps.length := by
  have hnodup : (arrivals s.early n s.expected).Nodup := by
    refine List.Nodup.filter _ (List.Nodup.map_on ?_ List.nodup_range)
    intro i hi j hj heq
    rw [List.mem_range] at hi hj
    exact Serial.forward_inj s.expected (by simp only [Serial.half]; omega)
      (by simp only [Serial.half]; omega) heq
  have hsub : ∀ b ∈ arrivals s.early n s.expected, b ∈ ps.map fun p => p.header.relSeq := by
    intro b hb
    obtain ⟨p, hp, hrel, -⟩ := (h.early b).1 (List.mem_filter.1 hb).2
    exact List.mem_map.2 ⟨p, hp, hrel⟩
  have hle := (hnodup.subperm hsub).length_le
  rwa [List.length_map] at hle

/-- A session reports so many ranges at most that each of them has two numbers of the window to itself,
and a packet in the inbound queue. -/
theorem Receiving.gapRanges_le (h : s.Receiving config port told) (hopen : s.Open)
    (hwindow : config.window ≤ 128) :
    2 * s.gapRanges.length ≤ config.window ∧
      Header.size * s.gapRanges.length ≤ config.connectionQueueCapacity := by
  obtain ⟨e, k, ps, hw, -, hmissing⟩ := h.follows hopen
  unfold gapRanges
  rw [h.config]
  refine ⟨length_rangesFrom_of_missing hmissing _, ?_⟩
  calc Header.size * (rangesFrom s.early config.window s.expected none).length
      ≤ Header.size * ps.length :=
        Nat.mul_le_mul_left _ (Nat.le_trans (length_rangesFrom_le_arrivals _ _ _).1
          (length_arrivals_le hw (Nat.le_trans hwindow (by decide))))
    _ ≤ wireLengths ps := size_mul_length_le ps
    _ = wireLengths (s.inbound.packets s.localPort) := by rw [hw.holds.packets]
    _ ≤ s.inbound.used := h.consistent.counted.wireLengths_le s.localPort
    _ ≤ config.connectionQueueCapacity := h.room

theorem wireLength_report (s : Session) :
    (s.packet .reporting s.nextSeq (Sack.encode s.gapRanges)).wireLength =
      Header.size + Sack.size s.gapRanges.length := by
  show Header.size + (Sack.encode s.gapRanges).length = _
  unfold Sack.encode Sack.size
  rw [List.length_cons, Sack.length_endsOf, Nat.add_comm 1]

end NarrowLink.Connection.Session
