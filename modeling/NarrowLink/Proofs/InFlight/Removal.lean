import NarrowLink.Proofs.InFlight.Schedule
import NarrowLink.Proofs.Serial.Forward

/-!
# What an acknowledgement removes

Numbers wrap around, so which packets come before an acknowledgement is decided by comparing two bytes.
Seen from a base, the comparison agrees with the distances as long as all packets lie less than half the
number space ahead of it, in whatever order they were sent and whatever numbers are missing.  The
acknowledgement itself may lie half the number space ahead of the base.  There it and the oldest packet
precede each other, but only the packet is asked whether it does, and so it is removed as it should be
(`precedes_forward`).

`removeBefore_forward` says that the packets behind the acknowledgement are removed and counted, and that
nothing happens to the others.
-/

namespace NarrowLink.Connection.InFlight

/-- What is not left is gone. -/
theorem tally_filter (f : InFlight) (gone : Flight → Bool) :
    f.tally ⟨f.flights.filter fun e => !gone e⟩ =
      (f.flights.countP gone, ⟨f.flights.filter fun e => !gone e⟩) := by
  have hparts := List.length_eq_countP_add_countP gone (l := f.flights)
  have hleft : (f.flights.filter fun e => !gone e).length = f.flights.countP fun e => ¬ gone e := by
    simp [List.countP_eq_length_filter]
  refine Prod.ext ?_ rfl
  show f.flights.length - (f.flights.filter fun e => !gone e).length = f.flights.countP gone
  omega

/-- A number less than half the number space ahead of a base comes before one at most that far ahead of
it precisely if fewer steps lead to it. -/
theorem precedes_forward {base relSeq : UInt8} {j : Nat} (hnear : Serial.distance base relSeq ≤ 127)
    (hj : j ≤ 128) :
    Serial.precedes relSeq (Serial.forward base j) = decide (Serial.distance base relSeq < j) := by
  have hiff := Serial.precedes_forward_iff base (m := Serial.distance base relSeq) (n := j)
    (by simp only [Serial.half]; omega) (by simp only [Serial.half]; omega)
  rw [Serial.forward_distance] at hiff
  rw [Bool.eq_iff_iff, hiff, decide_eq_true_eq]

/-- If all packets lie less than half the number space ahead of a base, then an acknowledgement at most
half the number space ahead removes precisely those that lie less far ahead, and tells how many there
were.  The others stay as they are, in their order. -/
theorem removeBefore_forward (base : UInt8) (f : InFlight) (j : Nat)
    (hnear : ∀ e ∈ f.flights, Serial.distance base e.packet.header.relSeq ≤ 127) (hj : j ≤ 128) :
    f.removeBefore (Serial.forward base j) =
      (f.flights.countP fun e => Serial.distance base e.packet.header.relSeq < j,
        ⟨f.flights.filter fun e => j ≤ Serial.distance base e.packet.header.relSeq⟩) := by
  have hbefore (e : Flight) (he : e ∈ f.flights) := precedes_forward (hnear e he) hj
  rw [removeBefore, acknowledgeBefore, tally_filter]
  refine Prod.ext ?_ (congrArg InFlight.mk ?_)
  · exact List.countP_congr fun e he => by rw [hbefore e he]
  · refine List.filter_congr fun e he => ?_
    rw [hbefore e he, ← decide_not]
    exact decide_eq_decide.2 Nat.not_lt

/-- Packets 3, 0, 127 and 4 steps ahead of number 250, in this order. -/
def scattered : InFlight :=
  ⟨[⟨numbered 253, 40, 2⟩, ⟨numbered 250, 70, 0⟩, ⟨numbered 121, 10, 3⟩, ⟨numbered 254, 90, 1⟩]⟩

/-- Half the number space ahead of 250 all packets are removed.  Only 4 steps ahead, the packet with that
very number stays. -/
theorem removeBefore_forward_of_scattered :
    (∀ e ∈ scattered.flights, Serial.distance 250 e.packet.header.relSeq ≤ 127) ∧
      128 ≤ 128 ∧ scattered.removeBefore 122 = (4, {}) ∧
      4 ≤ 128 ∧ scattered.removeBefore 254 =
        (2, ⟨[⟨numbered 121, 10, 3⟩, ⟨numbered 254, 90, 1⟩]⟩) := by
  have hnear : ∀ e ∈ scattered.flights, Serial.distance 250 e.packet.header.relSeq ≤ 127 := by decide
  have hhalf : Serial.forward (250 : UInt8) 128 = 122 := by decide +kernel
  have hfour : Serial.forward (250 : UInt8) 4 = 254 := by decide +kernel
  have hall := removeBefore_forward 250 scattered 128 hnear (by decide)
  have hsome := removeBefore_forward 250 scattered 4 hnear (by decide)
  rw [hhalf] at hall
  rw [hfour] at hsome
  exact ⟨hnear, by decide, hall.trans (by decide), by decide, hsome.trans (by decide +kernel)⟩

end NarrowLink.Connection.InFlight
