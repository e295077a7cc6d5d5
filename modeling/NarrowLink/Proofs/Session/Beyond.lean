import NarrowLink.Proofs.Session.Gaps
import NarrowLink.Proofs.Session.Room

/-!
# What a session takes beyond a missing number

A session that misses the number that it expects takes the numbers behind it, one after the other, and
queues an acknowledgement and a report for each of them (`TookBeyond.receive`).  What such a report takes
out of flight at the peer are exactly these numbers (`TookBeyond.acknowledgeRanges`).
-/

namespace NarrowLink.Connection.Session

open Wire

/-- The most that an acknowledgement and a report take in a queue. -/
def answerSize : Nat := Header.size + (Header.size + Sack.size 64)

/-- What became of a session that took the next `k` numbers but for the one that it expects, and queued
these packets. -/
structure TookBeyond (u : Session) (k : Nat) (queue : List Packet) (v : Session) : Prop where
  config : v.config = u.config
  options : v.options = u.options
  remotePort : v.remotePort = u.remotePort
  state : v.state = u.state
  nextSeq : v.nextSeq = u.nextSeq
  oldestUnacked : v.oldestUnacked = u.oldestUnacked
  expected : v.expected = u.expected
  inFlight : v.inFlight = u.inFlight
  early_iff : ∀ b, v.early.get b = true ↔ 0 < Serial.distance u.expected b ∧ Serial.distance u.expected b ≤ k
  hasGap_iff : v.hasGap = true ↔ 0 < k
  outbound : v.outbound.Holds u.remotePort queue
  inTurn : InTurn queue u.nextSeq

variable {u v s : Session} {k : Nat} {queue : List Packet} {p : Packet}

theorem tookBeyond_zero (hearly : ∀ b, u.early.get b = false) (hgap : u.hasGap = false)
    (hq : u.outbound.Holds u.remotePort []) : u.TookBeyond 0 [] u where
  config := rfl
  options := rfl
  remotePort := rfl
  state := rfl
  nextSeq := rfl
  oldestUnacked := rfl
  expected := rfl
  inFlight := rfl
  early_iff b := by
    rw [hearly]
    refine iff_of_false Bool.false_ne_true ?_
    omega
  hasGap_iff := by simp [hgap]
  outbound := hq
  inTurn := inTurn_nil _

theorem TookBeyond.with_inbound (h : u.TookBeyond k queue v) (q : Queue) :
    u.TookBeyond k queue { v with inbound := q } := { h with }

/-- Nothing is queued any more. -/
theorem TookBeyond.taken (h : u.TookBeyond k queue v) {q : Queue} (hq : q.Holds u.remotePort []) :
    u.TookBeyond k [] { v with outbound := q } := { h with
  outbound := hq
  inTurn := inTurn_nil _ }

/-! ## Reports -/

theorem TookBeyond.reportsExactly (h : u.TookBeyond k queue v) (hst : u.state = .connected)
    (hk : k < u.config.window) (hwindow : u.config.window ≤ 128) : v.ReportsExactly := by
  have hopen : v.Open := .inl (h.state.trans hst)
  have haware : v.Aware u.config := {
    config := h.config
    begins := fun hc => absurd hc hopen.not_connecting
    ahead := fun _ b hb => by
      have := (h.early_iff b).1 hb
      rw [h.expected]
      omega
    hasGap_iff := fun _ => by
      rw [h.hasGap_iff]
      constructor
      · intro hpos
        refine ⟨Serial.forward u.expected 1, (h.early_iff _).2 ?_⟩
        rw [Serial.distance_forward_self _ (by simp only [Serial.half]; omega)]
        omega
      · rintro ⟨b, hb⟩
        have := (h.early_iff b).1 hb
        omega }
  exact haware.reportsExactly hwindow hopen.not_over

/-- The report takes exactly what the session has taken out of flight at the peer. -/
theorem TookBeyond.acknowledgeRanges (h : u.TookBeyond k queue v) (hst : u.state = .connected)
    (hk : k < u.config.window) (hwindow : u.config.window ≤ 128) (s : Session) :
    s.acknowledgeRanges v.gapRanges =
      { s with inFlight := ⟨s.inFlight.flights.filter fun f => !v.early.get f.packet.header.relSeq⟩ } := by
  have hexact := (h.reportsExactly hst hk hwindow).acknowledges s.inFlight
  unfold Session.acknowledgeRanges
  rw [← hexact]

theorem TookBeyond.gapReport (h : u.TookBeyond k queue v) (hselective : u.options.selectiveAck = true)
    (hk : 0 < k) : v.gapReport = some (v.packet .reporting v.nextSeq (Sack.encode v.gapRanges)) := by
  have hgap : (v.hasGap && v.options.selectiveAck) = true := by
    rw [h.hasGap_iff.2 hk, h.options, hselective]
    rfl
  unfold Session.gapReport
  rw [if_pos hgap]

theorem TookBeyond.gapReport_zero (h : u.TookBeyond 0 queue v) : v.gapReport = none :=
  gapReport_of_no_gap (Bool.eq_false_iff.2 fun hgap => Nat.lt_irrefl 0 (h.hasGap_iff.1 hgap))

theorem TookBeyond.gapReport_le (h : u.TookBeyond k queue v) (hst : u.state = .connected)
    (hk : k < u.config.window) (hwindow : u.config.window ≤ 128) :
    wireLengths v.gapReport.toList ≤ Header.size + Sack.size 64 := by
  have hlength := (h.reportsExactly hst hk hwindow).length_le
  unfold Session.gapReport
  split
  · rw [Option.toList_some, wireLengths_cons, wireLengths_nil, wireLength_report]
    unfold Sack.size
    omega
  · exact Nat.zero_le _

/-! ## One number more -/

/-- The session takes the next number, and answers it. -/
theorem TookBeyond.receive (h : u.TookBeyond k queue v) (hst : u.state = .connected)
    (hselective : u.options.selectiveAck = true) (hflights : u.inFlight.flights = [])
    (hflags : p.header.flags = .carrying) (hack : p.header.ack = u.oldestUnacked)
    (hrel : p.header.relSeq = Serial.forward u.expected (k + 1)) (hk : k + 1 < u.config.window)
    (hwindow : u.config.window ≤ 128) (hinbound : v.inbound.used + p.wireLength ≤ v.inbound.capacity)
    (houtbound : v.outbound.used + answerSize ≤ v.outbound.capacity) :
    ∃ a r v', v.receive p = (.ok (), v') ∧ u.TookBeyond (k + 1) (queue ++ [a, r]) v' ∧
      v'.inbound.used = v.inbound.used + p.wireLength ∧ v'.inbound.capacity = v.inbound.capacity ∧
      v'.outbound.used ≤ v.outbound.used + answerSize ∧ v'.outbound.capacity = v.outbound.capacity := by
  have hdistance : Serial.distance u.expected p.header.relSeq = k + 1 := by
    rw [hrel, Serial.distance_forward_self _ (by simp only [Serial.half]; omega)]
  have hmissing : ∀ b, ¬ (0 < Serial.distance u.expected b ∧ Serial.distance u.expected b ≤ k) →
      v.early.get b = false := fun b hb => Bool.eq_false_iff.2 (mt (h.early_iff b).1 hb)
  let t := v.takenEarly p
  have ht : u.TookBeyond (k + 1) queue t := { h with
    early_iff := fun b => by
      show (v.early.set p.header.relSeq true).get b = true ↔ _
      rw [ByteMap.get_set]
      split
      · rename_i heq
        rw [← heq, hdistance]
        exact iff_of_true rfl (by omega)
      · rename_i hne
        rw [h.early_iff]
        have hother : Serial.distance u.expected b ≠ k + 1 := fun heq =>
          hne (Serial.eq_of_distance_eq (hdistance.trans heq.symm))
        omega
    hasGap_iff := iff_of_true rfl (Nat.succ_pos k) }
  have hreport : (v.takenEarly p).gapReport = _ := ht.gapReport hselective (Nat.succ_pos k)
  have hle : wireLengths (v.takenEarly p).gapReport.toList ≤ _ := ht.gapReport_le hst hk hwindow
  obtain ⟨q, events, hreceive, hholds, hused, hcapacity⟩ := receive_beyond (s := v) (p := p)
    (h.state.trans hst) hflags
    (by
      rw [hack, ← h.oldestUnacked]
      exact acknowledge_oldest_of_nil (by rw [h.inFlight, hflights]))
    (by rw [h.expected, h.config]; omega) (hmissing _ (by rw [h.expected, Serial.distance_self]; omega))
    (by
      rw [h.expected]
      intro heq
      rw [heq, Serial.distance_self] at hdistance
      omega)
    (hmissing _ (by omega)) hinbound (by rw [h.remotePort]; exact h.outbound)
    (by rw [h.nextSeq]; exact h.inTurn) (by unfold answerSize at houtbound; omega)
  rw [hreport, h.remotePort] at hholds
  have hanswered : u.TookBeyond (k + 1) (queue ++ [t.packet .acknowledging t.nextSeq [],
      t.packet .reporting t.nextSeq (Sack.encode t.gapRanges)])
      { t with outbound := q, events := events } := { ht with
    outbound := hholds
    inTurn := by
      rw [List.append_cons]
      exact inTurn_concat_self ht.nextSeq }
  refine ⟨_, _, _, hreceive, hanswered, rfl, rfl, ?_, hcapacity⟩
  show q.used ≤ _
  rw [hused]
  unfold answerSize
  exact Nat.add_le_add_left (Nat.add_le_add_left hle _) _

end NarrowLink.Connection.Session
