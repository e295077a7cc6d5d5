import NarrowLink.Proofs.Engine.Frames
import NarrowLink.Proofs.Engine.Serving

/-!
# Reports that outgrow the link

If some report that finds room on its way exceeds a frame, the engine offers the link one that is too
long.  A peer that sends every second number only opens a gap with each of them (`Gapped.round`), and in
the end the report of all gaps is as long as the window and the queues allow.  So all packets of an engine fit
the link if and only if no report exceeds a frame (`fitsLink_iff`).
-/

namespace NarrowLink

open Wire

namespace Connection.Session

variable {early : ByteMap Bool}

/-- A range ends at the first number that is missing. -/
theorem length_rangesFrom_some {n : Nat} {k : UInt8} (h : 0 < n → early.get k = false) (first : UInt8) :
    (rangesFrom early n k (some first)).length = (rangesFrom early n k none).length + 1 := by
  cases n with
  | zero => rfl
  | succ n =>
    have hmissing : ¬ early.get k = true := by
      rw [h n.succ_pos]
      exact Bool.false_ne_true
    unfold rangesFrom
    rw [if_neg hmissing, if_neg hmissing]
    rfl

/-- If every second number has arrived, each of them is a range of its own. -/
theorem length_rangesFrom_of_alternate {n i : Nat} {k : UInt8} (hi : 2 * i ≤ n)
    (h : ∀ m < n, early.get (Serial.forward k m) = decide (m % 2 = 1 ∧ m < 2 * i)) :
    (rangesFrom early n k none).length = i := by
  induction i generalizing n k with
  | zero =>
    have hnone := rangesFrom_add (m := 0) (n := n) (k := k) (fun m hm => by
      rw [Nat.zero_add, h m hm, decide_eq_false]
      omega) none
    rw [Nat.zero_add] at hnone
    rw [hnone]
    rfl
  | succ i ih =>
    obtain ⟨n, rfl⟩ := Nat.exists_eq_add_of_le' (Nat.le_trans (by omega : 2 ≤ 2 * (i + 1)) hi)
    have hmissing : ¬ early.get k = true := by
      rw [← Serial.forward_zero k, h 0 (by omega)]
      simp
    have harrived : early.get (Serial.next k) = true := by
      rw [← Serial.forward_zero (Serial.next k), Serial.forward_next, h 1 (by omega)]
      exact decide_eq_true (by omega)
    have hrest : ∀ m < n, early.get (Serial.forward (Serial.next (Serial.next k)) m) =
        decide (m % 2 = 1 ∧ m < 2 * i) := by
      intro m hm
      rw [Serial.forward_next, Serial.forward_next, h (m + 2) (by omega)]
      exact decide_eq_decide.2 (by omega)
    rw [rangesFrom, if_neg hmissing, rangesFrom, if_pos harrived, length_rangesFrom_some, ih (by omega) hrest]
    intro hn
    rw [← Serial.forward_zero (Serial.next (Serial.next k)), hrest 0 hn]
    simp

end Connection.Session

namespace Engine

open Connection (Session)

variable {config : Config} {e : Engine} {s : Session} {i : Nat}

/-- Of `2 * i` numbers the connection has got every second one, and it has nothing to send. -/
structure Gapped (config : Config) (i : Nat) (s : Session) : Prop where
  linked : Linked s
  oldestUnacked : s.oldestUnacked = 1
  flights : s.inFlight.flights = []
  early : ∀ m < 256, s.early.get (Serial.forward 0 m) = decide (m % 2 = 1 ∧ m < 2 * i)
  inbound : s.inbound.used = Header.size * i
  capacity : s.inbound.capacity = config.connectionQueueCapacity
  outbound : s.outbound.stored = []

theorem Untouched.gapped (h : Untouched config s) (hs : Linked s) : Gapped config 0 s where
  linked := hs
  oldestUnacked := h.oldestUnacked
  flights := h.flights
  early m _ := by
    rw [h.early, ByteMap.get_const]
    simp
  inbound := by rw [h.inbound]; rfl
  capacity := by rw [h.inbound]; rfl
  outbound := h.outbound

/-- The session once the next number of these has come as well. -/
def withNext (i : Nat) (s : Session) : Session :=
  { s with
    inbound := s.inbound.add (heard .carrying (Serial.forward 0 (2 * i + 1)) 1 [])
    early := s.early.set (Serial.forward 0 (2 * i + 1)) true
    hasGap := true }

theorem Gapped.next (h : Gapped config i s) (hi : 2 * (i + 1) ≤ 256) {q : Queue} (hq : q.stored = []) :
    Gapped config (i + 1) { withNext i s with outbound := q } where
  linked := { h.linked with }
  oldestUnacked := h.oldestUnacked
  flights := h.flights
  early m hm := by
    show (s.early.set _ true).get _ = _
    rw [ByteMap.get_set, h.early m hm]
    by_cases hlast : m = 2 * i + 1
    · rw [if_pos (congrArg _ hlast.symm), decide_eq_true]
      omega
    · rw [if_neg fun heq => hlast ?_]
      · exact decide_eq_decide.2 (by omega)
      · exact (Serial.forward_inj 0 (by simp only [Serial.half]; omega)
          (by simp only [Serial.half]; omega) heq).symm
  inbound := by
    show s.inbound.used + Header.size = _
    rw [h.inbound]
    exact (Nat.mul_succ _ _).symm
  capacity := h.capacity
  outbound := hq

/-- The report of the gaps. -/
theorem Gapped.gapReport (h : Gapped config i s) (hconfig : s.config = config) (hi : 2 * i ≤ config.window)
    (hwindow : config.window ≤ 128) : (s.packet .reporting s.nextSeq (Sack.encode s.gapRanges)).wireLength =
      reportLength i := by
  have hlength : s.gapRanges.length = i := by
    unfold Session.gapRanges
    rw [h.linked.expected, hconfig]
    exact Session.length_rangesFrom_of_alternate hi fun m hm => h.early m (by omega)
  rw [s.wireLength_report, hlength]
  rfl

/-- The connection answers the next number with an acknowledgement and the report of the gaps. -/
theorem Gapped.receive (hs : Gapped config i s) (hformed : s.Formed config) (hevents : s.events = [])
    (hwindow : config.window ≤ 128) (hi : 2 * (i + 1) ≤ config.window)
    (hinbound : Header.size * (i + 1) ≤ config.connectionQueueCapacity)
    (hroom : reportLength (i + 1) + Header.size ≤ config.connectionQueueCapacity) :
    ∃ a r, a.wireLength = Header.size ∧ r.wireLength = reportLength (i + 1) ∧
      s.receive (heard .carrying (Serial.forward 0 (2 * i + 1)) 1 []) = (.ok (), { withNext i s with
        outbound := [a, r].foldl Queue.add s.outbound
        events := [.outboundAvailable s.localPort] }) := by
  let t := withNext i s
  let r := t.packet .reporting t.nextSeq (Sack.encode t.gapRanges)
  have hr : r.wireLength = reportLength (i + 1) :=
    (hs.next (by omega) hs.outbound).gapReport hformed.config hi hwindow
  have hreport : t.gapReport = some r := by
    unfold Session.gapReport
    rw [show t.options = bothOptions from hs.linked.options]
    rfl
  have hreceive : s.receive (heard .carrying (Serial.forward 0 (2 * i + 1)) 1 []) = (.ok (), t.postAck) := by
    have hturn : 2 * i + 1 < 2 * Serial.half UInt8 := by simp only [Serial.half]; omega
    have hdistance := Serial.distance_forward_self (0 : UInt8) hturn
    have hmissing := hs.early 0 (by omega)
    rw [Serial.forward_zero, ← hs.linked.expected] at hmissing
    refine Connection.receive_early hs.linked.state rfl ?_ ?_ (hmissing.trans (by simp)) ?_ ?_ ?_
    · show s.acknowledge 1 = s
      rw [← hs.oldestUnacked]
      exact Connection.acknowledge_oldest_of_nil hs.flights
    · rw [hs.linked.expected, hformed.config]
      show Serial.distance 0 (Serial.forward 0 (2 * i + 1)) < _
      omega
    · rw [hs.linked.expected]
      intro heq
      rw [show Serial.forward (0 : UInt8) (2 * i + 1) = 0 from heq, Serial.distance_self] at hdistance
      omega
    · refine (hs.early (2 * i + 1) (by omega)).trans (decide_eq_false (by omega))
    · rw [hs.inbound, hs.capacity]
      exact hinbound
  have hpost := Session.postAck_of_room (s := t) hevents (by
    rw [hreport, Option.toList_some, wireLengths_cons, wireLengths_nil, hr]
    show s.outbound.used + _ + _ ≤ s.outbound.capacity
    rw [hformed.consistent.used_eq_zero hs.outbound, hformed.capacity]
    omega)
  refine ⟨t.packet .acknowledging t.nextSeq [], r, rfl, hr, ?_⟩
  rw [hreceive, hpost, hreport]
  rfl

/-- One more of these numbers comes, and the transmitter gets the report. -/
theorem Gapped.round (hs : Gapped config i s) (h : Serving config e s) (hwindow : config.window ≤ 128)
    (hdrained : e.desk.transmitter.queue.stored = []) (hi : 2 * (i + 1) ≤ config.window)
    (hinbound : Header.size * (i + 1) ≤ config.connectionQueueCapacity)
    (hroom : reportLength (i + 1) + Header.size ≤
      min config.connectionQueueCapacity config.queueCapacity) :
    ∃ e' s', Serving config e' s' ∧ Gapped config (i + 1) s' ∧
      ∃ p ∈ e'.desk.transmitter.queue.stored, p.wireLength = reportLength (i + 1) := by
  obtain ⟨-, hformed, hevents⟩ := h.known
  obtain ⟨hconnection, htransmit⟩ := Nat.le_min.1 hroom
  obtain ⟨a, r, ha, hr, hreceive⟩ := hs.receive hformed hevents hwindow hi hinbound hconnection
  have hlasts := (Session.lasting_formed config 1 fun _ => True).receive hformed
    (by unfold Session.Reports; rw [hevents]; exact List.not_mem_nil)
    (show (heard .carrying (Serial.forward 0 (2 * i + 1)) 1 []).port = 1 from rfl)
  have hstored := s.outbound.stored_foldl_add [a, r]
  rw [hs.outbound, List.append_nil] at hstored
  have hhear := h.perform_hear .carrying (Serial.forward 0 (2 * i + 1)) 1
    (show ([] : List UInt8).length ≤ Header.maxPayload from Nat.zero_le _)
  obtain ⟨d, s', hforwarded, hserving, htransmitter⟩ := h.calls hhear
    (fun d hd => ⟨hd, rfl⟩) (by rw [hreceive, hs.linked.localPort]) hlasts
    (by rw [hreceive]; exact fun he => nomatch hs.linked.state.symm.trans he)
    (by rw [hreceive]; exact Queue.stored_ne_nil hstored)
  rw [hreceive] at hforwarded
  have hused := h.desk.ready.consistent.used_eq_zero hdrained
  obtain ⟨ps, q, rfl, hps, rfl, hq⟩ := hforwarded.sent_of_room (by
    show _ + wireLengths ([a, r].foldl Queue.add s.outbound).stored ≤ _
    rw [wireLengths_perm hstored, hused, h.desk.capacity, wireLengths_cons, wireLengths_cons,
      wireLengths_nil, ha, hr]
    omega)
  obtain ⟨p, hp, hlength⟩ := mem_queued e.desk (hps.mem_iff.2 (hstored.mem_iff.2
    (List.mem_cons_of_mem a List.mem_cons_self)))
  refine ⟨_, _, hserving, ?_, p, ?_, hlength.trans hr⟩
  · have hnext := hs.next (by omega) hq
    exact { hnext with linked := { hnext.linked with } }
  · rwa [htransmitter]

theorem reportLength_le {m n : Nat} (h : m ≤ n) : reportLength m ≤ reportLength n := by
  unfold reportLength Sack.size
  omega

/-- Some run leads to any number of gaps, as far as their report finds room. -/
theorem exists_gapped (hconfig : config.Valid) {k : Nat} (hk : 2 * k ≤ config.window)
    (hinbound : Header.size * k ≤ config.connectionQueueCapacity)
    (hroom : reportLength k + Header.size ≤ min config.connectionQueueCapacity config.queueCapacity)
    (hi : i ≤ k) :
    ∃ e s, Serving config e s ∧ Gapped config i s ∧ e.desk.transmitter.queue.stored = [] := by
  induction i with
  | zero =>
    obtain ⟨e, s, h, hlinked, huntouched⟩ := serving_linked hconfig
    obtain ⟨e', h', hdrained⟩ := h.drains
    exact ⟨e', s, h', huntouched.gapped hlinked, hdrained⟩
  | succ i ih =>
    obtain ⟨e, s, h, hs, hdrained⟩ := ih (by omega)
    obtain ⟨e', s', h', hs', -⟩ := hs.round h hconfig.window_le hdrained (by omega)
      (Nat.le_trans (Nat.mul_le_mul_left _ hi) hinbound)
      (Nat.le_trans (Nat.add_le_add_right (reportLength_le hi) _) hroom)
    obtain ⟨e'', h'', hdrained'⟩ := h'.drains
    exact ⟨e'', s', h'', hs', hdrained'⟩

/-- A report that finds room on its way is offered to the link in some run. -/
theorem exists_offered (hconfig : config.Valid) (hi : 2 * (i + 1) ≤ config.window)
    (hinbound : Header.size * (i + 1) ≤ config.connectionQueueCapacity)
    (hroom : reportLength (i + 1) + Header.size ≤
      min config.connectionQueueCapacity config.queueCapacity) :
    ∃ e p, Reached config e ∧ .offering p ∈ e.desk.transmitter.workers ∧
      p.wireLength = reportLength (i + 1) := by
  obtain ⟨e, s, h, hs, hdrained⟩ := exists_gapped hconfig hi hinbound hroom i.le_succ
  obtain ⟨e', s', h', -, p, hp, hlength⟩ := hs.round h hconfig.window_le hdrained hi hinbound hroom
  obtain ⟨e'', hreached, hoffered⟩ := h'.offers hp
  exact ⟨e'', p, hreached, hoffered, hlength⟩

/-- All packets that an engine has accepted for transmission, and all frames that it offers to the link,
have the length of a frame at most in every run, if and only if no selective acknowledgement that finds room
on its way to the link exceeds a frame. -/
theorem fitsLink_iff (hconfig : config.Valid) :
    (∀ acts, (Chronicle.after config acts).FitsLink config) ↔ config.FitsReports := by
  refine ⟨fun h count hcount hinbound hroom => ?_, fun h => fitsLink_of_fitsReports hconfig h⟩
  cases count with
  | zero => exact hconfig.mtu_gt
  | succ i =>
    obtain ⟨e, p, ⟨acts, rfl⟩, hoffered, hlength⟩ := exists_offered hconfig (by omega) hinbound hroom
    rw [← Chronicle.engine_after] at hoffered
    rw [← hlength, ← Packet.length_encode]
    exact (h acts).offered p hoffered

/-- By default, every packet of every run fits the link. -/
theorem fitsLink_default : ({} : Config).Valid ∧ ∀ acts, (Chronicle.after {} acts).FitsLink {} := by
  have hconfig := ({} : Config).validate_eq_ok_iff.1 rfl
  exact ⟨hconfig, (fitsLink_iff hconfig).2 (by decide)⟩

/-- A frame that takes a payload of a single byte has no room for a range, so the report of the first gap
exceeds it. -/
theorem not_fitsLink_of_single_byte :
    ({ mtu := 13, window := 2 } : Config).validate = .ok () ∧
      ¬ (Chronicle.after { mtu := 13, window := 2 } [.start,
        .bind 1 ⟨0, 2, { selectiveAck := true }⟩, hear .opening 255 0 [], hear .carrying 1 1 []]).FitsLink
          { mtu := 13, window := 2 } := by
  refine ⟨rfl, fun h => ?_⟩
  have hlong : (Chronicle.after { mtu := 13, window := 2 } [.start,
      .bind 1 ⟨0, 2, { selectiveAck := true }⟩, hear .opening 255 0 [],
      hear .carrying 1 1 []]).batches.any (fun b => b.any fun p => 13 < p.wireLength) = true := by
    decide +kernel
  obtain ⟨b, hb, hany⟩ := List.any_eq_true.1 hlong
  obtain ⟨p, hp, hlt⟩ := List.any_eq_true.1 hany
  exact Nat.not_lt.2 (h.accepted b hb p hp) (of_decide_eq_true hlt)

end Engine

end NarrowLink
