import NarrowLink.Proofs.Exchange.Sending
import NarrowLink.Proofs.Exchange.Widening

/-!
# What a session queues in turn

The numbers that a session gives out ascend, so what it sends goes behind what it has queued before, if
its outbound queue has room (`launch_in_turn`, `send_in_turn`).  Taking what is queued gives all of it and
makes room (`fetchOutbound_in_turn`).
-/

namespace NarrowLink.Connection

open Wire

variable {s : Session} {queue : List Packet} {n port ack : UInt8} {ps : List Packet}

/-- A packet with this number goes behind all that is queued. -/
def InTurn (queue : List Packet) (n : UInt8) : Prop :=
  ∀ z, queue.getLast? = some z → Serial.precedes n z.header.relSeq = false

theorem inTurn_nil (n : UInt8) : InTurn [] n := fun _ h => nomatch h

theorem not_precedes_next (n : UInt8) : Serial.precedes (Serial.next n) n = false := by
  refine Bool.eq_false_iff.2 fun h => ?_
  have hone := (Serial.precedes_forward_iff n (m := 1) (n := 0) (by simp only [Serial.half]; omega)
    (Nat.zero_le _)).1 h
  omega

theorem inTurn_concat {p : Packet} (hrel : p.header.relSeq = n) :
    InTurn (queue ++ [p]) (Serial.next n) := by
  intro z hz
  rw [List.getLast?_concat, Option.some.injEq] at hz
  rw [← hz, hrel]
  exact not_precedes_next n

/-- A packet with the next number goes behind what is queued under that number. -/
theorem inTurn_concat_self {p : Packet} (hrel : p.header.relSeq = n) : InTurn (queue ++ [p]) n := by
  intro z hz
  rw [List.getLast?_concat, Option.some.injEq] at hz
  rw [← hz, hrel]
  exact Serial.not_precedes_self n

theorem holds_add_in_turn {q : Queue} (h : q.Holds port queue) {p : Packet} (hport : p.port = port)
    (hrel : p.header.relSeq = n) (hturn : InTurn queue n) : (q.add p).Holds port (queue ++ [p]) := by
  have := h.add hport
  rwa [Order.reliability.insert_eq_append p fun z hz => ?_] at this
  have := hturn z hz
  rwa [← hrel] at this

/-- A packet for which there is room is queued in turn. -/
theorem post_in_turn (hq : s.outbound.Holds s.remotePort queue) {p : Packet}
    (hport : p.port = s.remotePort) (hturn : InTurn queue p.header.relSeq)
    (hroom : s.outbound.fits p.wireLength = true) : ∃ q events,
      s.post p = { s with outbound := q, events := events } ∧ q.Holds s.remotePort (queue ++ [p]) ∧
        q.used = s.outbound.used + p.wireLength ∧ q.capacity = s.outbound.capacity := by
  obtain ⟨events, he⟩ := raise_fields { s with outbound := s.outbound.add p }
    (.outboundAvailable s.localPort)
  refine ⟨s.outbound.add p, events, ?_, holds_add_in_turn hq hport rfl hturn, rfl, rfl⟩
  unfold Session.post Queue.push
  rw [if_pos hroom]
  exact he

theorem gapReport_of_no_gap (h : s.hasGap = false) : s.gapReport = none := by
  unfold Session.gapReport
  rw [h]
  rfl

/-- The report of the gap, if there is one, is queued in turn. -/
theorem postGapReport_in_turn (hq : s.outbound.Holds s.remotePort queue) (hturn : InTurn queue s.nextSeq)
    (hroom : s.outbound.fits (wireLengths s.gapReport.toList) = true) : ∃ q events,
      s.postGapReport = { s with outbound := q, events := events } ∧
        q.Holds s.remotePort (queue ++ s.gapReport.toList) ∧
        q.used = s.outbound.used + wireLengths s.gapReport.toList ∧
        q.capacity = s.outbound.capacity := by
  unfold Session.postGapReport
  cases hgap : s.gapReport with
  | none => exact ⟨s.outbound, s.events, rfl, by simpa using hq, rfl, rfl⟩
  | some r =>
    have hr : r = s.packet .reporting s.nextSeq (Sack.encode s.gapRanges) := by
      unfold Session.gapReport at hgap
      split at hgap <;> cases hgap
      rfl
    rw [hgap] at hroom
    exact post_in_turn hq (by rw [hr]; rfl) (by rw [hr]; exact hturn) hroom

/-- An acknowledgement is queued in turn, and the report of the gap behind it. -/
theorem postAck_in_turn (hq : s.outbound.Holds s.remotePort queue) (hturn : InTurn queue s.nextSeq)
    (hroom : s.outbound.fits (Header.size + wireLengths s.gapReport.toList) = true) : ∃ q events,
      s.postAck = { s with outbound := q, events := events } ∧
        q.Holds s.remotePort
          (queue ++ s.packet .acknowledging s.nextSeq [] :: s.gapReport.toList) ∧
        q.used = s.outbound.used + (Header.size + wireLengths s.gapReport.toList) ∧
        q.capacity = s.outbound.capacity := by
  have hboth : s.outbound.fits
      (wireLengths (s.packet .acknowledging s.nextSeq [] :: s.gapReport.toList)) = true := hroom
  obtain ⟨hpush, hroom'⟩ := fits_cons hboth
  obtain ⟨q, events, hpost, hholds, hused, hcapacity⟩ :=
    post_in_turn hq (p := s.packet .acknowledging s.nextSeq []) rfl hturn
      (decide_eq_true (Queue.push_eq_ok_iff.1 hpush).1)
  let t : Session := { s with outbound := q, events := events }
  have hfits : t.outbound.fits (wireLengths t.gapReport.toList) = true := by
    unfold Queue.fits at hroom' ⊢
    rw [show t.outbound.used = _ from hused, show t.outbound.capacity = _ from hcapacity]
    exact hroom'
  obtain ⟨q', events', hpost', hholds', hused', hcapacity'⟩ :=
    postGapReport_in_turn (s := t) hholds (inTurn_concat_self rfl) hfits
  refine ⟨q', events', ?_, ?_, ?_, hcapacity'.trans hcapacity⟩
  · unfold Session.postAck
    rw [hpost]
    exact hpost'
  · rwa [List.append_assoc] at hholds'
  · rw [hused', show t.outbound.used = _ from hused, Nat.add_assoc]
    rfl

/-! ## Sending -/

theorem Stamped.getElem? (h : Stamped port ack n ps) {i : Nat} {p : Packet} (hp : ps[i]? = some p) :
    p.port = port ∧ p.header.flags = .carrying ∧ p.header.relSeq = Serial.forward n i ∧
      p.header.ack = ack := by
  induction ps generalizing n i with
  | nil => cases hp
  | cons q qs ih =>
    obtain ⟨hport, hflags, hrel, hack, hrest⟩ := h
    cases i with
    | zero =>
      cases hp
      exact ⟨hport, hflags, hrel, hack⟩
    | succ i =>
      rw [← Serial.forward_next]
      exact ih hrest hp

theorem Stamped.of_mem (h : Stamped port ack n ps) {p : Packet} (hp : p ∈ ps) :
    p.header.flags = .carrying ∧ ∃ i < ps.length, p.header.relSeq = Serial.forward n i := by
  obtain ⟨i, hi, hget⟩ := List.mem_iff_getElem.1 hp
  obtain ⟨-, hflags, hrel, -⟩ := h.getElem? (List.getElem?_eq_some_iff.2 ⟨hi, hget⟩)
  exact ⟨hflags, i, hi, hrel⟩

/-- Packets that get the next numbers are queued in turn. -/
theorem launch_in_turn (hq : s.outbound.Holds s.remotePort queue) (hturn : InTurn queue n)
    (hst : Stamped s.remotePort s.expected n ps) (hroom : s.outbound.fits (wireLengths ps) = true)
    (now : Nat) : ∃ q, s.launch now ps = (.ok (), {
        s with
        inFlight := ⟨s.inFlight.flights ++ ps.map (⟨·, now, 0⟩)⟩
        outbound := q }) ∧
      q.Holds s.remotePort (queue ++ ps) ∧
      q.used = s.outbound.used + wireLengths ps ∧ q.capacity = s.outbound.capacity := by
  induction ps generalizing s n queue with
  | nil => exact ⟨s.outbound, by simp [Session.launch], by simpa using hq, rfl, rfl⟩
  | cons p ps ih =>
    obtain ⟨hport, -, hrel, -, hrest⟩ := hst
    obtain ⟨hpush, hroom'⟩ := fits_cons hroom
    obtain ⟨q, he, hholds, hused, hcapacity⟩ :=
      ih (s := { s with inFlight := s.inFlight.push p now, outbound := s.outbound.add p })
        (holds_add_in_turn hq hport hrel hturn) (inTurn_concat hrel) hrest hroom'
    refine ⟨q, ?_, ?_, ?_, hcapacity⟩
    · unfold Session.launch
      simp only [hpush]
      rw [he]
      simp [InFlight.push]
    · rwa [List.append_assoc] at hholds
    · rw [hused, wireLengths_cons]
      exact Nat.add_assoc _ _ _

/-- A message for which there is room everywhere is sent in turn, behind the report of the gap. -/
theorem send_in_turn (ps : List Packet) (hst : s.state = .connected)
    (hwindow : s.inFlight.length + ps.length ≤ s.config.window)
    (hq : s.outbound.Holds s.remotePort queue) (hturn : InTurn queue s.nextSeq)
    (hroom : s.outbound.fits (wireLengths s.gapReport.toList + wireLengths ps) = true)
    (numbers : List UInt8) (now : Nat) :
    ∃ qs q events, s.send ps now (fun ps => (numberFragments numbers ps, ())) = (.ok (), {
        s with
        nextSeq := Serial.forward s.nextSeq ps.length
        inFlight := ⟨s.inFlight.flights ++ qs.map (⟨·, now, 0⟩)⟩
        outbound := q
        events := events }) ∧
      q.Holds s.remotePort (queue ++ s.gapReport.toList ++ qs) ∧
      Stamped s.remotePort s.expected s.nextSeq qs ∧
      qs.length = ps.length ∧ wireLengths qs = wireLengths ps ∧
      q.used = s.outbound.used + (wireLengths s.gapReport.toList + wireLengths ps) ∧
      q.capacity = s.outbound.capacity := by
  have hfits : ∀ {q : Queue} {m : Nat}, q.fits m = true ↔ q.used + m ≤ q.capacity :=
    decide_eq_true_iff
  rw [hfits] at hroom
  have hadmits : s.admits ps = .ok () := by
    have hlength : (s.gapReport.map Packet.wireLength).getD 0 = wireLengths s.gapReport.toList := by
      cases s.gapReport <;> simp
    unfold Session.admits
    rw [if_neg (fun h => h hst), if_neg (Nat.not_lt.2 hwindow)]
    simp only
    rw [hlength, Nat.add_comm (wireLengths ps), if_pos (hfits.2 hroom)]
  obtain ⟨q₀, events₀, hreport, hholds₀, hused₀, hcapacity₀⟩ :=
    postGapReport_in_turn hq hturn (hfits.2 (by omega))
  let t : Session := { s with outbound := q₀, events := events₀ }
  have hturn' : InTurn (queue ++ s.gapReport.toList) t.nextSeq := by
    unfold Session.gapReport
    split
    · exact inTurn_concat_self rfl
    · simpa using hturn
  obtain ⟨qs, hstamp, hnumbers⟩ := stamp_spec t ps
  obtain ⟨hstamped, -, hwire, hlen⟩ := hnumbers numbers
  obtain ⟨q, hlaunch, hholds, hused, hcapacity⟩ :=
    launch_in_turn (s := { t with nextSeq := Serial.forward s.nextSeq ps.length }) hholds₀ hturn' hstamped
      (hfits.2 (by
        show q₀.used + _ ≤ q₀.capacity
        rw [hwire]
        omega)) now
  refine ⟨numberFragments numbers qs, q, ?_⟩
  unfold Session.send
  rw [hadmits, hreport]
  simp only
  rw [hstamp]
  simp only
  rw [hlaunch]
  obtain ⟨events, he⟩ := raise_fields {
      t with
      nextSeq := Serial.forward s.nextSeq ps.length
      inFlight := ⟨s.inFlight.flights ++ (numberFragments numbers qs).map (⟨·, now, 0⟩)⟩
      outbound := q } (.outboundAvailable s.localPort)
  refine ⟨events, congrArg (Prod.mk _) he, hholds, hstamped, hlen, hwire, ?_, hcapacity.trans hcapacity₀⟩
  rw [hused, hwire, show Queue.used _ = _ from hused₀, Nat.add_assoc]

/-- A connection for which there is room is closed in turn. -/
theorem close_in_turn (hst : s.state = .connected)
    (hroom : s.outbound.used + Header.size ≤ s.outbound.capacity) (now : Nat) :
    ∃ q events, s.close now = (.ok (), {
      s with
      state := .disconnecting
      nextSeq := Serial.next s.nextSeq
      inFlight := s.inFlight.push (s.packet .closing s.nextSeq []) now
      outbound := q
      events := events }) := by
  rcases postNumbered_cases s .closing now with ⟨e, he⟩ | ⟨s', events, he, hs'⟩
  · unfold Session.postNumbered at he
    simp only at he
    have hfits : s.outbound.fits (s.packet .closing s.nextSeq []).wireLength = true := decide_eq_true hroom
    have hpush : s.outbound.push (s.packet .closing s.nextSeq []) =
        .ok (s.outbound.add (s.packet .closing s.nextSeq [])) := if_pos hfits
    rw [if_pos hfits, hpush] at he
    cases he
  · obtain ⟨events', hmove⟩ := moveTo_fields s' .disconnecting
    unfold Session.close
    rw [hst, he]
    simp only
    rw [hmove, hs']
    exact ⟨_, events', rfl⟩

/-! ## What arrives on an open connection -/

section Arriving

variable {p : Packet}

/-- An acknowledgement of nothing new changes nothing, if the numbers in flight span less than half the
number space. -/
theorem acknowledge_oldest
    (h : ∀ f ∈ s.inFlight.flights, Serial.distance s.oldestUnacked f.packet.header.relSeq < 128) :
    s.acknowledge s.oldestUnacked = s := by
  have hkept : s.inFlight.acknowledgeBefore s.oldestUnacked = s.inFlight := by
    refine congrArg InFlight.mk (List.filter_eq_self.2 fun f hf => ?_)
    rw [Bool.not_eq_true', Serial.precedes, decide_eq_false_iff_not]
    exact Nat.not_le.2 (h f hf)
  unfold Session.acknowledge
  rw [hkept, ite_self]

theorem acknowledge_oldest_of_nil (h : s.inFlight.flights = []) : s.acknowledge s.oldestUnacked = s := by
  refine acknowledge_oldest fun f hf => ?_
  rw [h] at hf
  cases hf

theorem receiveOpen_acknowledging (hflags : p.header.flags = .acknowledging) :
    s.receiveOpen p = (.ok (), s.acknowledge p.header.ack) := by
  unfold Session.receiveOpen
  rw [hflags]
  rfl

theorem receiveOpen_carrying (hflags : p.header.flags = .carrying) :
    s.receiveOpen p = (s.acknowledge p.header.ack).receiveData p := by
  unfold Session.receiveOpen
  rw [hflags]
  rfl

theorem receive_connected (hst : s.state = .connected) (hrst : p.header.flags.rst = false) :
    s.receive p = s.receiveOpen p := by
  unfold Session.receive
  rw [hst, hrst, if_neg Bool.false_ne_true]

theorem receive_acknowledging (hst : s.state = .connected)
    (hflags : p.header.flags = .acknowledging) :
    s.receive p = (.ok (), s.acknowledge p.header.ack) :=
  (receive_connected hst (by rw [hflags]; rfl)).trans (receiveOpen_acknowledging hflags)

theorem receive_reporting (hst : s.state = .connected) (hflags : p.header.flags = .reporting)
    {ranges : List (UInt8 × UInt8)} (hranges : Sack.decode p.payload = .ok ranges) :
    s.receive p = (.ok (), (s.acknowledge p.header.ack).acknowledgeRanges ranges) := by
  rw [receive_connected hst (by rw [hflags]; rfl)]
  unfold Session.receiveOpen
  rw [hflags, hranges]
  rfl

theorem receive_carrying (hst : s.state = .connected) (hflags : p.header.flags = .carrying) :
    s.receive p = (s.acknowledge p.header.ack).receiveData p :=
  (receive_connected hst (by rw [hflags]; rfl)).trans (receiveOpen_carrying hflags)

/-- Data outside of the window is refused. -/
theorem receive_outside (hst : s.state = .connected) (hflags : p.header.flags = .carrying)
    (hack : p.header.ack = s.oldestUnacked) (hflights : s.inFlight.flights = [])
    (hfar : s.config.window ≤ Serial.distance s.expected p.header.relSeq)
    (hahead : Serial.precedes p.header.relSeq s.expected = false) :
    (s.receive p).1 = .error (.inconsistent (.outsideWindow p.header.relSeq s.expected)) := by
  rw [receive_carrying hst hflags, hack, acknowledge_oldest_of_nil hflights]
  unfold Session.receiveData Session.refuse
  simp only
  rw [if_pos hfar, hahead, if_neg Bool.false_ne_true]

end Arriving

/-! ## Data beyond a gap -/

section Gap

variable {early : ByteMap Bool}

/-- A single number that has arrived is a range of its own. -/
theorem rangesFrom_single {i n : Nat} {k : UInt8} (hi : i < n)
    (h : ∀ j < n, early.get (Serial.forward k j) = decide (j = i)) :
    Session.rangesFrom early n k none = [(Serial.forward k i, Serial.forward k i)] := by
  obtain ⟨m, rfl⟩ := Nat.exists_eq_add_of_le (Nat.succ_le_of_lt hi)
  have hafter : ∀ j < m, early.get (Serial.forward k (i.succ + j)) = false := fun j hj => by
    rw [h _ (by omega), decide_eq_false_iff_not]
    omega
  rw [Session.rangesFrom_add hafter]
  clear hafter hi
  induction i generalizing k with
  | zero =>
    have hk := h 0 (by omega)
    rw [Serial.forward_zero] at hk
    rw [Session.rangesFrom, if_pos (hk.trans (decide_eq_true rfl)), Session.rangesFrom]
    exact congrArg (fun b => [(k, b)]) (UInt8.add_sub_cancel k 1)
  | succ i ih =>
    have hk := h 0 (by omega)
    rw [Serial.forward_zero, decide_eq_false (by omega)] at hk
    rw [Session.rangesFrom, if_neg (by rw [hk]; exact Bool.false_ne_true)]
    rw [ih fun j hj => ?_, Serial.forward_next]
    rw [Serial.forward_next, h _ (by omega)]
    exact decide_eq_decide.2 (by omega)

/-- Data that is taken beyond a gap changes nothing else. -/
theorem absorb_beyond (q : Queue) {relSeq : UInt8} (hearly : s.early.get s.expected = false)
    (hne : relSeq ≠ s.expected) :
    s.absorb q relSeq =
      { s with inbound := q, early := s.early.set relSeq true, hasGap := true } := by
  have hstop : (s.early.set relSeq true).get s.expected = false := by
    rw [ByteMap.get_set_of_ne _ _ hne, hearly]
  have hrun : Session.runFrom 256 (s.early.set relSeq true) s.expected =
      (s.early.set relSeq true, s.expected) := by
    rw [Session.runFrom, if_neg (by rw [hstop]; exact Bool.false_ne_true)]
  have hgap : (s.early.set relSeq true).values.any id = true :=
    ByteMap.any_values_iff.2 ⟨relSeq, ByteMap.get_set_self _ _ _⟩
  unfold Session.absorb Session.advance Session.arrive
  simp only [hrun, hgap]
  rw [if_neg (fun h => h rfl)]

/-- The session after it has taken data that is early, before it says so. -/
def Session.takenEarly (s : Session) (p : Packet) : Session :=
  { s with
    inbound := s.inbound.add p
    early := s.early.set p.header.relSeq true
    hasGap := true }

/-- Data beyond a number that is missing is taken if there is room for it. -/
theorem receive_early {p : Packet} (hst : s.state = .connected) (hflags : p.header.flags = .carrying)
    (hack : s.acknowledge p.header.ack = s)
    (hnear : Serial.distance s.expected p.header.relSeq < s.config.window)
    (hmissing : s.early.get s.expected = false) (hne : p.header.relSeq ≠ s.expected)
    (hnew : s.early.get p.header.relSeq = false)
    (hroom : s.inbound.used + p.wireLength ≤ s.inbound.capacity) :
    s.receive p = (.ok (), (s.takenEarly p).postAck) := by
  have hpush : s.inbound.push p = .ok (s.inbound.add p) := Queue.push_eq_ok_iff.2 ⟨hroom, rfl⟩
  rw [receive_carrying hst hflags, hack, receiveData_eq hnear]
  unfold Session.takeData
  rw [hnew, if_neg Bool.false_ne_true, hpush]
  simp only
  rw [absorb_beyond _ hmissing hne]
  rfl

/-- Data beyond a number that is missing is taken and answered if there is room for both. -/
theorem receive_beyond {p : Packet} (hst : s.state = .connected) (hflags : p.header.flags = .carrying)
    (hack : s.acknowledge p.header.ack = s)
    (hnear : Serial.distance s.expected p.header.relSeq < s.config.window)
    (hmissing : s.early.get s.expected = false) (hne : p.header.relSeq ≠ s.expected)
    (hnew : s.early.get p.header.relSeq = false)
    (hinbound : s.inbound.used + p.wireLength ≤ s.inbound.capacity)
    (hq : s.outbound.Holds s.remotePort queue) (hturn : InTurn queue s.nextSeq)
    (houtbound : s.outbound.used + (Header.size + wireLengths (s.takenEarly p).gapReport.toList) ≤
      s.outbound.capacity) : ∃ q events,
      s.receive p = (.ok (), { s.takenEarly p with outbound := q, events := events }) ∧
        q.Holds s.remotePort
          (queue ++ s.packet .acknowledging s.nextSeq [] :: (s.takenEarly p).gapReport.toList) ∧
        q.used = s.outbound.used + (Header.size + wireLengths (s.takenEarly p).gapReport.toList) ∧
        q.capacity = s.outbound.capacity := by
  obtain ⟨q, events, hpost, hheld⟩ :=
    postAck_in_turn (s := s.takenEarly p) hq hturn (decide_eq_true houtbound)
  refine ⟨q, events, ?_, hheld⟩
  rw [receive_early hst hflags hack hnear hmissing hne hnew hinbound, hpost]

theorem gapReport_takenEarly {p : Packet} (h : s.options.selectiveAck = true) :
    (s.takenEarly p).gapReport =
      some (s.packet .reporting s.nextSeq (Sack.encode (s.takenEarly p).gapRanges)) := by
  unfold Session.gapReport
  exact if_pos h

/-- The only number that has arrived early is the only range. -/
theorem gapRanges_takenEarly {p : Packet} {i : Nat} (hrel : p.header.relSeq = Serial.forward s.expected i)
    (hi : i < s.config.window) (hwindow : s.config.window ≤ 128) (hearly : ∀ b, s.early.get b = false) :
    (s.takenEarly p).gapRanges = [(p.header.relSeq, p.header.relSeq)] := by
  rw [hrel]
  refine rangesFrom_single hi fun j hj => ?_
  have hj' : j < s.config.window := hj
  show (s.early.set p.header.relSeq true).get (Serial.forward s.expected j) = _
  have hsame : p.header.relSeq = Serial.forward s.expected j ↔ j = i := by
    rw [hrel]
    refine ⟨fun h => ?_, fun h => by rw [h]⟩
    exact Serial.forward_inj s.expected (by simp only [Serial.half]; omega)
      (by simp only [Serial.half]; omega) h.symm
  rw [ByteMap.get_set, hearly]
  by_cases hji : j = i
  · rw [if_pos (hsame.2 hji), decide_eq_true hji]
  · rw [if_neg (mt hsame.1 hji), decide_eq_false hji]

/-- A report takes what it lists out of flight. -/
theorem receive_report_eq {p : Packet} {ranges : List (UInt8 × UInt8)} (hst : s.state = .connected)
    (hack : p.header.ack = s.oldestUnacked) (hflags : p.header.flags = .reporting)
    (hpayload : p.payload = Sack.encode ranges) (hlength : ranges.length < 256)
    (hspan : ∀ f ∈ s.inFlight.flights, Serial.distance s.oldestUnacked f.packet.header.relSeq < 128) :
    s.receive p = (.ok (), s.acknowledgeRanges ranges) := by
  have hranges : Sack.decode p.payload = .ok ranges := by
    rw [hpayload]
    exact Sack.decode_encode hlength
  rw [receive_reporting hst hflags hranges, hack, acknowledge_oldest hspan]

/-- A report about a packet in flight takes it out of flight. -/
theorem receive_report {p : Packet} {relSeq : UInt8} (hst : s.state = .connected)
    (hack : p.header.ack = s.oldestUnacked) (hflags : p.header.flags = .reporting)
    (hpayload : p.payload = Sack.encode [(relSeq, relSeq)])
    (hspan : ∀ f ∈ s.inFlight.flights, Serial.distance s.oldestUnacked f.packet.header.relSeq < 128)
    (hflying : ∃ f ∈ s.inFlight.flights, f.packet.header.relSeq = relSeq) :
    ∃ f, s.receive p = (.ok (), { s with inFlight := f }) ∧ f.length < s.inFlight.length := by
  refine ⟨_, receive_report_eq hst hack hflags hpayload (by simp) hspan, ?_⟩
  obtain ⟨f, hf, hrel⟩ := hflying
  refine List.length_filter_lt_length_iff_exists.2 ⟨f, hf, ?_⟩
  rw [hrel]
  simp [Serial.inRange]

end Gap

/-! ## Taking what is queued -/

theorem popNext_room {q q' : Queue} {p : Packet} (h : q.popNext = some (p, q')) :
    q'.used ≤ q.used ∧ q'.capacity = q.capacity := by
  unfold Queue.popNext at h
  split at h
  · cases h
  split at h
  · cases h
  · cases h
    exact ⟨Nat.sub_le _ _, rfl⟩

/-- All that is queued is taken, in order. -/
theorem fetchOutbound_in_turn (hst : s.state ≠ .resetting) (hq : s.outbound.Holds port queue) :
    ∃ q, s.fetchOutbound = (queue, { s with outbound := q }) ∧ q.Holds port [] ∧
      q.used ≤ s.outbound.used ∧ q.capacity = s.outbound.capacity := by
  unfold Session.fetchOutbound
  rw [hq.length_eq]
  induction queue generalizing s with
  | nil => exact ⟨s.outbound, rfl, hq, Nat.le_refl _, rfl⟩
  | cons p ps ih =>
    obtain ⟨q, hpop, hq'⟩ := hq.popNext_cons
    obtain ⟨hused, hcapacity⟩ := popNext_room hpop
    obtain ⟨q', he, hholds, hused', hcapacity'⟩ := ih (s := { s with outbound := q }) hst hq'
    rw [List.length_cons]
    unfold Session.fetchOutboundUpTo
    simp only [hpop]
    rw [if_neg (fun h => hst h.2), he]
    exact ⟨q', rfl, hholds, Nat.le_trans hused' hused, hcapacity'.trans hcapacity⟩

end NarrowLink.Connection
