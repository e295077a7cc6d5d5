import NarrowLink.Proofs.Exchange.Showing
import NarrowLink.Proofs.Exchange.Window

/-!
# Ends that run ahead

A report makes room in the window of the sender, while its peer still waits for an older number.  So an
end runs ahead of a peer that reports gaps, with each window of more than one packet
(`runsAhead_of_reports`).  The run is followed step by step for all these windows at once.

With the largest window, an acknowledgement that is half the number space behind seems to acknowledge
everything that is in flight.  There is one if a packet that is sent again overtakes another in the queue
of its end, which lets the peer run ahead (`runsAhead_of_retransmits`).
-/

namespace NarrowLink.Connection

open Wire

/-! ## A report makes room -/

/-- An end sends a window of packets, of which only the last arrives.  Its peer reports it, and the end
sends another packet. -/
def outrun (x : Role) (window : Nat) : List Act :=
  [.send x (List.replicate window message) [] 0, .take x] ++
    List.replicate (window - 1) (.lose x.peer) ++
    [.deliver x.peer true 0, .take x.peer, .deliver x true 0, .deliver x true 0,
      .send x [message] [] 0, .take x]

variable {t : Terms} {x : Role} {e : Exchange} {s u : Session} {sent sent' : List Packet} {r : Nat}

/-- The end has sent a window of packets, of which the last is on the way. -/
theorem outrun_sends (hs : s.Ready t x) (h : e.Shows x s sent r []) (h' : e.Shows x.peer u sent' r [])
    (hpos : 0 < t.config.window)
    (hroom : t.config.window * Header.size ≤ t.config.connectionQueueCapacity) :
    ∃ q events qs p e₁, qs.length + 1 = t.config.window ∧
      e₁ = e.after ([.send x (List.replicate t.config.window message) [] 0, .take x] ++
        List.replicate (t.config.window - 1) (.lose x.peer)) ∧
      Stamped s.remotePort 1 1 (qs ++ [p]) ∧
      wireLengths (qs ++ [p]) = t.config.window * Header.size ∧
      q.Holds s.remotePort [] ∧ q.used ≤ t.config.window * Header.size ∧
      q.capacity = t.config.connectionQueueCapacity ∧
      e₁.Shows x {
        s with
        nextSeq := Serial.forward 1 t.config.window
        inFlight := ⟨(qs ++ [p]).map (⟨·, 0, 0⟩)⟩
        outbound := q
        events := events } (sent ++ (qs ++ [p])) r [] ∧
      e₁.Shows x.peer u sent' r [p] := by
  obtain ⟨qs, q, events, hlen, hstamped, hwire, hholds, hused, hcapacity, h₁, h₁'⟩ :=
    hs.sends h h' t.config.window (Nat.le_refl _) hroom
  rcases List.eq_nil_or_concat' qs with rfl | ⟨init, p, rfl⟩
  · rw [List.length_nil] at hlen
    omega
  rw [List.length_append, List.length_singleton] at hlen
  refine ⟨q, events, init, p, _, hlen, ?_, hstamped, hwire, hholds, hused, hcapacity,
    h₁.loses_peer init.length, h₁'.loses init⟩
  rw [Exchange.after_append, ← hlen, Nat.add_sub_cancel]

section Report

variable {v : Session} {p ack report : Packet}

/-- A peer that has taken nothing reports data that is ahead of the number that it expects. -/
theorem reports_ahead (hu : u.Ready t x.peer) (h : e.Shows x v sent r [])
    (h' : e.Shows x.peer u sent' r [p]) (hselective : (t.options x.peer).selectiveAck = true)
    (hhigh : t.config.window ≤ 128) (hflags : p.header.flags = .carrying) (hack : p.header.ack = 1)
    {k : Nat} (hrel : p.header.relSeq = Serial.forward 1 k) (hpos : 0 < k) (hk : k < t.config.window)
    (hwire : p.wireLength ≤ t.config.connectionQueueCapacity)
    (hroom : 3 * Header.size ≤ t.config.connectionQueueCapacity) :
    ∃ i early q events,
      (e.after [.deliver x.peer true 0, .take x.peer]).Shows x v sent r
        [u.packet .acknowledging u.nextSeq [],
          u.packet .reporting u.nextSeq (Sack.encode [(p.header.relSeq, p.header.relSeq)])] ∧
      (e.after [.deliver x.peer true 0, .take x.peer]).Shows x.peer {
        u with
        inbound := i
        early := early
        hasGap := true
        outbound := q
        events := events } sent' r [] := by
  obtain ⟨hused, hcapacity, hused', hcapacity'⟩ := hu.room
  have hdistance : Serial.distance u.expected p.header.relSeq = k := by
    rw [hrel, hu.expected, Serial.distance_forward_self _ (by simp only [Serial.half]; omega)]
  have hreport := gapReport_takenEarly (s := u) (p := p) (by rw [hu.options, hselective])
  rw [gapRanges_takenEarly (i := k) (by rw [hrel, hu.expected]) (by rw [hu.config]; exact hk)
    (by rw [hu.config]; exact hhigh) hu.early] at hreport
  have hack' : u.acknowledge p.header.ack = u := by
    rw [hack, ← hu.oldest]
    exact acknowledge_oldest_of_nil hu.flights
  have hne : p.header.relSeq ≠ u.expected := by
    intro heq
    rw [heq, Serial.distance_self] at hdistance
    omega
  obtain ⟨q, events, hreceive, hholds, -⟩ := receive_beyond (s := u) (p := p) hu.state hflags hack'
    (by rw [hu.config]; omega) (hu.early _) hne (hu.early _) (by omega) hu.outbound (inTurn_nil _)
    (by
      rw [hreport, hused, hcapacity]
      exact Nat.le_trans (show 0 + (12 + (12 + 3 + 0)) ≤ 3 * 12 by decide) hroom)
  rw [hreport] at hholds
  obtain ⟨i, -, -, h₁'⟩ := h'.deliver 0 (by rw [hflags]; rfl) (congrArg Prod.snd hreceive) rfl
    (fun b hb => absurd hb (Bool.eq_false_iff.1 (hu.early b))) (Nat.le_refl _)
  obtain ⟨q₂, -, -, -, h₂', h₂⟩ := h₁'.takes (by
    rw [x.peer_peer]
    exact h.deliver_peer 0 x.peer_peer.symm) hu.state hholds
  rw [x.peer_peer, List.nil_append] at h₂
  exact ⟨i, _, q₂, events, h₂, h₂'⟩

/-- An acknowledgement of the oldest packet tells an end nothing new, and the report behind it takes a
packet out of flight. -/
theorem hears_report (h : e.Shows x v sent r [ack, report]) (hst : v.state = .connected)
    (hspan : ∀ f ∈ v.inFlight.flights, Serial.distance v.oldestUnacked f.packet.header.relSeq < 128)
    (hack : ack.header.ack = v.oldestUnacked) (hflags : ack.header.flags = .acknowledging)
    (hack' : report.header.ack = v.oldestUnacked) (hflags' : report.header.flags = .reporting)
    {relSeq : UInt8} (hpayload : report.payload = Sack.encode [(relSeq, relSeq)])
    (hflying : ∃ f ∈ v.inFlight.flights, f.packet.header.relSeq = relSeq) :
    ∃ i f, f.length < v.inFlight.length ∧
      (e.after [.deliver x true 0, .deliver x true 0]).Shows x { v with inFlight := f, inbound := i }
        sent r [] := by
  have hsame : v.receive ack = (.ok (), v) := by
    rw [receive_acknowledging hst hflags, hack, acknowledge_oldest hspan]
  obtain ⟨i, -, -, h₁⟩ :=
    h.deliver 0 (by rw [hflags]; rfl) (congrArg Prod.snd hsame) rfl (fun _ hb => hb) (Nat.le_refl _)
  obtain ⟨f, htold, hlt⟩ := receive_report (s := { v with inbound := i }) (p := report) hst hack' hflags'
    hpayload hspan hflying
  obtain ⟨i', -, -, h₂⟩ := h₁.deliver 0 (by rw [hflags']; rfl) (congrArg Prod.snd htold) rfl
    (fun _ hb => hb) (Nat.le_of_lt hlt)
  exact ⟨i', f, hlt, h₂⟩

end Report

/-- The end has heard the report of its last packet. -/
theorem outrun_hears (hs : s.Ready t x) (hu : u.Ready t x.peer) (h : e.Shows x s sent r [])
    (h' : e.Shows x.peer u sent' r []) (hselective : (t.options x.peer).selectiveAck = true)
    (hlow : 1 < t.config.window) (hhigh : t.config.window ≤ 128)
    (hroom : (t.config.window + 1) * Header.size ≤ t.config.connectionQueueCapacity) :
    ∃ i q f events i' early q' events' more e₁, more.length = t.config.window ∧
      e₁ = e.after ([.send x (List.replicate t.config.window message) [] 0, .take x] ++
        List.replicate (t.config.window - 1) (.lose x.peer) ++
        [.deliver x.peer true 0, .take x.peer, .deliver x true 0, .deliver x true 0]) ∧
      f.length < t.config.window ∧ q.Holds s.remotePort [] ∧
      q.used ≤ t.config.window * Header.size ∧
      q.capacity = t.config.connectionQueueCapacity ∧
      e₁.Shows x {
        s with
        nextSeq := Serial.forward 1 t.config.window
        inFlight := f
        inbound := i
        outbound := q
        events := events } (sent ++ more) r [] ∧
      e₁.Shows x.peer {
        u with
        inbound := i'
        early := early
        hasGap := true
        outbound := q'
        events := events' } sent' r [] := by
  have hmul : 2 * Header.size ≤ t.config.window * Header.size := Nat.mul_le_mul_right _ hlow
  have hsize : Header.size = 12 := rfl
  rw [Nat.succ_mul] at hroom
  obtain ⟨q, events, qs, p, e₁, hlen, he₁, hstamped, hwire, hholds, hqused, hqcapacity, h₁, h₁'⟩ :=
    outrun_sends hs h h' (by omega) (by omega)
  obtain ⟨-, hflags, hrel, hack⟩ := hstamped.getElem? (i := qs.length) List.getElem?_concat_length
  have hwire' : p.wireLength ≤ t.config.window * Header.size := by
    rw [← hwire, wireLengths_append]
    exact Nat.le_add_left _ _
  have hspan : ∀ f ∈ (qs ++ [p]).map fun p => (⟨p, 0, 0⟩ : Flight),
      Serial.distance s.oldestUnacked f.packet.header.relSeq < 128 := by
    intro f hf
    obtain ⟨c, hc, rfl⟩ := List.mem_map.1 hf
    obtain ⟨-, i, hi, hrel'⟩ := hstamped.of_mem hc
    rw [List.length_append, List.length_singleton] at hi
    rw [hrel', hs.oldest, Serial.distance_forward_self _ (by simp only [Serial.half]; omega)]
    omega
  obtain ⟨i', early, q', events', h₂, h₂'⟩ := reports_ahead hu h₁ h₁' hselective hhigh hflags hack hrel
    (by omega) (by omega) (by omega) (by omega)
  have hexpected : u.expected = s.oldestUnacked := hu.expected.trans hs.oldest.symm
  obtain ⟨i, f, hlt, h₃⟩ := hears_report h₂ hs.state hspan hexpected rfl hexpected rfl rfl
    ⟨⟨p, 0, 0⟩, List.mem_map_of_mem (List.mem_append_right _ (List.mem_singleton_self p)), rfl⟩
  have hflying : f.length < t.config.window := by
    simpa only [InFlight.length, List.length_map, List.length_append, List.length_singleton, hlen]
      using hlt
  refine ⟨i, q, f, events, i', early, q', events', qs ++ [p], _, by simp [hlen], ?_, hflying, hholds,
    hqused, hqcapacity, h₃, (h₂'.deliver_peer 0 rfl).deliver_peer 0 rfl⟩
  rw [Exchange.after_append, ← he₁]
  rfl

/-- With the report the end runs ahead of its peer, which refuses the packet if it does not take it for
an old one. -/
theorem outrun_spec {window : Nat} (hwindow : t.config.window = window) (hs : s.Ready t x)
    (hu : u.Ready t x.peer) (h : e.Shows x s sent 1 []) (h' : e.Shows x.peer u sent' 1 [])
    (hselective : (t.options x.peer).selectiveAck = true) (hlow : 1 < window) (hhigh : window ≤ 128)
    (hroom : (window + 1) * Header.size ≤ t.config.connectionQueueCapacity) (hsent : sent.length = 1) :
    (e.after (outrun x window)).RunsAhead x ∧
      (window < 128 → (e.after (outrun x window)).Refuses x.peer) := by
  subst hwindow
  obtain ⟨i, q, f, events, i', early, q', events', more, e₁, hmore, he₁, hf, hholds, hused, hcapacity,
    h₁, h₁'⟩ := outrun_hears hs hu h h' hselective hlow hhigh hroom
  rw [Nat.succ_mul] at hroom
  let s₁ : Session := {
    s with
    nextSeq := Serial.forward 1 t.config.window
    inFlight := f
    inbound := i
    outbound := q
    events := events }
  have hreport : s₁.gapReport = none := gapReport_of_no_gap hs.hasGap
  obtain ⟨qs, q₁, events₁, hlen, hstamped, -, hholds₁, -, -, h₂⟩ := h₁.sends 1 hs.state
    (by rw [show s₁.config = t.config from hs.config]; exact hf) hholds
    (by
      rw [show Session.gapReport _ = none from hreport, Option.toList_none, wireLengths_nil]
      show q.used + _ ≤ q.capacity
      omega)
  rw [show Session.gapReport _ = none from hreport, Option.toList_none, List.nil_append] at hholds₁
  obtain ⟨p, rfl⟩ := List.length_eq_one_iff.1 hlen
  obtain ⟨-, hflags, hrel, hack⟩ := hstamped.getElem? (i := 0) rfl
  rw [Serial.forward_zero] at hrel
  obtain ⟨q₂, -, -, -, h₃, h₃'⟩ := h₂.takes (h₁'.send_peer (x := x) _ [] 0 rfl) hs.state hholds₁
  have hrun : e.after (outrun x t.config.window) =
      (e₁.apply (.send x (List.replicate 1 message) [] 0)).apply (.take x) := by
    rw [he₁]
    unfold outrun
    rw [show ([.deliver x.peer true 0, .take x.peer, .deliver x true 0, .deliver x true 0,
      .send x [message] [] 0, .take x] : List Act) = [.deliver x.peer true 0, .take x.peer,
      .deliver x true 0, .deliver x true 0] ++ [.send x [message] [] 0, .take x] from rfl,
      ← List.append_assoc, Exchange.after_append]
    rfl
  rw [hrun]
  constructor
  · refine ⟨1 + t.config.window, p, ?_, by rw [hflags]; rfl, ?_⟩
    · rw [h₃.sent, ← hsent, ← hmore, ← List.length_append]
      exact List.getElem?_concat_length
    · rw [h₃'.reached, h₃.session]
      exact Nat.le_of_eq (congrArg (1 + ·) (congrArg Config.window hs.config))
  · intro hlt
    refine ⟨p, [], p.header.relSeq, 1, h₃'.link, ?_⟩
    have hdistance : Serial.distance (1 : UInt8) (Serial.forward 1 t.config.window) =
        t.config.window := Serial.distance_forward_self _ (by simp only [Serial.half]; omega)
    let u₁ : Session := {
      u with
      inbound := i'
      early := early
      hasGap := true
      outbound := q'
      events := events' }
    have hexpected : u₁.expected = 1 := hu.expected
    have hrefused : (u₁.receive p).1 =
        .error (.inconsistent (.outsideWindow p.header.relSeq u₁.expected)) := by
      refine receive_outside hu.state hflags ?_ hu.flights ?_ ?_
      · exact hack.trans (hs.expected.trans hu.oldest.symm)
      · rw [show u₁.config = t.config from hu.config, hexpected, hrel]
        exact Nat.le_of_eq hdistance.symm
      · rw [hexpected, hrel, Serial.precedes, decide_eq_false_iff_not]
        show ¬ 128 ≤ Serial.distance (1 : UInt8) (Serial.forward 1 t.config.window)
        omega
    rw [hexpected] at hrefused
    rw [h₃'.session]
    exact hrefused

/-- If the peer reports gaps, an end can run ahead of it, and the peer refuses its data. -/
theorem runsAhead_of_reports {window : Nat} (hlow : 1 < window) (hhigh : window ≤ 128)
    {options : Role → Options} {x : Role} (hselective : (options x.peer).selectiveAck = true) :
    ((Terms.withOptions window options).start.after (handshake ++ outrun x window)).RunsAhead x ∧
      (window < 128 → ((Terms.withOptions window options).start.after
        (handshake ++ outrun x window)).Refuses x.peer) := by
  obtain ⟨hshows, hsent, -⟩ := established_shows x
  have hshows' := (established_shows x.peer).1
  have hroom : (window + 1) * Header.size ≤ 65536 :=
    Nat.le_trans (Nat.mul_le_mul_right _ (Nat.succ_le_succ hhigh)) (by decide)
  rw [Exchange.after_append, after_handshake hlow hhigh]
  exact outrun_spec rfl ((established_ready x).widen window options)
    ((established_ready x.peer).widen window options) (hshows.widen _ _) (hshows'.widen _ _) hselective
    hlow hhigh hroom hsent

theorem transfers_outrun (x : Role) (window : Nat) :
    ∀ a ∈ handshake ++ outrun x window, a.Transfers := by
  simp [handshake, outrun, Act.Transfers, or_imp, forall_and]

/-! ## Sending again -/

/-- The peer of an end sends two packets, of which the first is lost.  Before the second one goes onto the
link, everything of the end arrives, and the first one is sent again.  It goes ahead of the second one,
which acknowledges a number half the number space back. -/
def outdated (x : Role) : List Act :=
  handshake ++
    [.send x.peer [message] [] 0, .take x.peer, .lose x, .send x.peer [message] [] 0,
      .send x (List.replicate 128 message) [] 0, .take x] ++
    List.replicate 128 (.deliver x.peer true 0) ++
    [.tick x.peer 5000, .take x.peer, .deliver x true 0,
      .send x (List.replicate 128 message) [] 0, .deliver x true 0, .send x [message] [] 0]

theorem transfers_outdated (x : Role) : ∀ a ∈ outdated x, a.Transfers := by
  simp [handshake, outdated, Act.Transfers, or_imp, forall_and]

/-- The peer of an end sends again what is lost, and the end may do so too. -/
def peerRetransmits (x : Role) (both : Bool) : Role → Options :=
  fun y => { retransmit := if y = x then both else true }

theorem runsAhead_outdated (x : Role) (both : Bool) (h : x = .initiator ∨ both = false) :
    ((Terms.withOptions 128 (peerRetransmits x both)).start.after (outdated x)).RunsAhead x := by
  have hlast : ∀ e : Exchange, ((e.ends x).sent[257]?.map fun p => p.header.flags.data) = some true →
      (e.ends x.peer).reached + (e.ends x).session.config.window ≤ 257 → e.RunsAhead x := by
    intro e hdata hfar
    obtain ⟨p, hp, hdata⟩ := Option.map_eq_some_iff.1 hdata
    exact ⟨257, p, hp, hdata, hfar⟩
  have hrun : (((((Terms.withOptions 128 (peerRetransmits x both)).start.after (outdated x)).ends
        x).sent[257]?.map fun p => p.header.flags.data) = some true) ∧
      (((Terms.withOptions 128 (peerRetransmits x both)).start.after (outdated x)).ends
        x.peer).reached + (((Terms.withOptions 128 (peerRetransmits x both)).start.after
          (outdated x)).ends x).session.config.window ≤ 257 := by
    cases x with
    | initiator => cases both <;> decide +kernel
    | responder =>
      obtain rfl : both = false := h.resolve_left (by decide)
      decide +kernel
  exact hlast _ hrun.1 hrun.2

/-- With the largest window an end can run ahead of a peer that sends again what is lost. -/
theorem runsAhead_of_retransmits {options : Role → Options}
    (hplain : ∀ y, (options y).selectiveAck = false) (h : ∃ y, (options y).retransmit = true) :
    ∃ x, ((Terms.withOptions 128 options).start.after (outdated x)).RunsAhead x := by
  have hform : ∀ x both, (options x).retransmit = both → (options x.peer).retransmit = true →
      options = peerRetransmits x both := by
    intro x both hx hpeer
    have hext : ∀ (o : Options) b, o.retransmit = b → o.selectiveAck = false →
        o = { retransmit := b } := by
      rintro ⟨_, _⟩ b rfl rfl
      rfl
    funext y
    refine hext _ _ ?_ (hplain y)
    by_cases hy : y = x
    · rw [if_pos hy, hy, hx]
    · obtain rfl := Role.eq_peer_of_ne hy
      rw [if_neg hy, hpeer]
  obtain ⟨y, hy⟩ := h
  cases y with
  | responder =>
    rw [hform .initiator _ rfl hy]
    exact ⟨.initiator, runsAhead_outdated .initiator _ (.inl rfl)⟩
  | initiator =>
    cases hpeer : (options .responder).retransmit with
    | true =>
      rw [hform .initiator _ rfl hpeer]
      exact ⟨.initiator, runsAhead_outdated .initiator _ (.inl rfl)⟩
    | false =>
      rw [hform .responder _ hpeer hy]
      exact ⟨.responder, runsAhead_outdated .responder _ (.inr rfl)⟩

end NarrowLink.Connection
