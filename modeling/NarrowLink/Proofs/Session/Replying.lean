import NarrowLink.Proofs.Session.Reporting
import NarrowLink.Proofs.Session.Room

/-!
# What a session answers when there is room

A responder whose answer is confirmed is connected (`receive_confirming`).  What arrives is answered as
long as the outbound queue has room for the acknowledgement and the report of the gap
(`postAck_of_room`).  What the peer has acknowledged is no longer in flight (`acknowledge_of_precedes`).
-/

namespace NarrowLink.Connection.Session

open Wire

variable {s : Session} {p : Packet}

theorem raise_of_nil (h : s.events = []) (e : Event) : s.raise e = { s with events := [e] } := by
  rw [raise_eq, h, if_neg List.not_mem_nil]
  rfl

/-- An acknowledgement of all that is in flight leaves nothing in flight. -/
theorem acknowledge_of_precedes {ack : UInt8} (hrange : Serial.inRange ack s.oldestUnacked s.nextSeq = true)
    (hall : ∀ f ∈ s.inFlight.flights, Serial.precedes f.packet.header.relSeq ack = true) :
    s.acknowledge ack = { s with inFlight := {}, oldestUnacked := ack } := by
  have hgone : s.inFlight.acknowledgeBefore ack = {} :=
    congrArg InFlight.mk (List.filter_eq_nil_iff.2 fun f hf => by rw [hall f hf]; exact Bool.false_ne_true)
  unfold acknowledge
  rw [if_pos hrange, hgone]

/-- The confirmation of its answer connects a responder. -/
theorem receive_confirming (hst : s.state = .connecting) (hrole : s.role = .responder)
    (hflags : p.header.flags = .acknowledging) (hnew : s.confirmsNew p.header.ack = true) :
    s.receive p = (.ok (), (s.moveTo .connected).acknowledge p.header.ack) := by
  unfold receive receiveConnecting
  rw [hst, hrole, hflags, if_neg (by decide)]
  simp only
  rw [if_neg (by decide), hnew]
  rfl

/-- The acknowledgement and the report of the gap are queued if there is room for both. -/
theorem postAck_of_room (hevents : s.events = [])
    (hroom : s.outbound.used + Header.size + wireLengths s.gapReport.toList ≤ s.outbound.capacity) :
    s.postAck = { s with
      outbound := (s.packet .acknowledging s.nextSeq [] :: s.gapReport.toList).foldl Queue.add s.outbound
      events := [.outboundAvailable s.localPort] } := by
  let t : Session := { s with
    outbound := s.outbound.add (s.packet .acknowledging s.nextSeq [])
    events := [.outboundAvailable s.localPort] }
  have hfits : s.Fits (s.packet .acknowledging s.nextSeq []) := by
    show s.outbound.used + Header.size ≤ s.outbound.capacity
    omega
  have hposted : s.post (s.packet .acknowledging s.nextSeq []) = t :=
    (post_of_fits hfits).trans (raise_of_nil (s := { s with outbound := s.outbound.add _ }) hevents _)
  have hreport : t.gapReport = s.gapReport := rfl
  unfold postAck postGapReport
  rw [hposted, hreport]
  cases hgap : s.gapReport with
  | none => rfl
  | some r =>
    have hfits : t.Fits r := by
      rw [hgap, Option.toList_some, wireLengths_cons, wireLengths_nil] at hroom
      exact hroom
    simp only
    rw [post_of_fits hfits, raise_eq, if_pos (List.mem_singleton.2 rfl)]
    rfl

/-- The only packet in flight is sent again once the longest wait is over. -/
theorem checkTimers_again (hst : s.state = .connected) (hretransmit : s.options.retransmit = true)
    (hevents : s.events = []) (hflights : s.inFlight.flights = [⟨p, 0, 0⟩])
    (hmax : 0 < s.config.maxRetransmissions) (hfits : s.Fits (s.again p)) :
    s.checkTimers s.config.maxTimeout = { s with
      inFlight := ⟨[⟨p, s.config.maxTimeout, 1⟩]⟩
      outbound := s.outbound.add (s.again p)
      events := [.outboundAvailable s.localPort] } := by
  have hdue : s.inFlight.due s.config s.config.maxTimeout =
      (.packets [p], ⟨[⟨p, s.config.maxTimeout, 1⟩]⟩) := by
    unfold InFlight.due
    rw [hflights]
    unfold InFlight.collect
    simp only
    rw [Nat.sub_zero, if_neg (Nat.not_lt.2 (InFlight.backoff_le _ _)), if_neg (Nat.not_le.2 hmax)]
    rfl
  obtain ⟨events, hreminded, hraised⟩ : ∃ events : List Event,
      (if s.outbound.isEmpty then s else s.raise (.outboundAvailable s.localPort)) =
        { s with events := events } ∧
      ∀ t : Session, t.events = events → t.raise (.outboundAvailable s.localPort) =
        { t with events := [.outboundAvailable s.localPort] } := by
    split
    · exact ⟨s.events, rfl, fun t ht => raise_of_nil (ht.trans hevents) _⟩
    · refine ⟨_, raise_of_nil hevents _, fun t ht => ?_⟩
      rw [raise_eq, if_pos (by rw [ht]; exact List.mem_singleton.2 rfl), ht]
  have hdue' : (s.options.retransmit && ({ s with events := events } : Session).isWaiting) = true := by
    unfold isWaiting
    rw [hretransmit, hst]
    rfl
  unfold checkTimers
  rw [hreminded]
  simp only
  rw [if_pos hdue', hdue]
  show Session.post { s with inFlight := _, events := events } (s.again p) = _
  rw [post_of_fits (s := { s with inFlight := _, events := events }) hfits]
  exact hraised _ rfl

end NarrowLink.Connection.Session
