import NarrowLink.Proofs.Engine.Comparing
import NarrowLink.Proofs.Engine.Serving

/-!
# Numbers that overtake each other

If a queue for what is sent has room for more packets than half the number space, or if copies of older
packets may get into it, some run brings two numbers into it that are half the number space apart.  The
transmit queue is filled by packets that nobody awaits (`exists_amassed`).  While it is full, a connection
keeps what it sends: messages that are acknowledged one by one (`exists_piled`), or a copy of an old packet
and a new one (`exists_lagging`).  So the numbers in all queues can be compared in every run if and only if the
queues are sized for it (`comparable_iff`).
-/

namespace NarrowLink.Engine

open Wire
open Connection (Session)

variable {config : Config} {e : Engine} {s : Session} {j : Nat}

/-! ## The transmit queue -/

/-- So many packets have been queued for port 2 since the transmit queue was empty, and the oldest one is
still there. -/
structure Amassed (first : UInt16) (j : Nat) (d : Desk) : Prop where
  used : d.transmitter.queue.used = Header.size * j
  next : (d.counters.get 2).seq = Serial.forward first j
  oldest : 0 < j → ∃ p ∈ d.transmitter.queue.packets 2, p.header.seq = first

/-- One more packet is queued behind the others. -/
theorem Amassed.queued {d : Desk} {first : UInt16} (h : Amassed first j d) :
    Amassed first (j + 1) (d.queued [Serving.dismissal]) ∧
      ∃ p ∈ (d.queued [Serving.dismissal]).transmitter.queue.packets 2, p.header.seq = Serial.forward first j := by
  let q : Packet := { Serving.dismissal with
    header := { Serving.dismissal.header with seq := (d.counters.get 2).seq } }
  have hpackets : (d.queued [Serving.dismissal]).transmitter.queue.packets 2 =
      d.transmitter.queue.order.insert q (d.transmitter.queue.packets 2) :=
    d.transmitter.queue.packets_add_self q
  have hmem : ∀ p, p ∈ (d.queued [Serving.dismissal]).transmitter.queue.packets 2 ↔
      p = q ∨ p ∈ d.transmitter.queue.packets 2 := by
    intro p
    rw [hpackets, (Order.insert_perm _ _ _).mem_iff, List.mem_cons]
  refine ⟨⟨?_, ?_, fun _ => ?_⟩, q, (hmem q).2 (.inl rfl), h.next⟩
  · rw [used_queued, h.used]
    rfl
  · show ((d.counters.set 2 _).get 2).seq = _
    rw [ByteMap.get_set_self]
    show Serial.next (d.counters.get 2).seq = _
    rw [h.next, Serial.forward_succ]
  · rcases Nat.eq_zero_or_pos j with rfl | hpos
    · exact ⟨q, (hmem q).2 (.inl rfl), h.next⟩
    · obtain ⟨p, hp, hfirst⟩ := h.oldest hpos
      exact ⟨p, (hmem p).2 (.inr hp), hfirst⟩

/-- As many packets can be queued as there is room for. -/
theorem exists_amassed (hconfig : config.Valid) (hroom : Header.size * j ≤ config.queueCapacity) :
    ∃ e s first, Serving config e s ∧ Amassed first j e.desk := by
  induction j with
  | zero =>
    obtain ⟨e, s, h, -, -⟩ := serving_linked hconfig
    obtain ⟨e', h', hdrained⟩ := h.drains
    exact ⟨e', s, (e'.desk.counters.get 2).seq, h', h'.desk.ready.consistent.used_eq_zero hdrained, rfl,
      fun h => absurd h (Nat.lt_irrefl 0)⟩
  | succ j ih =>
    rw [Nat.mul_succ] at hroom
    obtain ⟨e, s, first, h, hamassed⟩ := ih (by omega)
    obtain ⟨e', h', hdesk⟩ := h.turnsAway (hamassed.used ▸ hroom)
    exact ⟨e', s, first, h', hdesk ▸ hamassed.queued.1⟩

/-- If the transmit queue has room for more packets than half the number space, the first and the last of so
many can not be compared. -/
theorem not_comparable_of_queueCapacity (hconfig : config.Valid)
    (hroom : Header.size * (Serial.half UInt16 + 1) ≤ config.queueCapacity) :
    ∃ e, Reached config e ∧ ¬ e.Comparable := by
  rw [Nat.mul_succ] at hroom
  obtain ⟨e, s, first, h, hamassed⟩ :=
    exists_amassed hconfig (Nat.le_trans (Nat.le_add_right _ _) hroom)
  obtain ⟨e', h', hdesk⟩ := h.turnsAway (hamassed.used ▸ hroom)
  refine ⟨e', h'.reached, fun hcomparable => ?_⟩
  obtain ⟨hnext, q, hq, hlast⟩ := hamassed.queued
  obtain ⟨p, hp, hfirst⟩ := hnext.oldest (Nat.succ_pos _)
  rw [← hdesk] at hp hq
  have hnear := hcomparable.transmit 2
  rw [h'.desk.ready.order] at hnear
  refine Serial.not_near_of_opposite (List.mem_map_of_mem hp) (List.mem_map_of_mem hq) ?_ hnear
  rw [hfirst, hlast]
  exact Serial.distance_forward_self first (by decide)

/-! ## The outbound queue of a connection -/

/-- Two packets in the outbound queue of a connection whose numbers are half the number space apart can not be
compared. -/
theorem not_comparable_of_stored (h : Serving config e s) {p q : Packet} (hp : p ∈ s.outbound.stored)
    (hq : q ∈ s.outbound.stored) (hports : p.port = 2 ∧ q.port = 2)
    (hopposite : Serial.distance p.header.relSeq q.header.relSeq = Serial.half UInt8) :
    ¬ e.Comparable := by
  intro hcomparable
  obtain ⟨-, hformed, -⟩ := h.known
  have hpackets : ∀ {x}, x ∈ s.outbound.stored → x.port = 2 → x ∈ s.outbound.packets 2 := by
    intro x hx hport
    obtain ⟨port, hmem⟩ := Queue.mem_stored_iff.1 hx
    rwa [← hport, hformed.consistent.filed port x hmem]
  have hnear := hcomparable.outbound 1 s h.session? 2
  rw [hformed.order] at hnear
  exact Serial.not_near_of_opposite (List.mem_map_of_mem (hpackets hp hports.1))
    (List.mem_map_of_mem (hpackets hq hports.2)) hopposite hnear

/-- The window is wider than what is in flight. -/
theorem unacknowledged_lt {flights : List Connection.Flight} (h : s.inFlight.flights = flights)
    (hwindow : flights.length < config.window) : s.unacknowledged < config.window := by
  rw [Session.unacknowledged, Connection.InFlight.length, h]
  exact hwindow

/-- While the transmit queue is full, the connection keeps what it sends. -/
theorem Serving.sends_kept (h : Serving config e s) (hs : Linked s) (hgap : s.hasGap = false)
    (hwindow : s.unacknowledged < config.window)
    (hroom : wireLengths s.outbound.stored + Header.size ≤ config.connectionQueueCapacity)
    (hfull : config.queueCapacity < e.desk.transmitter.queue.used + Header.size) :
    ∃ q o e', q.port = 2 ∧ q.header.relSeq = s.nextSeq ∧ q.payload = [] ∧
      o.stored.Perm (q :: s.outbound.stored) ∧ Serving config e' { s.issue q 0 with outbound := o } ∧
      e'.desk.transmitter = e.desk.transmitter := by
  obtain ⟨-, hformed, -⟩ := h.known
  rw [← hformed.consistent.used_eq] at hroom
  obtain ⟨q, d, s', e', hport, hrel, hpayload, hforwarded, h', htransmitter⟩ :=
    h.sends hs hgap hwindow hroom
  have hstored := s.outbound.stored_add q
  obtain ⟨rfl, o, rfl, hperm⟩ := hforwarded.kept_of_full (h.desk.capacity.symm ▸ hfull)
    (Queue.stored_ne_nil hstored)
  exact ⟨q, o, e', hport, hrel, hpayload, hperm.trans hstored, h', htransmitter⟩

/-- The transmitter gets what the connection sends, and then the link. -/
theorem Serving.sends_sent (h : Serving config e s) (hconfig : config.Valid) (hs : Linked s)
    (hgap : s.hasGap = false) (hwindow : s.unacknowledged < config.window)
    (hnil : s.outbound.stored = []) :
    ∃ q o e', q.port = 2 ∧ q.header.relSeq = s.nextSeq ∧ q.payload = [] ∧ o.stored = [] ∧
      Serving config e' { s.issue q 0 with outbound := o } := by
  obtain ⟨e₀, h₀, hdrained⟩ := h.drains
  obtain ⟨-, hformed, -⟩ := h.known
  have hidle := h₀.desk.ready.consistent.used_eq_zero hdrained
  obtain ⟨q, d, s', e', hport, hrel, hpayload, hforwarded, h', -⟩ := h₀.sends hs hgap hwindow (by
    rw [hformed.consistent.used_eq_zero hnil, Nat.zero_add]
    exact hconfig.size_le_connectionQueueCapacity)
  obtain ⟨-, o, -, -, rfl, ho⟩ := hforwarded.sent_of_room (by
    show _ + wireLengths (s.outbound.add q).stored ≤ _
    rw [wireLengths_perm (s.outbound.stored_add q), hnil, hidle, h₀.desk.capacity, wireLengths_cons,
      wireLengths_nil, wireLength_of_nil hpayload, Nat.zero_add]
    exact hconfig.size_le_queueCapacity)
  exact ⟨q, o, e', hport, hrel, hpayload, ho, h'⟩

/-! ### More packets than half the number space -/

/-- All packets that the connection has sent so far are acknowledged, and it still has them. -/
structure Piled (j : Nat) (s : Session) : Prop where
  linked : Linked s
  hasGap : s.hasGap = false
  nextSeq : s.nextSeq = Serial.forward 1 j
  oldestUnacked : s.oldestUnacked = Serial.forward 1 j
  flights : s.inFlight.flights = []
  bytes : wireLengths s.outbound.stored = Header.size * j
  oldest : 0 < j → ∃ p ∈ s.outbound.stored, p.port = 2 ∧ p.header.relSeq = 1

/-- A packet of the peer changes what is in flight, and nothing else happens. -/
theorem Serving.hears (h : Serving config e s) {flags : Flags} {ack : UInt8} {payload : List UInt8}
    (hpayload : payload.length ≤ Header.maxPayload) {s' : Session}
    (hreceive : s.receive (heard flags 255 ack payload) = (.ok (), s')) (hsame : s'.events = s.events) :
    ∃ e', Serving config e' s' ∧ e'.desk.transmitter = e.desk.transmitter := by
  obtain ⟨-, -, hevents⟩ := h.known
  have hquiet := h.quiet (g := id) (h.perform_hear flags 255 ack hpayload)
    (by rw [hreceive, hsame, hevents]; intros; rfl) (fun d hd => ⟨hd, rfl⟩)
  rw [hreceive, with_no_events (hsame.trans hevents)] at hquiet
  exact ⟨_, hquiet⟩

/-- The peer acknowledges all that is in flight. -/
theorem Serving.acknowledged (h : Serving config e s) (hs : Linked s)
    (hall : ∀ f ∈ s.inFlight.flights, Serial.precedes f.packet.header.relSeq s.nextSeq = true) :
    ∃ e', Serving config e' { s with inFlight := {}, oldestUnacked := s.nextSeq } ∧
      e'.desk.transmitter = e.desk.transmitter :=
  h.hears (Nat.zero_le _) ((Connection.receive_acknowledging (p := heard .acknowledging 255 s.nextSeq [])
    hs.state rfl).trans (congrArg (Prod.mk _)
      (Session.acknowledge_of_precedes (decide_eq_true (Nat.le_refl _)) hall))) rfl

theorem precedes_next (a : UInt8) : Serial.precedes a (Serial.next a) = true := by
  have := Serial.precedes_forward_iff a (m := 0) (n := 1) (by simp only [Serial.half]; omega)
    (by simp only [Serial.half]; omega)
  exact this.2 Nat.one_pos

/-- One more message is sent and acknowledged. -/
theorem Piled.round (hs : Piled j s) (h : Serving config e s) (hconfig : config.Valid)
    (hroom : Header.size * (j + 1) ≤ config.connectionQueueCapacity)
    (hfull : config.queueCapacity < e.desk.transmitter.queue.used + Header.size) :
    ∃ e' s', Serving config e' s' ∧ Piled (j + 1) s' ∧ e'.desk.transmitter = e.desk.transmitter ∧
      ∃ p ∈ s'.outbound.stored, p.port = 2 ∧ p.header.relSeq = Serial.forward 1 j := by
  obtain ⟨q, o, e₁, hport, hrel, hpayload, hperm, h₁, htransmitter⟩ := h.sends_kept hs.linked hs.hasGap
    (unacknowledged_lt hs.flights hconfig.window_pos) (by rw [hs.bytes]; exact hroom) hfull
  have hnext : Serial.next s.nextSeq = Serial.forward 1 (j + 1) := by
    rw [hs.nextSeq, Serial.forward_succ]
  obtain ⟨e₂, h₂, htransmitter'⟩ := h₁.acknowledged { hs.linked with } (by
    intro f hf
    rw [show ({ s.issue q 0 with outbound := o } : Session).inFlight.flights =
      s.inFlight.flights ++ [⟨q, 0, 0⟩] from rfl, hs.flights, List.nil_append] at hf
    rw [List.mem_singleton.1 hf, hrel]
    exact precedes_next s.nextSeq)
  refine ⟨e₂, _, h₂, ⟨{ hs.linked with }, hs.hasGap, hnext, hnext, rfl, ?_, fun _ => ?_⟩,
    htransmitter'.trans htransmitter, q, hperm.mem_iff.2 List.mem_cons_self, hport, hrel.trans hs.nextSeq⟩
  · rw [wireLengths_perm hperm, wireLengths_cons, wireLength_of_nil hpayload, hs.bytes, Nat.mul_succ,
      Nat.add_comm]
  · rcases Nat.eq_zero_or_pos j with rfl | hpos
    · exact ⟨q, hperm.mem_iff.2 List.mem_cons_self, hport, hrel.trans hs.nextSeq⟩
    · obtain ⟨p, hp, hfirst⟩ := hs.oldest hpos
      exact ⟨p, hperm.mem_iff.2 (List.mem_cons_of_mem q hp), hfirst⟩

/-- As many messages can be sent and acknowledged as there is room for. -/
theorem exists_piled (hconfig : config.Valid) (hroom : Header.size * j ≤ config.connectionQueueCapacity) :
    ∃ e s, Serving config e s ∧ Piled j s ∧
      config.queueCapacity < e.desk.transmitter.queue.used + Header.size := by
  induction j with
  | zero =>
    obtain ⟨e, s, h, hlinked, hs⟩ := serving_linked hconfig
    obtain ⟨e', h', hfull⟩ := h.fills
    refine ⟨e', s, h', ⟨hlinked, hs.hasGap, hs.nextSeq, hs.oldestUnacked, hs.flights, ?_,
      fun h => absurd h (Nat.lt_irrefl 0)⟩, hfull⟩
    rw [hs.outbound]
    rfl
  | succ j ih =>
    obtain ⟨e, s, h, hs, hfull⟩ := ih (Nat.le_trans (Nat.mul_le_mul_left _ j.le_succ) hroom)
    obtain ⟨e', s', h', hs', hsame, -⟩ := hs.round h hconfig hroom hfull
    exact ⟨e', s', h', hs', hsame ▸ hfull⟩

/-- If the outbound queue of a connection has room for more packets than half the number space, the first and
the last of so many can not be compared. -/
theorem not_comparable_of_connectionQueueCapacity (hconfig : config.Valid)
    (hroom : Header.size * (Serial.half UInt8 + 1) ≤ config.connectionQueueCapacity) :
    ∃ e, Reached config e ∧ ¬ e.Comparable := by
  obtain ⟨e, s, h, hs, hfull⟩ :=
    exists_piled hconfig (Nat.le_trans (Nat.mul_le_mul_left _ (Nat.le_succ _)) hroom)
  obtain ⟨e', s', h', hs', -, q, hq, hport, hlast⟩ := hs.round h hconfig hroom hfull
  obtain ⟨p, hp, hport', hfirst⟩ := hs'.oldest (Nat.succ_pos _)
  refine ⟨e', h'.reached, not_comparable_of_stored h' hp hq ⟨hport', hport⟩ ?_⟩
  rw [hfirst, hlast]
  exact Serial.distance_forward_self 1 (by decide)

/-! ### Copies of older packets -/

/-- The first of the packets that the connection has sent is in flight, and no other one. -/
structure Lagging (j : Nat) (s : Session) : Prop where
  linked : Linked s
  hasGap : s.hasGap = false
  nextSeq : s.nextSeq = Serial.forward 1 j
  oldestUnacked : s.oldestUnacked = 1
  flights : ∃ p, s.inFlight.flights = [⟨p, 0, 0⟩] ∧ p.port = 2 ∧ p.header.relSeq = 1 ∧ p.payload = []
  outbound : s.outbound.stored = []

/-- The peer reports the last packet, and no other one. -/
theorem Serving.reported (h : Serving config e s) (hs : Linked s) {first last : Packet}
    (hflights : s.inFlight.flights = [⟨first, 0, 0⟩, ⟨last, 0, 0⟩])
    (hspan : ∀ f ∈ s.inFlight.flights, Serial.distance s.oldestUnacked f.packet.header.relSeq < 128)
    (hne : last.header.relSeq ≠ first.header.relSeq) :
    ∃ e', Serving config e' { s with inFlight := ⟨[⟨first, 0, 0⟩]⟩ } := by
  have hleft : s.inFlight.acknowledgeWithin last.header.relSeq last.header.relSeq =
      ⟨[⟨first, 0, 0⟩]⟩ := by
    have hkept : Serial.inRange first.header.relSeq last.header.relSeq last.header.relSeq = false := by
      unfold Serial.inRange
      rw [Serial.distance_self, decide_eq_false_iff_not, Nat.le_zero, Serial.distance_eq_zero_iff]
      exact hne
    have hgone : Serial.inRange last.header.relSeq last.header.relSeq last.header.relSeq = true :=
      decide_eq_true (Nat.le_refl _)
    unfold Connection.InFlight.acknowledgeWithin
    rw [hflights]
    simp only [List.filter_cons, List.filter_nil, hkept, hgone]
    rfl
  have hreceive := Connection.receive_report_eq (s := s)
    (p := heard .reporting 255 s.oldestUnacked (Sack.encode [(last.header.relSeq, last.header.relSeq)]))
    hs.state rfl rfl rfl (by simp) hspan
  have htold : s.acknowledgeRanges [(last.header.relSeq, last.header.relSeq)] =
      { s with inFlight := ⟨[⟨first, 0, 0⟩]⟩ } := by rw [← hleft]; rfl
  rw [htold] at hreceive
  obtain ⟨e', h', -⟩ := h.hears (by simp [Sack.encode, Sack.endsOf, Header.maxPayload]) hreceive rfl
  exact ⟨e', h'⟩

/-- One more message is sent, and it is reported that it has arrived. -/
theorem Lagging.round (hs : Lagging j s) (h : Serving config e s) (hconfig : config.Valid)
    (hwindow : 1 < config.window) (hpos : 0 < j) (hj : j < 128) :
    ∃ e' s', Serving config e' s' ∧ Lagging (j + 1) s' := by
  obtain ⟨p, hflights, hport, hfirst, hpayload⟩ := hs.flights
  obtain ⟨q, o, e₁, -, hrel, -, ho, h₁⟩ := h.sends_sent hconfig hs.linked hs.hasGap
    (unacknowledged_lt hflights hwindow) hs.outbound
  have hlast : Serial.distance 1 q.header.relSeq = j := by
    rw [hrel, hs.nextSeq]
    exact Serial.distance_forward_self 1 (by simp only [Serial.half]; omega)
  have hboth : ({ s.issue q 0 with outbound := o } : Session).inFlight.flights =
      [⟨p, 0, 0⟩, ⟨q, 0, 0⟩] := by
    show s.inFlight.flights ++ [⟨q, 0, 0⟩] = _
    rw [hflights]
    rfl
  obtain ⟨e₂, h₂⟩ := h₁.reported { hs.linked with } hboth (by
    intro f hf
    rw [hboth] at hf
    rw [show ({ s.issue q 0 with outbound := o } : Session).oldestUnacked = 1 from hs.oldestUnacked]
    rcases List.mem_pair.1 hf with rfl | rfl
    · rw [hfirst, Serial.distance_self]
      omega
    · exact hlast.trans_lt hj) (by
    rintro heq
    rw [heq, hfirst, Serial.distance_self] at hlast
    omega)
  refine ⟨e₂, _, h₂, { hs.linked with }, hs.hasGap, ?_, hs.oldestUnacked, ⟨p, rfl, hport, hfirst, hpayload⟩,
    ho⟩
  show Serial.next s.nextSeq = _
  rw [hs.nextSeq, Serial.forward_succ]

/-- The connection can fall behind by half the number space. -/
theorem exists_lagging (hconfig : config.Valid) (hwindow : 1 < config.window) (hpos : 0 < j) (hj : j ≤ 128) :
    ∃ e s, Serving config e s ∧ Lagging j s := by
  induction j, hpos using Nat.le_induction with
  | base =>
    obtain ⟨e, s, h, hlinked, hs⟩ := serving_linked hconfig
    obtain ⟨q, o, e', hport, hrel, hpayload, ho, h'⟩ := h.sends_sent hconfig hlinked hs.hasGap
      (unacknowledged_lt hs.flights hconfig.window_pos) hs.outbound
    refine ⟨e', _, h', { hlinked with }, hs.hasGap, ?_, hs.oldestUnacked, ⟨q, ?_, hport,
      hrel.trans hs.nextSeq, hpayload⟩, ho⟩
    · show Serial.next s.nextSeq = _
      rw [hs.nextSeq]
      rfl
    · show s.inFlight.flights ++ [⟨q, 0, 0⟩] = _
      rw [hs.flights]
      rfl
  | succ j hpos ih =>
    obtain ⟨e, s, h, hs⟩ := ih (by omega)
    exact hs.round h hconfig hwindow hpos (by omega)

/-- While the transmit queue is full, the connection keeps a copy of its only packet in flight. -/
theorem Lagging.again (hs : Lagging j s) (h : Serving config e s) (hconfig : config.Valid)
    (hagain : 0 < config.maxRetransmissions)
    (hfull : config.queueCapacity < e.desk.transmitter.queue.used + Header.size) :
    ∃ e' s' p, Serving config e' s' ∧ s'.outbound.stored = [p] ∧ p.port = 2 ∧ p.header.relSeq = 1 ∧
      p.wireLength = Header.size ∧ Linked s' ∧ s'.hasGap = false ∧ s'.nextSeq = s.nextSeq ∧
      s'.unacknowledged = 1 ∧ e'.desk.transmitter = e.desk.transmitter := by
  obtain ⟨p, hflights, hport, hfirst, hpayload⟩ := hs.flights
  obtain ⟨-, hformed, hevents⟩ := h.known
  have hlength : (s.again p).wireLength = Header.size := wireLength_of_nil hpayload
  have hfits : s.Fits (s.again p) := by
    unfold Session.Fits
    rw [hformed.consistent.used_eq_zero hs.outbound, hlength, hformed.capacity, Nat.zero_add]
    exact hconfig.size_le_connectionQueueCapacity
  have hstored := s.outbound.stored_add (s.again p)
  rw [hs.outbound] at hstored
  have htimer := Session.checkTimers_again hs.linked.state (by rw [hs.linked.options]; rfl) hevents hflights
    (by rwa [hformed.config]) hfits
  rw [hformed.config] at htimer
  have hlasts := (Session.lasting_formed config 1 fun _ => True).checkTimers hformed config.maxTimeout
  obtain ⟨d, s', hforwarded, h', htransmitter⟩ := h.calls (f := fun s => ((), s.checkTimers config.maxTimeout))
    (h.perform_fireTimer config.maxTimeout) (fun d hd => ⟨hd, rfl⟩)
    (by simp only [htimer, hs.linked.localPort]) hlasts
    (by simp only [htimer]; exact fun he => nomatch hs.linked.state.symm.trans he)
    (by simp only [htimer]; exact Queue.stored_ne_nil hstored)
  simp only [htimer] at hforwarded
  obtain ⟨rfl, o, rfl, hperm⟩ := hforwarded.kept_of_full (h.desk.capacity.symm ▸ hfull)
    (Queue.stored_ne_nil hstored)
  exact ⟨_, _, s.again p, h', List.perm_singleton.1 (hperm.trans hstored), hport, hfirst, hlength,
    { hs.linked with }, hs.hasGap, rfl, rfl, htransmitter⟩

/-- A connection that sends packets again may queue a copy of a packet that is half the number space behind its
next one, which can not be compared with it. -/
theorem not_comparable_of_copy (hconfig : config.Valid) (hwindow : 1 < config.window)
    (hagain : 0 < config.maxRetransmissions) (hroom : Header.size * 2 ≤ config.connectionQueueCapacity) :
    ∃ e, Reached config e ∧ ¬ e.Comparable := by
  obtain ⟨e, s, h, hs⟩ := exists_lagging hconfig hwindow (j := 128) (by omega) (by omega)
  obtain ⟨e₁, h₁, hfull⟩ := h.fills
  obtain ⟨e₂, s₂, p, h₂, hstored, hport, hfirst, hlength, hlinked, hgap, hnext, hflying, hsame⟩ :=
    hs.again h₁ hconfig hagain hfull
  obtain ⟨q, o, e₃, hport', hrel, -, hperm, h₃, -⟩ := h₂.sends_kept hlinked hgap (by rwa [hflying])
    (by rwa [hstored, wireLengths_cons, wireLengths_nil, hlength]) (by rwa [hsame])
  rw [hstored] at hperm
  refine ⟨e₃, h₃.reached, not_comparable_of_stored h₃
    (hperm.mem_iff.2 (List.mem_cons_of_mem q List.mem_cons_self)) (hperm.mem_iff.2 List.mem_cons_self)
    ⟨hport, hport'⟩ ?_⟩
  rw [hfirst, hrel, hnext, hs.nextSeq]
  exact Serial.distance_forward_self 1 (by decide)

/-- The numbers in all queues of an engine can be compared in every run, if and only if the queues are sized
for it. -/
theorem comparable_iff (hconfig : config.Valid) :
    (∀ acts, ((fresh config).after acts).Comparable) ↔ config.ComparesNumbers := by
  refine ⟨fun h => ?_, fun h => comparable_of_comparesNumbers hconfig h⟩
  have hnever : ¬ ∃ e, Reached config e ∧ ¬ e.Comparable := by
    rintro ⟨_, ⟨acts, rfl⟩, hnot⟩
    exact hnot (h acts)
  refine ⟨Nat.lt_of_not_le fun hroom => hnever (not_comparable_of_queueCapacity hconfig hroom), ?_⟩
  rcases Nat.lt_or_ge config.connectionQueueCapacity (Header.size * 2) with hlt | hge
  · exact .inl hlt
  · refine .inr ⟨Nat.lt_of_not_le fun hroom =>
      hnever (not_comparable_of_connectionQueueCapacity hconfig hroom), ?_⟩
    rcases Nat.eq_zero_or_pos config.maxRetransmissions with hnone | hagain
    · exact .inl hnone
    · refine .inr ?_
      have hpos := hconfig.window_pos
      by_contra hne
      exact hnever (not_comparable_of_copy hconfig (by omega) hagain hge)

/-- Queues that are short enough, and no copies. -/
def shortQueues : Config where
  queueCapacity := 65536
  connectionQueueCapacity := 1024
  maxRetransmissions := 0

/-- In short queues, and without copies, all numbers can be compared. -/
theorem comparable_of_short_queues :
    shortQueues.Valid ∧ ∀ acts, ((fresh shortQueues).after acts).Comparable := by
  have hconfig := shortQueues.validate_eq_ok_iff.1 rfl
  exact ⟨hconfig, (comparable_iff hconfig).2 (by decide)⟩

/-- A transmit queue without room for a message of 128 fragments leaves the first of them in the queue of the
connection, where it can not be compared with the acknowledgement of old data, which carries the number after
the last. -/
theorem not_comparable_of_full_window :
    ({ mtu := 13, queueCapacity := 25, window := 128 } : Config).validate = .ok () ∧
      ¬ ((fresh { mtu := 13, queueCapacity := 25, window := 128 }).after [.start, .bind 1 ⟨0, 2, {}⟩,
        hear .opening 255 0 [], hear .acknowledging 255 1 [], .sendMessage 0 1 (List.replicate 128 0),
        hear .carrying 255 1 []]).Comparable := by
  refine ⟨rfl, fun h => ?_⟩
  have hboth : (((fresh { mtu := 13, queueCapacity := 25, window := 128 }).after [.start,
      .bind 1 ⟨0, 2, {}⟩, hear .opening 255 0 [], hear .acknowledging 255 1 [],
      .sendMessage 0 1 (List.replicate 128 0), hear .carrying 255 1 []]).connections.session? 1).any
      (fun s => s.outbound.order = .reliability ∧
        (1 : UInt8) ∈ (s.outbound.packets 2).map (fun p => p.header.relSeq) ∧
        (129 : UInt8) ∈ (s.outbound.packets 2).map (fun p => p.header.relSeq)) = true := by
    decide +kernel
  obtain ⟨s, hs, hall⟩ := (Option.any_eq_true _ _).1 hboth
  obtain ⟨horder, hone, hlast⟩ := of_decide_eq_true hall
  have hnear := h.outbound 1 s hs 2
  rw [horder] at hnear
  exact Serial.not_near_of_opposite hone hlast (by decide) hnear

end NarrowLink.Engine
