import NarrowLink.Connection.Receive
import NarrowLink.Connection.Send
import NarrowLink.Proofs.Queue.Accounting

/-!
# The steps of a session

Most of what a session does changes few of its parts.  The lemmas here say which (`post_fields`,
`postAck_fields`, `absorb_fields` and so on), so that nothing else has to be looked at afterwards.
-/

namespace NarrowLink.Connection

open Wire

/-! ## What changes -/

theorem raise_fields (s : Session) (e : Event) : ∃ events, s.raise e = { s with events := events } := by
  unfold Session.raise
  split
  · exact ⟨s.events, rfl⟩
  · exact ⟨_, rfl⟩

theorem mem_events_raise (s : Session) (e e' : Event) :
    e' ∈ (s.raise e).events ↔ e' ∈ s.events ∨ e' = e := by
  unfold Session.raise
  split
  · rename_i h
    exact ⟨.inl, fun he => he.elim id fun heq => heq ▸ h⟩
  · simp

theorem moveTo_fields (s : Session) (state : State) :
    ∃ events, s.moveTo state = { s with state := state, events := events } := by
  unfold Session.moveTo
  split
  · rename_i h
    exact ⟨s.events, by rw [← h]⟩
  · obtain ⟨events, he⟩ := raise_fields { s with state := state }
      (.stateChanged s.localPort s.remotePort s.state state)
    exact ⟨events, he⟩

theorem post_fields (s : Session) (p : Packet) :
    ∃ outbound events, s.post p = { s with outbound := outbound, events := events } := by
  unfold Session.post
  split
  · rename_i q _
    obtain ⟨events, he⟩ := raise_fields { s with outbound := q } (.outboundAvailable s.localPort)
    exact ⟨q, events, he⟩
  · exact ⟨s.outbound, s.events, rfl⟩

theorem postGapReport_fields (s : Session) :
    ∃ outbound events, s.postGapReport = { s with outbound := outbound, events := events } := by
  unfold Session.postGapReport
  split
  · exact post_fields s _
  · exact ⟨s.outbound, s.events, rfl⟩

theorem postAck_fields (s : Session) :
    ∃ outbound events, s.postAck = { s with outbound := outbound, events := events } := by
  obtain ⟨outbound, events, hpost⟩ := post_fields s (s.packet .acknowledging s.nextSeq [])
  unfold Session.postAck
  rw [hpost]
  exact postGapReport_fields { s with outbound := outbound, events := events }

theorem acknowledge_fields (s : Session) (ack : UInt8) : ∃ inFlight oldest,
    s.acknowledge ack = { s with inFlight := inFlight, oldestUnacked := oldest } := by
  unfold Session.acknowledge
  split
  · exact ⟨_, _, rfl⟩
  · exact ⟨s.inFlight, s.oldestUnacked, rfl⟩

/-- What is in one of the ranges is taken out of flight. -/
theorem InFlight.flights_foldl_acknowledgeWithin (f : InFlight) (ranges : List (UInt8 × UInt8)) :
    (ranges.foldl (fun f r => f.acknowledgeWithin r.1 r.2) f).flights =
      f.flights.filter fun e => !ranges.any fun r => Serial.inRange e.packet.header.relSeq r.1 r.2 := by
  induction ranges generalizing f with
  | nil => exact (List.filter_eq_self.2 fun _ _ => rfl).symm
  | cons r ranges ih =>
    rw [List.foldl_cons, ih, InFlight.acknowledgeWithin, List.filter_filter]
    refine List.filter_congr fun e _ => ?_
    rw [List.any_cons, Bool.not_or, Bool.and_comm]

/-- A packet without data that is given a number is queued if there is room, or else nothing changes. -/
theorem postNumbered_cases (s : Session) (flags : Flags) (now : Nat) :
    (∃ e, s.postNumbered flags now = (.error e, s)) ∨
      ∃ s' events, s.postNumbered flags now = (.ok (), s') ∧ s' =
        { s with
          nextSeq := Serial.next s.nextSeq
          inFlight := s.inFlight.push (s.packet flags s.nextSeq []) now
          outbound := s.outbound.add (s.packet flags s.nextSeq [])
          events := events } := by
  unfold Session.postNumbered
  simp only
  by_cases hroom : s.outbound.fits (s.packet flags s.nextSeq []).wireLength = true
  · right
    have hpush : s.outbound.push (s.packet flags s.nextSeq []) =
        .ok (s.outbound.add (s.packet flags s.nextSeq [])) := if_pos hroom
    rw [if_pos hroom, hpush]
    obtain ⟨events, he⟩ := raise_fields
      { s with
        nextSeq := Serial.next s.nextSeq
        inFlight := s.inFlight.push (s.packet flags s.nextSeq []) now
        outbound := s.outbound.add (s.packet flags s.nextSeq []) }
      (.outboundAvailable s.localPort)
    exact ⟨_, events, rfl, he⟩
  · left
    rw [if_neg hroom]
    exact ⟨_, rfl⟩

/-- A session that gives its first number is connecting then, or else nothing changes. -/
theorem postNumbered_moveTo_cases (s : Session) (flags : Flags) (now : Nat)
    {r : Attempt Session Unit} (hr : r = match s.postNumbered flags now with
      | (.ok (), s') => (.ok (), s'.moveTo .connecting)
      | (.error e, s') => (.error e, s')) :
    r.2 = s ∨ ∃ events, r.2 =
      { s with
        nextSeq := Serial.next s.nextSeq
        inFlight := s.inFlight.push (s.packet flags s.nextSeq []) now
        outbound := s.outbound.add (s.packet flags s.nextSeq [])
        state := .connecting
        events := events } := by
  rcases postNumbered_cases s flags now with ⟨e, he⟩ | ⟨s', events, he, hs'⟩
  · rw [hr, he]
    exact .inl rfl
  · obtain ⟨events', hm⟩ := moveTo_fields s' .connecting
    rw [hr, he]
    simp only
    rw [hm, hs']
    exact .inr ⟨events', rfl⟩

/-- What asking for a connection makes of a session. -/
theorem connect_cases {s : Session} (hst : s.state = .disconnected) (now : Nat) :
    (s.connect now).2 = s ∨ ∃ events, (s.connect now).2 =
      { s with
        nextSeq := Serial.next s.nextSeq
        inFlight := s.inFlight.push (s.packet .opening s.nextSeq []) now
        outbound := s.outbound.add (s.packet .opening s.nextSeq [])
        state := .connecting
        events := events } := by
  unfold Session.connect
  rw [if_neg (fun h => h hst)]
  exact postNumbered_moveTo_cases s .opening now rfl

/-- What answering a request for a connection makes of a session. -/
theorem accept_cases {s : Session} (hst : s.state = .disconnected) (syn : Packet) (now : Nat)
    {expected : UInt8} (hexpected : Serial.next syn.header.relSeq = expected) :
    (s.accept syn now).2 = { s with expected := expected } ∨ ∃ events, (s.accept syn now).2 =
      { s with
        expected := expected
        nextSeq := Serial.next s.nextSeq
        inFlight :=
          s.inFlight.push (({ s with expected := expected } : Session).packet .welcoming s.nextSeq []) now
        outbound :=
          s.outbound.add (({ s with expected := expected } : Session).packet .welcoming s.nextSeq [])
        state := .connecting
        events := events } := by
  unfold Session.accept
  rw [if_neg (fun h => h hst), hexpected]
  exact postNumbered_moveTo_cases { s with expected := expected } .welcoming now rfl

theorem advance_fields (s : Session) : ∃ early expected hasGap,
    s.advance = { s with early := early, expected := expected, hasGap := hasGap } :=
  ⟨_, _, _, rfl⟩

/-- Taking what is queued changes the outbound queue, and ends a session that is being reset. -/
theorem fetchOutbound_keeps {P : Session → Prop}
    (hqueue : ∀ {s : Session} (q : Queue), P s → P { s with outbound := q })
    (hend : ∀ {s : Session}, P s → P (s.moveTo .disconnected)) {s : Session} (h : P s) :
    P s.fetchOutbound.2 := by
  have hupto : ∀ n (s : Session), P s → P (s.fetchOutboundUpTo n).2 := by
    intro n
    induction n with
    | zero => exact fun _ h => h
    | succ n ih =>
      intro s h
      unfold Session.fetchOutboundUpTo
      split
      · exact h
      simp only
      split
      · exact hend (hqueue _ h)
      · exact ih _ (hqueue _ h)
  exact hupto _ s h

/-- Putting packets back changes the outbound queue only. -/
theorem giveBack_keeps {P : Session → Prop}
    (hqueue : ∀ {s : Session} (q : Queue), P s → P { s with outbound := q }) {s : Session} (h : P s)
    (ps : List Packet) : P (s.giveBack ps) := by
  induction ps generalizing s with
  | nil => exact h
  | cons p ps ih =>
    unfold Session.giveBack
    split
    · exact ih (hqueue _ h)
    · exact ih h

/-- Handing out what is in sequence pops packets from the inbound queue, and does nothing else. -/
theorem fetchInbound_pops {Q : Queue → Prop} (s : Session) (hs : Q s.inbound)
    (hpop : ∀ {q q' : Queue} {p : Packet}, Q q → q.pop s.localPort = some (p, q') → Q q') :
    ∃ q, s.fetchInbound.2 = { s with inbound := q } ∧ Q q := by
  have hupto : ∀ n (q : Queue), Q q → ∃ q',
      (Session.fetchInboundUpTo n { s with inbound := q }).2 = { s with inbound := q' } ∧ Q q' := by
    intro n
    induction n with
    | zero => exact fun q h => ⟨q, rfl, h⟩
    | succ n ih =>
      intro q h
      unfold Session.fetchInboundUpTo
      split
      · exact ⟨q, rfl, h⟩
      rename_i p q' hp
      split
      · exact ih q' (hpop h hp)
      · exact ⟨q, rfl, h⟩
  exact hupto _ s.inbound hs

/-- The inbound queue has more room once what is in sequence has been handed out. -/
theorem fetchInbound_room (s : Session) : ∃ q, s.fetchInbound.2 = { s with inbound := q } ∧
    q.used ≤ s.inbound.used ∧ q.capacity = s.inbound.capacity :=
  fetchInbound_pops s ⟨Nat.le_refl _, rfl⟩ fun ⟨hused, hcapacity⟩ hpop =>
    ⟨Nat.le_trans (Queue.used_pop_le hpop) hused, (Queue.capacity_pop hpop).trans hcapacity⟩

theorem fetchInbound_fields (s : Session) : ∃ q, s.fetchInbound.2 = { s with inbound := q } := by
  obtain ⟨q, he, -⟩ := fetchInbound_room s
  exact ⟨q, he⟩

/-! ## What arrives -/

/-- Takes data that is new in sequence or early. -/
def Session.absorb (s : Session) (q : Queue) (relSeq : UInt8) : Session :=
  let t := ({ s with inbound := q }.arrive relSeq).advance
  if t.expected ≠ s.expected then t.raise (.inboundAvailable s.localPort) else t

/-- Takes the answer to the request for the connection. -/
def Session.welcomed (s : Session) (p : Packet) : Session :=
  ({ s.acknowledge p.header.ack with expected := p.header.relSeq }.arrive
    p.header.relSeq).advance.moveTo .connected

/-- Takes data that lies in the window. -/
def Session.takeData (s : Session) (p : Packet) : Attempt Session Unit :=
  if s.early.get p.header.relSeq then (.ok (), s.postAck)
  else
    match s.inbound.push p with
    | .error e => (.error e, s)
    | .ok q => (.ok (), (s.absorb q p.header.relSeq).postAck)

theorem receiveData_eq {s : Session} {p : Packet}
    (h : Serial.distance s.expected p.header.relSeq < s.config.window) :
    s.receiveData p = s.takeData p := by
  unfold Session.receiveData
  rw [if_neg (Nat.not_le.2 h)]
  rfl

theorem absorb_fields (s : Session) (q : Queue) (relSeq : UInt8) :
    ∃ early expected hasGap events, s.absorb q relSeq =
      { s with
        inbound := q, early := early, expected := expected, hasGap := hasGap, events := events } := by
  obtain ⟨early, expected, hasGap, he⟩ := advance_fields (({ s with inbound := q } : Session).arrive relSeq)
  unfold Session.absorb
  simp only
  rw [he]
  split
  · obtain ⟨events, hraise⟩ := raise_fields
      { s with inbound := q, early := early, expected := expected, hasGap := hasGap }
      (.inboundAvailable s.localPort)
    exact ⟨early, expected, hasGap, events, hraise⟩
  · exact ⟨early, expected, hasGap, s.events, rfl⟩

theorem receiveData_fields (s : Session) (p : Packet) :
    ∃ inbound early expected hasGap outbound events, (s.receiveData p).2 =
      { s with
        inbound := inbound, early := early, expected := expected, hasGap := hasGap, outbound := outbound,
        events := events } := by
  unfold Session.receiveData
  simp only
  split
  · split
    · obtain ⟨outbound, events, he⟩ := postAck_fields s
      exact ⟨_, _, _, _, outbound, events, he⟩
    · exact ⟨_, _, _, _, _, _, rfl⟩
  split
  · obtain ⟨outbound, events, he⟩ := postAck_fields s
    exact ⟨_, _, _, _, outbound, events, he⟩
  split
  · exact ⟨_, _, _, _, _, _, rfl⟩
  · rename_i q _
    obtain ⟨early, expected, hasGap, events, he⟩ := absorb_fields s q p.header.relSeq
    obtain ⟨outbound, events', hpost⟩ := postAck_fields (s.absorb q p.header.relSeq)
    rw [he] at hpost
    refine ⟨q, early, expected, hasGap, outbound, events', ?_⟩
    rw [← hpost, ← he]
    rfl

theorem welcomed_fields (s : Session) (p : Packet) :
    ∃ early expected hasGap inFlight oldest events, s.welcomed p =
      { s with
        state := .connected, early := early, expected := expected, hasGap := hasGap,
        inFlight := inFlight, oldestUnacked := oldest, events := events } := by
  obtain ⟨inFlight, oldest, hack⟩ := acknowledge_fields s p.header.ack
  unfold Session.welcomed
  rw [hack]
  let s₁ : Session :=
    { s with inFlight := inFlight, oldestUnacked := oldest, expected := p.header.relSeq }
  obtain ⟨early, expected, hasGap, hadv⟩ := advance_fields (s₁.arrive p.header.relSeq)
  obtain ⟨events, hmove⟩ := moveTo_fields
    { s₁.arrive p.header.relSeq with early := early, expected := expected, hasGap := hasGap } .connected
  exact ⟨early, expected, hasGap, inFlight, oldest, events,
    (congrArg (Session.moveTo · .connected) hadv).trans hmove⟩

/-! ## What is admitted -/

theorem admits_eq_ok {s : Session} {ps : List Packet} (h : s.admits ps = .ok ()) :
    s.state = .connected ∧ s.inFlight.length + ps.length ≤ s.config.window ∧
      s.outbound.fits (wireLengths ps + (s.gapReport.map Packet.wireLength).getD 0) = true := by
  unfold Session.admits at h
  split at h
  · cases h
  rename_i hst
  split at h
  · cases h
  rename_i hwindow
  simp only at h
  split at h
  · rename_i hfits
    exact ⟨Decidable.not_not.1 hst, by omega, hfits⟩
  · cases h

end NarrowLink.Connection
