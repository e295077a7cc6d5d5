import NarrowLink.Proofs.Exchange.Streams
import NarrowLink.Proofs.Exchange.Window

/-!
# Connections that send everything once

If neither end sends again or reports, then every packet that reaches an end is the next one, so the books
of the ends and what is on the way between them fit together (`Once`), whatever the window.  Whatever an end
is asked for, and whatever reaches it, keeps them so (`Onward`).  A sender has never given more numbers than
fit in the window of its peer then (`Once.in_window`).
-/

namespace NarrowLink.Connection

open Wire

/-- The end neither sends again nor reports. -/
def Terms.Quiet (t : Terms) (x : Role) : Prop :=
  (t.options x).retransmit = false ∧ (t.options x).selectiveAck = false

/-- How far an end has come that nobody closes or resets. -/
def Stage (x : Role) (s : Session) (g : Ledger) : Prop :=
  match s.state with
  | .disconnected => g.sent = []
  | .connecting => 0 < g.sent.length ∧ (x = .initiator → g.intake.reached = 0) ∧
      (x = .responder → 0 < g.intake.reached)
  | .connected => 0 < g.sent.length ∧ 0 < g.intake.reached
  | .disconnecting | .resetting => False

/-- An end, its books, what is on the link to its peer, and what is on the way back. -/
structure Once (t : Terms) (x : Role) (s : Session) (g gy : Ledger) (link back : List Parcel) :
    Prop where
  books : Books t x s g
  alive : g.alive = true
  stage : Stage x s g
  streams : Streams t x g gy (link ++ g.queue) back
  streams_peer : Streams t x.peer gy g back (link ++ g.queue)

variable {t : Terms} {x : Role} {s s' : Session} {g g' gy : Ledger} {link back : List Parcel}
  {p : Parcel}

theorem Stage.connected (h : Stage x s g) (hst : s.state = .connected) :
    0 < g.sent.length ∧ 0 < g.intake.reached := by
  unfold Stage at h
  rwa [hst] at h

theorem Stage.connecting (h : Stage x s g) (hst : s.state = .connecting) : 0 < g.sent.length ∧
    (x = .initiator → g.intake.reached = 0) ∧ (x = .responder → 0 < g.intake.reached) := by
  unfold Stage at h
  rwa [hst] at h

theorem Stage.disconnected (h : Stage x s g) (hst : s.state = .disconnected) : g.sent = [] := by
  unfold Stage at h
  rwa [hst] at h

theorem Stage.of_connected (hst : s.state = .connected) (hsent : 0 < g.sent.length)
    (hreached : 0 < g.intake.reached) : Stage x s g := by
  unfold Stage
  rw [hst]
  exact ⟨hsent, hreached⟩

/-- What is in flight at the end are all numbers that its peer is not known to have passed. -/
theorem Once.length_eq (h : Once t x s g gy link back) :
    g.known.reached + s.inFlight.length = g.sent.length := by
  rw [h.books.length_flights h.alive, h.streams.flying, List.length_range']
  exact Nat.add_sub_cancel' (Nat.le_trans h.streams.known_le h.streams.reached_le)

/-- What an end has sent lies in the window of its peer. -/
theorem Once.in_window (h : Once t x s g gy link back) :
    g.sent.length ≤ gy.intake.reached + t.config.window :=
  Nat.le_trans h.streams.length_le (Nat.add_le_add_right h.streams.known_le _)

/-! ## What an end queues -/

theorem postGapReport_of_plain {s : Session} (h : s.options.selectiveAck = false) :
    s.postGapReport = s := by
  unfold Session.postGapReport Session.gapReport
  rw [h, Bool.and_false, if_neg Bool.false_ne_true]

/-- An end acknowledges what it has passed, if its queue has room. -/
theorem Once.postAck (h : Once t x s g gy link back) (hquiet : t.Quiet x) :
    ∃ queue outbound events, s.postAck = { s with outbound := outbound, events := events } ∧
      Once t x s.postAck { g with queue := queue } gy link back := by
  have hplain : s.options.selectiveAck = false := by rw [h.books.options]; exact hquiet.2
  let p : Parcel := ⟨s.packet .acknowledging s.nextSeq [], g.sent.length, g.intake⟩
  obtain ⟨outbound, events, hpost⟩ := post_fields s p.packet
  have hack : s.postAck = s.post p.packet := by
    unfold Session.postAck
    rw [hpost]
    exact postGapReport_of_plain hplain
  rw [hack]
  cases hpush : s.outbound.push p.packet with
  | error e =>
    have hsame : s.post p.packet = s := by
      unfold Session.post
      rw [hpush]
    rw [hsame]
    exact ⟨g.queue, s.outbound, s.events, rfl, h⟩
  | ok q =>
    obtain ⟨-, rfl⟩ := Queue.push_eq_ok_iff.1 hpush
    obtain ⟨events', hr⟩ := raise_fields { s with outbound := s.outbound.add p.packet }
      (.outboundAvailable s.localPort)
    have hsame : s.post p.packet =
        { s with outbound := s.outbound.add p.packet, events := events' } := by
      unfold Session.post
      rw [hpush]
      exact hr
    have hcounts : ¬ p.Counts := by
      unfold Parcel.Counts
      show ¬ (Flags.acknowledging.syn = true ∨ Flags.acknowledging.data = true ∨
        Flags.acknowledging = .closing)
      decide
    have hfits : p.Plain x g.sent.length :=
      ⟨h.books.nextSeq, h.books.expected, Nat.le_refl _, .inl rfl⟩
    rw [hsame]
    refine ⟨g.queue ++ [p], _, events', rfl, ?_, h.alive, h.stage, ?_, ?_⟩
    · exact { h.books with
        outbound := by
          rw [List.map_append]
          exact holds_add_in_turn h.books.outbound h.books.remotePort h.books.nextSeq h.streams.inTurn }
    · have := h.streams.acknowledges hfits hcounts rfl
      rwa [List.append_assoc] at this
    · have := h.streams_peer.shows (p := p) rfl { g with queue := g.queue ++ [p] } rfl
      rwa [List.append_assoc] at this

/-- An end gives the next number to a packet. -/
theorem Once.issue (h : Once t x s g gy link back)
    (hroom : g.sent.length + 1 ≤ g.known.reached + t.config.window) {p : Packet} (now : Nat)
    (hport : p.port = t.port x.peer) (hrel : p.header.relSeq = s.nextSeq)
    (hack : p.header.ack = s.expected)
    (hflags : p.header.flags = flagsOf x (g.sent.length + 1) g.sent.length) (state : State)
    (events : List Event) (hstage : ∀ queue, Stage x { s with state := state } (g.issue 0 p queue)) :
    ∃ queue, Once t x
      { s with
        nextSeq := Serial.next s.nextSeq
        inFlight := s.inFlight.push p now
        outbound := s.outbound.add p
        state := state
        events := events } (g.issue 0 p queue) gy link back := by
  let parcel : Parcel := ⟨p, g.sent.length, g.intake⟩
  have hrel' : p.header.relSeq = Serial.forward 0 g.sent.length := hrel.trans h.books.nextSeq
  have hplain : parcel.Plain x (g.sent.length + 1) :=
    ⟨hrel', hack.trans h.books.expected, Nat.le_succ _, .inr ⟨hflags, Nat.lt_succ_self _⟩⟩
  have hholds : (s.outbound.add p).Holds (t.port x.peer)
      ((g.queue ++ [parcel]).map Parcel.packet) := by
    rw [List.map_append]
    exact holds_add_in_turn h.books.outbound hport hrel' h.streams.inTurn
  have hflying : ∀ n ∈ g.flying, n < g.sent.length := fun n hn => by
    rw [h.streams.flying, List.mem_range'_1] at hn
    omega
  refine ⟨g.queue ++ [parcel], ?_, h.alive, hstage _, ?_, ?_⟩
  · exact (h.books.number h.alive hflying hholds 0 now).congr state events
  · have := h.streams.issue hplain rfl hroom 0
    rwa [List.append_assoc] at this
  · have := h.streams_peer.shows (p := parcel) rfl (g.issue 0 p (g.queue ++ [parcel])) rfl
    rwa [List.append_assoc] at this

/-! ## What its owner does to an end -/

/-- What an observer sees of an end that goes from one state to another. -/
structure Onward (t : Terms) (x : Role) (s s' : Session) (g g' gy : Ledger)
    (link back : List Parcel) : Prop where
  once : Once t x s' g' gy link back
  sent : g'.sent = g.sent ++ (s'.inFlight.flights.drop s.inFlight.length).map Flight.packet
  reached_le : g.intake.reached ≤ g'.intake.reached
  reached_lt : g'.intake.reached < g.intake.reached + 256

/-- The end gives no number. -/
theorem Once.onward (h : Once t x s' g' gy link back) (hsent : g'.sent = g.sent)
    (hflights : s'.inFlight.length ≤ s.inFlight.length)
    (hle : g.intake.reached ≤ g'.intake.reached)
    (hlt : g'.intake.reached < g.intake.reached + 256) : Onward t x s s' g g' gy link back := by
  refine ⟨h, ?_, hle, hlt⟩
  rw [List.drop_eq_nil_of_le hflights, hsent]
  exact (List.append_nil _).symm

/-- Neither a number is given nor one is taken. -/
theorem Once.stays (h : Once t x s' g gy link back)
    (hflights : s'.inFlight.length ≤ s.inFlight.length) : Onward t x s s' g g gy link back :=
  h.onward rfl hflights (Nat.le_refl _) (by omega)

/-- The initiator asks for the connection. -/
theorem Once.connect (h : Once t .initiator s g gy link back) (hst : s.state = .disconnected)
    (hreached : g.intake.reached = 0) (hpos : 0 < t.config.window) (now : Nat) :
    ∃ g', Onward t .initiator s (s.connect now).2 g g' gy link back := by
  have hlen : g.sent.length = 0 := by rw [h.stage.disconnected hst]; rfl
  rcases connect_cases hst now with he | ⟨events, he⟩ <;> rw [he]
  · exact ⟨g, h.stays (Nat.le_refl _)⟩
  obtain ⟨queue, h'⟩ := h.issue (p := s.packet .opening s.nextSeq []) (by omega) now
    h.books.remotePort rfl rfl (by rw [hlen]; rfl) .connecting events
    fun queue => ⟨by simp [Ledger.issue], fun _ => hreached, fun e => nomatch e⟩
  exact ⟨_, h', sent_issue rfl rfl _ _ _, Nat.le_refl _, by simp only [Ledger.issue]; omega⟩

/-- The responder answers the packet that asks for the connection. -/
theorem Once.accept (h : Once t .responder s g gy link (p :: back)) (hu : s.Unused)
    (hreached : g.intake.reached = 0) (hsyn : p.packet.header.flags.syn = true)
    (hpos : 0 < t.config.window) (now : Nat) :
    ∃ g', Onward t .responder s (s.accept p.packet now).2 g g' gy link back := by
  have hlen : g.sent.length = 0 := by rw [h.stage.disconnected hu.state]; rfl
  have hplain := h.streams_peer.out_plain p List.mem_cons_self
  have hzero := (hplain.opens hsyn).1
  let i : Intake := ⟨1, fun _ => False⟩
  have hexpected : Serial.next p.packet.header.relSeq = Serial.forward 0 i.reached := by
    rw [hplain.relSeq, hzero]
    rfl
  have htook : ∀ n, i.took n → n = 0 := fun n hn => Nat.lt_one_iff.1 (hn.resolve_right id)
  have h₁ : Once t .responder { s with expected := Serial.forward 0 i.reached } (g.take i) gy link
      back := {
    books := { h.books with
      expected := rfl
      early := fun _ n _ _ => by
        show s.early.get _ = true ↔ False
        rw [hu.early, ByteMap.get_const]
        exact iff_of_false Bool.false_ne_true id }
    alive := h.alive
    stage := by
      have := h.stage.disconnected hu.state
      unfold Stage
      simp only [hu.state]
      exact this
    streams := { h.streams.lose_back with }
    streams_peer := h.streams_peer.takes (i := i) (.inl hsyn) (by omega) (fun _ e => e.elim)
      (fun n hn => .inr ((htook n hn).trans hzero.symm)) _ rfl }
  rcases accept_cases hu.state p.packet now hexpected with he | ⟨events, he⟩ <;> rw [he]
  · exact ⟨_, h₁.onward rfl (Nat.le_refl _) (by omega) (by simp only [Ledger.take, i]; omega)⟩
  obtain ⟨queue, h'⟩ := h₁.issue
    (p := ({ s with expected := Serial.forward 0 i.reached } : Session).packet .welcoming s.nextSeq [])
    (by simp only [Ledger.take]; omega) now h.books.remotePort rfl rfl
    (by simp only [Ledger.take]; rw [hlen]; rfl) .connecting events
    fun queue => ⟨by simp [Ledger.issue], (by intro e; cases e), fun _ => Nat.one_pos⟩
  exact ⟨_, h', sent_issue rfl rfl _ _ _, by omega, by simp only [Ledger.issue, Ledger.take, i]; omega⟩

/-- Stamped packets go out under the numbers that they carry. -/
theorem Once.launch {n : UInt8} {ps : List Packet}
    (h : Once t x { s with nextSeq := n } g gy link back) (hst : s.state = .connected)
    (hroom : g.sent.length + ps.length ≤ g.known.reached + t.config.window)
    (hstamped : Stamped s.remotePort s.expected n ps)
    (hfits : s.outbound.fits (wireLengths ps) = true) (now : Nat) :
    ∃ outbound f g', s.launch now ps = (.ok (), { s with inFlight := f, outbound := outbound }) ∧
      f.flights = s.inFlight.flights ++ ps.map (fun p => ⟨p, now, 0⟩) ∧
      Once t x { s with nextSeq := Serial.forward n ps.length, inFlight := f, outbound := outbound } g'
        gy link back ∧ g'.sent = g.sent ++ ps ∧ g'.intake = g.intake := by
  induction ps generalizing s n g with
  | nil => exact ⟨s.outbound, s.inFlight, g, rfl, by simp, h, by simp, rfl⟩
  | cons p ps ih =>
    obtain ⟨hport, hflags, hrel, hack, hrest⟩ := hstamped
    obtain ⟨hpush, hfits'⟩ := fits_cons hfits
    obtain ⟨hsent, hreached⟩ := h.stage.connected hst
    rw [List.length_cons] at hroom
    obtain ⟨queue, h'⟩ := h.issue (by omega) now (hport.trans h.books.remotePort) hrel hack
      (hflags.trans (flagsOf_pos x (by omega)).symm) .connected s.events
      fun queue => ⟨by simp [Ledger.issue], hreached⟩
    have hlen : (g.issue 0 p queue).sent.length = g.sent.length + 1 := by simp [Ledger.issue]
    obtain ⟨outbound, f, g', hlaunch, hf, h'', hsent', hi⟩ :=
      ih (s := { s with inFlight := s.inFlight.push p now, outbound := s.outbound.add p })
        (n := Serial.next n) (by rw [← hst] at h'; exact h') hst
        (by rw [hlen]; simp only [Ledger.issue]; omega) hrest hfits'
    refine ⟨outbound, f, g', ?_, ?_, ?_, ?_, hi⟩
    · unfold Session.launch
      simp only
      rw [hpush]
      exact hlaunch
    · rw [hf]
      simp [InFlight.push]
    · rw [List.length_cons, ← Serial.forward_next]
      exact h''
    · rw [hsent']
      simp [Ledger.issue]

/-- A message is refused, or its fragments get the next numbers. -/
theorem Once.send (h : Once t x s g gy link back) (hquiet : t.Quiet x) (ps : List Packet)
    (numbers : List UInt8) (now : Nat) : ∃ g', Onward t x s
      (s.send ps now fun ps => (numberFragments numbers ps, ())).2 g g' gy link back := by
  unfold Session.send
  cases hadmits : s.admits ps with
  | error e => exact ⟨g, h.stays (Nat.le_refl _)⟩
  | ok =>
    obtain ⟨hst, hwindow, hfits⟩ := admits_eq_ok hadmits
    have hplain : s.options.selectiveAck = false := by rw [h.books.options]; exact hquiet.2
    have hroom := fits_postGapReport s _ hfits
    rw [postGapReport_of_plain hplain] at hroom ⊢
    rw [h.books.config] at hwindow
    have hlen := h.length_eq
    obtain ⟨qs, hstamp, hnumbers⟩ := stamp_spec s ps
    obtain ⟨hstamped, -, hwire, hqlen⟩ := hnumbers numbers
    rw [← hwire] at hroom
    obtain ⟨outbound, f, g', hlaunch, hf, h', hsent, hi⟩ :=
      h.launch (s := { s with nextSeq := Serial.forward s.nextSeq ps.length }) hst
        (by rw [hqlen]; omega) hstamped hroom now
    obtain ⟨events, hr⟩ := raise_fields
      { s with
        nextSeq := Serial.forward s.nextSeq ps.length
        inFlight := f
        outbound := outbound } (.outboundAvailable s.localPort)
    simp only [hstamp]
    rw [hlaunch]
    simp only
    rw [hr]
    rw [hqlen] at h'
    refine ⟨g', ⟨{ h'.books with }, h'.alive, h'.stage, h'.streams, h'.streams_peer⟩, ?_, ?_, ?_⟩
    · show g'.sent = g.sent ++ (f.flights.drop s.inFlight.flights.length).map Flight.packet
      rw [hf, hsent, List.drop_left, List.map_map]
      exact congrArg _ (List.map_id _).symm
    · rw [hi]
    · rw [hi]
      omega

/-- An end that does not send again does nothing when its owner looks at its timers. -/
theorem Once.checkTimers (h : Once t x s g gy link back) (hquiet : t.Quiet x) (now : Nat) :
    Onward t x s (s.checkTimers now) g g gy link back := by
  have hoff : s.options.retransmit = false := by rw [h.books.options]; exact hquiet.1
  obtain ⟨events, he⟩ := raise_fields s (.outboundAvailable s.localPort)
  unfold Session.checkTimers
  simp only
  split
  · rw [hoff, Bool.false_and, if_neg Bool.false_ne_true]
    exact h.stays (Nat.le_refl _)
  · rw [he]
    simp only
    rw [hoff, Bool.false_and, if_neg Bool.false_ne_true]
    exact Once.stays ⟨{ h.books with }, h.alive, h.stage, h.streams, h.streams_peer⟩ (Nat.le_refl _)

/-- What is queued goes onto the link. -/
theorem Once.fetchOutbound (h : Once t x s g gy link back) :
    s.fetchOutbound.1 = g.queue.map Parcel.packet ∧ Onward t x s s.fetchOutbound.2 g
      { g with queue := [] } gy (link ++ g.queue) back := by
  have hne : s.state ≠ .resetting := fun e => by
    have := h.stage
    unfold Stage at this
    rwa [e] at this
  obtain ⟨q, he, hholds, -⟩ := fetchOutbound_in_turn hne h.books.outbound
  rw [he]
  refine ⟨rfl, Once.onward ⟨{ h.books with outbound := hholds }, h.alive, h.stage, ?_, ?_⟩ rfl
    (Nat.le_refl _) (Nat.le_refl _) (by simp only; omega)⟩
  · rw [List.append_nil]
    exact { h.streams with queue_last := fun z hz => nomatch hz }
  · rw [List.append_nil]
    exact { h.streams_peer with }

theorem Once.fetchInbound (h : Once t x s g gy link back) :
    Onward t x s s.fetchInbound.2 g g gy link back := by
  obtain ⟨q, he⟩ := fetchInbound_fields s
  rw [he]
  exact Once.stays ⟨{ h.books with }, h.alive, h.stage, h.streams, h.streams_peer⟩ (Nat.le_refl _)

/-! ## What reaches an end -/

/-- A packet is lost. -/
theorem Once.lose (h : Once t x s g gy link (p :: back)) : Once t x s g gy link back :=
  { h with
    streams := h.streams.lose_back
    streams_peer := h.streams_peer.lose }

/-- A packet that has a number is behind everything that the end has taken, and in its window. -/
theorem Once.arriving (h : Once t x s g gy link (p :: back)) (hc : p.Counts) :
    g.intake.reached ≤ p.number ∧ ¬ g.intake.took p.number ∧
      p.number < g.intake.reached + t.config.window := by
  have hnew := h.streams_peer.out_new p List.mem_cons_self hc
  have hlt := (h.streams_peer.out_plain p List.mem_cons_self).lt hc
  have hlen := h.streams_peer.length_le
  have hknown := h.streams_peer.known_le
  refine ⟨?_, fun ht => Nat.lt_irrefl _ (hnew _ ht), by omega⟩
  by_contra hlow
  exact Nat.lt_irrefl _ (hnew p.number (.inl (by omega)))

/-- The end hears what a packet acknowledges. -/
theorem Once.hear (h : Once t x s g gy link (p :: back)) (hwindow : t.config.window ≤ 128) :
    ∃ known flying f o, s.acknowledge p.packet.header.ack =
        { s with inFlight := f, oldestUnacked := o } ∧
      f.length ≤ s.inFlight.length ∧
      Books t x { s with inFlight := f, oldestUnacked := o }
        { g with known := known, flying := flying } ∧
      Streams t x { g with known := known, flying := flying } gy (link ++ g.queue) back := by
  obtain ⟨hlow, hhigh⟩ := h.streams.back_known p List.mem_cons_self
  have hlen := h.streams.length_le
  have hrange := h.books.inRange h.alive hlow (Nat.le_trans hhigh h.streams.reached_le) (by omega)
  refine ⟨p.intake, _, s.inFlight.acknowledgeBefore (Serial.forward 0 p.intake.reached),
    Serial.forward 0 p.intake.reached, ?_, List.length_filter_le _ _, ?_, h.streams.hear p.intake rfl⟩
  · unfold Session.acknowledge
    rw [(h.streams_peer.out_plain p List.mem_cons_self).ack, if_pos hrange]
  · exact { h.books with
      oldest := fun _ => rfl
      flights := fun _ => by
        have := h.books.filter h.streams.sent_shape h.alive fun b =>
          !Serial.precedes b (Serial.forward 0 p.intake.reached)
        rwa [h.streams.filter_flying hwindow] at this }

/-- The end takes the number of a packet, and passes what follows in sequence. -/
theorem Books.takes {u : Session} {out : List Parcel} (hb : Books t x u g) (ha : g.alive = true)
    (hs : Streams t x.peer gy g (p :: back) out) (hc : p.Counts) (hwindow : t.config.window ≤ 128)
    (hlow : g.intake.reached ≤ p.number) (hhigh : p.number < g.intake.reached + t.config.window) :
    ∃ i : Intake, g.intake.reached ≤ i.reached ∧ i.reached < g.intake.reached + 256 ∧
      (p.number = 0 → 0 < i.reached) ∧
      Books t x (u.arrive p.packet.header.relSeq).advance (g.take i) ∧
      Streams t x.peer gy (g.take i) back out := by
  obtain ⟨i, hle, hle', hvalid, htook, hb'⟩ := hb.arrive ha hwindow hs.valid hlow hhigh
  rw [← (hs.out_plain p List.mem_cons_self).relSeq] at hb'
  refine ⟨i, hle, by omega, fun hz => ?_, hb', hs.takes hc hle hvalid (fun n => (htook n).1) _ rfl⟩
  rcases (htook p.number).2 (.inr rfl) with hlt | hearly
  · omega
  · have := (hvalid _ hearly).1
    omega

/-- Only what a packet acknowledges is taken from it. -/
theorem Once.acknowledged (h : Once t x s g gy link (p :: back)) (hst : s.state = .connected)
    (hwindow : t.config.window ≤ 128) :
    ∃ g', Onward t x s (s.acknowledge p.packet.header.ack) g g' gy link back := by
  obtain ⟨hsent, hreached⟩ := h.stage.connected hst
  obtain ⟨known, flying, f, o, he, hlen, hb, hs⟩ := h.hear hwindow
  rw [he]
  exact ⟨_, Once.onward ⟨hb, h.alive, Stage.of_connected hst hsent hreached, hs,
    { h.streams_peer.lose with }⟩ rfl hlen (Nat.le_refl _) (by simp only; omega)⟩

/-- The next data is taken, if the inbound queue has room. -/
theorem Once.receiveOpen (h : Once t x s g gy link (p :: back)) (hst : s.state = .connected)
    (hquiet : t.Quiet x) (hwindow : t.config.window ≤ 128) :
    ∃ g', Onward t x s (s.receiveOpen p.packet).2 g g' gy link back := by
  obtain ⟨hsent, hreached⟩ := h.stage.connected hst
  have hplain := h.streams_peer.out_plain p List.mem_cons_self
  have hsyn : p.packet.header.flags.syn = false := by
    refine Bool.eq_false_iff.2 fun hsyn => ?_
    have := (h.arriving (.inl hsyn)).1
    rw [(hplain.opens hsyn).1] at this
    omega
  rcases hplain.flags_of_not_syn hsyn with hf | hf
  · rw [receiveOpen_acknowledging hf]
    exact h.acknowledged hst hwindow
  have hc : p.Counts := .inr (.inl (by rw [hf]; rfl))
  obtain ⟨hlow, hnew, hhigh⟩ := h.arriving hc
  have hearly : s.early.get p.packet.header.relSeq = false := by
    refine Bool.eq_false_iff.2 fun hget => hnew (.inr ?_)
    rwa [hplain.relSeq, h.books.early h.alive _ hlow (by omega)] at hget
  have hdistance : Serial.distance s.expected p.packet.header.relSeq < s.config.window := by
    rw [h.books.expected, hplain.relSeq, h.books.config,
      Serial.distance_forward _ hlow (by simp only [Serial.half]; omega)]
    omega
  obtain ⟨known, flying, f, o, he, hlen, hb, hs⟩ := h.hear hwindow
  let u : Session := { s with inFlight := f, oldestUnacked := o }
  rw [receiveOpen_carrying hf, he, receiveData_eq (s := u) hdistance]
  unfold Session.takeData
  simp only [u]
  rw [hearly, if_neg Bool.false_ne_true]
  cases hpush : s.inbound.push p.packet with
  | error e =>
    simp only
    rw [← he]
    exact h.acknowledged hst hwindow
  | ok q =>
    have hpeer : Streams t x.peer gy { g with known := known, flying := flying } (p :: back)
        (link ++ g.queue) := { h.streams_peer with }
    obtain ⟨i, hle, hlt, -, hb', hpeer'⟩ := Books.takes (u := { u with inbound := q })
      { hb with } h.alive hpeer hc hwindow hlow hhigh
    obtain ⟨early, expected, hasGap, hadvance⟩ :=
      advance_fields (({ u with inbound := q } : Session).arrive p.packet.header.relSeq)
    have habsorb : ∃ events, u.absorb q p.packet.header.relSeq =
        { u with
          inbound := q, early := early, expected := expected, hasGap := hasGap, events := events } := by
      unfold Session.absorb
      simp only
      rw [hadvance]
      split
      · exact raise_fields _ (.inboundAvailable u.localPort)
      · exact ⟨u.events, rfl⟩
    obtain ⟨events, habsorb⟩ := habsorb
    have h' : Once t x (u.absorb q p.packet.header.relSeq)
        (Ledger.take { g with known := known, flying := flying } i) gy link back := by
      rw [hadvance] at hb'
      rw [habsorb]
      exact ⟨{ hb' with }, h.alive,
        Stage.of_connected hst hsent (Nat.lt_of_lt_of_le hreached hle), { hs with }, hpeer'⟩
    obtain ⟨queue, outbound, events', hpost, h''⟩ := h'.postAck hquiet
    simp only
    refine ⟨_, h''.onward rfl ?_ hle hlt⟩
    rw [hpost, habsorb]
    exact hlen

/-- The initiator is welcomed. -/
theorem Once.welcomed (h : Once t .initiator s g gy link (p :: back)) (hst : s.state = .connecting)
    (hflags : p.packet.header.flags = .welcoming) (hquiet : t.Quiet .initiator)
    (hpos : 0 < t.config.window) (hwindow : t.config.window ≤ 128) :
    ∃ g', Onward t .initiator s (s.welcomed p.packet).postAck g g' gy link back := by
  obtain ⟨hsent, hreached, -⟩ := h.stage.connecting hst
  have hreached := hreached rfl
  have hsyn : p.packet.header.flags.syn = true := by rw [hflags]; rfl
  have hplain := h.streams_peer.out_plain p List.mem_cons_self
  have hzero := (hplain.opens hsyn).1
  obtain ⟨known, flying, f, o, he, hlen, hb, hs⟩ := h.hear hwindow
  let u : Session :=
    { s with inFlight := f, oldestUnacked := o, expected := p.packet.header.relSeq }
  have hu : Books t .initiator u { g with known := known, flying := flying } := { hb with
    expected := by
      show p.packet.header.relSeq = Serial.forward 0 g.intake.reached
      rw [hplain.relSeq, hzero, hreached] }
  have hpeer : Streams t .responder gy { g with known := known, flying := flying } (p :: back)
      (link ++ g.queue) := { h.streams_peer with }
  obtain ⟨i, hle, hlt, hnew, hb', hpeer'⟩ := hu.takes h.alive hpeer (.inl hsyn) hwindow
    (by simp only; omega) (by simp only; omega)
  obtain ⟨events, hm⟩ := moveTo_fields (u.arrive p.packet.header.relSeq).advance .connected
  have hwelcomed : s.welcomed p.packet =
      { (u.arrive p.packet.header.relSeq).advance with state := .connected, events := events } := by
    unfold Session.welcomed
    rw [he]
    exact hm
  have h' : Once t .initiator (s.welcomed p.packet)
      (Ledger.take { g with known := known, flying := flying } i) gy link back := by
    rw [hwelcomed]
    exact ⟨hb'.congr _ _, h.alive, Stage.of_connected rfl hsent (hnew hzero), { hs with }, hpeer'⟩
  obtain ⟨queue, outbound, events', hpost, h''⟩ := h'.postAck hquiet
  refine ⟨_, h''.onward rfl ?_ hle hlt⟩
  rw [hpost, hwelcomed]
  exact hlen

theorem Once.receiveConnecting (h : Once t x s g gy link (p :: back)) (hst : s.state = .connecting)
    (hquiet : t.Quiet x) (hpos : 0 < t.config.window) (hwindow : t.config.window ≤ 128) :
    ∃ g', Onward t x s (s.receiveConnecting p.packet).2 g g' gy link back := by
  unfold Session.receiveConnecting
  simp only [h.books.role]
  cases x with
  | initiator =>
    simp only
    split
    · exact ⟨g, h.lose.stays (Nat.le_refl _)⟩
    rename_i hflags
    split
    · exact ⟨g, h.lose.stays (Nat.le_refl _)⟩
    · exact h.welcomed hst (not_not.1 hflags) hquiet hpos hwindow
  | responder =>
    obtain ⟨hsent, -, hreached⟩ := h.stage.connecting hst
    have hreached := hreached rfl
    simp only
    split
    · -- the packet that opens has been taken
      rename_i hflags
      have hsyn : p.packet.header.flags.syn = true := by rw [hflags]; rfl
      have hzero := ((h.streams_peer.out_plain p List.mem_cons_self).opens hsyn).1
      have := (h.arriving (.inl hsyn)).1
      omega
    split
    · exact ⟨g, h.lose.stays (Nat.le_refl _)⟩
    obtain ⟨events, hm⟩ := moveTo_fields s .connected
    simp only [hm]
    have h₁ : Once t .responder { s with state := .connected, events := events } g gy link
        (p :: back) :=
      { h with
        books := h.books.congr _ _
        stage := Stage.of_connected rfl hsent hreached }
    split
    · obtain ⟨g', h'⟩ := h₁.receiveOpen rfl hquiet hwindow
      exact ⟨g', h'.once, h'.sent, h'.reached_le, h'.reached_lt⟩
    · obtain ⟨g', h'⟩ := h₁.acknowledged rfl hwindow
      exact ⟨g', h'.once, h'.sent, h'.reached_le, h'.reached_lt⟩

/-- Whatever reaches the end is the next packet of its peer. -/
theorem Once.receive (h : Once t x s g gy link (p :: back)) (hquiet : t.Quiet x)
    (hpos : 0 < t.config.window) (hwindow : t.config.window ≤ 128) :
    ∃ g', Onward t x s (s.receive p.packet).2 g g' gy link back := by
  have hrst : p.packet.header.flags.rst = false := by
    rcases (h.streams_peer.out_plain p List.mem_cons_self).flags with hf | ⟨hf, -⟩
    · rw [hf]
      rfl
    · rw [hf]
      unfold flagsOf
      split
      · cases x <;> rfl
      split <;> rfl
  unfold Session.receive
  rw [hrst, if_neg Bool.false_ne_true]
  have hstage := h.stage
  unfold Stage at hstage
  cases hst : s.state with
  | disconnected => exact ⟨g, h.lose.stays (Nat.le_refl _)⟩
  | connecting => exact h.receiveConnecting hst hquiet hpos hwindow
  | connected => exact h.receiveOpen hst hquiet hwindow
  | disconnecting | resetting =>
    rw [hst] at hstage
    exact hstage.elim

end NarrowLink.Connection
