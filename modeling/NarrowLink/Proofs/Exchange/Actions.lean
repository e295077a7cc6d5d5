import NarrowLink.Proofs.Exchange.Reception

/-!
# What its owner does to an end

An owner opens a connection, closes and resets it, looks at its timers and takes what is queued.  The
end stands as its books say after each of them.  Packets that consume a number get the next one
(`Books.issue`).
-/

namespace NarrowLink.Connection

open Wire

/-- What the end was asked to send, as its books have it: everything between the packet that opens and
the one that closes. -/
def Ledger.pieces (g : Ledger) : List Piece := ((g.sent.take g.bulk).drop 1).map Piece.of

theorem Ledger.length_pieces_le (g : Ledger) : g.pieces.length ≤ g.bulk - 1 := by
  unfold Ledger.pieces
  simp only [List.length_map, List.length_drop, List.length_take]
  omega

theorem Ledger.length_pieces {g : Ledger} (h : g.bulk ≤ g.sent.length) :
    g.pieces.length = g.bulk - 1 := by
  unfold Ledger.pieces
  simp only [List.length_map, List.length_drop, List.length_take]
  omega

variable {t : Terms} {x : Role} {s s' : Session} {g g' gy : Ledger} {out back : List Parcel}

/-- The session `s'` comes of `s` when its owner asks it to send `new`. -/
def Acts (t : Terms) (x : Role) (s s' : Session) (g gy : Ledger) (out back : List Parcel)
    (new : List Piece) : Prop :=
  ∃ g', Becomes t x s s' g g' gy out back ∧ g'.intake = g.intake ∧ g'.pieces = g.pieces ++ new

theorem Becomes.refl (h : Stands t x s g gy out back) : Becomes t x s s g g gy out back where
  stands := h
  intakes := .none rfl rfl rfl
  sent := by
    unfold InFlight.length
    simp

theorem Acts.refl (h : Stands t x s g gy out back) : Acts t x s s g gy out back [] :=
  ⟨g, .refl h, rfl, by simp⟩

/-! ## Giving a number -/

/-- The books of an end that gives the next number to a packet and queues it. -/
theorem Books.number (hb : Books t x s g) (ha : g.alive = true)
    (hflying : ∀ n ∈ g.flying, n < g.sent.length) {p : Packet} {queue : List Parcel}
    (hholds : (s.outbound.add p).Holds (t.port x.peer) (queue.map Parcel.packet)) (bulk now : Nat) :
    Books t x
      { s with
        nextSeq := Serial.next s.nextSeq
        inFlight := s.inFlight.push p now
        outbound := s.outbound.add p } (g.issue bulk p queue) := by
  have hlen : (g.sent ++ [p]).length = g.sent.length + 1 := by simp
  have hget : ∀ n ∈ g.flying, (g.sent ++ [p])[n]? = g.sent[n]? := fun n hn =>
    List.getElem?_append_left (hflying n hn)
  exact {
    hb with
    nextSeq := by
      show Serial.next s.nextSeq = Serial.forward 0 (g.sent ++ [p]).length
      rw [hlen, Serial.forward_succ, hb.nextSeq]
    outbound := hholds
    flights := by
      intro _
      show (s.inFlight.flights ++ [(⟨p, now, 0⟩ : Flight)]).map (fun f => some f.packet) =
        (g.flying ++ [g.sent.length]).map fun n => (g.sent ++ [p])[n]?
      rw [List.map_append, List.map_append, hb.flights ha, List.map_congr_left hget]
      simp }

/-- A packet gets the next number. -/
theorem Books.issue (hb : Books t x s g) (hs : Sound t x g gy out back) (ha : g.alive = true)
    (hopen : g.sent.length = g.bulk) (bulk : Nat)
    (hbulk : bulk = g.bulk + 1 ∨ (bulk = g.bulk ∧ 0 < g.bulk))
    (hspan : bulk ≤ g.known.reached + 127) {p : Packet} (now : Nat) (hport : p.port = t.port x.peer)
    (hrel : p.header.relSeq = s.nextSeq) (hack : p.header.ack = s.expected)
    (hflags : p.header.flags = flagsOf x bulk g.sent.length)
    (hpiece : g.sent.length = 0 → Piece.of p = ⟨[], false, 0⟩) :
    ∃ queue,
      Books t x
        { s with
          nextSeq := Serial.next s.nextSeq
          inFlight := s.inFlight.push p now
          outbound := s.outbound.add p } (g.issue bulk p queue) ∧
      Sound t x (g.issue bulk p queue) gy out back := by
  have hrel' : p.header.relSeq = Serial.forward 0 g.sent.length := hrel.trans hb.nextSeq
  let parcel : Parcel := ⟨p, g.sent.length, g.intake⟩
  obtain ⟨front, rear, hq, hrear, hfront, hholds⟩ :=
    hb.add hs.tidy.queue_fits (p := parcel) hport hrel'
  exact ⟨front ++ parcel :: rear, hb.number ha (fun n hn => (hs.tidy.flying_mem n hn).2) hholds bulk now,
    hs.issue ha (p := parcel) ⟨hopen, hbulk, hspan, rfl, rfl, hport, hrel', hack.trans hb.expected,
      hflags, hpiece⟩ hq hrear hfront⟩

theorem pieces_issue_of_bulk (g : Ledger) (p : Packet) (queue : List Parcel)
    (hopen : g.sent.length = g.bulk) :
    (g.issue g.bulk p queue).pieces = g.pieces := by
  unfold Ledger.pieces Ledger.issue
  simp [← hopen]

/-! ## Beginning -/

/-- The books of an end that has not begun are those of one that comes to life. -/
theorem Stands.wake (h : Stands t x s g gy out back) (hs : s.Unused) (hg : g.Blank)
    (i : Intake) (past : Intake → Prop) (hnone : ∀ n, ¬ i.early n) :
    Books t x { s with expected := Serial.forward 0 i.reached }
      { g with alive := true, intake := i, past := past } := by
  have hknown : g.known.reached = 0 := by
    have := h.sound.tidy.known_le
    rw [hg.sent] at this
    exact Nat.le_zero.1 this
  have hflying : g.flying = [] := by
    refine List.eq_nil_iff_forall_not_mem.2 fun n hn => ?_
    have := (h.sound.tidy.flying_mem n hn).2
    rw [hg.sent] at this
    exact absurd this (Nat.not_lt_zero n)
  exact {
    h.books with
    expected := rfl
    oldest := fun _ => by
      rw [hknown]
      exact hs.oldest
    flights := fun _ => by
      show s.inFlight.flights.map _ = g.flying.map _
      rw [h.phase.dead (h.dead (.inl hs.state)), hflying]
      rfl
    early := fun _ n _ _ => by
      show s.early.get _ = true ↔ i.early n
      rw [hs.early, ByteMap.get_const]
      exact iff_of_false Bool.false_ne_true (hnone n) }

/-- The first packet of an end is on its way. -/
theorem Books.begin (hb : Books t x s g) (hs : Sound t x g gy out back) (ha : g.alive = true)
    (hsent : g.sent = []) (flags : Flags) (hflags : flags = flagsOf x 1 0)
    (hnone : x = .initiator → g.intake.reached = 0 ∧ ∀ n, ¬ g.intake.early n) (now : Nat)
    (events : List Event) :
    ∃ queue,
      Stands t x
        { s with
          nextSeq := Serial.next s.nextSeq
          inFlight := s.inFlight.push (s.packet flags s.nextSeq []) now
          outbound := s.outbound.add (s.packet flags s.nextSeq [])
          state := .connecting
          events := events }
        (g.issue 1 (s.packet flags s.nextSeq []) queue) gy out back := by
  have hlen : g.sent.length = 0 := by rw [hsent]; rfl
  have hbulk : g.bulk = 0 := by
    have := hs.tidy.bulk_le
    omega
  have hknown : g.known.reached = 0 := by
    have := hs.tidy.known_le
    omega
  obtain ⟨queue, hb', hs'⟩ := hb.issue hs ha (hlen.trans hbulk.symm) 1 (.inl (by omega))
    (by omega) now (p := s.packet flags s.nextSeq []) hb.remotePort rfl rfl (hlen ▸ hflags)
    (fun _ => rfl)
  refine ⟨queue, hb'.congr .connecting events, ?_, hs'⟩
  exact Phase.of_connecting ha rfl ⟨by simp [Ledger.issue, hsent], rfl, hknown, hnone⟩

theorem sent_issue {g₁ : Ledger} {s₁ : Session} {p : Packet} (hs : g₁.sent = g.sent)
    (hf : s₁.inFlight = s.inFlight) (queue : List Parcel) (bulk now : Nat) :
    (g₁.issue bulk p queue).sent = g.sent ++
      ((s₁.inFlight.push p now).flights.drop s.inFlight.length).map Flight.packet := by
  rw [hf]
  simp [Ledger.issue, InFlight.push, InFlight.length, hs]

theorem Stands.connect (h : Stands t .initiator s g gy out back) (hs : s.Unused) (hg : g.Blank)
    (now : Nat) : Acts t .initiator s (s.connect now).2 g gy out back [] := by
  rcases connect_cases hs.state now with he | ⟨events, he⟩ <;> rw [he]
  · exact Acts.refl h
  have hb := h.wake hs hg g.intake g.past hg.none
  rw [← h.books.expected] at hb
  have hw : Sound t .initiator { g with alive := true } gy out back := by
    refine h.sound.wake hg.sent ?_
    rintro n (hn | hn)
    · rw [hg.reached] at hn
      exact absurd hn (Nat.not_lt_zero n)
    · exact absurd hn (hg.none n)
  obtain ⟨queue, h'⟩ := hb.begin hw rfl hg.sent .opening rfl (fun _ => ⟨hg.reached, hg.none⟩) now
    events
  refine ⟨_, ⟨h', .woken rfl (h.dead (.inl hs.state)) hg.none rfl, sent_issue rfl rfl _ _ _⟩, rfl, ?_⟩
  simp [Ledger.pieces, Ledger.issue, hg.sent]

/-- The responder answers the packet that asks for the connection. -/
theorem Stands.accept (h : Stands t .responder s g gy out back) (hs : s.Unused) (hg : g.Blank)
    {p : Parcel} (hp : Arriving t .responder g gy back p) (hsyn : p.packet.header.flags.syn = true)
    (now : Nat) :
    ∃ g', Becomes t .responder s (s.accept p.packet now).2 g g' gy out back ∧
      g'.pieces = g.pieces := by
  have hd := h.dead (.inl hs.state)
  obtain ⟨hz, hc, hpeer⟩ := hp.opens h.sound hsyn
  let i : Intake := ⟨1, fun _ => False⟩
  have htook : ∀ n, i.took n ↔ n = 0 := fun n => (or_iff_left id).trans Nat.lt_one_iff
  have hblank : ∀ n, ¬ g.intake.took n := by
    rintro n (hn | hn)
    · rw [hg.reached] at hn
      exact absurd hn (Nat.not_lt_zero n)
    · exact hg.none n hn
  have hsound : Sound t .responder (g.take i) gy out back := by
    refine h.sound.intake (m := 0) (fun n hn => absurd hn (hblank n)) (fun _ e => e.elim)
      (fun n hn => .inr ((htook n).1 hn)) ?_ (fun e => ?_) fun _ _ _ => by omega
    · have := hp.gone hc
      omega
    · rw [hd] at e
      cases e
  have hexpected : Serial.next p.packet.header.relSeq = Serial.forward 0 i.reached := by
    rw [hp.fits.relSeq, hz]
    rfl
  have hintakes : ∀ (s' : Session) (g' : Ledger), g'.intake = i → s'.inbound = s.inbound →
      Intakes t gy s s' g g' := by
    intro s' g' hi hq
    exact .opening hg.reached hg.none (by rw [hi]) (by rw [hi]; exact htook) hq
  have hbooks := h.wake hs hg i (fun j => g.past j ∨ j = i) fun _ e => e
  rcases accept_cases hs.state p.packet now hexpected with he | ⟨events, he⟩ <;> rw [he]
  · refine ⟨g.take i, ⟨⟨?_, ?_, hsound⟩, hintakes _ _ rfl rfl, ?_⟩, ?_⟩
    · exact { hbooks with
        oldest := fun e => by rw [show (g.take i).alive = g.alive from rfl, hd] at e; cases e
        flights := fun e => by rw [show (g.take i).alive = g.alive from rfl, hd] at e; cases e
        early := fun e => by rw [show (g.take i).alive = g.alive from rfl, hd] at e; cases e }
    · exact Phase.of_dead (h.phase.dead hd) (.inl hs.state) hd
    · exact (Becomes.refl h).sent
    · rfl
  · have hw : Sound t .responder { g.take i with alive := true } gy out back :=
      hsound.wake hg.sent fun n hn => by
        rw [(htook n).1 hn]
        exact hpeer
    obtain ⟨queue, h'⟩ := hbooks.begin hw rfl hg.sent .welcoming rfl (fun e => nomatch e) now events
    refine ⟨_, ⟨h', hintakes _ _ rfl rfl, sent_issue rfl rfl _ _ _⟩, ?_⟩
    simp [Ledger.pieces, Ledger.issue, hg.sent]

/-! ## Ending -/

/-- A cleared queue holds the packet that is posted next, or nothing. -/
theorem Books.queue_after_post (hb : Books t x s g) (hnil : g.queue = []) {queue : List Parcel}
    {p : Packet} (hport : p.port = t.port x.peer)
    (hb' : (s.post p).outbound.Holds (t.port x.peer) (queue.map Parcel.packet)) :
    queue.length ≤ 1 ∧ ∀ q ∈ queue, q.packet = p := by
  have hold := hb.outbound
  rw [hnil] at hold
  have hpackets : queue.map Parcel.packet = [] ∨ queue.map Parcel.packet = [p] := by
    rw [← hb'.packets]
    unfold Session.post
    cases hpush : s.outbound.push p with
    | error e => exact .inl hold.packets
    | ok q =>
      obtain ⟨-, rfl⟩ := Queue.push_eq_ok_iff.1 hpush
      obtain ⟨events, he⟩ := raise_fields { s with outbound := s.outbound.add p }
        (.outboundAvailable s.localPort)
      simp only
      rw [he]
      exact .inr ((hold.add hport).packets.trans (Order.reliability.insert_nil p))
  rcases hpackets with h | h
  · rw [List.map_eq_nil_iff.1 h]
    exact ⟨Nat.zero_le _, fun q hq => by cases hq⟩
  · obtain ⟨q, rfl, hq⟩ := List.map_eq_singleton_iff.1 h
    exact ⟨Nat.le_refl _, fun r hr => by rw [List.mem_singleton.1 hr, hq]⟩

theorem reset_of_waiting (s : Session) (h : s.isWaiting = true) :
    s.reset = (s.discard.post (s.discard.packet .resetting s.nextSeq [])).moveTo .resetting := by
  unfold Session.isWaiting at h
  unfold Session.reset
  cases e : s.state with
  | connecting | connected | disconnecting => rfl
  | resetting | disconnected =>
    rw [e] at h
    cases h

theorem reset_of_not_waiting (s : Session) (h : s.isWaiting = false) : s.reset = s := by
  unfold Session.isWaiting at h
  unfold Session.reset
  cases e : s.state with
  | resetting | disconnected => rfl
  | connecting | connected | disconnecting =>
    rw [e] at h
    cases h

/-- An end that is reset drops everything, and leaves a reset behind. -/
theorem Stands.reset (h : Stands t x s g gy out back) : Acts t x s s.reset g gy out back [] := by
  cases ha : g.alive with
  | false =>
    rw [reset_of_not_waiting s (h.phase.alive.trans ha)]
    exact Acts.refl h
  | true =>
    rw [reset_of_waiting s (h.phase.alive.trans ha)]
    let rst := s.discard.packet .resetting s.nextSeq []
    have hb : Books t x s.discard { g with alive := false, queue := [] } := {
      h.books with
      outbound := h.books.outbound.clear
      oldest := fun e => nomatch e
      flights := fun e => nomatch e
      early := fun e => nomatch e }
    have hpost : Posts t x s.discard (s.discard.post rst) { g with alive := false, queue := [] } gy
        out back :=
      Posts.shown hb (h.sound.die (List.nil_sublist _)) (.inr (.inr (.inr rfl)))
        (fun e => nomatch e) (fun _ => h.sound.reached_near ha) fun e => nomatch e
    obtain ⟨queue, outbound, events, he, hb', hs'⟩ := hpost
    obtain ⟨hlen, hrst⟩ := hb.queue_after_post rfl (p := rst) hb.remotePort hb'.outbound
    obtain ⟨events', hm⟩ := moveTo_fields (s.discard.post rst) .resetting
    rw [hm, he]
    rw [he] at hb'
    refine ⟨_, ⟨⟨hb'.congr .resetting events', ?_, hs'⟩, .dropped rfl rfl rfl, ?_⟩, rfl, ?_⟩
    · exact Phase.of_dead rfl (.inr ⟨rfl, hlen, fun p hp => by rw [hrst p hp]; rfl⟩) rfl
    · simp [Session.discard]
    · exact (List.append_nil _).symm

/-- An end that closes gives its last number away. -/
theorem Stands.close (h : Stands t x s g gy out back) (now : Nat) :
    Acts t x s (s.close now).2 g gy out back [] := by
  unfold Session.close
  cases hst : s.state with
  | connecting => exact h.reset
  | disconnecting | resetting | disconnected => exact Acts.refl h
  | connected =>
    simp only
    rcases postNumbered_cases s .closing now with ⟨e, he⟩ | ⟨s', events, he, hs'⟩
    · rw [he]
      exact Acts.refl h
    obtain ⟨events', hm⟩ := moveTo_fields s' .disconnecting
    rw [he]
    simp only
    rw [hm, hs']
    have ha := h.phase.alive_of_state (.inl hst)
    obtain ⟨hpos, hopen⟩ := h.phase.connected hst
    have hflags : Flags.closing = flagsOf x g.bulk g.sent.length := by
      unfold flagsOf
      rw [if_neg (by omega), if_neg (by omega)]
    obtain ⟨queue, hb, hs⟩ := h.books.issue h.sound ha hopen g.bulk (.inr ⟨rfl, by omega⟩)
      h.sound.tidy.span now (p := s.packet .closing s.nextSeq []) h.books.remotePort rfl rfl hflags
      (fun e => by omega)
    refine ⟨_, ⟨⟨hb.congr .disconnecting events', ?_, hs⟩, .none rfl rfl rfl,
      sent_issue rfl rfl _ _ _⟩, rfl, ?_⟩
    · exact Phase.of_disconnecting ha rfl (by simp [Ledger.issue, hopen])
    · rw [pieces_issue_of_bulk g _ queue hopen, List.append_nil]

/-! ## Timers -/

/-- What is due is in flight. -/
theorem mem_flights_of_collect {config : Config} {now : Nat} {es es' : List Flight}
    {ps : List Packet} (h : InFlight.collect config now es = (.packets ps, es')) :
    ∀ p ∈ ps, ∃ e ∈ es, e.packet = p := by
  induction es generalizing ps es' with
  | nil =>
    cases h
    exact fun p hp => nomatch hp
  | cons e es ih =>
    have hlater : ∀ {qs : List Packet} {rest : List Flight},
        InFlight.collect config now es = (.packets qs, rest) →
        ∀ p ∈ qs, ∃ f ∈ e :: es, f.packet = p := by
      intro qs rest hq p hp
      obtain ⟨f, hf, hfp⟩ := ih hq p hp
      exact ⟨f, List.mem_cons_of_mem _ hf, hfp⟩
    unfold InFlight.collect at h
    split at h
    · obtain ⟨hdue, -⟩ := Prod.mk.inj h
      exact hlater (Prod.ext hdue rfl)
    split at h
    · cases h
    split at h
    · rename_i qs rest hq
      cases h
      intro p hp
      rcases List.mem_cons.1 hp with rfl | hp
      · exact ⟨e, List.mem_cons_self, rfl⟩
      · exact hlater hq p hp
    · cases h

/-- Packets in flight are sent again, with what the end expects by now. -/
theorem Posts.again (hb : Books t x s g) (hs : Sound t x g gy out back) (ha : g.alive = true)
    {ps : List Packet} (hps : ∀ p ∈ ps, ∃ n ∈ g.flying, g.sent[n]? = some p) :
    Posts t x s
      (ps.foldl (fun s p => s.post { p with header := { p.header with ack := s.expected } }) s)
      g gy out back := by
  induction ps generalizing s g with
  | nil => exact Posts.refl hb hs
  | cons p ps ih =>
    obtain ⟨n, hn, hp⟩ := hps p List.mem_cons_self
    obtain ⟨hlow, hlt⟩ := hs.tidy.flying_mem n hn
    obtain ⟨hrel, hflags, -⟩ := hs.tidy.sent_shape n p hp
    let q : Parcel := ⟨{ p with header := { p.header with ack := s.expected } }, n, g.intake⟩
    have hc : q.Counts := Parcel.counts_of_flags (p := q) hflags
    have hport : p.port = t.port x.peer := hs.tidy.sent_port p (List.mem_of_getElem? hp)
    have hfits : q.Fits t x g.sent := by
      refine ⟨hport, hrel, hb.expected, fun _ => ⟨p, hp, rfl, rfl⟩, fun e => absurd hc e, ?_⟩
      intro hr
      rcases hc with h | h | h <;>
        (rw [hr] at h; cases h)
    have hpost : Posts t x s (s.post q.packet) g gy out back :=
      Posts.post hb hs hfits rfl (fun _ => hs.reached_near ha) (fun e => absurd e hc.not_parts)
        (Nat.le_of_lt hlt) (fun _ => ⟨ha, hlow⟩) fun e => absurd hc e
    exact hpost.trans fun queue hb' hs' =>
      ih hb' hs' ha fun p hp => hps p (List.mem_cons_of_mem _ hp)

/-- What is due is sent again, unless one packet was sent too often. -/
theorem Stands.sendDue (h : Stands t x s g gy out back) (now : Nat) (ha : g.alive = true) :
    Acts t x s
      (match s.inFlight.due s.config now with
      | (.packets ps, f) =>
        ps.foldl (fun s p => s.post { p with header := { p.header with ack := s.expected } })
          { s with inFlight := f }
      | (.exhausted _, f) => { s with inFlight := f }.reset) g gy out back [] := by
  have hmap := s.inFlight.map_packet_due s.config now
  split
  · rename_i ps f hdue
    rw [hdue] at hmap
    have hflights := h.books.flights ha
    have hlen : f.flights.length = s.inFlight.flights.length := by
      have := congrArg List.length hmap
      rwa [List.length_map, List.length_map] at this
    have hb : Books t x { s with inFlight := f } g := {
      h.books with
      flights := fun _ => by
        have := congrArg (List.map some) hmap
        rw [List.map_map, List.map_map] at this
        exact this.trans hflights }
    have hps : ∀ p ∈ ps, ∃ n ∈ g.flying, g.sent[n]? = some p := by
      intro p hp
      have hfst : (InFlight.collect s.config now s.inFlight.flights).1 = .packets ps :=
        congrArg Prod.fst hdue
      obtain ⟨e, he, rfl⟩ := mem_flights_of_collect (Prod.ext hfst rfl) p hp
      have : some e.packet ∈ g.flying.map fun n => g.sent[n]? := by
        rw [← hflights]
        exact List.mem_map_of_mem he
      obtain ⟨n, hn, he⟩ := List.mem_map.1 this
      exact ⟨n, hn, he⟩
    obtain ⟨queue, outbound, events, hs', hb', hsound⟩ := Posts.again hb h.sound ha hps
    rw [hs'] at hb' ⊢
    have hr : s.state ≠ .resetting := fun e => by
      rw [h.dead (.inr e)] at ha
      cases ha
    refine ⟨_, ⟨⟨hb', ?_, hsound⟩, .none rfl rfl rfl, ?_⟩, rfl, (List.append_nil _).symm⟩
    · exact {
        h.phase with
        dead := fun e => by
          have : g.alive = false := e
          rw [ha] at this
          cases this
        resetting := fun e => absurd e hr }
    · show g.sent = g.sent ++ (f.flights.drop s.inFlight.flights.length).map Flight.packet
      rw [← hlen, List.drop_length]
      simp
  · rename_i f hdue
    have hw := h.phase.alive.trans ha
    have hsame : ({ s with inFlight := f } : Session).reset = s.reset := by
      rw [reset_of_waiting s hw, reset_of_waiting { s with inFlight := f } hw]
      rfl
    rw [hsame]
    exact h.reset

theorem Stands.checkTimers (h : Stands t x s g gy out back) (now : Nat) :
    Acts t x s (s.checkTimers now) g gy out back [] := by
  unfold Session.checkTimers
  -- reminding the owner changes nothing
  obtain ⟨s₁, events, hs₁, he⟩ : ∃ s₁ events, (if s.outbound.isEmpty then s else
      s.raise (.outboundAvailable s.localPort)) = s₁ ∧ s₁ = { s with events := events } := by
    split
    · exact ⟨s, s.events, rfl, rfl⟩
    · obtain ⟨events, he⟩ := raise_fields s (.outboundAvailable s.localPort)
      exact ⟨_, events, rfl, he⟩
  rw [hs₁]
  have h₁ : Stands t x s₁ g gy out back := by
    rw [he]
    exact ⟨{ h.books with }, { h.phase with }, h.sound⟩
  have hacts : ∀ s', Acts t x s₁ s' g gy out back [] → Acts t x s s' g gy out back [] := by
    rintro s' ⟨g', hbecomes, hkeeps⟩
    rw [he] at hbecomes
    exact ⟨g', ⟨hbecomes.stands, hbecomes.intakes.of_before rfl rfl rfl rfl, hbecomes.sent⟩, hkeeps⟩
  refine hacts _ ?_
  simp only
  split
  · rename_i hon
    rw [Bool.and_eq_true] at hon
    exact h₁.sendDue now (h₁.phase.alive.symm.trans hon.2)
  · exact Acts.refl h₁

/-! ## Taking what is queued -/

/-- Taking the queue hands out all that it holds. The end of a connection that is being reset is
disconnected then. -/
theorem fetchOutboundUpTo_spec {s : Session} {port : UInt8} {ps : List Packet}
    (hq : s.outbound.Holds port ps)
    (hr : s.state = .resetting → ps.length ≤ 1 ∧ ∀ p ∈ ps, p.header.flags.rst = true) :
    ∃ q state events,
      s.fetchOutboundUpTo ps.length = (ps, { s with outbound := q, state := state, events := events }) ∧
      q.Holds port [] ∧ (state = s.state ∨ (s.state = .resetting ∧ state = .disconnected)) := by
  induction ps generalizing s with
  | nil => exact ⟨s.outbound, s.state, s.events, rfl, hq, .inl rfl⟩
  | cons p ps ih =>
    obtain ⟨q, hpop, hq'⟩ := hq.popNext_cons
    rw [List.length_cons]
    unfold Session.fetchOutboundUpTo
    rw [hpop]
    simp only
    by_cases hlast : p.header.flags.rst = true ∧ s.state = .resetting
    · rw [if_pos hlast]
      obtain ⟨hlen, -⟩ := hr hlast.2
      obtain rfl : ps = [] := List.length_eq_zero_iff.1 (by rw [List.length_cons] at hlen; omega)
      obtain ⟨events, he⟩ := moveTo_fields { s with outbound := q } .disconnected
      rw [he]
      exact ⟨q, .disconnected, events, rfl, hq', .inr ⟨hlast.2, rfl⟩⟩
    · rw [if_neg hlast]
      have hnot : s.state ≠ .resetting := fun e => hlast ⟨(hr e).2 p List.mem_cons_self, e⟩
      obtain ⟨q', state, events, he, hq'', hst⟩ :=
        ih (s := { s with outbound := q }) hq' fun e => absurd e hnot
      rw [he]
      exact ⟨q', state, events, rfl, hq'', hst⟩

/-- What is queued goes onto the link. -/
theorem Stands.fetchOutbound (h : Stands t x s g gy out back) :
    s.fetchOutbound.1 = g.queue.map Parcel.packet ∧ (s.Unused → s.fetchOutbound.2.Unused) ∧
      Becomes t x s s.fetchOutbound.2 g g.flush gy (out ++ g.queue) back := by
  unfold Session.fetchOutbound
  rw [h.books.outbound.length_eq]
  obtain ⟨q, state, events, he, hq, hst⟩ := fetchOutboundUpTo_spec h.books.outbound fun e => by
    obtain ⟨hlen, hrst⟩ := h.phase.resetting e
    refine ⟨by rwa [List.length_map], fun p hp => ?_⟩
    obtain ⟨r, hr, rfl⟩ := List.mem_map.1 hp
    exact hrst r hr
  rw [he]
  refine ⟨rfl, fun hu => ?_, ⟨?_, ?_, h.sound.flush⟩, .none rfl rfl rfl, (Becomes.refl h).sent⟩
  · rcases hst with rfl | ⟨hst, rfl⟩
    · exact { hu with }
    · exact ⟨rfl, hu.oldest, hu.expected, hu.early⟩
  · exact { h.books with outbound := hq }
  · rcases hst with rfl | ⟨hst, rfl⟩
    · exact {
        h.phase with
        resetting := fun _ => ⟨Nat.zero_le _, fun p hp => nomatch hp⟩ }
    · have hd := h.dead (.inr hst)
      exact Phase.of_dead (h.phase.dead hd) (.inl rfl) hd

theorem Stands.fetchInbound (h : Stands t x s g gy out back) :
    Stands t x s.fetchInbound.2 g gy out back := by
  obtain ⟨q, he⟩ := fetchInbound_fields s
  rw [he]
  exact ⟨{ h.books with }, { h.phase with }, h.sound⟩

end NarrowLink.Connection
