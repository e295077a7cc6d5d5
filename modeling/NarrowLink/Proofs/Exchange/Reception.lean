import NarrowLink.Proofs.Exchange.Standing

/-!
# What a packet does to the end that it reaches

Whatever arrives, the end stands as its books say afterwards (`Stands.receive`).  The books tell how far
the packet can be from what the end expects (`Arriving.window`), so that a byte is taken for the number
that it stands for.
-/

namespace NarrowLink.Connection

open Wire

/-- What is known of a parcel that leaves the link before the parcels `rest`. -/
structure Arriving (t : Terms) (x : Role) (g gy : Ledger) (rest : List Parcel) (p : Parcel) :
    Prop where
  fits : p.Fits t x.peer gy.sent
  gone : p.Counts → p.number < gy.gone
  near : p.Counts → ∀ q ∈ rest, q.Counts → p.number < q.number + 128
  took : p.Counts → ∀ n, g.intake.took n → n < p.number + 128
  past : gy.past p.intake
  told : p.intake.reached ≤ gy.told
  known : g.alive = true → g.known.reached ≤ p.intake.reached + 127
  behind : ¬ p.Parts → ∀ q ∈ rest, p.intake.reached ≤ q.intake.reached + 127
  parts : p.Parts → g.sent.length = g.bulk + 1

variable {t : Terms} {x : Role} {s s' : Session} {g g' gy : Ledger} {out back : List Parcel}
  {p : Parcel}

theorem Sound.arriving (h : Sound t x g gy out (p :: back)) : Arriving t x g gy back p where
  fits := h.flow_peer.out_fits p List.mem_cons_self
  gone := h.flow_peer.out_gone p List.mem_cons_self
  near := fun hc q hq hqc => (List.pairwise_cons.1 h.flow_peer.out_near).1 q hq hc hqc
  took := h.flow_peer.out_took p List.mem_cons_self
  past := (h.flow.back_past p List.mem_cons_self).1
  told := (h.flow.back_past p List.mem_cons_self).2
  known := fun ha => h.flow.back_known ha p List.mem_cons_self
  behind := fun hp q hq => (List.pairwise_cons.1 h.flow.back_near).1 q hq hp
  parts := fun hp => (h.flow.back_parts p List.mem_cons_self hp).1

/-- The session `s'` comes of `s` when a packet arrives: the end gives no number, what it takes is
accounted for, and it does not die without being disconnected. -/
def Reacts (t : Terms) (x : Role) (s s' : Session) (g gy : Ledger) (out back : List Parcel) : Prop :=
  ∃ g', Stands t x s' g' gy out back ∧ Intakes t gy s s' g g' ∧
    (g'.sent = g.sent ∧ g'.bulk = g.bulk) ∧ s'.inFlight.length ≤ s.inFlight.length ∧
    (g.alive = true → g'.alive = true ∨ s'.state = .disconnected)

theorem Reacts.becomes (h : Reacts t x s s' g gy out back) :
    ∃ g', Becomes t x s s' g g' gy out back ∧ (g'.sent = g.sent ∧ g'.bulk = g.bulk) ∧
      (g.alive = true → g'.alive = true ∨ s'.state = .disconnected) := by
  obtain ⟨g', hstands, hintakes, hsent, hlen, halive⟩ := h
  refine ⟨g', ⟨hstands, hintakes, ?_⟩, hsent, halive⟩
  rw [List.drop_eq_nil_of_le hlen, hsent.1]
  exact (List.append_nil _).symm

theorem Reacts.refl (h : Stands t x s g gy out back) : Reacts t x s s g gy out back :=
  ⟨g, h, .none rfl rfl rfl, ⟨rfl, rfl⟩, Nat.le_refl _, .inl⟩

/-- An end that only posts packets takes nothing. -/
theorem Reacts.of_posts (h : Stands t x s g gy out back) (hr : s.state ≠ .resetting)
    (hp : Posts t x s s' g gy out back) : Reacts t x s s' g gy out back := by
  obtain ⟨queue, outbound, events, rfl, h'⟩ := h.posts hr hp
  exact ⟨_, h', .none rfl rfl rfl, ⟨rfl, rfl⟩, Nat.le_refl _, .inl⟩

/-- What an end does before it reacts does not count if it neither takes nor gives a number. -/
theorem Reacts.of_before {s₁ : Session} {g₁ : Ledger} (h : Reacts t x s₁ s' g₁ gy out back)
    (hq : s₁.inbound = s.inbound) (hport : s₁.localPort = s.localPort)
    (hf : s₁.inFlight.length ≤ s.inFlight.length) (hi : g₁.intake = g.intake)
    (ha : g₁.alive = g.alive) (hs : g₁.sent = g.sent ∧ g₁.bulk = g.bulk) :
    Reacts t x s s' g gy out back := by
  obtain ⟨g', h', hin, hsent, hlen, halive⟩ := h
  exact ⟨g', h', hin.of_before hq hport hi ha, ⟨hsent.1.trans hs.1, hsent.2.trans hs.2⟩,
    Nat.le_trans hlen hf, ha ▸ halive⟩

/-! ## Data -/

/-- How far a packet of the peer can be from what is expected. -/
theorem Arriving.window (hs : Sound t x g gy out back) (hp : Arriving t x g gy back p)
    (hc : p.Counts) : g.intake.reached ≤ p.number + 128 ∧ p.number < g.intake.reached + 129 := by
  have htook := hp.took hc
  have hreached : g.intake.reached ≤ p.number + 128 := by
    by_contra hlt
    have := htook (g.intake.reached - 1) (.inl (by omega))
    omega
  have hgone := hp.gone hc
  have := hs.tidy_peer.gone_le
  have := hs.tidy_peer.le_bulk
  have := hs.tidy_peer.span
  have := hs.flow_peer.known_told
  have := hs.tidy.told_le
  exact ⟨hreached, by omega⟩

/-- Data in the window is taken, with what follows it in sequence. -/
theorem Stands.absorb (h : Stands t x s g gy out back)
    (hst : s.state = .connected ∨ s.state = .disconnecting) (hp : Arriving t x g gy back p)
    (hc : p.Counts) (hbulk : p.number < gy.bulk) (hwindow : t.config.window ≤ 128)
    (hlow : g.intake.reached ≤ p.number) (hhigh : p.number < g.intake.reached + t.config.window) :
    ∃ i : Intake, g.intake.reached ≤ i.reached ∧
      i.reached ≤ g.intake.reached + t.config.window ∧
      (∀ n, i.took n ↔ g.intake.took n ∨ n = p.number) ∧
      Stands t x (s.absorb (s.inbound.add p.packet) p.packet.header.relSeq) (g.take i) gy out back := by
  have ha := h.phase.alive_of_state hst
  let s₁ : Session := { s with inbound := s.inbound.add p.packet }
  have hb₁ : Books t x s₁ g := { h.books with }
  obtain ⟨i, hge, hle, htook, hb, hs⟩ := hb₁.advance h.sound ha hwindow hlow hhigh (hp.gone hc) hbulk
    (hp.near hc)
  rw [← hp.fits.relSeq] at hb
  obtain ⟨early, expected, hasGap, he⟩ := advance_fields (s₁.arrive p.packet.header.relSeq)
  rw [he] at hb
  have hphase : Phase x
      { s₁.arrive p.packet.header.relSeq with
        early := early, expected := expected, hasGap := hasGap } (g.take i) :=
    { h.phase with
      connecting := fun e => by
        rcases hst with hst | hst <;> exact absurd (hst.symm.trans e) (by decide) }
  have hstands : Stands t x _ _ gy out back := ⟨hb, hphase, hs⟩
  refine ⟨i, hge, hle, htook, ?_⟩
  unfold Session.absorb
  simp only
  rw [he]
  split
  · exact hstands.raise (.inboundAvailable s.localPort)
  · exact hstands

/-- Data in the window is taken unless it has been taken before. -/
theorem Stands.takeData (h : Stands t x s g gy out back)
    (hst : s.state = .connected ∨ s.state = .disconnecting) (hp : Arriving t x g gy back p)
    (hc : p.Counts) (hnum : 0 < p.number) (hbulk : p.number < gy.bulk)
    (hwindow : t.config.window ≤ 128) (hlow : g.intake.reached ≤ p.number)
    (hhigh : p.number < g.intake.reached + t.config.window) :
    Reacts t x s (s.takeData p.packet).2 g gy out back := by
  have ha := h.phase.alive_of_state hst
  have hr : s.state ≠ .resetting := by rcases hst with e | e <;> rw [e] <;> decide
  unfold Session.takeData
  by_cases hdup : s.early.get p.packet.header.relSeq = true
  · rw [if_pos hdup]
    exact Reacts.of_posts h hr (Posts.ack h.books h.sound ha (by omega))
  rw [if_neg hdup]
  have hnew : ¬ g.intake.took p.number := by
    rintro (hlt | hearly)
    · omega
    · rw [hp.fits.relSeq, h.books.early ha _ hlow (by omega)] at hdup
      exact hdup hearly
  cases hpush : s.inbound.push p.packet with
  | error e => exact Reacts.refl h
  | ok q =>
    obtain ⟨-, rfl⟩ := Queue.push_eq_ok_iff.1 hpush
    obtain ⟨c, hcopy, -, hpiece⟩ := hp.fits.copy hc
    have hport : p.packet.port = s.localPort := by
      rw [hp.fits.port_eq, h.books.localPort, Role.peer_peer]
    obtain ⟨i, hge, hle, htook, h₁⟩ := h.absorb hst hp hc hbulk hwindow hlow hhigh
    obtain ⟨early, expected, hasGap, events, he⟩ :=
      absorb_fields s (s.inbound.add p.packet) p.packet.header.relSeq
    simp only
    rw [he] at h₁ ⊢
    obtain ⟨queue, outbound, events', hpost, h₂⟩ := h₁.postAck ha hr hwindow
    rw [hpost] at h₂ ⊢
    exact ⟨_, h₂, .data p.packet p.number c ha ha rfl hport hp.fits.relSeq hcopy hpiece hnum hbulk
      hnew hhigh hge hle htook, ⟨rfl, rfl⟩, Nat.le_refl _, fun _ => .inl ha⟩

theorem Stands.receiveData (h : Stands t x s g gy out back)
    (hst : s.state = .connected ∨ s.state = .disconnecting) (hp : Arriving t x g gy back p)
    (hc : p.Counts) (hnum : 0 < p.number) (hbulk : p.number < gy.bulk)
    (hwindow : t.config.window ≤ 128) :
    Reacts t x s (s.receiveData p.packet).2 g gy out back := by
  have ha := h.phase.alive_of_state hst
  have hr : s.state ≠ .resetting := by rcases hst with e | e <;> rw [e] <;> decide
  obtain ⟨hback, hahead⟩ := hp.window h.sound hc
  by_cases hw : s.config.window ≤ Serial.distance s.expected p.packet.header.relSeq
  · -- the packet is old, or the peer goes too far
    unfold Session.receiveData
    simp only
    rw [if_pos hw]
    split
    · exact Reacts.of_posts h hr (Posts.ack h.books h.sound ha (by omega))
    · exact Reacts.refl h
  rw [receiveData_eq (Nat.not_le.1 hw)]
  rw [h.books.config, h.books.expected, hp.fits.relSeq] at hw
  have hlow : g.intake.reached ≤ p.number := by
    by_contra hlt
    rw [Serial.distance_forward_back _ (by omega) (by simp only [Serial.half]; omega)] at hw
    simp only [Serial.half] at hw
    omega
  rw [Serial.distance_forward _ hlow (by simp only [Serial.half]; omega)] at hw
  exact h.takeData hst hp hc hnum hbulk hwindow hlow (by omega)

/-! ## The end of a connection -/

/-- An end that drops everything is dead, whatever it has just heard. -/
theorem Stands.discard (h : Stands t x s g gy out back) (f : InFlight) (o : UInt8) :
    Reacts t x s
      (({ s with inFlight := f, oldestUnacked := o } : Session).discard.moveTo .disconnected)
      g gy out back := by
  obtain ⟨events, he⟩ := moveTo_fields
    ({ s with inFlight := f, oldestUnacked := o } : Session).discard .disconnected
  rw [he]
  refine ⟨{ g with alive := false, queue := [] }, ⟨?_, ?_, h.sound.die (List.nil_sublist _)⟩,
    .dropped rfl rfl rfl, ⟨rfl, rfl⟩, Nat.zero_le _, fun _ => .inr rfl⟩
  · exact {
      h.books with
      outbound := h.books.outbound.clear
      oldest := fun e => by cases e
      flights := fun e => by cases e
      early := fun e => by cases e }
  · exact Phase.of_dead rfl (.inl rfl) rfl

theorem Sound.not_early_of_reached (h : Sound t x g gy out back) (ha : g.alive = true)
    (hr : g.intake.reached = gy.bulk) (n : Nat) : ¬ g.intake.early n := by
  intro hn
  have := h.flow_peer.took_bulk ha n (.inr hn)
  have := (h.flow_peer.valid _ h.flow_peer.current n hn).1
  omega

/-- The packet that closes is the last one that the peer gave a number. -/
theorem Arriving.number_closing (hs : Sound t x g gy out back) (hp : Arriving t x g gy back p)
    (hflags : p.packet.header.flags = .closing) :
    p.number = gy.bulk ∧ gy.sent.length = gy.bulk + 1 := by
  obtain ⟨q, hq, hqf, -⟩ := hp.fits.copy (.inr (.inr hflags))
  have hlt := (List.getElem?_eq_some_iff.1 hq).1
  have hshape := (hs.tidy_peer.sent_shape _ q hq).2.1
  rw [← hqf, hflags] at hshape
  unfold flagsOf at hshape
  have := hs.tidy_peer.le_bulk
  split at hshape
  · cases x <;> cases hshape
  split at hshape
  · cases hshape
  · exact ⟨by omega, by omega⟩

/-- An end that has taken everything before the last packet may take that one too, and die. -/
theorem Sound.takeLast (hs : Sound t x g gy out back) (ha : g.alive = true)
    (hp : Arriving t x g gy back p) (hc : p.Counts) (hnum : p.number = gy.bulk)
    (hreached : g.intake.reached = gy.bulk) :
    Sound t x (Ledger.take { g with alive := false } ⟨gy.bulk + 1, fun _ => False⟩) gy out back := by
  have hnone := hs.not_early_of_reached ha hreached
  have htook : ∀ n, (⟨gy.bulk + 1, fun _ => False⟩ : Intake).took n ↔ n < gy.bulk + 1 :=
    fun n => or_iff_left id
  have hdead : Sound t x ({ g with alive := false } : Ledger) gy out back := hs.die (List.Sublist.refl _)
  refine hdead.intake (m := gy.bulk) ?_ (fun _ e => e.elim) ?_ ?_ (fun e => by cases e) ?_
  · rintro n (hn | hn)
    · exact (htook n).2 (by simp only at hn; omega)
    · exact absurd hn (hnone n)
  · intro n hn
    rcases Nat.lt_succ_iff_lt_or_eq.1 ((htook n).1 hn) with hn | hn
    · exact .inl (.inl (by simp only; omega))
    · exact .inr hn
  · rw [← hnum]
    exact hp.gone hc
  · rw [← hnum]
    exact hp.near hc

/-- The end takes the packet that closes, if it has taken everything before it. -/
theorem Stands.receiveClosing (h : Stands t x s g gy out back)
    (hst : s.state = .connected ∨ s.state = .disconnecting) (hp : Arriving t x g gy back p)
    (hflags : p.packet.header.flags = .closing) :
    Reacts t x s (s.receiveClosing p.packet).2 g gy out back := by
  have ha := h.phase.alive_of_state hst
  have hc : p.Counts := .inr (.inr hflags)
  obtain ⟨hnum, hlast⟩ := hp.number_closing h.sound hflags
  unfold Session.receiveClosing
  have hnotack : p.packet.header.flags.ack = false := by rw [hflags]; rfl
  rw [hnotack, if_neg (by simp)]
  by_cases hrel : p.packet.header.relSeq ≠ s.expected
  · rw [if_pos hrel]
    exact Reacts.refl h
  rw [if_neg hrel]
  obtain ⟨hback, hahead⟩ := hp.window h.sound hc
  have hreached : g.intake.reached = gy.bulk := by
    rw [ne_eq, not_not, hp.fits.relSeq, h.books.expected] at hrel
    rw [← hnum]
    exact (Serial.forward_inj (0 : UInt8) (by simp only [Serial.half]; omega)
      (by simp only [Serial.half]; omega) hrel).symm
  let i : Intake := ⟨gy.bulk + 1, fun _ => False⟩
  have hs' : Sound t x (Ledger.take { g with alive := false } i) gy out back :=
    h.sound.takeLast ha hp hc hnum hreached
  have hb' : Books t x { s with expected := Serial.next s.expected }
      (Ledger.take { g with alive := false } i) := {
    h.books with
    expected := by
      show Serial.next s.expected = Serial.forward 0 (gy.bulk + 1)
      rw [h.books.expected, hreached, Serial.forward_succ]
    oldest := fun e => by cases e
    flights := fun e => by cases e
    early := fun e => by cases e }
  let s₁ : Session := { s with expected := Serial.next s.expected }
  have hpost : Posts t x s₁ (s₁.post (s₁.packet .parting s₁.nextSeq []))
      (Ledger.take { g with alive := false } i) gy out back :=
    Posts.shown hb' hs' (.inr (.inr (.inl rfl))) (fun e => by cases e) (fun e => absurd rfl e)
      (fun _ => ⟨hlast, Nat.lt_succ_self _⟩)
  obtain ⟨queue, outbound, events, he, hb'', hs''⟩ := hpost
  simp only at he ⊢
  rw [he] at hb'' ⊢
  obtain ⟨events', hm⟩ := moveTo_fields
    ({ s with expected := Serial.next s.expected, outbound := outbound, events := events,
              inFlight := {} } : Session) .disconnected
  rw [hm]
  refine ⟨_, ⟨{ hb'' with flights := fun e => by cases e }, ?_, hs''⟩,
    .closing ha hreached rfl (fun n => or_iff_left id) rfl rfl, ⟨rfl, rfl⟩, Nat.zero_le _,
    fun _ => .inr rfl⟩
  exact Phase.of_dead rfl (.inl rfl) rfl

/-! ## A packet on an open connection -/

/-- The kinds of packets. -/
theorem Arriving.flags (hs : Sound t x g gy out back) (hp : Arriving t x g gy back p) :
    (p.packet.header.flags = flagsOf x.peer gy.bulk 0 ∧ p.Counts ∧ p.number = 0) ∨
      (p.packet.header.flags = .carrying ∧ p.Counts ∧ 0 < p.number ∧ p.number < gy.bulk) ∨
      (p.packet.header.flags = .closing ∧ p.Counts) ∨
      (¬ p.Counts ∧ (p.packet.header.flags = .acknowledging ∨ p.packet.header.flags = .reporting ∨
        p.packet.header.flags = .parting ∨ p.packet.header.flags = .resetting)) := by
  by_cases hc : p.Counts
  · obtain ⟨q, hq, hqf, -⟩ := hp.fits.copy hc
    have hshape := hqf.trans (hs.tidy_peer.sent_shape _ q hq).2.1
    by_cases hz : p.number = 0
    · exact .inl ⟨hz ▸ hshape, hc, hz⟩
    by_cases hlt : p.number < gy.bulk
    · refine .inr (.inl ⟨?_, hc, Nat.pos_of_ne_zero hz, hlt⟩)
      rw [hshape]
      unfold flagsOf
      rw [if_neg hz, if_pos hlt]
    · refine .inr (.inr (.inl ⟨?_, hc⟩))
      rw [hshape]
      unfold flagsOf
      rw [if_neg hz, if_neg hlt]
  · exact .inr (.inr (.inr ⟨hc, hp.fits.control hc⟩))

/-- Only the packet that opens asks for a connection. -/
theorem Arriving.opens (hs : Sound t x g gy out back) (hp : Arriving t x g gy back p)
    (hsyn : p.packet.header.flags.syn = true) : p.number = 0 ∧ p.Counts ∧ 0 < gy.bulk := by
  obtain ⟨hz, hc⟩ : p.number = 0 ∧ p.Counts := by
    rcases hp.flags hs with ⟨-, hc, hz⟩ | ⟨hf, -⟩ | ⟨hf, -⟩ | ⟨-, hf | hf | hf | hf⟩
    · exact ⟨hz, hc⟩
    all_goals
      rw [hf] at hsyn
      cases hsyn
  obtain ⟨c, hcopy, -⟩ := hp.fits.copy hc
  refine ⟨hz, hc, hs.tidy_peer.bulk_pos fun e => ?_⟩
  rw [e] at hcopy
  cases hcopy

theorem Books.length_flights (hb : Books t x s g) (ha : g.alive = true) :
    s.inFlight.length = g.flying.length := by
  have := congrArg List.length (hb.flights ha)
  rwa [List.length_map, List.length_map] at this

/-- The end hears what a packet acknowledges. -/
theorem Stands.hear (h : Stands t x s g gy out back)
    (hst : s.state = .connected ∨ s.state = .disconnecting) (hp : Arriving t x g gy back p)
    (hparts : ¬ p.Parts) : ∃ known flying f o,
      s.acknowledge p.packet.header.ack = { s with inFlight := f, oldestUnacked := o } ∧
      f.length ≤ s.inFlight.length ∧ known.reached = max g.known.reached p.intake.reached ∧
      Stands t x { s with inFlight := f, oldestUnacked := o }
        { g with known := known, flying := flying } gy out back := by
  have ha := h.phase.alive_of_state hst
  obtain ⟨known, flying, hmax, hsub, hb, hs⟩ :=
    h.books.acknowledge h.sound ha hp.past hp.told (hp.known ha) (hp.behind hparts)
  obtain ⟨f, o, he⟩ := acknowledge_fields s p.packet.header.ack
  rw [← hp.fits.ack, he] at hb
  refine ⟨known, flying, f, o, he, ?_, hmax, hb, ?_, hs⟩
  · have := hb.length_flights ha
    rw [h.books.length_flights ha]
    exact Nat.le_trans (Nat.le_of_eq this) hsub.length_le
  · have hdead : g.alive = false → f.flights = [] := fun e => by rw [ha] at e; cases e
    exact {
      h.phase with
      dead := hdead
      connecting := fun e => by
        rcases hst with hst | hst <;> exact absurd (hst.symm.trans e) (by decide) }

theorem Arriving.heard (hp : Arriving t x g gy back p) (ha : g.alive = true) {known : Intake}
    (flying : List Nat) (hmax : known.reached = max g.known.reached p.intake.reached) :
    Arriving t x { g with known := known, flying := flying } gy back p :=
  { hp with
    known := fun _ => by
      have := hp.known ha
      simp only
      omega }

/-- The end hears what a report lists. -/
theorem Stands.hearRanges (h : Stands t x s g gy out back)
    (hst : s.state = .connected ∨ s.state = .disconnecting) (hp : Arriving t x g gy back p)
    (hflags : p.packet.header.flags = .reporting) (hreached : p.intake.reached ≤ g.known.reached)
    (hwindow : t.config.window ≤ 128) {ranges : List (UInt8 × UInt8)}
    (hdec : Sack.decode p.packet.payload = .ok ranges) :
    Reacts t x s (s.acknowledgeRanges ranges) g gy out back := by
  have ha := h.phase.alive_of_state hst
  have hparts : ¬ p.Parts := by
    unfold Parcel.Parts
    rw [hflags]
    decide
  obtain ⟨hsel, hlist⟩ := hp.fits.report hflags
  obtain ⟨known, flying, hmax, hsub, hb, hs⟩ :=
    h.books.acknowledgeRanges h.sound ha hp.past hp.told hreached (hp.known ha)
      (hp.behind hparts) hwindow hsel (hlist ranges hdec)
  refine ⟨_, ⟨hb, ?_, hs⟩, .none rfl rfl rfl, ⟨rfl, rfl⟩, ?_, fun _ => .inl ha⟩
  · have hdead : g.alive = false → (s.acknowledgeRanges ranges).inFlight.flights = [] :=
      fun e => by rw [ha] at e; cases e
    exact {
      h.phase with
      dead := hdead
      connecting := fun e => by
        rcases hst with hst | hst <;> exact absurd (hst.symm.trans e) (by decide) }
  · have := hb.length_flights ha
    rw [h.books.length_flights ha, this]
    exact hsub.length_le

theorem Stands.receiveOpen (h : Stands t x s g gy out back)
    (hst : s.state = .connected ∨ s.state = .disconnecting) (hp : Arriving t x g gy back p)
    (hrst : p.packet.header.flags.rst = false) (hwindow : t.config.window ≤ 128) :
    Reacts t x s (s.receiveOpen p.packet).2 g gy out back := by
  have ha := h.phase.alive_of_state hst
  have hr : s.state ≠ .resetting := by rcases hst with e | e <;> rw [e] <;> decide
  unfold Session.receiveOpen
  simp only
  by_cases hsyn : p.packet.header.flags.syn = true
  · rw [if_pos hsyn]
    split
    · exact Reacts.of_posts h hr (Posts.ack h.books h.sound ha (by omega))
    · exact Reacts.refl h
  rw [if_neg hsyn]
  rcases hp.flags h.sound with ⟨hf, -⟩ | ⟨hf, hc, hnum, hbulk⟩ | ⟨hf, -⟩ | ⟨hc, hf | hf | hf | hf⟩
  · -- only the packets that open carry number zero
    rw [hf] at hsyn
    cases x <;> exact absurd rfl hsyn
  · obtain ⟨known, flying, f, o, he, hlen, hmax, h'⟩ := h.hear hst hp hc.not_parts
    simp only [hf, Flags.carrying, he, Bool.false_eq_true, if_false, if_true]
    exact (h'.receiveData hst (hp.heard ha flying hmax) hc hnum hbulk hwindow).of_before rfl rfl hlen rfl
      rfl ⟨rfl, rfl⟩
  · simp only [hf, Flags.closing, Bool.false_eq_true, if_false, if_true]
    exact h.receiveClosing hst hp hf
  · have hparts : ¬ p.Parts := by
      unfold Parcel.Parts
      rw [hf]
      decide
    obtain ⟨known, flying, f, o, he, hlen, hmax, h'⟩ := h.hear hst hp hparts
    simp only [hf, Flags.acknowledging, he, Bool.false_eq_true, if_false, if_true]
    exact (Reacts.refl h').of_before rfl rfl hlen rfl rfl ⟨rfl, rfl⟩
  · have hparts : ¬ p.Parts := by
      unfold Parcel.Parts
      rw [hf]
      decide
    obtain ⟨known, flying, f, o, he, hlen, hmax, h'⟩ := h.hear hst hp hparts
    have hp' := hp.heard ha flying hmax
    cases hdec : Sack.decode p.packet.payload with
    | error e =>
      simp only [hf, Flags.reporting, he, if_true]
      exact (Reacts.refl h').of_before rfl rfl hlen rfl rfl ⟨rfl, rfl⟩
    | ok ranges =>
      simp only [hf, Flags.reporting, he, if_true]
      exact (h'.hearRanges hst hp' hf (by simp only; omega) hwindow hdec).of_before rfl rfl hlen rfl rfl
        ⟨rfl, rfl⟩
  · -- the peer answers a request to close only if there was one
    have hclosed := hp.parts hf
    have hstate : s.state = .disconnecting := by
      refine hst.resolve_left fun e => ?_
      have := (h.phase.connected e).2
      omega
    obtain ⟨f, o, he⟩ := acknowledge_fields s p.packet.header.ack
    have hdis : ({ s with inFlight := f, oldestUnacked := o } : Session).state = .disconnecting :=
      hstate
    simp only [hf, Flags.parting, he, Bool.false_eq_true, if_false, if_true,
      Session.receiveClosing, hdis]
    exact h.discard f o
  · rw [hf] at hrst
    cases hrst

/-! ## A packet while the two ends agree on their first numbers -/

/-- The books are those of an established connection from the moment that the end says so. -/
theorem Stands.moveTo_connected (hb : Books t x s g) (hs : Sound t x g gy out back)
    (ha : g.alive = true) (hlen : 0 < g.sent.length) (hbulk : g.sent.length = g.bulk) :
    Stands t x (s.moveTo .connected) g gy out back := by
  refine ⟨hb.moveTo _, ?_, hs⟩
  obtain ⟨events, he⟩ := moveTo_fields s .connected
  rw [he]
  exact Phase.of_connected ha rfl hlen hbulk

theorem Stands.alive_of_connecting (h : Stands t x s g gy out back) (hst : s.state = .connecting) :
    g.alive = true := by
  rw [← h.phase.alive]
  unfold Session.isWaiting
  rw [hst]

/-- The packet that opens is the first one that an end takes. -/
theorem Books.takeFirst (hb : Books t x s g) (hs : Sound t x g gy out back) (ha : g.alive = true)
    (hpos : 0 < t.config.window) (hwindow : t.config.window ≤ 128) (hreached : g.intake.reached = 0)
    (hnone : ∀ n, ¬ g.intake.early n) (hgone : 0 < gy.gone) (hbulk : 0 < gy.bulk) :
    ∃ i : Intake, i.reached = 1 ∧ (∀ n, i.took n ↔ n = 0) ∧
      Books t x (s.arrive (Serial.forward 0 0)).advance (g.take i) ∧
      Sound t x (g.take i) gy out back := by
  obtain ⟨i, -, -, htook, hb', hs'⟩ := hb.advance (m := 0) hs ha hwindow
    (Nat.le_of_eq hreached) (by omega) hgone hbulk (fun _ _ _ => by omega)
  have htook' : ∀ n, i.took n ↔ n = 0 := by
    intro n
    rw [htook]
    refine or_iff_right ?_
    rintro (hlt | hearly)
    · omega
    · exact hnone n hearly
  have hvalid := hs'.flow_peer.valid _ hs'.flow_peer.current
  have hle : i.reached ≤ 1 := Intake.reached_le_of_took fun n hn => by
    have := (htook' n).1 hn
    omega
  refine ⟨i, ?_, htook', hb', hs'⟩
  rcases (htook' 0).2 rfl with hlt | hearly
  · omega
  · have := (hvalid 0 hearly).1
    omega

/-- The initiator is welcomed. -/
theorem Stands.welcomed (h : Stands t .initiator s g gy out back) (hst : s.state = .connecting)
    (hp : Arriving t .initiator g gy back p) (hflags : p.packet.header.flags = .welcoming)
    (hpos : 0 < t.config.window) (hwindow : t.config.window ≤ 128) :
    Reacts t .initiator s (s.welcomed p.packet).postAck g gy out back := by
  have ha := h.alive_of_connecting hst
  obtain ⟨hlen, hbulk, hknown, hinit⟩ := h.phase.connecting hst
  obtain ⟨hreached, hnone⟩ := hinit rfl
  obtain ⟨hz, hc, hpeer⟩ := hp.opens h.sound (by rw [hflags]; rfl)
  have hrel : p.packet.header.relSeq = Serial.forward 0 0 := hz ▸ hp.fits.relSeq
  have hgone : 0 < gy.gone := hz ▸ hp.gone hc
  obtain ⟨known, flying, hmax, hsub, hb, hs⟩ :=
    h.books.acknowledge h.sound ha hp.past hp.told (hp.known ha) (hp.behind hc.not_parts)
  rw [← hp.fits.ack] at hb
  let s₁ : Session :=
    { s.acknowledge p.packet.header.ack with expected := p.packet.header.relSeq }
  have hb₁ : Books t .initiator s₁ { g with known := known, flying := flying } :=
    { hb with
      expected := by
        show p.packet.header.relSeq = Serial.forward 0 g.intake.reached
        rw [hrel, hreached] }
  obtain ⟨i, hone, htook, hb₂, hs₂⟩ :=
    hb₁.takeFirst hs ha hpos hwindow hreached hnone hgone hpeer
  rw [← hrel] at hb₂
  have h₂ : Stands t .initiator (s.welcomed p.packet) _ gy out back :=
    Stands.moveTo_connected hb₂ hs₂ ha (by show 0 < g.sent.length; omega)
      (by show g.sent.length = g.bulk; omega)
  have hflen : (s.welcomed p.packet).inFlight.length ≤ s.inFlight.length := by
    rw [h₂.books.length_flights ha, h.books.length_flights ha]
    exact hsub.length_le
  obtain ⟨early, expected, hasGap, inFlight, oldest, events, he⟩ := welcomed_fields s p.packet
  rw [he] at h₂ hflen ⊢
  have hne : State.connected ≠ .resetting := by decide
  obtain ⟨queue, outbound, events', hpost, h₃⟩ := h₂.postAck ha hne hwindow
  rw [hpost] at h₃ ⊢
  exact ⟨_, h₃, .opening hreached hnone hone htook rfl, ⟨rfl, rfl⟩, hflen, fun _ => .inl ha⟩

/-- The responder is asked again, and answers again. -/
theorem Stands.welcomeAgain (h : Stands t .responder s g gy out back) (hst : s.state = .connecting) :
    Reacts t .responder s (s.post (s.packet .welcoming s.oldestUnacked [])) g gy out back := by
  have ha := h.alive_of_connecting hst
  obtain ⟨hlen, hbulk, hknown, -⟩ := h.phase.connecting hst
  obtain ⟨q, hq⟩ : ∃ q, g.sent[0]? = some q := ⟨_, List.getElem?_eq_getElem (by omega)⟩
  obtain ⟨-, hflags, hpiece⟩ := h.sound.tidy.sent_shape 0 q hq
  have holdest : s.oldestUnacked = Serial.forward 0 0 := by rw [h.books.oldest ha, hknown]
  let p : Parcel := ⟨s.packet .welcoming s.oldestUnacked [], 0, g.intake⟩
  have hc : p.Counts := .inl rfl
  have hfits : p.Fits t .responder g.sent := by
    refine ⟨h.books.remotePort, holdest, h.books.expected, fun _ => ⟨q, hq, ?_, ?_⟩,
      fun e => absurd hc e, fun e => by cases e⟩
    · rw [hflags]
      rfl
    · rw [hpiece rfl]
      rfl
  have hne : s.state ≠ .resetting := by rw [hst]; decide
  refine Reacts.of_posts h hne (Posts.post h.books h.sound hfits rfl
    (fun _ => h.sound.reached_near ha) (fun e => absurd e hc.not_parts) (Nat.zero_le _)
    (fun _ => ⟨ha, Nat.le_of_eq hknown⟩) fun e => absurd hc e)

/-- The responder is confirmed, and the connection is open for the packet that confirms it. -/
theorem Stands.confirmed (h : Stands t .responder s g gy out back) (hst : s.state = .connecting)
    (hp : Arriving t .responder g gy back p) (hrst : p.packet.header.flags.rst = false)
    (hwindow : t.config.window ≤ 128) :
    Reacts t .responder s
      (if p.packet.header.flags.data || p.packet.header.flags.fin || p.packet.header.flags.ctrl then
        (s.moveTo .connected).receiveOpen p.packet
      else (.ok (), (s.moveTo .connected).acknowledge p.packet.header.ack)).2 g gy out back := by
  have ha := h.alive_of_connecting hst
  obtain ⟨hlen, hbulk, -, -⟩ := h.phase.connecting hst
  have h₁ := Stands.moveTo_connected h.books h.sound ha (by omega) (by omega)
  obtain ⟨events, hm⟩ := moveTo_fields s .connected
  have hopen : (s.moveTo .connected).state = .connected := by rw [hm]
  have hreacts : ∀ s', Reacts t .responder (s.moveTo .connected) s' g gy out back →
      Reacts t .responder s s' g gy out back := by
    rw [hm]
    exact fun s' h => h.of_before rfl rfl (Nat.le_refl _) rfl rfl ⟨rfl, rfl⟩
  refine hreacts _ ?_
  split
  · exact h₁.receiveOpen (.inl hopen) hp hrst hwindow
  · rename_i hpure
    have hparts : ¬ p.Parts := by
      intro e
      unfold Parcel.Parts at e
      rw [e] at hpure
      exact hpure rfl
    obtain ⟨known, flying, f, o, he, hflen, -, h₂⟩ := h₁.hear (.inl hopen) hp hparts
    rw [he]
    exact (Reacts.refl h₂).of_before rfl rfl hflen rfl rfl ⟨rfl, rfl⟩

theorem Stands.receiveConnecting (h : Stands t x s g gy out back) (hst : s.state = .connecting)
    (hp : Arriving t x g gy back p) (hrst : p.packet.header.flags.rst = false)
    (hpos : 0 < t.config.window) (hwindow : t.config.window ≤ 128) :
    Reacts t x s (s.receiveConnecting p.packet).2 g gy out back := by
  unfold Session.receiveConnecting
  simp only [h.books.role]
  cases x with
  | initiator =>
    simp only
    split
    · exact Reacts.refl h
    rename_i hflags
    split
    · exact Reacts.refl h
    · exact h.welcomed hst hp (not_not.1 hflags) hpos hwindow
  | responder =>
    simp only
    split
    · split
      · exact Reacts.refl h
      · exact h.welcomeAgain hst
    split
    · exact Reacts.refl h
    · exact h.confirmed hst hp hrst hwindow

/-! ## Any packet in any state -/

/-- Whatever arrives, the end stands as its books say. -/
theorem Stands.receive (h : Stands t x s g gy out back) (hp : Arriving t x g gy back p)
    (hpos : 0 < t.config.window) (hwindow : t.config.window ≤ 128) :
    Reacts t x s (s.receive p.packet).2 g gy out back := by
  unfold Session.receive
  by_cases hrst : p.packet.header.flags.rst = true
  · rw [if_pos hrst]
    exact h.discard s.inFlight s.oldestUnacked
  rw [if_neg hrst]
  rw [Bool.not_eq_true] at hrst
  cases hst : s.state with
  | connecting => exact h.receiveConnecting hst hp hrst hpos hwindow
  | connected => exact h.receiveOpen (.inl hst) hp hrst hwindow
  | disconnecting => exact h.receiveOpen (.inr hst) hp hrst hwindow
  | resetting => exact Reacts.refl h
  | disconnected => exact Reacts.refl h

end NarrowLink.Connection
