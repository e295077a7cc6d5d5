import NarrowLink.Proofs.Exchange.Delivery

/-!
# Windows of senders and receivers

A sender counts what is in flight, and a receiver how far a number lies ahead of what it expects.  The two
agree as long as what is in flight has no gaps.  Without gaps no end sends data beyond the window of its
peer (`not_runsAhead_after`), and so no data is refused for lying outside of it (`not_refuses_after`).
There are no gaps if the peer reports none, or if the window has room for one packet only
(`Terms.Gapless`).
-/

namespace NarrowLink.Connection

open Wire

/-- Something that happens while messages go to and fro: neither end closes the connection or resets it,
and an end hands out what it can after each packet that reaches it. -/
def Act.Transfers : Act → Prop
  | .close .. | .reset _ => False
  | .deliver _ hands _ => hands = true
  | _ => True

/-- The next packet on the way to an end is refused, because it lies outside of the receive window. -/
def Exchange.Refuses (e : Exchange) (x : Role) : Prop :=
  ∃ p ps relSeq expected, e.link x = p :: ps ∧
    ((e.ends x).session.receive p).1 = .error (.inconsistent (.outsideWindow relSeq expected))

/-- The end has sent data under a number that lies a window or more ahead of what its peer expects. -/
def Exchange.RunsAhead (e : Exchange) (x : Role) : Prop :=
  ∃ n p, (e.ends x).sent[n]? = some p ∧ p.header.flags.data = true ∧
    (e.ends x.peer).reached + (e.ends x).session.config.window ≤ n

/-- What is in flight at the end has no gaps. -/
def Terms.Gapless (t : Terms) (x : Role) : Prop :=
  t.config.window = 1 ∨ (t.options x.peer).selectiveAck = false

theorem Terms.Gapless.tame {t : Terms} {x : Role} (h : t.Gapless x) (hwindow : t.config.window ≤ 127) :
    t.Tame x := by
  rcases h with hone | hplain
  · exact Terms.tame_of_window (by omega) x
  · exact Terms.tame_of_plain hwindow hplain

theorem Act.Transfers.handsOut {a : Act} (h : a.Transfers) (x : Role) : a.HandsOut x := by
  rintro hands now rfl
  exact h

/-! ## What a packet outside of the window is -/

/-- The packet is data whose number lies outside of the receive window, and does not seem to be an old
one. -/
def Session.Excludes (s : Session) (p : Packet) : Prop :=
  p.header.flags.data = true ∧ s.config.window ≤ Serial.distance s.expected p.header.relSeq ∧
    Serial.precedes p.header.relSeq s.expected = false

section Refusing

variable {s u : Session} {p : Packet} {relSeq expected : UInt8}

theorem Session.Excludes.congr (h : u.Excludes p) (hconfig : u.config = s.config)
    (hexpected : u.expected = s.expected) : s.Excludes p := by
  unfold Session.Excludes at h ⊢
  rwa [hconfig, hexpected] at h

theorem excludes_of_receiveData (hdata : p.header.flags.data = true)
    (h : (s.receiveData p).1 = .error (.inconsistent (.outsideWindow relSeq expected))) :
    s.Excludes p := by
  unfold Session.receiveData at h
  simp only at h
  split at h
  · rename_i hfar
    split at h
    · cases h
    · rename_i hahead
      exact ⟨hdata, hfar, Bool.eq_false_iff.2 hahead⟩
  split at h
  · cases h
  split at h
  · rename_i e hpush
    rw [Queue.push_eq_error hpush] at h
    cases h
  · cases h

theorem decode_ne_outsideWindow (bytes : List UInt8) :
    Sack.decode bytes ≠ .error (.inconsistent (.outsideWindow relSeq expected)) := by
  intro h
  unfold Sack.decode at h
  split at h
  · cases h
  split at h <;> cases h

theorem receiveClosing_ne_outsideWindow (s : Session) (p : Packet) :
    (s.receiveClosing p).1 ≠ .error (.inconsistent (.outsideWindow relSeq expected)) := by
  intro h
  unfold Session.receiveClosing Session.refuse at h
  split at h
  · split at h <;> cases h
  · split at h <;> cases h

theorem excludes_of_receiveOpen
    (h : (s.receiveOpen p).1 = .error (.inconsistent (.outsideWindow relSeq expected))) :
    s.Excludes p := by
  obtain ⟨u, hu, hconfig, hexpected⟩ : ∃ u, (if p.header.flags.ack then s.acknowledge p.header.ack
      else s) = u ∧ u.config = s.config ∧ u.expected = s.expected := by
    obtain ⟨f, o, hack⟩ := acknowledge_fields s p.header.ack
    rw [hack]
    split <;> exact ⟨_, rfl, rfl, rfl⟩
  unfold Session.receiveOpen at h
  simp only [hu] at h
  split at h
  · split at h <;> cases h
  split at h
  · cases hdecode : Sack.decode p.payload with
    | ok ranges =>
      rw [hdecode] at h
      cases h
    | error e =>
      rw [hdecode] at h
      cases h
      exact absurd hdecode (decode_ne_outsideWindow p.payload)
  split at h
  · exact absurd h (receiveClosing_ne_outsideWindow u p)
  split at h
  · rename_i hdata
    exact (excludes_of_receiveData hdata h).congr hconfig hexpected
  · cases h

theorem excludes_of_receiveConnecting
    (h : (s.receiveConnecting p).1 = .error (.inconsistent (.outsideWindow relSeq expected))) :
    s.Excludes p := by
  unfold Session.receiveConnecting Session.refuse at h
  cases hrole : s.role with
  | initiator =>
    simp only [hrole] at h
    split at h
    · cases h
    split at h <;> cases h
  | responder =>
    simp only [hrole] at h
    split at h
    · split at h <;> cases h
    split at h
    · cases h
    split at h
    · obtain ⟨events, hm⟩ := moveTo_fields s .connected
      rw [hm] at h
      exact (excludes_of_receiveOpen h).congr rfl rfl
    · cases h

/-- Only data is refused for lying outside of the window. -/
theorem excludes_of_receive
    (h : (s.receive p).1 = .error (.inconsistent (.outsideWindow relSeq expected))) :
    s.Excludes p := by
  unfold Session.receive at h
  split at h
  · cases h
  split at h
  · exact excludes_of_receiveConnecting h
  · exact excludes_of_receiveOpen h
  · exact excludes_of_receiveOpen h
  · cases h
  · cases h

end Refusing

/-! ## What an end was asked to send -/

section Ends

/-- The end has passed at least as much as before, and was asked to send the same unless it sends. -/
def End.Goes (sends : Prop) (en en' : End) : Prop :=
  en.reached ≤ en'.reached ∧ (¬ sends → en'.accepted = en.accepted)

variable {sends : Prop} {en en' en'' : End}

theorem End.Goes.refl (sends : Prop) (en : End) : en.Goes sends en := ⟨Nat.le_refl _, fun _ => rfl⟩

theorem End.Goes.trans (h : en.Goes sends en') (h' : en'.Goes sends en'') : en.Goes sends en'' :=
  ⟨Nat.le_trans h.1 h'.1, fun hnot => (h'.2 hnot).trans (h.2 hnot)⟩

theorem End.goes_observe (sends : Prop) (en : End) (s : Session) : en.Goes sends (en.observe s) :=
  ⟨Nat.le_add_right _ _, fun _ => rfl⟩

namespace Exchange

variable (e : Exchange) (x y : Role)

theorem goes_put (h : x = y → (e.ends y).Goes sends en) :
    (e.ends x).Goes sends ((e.put y en).ends x) := by
  unfold put
  simp only
  split
  · rename_i hxy
    rw [hxy]
    exact h hxy
  · exact .refl _ _

theorem goes_update (s : Session) : (e.ends x).Goes sends ((e.update y s).ends x) :=
  e.goes_put x y fun _ => End.goes_observe _ _ s

theorem goes_hand : (e.ends x).Goes sends ((e.hand y).ends x) :=
  (e.goes_update x y (e.ends y).session.fetchInbound.2).trans
    (goes_put _ x y fun _ => ⟨Nat.le_refl _, fun _ => rfl⟩)

/-- Nothing but a message that the end sends changes what it was asked to send, and nothing makes it go
back behind what it has passed. -/
theorem goes_apply (a : Act) :
    (e.ends x).Goes (∃ ps numbers now, a = .send x ps numbers now) ((e.apply a).ends x) := by
  cases a with
  | connect now =>
    simp only [apply]
    split
    · exact .refl _ _
    · exact e.goes_update x .initiator _
  | send y ps numbers now =>
    simp only [apply]
    split
    · exact e.goes_update x y _
    · refine (e.goes_update x y _).trans (goes_put _ x y fun hxy => ⟨Nat.le_refl _, fun hnot => ?_⟩)
      exact absurd ⟨ps, numbers, now, by rw [hxy]⟩ hnot
  | close y now => exact e.goes_update x y _
  | reset y => exact e.goes_update x y _
  | tick y now => exact e.goes_update x y _
  | take y => exact e.goes_update x y _
  | lose y => exact .refl _ _
  | deliver y hands now =>
    simp only [apply]
    split
    · exact .refl _ _
    · rename_i p ps _
      have harrive : (e.ends x).Goes (∃ ps numbers now', Act.deliver y hands now = .send x ps numbers now')
          (((e.relink y ps).arrive y p now).ends x) :=
        (e.relink y ps).goes_update x y _
      split
      · exact harrive.trans (goes_hand _ x y)
      · exact harrive

end Exchange

end Ends

/-! ## What the window has room for -/

theorem launch_fields (s : Session) (now : Nat) (ps : List Packet) : ∃ f q,
    (s.launch now ps).2 = { s with inFlight := f, outbound := q } ∧
      f.length ≤ s.inFlight.length + ps.length := by
  induction ps generalizing s with
  | nil => exact ⟨s.inFlight, s.outbound, rfl, Nat.le_refl _⟩
  | cons p ps ih =>
    have hlen : (s.inFlight.push p now).length = s.inFlight.length + 1 := by
      simp [InFlight.push, InFlight.length]
    unfold Session.launch
    simp only
    cases hpush : s.outbound.push p with
    | error err =>
      refine ⟨_, s.outbound, rfl, ?_⟩
      rw [hlen, List.length_cons]
      omega
    | ok q =>
      obtain ⟨f, q', he, hf⟩ := ih { s with inFlight := s.inFlight.push p now, outbound := q }
      refine ⟨f, q', he, ?_⟩
      simp only [hlen] at hf
      rw [List.length_cons]
      omega

/-- An end that has sent a message has no more in flight than the window has room for. -/
theorem send_room {s s' : Session} {ps : List Packet} {numbers : List UInt8} {now : Nat}
    (h : s.send ps now (fun ps => (numberFragments numbers ps, ())) = (.ok (), s')) :
    s'.state = .connected ∧ s'.inFlight.length ≤ s.config.window := by
  unfold Session.send at h
  cases hadmits : s.admits ps with
  | error err =>
    rw [hadmits] at h
    cases h
  | ok =>
    obtain ⟨hst, hwindow, -⟩ := admits_eq_ok hadmits
    obtain ⟨outbound, events, hreport⟩ := postGapReport_fields s
    obtain ⟨qs, hstamp, hnumbers⟩ := stamp_spec { s with outbound := outbound, events := events } ps
    obtain ⟨-, -, -, hlen⟩ := hnumbers numbers
    rw [hadmits, hreport] at h
    simp only [hstamp] at h
    obtain ⟨f, q, hlaunch, hf⟩ := launch_fields
      { s with outbound := outbound, events := events, nextSeq := Serial.forward s.nextSeq ps.length }
      now (numberFragments numbers qs)
    split at h
    · cases h
    · rename_i s₁ hs₁
      rw [hs₁] at hlaunch
      simp only at hlaunch
      obtain ⟨events', hraise⟩ := raise_fields s₁ (.outboundAvailable s₁.localPort)
      obtain ⟨-, rfl⟩ := Prod.mk.inj h
      rw [hraise, hlaunch]
      refine ⟨hst, ?_⟩
      simp only at hf ⊢
      omega

/-! ## Every run -/

variable {t : Terms} {x : Role} {e : Exchange} {gs : Role → Ledger} {ls : Role → List Parcel}
  {acts : List Act}

/-- Without gaps, the recent numbers are those in flight. -/
theorem Sound.length_le_of_gapless {g gy : Ledger} {out back : List Parcel}
    (hs : Sound t x g gy out back) (ha : g.alive = true) (h : t.Gapless x) :
    g.sent.length ≤ g.known.reached + g.flying.length := by
  have := g.length_le_of_subset (c := ∅) fun n hn => by
    obtain ⟨hlow, hlt⟩ := Finset.mem_Ico.1 hn
    rw [Finset.union_empty, List.mem_toFinset]
    rcases h with hone | hplain
    · by_contra hnf
      have := hs.flow.valid _ hs.flow.known_past n (hs.flow.known_early ha n hlow hlt hnf)
      omega
    · exact hs.flow.known_plain hplain ha n hlow hlt
  rwa [Finset.card_empty] at this

/-- What the peer was asked to send goes as far ahead as it has packets in flight. -/
theorem InOrder.accepted_lt (h : InOrder t x e gs ls) (hgapless : t.Gapless x.peer)
    (hst : (e.ends x.peer).session.state = .connected) : (e.ends x.peer).accepted.length <
      (e.ends x).reached + (e.ends x.peer).session.inFlight.length := by
  have hs := h.accounts.stands x.peer
  have ha := hs.phase.alive_of_state (.inl hst)
  obtain ⟨hpos, hopen⟩ := hs.phase.connected hst
  have hlen := hs.sound.length_le_of_gapless ha hgapless
  have hknown := hs.sound.flow.past_reached_le hs.sound.flow.known_past
  rw [Role.peer_peer] at hknown
  rw [h.accepted, Ledger.length_pieces (Nat.le_of_eq hopen.symm), (h.accounts.kept x).reached,
    hs.books.length_flights ha]
  omega

/-- A message that is asked for is refused, or the window has room for it. -/
theorem Exchange.apply_send (e : Exchange) (x : Role) (ps : List Packet) (numbers : List UInt8)
    (now : Nat) : ((e.apply (.send x ps numbers now)).ends x).accepted = (e.ends x).accepted ∨
      ((e.apply (.send x ps numbers now)).ends x).session.state = .connected ∧
        ((e.apply (.send x ps numbers now)).ends x).session.inFlight.length ≤
          (e.ends x).session.config.window := by
  simp only [apply]
  cases hsend : (e.ends x).session.send ps now fun ps => (numberFragments numbers ps, ()) with
  | mk answer s' =>
    cases answer with
    | error err =>
      rw [ends_update]
      exact .inl rfl
    | ok =>
      rw [ends_put, ends_update]
      exact .inr (send_room hsend)

/-- Without gaps, an end is not asked to send beyond the window of its peer. -/
theorem accepted_lt_after (hvalid : t.config.Valid) (hwindow : t.config.window ≤ 127)
    (hgapless : ∀ y, t.Gapless y) (hacts : ∀ a ∈ acts, a.Transfers) (x : Role) :
    ∃ gs ls, InOrder t x (t.start.after acts) gs ls ∧
      ((t.start.after acts).ends x.peer).accepted.length <
        ((t.start.after acts).ends x).reached + t.config.window := by
  have htame := fun y => (hgapless y).tame hwindow
  induction acts using List.reverseRecOn with
  | nil => exact ⟨_, _, inOrder_start t x, Nat.lt_of_lt_of_le hvalid.window_pos (Nat.le_add_left _ _)⟩
  | append_singleton acts a ih =>
    obtain ⟨gs, ls, h, hlast⟩ := ih fun b hb => hacts b (List.mem_append_left _ hb)
    obtain ⟨gs', ls', h', -⟩ := h.apply hvalid htame ((hacts a (by simp)).handsOut x)
    have hself := (t.start.after acts).goes_apply x a
    rw [Exchange.after_concat]
    refine ⟨gs', ls', h', ?_⟩
    have hsame : (((t.start.after acts).apply a).ends x.peer).accepted =
          ((t.start.after acts).ends x.peer).accepted →
        (((t.start.after acts).apply a).ends x.peer).accepted.length <
          (((t.start.after acts).apply a).ends x).reached + t.config.window := by
      intro haccepted
      rw [haccepted]
      exact Nat.lt_of_lt_of_le hlast (Nat.add_le_add_right hself.1 _)
    by_cases hsend : ∃ ps numbers now, a = .send x.peer ps numbers now
    · obtain ⟨ps, numbers, now, rfl⟩ := hsend
      rcases (t.start.after acts).apply_send x.peer ps numbers now with haccepted | ⟨hst, hroom⟩
      · exact hsame haccepted
      · rw [(h.accounts.books x.peer).config] at hroom
        have := h'.accepted_lt (hgapless x.peer) hst
        omega
    · exact hsame (((t.start.after acts).goes_apply x.peer a).2 hsend)

/-- The numbers of data are those of what was asked for. -/
theorem InOrder.le_accepted (h : InOrder t x e gs ls) {n : Nat} {p : Packet}
    (hp : (e.ends x.peer).sent[n]? = some p) (hdata : p.header.flags.data = true) :
    n ≤ (e.ends x.peer).accepted.length := by
  have ht := (h.accounts.stands x.peer).sound.tidy
  rw [(h.accounts.kept x.peer).sent] at hp
  have hflags := (ht.sent_shape n p hp).2.1
  rw [h.accepted, Ledger.length_pieces ht.bulk_le]
  unfold flagsOf at hflags
  split at hflags
  · omega
  split at hflags
  · omega
  · rw [hflags] at hdata
    cases hdata

/-- Without gaps no end sends data beyond the window of its peer. -/
theorem not_runsAhead_after (hvalid : t.config.Valid) (hwindow : t.config.window ≤ 127)
    (hgapless : ∀ y, t.Gapless y) (hacts : ∀ a ∈ acts, a.Transfers) (x : Role) :
    ¬ (t.start.after acts).RunsAhead x := by
  rintro ⟨n, p, hp, hdata, hfar⟩
  obtain ⟨gs, ls, h, hlt⟩ := accepted_lt_after hvalid hwindow hgapless hacts x.peer
  rw [(h.accounts.books x).config] at hfar
  rw [← x.peer_peer] at hp
  have := h.le_accepted hp hdata
  omega

/-- Data in the window of the peer is not refused for lying outside of it. -/
theorem InOrder.not_refuses (h : InOrder t x e gs ls)
    (hlt : (e.ends x.peer).accepted.length < (e.ends x).reached + t.config.window)
    (hwindow : t.config.window ≤ 128) : ¬ e.Refuses x := by
  rintro ⟨p, ps, relSeq, expected, hlink, hrefused⟩
  obtain ⟨hdata, hfar, hahead⟩ := excludes_of_receive hrefused
  rw [h.accounts.link x] at hlink
  obtain ⟨q, rest, hls, rfl, -⟩ := List.map_eq_cons_iff.1 hlink
  have hs := h.accounts.stands x
  rw [hls] at hs
  have hq := hs.sound.arriving
  have hc : q.Counts := .inr (.inl hdata)
  obtain ⟨c, hcopy, hflags, -⟩ := hq.fits.copy hc
  rw [hflags] at hdata
  rw [← (h.accounts.kept x.peer).sent] at hcopy
  have hle := h.le_accepted hcopy hdata
  obtain ⟨hlow, -⟩ := hq.window (hs.sound.drop (List.sublist_cons_self q rest)) hc
  rw [hs.books.expected, hq.fits.relSeq] at hfar hahead
  rw [hs.books.config] at hfar
  rw [(h.accounts.kept x).reached] at hlt
  rcases Nat.lt_or_ge q.number (gs x).intake.reached with hold | hnew
  · have hprec := (Serial.precedes_forward_iff (0 : UInt8) (m := q.number)
      (n := (gs x).intake.reached) (by simp only [Serial.half]; omega)
      (by simp only [Serial.half]; omega)).2 hold
    rw [hprec] at hahead
    cases hahead
  · rw [Serial.distance_forward _ hnew (by simp only [Serial.half]; omega)] at hfar
    omega

/-- Without gaps no data is refused for lying outside of the window. -/
theorem not_refuses_after (hvalid : t.config.Valid) (hwindow : t.config.window ≤ 127)
    (hgapless : ∀ y, t.Gapless y) (hacts : ∀ a ∈ acts, a.Transfers) (x : Role) :
    ¬ (t.start.after acts).Refuses x := by
  obtain ⟨gs, ls, h, hlt⟩ := accepted_lt_after hvalid hwindow hgapless hacts x
  exact h.not_refuses hlt hvalid.window_le

end NarrowLink.Connection
