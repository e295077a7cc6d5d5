import NarrowLink.Proofs.Session.Formed

/-!
# The receiving half of a session

Whatever arrives, the inbound queue of a session holds numbers of half the number space at most, and what
is expected next has not arrived (`Receiving`, `lasting_receiving`).  Packets in sequence wait in it only
until the owner is told.
-/

namespace NarrowLink.Connection

open Wire

/-- A run ends where a number is missing. -/
theorem runFrom_stops (early : ByteMap Bool) (e : UInt8) :
    (Session.runFrom 256 early e).1.get (Session.runFrom 256 early e).2 = false := by
  obtain ⟨k, hk, hend, -, hstop, hleft⟩ := Session.runFrom_spec 256 (Nat.le_refl _) early e
  rw [hend]
  by_contra hget
  obtain ⟨harrived, hnot⟩ := (hleft _).1 (Bool.not_eq_false _ ▸ hget)
  rcases Nat.lt_or_ge k 256 with hlt | hge
  · rw [hstop hlt] at harrived
    cases harrived
  · -- the run went all the way round
    have hround : Serial.forward e k = e := by
      rw [show k = 2 * Serial.half UInt8 from Nat.le_antisymm hk hge]
      exact Serial.forward_turn e
    exact hnot 0 (by omega) hround

namespace Session

/-- The numbers of the inbound queue lie within half the number space. -/
def Near (s : Session) : Prop :=
  ∃ base, ∀ port, ∀ p ∈ s.inbound.packets port, ahead base p < 128

/-- A session on a port receives in order.  If there are packets in sequence, then something holds, such
as that the owner is yet to be told. -/
structure Receiving (config : Config) (port : UInt8) (told : Prop) (s : Session) : Prop where
  localPort : s.localPort = port
  near : s.Near
  consistent : s.inbound.Consistent
  room : s.inbound.used ≤ config.connectionQueueCapacity
  capacity : s.inbound.capacity = config.connectionQueueCapacity
  order : s.inbound.order = .reliability
  begins : s.state = .connecting → Blank s
  follows : s.Open → ∃ e k ps, Waits s e k ps ∧ (k ≠ 0 → told) ∧ s.early.get s.expected = false
  config : s.config = config

variable {config : Config} {port : UInt8} {App : Packet → Prop} {told told' : Prop} {s s' : Session}

theorem near_of_waits {e : UInt8} {k : Nat} {ps : List Packet} (h : Waits s e k ps) : s.Near := by
  refine ⟨e, fun port p hp => ?_⟩
  by_cases hport : port = s.localPort
  · rw [hport, h.holds.packets] at hp
    exact h.near p hp
  · rw [h.holds.others port hport] at hp
    exact absurd hp List.not_mem_nil

theorem near_of_empty (h : s.inbound.stored = []) : s.Near := by
  refine ⟨0, fun port p hp => ?_⟩
  have hmem := Queue.mem_stored_iff.2 ⟨port, hp⟩
  rw [h] at hmem
  exact absurd hmem List.not_mem_nil

/-- What a session receives does not depend on what it sends. -/
theorem Receiving.congr (h : s.Receiving config port told) (hconfig : s'.config = s.config)
    (hport : s'.localPort = s.localPort) (hinbound : s'.inbound = s.inbound)
    (hearly : s'.early = s.early) (hexpected : s'.expected = s.expected)
    (hstate : s'.state = s.state ∨ s.Open ∧ s'.Open ∨ s'.state = .disconnected) (htold : told → told') :
    s'.Receiving config port told' where
  config := hconfig.trans h.config
  localPort := hport.trans h.localPort
  near := by
    unfold Near
    rw [hinbound]
    exact h.near
  consistent := hinbound ▸ h.consistent
  room := hinbound ▸ h.room
  capacity := hinbound ▸ h.capacity
  order := hinbound ▸ h.order
  begins hst := by
    rcases hstate with he | ⟨-, hopen⟩ | he
    · exact (h.begins (he ▸ hst)).congr hport hinbound hearly
    · exact absurd hst hopen.not_connecting
    · rw [he] at hst
      cases hst
  follows hopen := by
    have hopen' : s.Open := by
      rcases hstate with he | ⟨hopen', -⟩ | he
      · unfold Open at hopen ⊢
        rwa [he] at hopen
      · exact hopen'
      · rcases hopen with hst | hst <;> rw [he] at hst <;> cases hst
    obtain ⟨e, k, ps, hw, hk, hstop⟩ := h.follows hopen'
    refine ⟨e, k, ps, hw.congr hport hinbound hearly hexpected, fun hne => htold (hk hne), ?_⟩
    rw [hearly, hexpected]
    exact hstop

theorem Receiving.discard (h : s.Receiving config port told) (told' : Prop) {state : State}
    (hstate : state = .disconnected ∨ state = .resetting) :
    Receiving config port told' { s.discard with state := state } where
  config := h.config
  localPort := h.localPort
  near := near_of_empty (Queue.stored_clear s.inbound)
  consistent := Queue.consistent_clear s.inbound
  room := Nat.zero_le _
  capacity := h.capacity
  order := h.order
  begins hst := by
    rcases hstate with rfl | rfl <;> cases hst
  follows hopen := by
    rcases hstate with rfl | rfl <;> rcases hopen with hst | hst <;> cases hst

theorem Receiving.raise (h : s.Receiving config port s.Reports) (e : Event) :
    (s.raise e).Receiving config port (s.raise e).Reports := by
  have htold : s.Reports → (s.raise e).Reports := fun hr => by
    have hmem := (mem_events_raise s e (.inboundAvailable s.localPort)).2 (.inl hr)
    rwa [raise_eq] at hmem ⊢
  rw [raise_eq] at htold ⊢
  exact h.congr rfl rfl rfl rfl rfl (.inl rfl) htold

/-- Nothing has arrived at an open session. -/
theorem follows_of_blank (h : Blank s) : ∃ e k ps, Waits s e k ps ∧ (k ≠ 0 → told) ∧
    s.early.get s.expected = false :=
  ⟨s.expected, 0, [], h.waits, fun hne => absurd rfl hne, h.early _⟩

theorem Unbegun.blank (h : s.Unbegun config port) : Blank s := by
  obtain ⟨role, remotePort, channel, options, expected, rfl⟩ := h
  exact ⟨Queue.holds_empty _ _, fun b => ByteMap.get_const _ _⟩

/-- Sessions receive in order whatever happens to them. -/
theorem lasting_receiving (hwindow : config.window ≤ 128) (port : UInt8) (App : Packet → Prop) :
    Lasting config port App fun s => s.Receiving config port s.Reports where
  begins := by
    intro s flags now hs _ _
    have hblank := hs.blank
    obtain ⟨role, remotePort, channel, options, expected, rfl⟩ := hs
    exact {
      config := rfl
      localPort := rfl
      near := near_of_empty (Queue.stored_empty _ _)
      consistent := Queue.consistent_of_empty
      room := Nat.zero_le _
      capacity := rfl
      order := rfl
      begins := fun _ => hblank.congr rfl rfl rfl
      follows := fun hopen => by rcases hopen with hst | hst <;> cases hst }
  raises hs _ := hs.raise _
  connects := by
    intro s hs hst _
    have hblank := hs.begins hst
    exact { hs with
      begins := fun he => by cases he
      follows := fun _ => follows_of_blank (s := { s with state := .connected }) ⟨hblank.holds, hblank.early⟩ }
  welcomes := by
    intro s relSeq hs hst _
    have hblank := hs.begins hst
    obtain ⟨hexpected, hearly⟩ := runFrom_single hblank.early relSeq
    exact { hs with
      begins := fun he => by cases he
      follows := fun _ => follows_of_blank (s := s.greeted relSeq) ⟨hblank.holds, hearly⟩ }
  absorbs := by
    intro s p q hs hopen hq hport hnear hnew hpush
    obtain ⟨e, k, ps, hw, hk, -⟩ := hs.follows hopen
    have hk0 : k = 0 := by
      by_contra hne
      exact hq (hk hne)
    subst hk0
    have hexpected : s.expected = e := hw.expected
    have hahead : ahead e p < 128 := by
      unfold ahead
      rw [← hexpected]
      exact Nat.lt_of_lt_of_le hnear (hs.config ▸ hwindow)
    obtain ⟨k, hw', htold⟩ := hw.absorb (hport.trans hs.localPort.symm) hahead hnew hpush
    obtain ⟨events, hfields, -⟩ := absorb_eq s q p.header.relSeq
    obtain ⟨hroom, rfl⟩ := Queue.push_eq_ok_iff.1 hpush
    have hnear' := near_of_waits hw'
    rw [hfields] at hw' htold hnear' ⊢
    exact {
      config := hs.config
      localPort := hs.localPort
      near := hnear'
      consistent := hs.consistent.add p
      room := by
        rw [← hs.capacity]
        exact hroom
      capacity := hs.capacity
      order := hs.order
      begins := fun hst => absurd hst hopen.not_connecting
      follows := fun _ => ⟨e, k, _, hw', htold, runFrom_stops _ _⟩ }
  parts := by
    intro s hs hopen
    exact { hs with
      begins := fun hst => by cases hst
      follows := fun hopen => by rcases hopen with hst | hst <;> cases hst }
  resets hs := hs.discard _ (.inr rfl)
  ends hs := hs.discard _ (.inl rfl)
  posts hs _ _ := hs.congr rfl rfl rfl rfl rfl (.inl rfl) id
  resends hs _ _ _ := hs.congr rfl rfl rfl rfl rfl (.inl rfl) id
  credits _ hs _ _ := hs.congr rfl rfl rfl rfl rfl (.inl rfl) id
  recounts hs _ := hs.congr rfl rfl rfl rfl rfl (.inl rfl) id
  dispatches := by
    intro s ps qs now hs _ _ _ _
    let sent : Session := { s with
      nextSeq := Serial.forward s.nextSeq qs.length
      inFlight := ⟨s.inFlight.flights ++ qs.map fun q => ⟨q, now, 0⟩⟩
      outbound := (s.gapReport.toList ++ qs).foldl Queue.add s.outbound }
    have hsent : sent.Receiving config port sent.Reports :=
      hs.congr rfl rfl rfl rfl rfl (.inl rfl) id
    exact hsent.raise _
  closes now hs hst _ := hs.congr rfl rfl rfl rfl rfl (.inr (.inl ⟨.inl hst, .inr rfl⟩)) id

/-! ## Handing out -/

/-- Handing out only takes packets out of the inbound queue. -/
theorem fetchInbound_queue (h : s.inbound.Consistent) :
    ∃ q, s.fetchInbound.2 = { s with inbound := q } ∧ q.Consistent ∧ q.used ≤ s.inbound.used ∧
      q.capacity = s.inbound.capacity ∧ q.order = s.inbound.order ∧
      ∀ port, ∀ p ∈ q.packets port, p ∈ s.inbound.packets port := by
  refine fetchInbound_pops s ⟨h, Nat.le_refl _, rfl, rfl, fun _ _ hp => hp⟩ ?_
  rintro q q' p ⟨hcons, hused, hcap, horder, hmem⟩ hpop
  obtain ⟨hhead, hothers⟩ := Queue.packets_pop hpop
  refine ⟨hcons.pop hpop, Nat.le_trans (Queue.used_pop_le hpop) hused,
    (Queue.capacity_pop hpop).trans hcap, (Queue.order_pop hpop).trans horder,
    fun port x hx => hmem port x ?_⟩
  by_cases hport : port = s.localPort
  · subst hport
    rw [hhead]
    exact List.mem_cons_of_mem p hx
  · rwa [← hothers port hport]

/-- Handing out leaves nothing in sequence. -/
theorem Receiving.fetchInbound (h : s.Receiving config port told) (told' : Prop) :
    s.fetchInbound.2.Receiving config port told' := by
  obtain ⟨q, he, hcons, hused, hcap, horder, hmem⟩ := fetchInbound_queue h.consistent
  refine ⟨?_, ?_, ?_, ?_, ?_, ?_, fun hst => ?_, fun hopen => ?_, ?_⟩
  · rw [he]
    exact h.localPort
  · obtain ⟨base, hnear⟩ := h.near
    rw [he]
    exact ⟨base, fun port p hp => hnear port p (hmem port p hp)⟩
  · rw [he]
    exact hcons
  · rw [he]
    exact Nat.le_trans hused h.room
  · rw [he]
    exact hcap.trans h.capacity
  · rw [he]
    exact horder.trans h.order
  · rw [he] at hst
    have hblank := h.begins hst
    have hsame : s.fetchInbound.2 = s := by
      unfold Session.fetchInbound
      rw [hblank.holds.packets]
      rfl
    rw [hsame]
    exact hblank
  · have hopen' : s.Open := by
      rw [he] at hopen
      exact hopen
    obtain ⟨e, k, ps, hw, -, hstop⟩ := h.follows hopen'
    obtain ⟨-, rest, q', he', hw'⟩ := hw.fetchInbound
    rw [he']
    exact ⟨_, 0, rest, hw', fun hne => absurd rfl hne, hstop⟩
  · rw [he]
    exact h.config

/-- What is due in sequence is due to whoever is told of it. -/
theorem Receiving.mono (h : s.Receiving config port told) (htold : told → told') :
    s.Receiving config port told' :=
  h.congr rfl rfl rfl rfl rfl (.inl rfl) htold

end Session

end NarrowLink.Connection
