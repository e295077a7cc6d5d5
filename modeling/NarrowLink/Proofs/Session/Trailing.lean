import Mathlib.Data.List.Perm.Subperm
import NarrowLink.Proofs.Serial.Row
import NarrowLink.Proofs.Session.Formed

/-!
# What a session has queued trails its next number

A session queues what it sends under its next number, and what it sends again under an older one.  If it
sends nothing again, or has no more than one packet in flight, then the numbers in its outbound queue are
those right before the next one, without a gap (`Trailing`).  So they are near each other, as long as
the queue has no room for more packets than there are numbers in half a turn (`Trailing.near`).
-/

namespace NarrowLink.Connection.Session

open Wire

variable {config : Config} {port : UInt8} {App : Packet → Prop} {I : Session → Prop} {s : Session}
  {p : Packet} {m : Nat}

/-- How far a packet lies behind the next number. -/
def behind (s : Session) (p : Packet) : Nat := Serial.distance p.header.relSeq s.nextSeq

/-- The session gives out no more numbers. -/
def Leaving (s : Session) : Prop := s.state ≠ .connecting ∧ s.state ≠ .connected

/-- All packets that are queued lie so far behind at most. -/
def Reaches (s : Session) (m : Nat) : Prop := ∀ p ∈ s.outbound.stored, s.behind p ≤ m

/-- The last numbers that were given out are queued, so many of them. -/
def Filled (s : Session) (m : Nat) : Prop :=
  ∀ i, 0 < i → i ≤ m → ∃ p ∈ s.outbound.stored, s.behind p = i

/-- What is queued lies right behind the next number, and so does what is in flight, if it is ever sent
again.  The last two numbers may be queued without each other, once no more are given out. -/
structure Trailing (config : Config) (s : Session) : Prop where
  reach : ∃ m, s.Reaches m ∧ (s.Filled m ∨ m ≤ 2 ∧ s.Leaving)
  flights : config.maxRetransmissions = 0 ∨
    ∀ e ∈ s.inFlight.flights, s.behind e.packet ≤ 1 ∨ s.behind e.packet ≤ 2 ∧ s.Leaving
  welcome : s.state = .connecting → s.role = .responder → Serial.distance s.oldestUnacked s.nextSeq = 1
  config : s.config = config

/-! ## Numbers that are queued -/

/-- There are packets for all the numbers. -/
theorem Filled.le (h : s.Filled m) : m ≤ s.outbound.stored.length := by
  have hnodup : ((List.range m).map (· + 1)).Nodup :=
    List.Nodup.map (fun _ _ => Nat.add_right_cancel) List.nodup_range
  have hsub : ∀ i ∈ (List.range m).map (· + 1), i ∈ s.outbound.stored.map s.behind := by
    intro i hi
    obtain ⟨j, hj, rfl⟩ := List.mem_map.1 hi
    obtain ⟨p, hp, he⟩ := h (j + 1) (Nat.succ_pos j) (List.mem_range.1 hj)
    exact List.mem_map.2 ⟨p, hp, he⟩
  simpa using (hnodup.subperm hsub).length_le

/-- A packet with the next number is one more. -/
theorem Filled.lt (h : s.Filled m) (hp : p ∈ s.outbound.stored) (hnext : s.behind p = 0) :
    m < s.outbound.stored.length := by
  have hsub : ∀ i ∈ List.range (m + 1), i ∈ s.outbound.stored.map s.behind := by
    intro i hi
    rcases Nat.eq_zero_or_pos i with rfl | hpos
    · exact List.mem_map.2 ⟨p, hp, hnext⟩
    · obtain ⟨q, hq, he⟩ := h i hpos (Nat.le_of_lt_succ (List.mem_range.1 hi))
      exact List.mem_map.2 ⟨q, hq, he⟩
  have hle := (List.nodup_range.subperm hsub).length_le
  rw [List.length_range, List.length_map] at hle
  exact hle

theorem Formed.length_le (h : s.Formed config) :
    Header.size * s.outbound.stored.length ≤ config.connectionQueueCapacity := by
  rw [← h.capacity]
  exact Nat.le_trans (size_mul_length_le _) (h.consistent.used_eq ▸ h.room)

theorem Formed.filled_le (h : s.Formed config)
    (hcapacity : config.connectionQueueCapacity < Header.size * 129) (hm : s.Filled m) : m ≤ 128 := by
  have hlen := h.length_le
  have hle := hm.le
  simp only [Header.size] at *
  omega

/-- Packets that trail the next number are near each other. -/
theorem near_of_behind (hm : m ≤ 128) (hreach : s.Reaches m)
    (hfull : m = 128 → ∀ p ∈ s.outbound.stored, s.behind p ≠ 0) (port : UInt8) :
    Serial.Near ((s.outbound.packets port).map fun p => p.header.relSeq) := by
  -- the number that lies `m` behind the next one
  have hround : Serial.distance (Serial.forward s.nextSeq (256 - m)) s.nextSeq = m := by
    have hback := Serial.distance_forward s.nextSeq (m := 256 - m) (n := 256) (Nat.sub_le _ _)
      (by simp only [Serial.half]; omega)
    rw [show Serial.forward s.nextSeq 256 = s.nextSeq from Serial.forward_turn s.nextSeq] at hback
    omega
  refine ⟨Serial.forward s.nextSeq (256 - m), fun n hn => ?_⟩
  obtain ⟨p, hp, rfl⟩ := List.mem_map.1 hn
  have hstored : p ∈ s.outbound.stored := Queue.mem_stored_iff.2 ⟨port, hp⟩
  have hbehind : Serial.distance p.header.relSeq s.nextSeq ≤ m := hreach p hstored
  rw [Serial.distance_sub_right (hround.symm ▸ hbehind), hround]
  have hne : m = 128 → Serial.distance p.header.relSeq s.nextSeq ≠ 0 := fun he => hfull he p hstored
  show _ < 128
  omega

theorem Trailing.near (h : s.Trailing config) (hs : s.Formed config)
    (hcapacity : config.connectionQueueCapacity < Header.size * 129) (port : UInt8) :
    Serial.Near ((s.outbound.packets port).map fun p => p.header.relSeq) := by
  obtain ⟨m, hreach, hfilled | ⟨hm, -⟩⟩ := h.reach
  · refine near_of_behind (hs.filled_le hcapacity hfilled) hreach (fun hm p hp hnext => ?_) port
    have hlen := hs.length_le
    have hlt := hfilled.lt hp hnext
    simp only [Header.size] at *
    omega
  · exact near_of_behind (by omega) hreach (fun he => by omega) port

/-! ## What happens to them -/

theorem Trailing.queue (h : s.Trailing config)
    (hp : s.behind p ≤ 1 ∨ s.behind p ≤ 2 ∧ s.Leaving) :
    Trailing config { s with outbound := s.outbound.add p } := by
  refine { h with reach := ?_ }
  have hmem : ∀ x, x ∈ (s.outbound.add p).stored ↔ x = p ∨ x ∈ s.outbound.stored := fun x => by
    rw [(s.outbound.stored_add p).mem_iff, List.mem_cons]
  obtain ⟨m, hreach, hfilled⟩ := h.reach
  have hmore : ∀ {n}, m ≤ n → s.behind p ≤ n → Reaches { s with outbound := s.outbound.add p } n := by
    intro n hmn hpn x hx
    rcases (hmem x).1 hx with rfl | hx
    · exact hpn
    · exact Nat.le_trans (hreach x hx) hmn
  by_cases hle : s.behind p ≤ m
  · refine ⟨m, hmore (Nat.le_refl m) hle, hfilled.imp_left fun hf i hi him => ?_⟩
    obtain ⟨x, hx, he⟩ := hf i hi him
    exact ⟨x, (hmem x).2 (.inr hx), he⟩
  rcases hp with hone | ⟨htwo, hleaving⟩
  · -- the packet with the last number is queued again
    have hm : m = 0 := by omega
    refine ⟨1, hmore (by omega) hone, .inl fun i hi hi1 => ⟨p, (hmem p).2 (.inl rfl), ?_⟩⟩
    show s.behind p = i
    omega
  · exact ⟨2, hmore (by omega) htwo, .inr ⟨Nat.le_refl 2, hleaving⟩⟩

theorem behind_next {n : UInt8} (hp : s.behind p < 255) (hn : n = Serial.next s.nextSeq) :
    Serial.distance p.header.relSeq n = s.behind p + 1 := by
  rw [hn, Serial.distance_next, if_neg (by unfold behind at hp; simp only [Serial.half]; omega)]
  rfl

/-- The next number is given out. -/
theorem Trailing.issue (h : s.Trailing config) (hs : s.Formed config)
    (hcapacity : config.connectionQueueCapacity < Header.size * 129)
    (hstaying : ¬ s.Leaving ∨ s.outbound.stored = []) (hrel : p.header.relSeq = s.nextSeq) (now : Nat) :
    ∃ m, (s.issue p now).Reaches m ∧ (s.issue p now).Filled m := by
  obtain ⟨m, hreach, hfilled⟩ : ∃ m, s.Reaches m ∧ s.Filled m := by
    rcases hstaying with hstaying | hnil
    · obtain ⟨m, hreach, hfilled⟩ := h.reach
      exact ⟨m, hreach, hfilled.resolve_right fun hleaving => hstaying hleaving.2⟩
    · refine ⟨0, fun x hx => ?_, fun i hi hi0 => absurd hi0 (by omega)⟩
      rw [hnil] at hx
      exact absurd hx List.not_mem_nil
  have hm := hs.filled_le hcapacity hfilled
  have hmem : ∀ x, x ∈ (s.issue p now).outbound.stored ↔ x = p ∨ x ∈ s.outbound.stored := fun x => by
    rw [show (s.issue p now).outbound = s.outbound.add p from rfl, (s.outbound.stored_add p).mem_iff,
      List.mem_cons]
  have hone : (s.issue p now).behind p = 1 := by
    show Serial.distance p.header.relSeq (Serial.next s.nextSeq) = 1
    rw [hrel]
    exact Serial.distance_forward_self s.nextSeq (n := 1) (by simp only [Serial.half]; omega)
  have hshift : ∀ x ∈ s.outbound.stored, (s.issue p now).behind x = s.behind x + 1 := fun x hx =>
    behind_next (Nat.lt_of_le_of_lt (hreach x hx) (by omega)) rfl
  refine ⟨m + 1, fun x hx => ?_, fun i hi him => ?_⟩
  · rcases (hmem x).1 hx with rfl | hx
    · rw [hone]
      exact Nat.succ_pos m
    · rw [hshift x hx]
      exact Nat.succ_le_succ (hreach x hx)
  · rcases Nat.lt_or_ge 1 i with hlt | hle
    · obtain ⟨x, hx, he⟩ := hfilled (i - 1) (by omega) (by omega)
      exact ⟨x, (hmem x).2 (.inr hx), by rw [hshift x hx]; omega⟩
    · exact ⟨p, (hmem p).2 (.inl rfl), by omega⟩

theorem trailing_of_empty (hconfig : s.config = config) (hnil : s.outbound.stored = [])
    (hflights : s.inFlight.flights = [])
    (hwelcome : s.state = .connecting → s.role = .responder →
      Serial.distance s.oldestUnacked s.nextSeq = 1) : s.Trailing config where
  config := hconfig
  reach := by
    refine ⟨0, fun x hx => ?_, .inl fun i hi hi0 => absurd hi0 (by omega)⟩
    rw [hnil] at hx
    exact absurd hx List.not_mem_nil
  flights := .inr fun e he => by
    rw [hflights] at he
    exact absurd he List.not_mem_nil
  welcome := hwelcome

theorem Trailing.refill (h : s.Trailing config) {q : Queue} (hq : s.outbound.Refills q) :
    Trailing config { s with outbound := q } := by
  refine { h with reach := ?_ }
  rcases hq.stored with hnil | hperm
  · refine ⟨0, fun x hx => ?_, .inl fun i hi hi0 => absurd hi0 (by omega)⟩
    rw [show ({ s with outbound := q } : Session).outbound.stored = [] from hnil] at hx
    exact absurd hx List.not_mem_nil
  · obtain ⟨m, hreach, hfilled⟩ := h.reach
    refine ⟨m, fun x hx => hreach x (hperm.mem_iff.1 hx), hfilled.imp_left fun hf i hi him => ?_⟩
    obtain ⟨x, hx, he⟩ := hf i hi him
    exact ⟨x, hperm.mem_iff.2 hx, he⟩

/-- A packet with the next number is put in flight and queued, if it is the only one in flight or nothing is
ever sent again. -/
theorem Trailing.launch (h : s.Trailing config) (hs : s.Formed config)
    (hcapacity : config.connectionQueueCapacity < Header.size * 129)
    (honce : config.maxRetransmissions = 0 ∨ config.window = 1) (hst : s.state = .connected)
    (hwindow : s.unacknowledged < s.config.window) (hrel : p.header.relSeq = s.nextSeq) (now : Nat) :
    (s.issue p now).Trailing config := by
  have hstaying : ¬ s.Leaving := fun hleaving => hleaving.2 hst
  obtain ⟨m, hreach, hfilled⟩ := h.issue hs hcapacity (.inl hstaying) hrel now
  refine ⟨⟨m, hreach, .inl hfilled⟩, honce.imp_right fun hone e he => ?_, fun hc => ?_, h.config⟩
  · have hnil : s.inFlight.flights = [] := by
      rw [h.config, hone] at hwindow
      exact List.length_eq_zero_iff.1 (Nat.lt_one_iff.1 hwindow)
    have he' : e ∈ s.inFlight.flights ++ [⟨p, now, 0⟩] := he
    rw [hnil, List.nil_append, List.mem_singleton] at he'
    subst he'
    refine .inl (Nat.le_of_eq ?_)
    show Serial.distance p.header.relSeq (Serial.next s.nextSeq) = 1
    rw [hrel]
    exact Serial.distance_forward_self s.nextSeq (n := 1) (by simp only [Serial.half]; omega)
  · rw [show (s.issue p now).state = .connected from hst] at hc
    cases hc

/-- The request to close is one more packet in flight, whether the window has room for it or not. -/
theorem Trailing.leave (h : s.Trailing config) (hs : s.Formed config)
    (hcapacity : config.connectionQueueCapacity < Header.size * 129) (hst : s.state = .connected)
    (hrel : p.header.relSeq = s.nextSeq) (now : Nat) :
    Trailing config { s.issue p now with state := .disconnecting } := by
  have hstaying : ¬ s.Leaving := fun hleaving => hleaving.2 hst
  obtain ⟨m, hreach, hfilled⟩ := h.issue hs hcapacity (.inl hstaying) hrel now
  refine ⟨⟨m, hreach, .inl hfilled⟩, h.flights.imp_right fun hflights e he => .inr ⟨?_, ?_⟩,
    State.noConfusion, h.config⟩
  · have he' : e ∈ s.inFlight.flights ++ [⟨p, now, 0⟩] := he
    rcases List.mem_append.1 he' with he | he
    · have hle : s.behind e.packet ≤ 1 :=
        (hflights e he).resolve_right fun hleaving => hstaying hleaving.2
      show Serial.distance e.packet.header.relSeq (Serial.next s.nextSeq) ≤ 2
      rw [behind_next (by omega) rfl]
      omega
    · rw [List.mem_singleton.1 he]
      show Serial.distance p.header.relSeq (Serial.next s.nextSeq) ≤ 2
      rw [hrel, show Serial.next s.nextSeq = Serial.forward s.nextSeq 1 from rfl,
        Serial.distance_forward_self s.nextSeq (by simp only [Serial.half]; omega)]
      omega
  · exact ⟨State.noConfusion, State.noConfusion⟩

/-- What is queued trails the next number, whatever happens to a session. -/
theorem lasting_trailing (hI : Lasting config port App I) (hformed : ∀ {s}, I s → s.Formed config)
    (hcapacity : config.connectionQueueCapacity < Header.size * 129)
    (honce : config.maxRetransmissions = 0 ∨ config.window = 1) :
    Lasting config port App fun s => I s ∧ Trailing config s where
  begins := by
    intro s flags now hs hflags hroom
    refine ⟨hI.begins now hs hflags hroom, ?_⟩
    have hbegun := hs.formed
    obtain ⟨role, remotePort, channel, options, expected, rfl⟩ := hs
    have hempty : Trailing config { Session.new config role port remotePort channel options with
        expected := expected } :=
      trailing_of_empty rfl (Queue.stored_empty _ _) rfl State.noConfusion
    obtain ⟨m, hreach, hfilled⟩ := hempty.issue hbegun hcapacity (.inr (Queue.stored_empty _ _))
      (p := packet _ flags 0 []) rfl now
    refine ⟨⟨m, hreach, .inl hfilled⟩, .inr fun e he => .inl ?_, fun _ _ => ?_, rfl⟩
    · rw [List.mem_singleton.1 he]
      exact Nat.le_of_eq (rfl : Serial.distance (0 : UInt8) (Serial.next 0) = 1)
    · exact (rfl : Serial.distance (0 : UInt8) (Serial.next 0) = 1)
  raises hs he := by
    refine ⟨hI.raises hs.1 he, ?_⟩
    rw [raise_eq]
    exact { hs.2 with }
  connects hs hst hrole := by
    have hstaying := fun hleaving : Leaving _ => hleaving.1 hst
    refine ⟨hI.connects hs.1 hst hrole, { hs.2 with reach := ?_, flights := ?_, welcome := State.noConfusion }⟩
    · obtain ⟨m, hreach, hfilled⟩ := hs.2.reach
      exact ⟨m, hreach, .inl (hfilled.resolve_right fun h => hstaying h.2)⟩
    · exact hs.2.flights.imp_right fun h e he => .inl ((h e he).resolve_right fun h => hstaying h.2)
  welcomes relSeq hs hst hrole := by
    have hstaying := fun hleaving : Leaving _ => hleaving.1 hst
    refine ⟨hI.welcomes relSeq hs.1 hst hrole,
      { hs.2 with reach := ?_, flights := ?_, welcome := State.noConfusion }⟩
    · obtain ⟨m, hreach, hfilled⟩ := hs.2.reach
      exact ⟨m, hreach, .inl (hfilled.resolve_right fun h => hstaying h.2)⟩
    · exact hs.2.flights.imp_right fun h e he => .inl ((h e he).resolve_right fun h => hstaying h.2)
  absorbs := by
    intro s p q hs hopen hq hport hnear hnew hpush
    refine ⟨hI.absorbs hs.1 hopen hq hport hnear hnew hpush, ?_⟩
    obtain ⟨early, expected, hasGap, events, hfields⟩ := absorb_fields s q p.header.relSeq
    rw [hfields]
    exact { hs.2 with }
  parts := by
    intro s hs hopen
    refine ⟨hI.parts hs.1 hopen, ?_, .inr fun e he => absurd he List.not_mem_nil, State.noConfusion,
      hs.2.config⟩
    obtain ⟨m, hreach, hfilled⟩ := hs.2.reach
    exact ⟨m, hreach, hfilled.imp_right fun h => ⟨h.1, State.noConfusion, State.noConfusion⟩⟩
  resets hs := ⟨hI.resets hs.1,
    trailing_of_empty hs.2.config (Queue.stored_clear _) rfl State.noConfusion⟩
  ends hs := ⟨hI.ends hs.1,
    trailing_of_empty hs.2.config (Queue.stored_clear _) rfl State.noConfusion⟩
  posts := by
    intro s p hs hp hroom
    refine ⟨hI.posts hs.1 hp hroom, hs.2.queue (.inl ?_)⟩
    cases hp with
    | welcoming hst hrole => exact Nat.le_of_eq (hs.2.welcome hst hrole)
    | _ =>
      exact Nat.le_trans (Nat.le_of_eq (Serial.distance_self s.nextSeq)) (Nat.zero_le 1)
  resends := by
    intro s e hs hpos he hroom
    refine ⟨hI.resends hs.1 hpos he hroom, hs.2.queue ?_⟩
    rcases hs.2.flights with hzero | hflights
    · rw [hs.2.config, hzero] at hpos
      exact absurd hpos (Nat.lt_irrefl 0)
    · exact hflights e he
  credits oldest hs hf hrole := ⟨hI.credits oldest hs.1 hf hrole, { hs.2 with
    flights := hs.2.flights.imp_right fun h e he => h e (hf.subset he)
    welcome := fun hst hresponder => absurd (hrole hst) (by rw [hresponder]; exact Role.noConfusion) }⟩
  recounts := by
    intro s f hs hf
    refine ⟨hI.recounts hs.1 hf, { hs.2 with flights := hs.2.flights.imp_right fun h e he => ?_ }⟩
    have hmem : e.packet ∈ s.inFlight.flights.map Flight.packet := hf ▸ List.mem_map_of_mem he
    obtain ⟨e', he', heq⟩ := List.mem_map.1 hmem
    show s.behind e.packet ≤ 1 ∨ s.behind e.packet ≤ 2 ∧ s.Leaving
    rw [← heq]
    exact h e' he'
  dispatches now hs hroom hne hps hqs := by
    have hbase := lasting_formed config port App
    refine ⟨hI.dispatches now hs.1 hroom hne hps hqs,
      (dispatch_of_steps (P := fun s => s.Formed config ∧ s.Trailing config) ?_ ?_ ?_
        ⟨hformed hs.1, hs.2⟩ now hroom hps hqs).2⟩
    · refine fun {s} hs hopen hfits => ⟨hs.1.queue hfits (fun _ => rfl)
        fun hst => absurd hst hopen.not_resetting, hs.2.queue (.inl ?_)⟩
      exact Nat.le_trans (Nat.le_of_eq (Serial.distance_self s.nextSeq)) (Nat.zero_le 1)
    · intro s p q now hs hst hwindow _ hq hfits
      refine ⟨hs.1.issue hfits (by rw [hq]; rfl) (by rw [hst]; decide) now,
        hs.2.launch hs.1 hcapacity honce hst hwindow (by rw [hq]; rfl) now⟩
    · intro s e hs he
      refine ⟨hbase.raises hs.1 he, ?_⟩
      rw [raise_eq]
      exact { hs.2 with }
  closes now hs hst hroom := ⟨hI.closes now hs.1 hst hroom,
    hs.2.leave (hformed hs.1) hcapacity hst rfl now⟩

end NarrowLink.Connection.Session
