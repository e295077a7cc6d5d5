import NarrowLink.Proofs.Session.Formed

/-!
# The packets that a session holds

What a session has queued for the transmitter, and what it keeps in flight, are packets that it made or
the fragments of messages.  If all of those are of one sort, then whatever happens to the session, it
holds no others (`lasting_holds`).  A queued packet may be of a sort that depends on how much is queued
in all, as long as more is never worse.
-/

namespace NarrowLink.Connection.Session

open Wire

/-- All packets in flight are of one sort, and those that are queued for the transmitter are of another
one, among so many bytes. -/
structure Holds (config : Config) (F : Packet → Prop) (Q : Nat → Packet → Prop) (s : Session) : Prop where
  config : s.config = config
  outbound : ∀ p ∈ s.outbound.stored, Q s.outbound.used p
  inFlight : ∀ e ∈ s.inFlight.flights, F e.packet

/-- The packets that connections make are of these sorts, if the connections have some property. -/
structure Makes (config : Config) (App : Packet → Prop) (I : Session → Prop) (F : Packet → Prop)
    (Q : Nat → Packet → Prop) : Prop where
  grows : ∀ {m n : Nat} {p : Packet}, m ≤ n → Q m p → Q n p
  queues : ∀ {p : Packet} (n : Nat), F p → Q n p
  control : ∀ (s : Session) (flags : Flags) (relSeq : UInt8), F (s.packet flags relSeq [])
  /-- A report is queued together with some other packet. -/
  report : ∀ {s : Session} {n : Nat}, I s → s.config = config → s.Open →
    (s.packet .reporting s.nextSeq (Sack.encode s.gapRanges)).wireLength + Header.size ≤ n →
    Q n (s.packet .reporting s.nextSeq (Sack.encode s.gapRanges))
  again : ∀ (s : Session) {p : Packet}, F p → F (s.again p)
  message : ∀ (s : Session) {p q : Packet}, App p → Renumbered (s.stamped s.nextSeq p) q → F q

variable {config : Config} {port : UInt8} {App : Packet → Prop} {I : Session → Prop}
  {F : Packet → Prop} {Q : Nat → Packet → Prop} {s : Session}

theorem Holds.queue (h : s.Holds config F Q) (hm : Makes config App I F Q) {p : Packet}
    (hp : Q (s.outbound.used + p.wireLength) p) :
    Holds config F Q { s with outbound := s.outbound.add p } where
  config := h.config
  outbound x hx := by
    rcases List.mem_cons.1 ((s.outbound.stored_add p).mem_iff.1 hx) with rfl | hx
    · exact hp
    · exact hm.grows (Nat.le_add_right _ _) (h.outbound x hx)
  inFlight := h.inFlight

theorem Holds.issue (h : s.Holds config F Q) (hm : Makes config App I F Q) {p : Packet} (hp : F p)
    (now : Nat) : Holds config F Q (s.issue p now) where
  config := h.config
  outbound := (h.queue hm (hm.queues _ hp)).outbound
  inFlight e he := by
    rcases List.mem_append.1 he with he | he
    · exact h.inFlight e he
    · rw [List.mem_singleton.1 he]
      exact hp

theorem Holds.refill (h : s.Holds config F Q) (hs : s.Formed config) {q : Queue}
    (hq : s.outbound.Refills q) : Holds config F Q { s with outbound := q } := by
  refine ⟨h.config, fun p hp => ?_, h.inFlight⟩
  rcases hq.stored with hnil | hperm
  · rw [show ({ s with outbound := q } : Session).outbound.stored = [] from hnil] at hp
    exact absurd hp List.not_mem_nil
  · have hused : q.used = s.outbound.used := by
      rw [hq.consistent.used_eq, hs.consistent.used_eq, wireLengths_perm hperm]
    show Q q.used p
    rw [hused]
    exact h.outbound p (hperm.mem_iff.1 hp)

theorem Holds.discard (h : s.Holds config F Q) (state : State) :
    Holds config F Q { s.discard with state := state } where
  config := h.config
  outbound p hp := by
    rw [show ({ s.discard with state := state } : Session).outbound.stored = [] from
      Queue.stored_clear s.outbound] at hp
    exact absurd hp List.not_mem_nil
  inFlight _ he := absurd he List.not_mem_nil

theorem Unbegun.holds (h : s.Unbegun config port) : s.Holds config F Q := by
  obtain ⟨role, remotePort, channel, options, expected, rfl⟩ := h
  refine ⟨rfl, fun p hp => ?_, fun e he => absurd he List.not_mem_nil⟩
  rw [show ({ Session.new config role port remotePort channel options with
    expected := expected } : Session).outbound.stored = [] from Queue.stored_empty _ _] at hp
  exact absurd hp List.not_mem_nil

/-- A message is queued behind the report that is due. -/
theorem Holds.dispatch (h : s.Holds config F Q) (hm : Makes config App I F Q) (hI : I s)
    {ps qs : List Packet} (hroom : s.HasRoom ps) (hne : ps ≠ []) (hps : ∀ p ∈ ps, App p)
    (hqs : List.Forall₂ Renumbered (s.outgoing ps) qs) (now : Nat) :
    (s.dispatch qs now).Holds config F Q := by
  have hsent : ∀ q ∈ qs, F q := by
    intro q hq
    obtain ⟨i, hi, rfl⟩ := List.getElem_of_mem hq
    have hlen := hqs.length_eq
    have hrenumbered := hqs.get (by omega) hi
    have hi' : i < ps.length := by
      rw [← s.length_outgoing ps]
      omega
    simp only [outgoing, List.get_eq_getElem, List.getElem_mapIdx] at hrenumbered
    exact hm.message { s with nextSeq := Serial.forward s.nextSeq i } (hps _ (List.getElem_mem hi'))
      hrenumbered
  have hbytes : Header.size ≤ wireLengths qs := by
    have hpos : 0 < qs.length := by
      rw [← hqs.length_eq, s.length_outgoing]
      exact List.length_pos_iff.2 hne
    exact Nat.le_trans (Nat.le_mul_of_pos_right _ hpos) (size_mul_length_le qs)
  let sent : Session := { s with
    nextSeq := Serial.forward s.nextSeq qs.length
    inFlight := ⟨s.inFlight.flights ++ qs.map fun q => ⟨q, now, 0⟩⟩
    outbound := (s.gapReport.toList ++ qs).foldl Queue.add s.outbound }
  have hholds : sent.Holds config F Q := by
    refine ⟨h.config, fun p hp => ?_, fun e he => ?_⟩
    · have hused : sent.outbound.used =
          s.outbound.used + wireLengths s.gapReport.toList + wireLengths qs := by
        show ((s.gapReport.toList ++ qs).foldl Queue.add s.outbound).used = _
        rw [Queue.used_foldl_add, wireLengths_append, Nat.add_assoc]
      rw [hused]
      have hstored := (s.outbound.stored_foldl_add (s.gapReport.toList ++ qs)).mem_iff.1 hp
      rcases List.mem_append.1 hstored with hp | hp
      · rcases List.mem_append.1 hp with hp | hp
        · obtain ⟨-, rfl⟩ := gapReport_eq_some (Option.mem_toList.1 hp)
          rw [Option.mem_toList.1 hp, Option.toList_some, wireLengths_cons, wireLengths_nil]
          exact hm.report hI h.config (.inl hroom.connected) (by omega)
        · exact hm.queues _ (hsent p hp)
      · exact hm.grows (by omega) (h.outbound p hp)
    · rcases List.mem_append.1 he with he | he
      · exact h.inFlight e he
      · obtain ⟨q, hq, rfl⟩ := List.mem_map.1 he
        exact hsent q hq
  show (sent.raise _).Holds config F Q
  rw [raise_eq]
  exact { hholds with }

/-- A session holds nothing but the packets that connections make. -/
theorem lasting_holds (hI : Lasting config port App I) (hm : Makes config App I F Q) :
    Lasting config port App fun s => I s ∧ Holds config F Q s where
  begins now hs hflags hroom :=
    ⟨hI.begins now hs hflags hroom, { hs.holds.issue hm (hm.control _ _ _) now with }⟩
  raises hs he := by
    refine ⟨hI.raises hs.1 he, ?_⟩
    rw [raise_eq]
    exact { hs.2 with }
  connects hs hst hrole := ⟨hI.connects hs.1 hst hrole, { hs.2 with }⟩
  welcomes relSeq hs hst hrole := ⟨hI.welcomes relSeq hs.1 hst hrole, { hs.2 with }⟩
  absorbs := by
    intro s p q hs hopen hq hport hnear hnew hpush
    refine ⟨hI.absorbs hs.1 hopen hq hport hnear hnew hpush, ?_⟩
    obtain ⟨early, expected, hasGap, events, hfields⟩ := absorb_fields s q p.header.relSeq
    rw [hfields]
    exact { hs.2 with }
  parts hs hopen := ⟨hI.parts hs.1 hopen, { hs.2 with
    inFlight := fun _ he => absurd he List.not_mem_nil }⟩
  resets hs := ⟨hI.resets hs.1, hs.2.discard .resetting⟩
  ends hs := ⟨hI.ends hs.1, hs.2.discard .disconnected⟩
  posts := by
    intro s p hs hp hroom
    refine ⟨hI.posts hs.1 hp hroom, hs.2.queue hm ?_⟩
    cases hp with
    | reporting opened behind => exact hm.report hs.1 hs.2.config opened (by omega)
    | _ => exact hm.queues _ (hm.control _ _ _)
  resends hs hpos he hroom := ⟨hI.resends hs.1 hpos he hroom,
    hs.2.queue hm (hm.queues _ (hm.again _ (hs.2.inFlight _ he)))⟩
  credits oldest hs hf hrole := ⟨hI.credits oldest hs.1 hf hrole,
    { hs.2 with inFlight := fun e he => hs.2.inFlight e (hf.subset he) }⟩
  recounts := by
    intro s f hs hf
    refine ⟨hI.recounts hs.1 hf, { hs.2 with inFlight := fun e he => ?_ }⟩
    have hmem : e.packet ∈ s.inFlight.flights.map Flight.packet := hf ▸ List.mem_map_of_mem he
    obtain ⟨e', he', heq⟩ := List.mem_map.1 hmem
    rw [← heq]
    exact hs.2.inFlight e' he'
  dispatches now hs hroom hne hps hqs := ⟨hI.dispatches now hs.1 hroom hne hps hqs,
    hs.2.dispatch hm hs.1 hroom hne hps hqs now⟩
  closes now hs hst hroom :=
    ⟨hI.closes now hs.1 hst hroom, { hs.2.issue hm (hm.control _ _ _) now with }⟩

end NarrowLink.Connection.Session
