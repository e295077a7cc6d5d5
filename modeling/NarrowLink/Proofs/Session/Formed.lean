import NarrowLink.Proofs.Session.Lasting

/-!
# The outbound queue of a session

Every session has an outbound queue in which bytes and ports are accounted for, ordered by the numbers of
the connection and bounded as the configuration says, and a reset waits in it only while the connection
is being reset (`Formed`).  So whoever takes what is queued takes all of it, unless it is the reset that
ends the connection (`fetchOutbound_cases`), and all of it fits when it is given back (`giveBack_eq`).
-/

namespace NarrowLink

open Wire

namespace Queue

variable {q q' : Queue} {p : Packet}

/-- A queue with the same packets, in whatever order they stand in line. -/
structure Refills (q q' : Queue) : Prop where
  order : q'.order = q.order
  capacity : q'.capacity = q.capacity
  consistent : q'.Consistent
  stored : q'.stored = [] ∨ q'.stored.Perm q.stored

theorem Refills.used_le (h : q.Refills q') (hq : q.Consistent) : q'.used ≤ q.used := by
  rw [h.consistent.used_eq, hq.used_eq]
  rcases h.stored with hnil | hperm
  · rw [hnil]
    exact Nat.zero_le _
  · rw [wireLengths_perm hperm]

theorem Refills.mem (h : q.Refills q') (hp : p ∈ q'.stored) : p ∈ q.stored := by
  rcases h.stored with hnil | hperm
  · rw [hnil] at hp
    exact absurd hp List.not_mem_nil
  · exact hperm.mem_iff.1 hp

end Queue

namespace Connection.Session

variable {config : Config} {App : Packet → Prop} {s : Session}

theorem Open.not_resetting (h : s.Open) : s.state ≠ .resetting := by
  rcases h with hst | hst <;> rw [hst] <;> decide

/-- The outbound queue of a session is in order. -/
structure Formed (config : Config) (s : Session) : Prop where
  order : s.outbound.order = .reliability
  capacity : s.outbound.capacity = config.connectionQueueCapacity
  consistent : s.outbound.Consistent
  room : s.outbound.used ≤ s.outbound.capacity
  resets : s.state ≠ .resetting → ∀ p ∈ s.outbound.stored, p.header.flags.rst = false
  flying : ∀ e ∈ s.inFlight.flights, e.packet.header.flags.rst = false
  /-- A connection that is being reset has nothing left to say. -/
  ending : s.state = .resetting →
    s.inFlight.flights = [] ∧ ∀ p ∈ s.outbound.stored, p.payload = []
  config : s.config = config

theorem Formed.queue (h : s.Formed config) {p : Packet} (hroom : s.Fits p)
    (hrst : s.state ≠ .resetting → p.header.flags.rst = false)
    (hending : s.state = .resetting → p.payload = []) :
    Formed config { s with outbound := s.outbound.add p } where
  config := h.config
  order := h.order
  capacity := h.capacity
  consistent := h.consistent.add p
  room := hroom
  resets hst x hx := by
    rcases List.mem_cons.1 ((s.outbound.stored_add p).mem_iff.1 hx) with rfl | hx
    · exact hrst hst
    · exact h.resets hst x hx
  flying := h.flying
  ending hst := by
    refine ⟨(h.ending hst).1, fun x hx => ?_⟩
    rcases List.mem_cons.1 ((s.outbound.stored_add p).mem_iff.1 hx) with rfl | hx
    · exact hending hst
    · exact (h.ending hst).2 x hx

theorem Formed.issue (h : s.Formed config) {p : Packet} (hroom : s.Fits p)
    (hrst : p.header.flags.rst = false) (hst : s.state ≠ .resetting) (now : Nat) :
    Formed config (s.issue p now) := by
  have hqueued := h.queue hroom (fun _ => hrst) fun he => absurd he hst
  refine { hqueued with flying := fun e he => ?_, ending := fun he => absurd he hst }
  rcases List.mem_append.1 he with he | he
  · exact h.flying e he
  · rw [List.mem_singleton.1 he]
    exact hrst

theorem Formed.discard (h : s.Formed config) (state : State) :
    Formed config { s.discard with state := state } where
  config := h.config
  order := h.order
  capacity := h.capacity
  consistent := Queue.consistent_clear s.outbound
  room := Nat.zero_le _
  resets _ p hp := by
    rw [show ({ s.discard with state := state } : Session).outbound.stored = [] from
      Queue.stored_clear s.outbound] at hp
    exact absurd hp List.not_mem_nil
  flying _ he := absurd he List.not_mem_nil
  ending _ := ⟨rfl, fun p hp => by
    rw [show ({ s.discard with state := state } : Session).outbound.stored = [] from
      Queue.stored_clear s.outbound] at hp
    exact absurd hp List.not_mem_nil⟩

theorem Unbegun.formed {port : UInt8} (h : s.Unbegun config port) : Formed config s := by
  obtain ⟨role, remotePort, channel, options, expected, rfl⟩ := h
  exact {
    order := rfl
    capacity := rfl
    consistent := Queue.consistent_of_empty
    room := Nat.zero_le _
    resets := fun _ p hp => by
      rw [show ({ Session.new config role port remotePort channel options with
        expected := expected } : Session).outbound.stored = [] from Queue.stored_empty _ _] at hp
      exact absurd hp List.not_mem_nil
    flying := fun _ he => absurd he List.not_mem_nil
    ending := State.noConfusion
    config := rfl }

theorem Formed.refill (h : s.Formed config) {q : Queue} (hq : s.outbound.Refills q) :
    Formed config { s with outbound := q } where
  config := h.config
  order := hq.order.trans h.order
  capacity := hq.capacity.trans h.capacity
  consistent := hq.consistent
  room := by
    show q.used ≤ q.capacity
    rw [hq.capacity]
    exact Nat.le_trans (hq.used_le h.consistent) h.room
  resets hst p hp := h.resets hst p (hq.mem hp)
  flying := h.flying
  ending hst := ⟨(h.ending hst).1, fun p hp => (h.ending hst).2 p (hq.mem hp)⟩

/-- Sessions stay formed whatever happens to them. -/
theorem lasting_formed (config : Config) (port : UInt8) (App : Packet → Prop) :
    Lasting config port App (Formed config) := by
  have hraises : ∀ {s : Session} {e : Event}, s.Formed config → e.Plain → (s.raise e).Formed config := by
    intro s e hs _
    rw [raise_eq]
    exact { hs with }
  exact {
    begins := by
      intro s flags now hs hflags hroom
      have hst : s.state ≠ .resetting := by
        obtain ⟨role, remotePort, channel, options, expected, rfl⟩ := hs
        exact State.noConfusion
      have hissued := hs.formed.issue hroom (by rcases hflags with rfl | rfl <;> rfl) hst now
      exact { hissued with resets := fun _ => hissued.resets hst, ending := State.noConfusion }
    raises := hraises
    connects := fun hs hst _ => { hs with
      resets := fun _ => hs.resets (by rw [hst]; decide)
      ending := State.noConfusion }
    welcomes := fun _ hs hst _ => { hs with
      resets := fun _ => hs.resets (by rw [hst]; decide)
      ending := State.noConfusion }
    absorbs := by
      intro s p q hs hopen _ _ _ _ _
      obtain ⟨early, expected, hasGap, events, hfields⟩ := absorb_fields s q p.header.relSeq
      rw [hfields]
      exact { hs with }
    parts := fun hs hopen => {
      hs with
      resets := fun _ => hs.resets hopen.not_resetting
      flying := fun _ he => absurd he List.not_mem_nil
      ending := State.noConfusion }
    resets := fun hs => hs.discard .resetting
    ends := fun hs => hs.discard .disconnected
    posts := by
      intro s p hs hp hroom
      refine hs.queue hroom (fun hst => ?_) fun hst => ?_
      · cases hp with
        | resetting hresetting => exact absurd hresetting hst
        | _ => rfl
      · cases hp with
        | reporting opened => exact absurd hst opened.not_resetting
        | _ => rfl
    resends := by
      intro s e hs _ he hroom
      refine hs.queue hroom (fun _ => hs.flying _ he) fun hst => ?_
      rw [(hs.ending hst).1] at he
      exact absurd he List.not_mem_nil
    credits := fun _ hs hf _ => { hs with
      flying := fun e he => hs.flying e (hf.subset he)
      ending := fun hst => ⟨List.sublist_nil.1 ((hs.ending hst).1 ▸ hf), (hs.ending hst).2⟩ }
    recounts := by
      intro s f hs hf
      refine { hs with flying := fun e he => ?_, ending := fun hst => ⟨?_, (hs.ending hst).2⟩ }
      · have hmem : e.packet ∈ s.inFlight.flights.map Flight.packet := hf ▸ List.mem_map_of_mem he
        obtain ⟨e', he', heq⟩ := List.mem_map.1 hmem
        rw [← heq]
        exact hs.flying e' he'
      · rw [(hs.ending hst).1] at hf
        exact List.map_eq_nil_iff.1 hf
    dispatches := fun now hs hroom _ hps hqs => dispatch_of_steps
      (fun hs hopen hfits => hs.queue hfits (fun _ => rfl) fun hst => absurd hst hopen.not_resetting)
      (fun now hs hst _ _ hq hfits => hs.issue hfits (by rw [hq]; rfl) (by rw [hst]; decide) now)
      hraises hs now hroom hps hqs
    closes := by
      intro s now hs hst hroom
      have hnot : s.state ≠ .resetting := by
        rw [hst]
        decide
      have hissued := hs.issue hroom rfl hnot now
      exact { hissued with resets := fun _ => hissued.resets hnot, ending := State.noConfusion } }

/-! ## Taking what is queued -/

/-- Whoever takes what is queued takes all of it, unless a reset ends the connection. -/
theorem fetchOutboundUpTo_cases {n : Nat} (hq : s.outbound.Consistent)
    (hn : s.outbound.length ≤ n) :
    (∃ ps q, s.fetchOutboundUpTo n = (ps, { s with outbound := q }) ∧ s.outbound.Refills q ∧
        q.stored = [] ∧ ps.Perm s.outbound.stored ∧
        (s.state = .resetting → ∀ p ∈ ps, p.header.flags.rst = false)) ∨
      ∃ ps q, s.fetchOutboundUpTo n = (ps, { s with outbound := q }.moveTo .disconnected) ∧
        s.state = .resetting ∧ ∀ p ∈ ps, p ∈ s.outbound.stored := by
  have hnothing : s.outbound.stored = [] → ∃ ps q, ([], s) = (ps, { s with outbound := q }) ∧
      s.outbound.Refills q ∧ q.stored = [] ∧ ps.Perm s.outbound.stored ∧
      (s.state = .resetting → ∀ p ∈ ps, p.header.flags.rst = false) := fun hnil =>
    ⟨[], s.outbound, rfl, ⟨rfl, rfl, hq, .inl hnil⟩, hnil, by rw [hnil],
      fun _ p hp => absurd hp List.not_mem_nil⟩
  induction n generalizing s with
  | zero =>
    refine .inl (hnothing (List.length_eq_zero_iff.1 ?_))
    rw [Queue.length_stored]
    omega
  | succ n ih =>
    unfold fetchOutboundUpTo
    cases hpop : s.outbound.popNext with
    | none => exact .inl (hnothing (hq.popNext_eq_none_iff.1 hpop))
    | some taken =>
      obtain ⟨p, q⟩ := taken
      have hperm := Queue.stored_popNext hpop
      simp only
      by_cases hlast : p.header.flags.rst = true ∧ s.state = .resetting
      · rw [if_pos hlast]
        refine .inr ⟨[p], q, rfl, hlast.2, fun x hx => ?_⟩
        rw [List.mem_singleton.1 hx]
        exact hperm.mem_iff.2 List.mem_cons_self
      · rw [if_neg hlast]
        have hqlen : q.length ≤ n := by
          have hlen := hperm.length_eq
          rw [List.length_cons, Queue.length_stored, Queue.length_stored] at hlen
          omega
        have hqcons := hq.popNext hpop
        rcases ih (s := { s with outbound := q }) hqcons hqlen fun hnil =>
            ⟨[], q, rfl, ⟨rfl, rfl, hqcons, .inl hnil⟩, hnil, by rw [hnil],
              fun _ p hp => absurd hp List.not_mem_nil⟩ with
          ⟨ps, q', he, hrefills, hnil, hps, hplain⟩ | ⟨ps, q', he, hst, hps⟩
        · left
          refine ⟨p :: ps, q', by rw [he], ?_, hnil, (hps.cons p).trans hperm.symm, fun hst x hx => ?_⟩
          · exact ⟨hrefills.order.trans (Queue.order_popNext hpop),
              hrefills.capacity.trans (Queue.capacity_popNext hpop), hrefills.consistent, .inl hnil⟩
          · rcases List.mem_cons.1 hx with rfl | hx
            · exact Bool.not_eq_true _ ▸ fun hrst => hlast ⟨hrst, hst⟩
            · exact hplain hst x hx
        · right
          refine ⟨p :: ps, q', by rw [he], hst, fun x hx => ?_⟩
          rcases List.mem_cons.1 hx with rfl | hx
          · exact hperm.mem_iff.2 List.mem_cons_self
          · exact hperm.mem_iff.2 (List.mem_cons_of_mem p (hps x hx))

theorem Formed.fetchOutbound_cases (h : s.Formed config) :
    (∃ ps q, s.fetchOutbound = (ps, { s with outbound := q }) ∧ s.outbound.Refills q ∧
        q.stored = [] ∧ ps.Perm s.outbound.stored ∧ ∀ p ∈ ps, p.header.flags.rst = false) ∨
      ∃ ps q, s.fetchOutbound = (ps, { s with outbound := q }.moveTo .disconnected) ∧
        s.state = .resetting ∧ ∀ p ∈ ps, p ∈ s.outbound.stored := by
  rcases fetchOutboundUpTo_cases h.consistent (Nat.le_refl _) with
    ⟨ps, q, he, hrefills, hnil, hperm, hplain⟩ | hends
  · refine .inl ⟨ps, q, he, hrefills, hnil, hperm, fun p hp => ?_⟩
    by_cases hst : s.state = .resetting
    · exact hplain hst p hp
    · exact h.resets hst p (hperm.mem_iff.1 hp)
  · exact .inr hends

/-- Packets that fit are given back, every one of them. -/
theorem giveBack_eq {ps : List Packet} (h : s.outbound.used + wireLengths ps ≤ s.outbound.capacity) :
    s.giveBack ps = { s with outbound := ps.foldl Queue.add s.outbound } := by
  induction ps generalizing s with
  | nil => rfl
  | cons p ps ih =>
    rw [wireLengths_cons] at h
    have hpush : s.outbound.push p = .ok (s.outbound.add p) :=
      Queue.push_eq_ok_iff.2 ⟨by omega, rfl⟩
    unfold giveBack
    rw [hpush]
    exact ih (s := { s with outbound := s.outbound.add p })
      (show s.outbound.used + p.wireLength + _ ≤ s.outbound.capacity by omega)

/-- What was taken is given back. -/
theorem Formed.giveBack_taken (h : s.Formed config) {ps : List Packet} {q : Queue}
    (hrefills : s.outbound.Refills q) (hnil : q.stored = []) (hps : ps.Perm s.outbound.stored) :
    ∃ q', ({ s with outbound := q } : Session).giveBack ps = { s with outbound := q' } ∧
      s.outbound.Refills q' ∧ q'.stored.Perm s.outbound.stored := by
  have hperm : (ps.foldl Queue.add q).stored.Perm s.outbound.stored := by
    have hall := q.stored_foldl_add ps
    rw [hnil, List.append_nil] at hall
    exact hall.trans hps
  refine ⟨ps.foldl Queue.add q, ?_, ⟨?_, ?_, hrefills.consistent.foldl_add ps, .inr hperm⟩, hperm⟩
  · refine giveBack_eq ?_
    show q.used + _ ≤ q.capacity
    rw [hrefills.consistent.used_eq, hnil, wireLengths_nil, Nat.zero_add, hrefills.capacity,
      wireLengths_perm hps, ← h.consistent.used_eq]
    exact h.room
  · rw [Queue.order_foldl_add]
    exact hrefills.order
  · rw [Queue.capacity_foldl_add]
    exact hrefills.capacity

end Connection.Session

end NarrowLink
