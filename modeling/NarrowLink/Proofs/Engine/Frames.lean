import NarrowLink.Proofs.Engine.Lasting
import NarrowLink.Proofs.Engine.Supply
import NarrowLink.Proofs.Session.Holding
import NarrowLink.Proofs.Session.Reporting

/-!
# Frames fit the link

Messages are cut to the length of a frame, and most of what connections send by themselves is a header
and nothing else.  Only a selective acknowledgement grows with the number of gaps.  It waits behind an
acknowledgement or in front of data, in the queue of its connection and in the transmit queue, so it
can not get longer than these have room for.  If no report of this kind exceeds a frame
(`Config.FitsReports`), no packet does (`fitsLink_of_fitsReports`).
-/

namespace NarrowLink

open Wire

namespace Transmitter

variable {t : Transmitter}

theorem capacity_submitAll {t' : Transmitter} {ps : List Packet} (h : t.submitAll ps = (.ok (), t')) :
    t'.queue.capacity = t.queue.capacity ∧ t.queue.used + wireLengths ps ≤ t.queue.capacity := by
  unfold submitAll Queue.pushAll at h
  split at h
  · rename_i q hq
    split at hq
    · rename_i hfits
      cases h
      cases hq
      exact ⟨Queue.capacity_foldl_add _ _, of_decide_eq_true hfits⟩
    · cases hq
  · cases h

end Transmitter

/-- The length of a selective acknowledgement of so many ranges. -/
def reportLength (count : Nat) : Nat := Header.size + Sack.size count

/-- A report is no longer than a frame, as far as the window has gaps, the inbound queue of a connection a
packet for each range, and the queues on the way to the link room for the report and one more header. -/
def Config.FitsReports (c : Config) : Prop :=
  ∀ count ≤ c.window / 2, Header.size * count ≤ c.connectionQueueCapacity →
    reportLength count + Header.size ≤ min c.connectionQueueCapacity c.queueCapacity →
    reportLength count ≤ c.mtu

instance (c : Config) : Decidable c.FitsReports :=
  inferInstanceAs (Decidable (∀ count ≤ c.window / 2, _ → _ → _))

namespace Engine

open Connection (Renumbered Session Table)

variable {config : Config}

/-- A report of a connection that is queued together with some other packet, `n` bytes in all. -/
structure LongReport (config : Config) (n : Nat) (p : Packet) : Prop where
  ranges : ∃ count ≤ config.window / 2, p.wireLength = reportLength count ∧
    Header.size * count ≤ config.connectionQueueCapacity
  accompanied : p.wireLength + Header.size ≤ n

/-- All packets fit a frame, or are reports that the queue of a connection has room for. -/
def Sendable (config : Config) (ps : List Packet) : Prop :=
  ∀ p ∈ ps, p.wireLength ≤ config.mtu ∨
    LongReport config (wireLengths ps) p ∧ wireLengths ps ≤ config.connectionQueueCapacity

theorem Sendable.wireLength_le {ps : List Packet} (h : Sendable config ps) (hreports : config.FitsReports)
    (hroom : wireLengths ps ≤ config.queueCapacity) {p : Packet} (hp : p ∈ ps) :
    p.wireLength ≤ config.mtu := by
  rcases h p hp with hle | ⟨⟨⟨count, hcount, hlength, hinbound⟩, hall⟩, hconnection⟩
  · exact hle
  · rw [hlength] at hall ⊢
    exact hreports count hcount hinbound
      (Nat.le_min.2 ⟨Nat.le_trans hall hconnection, Nat.le_trans hall hroom⟩)

/-- Fragments of a message fit a frame. -/
theorem Fragmented.wireLength_le (hconfig : config.Valid) {kind : Kind} {ps : List Packet}
    (h : Fragmented config kind ps) : ∀ p ∈ ps, p.wireLength ≤ config.mtu := by
  obtain ⟨src, dst, channel, message, hmessage, rfl⟩ := h
  intro p hp
  have hpayload := (cut_fragments hconfig hmessage src dst kind channel).payload_le p hp
  have hmtu := hconfig.mtu_gt
  unfold Config.maxPayload at hpayload
  unfold Packet.wireLength
  omega

/-- The packets that connections hold fit a frame, or are reports. -/
theorem yielding_sendable (hconfig : config.Valid) :
    Yielding config (IsFragment config) (fun p => p.wireLength ≤ config.mtu) (Sendable config)
      (fun port s => s.Formed config ∧ s.Receiving config port s.Reports)
      (Session.Holds config (fun p => p.wireLength ≤ config.mtu) fun n p =>
        p.wireLength ≤ config.mtu ∨ LongReport config n p) where
  lasts port := by
    have hbase := (Session.lasting_formed config port (IsFragment config)).and
      (Session.lasting_receiving hconfig.window_le port (IsFragment config))
    refine Session.lasting_holds hbase {
      grows := fun hle hp => hp.imp_right fun h => ⟨h.ranges, Nat.le_trans h.accompanied hle⟩
      queues := fun _ hp => .inl hp
      control := fun _ _ _ => Nat.le_of_lt hconfig.mtu_gt
      report := fun {s n} hs _ hopen hn => .inr ⟨?_, hn⟩
      again := fun _ _ hp => hp
      message := fun s p q hp hq => ?_ }
    · obtain ⟨hwindow, hinbound⟩ := hs.2.gapRanges_le hopen hconfig.window_le
      exact ⟨_, by omega, s.wireLength_report, hinbound⟩
    · obtain ⟨ps, hps, hp⟩ := hp
      rw [hq]
      exact hps.wireLength_le hconfig p hp
  told hs := { hs with }
  hands hformed hs hperm p hp := by
    have hused := hformed.consistent.used_eq
    rw [← wireLengths_perm hperm] at hused
    rw [← hused]
    refine (hs.outbound p (hperm.mem_iff.1 hp)).imp_right fun hlong => ⟨hlong, ?_⟩
    rw [← hformed.capacity]
    exact hformed.room
  ends hformed _ hst p hp := by
    have hnil := (hformed.ending hst).2 p hp
    unfold Packet.wireLength
    rw [hnil]
    exact Nat.le_of_lt hconfig.mtu_gt
  refills hformed hs hq := hs.refill hformed hq
  fetches hs := { hs with }
  rejects _ _ := Nat.le_of_lt hconfig.mtu_gt
  gathers h p hp := .inl (h p hp)

/-- All packets that the transmit queue has accepted fit a frame. -/
structure Framed (config : Config) (x : Transmitter) (batches : List (List Packet)) : Prop where
  capacity : x.queue.capacity = config.queueCapacity
  stock : ∀ p ∈ x.stock, p.wireLength ≤ config.mtu
  batches : ∀ b ∈ batches, ∀ p ∈ b, p.wireLength ≤ config.mtu

variable {x x' : Transmitter} {batches : List (List Packet)} {ps : List Packet}

theorem Framed.submit (h : Framed config x batches) (hps : ∀ p ∈ ps, p.wireLength ≤ config.mtu)
    (hok : x.submitAll ps = (.ok (), x')) : Framed config x' (batches ++ [ps]) := by
  have hstock := x.stock_apply (.submitAll ps)
  simp only [Transmitter.accepts, Transmitter.apply, hok] at hstock
  refine ⟨(Transmitter.capacity_submitAll hok).1.trans h.capacity, fun p hp => ?_, fun b hb => ?_⟩
  · rcases List.mem_append.1 (hstock.mem_iff.2 (List.mem_append_left _ hp)) with hp | hp
    · exact hps p hp
    · exact h.stock p hp
  · rcases List.mem_append.1 hb with hb | hb
    · exact h.batches b hb
    · rw [List.mem_singleton.1 hb]
      exact hps

theorem Framed.work (h : Framed config x batches) {a : Transmitter.Act} (ha : a.Idle) :
    Framed config (x.apply a) batches where
  capacity := (x.turns_of_idle ha).capacity.trans h.capacity
  stock p hp := h.stock p ((x.turns_of_idle ha).mem_stock hp)
  batches := h.batches

/-- Packets keep their lengths when they are numbered. -/
theorem forall_wireLength_number {α : Type} [Serial α] (n : Numbering α)
    (hwrite : ∀ a p, (n.write a p).wireLength = p.wireLength) (c : ByteMap Counters) {m : Nat}
    (hps : ∀ p ∈ ps, p.wireLength ≤ m) : ∀ p ∈ (n.number c ps).1, p.wireLength ≤ m :=
  n.forall_number (fun a p hp => by rwa [hwrite]) c hps

/-- If no report exceeds a frame, nothing does, whatever happens to an engine. -/
theorem running_framed (hconfig : config.Valid) (hreports : config.FitsReports) :
    Running config (Sendable config) (fun _ x _ batches => Framed config x batches) fun _ => True where
  accepting messages := {
    submits := by
      intro x x' c batches ps h hps hok
      rw [Numbering.numberTransmit_eq] at hok ⊢
      have hroom := (Transmitter.capacity_submitAll hok).2
      have hsame : wireLengths (Numbering.transmit.number c ps).1 = wireLengths ps := by
        unfold wireLengths
        rw [Numbering.transmit.map_number fun _ _ => rfl]
      rw [hsame, h.capacity] at hroom
      exact h.submit (forall_wireLength_number _ (fun _ _ => rfl) c
        fun p hp => hps.wireLength_le hreports (by omega) hp) hok
    appends := fun _ _ => trivial }
  datagrams := by
    intro messages x x' c batches ps h hps hok
    rw [Numbering.numberTransmit_eq, Numbering.numberDatagram_eq] at hok ⊢
    exact h.submit (forall_wireLength_number _ (fun _ _ => rfl) _
      (forall_wireLength_number _ (fun _ _ => rfl) c (hps.wireLength_le hconfig))) hok
  carries _ _ h _ _ := h
  works h ha _ := h.work ha
  calls _ _ := trivial
  switches _ _ _ := trivial

/-- Every packet that the transmit queue has accepted, and every frame that is offered to the link, has the
length of a frame at most. -/
structure Chronicle.FitsLink (config : Config) (c : Chronicle) : Prop where
  accepted : ∀ b ∈ c.batches, ∀ p ∈ b, p.wireLength ≤ config.mtu
  offered : ∀ p, .offering p ∈ c.engine.desk.transmitter.workers → p.encode.length ≤ config.mtu

/-- If no report exceeds a frame, every packet fits the link after every run. -/
theorem fitsLink_of_fitsReports (hconfig : config.Valid) (hreports : config.FitsReports)
    (acts : List Act) : (Chronicle.after config acts).FitsLink config := by
  have hsupplying := (yielding_sendable hconfig).supplying (awaits_receiving config)
  have hnew : Framed config (.new config) [] := {
    capacity := rfl
    stock := fun p hp => by
      rw [show (Transmitter.new config).stock = [] from
        (List.append_nil _).trans (Queue.stored_empty _ _)] at hp
      exact absurd hp List.not_mem_nil
    batches := fun _ hb => absurd hb List.not_mem_nil }
  have hframed := ((running_framed hconfig hreports).keeps_after hsupplying hnew trivial acts).owner.traffic
  refine ⟨hframed.batches, fun p hp => ?_⟩
  rw [Packet.length_encode]
  exact hframed.stock p (List.mem_append_right _ (Transmitter.mem_held_of_offering hp))

end Engine

end NarrowLink
