import NarrowLink.Proofs.Engine.Lasting
import NarrowLink.Proofs.Engine.Line
import NarrowLink.Proofs.Engine.Supply
import NarrowLink.Proofs.Queue.Sorting
import NarrowLink.Proofs.Session.Trailing

/-!
# Numbers that can be compared

Every queue of an engine orders the packets of a port by serial numbers, which have a meaning as long as
they lie within half the number space (`Order.Near`).  What is received is held to this whatever the
configuration says.  What is sent is not: the transmit queue must have room for no more packets than that,
and neither must the outbound queue of a connection, which must not get copies of older packets either
(`Config.ComparesNumbers`).  Then the numbers in all queues can be compared, whatever happens to an engine
(`comparable_of_comparesNumbers`).
-/

namespace NarrowLink

open Wire

/-- The queues for what is sent have room for the packets of half the number space at most.  The numbers
in the outbound queue of a connection are without a gap only if a connection that sends packets again has
no more than one of them in flight, but a queue that has room for one packet does not need this. -/
def Config.ComparesNumbers (c : Config) : Prop :=
  c.queueCapacity < Header.size * (Serial.half UInt16 + 1) ∧
    (c.connectionQueueCapacity < Header.size * 2 ∨
      c.connectionQueueCapacity < Header.size * (Serial.half UInt8 + 1) ∧
        (c.maxRetransmissions = 0 ∨ c.window = 1))

instance (c : Config) : Decidable c.ComparesNumbers := inferInstanceAs (Decidable (_ ∧ _))

namespace Engine

open Connection (Session)

variable {config : Config}

/-- The numbers in all queues of an engine can be compared. -/
structure Comparable (e : Engine) : Prop where
  transmit : e.desk.transmitter.queue.Comparable
  reassembly : e.desk.reassembly.queue.Comparable
  outbound : ∀ port s, e.connections.session? port = some s → s.outbound.Comparable
  inbound : ∀ port s, e.connections.session? port = some s → s.inbound.Comparable

/-- What a session has queued trails its next number, if there may be more than one packet. -/
def Trails (config : Config) (s : Session) : Prop :=
  Header.size * 2 ≤ config.connectionQueueCapacity → s.Trailing config

theorem Trails.comparable {s : Session} (h : Trails config s) (hs : s.Formed config)
    (hconfig : config.ComparesNumbers) : s.outbound.Comparable := by
  intro port
  rw [hs.order]
  show Serial.Near _
  rcases Nat.lt_or_ge config.connectionQueueCapacity (Header.size * 2) with hlt | hge
  · refine Serial.near_of_length_le ?_
    have hlen := hs.consistent.length_packets_le port
    have hroom := hs.capacity ▸ hs.room
    rw [List.length_map]
    simp only [Header.size] at *
    omega
  · obtain ⟨hcapacity, -⟩ := hconfig.2.resolve_left (Nat.not_lt.2 hge)
    exact (h hge).near hs hcapacity port

theorem comparable_inbound {port : UInt8} {told : Prop} {s : Session} (h : s.Receiving config port told) :
    s.inbound.Comparable := by
  intro port
  rw [h.order]
  obtain ⟨base, hnear⟩ := h.near
  refine ⟨base, fun n hn => ?_⟩
  obtain ⟨p, hp, rfl⟩ := List.mem_map.1 hn
  exact hnear port p hp

theorem comparable_reassembly {r : Reassembly} (h : r.Ordered) : r.queue.Comparable := by
  intro port
  rw [h.order]
  refine ⟨r.awaited.get port, fun n hn => ?_⟩
  obtain ⟨p, hp, rfl⟩ := List.mem_map.1 hn
  exact (h.ascending port).near p hp

/-- What connections hold trails their next numbers. -/
theorem yielding_trails (hconfig : config.Valid) (h : config.ComparesNumbers) :
    Yielding config (IsFragment config) (fun _ => True) (fun _ => True)
      (fun port s => s.Formed config ∧ s.Receiving config port s.Reports) (Trails config) where
  lasts port := by
    have hbase := (Session.lasting_formed config port (IsFragment config)).and
      (Session.lasting_receiving hconfig.window_le port (IsFragment config))
    unfold Trails
    rcases h.2 with hlt | ⟨hcapacity, honce⟩
    · simpa only [Nat.not_le.2 hlt, false_imp_iff, and_true] using hbase
    · have htrailing := Session.lasting_trailing hbase And.left hcapacity honce
      by_cases hmore : Header.size * 2 ≤ config.connectionQueueCapacity
      · simpa only [hmore, true_imp_iff] using htrailing
      · simpa only [hmore, false_imp_iff, and_true] using hbase
  told hs hmore := { hs hmore with }
  hands _ _ _ := trivial
  ends _ _ _ _ _ := trivial
  refills _ hs hq hmore := (hs hmore).refill hq
  fetches hs hmore := { hs hmore with }
  rejects _ _ := trivial
  gathers _ := trivial

/-- The transmit queue stays a line, and reassembly stays in order, whatever happens to an engine. -/
theorem running_lined (h : config.queueCapacity < Header.size * (Serial.half UInt16 + 1)) :
    Running config (fun _ => True) (fun _ x c _ => Lined config x c) Reassembly.Ordered where
  accepting _ := {
    submits := fun h _ hok => h.submit hok
    appends := fun p h => h.append p }
  datagrams {_ _ _ c _ ps} hx _ hok := by
    rw [Numbering.numberDatagram_eq, Numbering.counters_number] at hok ⊢
    exact (hx.congr (Numbering.next_count_of_frame (n := .datagram) (m := .transmit) (fun _ => rfl) c
      ps)).submit hok
  carries _ _ hx _ _ := hx.congr (Numbering.next_count_of_frame (n := .connection) (m := .transmit)
    (fun _ => rfl) _ _)
  works hx ha hstart :=
    hx.turn h (Transmitter.turns_of_idle _ ha) (hx.alone.apply fun he _ => hstart he)
  calls c hr := hr.apply c
  switches _ _ hr := ⟨hr.order, hr.ascending⟩

/-- If the queues are sized for it, the numbers in all of them can be compared after every run of an engine. -/
theorem comparable_of_comparesNumbers (hconfig : config.Valid) (h : config.ComparesNumbers)
    (acts : List Act) : ((fresh config).after acts).Comparable := by
  have hkept := (running_lined h.1).keeps_after
    ((yielding_trails hconfig h).supplying (awaits_receiving config)) (lined_new config)
    (Reassembly.ordered_new config) acts
  rw [Chronicle.engine_after] at hkept
  have hsessions : ∀ port s, ((fresh config).after acts).connections.session? port = some s →
      s.Formed config ∧ s.Receiving config port (none = some port) ∧ Trails config s := by
    intro port s hs
    obtain ⟨e, he, rfl⟩ := Option.map_eq_some_iff.1 hs
    obtain ⟨⟨⟨hformed, hreceiving⟩, htrails⟩, -⟩ := hkept.sessions port e he
    exact ⟨hformed, hreceiving.mono of_decide_eq_true, htrails⟩
  exact {
    transmit := fun port => by
      have horder := hkept.owner.traffic.order
      rw [show ((fresh config).after acts).desk.transmitter.queue.order = .transmit from horder]
      exact hkept.owner.traffic.near h.1 port
    reassembly := comparable_reassembly hkept.owner.reassembly
    outbound := fun port s hs => (hsessions port s hs).2.2.comparable (hsessions port s hs).1 h
    inbound := fun port s hs => comparable_inbound (hsessions port s hs).2.1 }

end Engine

end NarrowLink
