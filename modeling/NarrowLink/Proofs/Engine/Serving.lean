import NarrowLink.Proofs.Engine.Gapless
import NarrowLink.Proofs.Session.Replying
import NarrowLink.Proofs.Transmitter.Waiting
import NarrowLink.Proofs.Wire.Format

/-!
# An engine that serves one connection

How the engine of some configuration can be brought into some state is told by a run that has one connection,
between its port 1 and port 2 of the peer (`Serving`).  The steps of such runs are here: what the
connection does is passed on to the transmit queue if there is room, and stays with the connection if
there is none (`Forwarded`, `Serving.calls`), and the transmit queue is filled by packets that nobody
awaits (`Serving.fills`) and emptied by the link (`Serving.drains`).
-/

namespace NarrowLink

open Wire

/-- The transmit queue has room for a header. -/
theorem Config.Valid.size_le_queueCapacity {config : Config} (h : config.Valid) :
    Header.size ≤ config.queueCapacity :=
  Nat.le_trans (Nat.le_of_lt h.mtu_gt) h.mtu_le_queueCapacity

/-- The queue of a connection has room for a header. -/
theorem Config.Valid.size_le_connectionQueueCapacity {config : Config} (h : config.Valid) :
    Header.size ≤ config.connectionQueueCapacity :=
  Nat.le_trans (Nat.le_of_lt h.mtu_gt) h.mtu_le_connectionQueueCapacity

namespace Engine

open Connection (Entry Event Options Session Table)

/-! ## The desk -/

/-- Both options of a connection. -/
def bothOptions : Options := { retransmit := true, selectiveAck := true }

/-- The desk serves port 1, and its worker is ready for packets. -/
structure Desk.OnDuty (config : Config) (d : Desk) : Prop where
  active : d.active = true
  ready : d.transmitter.Ready
  capacity : d.transmitter.queue.capacity = config.queueCapacity
  bound : d.bindings.get 1 = some ⟨0, 2, bothOptions⟩
  resets : d.heldResets = []

/-- The desk once it has queued packets. -/
def Desk.queued (d : Desk) (ps : List Packet) : Desk :=
  { d with
    transmitter := { d.transmitter with
      queue := (numberTransmit d.counters ps).1.foldl Queue.add d.transmitter.queue }
    counters := (numberTransmit d.counters ps).2 }

variable {config : Config} {d : Desk} {ps : List Packet}

theorem wireLengths_numberTransmit (c : ByteMap Counters) (ps : List Packet) :
    wireLengths (Desk.numberTransmit c ps).1 = wireLengths ps := by
  rw [Numbering.numberTransmit_eq]
  unfold wireLengths
  rw [Numbering.transmit.map_number fun _ _ => rfl]

theorem submit_of_fits
    (h : d.transmitter.queue.used + wireLengths ps ≤ d.transmitter.queue.capacity) :
    d.submit ps = (.ok (), d.queued ps) := by
  unfold Desk.submit
  simp only
  rw [Transmitter.submitAll_of_fits (by rwa [wireLengths_numberTransmit])]
  rfl

theorem submit_of_not_fits
    (h : ¬ d.transmitter.queue.used + wireLengths ps ≤ d.transmitter.queue.capacity) :
    d.submit ps = (.error .queueFull, d) := by
  unfold Desk.submit
  simp only
  rw [Transmitter.submitAll_of_not_fits (by rwa [wireLengths_numberTransmit])]

theorem Desk.OnDuty.queued (h : d.OnDuty config) (ps : List Packet) : (d.queued ps).OnDuty config where
  active := h.active
  ready := h.ready.queued _
  capacity := (Queue.capacity_foldl_add _ _).trans h.capacity
  bound := h.bound
  resets := h.resets

theorem used_queued (d : Desk) (ps : List Packet) :
    (d.queued ps).transmitter.queue.used = d.transmitter.queue.used + wireLengths ps := by
  show (List.foldl Queue.add _ _).used = _
  rw [Queue.used_foldl_add, wireLengths_numberTransmit]

/-- Packets keep their lengths when they are queued. -/
theorem mem_queued (d : Desk) {p : Packet} (hp : p ∈ ps) :
    ∃ q ∈ (d.queued ps).transmitter.queue.stored, q.wireLength = p.wireLength := by
  have hlengths := Numbering.transmit.map_number (f := Packet.wireLength) (fun _ _ => rfl) d.counters ps
  rw [← Numbering.numberTransmit_eq] at hlengths
  obtain ⟨q, hq, hlength⟩ := List.mem_map.1 (hlengths ▸ List.mem_map_of_mem hp)
  exact ⟨q, (Queue.stored_foldl_add _ _).mem_iff.2 (List.mem_append_left _ hq), hlength⟩

/-! ## What a connection has for the transmitter -/

theorem with_no_events {s : Session} (h : s.events = []) : { s with events := [] } = s := by
  rw [← h]

/-- What becomes of the packets that a connection has queued. -/
inductive Forwarded (d : Desk) (s : Session) : Desk → Session → Prop where
  | sent {ps : List Packet} {q : Queue} (perm : ps.Perm s.outbound.stored)
      (room : d.transmitter.queue.used + wireLengths ps ≤ d.transmitter.queue.capacity)
      (nil : q.stored = []) :
      Forwarded d s (d.queued ps) { s with outbound := q }
  | kept {q : Queue} (full : d.transmitter.queue.capacity <
        d.transmitter.queue.used + wireLengths s.outbound.stored)
      (perm : q.stored.Perm s.outbound.stored) :
      Forwarded d s d { s with outbound := q }

/-- All packets of a connection are queued for transmission if there is room for them, and given back if
there is not. -/
theorem forwardOutbound_forwarded {t : Table Desk} {port : UInt8} {n : Nat} {s : Session}
    (he : t.entries.get port = some ⟨n, s⟩) (hs : s.Formed config) (hst : s.state ≠ .resetting)
    (hevents : s.events = []) (hne : s.outbound.stored ≠ []) : ∃ d s', Forwarded t.owner s d s' ∧
      forwardOutbound t port = { t with owner := d, entries := t.entries.set port (some ⟨n, s'⟩) } := by
  rcases hs.fetchOutbound_cases with ⟨ps, q, hfetch, hrefills, hnil, hperm, hplain⟩ | ⟨_, _, _, hst', _⟩
  · have htaken := fetchOutbound_taken he hevents hfetch
    have hsome : ¬ ps.isEmpty = true := fun h => hne ((List.isEmpty_iff.1 h) ▸ hperm).nil_eq.symm
    unfold forwardOutbound
    rw [htaken]
    simp only
    rw [if_neg hsome]
    by_cases hroom : t.owner.transmitter.queue.used + wireLengths ps ≤
        t.owner.transmitter.queue.capacity
    · rw [submit_of_fits hroom]
      exact ⟨_, _, .sent hperm hroom hnil, rfl⟩
    · obtain ⟨q', hback, -, hperm'⟩ := hs.giveBack_taken hrefills hnil hperm
      have hgiven := giveBack_taken port (t := { t with
          entries := t.entries.set port (some ⟨n, { s with outbound := q }⟩)
          owner := t.owner })
        (ByteMap.get_set_self _ _ _) hevents hback
      rw [submit_of_not_fits hroom, partition_plain hplain]
      simp only
      rw [List.append_nil, if_neg hsome, hgiven, ByteMap.set_set]
      refine ⟨_, _, .kept ?_ hperm', rfl⟩
      rw [← wireLengths_perm hperm]
      exact Nat.lt_of_not_le hroom
  · exact absurd hst' hst

theorem Forwarded.onDuty {d d' : Desk} {s s' : Session} (h : Forwarded d s d' s') (hd : d.OnDuty config) :
    d'.OnDuty config := by
  cases h with
  | sent => exact hd.queued _
  | kept => exact hd

/-- Without room for a header, the connection keeps what it has. -/
theorem Forwarded.kept_of_full {d d' : Desk} {s s' : Session} (h : Forwarded d s d' s')
    (hfull : d.transmitter.queue.capacity < d.transmitter.queue.used + Header.size)
    (hne : s.outbound.stored ≠ []) :
    d' = d ∧ ∃ q, s' = { s with outbound := q } ∧ q.stored.Perm s.outbound.stored := by
  cases h with
  | @sent ps q perm room =>
    have hpos : 0 < ps.length := List.length_pos_iff.2 fun hnil => hne (hnil ▸ perm).nil_eq.symm
    have hlong : Header.size * 1 ≤ wireLengths ps :=
      Nat.le_trans (Nat.mul_le_mul_left _ hpos) (size_mul_length_le ps)
    omega
  | kept _ perm => exact ⟨rfl, _, rfl, perm⟩

/-- With room for all of it, the transmitter gets what the connection has. -/
theorem Forwarded.sent_of_room {d d' : Desk} {s s' : Session} (h : Forwarded d s d' s')
    (hroom : d.transmitter.queue.used + wireLengths s.outbound.stored ≤
      d.transmitter.queue.capacity) :
    ∃ ps q, d' = d.queued ps ∧ ps.Perm s.outbound.stored ∧ s' = { s with outbound := q } ∧
      q.stored = [] := by
  cases h with
  | sent perm _ nil => exact ⟨_, _, rfl, perm, rfl, nil⟩
  | kept full => exact absurd hroom (Nat.not_le.2 full)

/-! ## An engine with one connection -/

/-- Some run leads to the engine. -/
def Reached (config : Config) (e : Engine) : Prop := ∃ acts, (fresh config).after acts = e

variable {e : Engine} {s : Session}

theorem Reached.perform (h : Reached config e) (a : Act) : Reached config (e.perform a).2 := by
  obtain ⟨acts, rfl⟩ := h
  refine ⟨acts ++ [a], ?_⟩
  unfold after
  rw [List.foldl_append]
  rfl

/-- The engine has a connection on port 1 and no other one, and its desk serves it. -/
structure Serving (config : Config) (e : Engine) (s : Session) : Prop where
  reached : Reached config e
  desk : e.desk.OnDuty config
  entries : ∃ n, e.connections.entries = (ByteMap.const none).set 1 (some ⟨n, s⟩)

namespace Serving

theorem entry (h : Serving config e s) : ∃ n, e.connections.entries.get 1 = some ⟨n, s⟩ := by
  obtain ⟨n, hn⟩ := h.entries
  exact ⟨n, by rw [hn, ByteMap.get_set_self]⟩

theorem session? (h : Serving config e s) : e.connections.session? 1 = some s := by
  obtain ⟨n, hn⟩ := h.entry
  unfold Table.session?
  rw [hn]
  rfl

/-- What is known of every run. -/
theorem known (h : Serving config e s) :
    e.connections.config = config ∧ s.Formed config ∧ s.events = [] := by
  obtain ⟨acts, rfl⟩ := h.reached
  obtain ⟨n, hn⟩ := h.entry
  have hkept := (running_gapless config).keeps_after
    ((yielding_connection config).supplying (awaits_formed config)) (gapless_new config) trivial acts
  rw [Chronicle.engine_after] at hkept
  obtain ⟨⟨hformed, -⟩, hevents⟩ := hkept.sessions 1 _ hn
  exact ⟨hkept.config, hformed, hevents⟩

/-! ### The worker -/

/-- The worker offers the next packet, and the link takes it. -/
theorem round (h : Serving config e s) {p : Packet} {q : Queue}
    (hpop : e.desk.transmitter.queue.popNext = some (p, q)) :
    (∃ e', Reached config e' ∧ .offering p ∈ e'.desk.transmitter.workers) ∧
      ∃ e', Serving config e' s ∧ e'.desk.transmitter.queue = q := by
  have hoffered := (h.reached.perform (.step 0)).perform (.step 0)
  obtain ⟨hready, hqueue⟩ := h.desk.ready.serve hpop
  refine ⟨⟨_, hoffered, ?_⟩, _, ⟨hoffered.perform (.settle 0 (.ok ())), ?_, h.entries⟩, hqueue⟩
  · show .offering p ∈ ((e.desk.transmitter.step 0).step 0).workers
    rw [h.desk.ready.offer hpop]
    exact List.mem_singleton_self _
  · refine ⟨h.desk.active, hready, ?_, h.desk.bound, h.desk.resets⟩
    show (((e.desk.transmitter.step 0).step 0).settle 0 (.ok ())).queue.capacity = _
    rw [hqueue, Queue.capacity_popNext hpop]
    exact h.desk.capacity

/-- The link takes all that is queued. -/
theorem drains (h : Serving config e s) :
    ∃ e', Serving config e' s ∧ e'.desk.transmitter.queue.stored = [] := by
  induction hn : e.desk.transmitter.queue.stored.length generalizing e with
  | zero => exact ⟨e, h, List.length_eq_zero_iff.1 hn⟩
  | succ n ih =>
    cases hpop : e.desk.transmitter.queue.popNext with
    | none =>
      rw [h.desk.ready.consistent.popNext_eq_none_iff.1 hpop] at hn
      cases hn
    | some taken =>
      obtain ⟨p, q⟩ := taken
      obtain ⟨-, e', h', rfl⟩ := h.round hpop
      have hlen := (Queue.stored_popNext hpop).length_eq
      rw [hn, List.length_cons] at hlen
      exact ih h' (by omega)

/-- Whatever is queued is offered to the link in the end. -/
theorem offers (h : Serving config e s) {p : Packet} (hp : p ∈ e.desk.transmitter.queue.stored) :
    ∃ e', Reached config e' ∧ .offering p ∈ e'.desk.transmitter.workers := by
  induction hn : e.desk.transmitter.queue.stored.length generalizing e with
  | zero =>
    rw [List.length_eq_zero_iff.1 hn] at hp
    exact absurd hp List.not_mem_nil
  | succ n ih =>
    cases hpop : e.desk.transmitter.queue.popNext with
    | none =>
      rw [h.desk.ready.consistent.popNext_eq_none_iff.1 hpop] at hn
      cases hn
    | some taken =>
      obtain ⟨y, q⟩ := taken
      obtain ⟨hoffered, e', h', rfl⟩ := h.round hpop
      have hperm := Queue.stored_popNext hpop
      rcases List.mem_cons.1 (hperm.mem_iff.1 hp) with rfl | hp
      · exact hoffered
      · have hlen := hperm.length_eq
        rw [hn, List.length_cons] at hlen
        exact ih h' hp (by omega)

/-! ### Calls on the connection -/

/-- What a call of the connection leaves, before the desk is told of it. -/
theorem onSession_eq {t : Table Desk} {n : Nat}
    (hn : t.entries = (ByteMap.const none).set 1 (some ⟨n, s⟩)) {α : Type} (f : Session → α × Session) :
    (t.onSession attending 1 f).2 =
      { t with
        entries := (ByteMap.const none).set 1 (some ⟨n, { (f s).2 with events := [] }⟩) }.tell
        attending 1 n (Event.stateFirst (f s).2.events) := by
  unfold Table.onSession Session.takeEvents
  rw [hn, ByteMap.get_set_self]
  simp only
  rw [ByteMap.set_set]

/-- A call after which the desk is on duty, with its transmitter as it is. -/
theorem resume (h : Serving config e s) {t : Table Desk} {g : Desk → Desk} {a : Act} {d : Desk} {n : Nat}
    {s' : Session} (hact : (e.perform a).2 = (⟨t⟩ : Engine).onDesk g)
    (ht : t = { e.connections with
      owner := d
      entries := (ByteMap.const none).set 1 (some ⟨n, s'⟩) })
    (hg : (g d).OnDuty config) : Serving config (e.perform a).2 s' where
  reached := h.reached.perform a
  desk := by
    rw [hact, ht]
    exact hg
  entries := by
    rw [hact, ht]
    exact ⟨n, rfl⟩

/-- A call of the connection after which it has nothing for the transmitter. -/
theorem quiet (h : Serving config e s) {α : Type} {f : Session → α × Session} {g : Desk → Desk} {a : Act}
    (hact : (e.perform a).2 =
      (⟨(e.connections.onSession attending 1 f).2⟩ : Engine).onDesk id)
    (htell : ∀ (t : Table Desk) (n : Nat),
      t.tell attending 1 n (Event.stateFirst (f s).2.events) = t.onOwner g)
    (hg : ∀ d : Desk, d.OnDuty config → (g d).OnDuty config ∧ (g d).transmitter = d.transmitter) :
    Serving config (e.perform a).2 { (f s).2 with events := [] } ∧
      (e.perform a).2.desk.transmitter = e.desk.transmitter := by
  obtain ⟨n, hn⟩ := h.entries
  have hcall := (onSession_eq hn f).trans (htell _ n)
  obtain ⟨hduty, hsame⟩ := hg e.desk h.desk
  refine ⟨h.resume hact hcall hduty, ?_⟩
  rw [hact, hcall]
  exact hsame

/-- A call of the connection after which it has something for the transmitter. -/
theorem calls (h : Serving config e s) {α : Type} {f : Session → α × Session} {g : Desk → Desk} {a : Act}
    (hact : (e.perform a).2 =
      (⟨(e.connections.onSession attending 1 f).2⟩ : Engine).onDesk g)
    (hg : ∀ d : Desk, d.OnDuty config → (g d).OnDuty config ∧ (g d).transmitter = d.transmitter)
    (hevents : (f s).2.events = [.outboundAvailable 1]) (hformed : (f s).2.Formed config)
    (hst : (f s).2.state ≠ .resetting) (hne : (f s).2.outbound.stored ≠ []) :
    ∃ d s', Forwarded e.desk { (f s).2 with events := [] } d s' ∧
      Serving config (e.perform a).2 s' ∧ (e.perform a).2.desk.transmitter = d.transmitter := by
  obtain ⟨n, hn⟩ := h.entries
  have hhushed : Session.Formed config { (f s).2 with events := [] } := { hformed with }
  -- the desk is told of one event, and answers it by taking what is queued
  have htell : ∀ t : Table Desk,
      t.tell attending 1 n (Event.stateFirst (f s).2.events) = forwardOutbound t 1 := by
    intro t
    rw [hevents]
    rfl
  obtain ⟨d, s', hforwarded, hforward⟩ := forwardOutbound_forwarded
    (t := { e.connections with
      entries := (ByteMap.const none).set 1 (some ⟨n, { (f s).2 with events := [] }⟩) })
    (ByteMap.get_set_self _ _ _) hhushed hst rfl hne
  have hcall := ((onSession_eq hn f).trans (htell _)).trans hforward
  rw [ByteMap.set_set] at hcall
  obtain ⟨hduty, hsame⟩ := hg d (hforwarded.onDuty h.desk)
  refine ⟨d, s', hforwarded, h.resume hact hcall hduty, ?_⟩
  rw [hact, hcall]
  exact hsame

end Serving

/-! ### Frames and messages -/

/-- The connection is open, and no packet from the peer has been taken yet. -/
structure Linked (s : Session) : Prop where
  state : s.state = .connected
  localPort : s.localPort = 1
  remotePort : s.remotePort = 2
  options : s.options = bothOptions
  expected : s.expected = 0

/-- A packet that the peer sends to the connection. -/
def fromPeer (flags : Flags) (relSeq ack : UInt8) (payload : List UInt8) : Packet :=
  .ofPayload { kind := .connection, dst := 1, src := 2, flags, relSeq, ack } payload 0

theorem encodable_fromPeer (flags : Flags) (relSeq ack : UInt8) {payload : List UInt8}
    (h : payload.length ≤ Header.maxPayload) : (fromPeer flags relSeq ack payload).Encodable :=
  ⟨show (1 : UInt8) ≤ Header.maxPort by decide, show (2 : UInt8) ≤ Header.maxPort by decide, h⟩

/-- The connection gets a packet of the peer. -/
def hear (flags : Flags) (relSeq ack : UInt8) (payload : List UInt8) : Act :=
  .receiveFrame 0 0 (fromPeer flags relSeq ack payload).encode

/-- The packet as the connection gets it. -/
def heard (flags : Flags) (relSeq ack : UInt8) (payload : List UInt8) : Packet :=
  (fromPeer flags relSeq ack payload).received 0

/-- A packet of some connection goes to the table of connections. -/
theorem perform_receiveFrame (hactive : e.desk.active = true) {p : Packet} (hp : p.Encodable)
    (hkind : p.header.kind = .connection) :
    (e.perform (.receiveFrame 0 0 p.encode)).2 = ⟨(e.connections.receive attending 0 (p.received 0)).2⟩ := by
  have hread : e.desk.reassembly.readFrame 0 p.encode = (.ok (p.received 0), e.desk.reassembly) := by
    unfold Reassembly.readFrame
    rw [Packet.decode_encode hp 0]
  unfold perform
  simp only
  unfold receiveFrame
  rw [hactive, hread]
  simp only
  rw [show (p.received 0).header.kind = .connection from hkind]
  rfl

namespace Serving

/-- What the peer sends goes to the connection. -/
theorem perform_hear (h : Serving config e s) (flags : Flags) (relSeq ack : UInt8)
    {payload : List UInt8} (hpayload : payload.length ≤ Header.maxPayload) :
    (e.perform (hear flags relSeq ack payload)).2 =
      (⟨(e.connections.onSession attending 1 fun s =>
        s.receive (heard flags relSeq ack payload)).2⟩ : Engine).onDesk id := by
  obtain ⟨n, hn⟩ := h.entry
  unfold hear
  rw [perform_receiveFrame h.desk.active (encodable_fromPeer flags relSeq ack hpayload) rfl]
  show (⟨(e.connections.receive attending 0 (heard flags relSeq ack payload)).2⟩ : Engine) = _
  unfold Table.receive Table.onSession
  rw [show (heard flags relSeq ack payload).port = 1 from rfl, hn]
  rfl

/-- The message of an application goes to the connection. -/
theorem perform_send (h : Serving config e s)
    (hroom : s.HasRoom (fragments config 1 2 .connection 0 [])) :
    ∃ (f : Session → Except Error (List Packet) × Session) (g : Desk → Desk) (q : Packet),
      (e.perform (.sendMessage 0 1 [])).2 =
        (⟨(e.connections.onSession attending 1 f).2⟩ : Engine).onDesk g ∧
      (∀ d : Desk, d.OnDuty config → (g d).OnDuty config ∧ (g d).transmitter = d.transmitter) ∧
      (f s).2 = s.dispatch [q] 0 ∧ (f s).2.Formed config ∧
      q.port = s.remotePort ∧ q.header.relSeq = s.nextSeq ∧ q.payload = [] := by
  obtain ⟨n, hn⟩ := h.entry
  have hconfig := h.known.1
  let ps := fragments config 1 2 .connection 0 []
  let number := fun stamped : List Packet =>
    ((Desk.numberConnection e.desk.counters stamped).1, (Desk.numberConnection e.desk.counters stamped).1)
  have hroute : e.route 1 [] = .ok (true, ps) := by
    unfold route ready
    rw [h.desk.active, h.desk.ready.linkUp, h.session?]
    unfold Desk.binding
    rw [h.desk.bound]
    show (if e.messageLimit true < 0 then _ else _) = _
    rw [if_neg (Nat.not_lt_zero _)]
    unfold Engine.config
    rw [hconfig]
    rfl
  have hpassage : passage attending e.desk.counters 0 1 ps e.connections =
      e.connections.send attending 0 1 ps number := by
    unfold passage Table.sendWaiting
    rw [h.session?]
    cases e.connections.config.sendTimeout with
    | none => rfl
    | some =>
      simp only
      rw [Session.admits_of_hasRoom hroom]
  obtain ⟨q, hq, hport, hrel, hpayload⟩ : ∃ q : Packet, (number (s.outgoing ps)).1 = [q] ∧
      q.port = s.remotePort ∧ q.header.relSeq = s.nextSeq ∧ q.payload = [] := ⟨_, rfl, rfl, rfl, rfl⟩
  have hsend : s.send ps 0 number = (.ok (number (s.outgoing ps)).2, s.dispatch [q] 0) := by
    rw [← hq]
    exact Session.send_of_hasRoom 0 (numbersFragments e.desk.counters) hroom
  refine ⟨fun s => s.send ps 0 number, fun d => d.countConnection (number (s.outgoing ps)).2, q, ?_,
    fun d hd => ⟨{ hd with }, rfl⟩, congrArg Prod.snd hsend, ?_, hport, hrel, hpayload⟩
  · have hanswer : (e.connections.send attending 0 1 ps number).1 = .ok (number (s.outgoing ps)).2 := by
      unfold Table.send Table.orElse Table.onSession
      rw [hn]
      exact congrArg Prod.fst hsend
    show (e.sendMessage 0 1 []).2 = _
    rw [sendMessage_eq, hroute]
    simp only
    rw [sendThroughConnection_eq, hpassage, ← Prod.mk.eta (p := e.connections.send attending 0 1 ps number),
      hanswer]
    rfl
  · exact (Session.lasting_formed config 1 fun _ => True).send h.known.2.1 0
      (numbersFragments e.desk.counters) (List.cons_ne_nil _ _) fun _ _ => trivial

/-- As long as there is room in the connection, a message of the application is put in flight. -/
theorem sends (h : Serving config e s) (hs : Linked s) (hgap : s.hasGap = false)
    (hwindow : s.unacknowledged < config.window)
    (hroom : s.outbound.used + Header.size ≤ config.connectionQueueCapacity) :
    ∃ q d s' e', q.port = 2 ∧ q.header.relSeq = s.nextSeq ∧ q.payload = [] ∧
      Forwarded e.desk (s.issue q 0) d s' ∧ Serving config e' s' ∧
      e'.desk.transmitter = d.transmitter := by
  obtain ⟨-, hformed, hevents⟩ := h.known
  have hreport : s.gapReport = none := by
    unfold Session.gapReport
    rw [hgap]
    rfl
  have hadmitted : s.HasRoom (fragments config 1 2 .connection 0 []) := by
    refine ⟨hs.state, ?_, ?_⟩
    · rw [hformed.config]
      exact hwindow
    · rw [hreport, hformed.capacity]
      exact hroom
  obtain ⟨f, g, q, hact, hg, hf, hformed', hport, hrel, hpayload⟩ := h.perform_send hadmitted
  have hdispatch : s.dispatch [q] 0 = { s.issue q 0 with events := [.outboundAvailable 1] } := by
    have hraised := Session.raise_of_nil (s := s.issue q 0) hevents (.outboundAvailable 1)
    rw [← hraised, ← hs.localPort]
    unfold Session.dispatch
    rw [hreport]
    rfl
  rw [hdispatch] at hf
  have hne : (f s).2.outbound.stored ≠ [] := by
    rw [hf]
    exact Queue.stored_ne_nil (s.outbound.stored_add q)
  obtain ⟨d, s', hforwarded, hserving, htransmitter⟩ := h.calls hact hg (by rw [hf]) hformed'
    (by rw [hf]; exact fun he => nomatch hs.state.symm.trans he) hne
  refine ⟨q, d, s', _, hport.trans hs.remotePort, hrel, hpayload, ?_, hserving, htransmitter⟩
  rw [hf] at hforwarded
  rwa [show ({ s.issue q 0 with events := [] } : Session) = s.issue q 0 from
    with_no_events (s := s.issue q 0) hevents] at hforwarded

/-- The timer fires. -/
theorem perform_fireTimer (h : Serving config e s) (now : Nat) :
    (e.perform (.fireTimer now)).2 =
      (⟨(e.connections.onSession attending 1 fun s => ((), s.checkTimers now)).2⟩ : Engine).onDesk id := by
  obtain ⟨n, hn⟩ := h.entries
  have hports : e.connections.ports = [1] := by
    unfold Table.ports ByteMap.keysWhere
    rw [hn]
    have hone : ∀ b : UInt8,
        (((ByteMap.const none).set 1 (some (⟨n, s⟩ : Entry))).get b).isSome = decide (b = 1) := by
      intro b
      rw [ByteMap.get_set, ByteMap.get_const]
      by_cases hb : (1 : UInt8) = b
      · rw [if_pos hb, hb]
        simp
      · rw [if_neg hb, decide_eq_false (Ne.symm hb)]
        rfl
    simp only [hone]
    decide
  have hdesk : e.onDesk Desk.retryResets = e := by
    have hsame : e.desk.retryResets = e.desk := by
      unfold Desk.retryResets
      rw [h.desk.resets]
    unfold onDesk Table.onOwner
    rw [show e.connections.owner = e.desk from rfl, hsame]
    rfl
  show e.fireTimer now = _
  unfold fireTimer
  rw [h.desk.active, hdesk]
  simp only
  rw [h.desk.ready.linkUp]
  show (⟨e.connections.checkTimers attending now⟩ : Engine) = _
  unfold Table.checkTimers
  rw [hports]
  rfl

/-! ### Packets that nobody awaits -/

/-- A packet for a port without a connection. -/
def stray : Packet :=
  .ofPayload { kind := .connection, dst := 5, src := 2, flags := .acknowledging } [] 0

/-- The packet that turns it away. -/
def dismissal : Packet := Table.rejection (stray.received 0) .resetting

theorem perform_stray (h : Serving config e s) :
    (e.perform (.receiveFrame 0 0 stray.encode)).2 = e.onDesk fun d => (d.submit [dismissal]).2 := by
  obtain ⟨n, hn⟩ := h.entries
  have hencodable : stray.Encodable := ⟨show (5 : UInt8) ≤ Header.maxPort by decide,
    show (2 : UInt8) ≤ Header.maxPort by decide, Nat.zero_le _⟩
  have hnone : e.connections.entries.get 5 = none := by
    rw [hn, ByteMap.get_set_of_ne _ _ (by decide), ByteMap.get_const]
  rw [perform_receiveFrame h.desk.active hencodable rfl]
  unfold Table.receive Table.onSession
  rw [show (stray.received 0).port = 5 from rfl, hnone]
  simp only
  rw [show (stray.received 0).header.flags = .acknowledging from rfl, if_neg (by decide),
    if_neg (by decide)]
  rfl

/-- As long as there is room, a packet that nobody awaits is turned away by one that is queued. -/
theorem turnsAway (h : Serving config e s)
    (hroom : e.desk.transmitter.queue.used + Header.size ≤ config.queueCapacity) :
    ∃ e', Serving config e' s ∧ e'.desk = e.desk.queued [dismissal] := by
  have hsubmit : e.desk.submit [dismissal] = (.ok (), e.desk.queued [dismissal]) :=
    submit_of_fits (h.desk.capacity.symm ▸ hroom)
  have hdesk : (e.perform (.receiveFrame 0 0 stray.encode)).2.desk = e.desk.queued [dismissal] := by
    rw [h.perform_stray]
    exact congrArg Prod.snd hsubmit
  obtain ⟨n, hn⟩ := h.entries
  refine ⟨_, ⟨h.reached.perform _, ?_, n, ?_⟩, hdesk⟩
  · rw [hdesk]
    exact h.desk.queued _
  · rw [h.perform_stray]
    exact hn

/-- The transmit queue can be filled. -/
theorem fills (h : Serving config e s) : ∃ e', Serving config e' s ∧
    config.queueCapacity < e'.desk.transmitter.queue.used + Header.size := by
  induction hn : config.queueCapacity - e.desk.transmitter.queue.used using Nat.strong_induction_on
    generalizing e with
  | _ n ih =>
    by_cases hroom : e.desk.transmitter.queue.used + Header.size ≤ config.queueCapacity
    · obtain ⟨e', h', hdesk⟩ := h.turnsAway hroom
      have hused : e'.desk.transmitter.queue.used = e.desk.transmitter.queue.used + Header.size := by
        rw [hdesk, used_queued]
        rfl
      have hpos : 0 < Header.size := by decide
      exact ih _ (by omega) h' rfl
    · exact ⟨e, h, Nat.lt_of_not_le hroom⟩

end Serving

/-! ## How the connection begins -/

/-- Nothing has been sent and nothing has arrived. -/
structure Untouched (config : Config) (s : Session) : Prop where
  nextSeq : s.nextSeq = 1
  oldestUnacked : s.oldestUnacked = 1
  flights : s.inFlight.flights = []
  hasGap : s.hasGap = false
  early : s.early = .const false
  inbound : s.inbound = .empty .reliability config.connectionQueueCapacity
  outbound : s.outbound.stored = []

/-- An engine whose application waits for connections on port 1. -/
theorem listening_reached (config : Config) : ∃ e, Reached config e ∧ e.desk.OnDuty config ∧
    e.connections.config = config ∧ e.connections.entries = .const none ∧
    e.desk.transmitter.queue.used = 0 :=
  ⟨_, ⟨[.start, .bind 1 ⟨0, 2, bothOptions⟩], rfl⟩,
    ⟨rfl, Transmitter.ready_start config, rfl, rfl, rfl⟩, rfl, rfl, rfl⟩

/-- The session that has answered a request for a connection. -/
def welcomer (config : Config) : Session :=
  { ({ Session.new config .responder 1 2 0 bothOptions with expected := 0 } : Session).issue
      (({ Session.new config .responder 1 2 0 bothOptions with expected := 0 } : Session).packet .welcoming
        0 []) 0 with
    state := .connecting }

theorem formed_welcomer (hconfig : config.Valid) : (welcomer config).Formed config := by
  have hroom : 0 + Header.size ≤ config.connectionQueueCapacity := by
    rw [Nat.zero_add]
    exact hconfig.size_le_connectionQueueCapacity
  exact (Session.lasting_formed config 1 fun _ => True).begins 0 ⟨.responder, 2, 0, bothOptions, 0, rfl⟩
    (.inr rfl) hroom

theorem perform_opening (hconfig : config.Valid) (hduty : e.desk.OnDuty config)
    (hsame : e.connections.config = config) (hnone : e.connections.entries = .const none) :
    (e.perform (hear .opening 255 0 [])).2 = ⟨forwardOutbound
      { e.connections with
        entries := (ByteMap.const none).set 1 (some ⟨e.connections.nextSerial, welcomer config⟩)
        nextSerial := e.connections.nextSerial + 1
        owner := e.desk.notify (.connection 1 .connecting) } 1⟩ := by
  have hroom : 0 + Header.size ≤ config.connectionQueueCapacity := by
    rw [Nat.zero_add]
    exact hconfig.size_le_connectionQueueCapacity
  have haccept : (Session.new e.connections.config .responder 1 2 0 bothOptions).accept
      (heard .opening 255 0 []) 0 = (.ok (), { welcomer config with
        events := [.outboundAvailable 1, .stateChanged 1 2 .disconnected .connecting] }) := by
    rw [hsame]
    unfold Session.accept
    rw [if_neg (fun hne => hne rfl), Session.postNumbered_eq, if_pos]
    · rfl
    · exact decide_eq_true hroom
  have hget : e.connections.entries.get 1 = none := by rw [hnone, ByteMap.get_const]
  have hdecide : attending.decideOn 1 2 e.connections = (some bothOptions, e.connections) := by
    show (acceptance 1 e.connections, e.connections) = _
    unfold acceptance
    rw [show e.connections.owner.bindings.get 1 = _ from hduty.bound]
    rfl
  unfold hear
  rw [perform_receiveFrame hduty.active (encodable_fromPeer _ _ _ (Nat.zero_le _)) rfl]
  show (⟨(e.connections.receive attending 0 (heard .opening 255 0 [])).2⟩ : Engine) = _
  unfold Table.receive Table.onSession
  rw [show (heard .opening 255 0 []).port = 1 from rfl, hget]
  simp only
  rw [show (heard .opening 255 0 []).header.flags = .opening from rfl, if_pos rfl]
  unfold Table.receiveOpening
  rw [show (heard .opening 255 0 []).port = 1 from rfl,
    show (heard .opening 255 0 []).header.src = 2 from rfl,
    show (heard .opening 255 0 []).channel = 0 from rfl]
  simp only
  rw [hdecide]
  simp only
  rw [hget, haccept, ← hnone]
  rfl

/-- The connection is requested, and the answer goes to the transmitter. -/
theorem serving_welcomer (hconfig : config.Valid) : ∃ e q, Serving config e
    { welcomer config with outbound := q } ∧ q.stored = [] := by
  obtain ⟨e, hreached, hduty, hsame, hnone, hused⟩ := listening_reached config
  let t : Table Desk := { e.connections with
    entries := (ByteMap.const none).set 1 (some ⟨e.connections.nextSerial, welcomer config⟩)
    nextSerial := e.connections.nextSerial + 1
    owner := e.desk.notify (.connection 1 .connecting) }
  have hget : t.entries.get 1 = some ⟨e.connections.nextSerial, welcomer config⟩ :=
    ByteMap.get_set_self _ _ _
  obtain ⟨d, s, hforwarded, hforward⟩ := forwardOutbound_forwarded hget (formed_welcomer hconfig)
    (fun h => nomatch h) rfl (fun h => nomatch h)
  have hopening := perform_opening hconfig hduty hsame hnone
  rw [hforward] at hopening
  cases hforwarded with
  | @sent ps q perm room nil =>
    refine ⟨(e.perform (hear .opening 255 0 [])).2, q, ⟨hreached.perform _, ?_, e.connections.nextSerial,
      ?_⟩, nil⟩
    · rw [hopening]
      exact Desk.OnDuty.queued (d := e.desk.notify (.connection 1 .connecting)) { hduty with } ps
    · rw [hopening]
      exact ByteMap.set_set _ _ _ _
  | kept full =>
    have hlength : (welcomer config).outbound.used = Header.size := rfl
    rw [← (formed_welcomer hconfig).consistent.used_eq, hlength] at full
    have hfull : e.desk.transmitter.queue.capacity < e.desk.transmitter.queue.used + Header.size := full
    rw [hduty.capacity, hused, Nat.zero_add] at hfull
    exact absurd hconfig.size_le_queueCapacity (Nat.not_le.2 hfull)

/-- Some run opens the connection. -/
theorem serving_linked (hconfig : config.Valid) : ∃ e s, Serving config e s ∧ Linked s ∧
    Untouched config s := by
  obtain ⟨e, q, h, hq⟩ := serving_welcomer hconfig
  have hreceive : ({ welcomer config with outbound := q } : Session).receive (heard .acknowledging 255 1 []) =
      (.ok (), { welcomer config with
        outbound := q
        state := .connected
        oldestUnacked := 1
        inFlight := {}
        events := [.stateChanged 1 2 .connecting .connected] }) := by
    have hmove : ({ welcomer config with outbound := q } : Session).moveTo .connected =
        { welcomer config with
          outbound := q
          state := .connected
          events := [.stateChanged 1 2 .connecting .connected] } :=
      Session.raise_of_nil (s := { welcomer config with outbound := q, state := .connected }) rfl _
    have hnew : ({ welcomer config with outbound := q } : Session).confirmsNew 1 = true :=
      show ((1 : UInt8) != 0 && Serial.inRange (1 : UInt8) 0 1) = true by decide
    rw [Session.receive_confirming (p := heard .acknowledging 255 1 []) rfl rfl rfl hnew, hmove]
    refine congrArg (Prod.mk _) (Session.acknowledge_of_precedes
      (show Serial.inRange (1 : UInt8) 0 1 = true by decide) fun f hf => ?_)
    rw [List.mem_singleton.1 hf]
    show Serial.precedes (0 : UInt8) 1 = true
    decide
  have hquiet := h.quiet (g := fun d => d.notify (.connection 1 .connected))
    (h.perform_hear .acknowledging 255 1 (Nat.zero_le _)) (by rw [hreceive]; intros; rfl)
    (fun d hd => ⟨{ hd with }, rfl⟩)
  rw [hreceive] at hquiet
  exact ⟨_, _, hquiet.1, ⟨rfl, rfl, rfl, rfl, rfl⟩, ⟨rfl, rfl, rfl, rfl, rfl, rfl, hq⟩⟩

end Engine

end NarrowLink
