import NarrowLink.Proofs.Engine.Answers
import NarrowLink.Proofs.Engine.Supply
import NarrowLink.Proofs.Session.Holding
import NarrowLink.Proofs.Transmitter.Custody

/-!
# No numbers are left out

Whatever happens to an engine, each of the three numbers of a port is given out without gaps
(`gapless_after`): the order of transmission over all packets that the transmit queue accepts, and the
order of fragments over the datagrams that it accepts and over the packets that connections accept.  A
call that is refused uses up no number.
-/

namespace NarrowLink.Engine

open Wire
open Connection (Renumbered Owner Session Table)

/-! ## Whole messages -/

/-- A message to a port: all its fragments but the last say that more follow. -/
structure Whole (kind : Kind) (ps : List Packet) : Prop where
  port : ∃ port, ∀ p ∈ ps, p.port = port
  kind : ∀ p ∈ ps, p.header.kind = kind
  ends : ∃ n, ps.map Packet.isFinal = List.replicate n false ++ [true]

theorem ends_fragmentsOf (header : Header) (channel : UInt8) {payloads : List (List UInt8)}
    (h : payloads ≠ []) :
    ∃ n, (fragmentsOf header channel payloads).map Packet.isFinal = List.replicate n false ++ [true] := by
  induction payloads with
  | nil => exact absurd rfl h
  | cons p ps ih =>
    cases ps with
    | nil => exact ⟨0, rfl⟩
    | cons q qs =>
      obtain ⟨n, hn⟩ := ih (List.cons_ne_nil q qs)
      exact ⟨n + 1, congrArg (List.cons false) hn⟩

theorem kind_of_mem_fragmentsOf {header : Header} {channel : UInt8} {payloads : List (List UInt8)}
    (f : Packet) (hf : f ∈ fragmentsOf header channel payloads) : f.header.kind = header.kind := by
  obtain ⟨more, payload, rfl⟩ := ofPayload_of_mem_fragmentsOf hf
  rfl

variable {config : Config} {kind : Kind} {ps qs : List Packet} {c c' : ByteMap Counters}

theorem Fragmented.whole (h : Fragmented config kind ps) : Whole kind ps := by
  obtain ⟨src, dst, channel, message, -, rfl⟩ := h
  exact ⟨⟨dst, port_of_mem_fragmentsOf⟩, kind_of_mem_fragmentsOf,
    ends_fragmentsOf _ _ (piecesUpTo_ne_nil _ _ _)⟩

/-- Numbers make no difference to a message. -/
theorem Whole.number {α : Type} [Serial α] (h : Whole kind ps) (n : Numbering α)
    (hkind : ∀ a p, (n.write a p).header.kind = p.header.kind)
    (hfinal : ∀ a p, (n.write a p).isFinal = p.isFinal) (c : ByteMap Counters) :
    Whole kind (n.number c ps).1 := by
  obtain ⟨port, hport⟩ := h.port
  obtain ⟨k, hends⟩ := h.ends
  refine ⟨⟨port, n.forall_number (fun a p hp => ?_) c hport⟩,
    n.forall_number (fun a p hp => ?_) c h.kind, k, by rw [n.map_number hfinal, hends]⟩
  · rw [n.port_write, hp]
  · rw [hkind, hp]

/-- A message stays whole when a connection sends it. -/
theorem Whole.outgoing (h : Whole kind ps) (s : Session) : Whole .connection (s.outgoing ps) where
  port := ⟨s.remotePort, fun _ hp => Session.port_of_mem_outgoing hp⟩
  kind p hp := by
    obtain ⟨i, _, rfl⟩ := List.mem_mapIdx.1 hp
    rfl
  ends := by
    rw [s.map_outgoing fun _ _ => rfl]
    exact h.ends

/-! ## What was accepted -/

/-- The packets that are not part of a connection. -/
def datagrams (ps : List Packet) : List Packet := ps.filter fun p => p.header.kind = .datagram

/-- The transmitter is one that accepted these batches, first to last, and the numbers of what was
accepted have no gaps. -/
structure Gapless (config : Config) (messages : List (List Packet)) (x : Transmitter)
    (c : ByteMap Counters) (batches : List (List Packet)) : Prop where
  custody : ∃ acts, (Transmitter.Custody.after config acts).transmitter = x ∧
    (Transmitter.Custody.after config acts).accepted = batches.flatten
  transmit : Numbering.transmit.Counted c batches.flatten
  datagram : Numbering.datagram.Counted c (datagrams batches.flatten)
  connection : Numbering.connection.Counted c messages.flatten
  /-- A batch is one whole message, if it is not from a connection. -/
  batches : ∀ b ∈ batches, (∀ p ∈ b, p.header.kind = .connection) ∨ Whole .datagram b
  messages : ∀ m ∈ messages, Whole .connection m ∧ ∀ p ∈ m, p.header.flags = .carrying

theorem gapless_new (config : Config) : Gapless config [] (.new config) (.const {}) [] where
  custody := ⟨[], rfl, rfl⟩
  transmit := Numbering.transmit.counted_nil
  datagram := Numbering.datagram.counted_nil
  connection := Numbering.connection.counted_nil
  batches _ hb := absurd hb List.not_mem_nil
  messages _ hm := absurd hm List.not_mem_nil

variable {messages batches : List (List Packet)} {x x' : Transmitter}

/-- The transmitter accepts one more batch. -/
theorem custody_submitAll {acts : List Transmitter.Act}
    (hx : (Transmitter.Custody.after config acts).transmitter = x)
    (haccepted : (Transmitter.Custody.after config acts).accepted = batches.flatten)
    (hok : x.submitAll qs = (.ok (), x')) :
    ∃ acts, (Transmitter.Custody.after config acts).transmitter = x' ∧
      (Transmitter.Custody.after config acts).accepted = (batches ++ [qs]).flatten := by
  refine ⟨acts ++ [.submitAll qs], ?_, ?_⟩
  · rw [Transmitter.Custody.after_concat]
    show ((Transmitter.Custody.after config acts).transmitter.submitAll qs).2 = x'
    rw [hx, hok]
  · rw [Transmitter.Custody.after_concat, List.flatten_append, List.flatten_singleton, ← haccepted]
    show _ ++ (Transmitter.Custody.after config acts).transmitter.accepts (.submitAll qs) = _
    rw [hx]
    simp only [Transmitter.accepts, hok]

theorem datagrams_append : datagrams (ps ++ qs) = datagrams ps ++ datagrams qs :=
  List.filter_append ..

theorem datagrams_of_connection (h : ∀ p ∈ ps, p.header.kind = .connection) : datagrams ps = [] := by
  refine List.filter_eq_nil_iff.2 fun p hp => ?_
  rw [h p hp]
  decide

theorem datagrams_of_datagram (h : ∀ p ∈ ps, p.header.kind = .datagram) : datagrams ps = ps := by
  refine List.filter_eq_self.2 fun p hp => ?_
  rw [h p hp]
  decide

/-- The fragment numbers of datagrams do not depend on the order of transmission. -/
theorem address_datagrams_number (c : ByteMap Counters) (ps : List Packet) :
    (datagrams (Numbering.transmit.number c ps).1).map Numbering.datagram.address =
      (datagrams ps).map Numbering.datagram.address := by
  have hfound : ∀ ps, (datagrams ps).map Numbering.datagram.address =
      ((ps.map fun p => (p.header.kind, Numbering.datagram.address p)).filter
        fun a => a.1 = .datagram).map Prod.snd := by
    intro ps
    rw [List.filter_map, List.map_map]
    rfl
  rw [hfound, hfound, Numbering.transmit.map_number fun _ _ => rfl]

/-- One more batch is accepted. -/
theorem Gapless.submit (h : Gapless config messages x c batches)
    (hsame : Numbering.transmit.Counted c' batches.flatten)
    (hconnection : Numbering.connection.Counted c' messages.flatten)
    (hps : (∀ p ∈ ps, p.header.kind = .connection) ∨ Whole .datagram ps)
    (hdatagram : Numbering.datagram.Counted c' (datagrams batches.flatten ++ datagrams ps))
    (hok : x.submitAll (Desk.numberTransmit c' ps).1 = (.ok (), x')) :
    Gapless config messages x' (Desk.numberTransmit c' ps).2
      (batches ++ [(Desk.numberTransmit c' ps).1]) := by
  obtain ⟨acts, hx, haccepted⟩ := h.custody
  rw [Numbering.numberTransmit_eq] at hok ⊢
  rw [Numbering.counters_number]
  refine ⟨custody_submitAll hx haccepted hok, ?_, ?_, hconnection.other (fun _ => rfl) ps, ?_,
    h.messages⟩
  · rw [List.flatten_append, List.flatten_singleton]
    exact hsame.number ps
  · rw [List.flatten_append, List.flatten_singleton, datagrams_append]
    exact (hdatagram.other (fun _ => rfl) ps).of_address (address_datagrams_number c' ps)
  · intro b hb
    rcases List.mem_append.1 hb with hb | hb
    · exact h.batches b hb
    · rw [List.mem_singleton.1 hb]
      exact hps.imp (Numbering.transmit.forall_number (fun _ _ hp => hp) c')
        fun hwhole => hwhole.number _ (fun _ _ => rfl) (fun _ _ => rfl) c'

/-- Steps that submit nothing accept nothing. -/
theorem Gapless.work (h : Gapless config messages x c batches) {a : Transmitter.Act} (ha : a.Idle) :
    Gapless config messages (x.apply a) c batches := by
  obtain ⟨acts, hx, haccepted⟩ := h.custody
  refine { h with custody := ⟨acts ++ [a], ?_, ?_⟩ }
  · rw [Transmitter.Custody.after_concat]
    show (Transmitter.Custody.after config acts).transmitter.apply a = _
    rw [hx]
  · rw [Transmitter.Custody.after_concat, ← haccepted]
    show _ ++ (Transmitter.Custody.after config acts).transmitter.accepts a = _
    rw [Transmitter.accepts_of_idle ha, List.append_nil]

/-- What connections hand to the desk are packets of connections. -/
theorem yielding_connection (config : Config) :
    Yielding config (IsFragment config) (fun p => p.header.kind = .connection)
      (fun ps => ∀ p ∈ ps, p.header.kind = .connection) (fun _ s => s.Formed config)
      (Session.Holds config (fun p => p.header.kind = .connection) fun _ p =>
        p.header.kind = .connection) where
  lasts port := Session.lasting_holds (Session.lasting_formed config port _) {
    grows := fun _ hp => hp
    queues := fun _ hp => hp
    control := fun _ _ _ => rfl
    report := fun _ _ _ _ => rfl
    again := fun _ _ hp => hp
    message := fun _ _ _ _ hq => by
      rw [hq]
      rfl }
  told hs := { hs with }
  hands _ hs hperm p hp := hs.outbound p (hperm.mem_iff.1 hp)
  ends _ hs _ := hs.outbound
  refills hformed hs hq := hs.refill hformed hq
  fetches hs := { hs with }
  rejects _ _ := rfl
  gathers h := h

/-- The numbers stay without gaps whatever happens to an engine. -/
theorem running_gapless (config : Config) :
    Running config (fun ps => ∀ p ∈ ps, p.header.kind = .connection) (Gapless config) fun _ => True where
  accepting messages := {
    submits := fun h hps hok => h.submit h.transmit h.connection (.inl hps) (by
      rw [datagrams_of_connection hps, List.append_nil]
      exact h.datagram) hok
    appends := fun _ _ => trivial }
  datagrams := by
    intro messages x x' c batches ps h hps hok
    have hwhole := hps.whole
    rw [Numbering.numberDatagram_eq] at hok ⊢
    have hnumbered : Whole .datagram (Numbering.datagram.number c ps).1 :=
      hwhole.number _ (fun _ _ => rfl) (fun _ _ => rfl) c
    rw [Numbering.counters_number] at hok ⊢
    refine h.submit (h.transmit.other (fun _ => rfl) ps) (h.connection.other (fun _ => rfl) ps)
      (.inr hnumbered) ?_ hok
    rw [datagrams_of_datagram hnumbered.kind]
    exact h.datagram.number ps
  carries := by
    intro messages x c d batches s ps h hps hsame
    have hwhole := hps.whole.outgoing s
    rw [Numbering.numberConnection_eq]
    have hcounters : (d.countConnection (Numbering.connection.number c (s.outgoing ps)).1).counters =
        Numbering.connection.count d.counters (Numbering.connection.number c (s.outgoing ps)).1 := rfl
    rw [hcounters]
    refine ⟨h.custody, h.transmit.other (fun _ => rfl) _, h.datagram.other (fun _ => rfl) _, ?_,
      h.batches, ?_⟩
    · rw [List.flatten_append, List.flatten_singleton]
      have hbefore : Numbering.connection.Counted c messages.flatten :=
        h.connection.congr fun port => (hsame port).symm
      refine (hbefore.number (s.outgoing ps)).congr fun port => ?_
      have hnext : Numbering.connection.next (d.counters.get port) =
        Numbering.connection.next (c.get port) := hsame port
      rw [Numbering.next_count, Numbering.next_count, hnext, Numbering.length_toPort_number]
    · intro m hm
      rcases List.mem_append.1 hm with hm | hm
      · exact h.messages m hm
      · rw [List.mem_singleton.1 hm]
        refine ⟨hwhole.number _ (fun _ _ => rfl) (fun _ _ => rfl) c,
          Numbering.connection.forall_number (fun _ _ hp => hp) c fun p hp => ?_⟩
        obtain ⟨i, _, rfl⟩ := List.mem_mapIdx.1 hp
        rfl
  works := fun h ha _ => h.work ha
  calls _ _ := trivial
  switches _ _ _ := trivial

/-- After every run of an engine, the numbers of the packets to a port have no gaps: those of the order
of transmission among all packets that the transmit queue has accepted, those of the datagrams among the
datagrams, and those of connections among the packets of the messages that connections have accepted.
They stand in the order in which the packets were accepted, from 0 on, and the counters stand at the next
ones.  A call that is refused changes nothing, and a message that is not refused is taken over as a whole,
by the connection of its port if there is one. -/
theorem gapless_after (config : Config) (acts : List Act) :
    let c := Chronicle.after config acts
    Gapless config c.messages c.engine.desk.transmitter c.engine.desk.counters c.batches ∧
      (∀ a err, (c.engine.perform a).1 = .error err → c.act a = c) ∧
      ∀ now port message, (c.engine.sendMessage now port message).1 = .ok () →
        ∃ qs, qs.flatMap Packet.payload = message ∧
          ((∃ s s', c.engine.connections.session? port = some s ∧
              (c.act (.sendMessage now port message)).engine.connections.session? port = some s' ∧
              s'.inFlight.flights = s.inFlight.flights ++ qs.map (fun q => ⟨q, now, 0⟩) ∧
              (c.act (.sendMessage now port message)).messages = c.messages ++ [qs]) ∨
            c.engine.connections.session? port = none ∧
              (c.act (.sendMessage now port message)).messages = c.messages ∧
              (c.act (.sendMessage now port message)).batches = c.batches ++ [qs]) := by
  intro c
  have hsupplying := (yielding_connection config).supplying (awaits_formed config)
  have hkept := (running_gapless config).keeps_after hsupplying (gapless_new config) trivial acts
  refine ⟨hkept.owner.traffic, fun a err herr => ?_, fun now port message hok => ?_⟩
  · have htold : c.engine.connections.Told := fun port e he => (hkept.sessions port e he).2
    obtain ⟨hsame, haccepted, hcarried⟩ := perform_of_error htold herr
    unfold Chronicle.act
    rw [hsame, haccepted, hcarried, List.append_nil, List.append_nil]
  · obtain ⟨qs, hmessage, htaken⟩ := sendMessage_of_ok hkept hsupplying hok
    refine ⟨qs, hmessage, htaken.imp ?_ ?_⟩
    · rintro ⟨s, s', hs, hs', hflights, hcarried⟩
      exact ⟨s, s', hs, hs', hflights, congrArg (c.messages ++ ·) hcarried⟩
    · rintro ⟨hnone, hcarried, haccepted⟩
      refine ⟨hnone, ?_, congrArg (c.batches ++ ·) haccepted⟩
      show c.messages ++ _ = _
      rw [hcarried, List.append_nil]

end NarrowLink.Engine
