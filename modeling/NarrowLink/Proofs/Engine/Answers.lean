import NarrowLink.Proofs.Engine.Lasting
import NarrowLink.Proofs.Table.Calls

/-!
# What an engine answers

A call on an engine that is refused has no effect (`perform_of_error`).  A message that is accepted is
taken over as a whole: by the connection of its port, which has it in flight, or by the transmit queue
(`sendMessage_of_ok`).
-/

namespace NarrowLink

open Wire

namespace Connection

variable {s : Session} {now : Nat} {err : Error}

theorem Session.close_of_error (h : (s.close now).1 = .error err) : (s.close now).2 = s := by
  unfold Session.close at h ⊢
  split at h
  · rw [Session.postNumbered_eq] at h ⊢
    split at h
    · rename_i hn
      split at hn <;> cases hn
      cases h
    · rename_i hn
      split at hn <;> cases hn
      rfl
  · cases h
  · rfl
  · rfl
  · rfl

theorem Session.send_of_error {α : Type} {ps : List Packet} {number : List Packet → List Packet × α}
    (hnumber : NumbersFragments number) (h : (s.send ps now number).1 = .error err) :
    (s.send ps now number).2 = s := by
  by_cases hroom : s.HasRoom ps
  · rw [Session.send_of_hasRoom now hnumber hroom] at h
    cases h
  · unfold Session.send
    rw [Session.admits_of_not_hasRoom hroom]

namespace Table

variable {σ α : Type} {o : Owner σ} {t : Table σ} {port : UInt8}

/-- Nothing happens if nothing happens to the connection. -/
theorem onSession_of_same (ht : t.Told) {f : Session → α × Session}
    (hf : ∀ s, t.session? port = some s → (f s).2 = s) : (t.onSession o port f).2 = t := by
  unfold Table.onSession
  cases he : t.entries.get port with
  | none => rfl
  | some e =>
    have hsame : (f e.session).2 = e.session := hf e.session (by
      unfold Table.session?
      rw [he]
      rfl)
    have hevents : e.session.events = [] := ht port e he
    have htaken : e.session.takeEvents = ([], e.session) := by
      unfold Session.takeEvents
      rw [hevents]
      exact congrArg (Prod.mk _) (by rw [← hevents])
    have hset : t.entries.set port (some e) = t.entries := by
      refine ByteMap.ext fun other => ?_
      rw [ByteMap.get_set]
      split
      · rename_i hport
        rw [← he, hport]
      · rfl
    simp only
    rw [hsame, htaken]
    show ({ t with entries := t.entries.set port (some e) } : Table σ).tell o port e.serial [] = t
    rw [hset]
    rfl

/-- Who asks a connection is given its answer. -/
theorem session_of_answer {missing : Error} {f : Session → Except Error α × Session}
    {answer : Except Error α} (h : (orElse missing (t.onSession o port f)).1 = answer) {s : Session}
    (hs : t.session? port = some s) : (f s).1 = answer := by
  unfold Table.session? at hs
  unfold Table.orElse Table.onSession at h
  cases he : t.entries.get port with
  | none =>
    rw [he] at hs
    cases hs
  | some e =>
    rw [he] at hs h
    cases hs
    exact h

theorem close_of_error (ht : t.Told) (h : (t.close o now port).1 = .error err) :
    (t.close o now port).2 = t :=
  onSession_of_same ht fun _ hs => Session.close_of_error (session_of_answer h hs)

theorem reset_of_error (ht : t.Told) (h : (t.reset o port).1 = .error err) :
    (t.reset o port).2 = t :=
  onSession_of_same ht fun _ hs => nomatch session_of_answer h hs

theorem connect_of_error {localPort remotePort channel : UInt8} {options : Options}
    (h : (t.connect o now localPort remotePort channel options).1 = .error err) :
    (t.connect o now localPort remotePort channel options).2 = t := by
  unfold Table.connect at h ⊢
  split
  · rfl
  rename_i hlocal
  rw [if_neg hlocal] at h
  split
  · rfl
  rename_i hremote
  rw [if_neg hremote] at h
  split
  · rfl
  rename_i hfree
  rw [if_neg hfree] at h
  split
  · rfl
  · rename_i heq
    rw [heq] at h
    cases h

theorem send_of_error (ht : t.Told) {ps : List Packet} {number : List Packet → List Packet × α}
    (hnumber : NumbersFragments number) (h : (t.send o now port ps number).1 = .error err) :
    (t.send o now port ps number).2 = t :=
  onSession_of_same ht fun _ hs => Session.send_of_error hnumber (session_of_answer h hs)

end Table

end Connection

namespace Engine

open Connection (Owner Table)

variable {σ : Type} {o : Owner σ} {t : Table σ} {e : Engine} {now : Nat} {port : UInt8}
  {ps : List Packet} {c : ByteMap Counters} {err : Error}

theorem passage_of_error (ht : t.Told) (h : (passage o c now port ps t).1 = .error err) :
    (passage o c now port ps t).2 = t := by
  rcases passage_cases o c now port ps t with hsend | ⟨err', hrefused⟩
  · rw [hsend] at h ⊢
    exact Table.send_of_error ht (numbersFragments c) h
  · rw [hrefused]

/-- Nothing is accepted during calls that have no effect. -/
theorem acceptedDuring_of_same {t : Table Desk} {calls : Table Logged → Table Logged}
    (h : calls (withRecord t []) = withRecord t []) : acceptedDuring t calls = [] := by
  unfold acceptedDuring
  rw [h]
  rfl

/-- Where the desk answers with an error, so does the owner that also keeps a record. -/
theorem answer_withRecord {α : Type} {r : Attempt (Table Logged) α}
    {r' : Attempt (Table Desk) α} (h : Prod.map id (Table.view Logged.desk) r = r')
    (he : r'.1 = .error err) : r.1 = .error err := by
  rw [← h] at he
  exact he

theorem submit_of_error {d : Desk} (h : (d.submit ps).1 = .error err) :
    (d.submit ps).2 = d ∧ d.accepted ps = [] := by
  unfold Desk.accepted
  cases hsubmit : d.submit ps with
  | mk answer d' =>
    rw [hsubmit] at h
    cases answer with
    | ok => cases h
    | error => exact ⟨submit_error hsubmit, rfl⟩

theorem submitDatagram_of_error {d : Desk} (h : (d.submitDatagram ps).1 = .error err) :
    (d.submitDatagram ps).2 = d ∧ d.acceptedDatagram ps = [] := by
  unfold Desk.submitDatagram at h ⊢
  unfold Desk.acceptedDatagram
  simp only at h ⊢
  cases hsubmit : ({ d with counters := (Desk.numberDatagram d.counters ps).2 } : Desk).submit
      (Desk.numberDatagram d.counters ps).1 with
  | mk answer d' =>
    rw [hsubmit] at h
    cases answer with
    | ok => cases h
    | error => exact ⟨rfl, (submit_of_error (congrArg Prod.fst hsubmit)).2⟩

theorem bind_of_error {b : Binding} (h : (e.bind port b).1 = .error err) : (e.bind port b).2 = e := by
  unfold Engine.bind at h ⊢
  split
  · rfl
  rename_i hport
  rw [if_neg hport] at h
  split
  · rfl
  rename_i hremote
  rw [if_neg hremote] at h
  split
  · rfl
  rename_i hbusy
  rw [if_neg hbusy] at h
  cases h

theorem openConnection_of_error {localPort remotePort : UInt8} {options : Connection.Options}
    (h : (e.openConnection now localPort remotePort options).1 = .error err) :
    (e.openConnection now localPort remotePort options).2 = e ∧
      e.accepted (.openConnection now localPort remotePort options) = [] := by
  simp only [accepted]
  rw [openConnection_eq] at h ⊢
  cases hready : e.ready localPort with
  | error => exact ⟨rfl, rfl⟩
  | ok b =>
    rw [hready] at h
    simp only at h ⊢
    cases hconnect : e.connections.connect attending now localPort remotePort b.channel options with
    | mk answer t =>
      rw [hconnect] at h
      cases answer with
      | ok => cases h
      | error err' =>
        have hrefused := congrArg Prod.fst hconnect
        have hsame := Table.connect_of_error hrefused
        rw [hconnect] at hsame
        exact ⟨congrArg Engine.mk hsame, acceptedDuring_of_same (Table.connect_of_error
          (answer_withRecord (logging_shows.connect _ now localPort remotePort b.channel options) hrefused))⟩

theorem sendMessage_of_error (ht : e.connections.Told) {message : List UInt8}
    (h : (e.sendMessage now port message).1 = .error err) :
    (e.sendMessage now port message).2 = e ∧ e.accepted (.sendMessage now port message) = [] ∧
      e.carried (.sendMessage now port message) = [] := by
  have ht' : (withRecord e.connections []).Told := ht
  simp only [accepted, carried]
  rw [sendMessage_eq] at h ⊢
  cases hroute : e.route port message with
  | error => exact ⟨rfl, rfl, rfl⟩
  | ok routed =>
    obtain ⟨connected, ps⟩ := routed
    rw [hroute] at h
    cases connected with
    | false =>
      obtain ⟨hsame, hnothing⟩ := submitDatagram_of_error h
      refine ⟨?_, hnothing, rfl⟩
      simp only
      rw [hsame]
      rfl
    | true =>
      simp only at h ⊢
      rw [sendThroughConnection_eq] at h ⊢
      cases hpassage : passage attending e.desk.counters now port ps e.connections with
      | mk answer t =>
        rw [hpassage] at h
        cases answer with
        | ok => cases h
        | error err' =>
          have hrefused := congrArg Prod.fst hpassage
          have hsame := passage_of_error ht hrefused
          rw [hpassage] at hsame
          exact ⟨congrArg Engine.mk hsame, acceptedDuring_of_same (passage_of_error ht'
            (answer_withRecord (passage_view logging_shows e.desk.counters now port ps _) hrefused)), rfl⟩

/-- A call that is refused has no effect, and nothing is accepted meanwhile. -/
theorem perform_of_error (ht : e.connections.Told) {a : Act} (h : (e.perform a).1 = .error err) :
    (e.perform a).2 = e ∧ e.accepted a = [] ∧ e.carried a = [] := by
  have ht' : (withRecord e.connections []).Told := ht
  cases a with
  | bind port b => exact ⟨bind_of_error h, rfl, rfl⟩
  | unbind now port =>
    unfold perform Engine.unbind at h ⊢
    simp only [accepted, carried] at h ⊢
    cases hbinding : e.desk.binding port with
    | error => exact ⟨rfl, rfl, trivial⟩
    | ok =>
      rw [hbinding] at h
      cases h
  | closeConnection now port =>
    have hlogged : ((withRecord e.connections []).close logging now port).1 = .error err :=
      answer_withRecord (logging_shows.close _ now port) h
    have hsilent : acceptedDuring e.connections (fun t => (t.close logging now port).2) = [] :=
      acceptedDuring_of_same (Table.close_of_error ht' hlogged)
    exact ⟨congrArg Engine.mk (Table.close_of_error ht h), hsilent, rfl⟩
  | openConnection now localPort remotePort options =>
    obtain ⟨hsame, hsilent⟩ := openConnection_of_error h
    exact ⟨hsame, hsilent, rfl⟩
  | sendMessage now port message => exact sendMessage_of_error ht h
  | resetConnection port =>
    have hlogged : ((withRecord e.connections []).reset logging port).1 = .error err :=
      answer_withRecord (logging_shows.reset _ port) h
    have hsilent : acceptedDuring e.connections (fun t => (t.reset logging port).2) = [] :=
      acceptedDuring_of_same (Table.reset_of_error ht' hlogged)
    exact ⟨congrArg Engine.mk (Table.reset_of_error ht h), hsilent, rfl⟩
  | _ => cases h

/-! ## Messages that are accepted -/

variable {config : Config} {End : Packet → Prop} {Out : List Packet → Prop}
  {P : Bool → UInt8 → Connection.Session → Prop}
  {T : Transmitter → ByteMap Counters → List (List Packet) → Prop} {R : Reassembly → Prop}
  {batches : List (List Packet)}

theorem submitDatagram_of_ok {d : Desk} (h : (d.submitDatagram ps).1 = .ok ()) :
    ∃ qs, d.acceptedDatagram ps = [qs] ∧ qs.map Packet.payload = ps.map Packet.payload := by
  unfold Desk.submitDatagram at h
  unfold Desk.acceptedDatagram Desk.accepted
  simp only at h ⊢
  cases hsubmit : ({ d with counters := (Desk.numberDatagram d.counters ps).2 } : Desk).submit
      (Desk.numberDatagram d.counters ps).1 with
  | mk answer d' =>
    rw [hsubmit] at h
    cases answer with
    | error => cases h
    | ok =>
      refine ⟨_, rfl, ?_⟩
      rw [Numbering.numberTransmit_eq, Numbering.transmit.map_number fun _ _ => rfl,
        Numbering.numberDatagram_eq, Numbering.datagram.map_number fun _ _ => rfl]

/-- A connection that is not being reset is there after its packets were asked for, with another queue. -/
theorem Forwards.entry {t t' : Table Desk} {other : UInt8} (h : Forwards t port t' batches)
    {e : Connection.Entry} (he : t.entries.get other = some e) (hst : e.session.state ≠ .resetting) :
    ∃ e' q, t'.entries.get other = some e' ∧ e'.session = { e.session with outbound := q } := by
  obtain ⟨e', he'⟩ := Option.isSome_iff_exists.1 (h.stays other e he hst)
  rcases h.entries other e' he' with hsame | ⟨rfl, e₁, q, he₁, -, hsession⟩
  · rw [he] at hsame
    cases hsame
    exact ⟨e, e.session.outbound, he', rfl⟩
  · rw [he] at he₁
    cases he₁
    exact ⟨e', q, he', hsession⟩

/-- A session with room for a message has it in flight and queued, and says so. -/
theorem dispatch_eq {s : Connection.Session} (hevents : s.events = []) (qs : List Packet) (now : Nat) :
    ∃ nextSeq outbound, s.dispatch qs now = { s with
      nextSeq := nextSeq
      inFlight := ⟨s.inFlight.flights ++ qs.map fun q => ⟨q, now, 0⟩⟩
      outbound := outbound
      events := [.outboundAvailable s.localPort] } := by
  refine ⟨(s.dispatch qs now).nextSeq, (s.dispatch qs now).outbound, ?_⟩
  unfold Connection.Session.dispatch
  rw [Connection.Session.raise_eq, hevents]
  rfl

/-- When a connection accepts a message, its owner is told one thing, and takes what is queued. -/
theorem passage_eq_forward {e₀ : Connection.Entry} (he : e.connections.entries.get port = some e₀)
    (hroom : e₀.session.HasRoom ps) (hevents : e₀.session.events = [])
    (hok : (passage attending c now port ps e.connections).1 =
      .ok (Desk.numberConnection c (e₀.session.outgoing ps)).1) :
    (passage attending c now port ps e.connections).2 =
      forwardOutbound { e.connections with
        entries := e.connections.entries.set port (some ⟨e₀.serial,
          (e₀.session.dispatch (Desk.numberConnection c (e₀.session.outgoing ps)).1 now).takeEvents.2⟩) }
        e₀.session.localPort := by
  obtain ⟨nextSeq, outbound, hdispatch⟩ :=
    dispatch_eq hevents (Desk.numberConnection c (e₀.session.outgoing ps)).1 now
  rw [passage_eq_send hok]
  unfold Table.send Table.orElse Table.onSession
  rw [he]
  simp only
  rw [Connection.Session.send_of_hasRoom now (numbersFragments c) hroom, hdispatch]
  rfl

/-- The connection that accepts a message has it in flight. -/
theorem passage_inFlight (h : Keeping config End T R P e batches)
    (hp : Supplying config (IsFragment config) End Out P) (hps : Fragmented config .connection ps)
    {qs : List Packet} (hok : (passage attending c now port ps e.connections).1 = .ok qs) :
    ∃ s s', e.connections.session? port = some s ∧
      (passage attending c now port ps e.connections).2.session? port = some s' ∧
      s'.inFlight.flights = s.inFlight.flights ++ qs.map fun q => ⟨q, now, 0⟩ := by
  obtain ⟨e₀, he, hroom, rfl⟩ := passage_ok hok
  have hevents : e₀.session.events = [] := (h.sessions port e₀ he).2
  have htable := passage_eq_forward he hroom hevents hok
  have hkept := hp.enduring.send now (numbersFragments c) hps.ne_nil
    (fun p hmem => (⟨ps, hps, hmem⟩ : IsFragment config p)) (by simpa using (h.sessions port e₀ he).1)
    hevents
  rw [Connection.Session.send_of_hasRoom now (numbersFragments c) hroom] at hkept
  have hset := h.set hp.enduring hkept.1 e₀.serial e.connections.nextSerial
  let s := e₀.session.dispatch (Desk.numberConnection c (e₀.session.outgoing ps)).1 now
  let t : Table Desk := { e.connections with
    entries := e.connections.entries.set port (some ⟨e₀.serial, s.takeEvents.2⟩) }
  obtain ⟨nextSeq, outbound, hs⟩ :=
    dispatch_eq hevents (Desk.numberConnection c (e₀.session.outgoing ps)).1 now
  have hst : s.takeEvents.2.state ≠ .resetting := by
    show s.state ≠ .resetting
    unfold s
    rw [hs]
    show e₀.session.state ≠ .resetting
    rw [hroom.connected]
    decide
  have hforwards : Forwards t e₀.session.localPort _ _ := forwards fun e' he' =>
    ⟨hp.formed (hset.sessions _ e' he').1, (hset.sessions _ e' he').2⟩
  obtain ⟨e', q, he', hsession⟩ := hforwards.entry (ByteMap.get_set_self _ port _) hst
  refine ⟨e₀.session, e'.session, ?_, ?_, ?_⟩
  · unfold Table.session?
    rw [he]
    rfl
  · unfold Table.session?
    rw [htable, he']
    rfl
  · rw [hsession]
    show s.inFlight.flights = _
    unfold s
    rw [hs]

/-- A message that is accepted is taken over as a whole, in fragments that make it up: the connection of
its port has them in flight, or the transmit queue has accepted them. -/
theorem sendMessage_of_ok (h : Keeping config End T R P e batches)
    (hp : Supplying config (IsFragment config) End Out P) {message : List UInt8}
    (hok : (e.sendMessage now port message).1 = .ok ()) :
    ∃ qs, qs.flatMap Packet.payload = message ∧
      ((∃ s s', e.connections.session? port = some s ∧
          (e.sendMessage now port message).2.connections.session? port = some s' ∧
          s'.inFlight.flights = s.inFlight.flights ++ qs.map (fun q => ⟨q, now, 0⟩) ∧
          e.carried (.sendMessage now port message) = [qs]) ∨
        e.connections.session? port = none ∧ e.carried (.sendMessage now port message) = [] ∧
          e.accepted (.sendMessage now port message) = [qs]) := by
  rw [sendMessage_eq] at hok ⊢
  simp only [accepted, carried]
  cases hroute : e.route port message with
  | error =>
    rw [hroute] at hok
    cases hok
  | ok routed =>
    obtain ⟨connected, ps⟩ := routed
    have hps := h.fragmented_of_route hroute
    rw [hroute] at hok
    obtain ⟨hconnected, -, b, hfragments⟩ := route_eq_ok hroute
    have hcontent : ps.map Packet.payload = pieces e.config.maxPayload message := by
      rw [hfragments]
      exact map_payload_fragmentsOf _ _ _
    have hmessage : ∀ {qs : List Packet}, qs.map Packet.payload = ps.map Packet.payload →
        qs.flatMap Packet.payload = message := by
      intro qs hqs
      rw [List.flatMap_def, hqs, hcontent]
      exact flatten_pieces _ _
    cases connected with
    | false =>
      have hnone : e.connections.session? port = none :=
        Option.isNone_iff_eq_none.1 (Option.isSome_eq_false_iff.1 hconnected.symm)
      obtain ⟨qs, hqs, hpayloads⟩ := submitDatagram_of_ok hok
      exact ⟨qs, hmessage hpayloads, .inr ⟨hnone, rfl, hqs⟩⟩
    | true =>
      simp only at hok ⊢
      rw [sendThroughConnection_eq] at hok ⊢
      cases hpassage : passage attending e.desk.counters now port ps e.connections with
      | mk answer t =>
        rw [hpassage] at hok
        cases answer with
        | error => cases hok
        | ok qs =>
          have hanswer := congrArg Prod.fst hpassage
          obtain ⟨s, s', hs, hs', hflights⟩ := passage_inFlight h hp hps hanswer
          obtain ⟨e₀, -, -, hqs⟩ := passage_ok hanswer
          rw [hpassage] at hs'
          refine ⟨qs, hmessage ?_, .inl ⟨s, s', hs, hs', hflights, rfl⟩⟩
          rw [hqs, Numbering.numberConnection_eq, Numbering.connection.map_number fun _ _ => rfl]
          exact e₀.session.map_outgoing (fun _ _ => rfl) ps

end Engine

end NarrowLink
