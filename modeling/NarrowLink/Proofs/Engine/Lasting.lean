import NarrowLink.Proofs.Engine.Fragments
import NarrowLink.Proofs.Engine.Keeping
import NarrowLink.Proofs.Engine.Numbering
import NarrowLink.Proofs.Transmitter.Turns

/-!
# What lasts in an engine

A property of the transmitter, the counters and what was accepted that survives every batch that the
transmit queue accepts, every message that a connection accepts and every step of a worker
(`Running`), together with a property of the connections (`Supplying`), holds through all runs of an
engine (`keeps_after`).
-/

namespace NarrowLink.Engine

open Wire
open Connection (Event Options Owner Session Table)

/-- The packets are the fragments of a message within the limits of a configuration. -/
def Fragmented (config : Config) (kind : Kind) (ps : List Packet) : Prop :=
  ∃ src dst channel message, message.length ≤ config.maxMessage ∧
    ps = fragments config src dst kind channel message

theorem Fragmented.ne_nil {config : Config} {kind : Kind} {ps : List Packet}
    (h : Fragmented config kind ps) : ps ≠ [] := by
  obtain ⟨src, dst, channel, message, -, rfl⟩ := h
  rw [← List.length_pos_iff, fragments, length_fragmentsOf]
  exact List.length_pos_iff.2 (piecesUpTo_ne_nil _ _ _)

/-- The packet is a fragment of a message that goes through a connection. -/
def IsFragment (config : Config) (p : Packet) : Prop :=
  ∃ ps, Fragmented config .connection ps ∧ p ∈ ps

/-- The counters of the fragments that go through connections are the same. -/
def SameCarried (c c' : ByteMap Counters) : Prop :=
  ∀ port, (c'.get port).connectionFrag = (c.get port).connectionFrag

/-- A property of the messages that connections have accepted, the transmitter, the counters and what the
transmit queue has accepted, and one of reassembly, which survive everything that happens to an engine.
No worker is started before the last one has ended.  While a connection tells that it has accepted a
message, the counters do not know of it yet. -/
structure Running (config : Config) (Out : List Packet → Prop)
    (T : List (List Packet) → Transmitter → ByteMap Counters → List (List Packet) → Prop)
    (R : Reassembly → Prop) : Prop where
  accepting : ∀ messages, Accepting Out (T messages) R
  datagrams : ∀ {messages : List (List Packet)} {x x' : Transmitter} {c : ByteMap Counters}
    {batches : List (List Packet)} {ps : List Packet}, T messages x c batches →
    Fragmented config .datagram ps →
    x.submitAll (Desk.numberTransmit (Desk.numberDatagram c ps).2 (Desk.numberDatagram c ps).1).1 =
      (.ok (), x') →
    T messages x' (Desk.numberTransmit (Desk.numberDatagram c ps).2 (Desk.numberDatagram c ps).1).2
      (batches ++
        [(Desk.numberTransmit (Desk.numberDatagram c ps).2 (Desk.numberDatagram c ps).1).1])
  carries : ∀ {messages : List (List Packet)} {x : Transmitter} {c : ByteMap Counters} {d : Desk}
    {batches : List (List Packet)} (s : Session) {ps : List Packet}, T messages x d.counters batches →
    Fragmented config .connection ps → SameCarried c d.counters →
    T (messages ++ [(Desk.numberConnection c (s.outgoing ps)).1]) x
      (d.countConnection (Desk.numberConnection c (s.outgoing ps)).1).counters batches
  works : ∀ {messages : List (List Packet)} {x : Transmitter} {c : ByteMap Counters}
    {batches : List (List Packet)} {a : Transmitter.Act}, T messages x c batches → a.Idle →
    (a = .start → x.busy = false) → T messages (x.apply a) c batches
  calls : ∀ {r : Reassembly} (c : Reassembly.Call), R r → R (r.apply c)
  switches : ∀ {r : Reassembly} (active : Bool) (corruptFrames : Nat), R r →
    R { r with active := active, corruptFrames := corruptFrames }

variable {config : Config} {End : Packet → Prop} {Out : List Packet → Prop}
  {P : Bool → UInt8 → Session → Prop}
  {T : Transmitter → ByteMap Counters → List (List Packet) → Prop}
  {M : List (List Packet) → Transmitter → ByteMap Counters → List (List Packet) → Prop}
  {R : Reassembly → Prop} {e : Engine} {batches messages : List (List Packet)}

/-- Fragments that go through a connection get fragment numbers only. -/
theorem numbersFragments (c : ByteMap Counters) : Connection.NumbersFragments fun stamped =>
    ((Desk.numberConnection c stamped).1, (Desk.numberConnection c stamped).1) := by
  intro qs
  show List.Forall₂ Connection.Renumbered qs (Desk.numberConnection c qs).1
  induction qs generalizing c with
  | nil => exact .nil
  | cons q qs ih => exact .cons rfl (ih _)

/-- A message is sent through a connection, or refused before that. -/
theorem passage_cases {σ : Type} (o : Owner σ) (c : ByteMap Counters) (now : Nat) (port : UInt8)
    (ps : List Packet) (t : Table σ) :
    (passage o c now port ps t = t.send o now port ps fun stamped =>
      ((Desk.numberConnection c stamped).1, (Desk.numberConnection c stamped).1)) ∨
    ∃ err, passage o c now port ps t = (.error err, t) := by
  unfold passage
  cases t.config.sendTimeout with
  | none => exact .inl rfl
  | some wait =>
    simp only
    unfold Table.sendWaiting
    cases t.session? port with
    | none => exact .inr ⟨_, rfl⟩
    | some s =>
      simp only
      cases s.admits ps with
      | error => exact .inr ⟨_, rfl⟩
      | ok => exact .inl rfl

/-- A message that a connection accepts is sent. -/
theorem passage_eq_send {σ : Type} {o : Owner σ} {c : ByteMap Counters} {now : Nat} {port : UInt8}
    {ps qs : List Packet} {t : Table σ} (h : (passage o c now port ps t).1 = .ok qs) :
    passage o c now port ps t = t.send o now port ps fun stamped =>
      ((Desk.numberConnection c stamped).1, (Desk.numberConnection c stamped).1) := by
  rcases passage_cases o c now port ps t with hsend | ⟨err, hrefused⟩
  · exact hsend
  · rw [hrefused] at h
    cases h

/-- A connection that accepts packets has room for them, and they get the next fragment numbers. -/
theorem passage_ok {σ : Type} {o : Owner σ} {c : ByteMap Counters} {now : Nat} {port : UInt8}
    {ps qs : List Packet} {t : Table σ} (h : (passage o c now port ps t).1 = .ok qs) :
    ∃ e, t.entries.get port = some e ∧ e.session.HasRoom ps ∧
      qs = (Desk.numberConnection c (e.session.outgoing ps)).1 := by
  rw [passage_eq_send h] at h
  unfold Table.send Table.orElse Table.onSession at h
  cases he : t.entries.get port with
  | none =>
    rw [he] at h
    cases h
  | some e =>
    rw [he] at h
    refine ⟨e, rfl, ?_⟩
    have hanswer : (e.session.send ps now fun stamped =>
        ((Desk.numberConnection c stamped).1, (Desk.numberConnection c stamped).1)).1 = .ok qs := h
    by_cases hroom : e.session.HasRoom ps
    · rw [Session.send_of_hasRoom now (numbersFragments c) hroom] at hanswer
      cases hanswer
      exact ⟨hroom, rfl⟩
    · unfold Session.send at hanswer
      rw [Session.admits_of_not_hasRoom hroom] at hanswer
      cases hanswer

/-- What connections do to the desk does not count the fragments that went through them. -/
theorem Accepting.uncounted (h : Accepting Out T R) (c : ByteMap Counters) :
    Accepting Out (fun x c' batches => T x c' batches ∧ SameCarried c c') R where
  submits := by
    intro x x' c' batches ps hx hps hok
    refine ⟨h.submits hx.1 hps hok, fun port => ?_⟩
    rw [Numbering.numberTransmit_eq, Numbering.counters_number]
    exact (Numbering.next_count_of_frame (n := .transmit) (m := .connection) (fun _ => rfl) c' ps
      port).trans (hx.2 port)
  appends := h.appends

/-- The engine with a record keeps the properties. -/
abbrev Keeping (config : Config) (End : Packet → Prop)
    (T : Transmitter → ByteMap Counters → List (List Packet) → Prop) (R : Reassembly → Prop)
    (P : Bool → UInt8 → Session → Prop) (e : Engine) (batches : List (List Packet)) : Prop :=
  (withRecord e.connections batches).Keeps config (Logged.Has End T R) P none

namespace Keeping

theorem onDesk (h : Keeping config End T R P e batches) {f : Desk → Desk} {more : List (List Packet)}
    (hf : Logged.Has End T R ⟨f e.desk, batches ++ more⟩) :
    Keeping config End T R P (e.onDesk f) (batches ++ more) :=
  ⟨h.config, hf, h.sessions⟩

theorem onDesk_quiet {T' : Transmitter → ByteMap Counters → List (List Packet) → Prop}
    (h : Keeping config End T R P e batches) {f : Desk → Desk}
    (hf : Logged.Has End T' R ⟨f e.desk, batches⟩) :
    Keeping config End T' R P (e.onDesk f) batches :=
  ⟨h.config, hf, h.sessions⟩

/-- The fragments of a message that may be sent. -/
theorem fragmented_of_route (h : Keeping config End T R P e batches) {port : UInt8}
    {message : List UInt8} {connected : Bool} {ps : List Packet}
    (hroute : e.route port message = .ok (connected, ps)) :
    Fragmented config (if connected then .connection else .datagram) ps := by
  have hconfig : e.config = config := h.config
  obtain ⟨-, hlimit, b, rfl⟩ := route_eq_ok hroute
  refine ⟨port, b.remotePort, b.channel, message, ?_, by rw [hconfig]⟩
  refine Nat.le_trans hlimit ?_
  unfold messageLimit Config.maxMessage
  rw [hconfig, Nat.mul_comm]
  refine Nat.mul_le_mul_left _ ?_
  split
  · exact Nat.min_le_left _ _
  · exact Nat.le_refl _

/-- Calls on the table of connections. -/
theorem calls (h : Keeping config End T R P e batches)
    {c : {σ : Type} → Owner σ → Table σ → Table σ}
    (hview : ∀ {σ τ : Type} {f : σ → τ} {o : Owner σ} {o' : Owner τ}, Owner.Shows f o o' →
      ∀ t, (c o t).view f = c o' (t.view f))
    (hcalls : ∀ t : Table Logged, t.Keeps config (Logged.Has End T R) P none →
      (c logging t).Keeps config (Logged.Has End T R) P none) :
    Keeping config End T R P ⟨c attending e.connections⟩
      (batches ++ acceptedDuring e.connections (c logging)) := by
  have hkept := hcalls _ h
  rw [calls_withRecord hview] at hkept
  exact hkept

theorem passage (h : Keeping config End T R P e batches)
    (hp : Supplying config (IsFragment config) End Out P) (ha : Accepting Out T R) (c : ByteMap Counters)
    (now : Nat) (port : UInt8) {ps : List Packet} (hps : Fragmented config .connection ps) :
    Keeping config End T R P ⟨(Engine.passage attending c now port ps e.connections).2⟩
      (batches ++ acceptedDuring e.connections fun t => (Engine.passage logging c now port ps t).2) := by
  have happ : ∀ p ∈ ps, IsFragment config p := fun p hmem => ⟨ps, hps, hmem⟩
  have hne := hps.ne_nil
  refine h.calls (c := fun o t => (Engine.passage o c now port ps t).2)
    (fun hs t => congrArg Prod.snd (passage_view hs c now port ps t)) fun t ht => ?_
  unfold Engine.passage
  simp only
  split
  · exact ht.sendWaiting (heeding hp ha) hp.enduring now port (numbersFragments c) hne happ
  · exact ht.send (heeding hp ha) hp.enduring now port (numbersFragments c) hne happ

/-- Nothing has been counted since now. -/
theorem uncounted (h : Keeping config End T R P e batches) :
    Keeping config End (fun x c batches => T x c batches ∧ SameCarried e.desk.counters c) R P e
      batches :=
  ⟨h.config, ⟨⟨h.owner.traffic, fun _ => rfl⟩, h.owner.held, h.owner.reassembly⟩, h.sessions⟩

theorem counted {c : ByteMap Counters}
    (h : Keeping config End (fun x c' batches => T x c' batches ∧ SameCarried c c') R P e batches) :
    Keeping config End T R P e batches :=
  ⟨h.config, ⟨h.owner.traffic.1, h.owner.held, h.owner.reassembly⟩, h.sessions⟩

end Keeping

namespace Running

variable (hr : Running config Out M R)

include hr

theorem take {r : Reassembly} (h : R r) : R r.take.2 := hr.calls .take h

theorem takeAll {r : Reassembly} (h : R r) : R r.takeAll.2 := by
  have hupto : ∀ n (r : Reassembly), R r → R (r.takeAllUpTo n).2 := by
    intro n
    induction n with
    | zero => exact fun _ h => h
    | succ n ih =>
      intro r h
      have htaken : R r.takeIfActive.2 := by
        unfold Reassembly.takeIfActive
        split
        · exact hr.take h
        · exact h
      unfold Reassembly.takeAllUpTo
      split
      · rename_i heq
        rwa [heq] at htaken
      · rename_i heq
        rw [heq] at htaken
        exact ih _ htaken
  exact hupto _ r h

theorem readFrame {r : Reassembly} (h : R r) (channel : UInt8) (frame : List UInt8) :
    R (r.readFrame channel frame).2 := by
  unfold Reassembly.readFrame
  split
  · exact h
  split
  · exact hr.switches r.active _ h
  · exact h

/-- Datagrams are queued, all or none. -/
theorem submitDatagram {d : Desk} {ps : List Packet} (h : Logged.Has End (M messages) R ⟨d, batches⟩)
    (hps : Fragmented config .datagram ps) :
    Logged.Has End (M messages) R ⟨(d.submitDatagram ps).2, batches ++ d.acceptedDatagram ps⟩ := by
  unfold Desk.submitDatagram Desk.acceptedDatagram Desk.accepted
  simp only
  cases hsubmit : ({ d with counters := (Desk.numberDatagram d.counters ps).2 } : Desk).submit
      (Desk.numberDatagram d.counters ps).1 with
  | mk answer d' =>
    cases answer with
    | ok =>
      obtain ⟨x, hx, rfl⟩ := submit_ok hsubmit
      exact ⟨hr.datagrams h.traffic hps hx, h.held, h.reassembly⟩
    | error =>
      rw [List.append_nil]
      exact h

/-- Resets that wait for room are queued, all or none. -/
theorem retryResets (hp : Supplying config (IsFragment config) End Out P) {d : Desk}
    (h : Logged.Has End (M messages) R ⟨d, batches⟩) :
    Logged.Has End (M messages) R ⟨d.retryResets, batches ++ d.acceptedResets⟩ := by
  unfold Desk.retryResets Desk.acceptedResets Desk.accepted
  cases hheld : d.heldResets with
  | nil =>
    rw [List.append_nil]
    exact h
  | cons p ps =>
    have hcleared : Logged.Has End (M messages) R ⟨{ d with heldResets := [] }, batches⟩ :=
      ⟨h.traffic, fun p hp => absurd hp List.not_mem_nil, h.reassembly⟩
    simp only
    cases hsubmit : ({ d with heldResets := [] } : Desk).submit (p :: ps) with
    | mk answer d' =>
      cases answer with
      | ok =>
        have hout : Out (p :: ps) := hp.gathers (hheld ▸ h.held)
        exact (hr.accepting messages).submit (d := { d with heldResets := [] }) hcleared hout hsubmit
      | error =>
        rw [List.append_nil]
        exact h

variable (hp : Supplying config (IsFragment config) End Out P)
  (h : Keeping config End (M messages) R P e batches)

include hp h

theorem stop : Keeping config End (M messages) R P e.stop (batches ++ e.accepted .stop) := by
  unfold Engine.stop
  simp only [accepted]
  cases hactive : e.desk.active with
  | false =>
    simp only [Bool.not_false, if_true, Bool.false_eq_true, if_false, List.append_nil]
    exact h
  | true =>
    simp only [Bool.not_true, Bool.false_eq_true, if_false, if_true]
    have hstopped : Keeping config End (M messages) R P (e.onDesk fun d => { d with active := false }) batches :=
      h.onDesk_quiet ⟨h.owner.traffic, h.owner.held, h.owner.reassembly⟩
    have hreset := hstopped.calls (c := fun o t => t.resetAll o) (fun hs t => hs.resetAll t)
      fun t ht => ht.resetAll (heeding hp (hr.accepting messages)) hp.enduring
    have hhalted := hr.works (a := .halt) hreset.owner.traffic trivial nofun
    exact hreset.onDesk_quiet ⟨hr.works (a := .detach) hhalted trivial nofun, hreset.owner.held,
      hr.switches false _ hreset.owner.reassembly⟩

theorem close (now : Nat) (port : UInt8) :
    Keeping config End (M messages) R P (e.closeConnection now port).2
      (batches ++ acceptedDuring e.connections fun t => (t.close logging now port).2) :=
  h.calls (c := fun o t => (t.close o now port).2)
    (fun hs t => congrArg Prod.snd (hs.close t now port))
    fun _ ht => ht.close (heeding hp (hr.accepting messages)) hp.enduring now port

theorem unbind (now : Nat) (port : UInt8) :
    Keeping config End (M messages) R P (e.unbind now port).2 (batches ++ e.accepted (.unbind now port)) := by
  unfold Engine.unbind
  simp only [accepted]
  cases e.desk.binding port with
  | error =>
    simp only [List.append_nil]
    exact h
  | ok =>
    have hunbound : Keeping config End (M messages) R P
        (e.onDesk fun d => { d with bindings := d.bindings.set port none }) batches :=
      h.onDesk_quiet ⟨h.owner.traffic, h.owner.held, h.owner.reassembly⟩
    exact hr.close hp hunbound now port

theorem sendMessage (now : Nat) (port : UInt8) (message : List UInt8) :
    Keeping config End (M (messages ++ e.carried (.sendMessage now port message))) R P
      (e.sendMessage now port message).2 (batches ++ e.accepted (.sendMessage now port message)) := by
  rw [sendMessage_eq]
  simp only [accepted, carried]
  cases hroute : e.route port message with
  | error =>
    simp only [List.append_nil]
    exact h
  | ok routed =>
    obtain ⟨connected, ps⟩ := routed
    have hps := h.fragmented_of_route hroute
    cases connected with
    | false =>
      simp only [List.append_nil]
      exact h.onDesk (hr.submitDatagram h.owner hps)
    | true =>
      have hpassed := h.uncounted.passage hp ((hr.accepting messages).uncounted e.desk.counters)
        e.desk.counters now port hps
      simp only
      rw [sendThroughConnection_eq]
      cases hpassage : Engine.passage attending e.desk.counters now port ps e.connections with
      | mk answer t =>
        rw [hpassage] at hpassed
        obtain ⟨htraffic, hsame⟩ := hpassed.owner.traffic
        cases answer with
        | ok numbered =>
          obtain ⟨e₀, -, -, rfl⟩ := passage_ok (congrArg Prod.fst hpassage)
          exact hpassed.onDesk_quiet
            ⟨hr.carries e₀.session htraffic hps hsame, hpassed.owner.held, hpassed.owner.reassembly⟩
        | error =>
          simp only [List.append_nil]
          exact hpassed.counted

theorem openConnection (now : Nat) (localPort remotePort : UInt8) (options : Options) :
    Keeping config End (M messages) R P (e.openConnection now localPort remotePort options).2
      (batches ++ e.accepted (.openConnection now localPort remotePort options)) := by
  rw [openConnection_eq]
  simp only [accepted]
  cases e.ready localPort with
  | error =>
    simp only [List.append_nil]
    exact h
  | ok b =>
    have hopened := h.calls (c := fun o t =>
        (t.connect o now localPort remotePort b.channel options).2)
      (fun hs t => congrArg Prod.snd (hs.connect t now localPort remotePort b.channel options))
      fun t ht => ht.connect (heeding hp (hr.accepting messages)) hp.enduring now localPort remotePort
        b.channel options
    simp only
    cases hconnect : e.connections.connect attending now localPort remotePort b.channel options with
    | mk answer t =>
      rw [hconnect] at hopened
      cases answer with
      | ok =>
        exact hopened.onDesk_quiet ⟨hopened.owner.traffic,
          fun p hmem => hopened.owner.held p (List.mem_of_mem_filter hmem), hopened.owner.reassembly⟩
      | error => exact hopened

theorem receiveFrame (now : Nat) (channel : UInt8) (frame : List UInt8) :
    Keeping config End (M messages) R P (e.receiveFrame now channel frame)
      (batches ++ e.accepted (.receiveFrame now channel frame)) := by
  have hread := hr.readFrame h.owner.reassembly channel frame
  unfold Engine.receiveFrame
  simp only [accepted, arriving]
  cases e.desk.active with
  | false =>
    simp only [Bool.not_false, if_true, List.append_nil]
    exact h
  | true =>
    simp only [Bool.not_true, Bool.false_eq_true, if_false]
    cases hframe : e.desk.reassembly.readFrame channel frame with
    | mk answer r =>
      have hr' : R r := by
        have heq : (e.desk.reassembly.readFrame channel frame).2 = r := by rw [hframe]
        exact heq ▸ hread
      cases answer with
      | error =>
        simp only [List.append_nil]
        exact h.onDesk_quiet ⟨h.owner.traffic, h.owner.held, hr'⟩
      | ok p =>
        simp only
        cases hkind : p.header.kind with
        | datagram =>
          simp only [reduceCtorEq, if_false, List.append_nil]
          exact h.onDesk_quiet ⟨h.owner.traffic, h.owner.held, hr.calls (.push p) hr'⟩
        | connection =>
          simp only [if_true]
          exact h.calls (c := fun o t => (t.receive o now p).2)
            (fun hs t => congrArg Prod.snd (hs.receive t now p))
            fun t ht => ht.receive (heeding hp (hr.accepting messages)) hp.enduring now p

theorem fireTimer (now : Nat) :
    Keeping config End (M messages) R P (e.fireTimer now) (batches ++ e.accepted (.fireTimer now)) := by
  unfold Engine.fireTimer
  simp only [accepted]
  cases e.desk.active with
  | false =>
    simp only [Bool.not_false, if_true, Bool.false_eq_true, if_false, List.append_nil]
    exact h
  | true =>
    have hretried : Keeping config End (M messages) R P (e.onDesk Desk.retryResets)
        (batches ++ e.desk.acceptedResets) :=
      h.onDesk (hr.retryResets hp h.owner)
    have hlink : (e.onDesk Desk.retryResets).desk.transmitter.linkUp = e.desk.transmitter.linkUp := by
      show e.desk.retryResets.transmitter.linkUp = _
      unfold Desk.retryResets
      split
      · rfl
      split
      · rename_i hok
        obtain ⟨x, hx, rfl⟩ := submit_ok hok
        unfold Transmitter.submitAll at hx
        split at hx
        · cases hx
          rfl
        · cases hx
      · rfl
    simp only [Bool.not_true, Bool.false_eq_true, if_false, if_true]
    rw [hlink, ← List.append_assoc]
    cases e.desk.transmitter.linkUp with
    | false =>
      simp only [Bool.false_eq_true, if_false, List.append_nil]
      exact hretried
    | true =>
      simp only [if_true]
      exact hretried.calls (c := fun o t => t.checkTimers o now)
        (fun hs t => hs.checkTimers t now)
        fun t ht => ht.checkTimers (heeding hp (hr.accepting messages)) hp.enduring now

/-- Whatever happens to an engine, it keeps what lasts. -/
theorem act (a : Act) :
    Keeping config End (M (messages ++ e.carried a)) R P (e.perform a).2 (batches ++ e.accepted a) := by
  have hsilent : ∀ {e' : Engine} {more : List (List Packet)},
      Keeping config End (M messages) R P e' (batches ++ more) →
      Keeping config End (M (messages ++ [])) R P e' (batches ++ more) := by
    intro e' more h'
    rwa [List.append_nil messages]
  have hquiet : ∀ {f : Desk → Desk}, Logged.Has End (M messages) R ⟨f e.desk, batches⟩ →
      Keeping config End (M (messages ++ [])) R P (e.onDesk f) (batches ++ []) := by
    intro f hf
    rw [List.append_nil, List.append_nil]
    exact h.onDesk_quiet hf
  have hworks : ∀ {a : Transmitter.Act}, a.Idle → a ≠ .start →
      Keeping config End (M (messages ++ [])) R P (e.work a) (batches ++ []) := fun ha hne =>
    hquiet ⟨hr.works h.owner.traffic ha fun he => absurd he hne, h.owner.held, h.owner.reassembly⟩
  have hsame : Keeping config End (M (messages ++ [])) R P e (batches ++ []) := by
    rw [List.append_nil, List.append_nil]
    exact h
  cases a with
  | start =>
    show Keeping config End (M (messages ++ [])) R P e.start (batches ++ [])
    unfold Engine.start
    split
    · exact hsame
    · rename_i hidle
      have hbusy : e.desk.transmitter.busy = false := by
        rw [Bool.not_eq_true, Bool.or_eq_false_iff] at hidle
        exact hidle.2
      exact hquiet ⟨hr.works (a := .start) h.owner.traffic trivial fun _ => hbusy, h.owner.held,
        hr.switches true _ h.owner.reassembly⟩
  | stop => exact hsilent (hr.stop hp h)
  | bind port b =>
    show Keeping config End (M (messages ++ [])) R P (e.bind port b).2 (batches ++ [])
    unfold Engine.bind
    split
    · exact hsame
    split
    · exact hsame
    split
    · exact hsame
    · exact hquiet ⟨h.owner.traffic, h.owner.held, h.owner.reassembly⟩
  | unbind now port => exact hsilent (hr.unbind hp h now port)
  | closeConnection now port => exact hsilent (hr.close hp h now port)
  | sendMessage now port message => exact hr.sendMessage hp h now port message
  | openConnection now localPort remotePort options =>
    exact hsilent (hr.openConnection hp h now localPort remotePort options)
  | receiveFrame now channel frame => exact hsilent (hr.receiveFrame hp h now channel frame)
  | setLink up =>
    exact hquiet ⟨hr.works (a := .setLink up) h.owner.traffic trivial nofun, h.owner.held,
      h.owner.reassembly⟩
  | fireTimer now => exact hsilent (hr.fireTimer hp h now)
  | retryResets => exact hsilent (h.onDesk (hr.retryResets hp h.owner))
  | checkTimers now port =>
    exact hsilent (h.calls (c := fun o t => (t.onSession o port fun s => ((), s.checkTimers now)).2)
      (fun hs t => congrArg Prod.snd (hs.onSession t port fun s => ((), s.checkTimers now)))
      fun t ht => ht.checkTimersOn (heeding hp (hr.accepting messages)) hp.enduring now port)
  | resetConnection port =>
    exact hsilent (h.calls (c := fun o t => (t.reset o port).2)
      (fun hs t => congrArg Prod.snd (hs.reset t port))
      fun t ht => ht.reset (heeding hp (hr.accepting messages)) hp.enduring port)
  | deliver => exact hquiet ⟨h.owner.traffic, h.owner.held, hr.takeAll h.owner.reassembly⟩
  | takeNotices => exact hquiet ⟨h.owner.traffic, h.owner.held, h.owner.reassembly⟩
  | step w => exact hworks trivial nofun
  | settle w reply => exact hworks trivial nofun

omit h

/-- What holds of a fresh engine holds through all runs. -/
theorem keeps_after (hstart : M [] (.new config) (.const {}) []) (hreassembly : R (.new config))
    (acts : List Act) :
    Keeping config End (M (Chronicle.after config acts).messages) R P
      (Chronicle.after config acts).engine (Chronicle.after config acts).batches := by
  have hfresh : Keeping config End (M []) R P (fresh config) [] :=
    Table.Keeps.empty (d := (⟨.new config, []⟩ : Logged))
      ⟨hstart, fun p hp => absurd hp List.not_mem_nil, hreassembly⟩
  have hall : ∀ c : Chronicle, Keeping config End (M c.messages) R P c.engine c.batches →
      Keeping config End (M (acts.foldl Chronicle.act c).messages) R P
        (acts.foldl Chronicle.act c).engine (acts.foldl Chronicle.act c).batches := by
    induction acts with
    | nil => exact fun _ h => h
    | cons a acts ih => exact fun c h => ih (c.act a) (hr.act hp h a)
  exact hall _ hfresh

end Running

end NarrowLink.Engine
