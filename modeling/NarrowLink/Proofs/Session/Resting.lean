import NarrowLink.Proofs.Exchange.Actions
import NarrowLink.Proofs.Session.Formed
import NarrowLink.Proofs.Session.Life
import NarrowLink.Proofs.Session.Room

/-!
# A connection between two calls

Between two calls of its owner a connection is neither over nor being reset (`Resting`).  A call leaves
it with some events that the owner is yet to be told of (`Untold`), unless it resets the connection:
then nothing is left of it but its farewell, and the owner is told that the farewell is there to be taken
(`dying`).  A reset always has room for the farewell, because everything else is dropped before
(`reset_eq`).
-/

namespace NarrowLink.Connection

open Wire

namespace Session

variable {config : Config} {port : UInt8} {s : Session}

/-- The reset that a connection leaves behind. -/
def farewell (s : Session) : Packet := s.packet .resetting s.nextSeq []

/-- A connection that has just been reset. -/
def dying (s : Session) : Session :=
  { s.discard with
    outbound := s.outbound.clear.2.add s.farewell
    state := .resetting
    events := [.outboundAvailable s.localPort,
      .stateChanged s.localPort s.remotePort s.state .resetting] }

/-- A connection of a port between two calls. -/
structure Resting (config : Config) (port : UInt8) (s : Session) : Prop where
  formed : s.Formed config
  localPort : s.localPort = port
  told : s.events = []
  waiting : s.isWaiting = true

/-- A connection of a port that a call leaves behind without a reset. -/
structure Untold (config : Config) (port : UInt8) (s : Session) : Prop where
  formed : s.Formed config
  localPort : s.localPort = port
  own : ∀ e ∈ s.events, e.port = port ∧ e.Plain
  calm : s.state ≠ .resetting
  /-- The owner is yet to be told of the end if there is one. -/
  ends : s.events.any Event.isDisconnect = true ↔ s.state = .disconnected

theorem isWaiting_iff : s.isWaiting = true ↔ s.state ≠ .resetting ∧ s.state ≠ .disconnected := by
  unfold isWaiting
  cases s.state <;> simp

/-- The owner is told of a packet that is queued, if it is not to be told already. -/
theorem post_told {p : Packet} (hfits : s.Fits p)
    (hevents : s.events = [] ∨ s.events = [.outboundAvailable s.localPort]) :
    s.post p = { s with
      outbound := s.outbound.add p
      events := [.outboundAvailable s.localPort] } := by
  rw [post_of_fits hfits, raise_eq]
  rcases hevents with he | he <;> simp [he]

/-- A connection that is reset drops everything, so its farewell is certain to be queued. -/
theorem reset_eq (hwaiting : s.isWaiting = true)
    (hevents : s.events = [] ∨ s.events = [.outboundAvailable s.localPort])
    (hroom : Header.size ≤ s.outbound.capacity) : s.reset = s.dying := by
  have hfits : s.discard.Fits s.farewell := by
    show 0 + s.farewell.wireLength ≤ s.outbound.capacity
    rw [Nat.zero_add]
    exact hroom
  have hposted := post_told (s := s.discard) hfits hevents
  have hchange : ⟨s.state, .resetting⟩ ∉ changes [Event.outboundAvailable s.localPort] :=
    List.not_mem_nil
  rw [reset_of_waiting s hwaiting]
  refine (congrArg (moveTo · .resetting) hposted).trans ?_
  exact moveTo_of_fresh (s := { s.discard with
      outbound := s.outbound.clear.2.add s.farewell
      events := [.outboundAvailable s.localPort] }) (isWaiting_iff.1 hwaiting).1 hchange

namespace Resting

variable (h : s.Resting config port)

include h

theorem capacity (hvalid : config.Valid) : Header.size ≤ s.outbound.capacity := by
  rw [h.formed.capacity]
  exact Nat.le_trans (Nat.le_of_lt hvalid.mtu_gt) hvalid.mtu_le_connectionQueueCapacity

theorem reset_eq (hvalid : config.Valid) : s.reset = s.dying :=
  Session.reset_eq h.waiting (.inl h.told) (h.capacity hvalid)

/-- What may be told of a connection between two calls. -/
theorem untold {s' : Session} (hformed : s'.Formed config) (hturning : Turning s.state port s')
    (hplain : ∀ e ∈ s'.events, e.Plain) (hcalm : s'.state ≠ .resetting) : s'.Untold config port where
  formed := hformed
  localPort := hturning.localPort
  own e he := ⟨hturning.own e he, hplain e he⟩
  calm := hcalm
  ends := by
    rw [any_isDisconnect_iff]
    exact (hturning.leads.eq_disconnected_iff (isWaiting_iff.1 h.waiting).2).symm

theorem turning : Turning s.state port s := h.localPort ▸ Turning.refl h.told

theorem plain : ∀ e ∈ s.events, e.Plain := by
  rw [h.told]
  exact fun e he => absurd he List.not_mem_nil

theorem not_reports : ¬ s.Reports := by
  unfold Session.Reports
  rw [h.told]
  exact List.not_mem_nil

end Resting

/-! ## Beginning -/

theorem untold_of_born (hborn : Born port s) (hformed : s.Formed config)
    (hplain : ∀ e ∈ s.events, e.Plain) : s.Untold config port where
  formed := hformed
  localPort := hborn.localPort
  own e he := ⟨hborn.own e he, hplain e he⟩
  calm := by
    rw [hborn.state]
    decide
  ends := by
    rw [any_isDisconnect_iff, hborn.changes, hborn.state]
    simp

theorem untold_of_connect {remotePort channel : UInt8} {options : Options} {now : Nat}
    (h : (Session.new config .initiator port remotePort channel options).connect now = (.ok (), s)) :
    s.Untold config port :=
  untold_of_born (born_of_connect h) ((lasting_formed config port fun _ => True).connect h)
    ((lasting_plain config port fun _ => True).connect h)

theorem untold_of_accept {remotePort channel : UInt8} {options : Options} {syn : Packet} {now : Nat}
    (h : (Session.new config .responder port remotePort channel options).accept syn now = (.ok (), s)) :
    s.Untold config port :=
  untold_of_born (born_of_accept h) ((lasting_formed config port fun _ => True).accept h)
    ((lasting_plain config port fun _ => True).accept h)

/-! ## What arrives -/

theorem state_receiveClosing (s : Session) (p : Packet) :
    (s.receiveClosing p).2.state = s.state ∨ (s.receiveClosing p).2.state = .disconnected := by
  have hended : ∀ u : Session, (u.moveTo .disconnected).state = .disconnected := fun u => by
    obtain ⟨events, he⟩ := moveTo_fields u .disconnected
    rw [he]
  unfold receiveClosing
  split
  · split
    · exact .inr (hended _)
    · exact .inl rfl
  split
  · exact .inl rfl
  · exact .inr (hended _)

theorem state_receiveOpen (s : Session) (p : Packet) :
    (s.receiveOpen p).2.state = s.state ∨ (s.receiveOpen p).2.state = .disconnected := by
  have hcredited : (if p.header.flags.ack then s.acknowledge p.header.ack else s).state = s.state := by
    obtain ⟨inFlight, oldest, he⟩ := acknowledge_fields s p.header.ack
    split
    · rw [he]
    · rfl
  unfold receiveOpen
  simp only
  split
  · split
    · obtain ⟨outbound, events, he⟩ := postAck_fields s
      exact .inl (by rw [he])
    · exact .inl rfl
  rw [← hcredited]
  split
  · split <;> exact .inl rfl
  split
  · exact state_receiveClosing _ p
  split
  · obtain ⟨_, _, _, _, _, _, he⟩ := receiveData_fields
      (if p.header.flags.ack then s.acknowledge p.header.ack else s) p
    exact .inl (by rw [he])
  · exact .inl rfl

/-- No packet makes a connection reset itself. -/
theorem receive_calm (hs : s.state ≠ .resetting) (p : Packet) : (s.receive p).2.state ≠ .resetting := by
  have hmoved : ∀ (u : Session) (new : State), (u.moveTo new).state = new := fun u new => by
    obtain ⟨events, he⟩ := moveTo_fields u new
    rw [he]
  have hopen : ∀ u : Session, u.state ≠ .resetting → (u.receiveOpen p).2.state ≠ .resetting := by
    intro u hu
    rcases state_receiveOpen u p with he | he <;> rw [he]
    · exact hu
    · decide
  have hconnected : ∀ u : Session, u.state = .connected → u.postAck.state ≠ .resetting := by
    intro u hu
    obtain ⟨outbound, events, he⟩ := postAck_fields u
    rw [he, show Session.state _ = u.state from rfl, hu]
    decide
  unfold receive
  split
  · rw [hmoved]
    decide
  split
  · -- the two ends agree on their first numbers
    unfold receiveConnecting
    simp only
    split
    · split
      · exact hs
      split
      · exact hs
      · exact hconnected _ (hmoved _ _)
    · split
      · split
        · exact hs
        · obtain ⟨outbound, events, he⟩ := post_fields s (s.packet .welcoming s.oldestUnacked [])
          rw [he]
          exact hs
      split
      · exact hs
      have hwelcomed : (s.moveTo .connected).state ≠ .resetting := by
        rw [hmoved]
        decide
      split
      · exact hopen _ hwelcomed
      · obtain ⟨inFlight, oldest, he⟩ := acknowledge_fields (s.moveTo .connected) p.header.ack
        rw [he]
        exact hwelcomed
  · exact hopen s hs
  · exact hopen s hs
  · exact hs
  · exact hs

/-! ## Calls -/

/-- What a call makes of a connection: it goes on or ends, or it has just been reset. -/
inductive Fares (config : Config) (port : UInt8) (s : Session) : Session → Prop where
  | lasting {s' : Session} (untold : s'.Untold config port) : Fares config port s s'
  | reset : Fares config port s s.dying

/-- A connection is closed if there is room for the packet that asks for it. -/
theorem state_close_of_fits {now : Nat} (hst : s.state = .connected)
    (hfits : s.Fits (s.packet .closing s.nextSeq [])) : (s.close now).2.state = .disconnecting := by
  obtain ⟨q, events, he⟩ := close_in_turn hst hfits now
  rw [he]

theorem close_of_not_fits {now : Nat} (hst : s.state = .connected)
    (hfits : ¬ s.Fits (s.packet .closing s.nextSeq [])) : s.close now = (.error .queueFull, s) := by
  rw [close, hst, postNumbered_eq, if_neg fun hf => hfits (fits_iff.1 hf)]

/-- Sending again what is due is no change of state. -/
theorem state_sendDue (s : Session) (ps : List Packet) :
    (ps.foldl (fun s p => s.post { p with header := { p.header with ack := s.expected } }) s).state =
      s.state := by
  induction ps generalizing s with
  | nil => rfl
  | cons p ps ih =>
    rw [List.foldl_cons, ih]
    obtain ⟨outbound, events, he⟩ := post_fields s { p with header := { p.header with ack := s.expected } }
    rw [he]

namespace Resting

variable (h : s.Resting config port) (hvalid : config.Valid)

include h

theorem fares_receive {p : Packet} (hport : p.port = port) :
    Fares config port s (s.receive p).2 :=
  .lasting (h.untold
    ((lasting_formed config port fun _ => True).receive h.formed h.not_reports hport)
    (h.turning.receive p)
    ((lasting_plain config port fun _ => True).receive h.plain h.not_reports hport)
    (receive_calm (isWaiting_iff.1 h.waiting).1 p))

theorem fares_send {α : Type} {ps : List Packet} (now : Nat) {number : List Packet → List Packet × α}
    (hnumber : NumbersFragments number) (hne : ps ≠ []) :
    Fares config port s (s.send ps now number).2 := by
  have hstate : (s.send ps now number).2.state = s.state := by
    by_cases hroom : s.HasRoom ps
    · rw [send_of_hasRoom now hnumber hroom]
      unfold dispatch
      obtain ⟨events, he⟩ := raise_fields _ _
      rw [he]
    · unfold send
      rw [admits_of_not_hasRoom hroom]
  refine .lasting (h.untold
    ((lasting_formed config port fun _ => True).send h.formed now hnumber hne fun _ _ => trivial)
    (h.turning.send ps now number)
    ((lasting_plain config port fun _ => True).send h.plain now hnumber hne fun _ _ => trivial) ?_)
  rw [hstate]
  exact (isWaiting_iff.1 h.waiting).1

/-- A call that changes nothing. -/
theorem fares_refl : Fares config port s s :=
  .lasting (h.untold h.formed h.turning h.plain (isWaiting_iff.1 h.waiting).1)

include hvalid

theorem fares_reset : Fares config port s s.reset := h.reset_eq hvalid ▸ .reset

theorem fares_close (now : Nat) : Fares config port s (s.close now).2 := by
  have hlasting : (s.close now).2.state ≠ .resetting → Fares config port s (s.close now).2 := fun hcalm =>
    .lasting (h.untold ((lasting_formed config port fun _ => True).close h.formed now)
      (h.turning.close now) ((lasting_plain config port fun _ => True).close h.plain now) hcalm)
  cases hst : s.state with
  | connecting =>
    have hreset : (s.close now).2 = s.reset := by
      rw [close, hst]
    exact hreset ▸ h.fares_reset hvalid
  | connected =>
    refine hlasting ?_
    by_cases hfits : s.Fits (s.packet .closing s.nextSeq [])
    · rw [state_close_of_fits hst hfits]
      decide
    · rw [close_of_not_fits hst hfits, hst]
      decide
  | disconnecting | resetting | disconnected =>
    have hsame : (s.close now).2 = s := by
      rw [close, hst]
    rw [hsame]
    exact h.fares_refl

/-- The timers reset a connection once a packet has used up its retransmissions. -/
theorem fares_checkTimers (now : Nat) : Fares config port s (s.checkTimers now) := by
  have hlasting : (s.checkTimers now).state ≠ .resetting → Fares config port s (s.checkTimers now) :=
    fun hcalm => .lasting (h.untold
      ((lasting_formed config port fun _ => True).checkTimers h.formed now) (h.turning.checkTimers now)
      ((lasting_plain config port fun _ => True).checkTimers h.plain now) hcalm)
  obtain ⟨es, hes, hreminded⟩ : ∃ es, (es = [] ∨ es = [.outboundAvailable s.localPort]) ∧
      (if s.outbound.isEmpty then s else s.raise (.outboundAvailable s.localPort)) =
        { s with events := es } := by
    split
    · exact ⟨s.events, .inl h.told, rfl⟩
    · refine ⟨_, .inr rfl, ?_⟩
      rw [raise_eq, h.told]
      rfl
  have hdue : s.checkTimers now = { s with events := es } ∨
      (∃ f, ∃ ps : List Packet, s.checkTimers now = ps.foldl
        (fun s p => s.post { p with header := { p.header with ack := s.expected } })
        { s with events := es, inFlight := f }) ∨
      ∃ f, s.checkTimers now = ({ s with events := es, inFlight := f } : Session).reset := by
    unfold checkTimers
    rw [hreminded]
    simp only
    split
    · split
      · exact .inr (.inl ⟨_, _, rfl⟩)
      · exact .inr (.inr ⟨_, rfl⟩)
    · exact .inl rfl
  rcases hdue with he | ⟨f, ps, he⟩ | ⟨f, he⟩
  · refine hlasting ?_
    rw [he]
    exact (isWaiting_iff.1 h.waiting).1
  · refine hlasting ?_
    rw [he, state_sendDue]
    exact (isWaiting_iff.1 h.waiting).1
  · rw [he, Session.reset_eq (s := { s with events := es, inFlight := f }) h.waiting hes
      (h.capacity hvalid)]
    exact .reset

end Resting

end Session

end NarrowLink.Connection
