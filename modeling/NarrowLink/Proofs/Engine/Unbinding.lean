import NarrowLink.Proofs.Engine.Farewell

/-!
# Freeing a port

A port that is freed has no connection afterwards, or one that is on its way to be closed, unless its
connection is an open one that has no room left for its request to close (`Obstructed`): that one stays
open on a port that is bound no longer (`closing_unbind_iff`).
-/

namespace NarrowLink.Engine

open Wire
open Connection (Event Session State Table)

variable {config : Config} {t t' : Table Desk} {port : UInt8}

/-- The port has no connection, or one that is on its way to be closed. -/
def Closing (e : Engine) (port : UInt8) : Prop :=
  ∀ state, e.connectionState port = some state → state.isClosing = true

/-- The connection on the port is open, and what it has yet to hand to the transmitter leaves no room for
a packet that asks the peer to close it. -/
def Obstructed (e : Engine) (port : UInt8) : Prop :=
  ∃ s, e.connections.session? port = some s ∧ s.state = .connected ∧
    e.config.connectionQueueCapacity < s.outbound.used + Header.size

/-- What applications have bound does not change while a connection is served. -/
theorem Serves.bindings {q : UInt8} (h : Serves q t t') : t'.owner.bindings = t.owner.bindings := by
  cases h with
  | lasts owner _ =>
    obtain ⟨_, _, _, _, howner⟩ := owner.fields
    rw [howner]
  | parts _ parted =>
    have howner := parted.owner
    generalize t'.owner = d at howner ⊢
    cases howner <;> rfl

/-- What a call to close makes of a connection that rests. -/
theorem state_close {s : Session} (h : s.Resting config port) (hvalid : config.Valid) (now : Nat) :
    (s.close now).2.state =
      match s.state with
      | .connecting => .resetting
      | .connected =>
        if s.outbound.used + Header.size ≤ config.connectionQueueCapacity then .disconnecting
        else .connected
      | state => state := by
  have hfits : s.Fits (s.packet .closing s.nextSeq []) ↔
      s.outbound.used + Header.size ≤ config.connectionQueueCapacity := by
    rw [← h.formed.capacity]
    rfl
  cases hst : s.state with
  | connecting =>
    have hreset : (s.close now).2 = s.dying := by
      rw [Session.close, hst]
      exact h.reset_eq hvalid
    rw [hreset]
    rfl
  | connected =>
    simp only
    split
    · rename_i hroom
      exact Session.state_close_of_fits hst (hfits.2 hroom)
    · rename_i hroom
      rw [Session.close_of_not_fits hst (hroom ∘ hfits.1)]
      exact hst
  | disconnecting | resetting | disconnected =>
    rw [Session.close, hst]
    exact hst

/-- The state that the connection on a port is in after a call, if it has not ended then. -/
theorem state?_onSession {α : Type} (h : Rests config t) {e : Connection.Entry}
    (he : t.entries.get port = some e) {f : Session → α × Session}
    (hf : Session.Fares config port e.session (f e.session).2) :
    (t.onSession attending port f).2.state? port =
      if (f e.session).2.state = .resetting ∨ (f e.session).2.state = .disconnected then none
      else some (f e.session).2.state := by
  rcases h.onSession_of_get he hf with ⟨-, ⟨hcalm, hlasts⟩ | ⟨hdying, hparts⟩⟩
  · rw [hlasts.state]
    simp [hcalm]
  · rw [if_pos (.inl (by rw [hdying]; rfl))]
    unfold Table.state? Table.session?
    rw [hparts.entries, ByteMap.get_set_self]
    rfl

/-- A call to close the connection on a port leaves it open only if it was open and has no room. -/
theorem closing_close_iff (h : Rests config t) (hvalid : config.Valid) (now : Nat) :
    (∀ state, (t.close attending now port).2.state? port = some state → state.isClosing = true) ↔
      ¬ ∃ s, t.session? port = some s ∧ s.state = .connected ∧
        config.connectionQueueCapacity < s.outbound.used + Header.size := by
  have hclose : (t.close attending now port).2 = (t.onSession attending port fun s => s.close now).2 :=
    rfl
  rw [hclose]
  cases he : t.entries.get port with
  | none =>
    unfold Table.onSession Table.state? Table.session?
    simp [he]
  | some e =>
    have hresting := h.sessions port e he
    have hwaiting := Session.isWaiting_iff.1 hresting.waiting
    rw [state?_onSession h he (hresting.fares_close hvalid now), state_close hresting hvalid now,
      session?_of_get he]
    simp only [Option.some.injEq, exists_eq_left']
    cases hst : e.session.state with
    | connected =>
      by_cases hroom : e.session.outbound.used + Header.size ≤ config.connectionQueueCapacity
      · simp [hroom, State.isClosing]
      · simp [hroom, State.isClosing, Nat.lt_of_not_le hroom]
    | connecting | disconnecting => simp [State.isClosing]
    | resetting => exact absurd hst hwaiting.1
    | disconnected => exact absurd hst hwaiting.2

/-- A port that is bound is freed first, and then its connection is closed. -/
theorem unbind_of_ok {e : Engine} {now : Nat} (h : (e.unbind now port).1 = .ok ()) :
    (e.unbind now port).2 = ((e.onDesk fun d =>
      { d with bindings := d.bindings.set port none }).closeConnection now port).2 := by
  unfold Engine.unbind at h ⊢
  split at h
  · cases h
  · rfl

/-- Freeing a port closes its connection, however full the queues of the engine are, exactly if the
connection is not obstructed. -/
theorem closing_unbind_iff (hvalid : config.Valid) (acts : List Act) {now : Nat}
    (hok : (((fresh config).after acts).unbind now port).1 = .ok ()) :
    let e := (fresh config).after acts
    let e' := (e.unbind now port).2
    e'.desk.binding port = .error (.portNotBound port) ∧
      (e'.Closing port ↔ ¬ e.Obstructed port) := by
  intro e e'
  let freed := e.onDesk fun d => { d with bindings := d.bindings.set port none }
  have hleft : e' = (freed.closeConnection now port).2 := unbind_of_ok hok
  have hfreed : Rests config freed.connections := (rests_after hvalid acts).onDesk _
  have hbindings : e'.desk.bindings = e.desk.bindings.set port none := by
    rw [hleft]
    exact (hfreed.close hvalid now port).2.bindings
  have hconfig : e.config = config := (rests_after hvalid acts).config
  refine ⟨?_, ?_⟩
  · unfold Desk.binding
    rw [hbindings, ByteMap.get_set_self]
  · unfold Closing Obstructed
    rw [hconfig, hleft]
    exact closing_close_iff hfreed hvalid now

/-- A connection that is not established yet is reset when its port is freed, although the transmit queue
is full. -/
theorem closing_unbind_of_crowding :
    ((fresh singlePacket).after crowding |>.unbind 0 1).2.Closing 1 := by
  refine (closing_unbind_iff valid_singlePacket crowding (by decide +kernel)).2.2 ?_
  rintro ⟨s, hs, hst, -⟩
  have hconnecting : ((fresh singlePacket).after crowding).connectionState 1 =
      some .connecting := by decide +kernel
  rw [connectionState, Table.state?, hs, Option.map_some, hst] at hconnecting
  cases hconnecting

/-- An open connection whose acknowledgement of a repeated packet finds the link down and the transmit
queue full. -/
def stalling : List Act :=
  crowding ++ [.step 0, .step 0, .settle 0 (.ok ()), hear .welcoming 0 1 [], .step 0, .step 0,
    .settle 0 (.ok ()), .setLink false, hear .welcoming 0 1 [], hear .welcoming 0 1 []]

/-- An open connection may stay open when its port is freed. -/
theorem not_closing_of_full_queue :
    let e := (fresh singlePacket).after stalling
    singlePacket.Valid ∧ (e.unbind 0 1).1 = .ok () ∧
      (e.unbind 0 1).2.desk.binding 1 = .error (.portNotBound 1) ∧
      (e.unbind 0 1).2.connectionState 1 = some .connected := by
  refine ⟨valid_singlePacket, ?_⟩
  decide +kernel

end NarrowLink.Engine
