import Mathlib.Data.List.Chain
import NarrowLink.Proofs.Exchange.Steps

/-!
# The life of a connection

A connection goes through its states in one direction (`State.goesTo`), so it never comes back to a
state that it has left.  That is why no change of state is ever taken for one that the owner is yet to
be told of (`Turning.moveTo`): whatever a session does, the changes that its owner is yet to be told of
lead on to the state that it is in (`Turning`).
-/

namespace NarrowLink.Connection

open Wire

/-! ## Changes of state -/

/-- The states that may follow a state.  Only a new connection leaves `disconnected`. -/
def State.goesTo : State → State → Bool
  | .connecting, .connected | .connecting, .resetting | .connecting, .disconnected => true
  | .connected, .disconnecting | .connected, .resetting | .connected, .disconnected => true
  | .disconnecting, .resetting | .disconnecting, .disconnected => true
  | .resetting, .disconnected => true
  | _, _ => false

/-- How far a state is along the way of a connection. -/
def State.stage : State → Nat
  | .connecting => 0
  | .connected => 1
  | .disconnecting => 2
  | .resetting => 3
  | .disconnected => 4

theorem State.stage_lt_of_goesTo {a b : State} (h : a.goesTo b = true) : a.stage < b.stage := by
  cases a <;> cases b <;> revert h <;> decide

theorem State.goesTo_disconnected {a : State} (h : a ≠ .disconnected) :
    a.goesTo .disconnected = true := by
  cases a <;> first | rfl | contradiction

/-- A change of state. -/
structure Change where
  old : State
  new : State
deriving DecidableEq

/-- The change of state that an event tells of. -/
def Event.change? : Event → Option Change
  | .stateChanged _ _ old new => some ⟨old, new⟩
  | _ => none

theorem Event.isStateChange_eq_isSome (e : Event) : e.isStateChange = e.change?.isSome := by
  cases e <;> rfl

theorem Event.change?_of_not {e : Event} (h : e.isStateChange = false) : e.change? = none := by
  rwa [isStateChange_eq_isSome, Option.isSome_eq_false_iff, Option.isNone_iff_eq_none] at h

/-- The changes of state that events tell of. -/
def changes (es : List Event) : List Change := es.filterMap Event.change?

theorem changes_append (es fs : List Event) : changes (es ++ fs) = changes es ++ changes fs :=
  List.filterMap_append

theorem changes_filter_isStateChange (es : List Event) :
    changes (es.filter Event.isStateChange) = changes es := by
  simp only [changes, List.filterMap_filter, Event.isStateChange_eq_isSome]
  refine List.filterMap_congr fun e _ => ?_
  cases e.change? <;> simp

theorem changes_stateFirst (es : List Event) : changes (Event.stateFirst es) = changes es := by
  have hrest : changes (es.filter fun e => !e.isStateChange) = [] := by
    refine List.filterMap_eq_nil_iff.2 fun e he => Event.change?_of_not ?_
    simpa using (List.mem_filter.1 he).2
  rw [Event.stateFirst, changes_append, changes_filter_isStateChange, hrest, List.append_nil]

theorem any_isDisconnect_iff (es : List Event) :
    es.any Event.isDisconnect = true ↔ ∃ c ∈ changes es, c.new = .disconnected := by
  have hone : ∀ e : Event, e.isDisconnect = true ↔ ∃ c, e.change? = some c ∧ c.new = .disconnected := by
    intro e
    cases e with
    | stateChanged _ _ old new => cases new <;> simp [Event.isDisconnect, Event.change?]
    | _ => simp [Event.isDisconnect, Event.change?]
  simp only [List.any_eq_true, changes, List.mem_filterMap, hone]
  constructor
  · rintro ⟨e, he, c, hc, hnew⟩
    exact ⟨c, ⟨e, he, hc⟩, hnew⟩
  · rintro ⟨c, ⟨e, he, hc⟩, hnew⟩
    exact ⟨e, he, c, hc, hnew⟩

/-- The changes lead from one state to another. -/
def Leads : State → List Change → State → Prop
  | a, [], b => a = b
  | a, c :: cs, b => c.old = a ∧ a.goesTo c.new = true ∧ Leads c.new cs b

namespace Leads

variable {a b c : State} {cs ds : List Change}

theorem append (h : Leads a cs b) (h' : Leads b ds c) : Leads a (cs ++ ds) c := by
  induction cs generalizing a with
  | nil =>
    cases h
    exact h'
  | cons x cs ih => exact ⟨h.1, h.2.1, ih h.2.2⟩

theorem single (h : a.goesTo b = true) : Leads a [⟨a, b⟩] b := ⟨rfl, h, rfl⟩

theorem stage_le (h : Leads a cs b) : a.stage ≤ b.stage := by
  induction cs generalizing a with
  | nil => exact Nat.le_of_eq (congrArg State.stage h)
  | cons x cs ih => exact Nat.le_trans (Nat.le_of_lt (State.stage_lt_of_goesTo h.2.1)) (ih h.2.2)

/-- Each change is over by the end. -/
theorem stage_lt_of_mem (h : Leads a cs b) {x : Change} (hx : x ∈ cs) : x.old.stage < b.stage := by
  induction cs generalizing a with
  | nil => cases hx
  | cons y cs ih =>
    rcases List.mem_cons.1 hx with rfl | hx
    · rw [h.1]
      exact Nat.lt_of_lt_of_le (State.stage_lt_of_goesTo h.2.1) h.2.2.stage_le
    · exact ih h.2.2 hx

/-- Nothing follows the end of a connection. -/
theorem nil_of_disconnected (h : Leads .disconnected cs b) : cs = [] := by
  cases cs with
  | nil => rfl
  | cons x cs =>
    obtain ⟨-, hgoes, -⟩ := h
    cases hx : x.new <;> rw [hx] at hgoes <;> cases hgoes

/-- A connection has ended exactly if one of its changes is the end. -/
theorem eq_disconnected_iff (ha : a ≠ .disconnected) (h : Leads a cs b) :
    b = .disconnected ↔ ∃ x ∈ cs, x.new = .disconnected := by
  induction cs generalizing a with
  | nil =>
    cases h
    simp [ha]
  | cons x cs ih =>
    by_cases hx : x.new = .disconnected
    · have hrest := h.2.2
      rw [hx] at hrest
      obtain rfl := hrest.nil_of_disconnected
      exact iff_of_true hrest.symm ⟨x, List.mem_cons_self, hx⟩
    · rw [ih hx h.2.2]
      simp [hx]

end Leads

/-- The changes lead from the beginning of a connection to a state. -/
def Lives (cs : List Change) (b : State) : Prop :=
  ∃ rest, cs = ⟨.disconnected, .connecting⟩ :: rest ∧ Leads .connecting rest b

/-- The changes of state of one connection, as far as it has come.  It begins by connecting, each change
leaves the state that the one before it came to, and all others follow the way of a connection. -/
structure Life (cs : List Change) : Prop where
  begins : cs.head? = some ⟨.disconnected, .connecting⟩
  linked : cs.IsChain fun c d => c.new = d.old
  follows : ∀ c ∈ cs.tail, c.old.goesTo c.new = true

namespace Lives

variable {cs ds : List Change} {a b : State}

theorem append (h : Lives cs a) (h' : Leads a ds b) : Lives (cs ++ ds) b := by
  obtain ⟨rest, rfl, hleads⟩ := h
  exact ⟨rest ++ ds, rfl, hleads.append h'⟩

theorem life (h : Lives cs b) : Life cs := by
  obtain ⟨rest, rfl, hleads⟩ := h
  have hrest : ∀ (rest : List Change) (x : Change), Leads x.new rest b →
      (x :: rest).IsChain (fun c d => c.new = d.old) ∧ ∀ c ∈ rest, c.old.goesTo c.new = true := by
    intro rest
    induction rest with
    | nil => exact fun x _ => ⟨.singleton x, by simp⟩
    | cons y rest ih =>
      intro x h
      obtain ⟨hchain, hgoes⟩ := ih y h.2.2
      refine ⟨.cons_cons h.1.symm hchain, ?_⟩
      intro c hc
      rcases List.mem_cons.1 hc with rfl | hc
      · rw [h.1]
        exact h.2.1
      · exact hgoes c hc
  obtain ⟨hchain, hgoes⟩ := hrest rest ⟨.disconnected, .connecting⟩ hleads
  exact ⟨rfl, hchain, hgoes⟩

/-- The last change is to the state that the connection is in. -/
theorem getLast? (h : Lives cs b) : cs.getLast?.map Change.new = some b := by
  obtain ⟨rest, rfl, hleads⟩ := h
  have hrest : ∀ (rest : List Change) (x : Change), Leads x.new rest b →
      (x :: rest).getLast?.map Change.new = some b := by
    intro rest
    induction rest with
    | nil => exact fun x h => congrArg some h
    | cons y rest ih =>
      intro x h
      rw [List.getLast?_cons_cons]
      exact ih y h.2.2
  exact hrest rest ⟨.disconnected, .connecting⟩ hleads

end Lives

/-! ## Sessions -/

/-- A change of state that the owner is not yet to be told of is noted. -/
theorem moveTo_of_fresh {s : Session} {new : State} (hne : s.state ≠ new)
    (hfresh : ⟨s.state, new⟩ ∉ changes s.events) :
    s.moveTo new = { s with
      state := new
      events := s.events ++ [.stateChanged s.localPort s.remotePort s.state new] } := by
  have hnot : Event.stateChanged s.localPort s.remotePort s.state new ∉ s.events := fun hmem =>
    hfresh (List.mem_filterMap.2 ⟨_, hmem, rfl⟩)
  rw [Session.moveTo, if_neg hne, Session.raise, if_neg hnot]

/-- The changes of state that the owner of a session is yet to be told of lead from a state to the one
that the session is in, and all that it is to be told is about this port. -/
structure Turning (a : State) (port : UInt8) (s : Session) : Prop where
  localPort : s.localPort = port
  own : ∀ e ∈ s.events, e.port = port
  leads : Leads a (changes s.events) s.state

namespace Turning

variable {a : State} {port : UInt8} {s s' : Session}

theorem refl (h : s.events = []) : Turning s.state s.localPort s :=
  ⟨rfl, by simp [h], by rw [h]; rfl⟩

theorem congr (h : Turning a port s) (hport : s'.localPort = s.localPort)
    (hevents : s'.events = s.events) (hstate : s'.state = s.state) : Turning a port s' :=
  ⟨hport.trans h.localPort, hevents ▸ h.own, hevents ▸ hstate ▸ h.leads⟩

/-- What happens in a state goes without saying if it is no change of it. -/
theorem raise (h : Turning a port s) {e : Event} (hport : e.port = s.localPort)
    (hchange : e.change? = none) : Turning a port (s.raise e) := by
  unfold Session.raise
  split
  · exact h
  · refine ⟨h.localPort, ?_, ?_⟩
    · intro e' he'
      rcases List.mem_append.1 he' with he' | he'
      · exact h.own e' he'
      · rw [List.mem_singleton.1 he']
        exact hport.trans h.localPort
    · have hsame : changes (s.events ++ [e]) = changes s.events := by
        simp [changes, hchange]
      exact hsame ▸ h.leads

/-- A change of state is new to the owner, because the session was never in the old state before. -/
theorem moveTo (h : Turning a port s) {new : State} (hgoes : s.state.goesTo new = true) :
    Turning a port (s.moveTo new) := by
  have hstage := State.stage_lt_of_goesTo hgoes
  have hne : s.state ≠ new := by
    rintro rfl
    exact Nat.lt_irrefl _ hstage
  have hfresh : ⟨s.state, new⟩ ∉ changes s.events := fun hmem =>
    Nat.lt_irrefl _ (h.leads.stage_lt_of_mem hmem)
  rw [moveTo_of_fresh hne hfresh]
  refine ⟨h.localPort, ?_, ?_⟩
  · intro e he
    rcases List.mem_append.1 he with he | he
    · exact h.own e he
    · rw [List.mem_singleton.1 he]
      exact h.localPort
  · rw [changes_append]
    exact h.leads.append (.single hgoes)

theorem moveTo_disconnected (h : Turning a port s) : Turning a port (s.moveTo .disconnected) := by
  by_cases hs : s.state = .disconnected
  · rwa [Session.moveTo, if_pos hs]
  · exact h.moveTo (State.goesTo_disconnected hs)

theorem post (h : Turning a port s) (p : Packet) : Turning a port (s.post p) := by
  unfold Session.post
  split
  · rename_i q _
    have hqueued : Turning a port { s with outbound := q } := h.congr rfl rfl rfl
    exact hqueued.raise rfl rfl
  · exact h

theorem postGapReport (h : Turning a port s) : Turning a port s.postGapReport := by
  unfold Session.postGapReport
  split
  · exact h.post _
  · exact h

theorem postAck (h : Turning a port s) : Turning a port s.postAck := (h.post _).postGapReport

theorem postNumbered (h : Turning a port s) (flags : Flags) (now : Nat) :
    Turning a port (s.postNumbered flags now).2 := by
  let p := s.packet flags s.nextSeq []
  let given : Session :=
    { s with nextSeq := Serial.next s.nextSeq, inFlight := s.inFlight.push p now }
  have hgiven : Turning a port given := h.congr rfl rfl rfl
  unfold Session.postNumbered
  simp only
  split
  · split
    · rename_i q _
      have hqueued : Turning a port { given with outbound := q } := h.congr rfl rfl rfl
      exact hqueued.raise rfl rfl
    · exact hgiven
  · exact h

theorem acknowledge (h : Turning a port s) (ack : UInt8) : Turning a port (s.acknowledge ack) := by
  obtain ⟨inFlight, oldest, he⟩ := acknowledge_fields s ack
  rw [he]
  exact h.congr rfl rfl rfl

theorem discard (h : Turning a port s) : Turning a port s.discard := h.congr rfl rfl rfl

/-! ### What the owner does -/

theorem reset (h : Turning a port s) : Turning a port s.reset := by
  obtain ⟨outbound, events, hfields⟩ :=
    post_fields s.discard (s.discard.packet .resetting s.discard.nextSeq [])
  have hposted := h.discard.post (s.discard.packet .resetting s.discard.nextSeq [])
  have hstate : (s.discard.post (s.discard.packet .resetting s.discard.nextSeq [])).state = s.state := by
    rw [hfields]
    rfl
  unfold Session.reset
  split
  · exact h
  · exact h
  · rename_i hresetting hdisconnected
    refine hposted.moveTo ?_
    rw [hstate]
    cases hs : s.state <;> first | rfl | contradiction

theorem close (h : Turning a port s) (now : Nat) : Turning a port (s.close now).2 := by
  have hpost := h.postNumbered .closing now
  unfold Session.close
  split
  · rename_i hconnected
    rcases postNumbered_cases s .closing now with ⟨e, he⟩ | ⟨s', events, he, hs'⟩ <;> rw [he] at hpost ⊢
    · exact hpost
    · have hstate : s'.state = .connected := by
        rw [hs']
        exact hconnected
      exact hpost.moveTo (by rw [hstate]; rfl)
  · exact h.reset
  · exact h
  · exact h
  · exact h

theorem stamp (h : Turning a port s) (ps : List Packet) : Turning a port (s.stamp ps).2 := by
  induction ps generalizing s with
  | nil => exact h
  | cons p ps ih => exact ih (s := { s with nextSeq := Serial.next s.nextSeq }) (h.congr rfl rfl rfl)

theorem launch (h : Turning a port s) (now : Nat) (ps : List Packet) :
    Turning a port (s.launch now ps).2 := by
  induction ps generalizing s with
  | nil => exact h
  | cons p ps ih =>
    unfold Session.launch
    simp only
    split
    · exact h.congr rfl rfl rfl
    · exact ih (h.congr rfl rfl rfl)

theorem send {α : Type} (h : Turning a port s) (ps : List Packet) (now : Nat)
    (number : List Packet → List Packet × α) : Turning a port (s.send ps now number).2 := by
  have hlaunched := (h.postGapReport.stamp ps).launch now (number (s.postGapReport.stamp ps).1).1
  unfold Session.send
  split
  · exact h
  simp only
  split
  · rename_i hl
    rwa [hl] at hlaunched
  · rename_i hl
    rw [hl] at hlaunched
    exact hlaunched.raise rfl rfl

theorem fetchOutbound (h : Turning a port s) : Turning a port s.fetchOutbound.2 :=
  fetchOutbound_keeps (fun _ h => h.congr rfl rfl rfl) (fun h => h.moveTo_disconnected) h

theorem giveBack (h : Turning a port s) (ps : List Packet) : Turning a port (s.giveBack ps) :=
  giveBack_keeps (fun _ h => h.congr rfl rfl rfl) h ps

theorem fetchInbound (h : Turning a port s) : Turning a port s.fetchInbound.2 := by
  obtain ⟨q, he⟩ := fetchInbound_fields s
  rw [he]
  exact h.congr rfl rfl rfl

/-- Packets that are due are queued again. -/
theorem sendDue (h : Turning a port s) (ps : List Packet) : Turning a port
    (ps.foldl (fun s p => s.post { p with header := { p.header with ack := s.expected } }) s) := by
  induction ps generalizing s with
  | nil => exact h
  | cons p ps ih => exact ih (h.post _)

theorem checkTimers (h : Turning a port s) (now : Nat) : Turning a port (s.checkTimers now) := by
  have hreminded : Turning a port
      (if s.outbound.isEmpty then s else s.raise (.outboundAvailable s.localPort)) := by
    split
    · exact h
    · exact h.raise rfl rfl
  unfold Session.checkTimers
  generalize (if s.outbound.isEmpty then s else s.raise (.outboundAvailable s.localPort)) = r at hreminded
  have hcounted : ∀ f, Turning a port { r with inFlight := f } := fun _ => hreminded.congr rfl rfl rfl
  simp only
  split
  · split
    · exact (hcounted _).sendDue _
    · exact (hcounted _).reset
  · exact hreminded

/-! ### What arrives -/

theorem absorb (h : Turning a port s) (q : Queue) (relSeq : UInt8) : Turning a port (s.absorb q relSeq) := by
  have hadvanced : Turning a port (({ s with inbound := q } : Session).arrive relSeq).advance :=
    h.congr rfl rfl rfl
  unfold Session.absorb
  simp only
  split
  · exact hadvanced.raise rfl rfl
  · exact hadvanced

theorem receiveClosing (h : Turning a port s) (p : Packet) : Turning a port (s.receiveClosing p).2 := by
  unfold Session.receiveClosing
  split
  · split
    · exact h.discard.moveTo_disconnected
    · exact h
  split
  · exact h
  · let passed : Session := { s with expected := Serial.next s.expected }
    have hpassed : Turning a port passed := h.congr rfl rfl rfl
    have hposted := hpassed.post (passed.packet .parting passed.nextSeq [])
    exact moveTo_disconnected (hposted.congr rfl rfl rfl)

theorem receiveData (h : Turning a port s) (p : Packet) : Turning a port (s.receiveData p).2 := by
  unfold Session.receiveData
  simp only
  split
  · split
    · exact h.postAck
    · exact h
  split
  · exact h.postAck
  split
  · exact h
  · rename_i q _
    exact (h.absorb q p.header.relSeq).postAck

theorem receiveOpen (h : Turning a port s) (p : Packet) : Turning a port (s.receiveOpen p).2 := by
  have hcredited : Turning a port (if p.header.flags.ack then s.acknowledge p.header.ack else s) := by
    split
    · exact h.acknowledge _
    · exact h
  unfold Session.receiveOpen
  simp only
  split
  · split
    · exact h.postAck
    · exact h
  split
  · split
    · exact hcredited
    · exact hcredited.congr rfl rfl rfl
  split
  · exact hcredited.receiveClosing p
  split
  · exact hcredited.receiveData p
  · exact hcredited

theorem receiveConnecting (h : Turning a port s) (hs : s.state = .connecting) (p : Packet) :
    Turning a port (s.receiveConnecting p).2 := by
  have hgoes : s.state.goesTo .connected = true := by
    rw [hs]
    rfl
  unfold Session.receiveConnecting
  simp only
  split
  · split
    · exact h
    split
    · exact h
    · obtain ⟨inFlight, oldest, hfields⟩ := acknowledge_fields s p.header.ack
      have harrived : Turning a port
          (({ s.acknowledge p.header.ack with expected := p.header.relSeq } : Session).arrive
            p.header.relSeq).advance :=
        (h.acknowledge p.header.ack).congr rfl rfl rfl
      refine (harrived.moveTo ?_).postAck
      rw [hfields]
      exact hgoes
  · split
    · split
      · exact h
      · exact h.post _
    split
    · exact h
    split
    · exact (h.moveTo hgoes).receiveOpen p
    · exact (h.moveTo hgoes).acknowledge _

theorem receive (h : Turning a port s) (p : Packet) : Turning a port (s.receive p).2 := by
  unfold Session.receive
  split
  · exact h.discard.moveTo_disconnected
  split
  · rename_i hs
    exact h.receiveConnecting hs p
  · exact h.receiveOpen p
  · exact h.receiveOpen p
  · exact h
  · exact h

end Turning

/-- A session that has begun, and of which its owner is yet to be told no more than this. -/
structure Born (port : UInt8) (s : Session) : Prop where
  localPort : s.localPort = port
  own : ∀ e ∈ s.events, e.port = port
  state : s.state = .connecting
  changes : changes s.events = [⟨.disconnected, .connecting⟩]

/-- A session begins with its first numbered packet. -/
theorem born_of_postNumbered {s s' : Session} (hstate : s.state = .disconnected)
    (hevents : s.events = []) {flags : Flags} {now : Nat}
    (h : (match s.postNumbered flags now with
      | (.ok (), s') => (.ok (), s'.moveTo .connecting)
      | (.error e, s') => (.error e, s') : Attempt Session Unit) = (.ok (), s')) :
    Born s.localPort s' := by
  have hposted := (Turning.refl hevents).postNumbered flags now
  rcases postNumbered_cases s flags now with ⟨e, he⟩ | ⟨u, events, he, hu⟩ <;> rw [he] at h hposted
  · cases h
  obtain rfl := (Prod.mk.inj h).2
  have hdisconnected : u.state = .disconnected := by
    rw [hu]
    exact hstate
  have hleads := hposted.leads
  rw [hstate] at hleads
  have hnone := hleads.nil_of_disconnected
  rw [moveTo_of_fresh (by rw [hdisconnected]; decide) (by rw [hnone]; exact List.not_mem_nil)]
  refine ⟨hposted.localPort, ?_, rfl, ?_⟩
  · intro e he
    rcases List.mem_append.1 he with he | he
    · exact hposted.own e he
    · rw [List.mem_singleton.1 he]
      exact hposted.localPort
  · rw [changes_append, hnone, hdisconnected]
    rfl

theorem born_of_connect {config : Config} {localPort remotePort channel : UInt8} {options : Options}
    {now : Nat} {s : Session}
    (h : (Session.new config .initiator localPort remotePort channel options).connect now = (.ok (), s)) :
    Born localPort s := by
  unfold Session.connect at h
  exact born_of_postNumbered rfl rfl h

theorem born_of_accept {config : Config} {localPort remotePort channel : UInt8} {options : Options}
    {syn : Packet} {now : Nat} {s : Session}
    (h : (Session.new config .responder localPort remotePort channel options).accept syn now =
      (.ok (), s)) : Born localPort s := by
  unfold Session.accept at h
  exact born_of_postNumbered (s := { Session.new config .responder localPort remotePort channel options with
    expected := Serial.next syn.header.relSeq }) rfl rfl h

end NarrowLink.Connection
