import NarrowLink.Proofs.Engine.Serving
import NarrowLink.Proofs.Session.Resting

/-!
# What the desk does for its connections

Between two calls on the table of connections every connection rests (`Rests`).  A call touches one
connection, and the desk is told of it.  If the call does not reset the connection, then the desk takes
what waits there, and what it cannot queue goes back (`Attended`): no reset is kept, and the connection
is removed exactly if it has ended (`Lasts`).  If it does, then the desk takes the farewell and nothing
else, which is queued for transmission or kept until there is room, and the connection is removed
(`Parts`).
-/

namespace NarrowLink

open Wire

namespace Engine

open Connection (Entry Event Options Owner Session State Table NumbersFragments)

variable {config : Config} {port : UInt8} {t t' : Table Desk}

/-! ## The desk -/

/-- The desk after it did something for a connection that was not reset. -/
structure Desk.Attends (d d' : Desk) : Prop where
  fields : ∃ x r c n, d' = { d with transmitter := x, reassembly := r, counters := c, notices := n }
  /-- What is queued for transmission stays queued. -/
  stored : d.transmitter.queue.stored.Subperm d'.transmitter.queue.stored

theorem Desk.Attends.of_same {d d' : Desk} (htransmitter : d'.transmitter = d.transmitter)
    (h : ∃ x r c n, d' = { d with transmitter := x, reassembly := r, counters := c, notices := n }) :
    d.Attends d' :=
  ⟨h, by rw [htransmitter]⟩

theorem Desk.Attends.refl (d : Desk) : d.Attends d := .of_same rfl ⟨_, _, _, _, rfl⟩

theorem Desk.Attends.trans {d d' d'' : Desk} (h : d.Attends d') (h' : d'.Attends d'') :
    d.Attends d'' where
  fields := by
    obtain ⟨_, _, _, _, rfl⟩ := h.fields
    obtain ⟨_, _, _, _, rfl⟩ := h'.fields
    exact ⟨_, _, _, _, rfl⟩
  stored := h.stored.trans h'.stored

theorem Desk.Attends.heldResets {d d' : Desk} (h : d.Attends d') : d'.heldResets = d.heldResets := by
  obtain ⟨_, _, _, _, rfl⟩ := h.fields
  rfl

theorem stored_queued (d : Desk) (ps : List Packet) :
    (d.queued ps).transmitter.queue.stored.Perm
      ((Desk.numberTransmit d.counters ps).1 ++ d.transmitter.queue.stored) :=
  Queue.stored_foldl_add _ _

theorem subperm_queued (d : Desk) (ps : List Packet) :
    d.transmitter.queue.stored.Subperm (d.queued ps).transmitter.queue.stored :=
  ((List.sublist_append_right _ _).subperm).trans (stored_queued d ps).symm.subperm

theorem Desk.attends_submit (d : Desk) (ps : List Packet) : d.Attends (d.submit ps).2 := by
  by_cases hroom : d.transmitter.queue.used + wireLengths ps ≤ d.transmitter.queue.capacity
  · rw [submit_of_fits hroom]
    exact ⟨⟨_, _, _, _, rfl⟩, subperm_queued d ps⟩
  · rw [submit_of_not_fits hroom]
    exact .refl d

theorem Desk.attends_submitDatagram (d : Desk) (ps : List Packet) :
    d.Attends (d.submitDatagram ps).2 := by
  have hcounted := Desk.attends_submit { d with counters := (Desk.numberDatagram d.counters ps).2 }
    (Desk.numberDatagram d.counters ps).1
  unfold Desk.submitDatagram
  simp only
  split
  · rename_i hsubmit
    rw [hsubmit] at hcounted
    refine ⟨?_, hcounted.stored⟩
    obtain ⟨_, _, _, _, rfl⟩ := hcounted.fields
    exact ⟨_, _, _, _, rfl⟩
  · exact .refl d

/-- The desk after it took a reset that ends a connection: the transmit queue has it, or else it is kept
until there is room. -/
inductive Desk.Dismisses (d : Desk) (p : Packet) : Desk → Prop where
  | queued {n : List Notice}
      (room : d.transmitter.queue.used + p.wireLength ≤ d.transmitter.queue.capacity) :
      Dismisses d p { d.queued [p] with notices := n }
  | kept {n : List Notice}
      (full : d.transmitter.queue.capacity < d.transmitter.queue.used + p.wireLength) :
      Dismisses d p { d with heldResets := d.heldResets ++ [p], notices := n }

/-! ## Reactions -/

/-- What the desk makes of a table when it is told of something that happened to the connection on a
port, which is not being reset. -/
structure Attended (config : Config) (port : UInt8) (t t' : Table Desk) : Prop where
  owner : t.owner.Attends t'.owner
  others : ∀ other, other ≠ port → t'.entries.get other = t.entries.get other
  entry : ∀ e, t.entries.get port = some e → ∃ s : Session,
    t'.entries.get port = some { e with session := s } ∧ s.Formed config ∧
      s.localPort = e.session.localPort ∧ s.events = [] ∧ s.state = e.session.state
  config : t'.config = t.config

theorem Attended.trans {t'' : Table Desk} (h : Attended config port t t')
    (h' : Attended config port t' t'') : Attended config port t t'' where
  config := h'.config.trans h.config
  owner := h.owner.trans h'.owner
  others other hne := (h'.others other hne).trans (h.others other hne)
  entry e he := by
    obtain ⟨s, hs, -, hport, -, hstate⟩ := h.entry e he
    obtain ⟨s', hs', hformed', hport', hevents', hstate'⟩ := h'.entry _ hs
    exact ⟨s', hs', hformed', hport'.trans hport, hevents', hstate'.trans hstate⟩

/-- The connection is replaced by one that differs in its queues only. -/
theorem Attended.replace {e : Entry} (he : t.entries.get port = some e) {s : Session}
    (hformed : s.Formed config) (hport : s.localPort = e.session.localPort) (hevents : s.events = [])
    (hstate : s.state = e.session.state) {d : Desk} (hd : t.owner.Attends d) :
    Attended config port t { t with
      entries := t.entries.set port (some { e with session := s })
      owner := d } where
  config := rfl
  owner := hd
  others other hne := ByteMap.get_set_of_ne _ _ (Ne.symm hne)
  entry e' he' := by
    rw [he] at he'
    cases he'
    exact ⟨s, ByteMap.get_set_self _ _ _, hformed, hport, hevents, hstate⟩

/-- Nothing happens but to the desk. -/
theorem Attended.noted {e : Entry} (he : t.entries.get port = some e) (hevents : e.session.events = [])
    (hformed : e.session.Formed config) {d : Desk} (hd : t.owner.Attends d) :
    Attended config port t { t with owner := d } where
  config := rfl
  owner := hd
  others _ _ := rfl
  entry e' he' := by
    rw [he] at he'
    cases he'
    exact ⟨e.session, he, hformed, rfl, hevents, rfl⟩

section

variable {e : Entry} (he : t.entries.get port = some e) (hevents : e.session.events = [])

include he hevents

theorem attended_forwardOutbound (hformed : e.session.Formed config)
    (hcalm : e.session.state ≠ .resetting) : Attended config port t (forwardOutbound t port) := by
  rcases hformed.fetchOutbound_cases with ⟨ps, q, hfetch, hrefills, hnil, hperm, hplain⟩ |
    ⟨ps, q, -, hst, -⟩
  · have htaken := fetchOutbound_taken he hevents hfetch
    unfold forwardOutbound
    simp only
    rw [htaken]
    simp only
    split
    · exact .replace he (hformed.refill hrefills) rfl hevents rfl (.refl _)
    have hsubmitted := t.owner.attends_submit ps
    cases hsubmit : t.owner.submit ps with
    | mk answer d =>
      rw [hsubmit] at hsubmitted
      cases answer with
      | ok => exact .replace he (hformed.refill hrefills) rfl hevents rfl hsubmitted
      | error err =>
        rename_i hne
        obtain rfl := submit_error hsubmit
        obtain ⟨q', hback, hq', -⟩ := hformed.giveBack_taken hrefills hnil hperm
        have hgiven := giveBack_taken port (t :=
            { t with entries := t.entries.set port (some { e with
                session := { e.session with outbound := q } }) })
          (ByteMap.get_set_self _ _ _) hevents hback
        simp only [partition_plain hplain, List.append_nil]
        rw [if_neg hne, hgiven, ByteMap.set_set]
        exact .replace he (hformed.refill hq') rfl hevents rfl (.refl _)
  · exact absurd hst hcalm

theorem attended_forwardInbound (hformed : e.session.Formed config) :
    Attended config port t (forwardInbound t port) := by
  obtain ⟨q, hfetch⟩ := Connection.fetchInbound_fields e.session
  have hemptied : Session.Formed config { e.session with inbound := q, events := [] } := { hformed with }
  unfold forwardInbound Table.fetchInbound Table.onSession
  rw [he]
  simp only
  rw [hfetch]
  simp only [Session.takeEvents, hevents]
  exact .replace he hemptied rfl rfl rfl (.of_same rfl ⟨_, _, _, _, rfl⟩)

/-- The desk learns of something that happened to a connection that is not being reset. -/
theorem attended_react (hformed : e.session.Formed config) (hcalm : e.session.state ≠ .resetting)
    {ev : Event} (hown : ev.port = port ∧ ev.Plain) :
    Attended config port t (attending.react ev t) := by
  obtain ⟨rfl, hplain⟩ := hown
  cases ev with
  | stateChanged localPort remotePort old new =>
    exact .noted he hevents hformed (.of_same rfl ⟨_, _, _, _, rfl⟩)
  | outboundAvailable => exact attended_forwardOutbound he hevents hformed hcalm
  | inboundAvailable => exact attended_forwardInbound he hevents hformed
  | rejected localPort reply => exact absurd rfl (hplain localPort reply)

theorem attended_foldl (hformed : e.session.Formed config) (hcalm : e.session.state ≠ .resetting)
    {events : List Event} (hown : ∀ ev ∈ events, ev.port = port ∧ ev.Plain) :
    Attended config port t (events.foldl (fun t ev => attending.react ev t) t) := by
  induction events generalizing t e with
  | nil =>
    exact .noted he hevents hformed (.refl _)
  | cons ev events ih =>
    have hfirst := attended_react he hevents hformed hcalm (hown ev List.mem_cons_self)
    obtain ⟨s, hs, hformed', -, hevents', hstate⟩ := hfirst.entry e he
    exact hfirst.trans (ih hs hevents' hformed' (hstate ▸ hcalm)
      fun x hx => hown x (List.mem_cons_of_mem ev hx))

end

/-! ## Taking the farewell -/

theorem holds_farewell {s : Session} (hformed : s.Formed config) :
    s.dying.outbound.Holds s.remotePort [s.farewell] := by
  have hcleared : s.outbound.clear.2.Holds s.remotePort [] :=
    ⟨hformed.order, ByteMap.get_const _ _, fun _ _ => ByteMap.get_const _ _, rfl⟩
  exact hcleared.add (p := s.farewell) rfl

/-- Whoever takes what a reset connection has left takes its farewell, and ends it. -/
theorem fetchOutbound_dying {s : Session} (hformed : s.Formed config) :
    ∃ q, s.dying.takeEvents.2.fetchOutbound =
      ([s.farewell], { s.dying.takeEvents.2 with outbound := q }.moveTo .disconnected) := by
  have hholds := holds_farewell hformed
  obtain ⟨q, hpop, -⟩ := hholds.popNext_cons
  refine ⟨q, ?_⟩
  show s.dying.takeEvents.2.fetchOutboundUpTo s.dying.outbound.length = _
  rw [hholds.length_eq]
  show s.dying.takeEvents.2.fetchOutboundUpTo 1 = _
  unfold Session.fetchOutboundUpTo
  rw [show s.dying.takeEvents.2.outbound.popNext = _ from hpop]
  simp only
  rw [if_pos ⟨rfl, rfl⟩]

/-- The desk takes the farewell of a connection that was reset. -/
theorem forwardOutbound_dying {e : Entry} {s : Session} (hformed : s.Formed config)
    (he : t.entries.get port = some e) (hdying : e.session = s.dying.takeEvents.2) :
    ∃ d, forwardOutbound t port = { t with entries := t.entries.set port none, owner := d } ∧
      t.owner.Dismisses s.farewell d := by
  obtain ⟨q, hfetch⟩ := fetchOutbound_dying hformed
  rw [← hdying] at hfetch
  obtain ⟨notices, hended⟩ := fetchOutbound_ended he (by rw [hdying]; rfl) hfetch
  unfold forwardOutbound
  simp only
  rw [hended, ByteMap.set_set]
  simp only [List.isEmpty_cons, Bool.false_eq_true, if_false]
  by_cases hroom : t.owner.transmitter.queue.used + s.farewell.wireLength ≤
      t.owner.transmitter.queue.capacity
  · have hsubmit : ({ t.owner with notices := notices } : Desk).submit [s.farewell] = _ :=
      submit_of_fits hroom
    rw [hsubmit]
    exact ⟨_, rfl, .queued hroom⟩
  · have hsubmit : ({ t.owner with notices := notices } : Desk).submit [s.farewell] = _ :=
      submit_of_not_fits hroom
    rw [hsubmit]
    exact ⟨_, rfl, .kept (Nat.lt_of_not_le hroom)⟩

/-! ## Calls -/

/-- The connections of a table between two calls. -/
structure Rests (config : Config) (t : Table Desk) : Prop where
  sessions : ∀ port e, t.entries.get port = some e → e.session.Resting config port
  config : t.config = config

/-- What a call makes of a table that does not reset the connection on a port, which is in this state
afterwards and is removed if it has ended. -/
structure Lasts (port : UInt8) (state : State) (t t' : Table Desk) : Prop where
  owner : t.owner.Attends t'.owner
  others : ∀ other, other ≠ port → t'.entries.get other = t.entries.get other
  state : t'.state? port = if state = .disconnected then none else some state

/-- What a call makes of a table that resets a connection. -/
structure Parts (port : UInt8) (s : Session) (t t' : Table Desk) : Prop where
  entries : t'.entries = t.entries.set port none
  owner : t.owner.Dismisses s.farewell t'.owner

/-- A session is put into a table where all others rest. -/
structure Enters (port : UInt8) (serial : Nat) (s : Session) (t t' : Table Desk) : Prop where
  config : t'.config = t.config
  owner : t'.owner = t.owner
  entries : t'.entries = t.entries.set port (some ⟨serial, s.takeEvents.2⟩)

/-- Only what is on one port has changed. -/
theorem Rests.replaced (h : Rests config t) (port : UInt8) (hconfig : t'.config = config)
    (hothers : ∀ other, other ≠ port → t'.entries.get other = t.entries.get other)
    (hport : ∀ e, t'.entries.get port = some e → e.session.Resting config port) :
    Rests config t' where
  sessions other e he := by
    by_cases hother : other = port
    · subst hother
      exact hport e he
    · rw [hothers other hother] at he
      exact h.sessions other e he
  config := hconfig

/-- The desk is told of a connection that was not reset. -/
theorem lasts_tell {u : Table Desk} {serial : Nat} {s : Session} (h : Rests config t)
    (hu : Enters port serial s t u) (hs : s.Untold config port) :
    Rests config (u.tell attending port serial (Event.stateFirst s.events)) ∧
      Lasts port s.state t (u.tell attending port serial (Event.stateFirst s.events)) := by
  have he : u.entries.get port = some ⟨serial, s.takeEvents.2⟩ := by
    rw [hu.entries, ByteMap.get_set_self]
  have hperm := Event.stateFirst_perm s.events
  have htaken : s.takeEvents.2.Formed config := { hs.formed with }
  have htold := attended_foldl he rfl htaken hs.calm fun ev hev => hs.own ev (hperm.mem_iff.1 hev)
  obtain ⟨s', he', hformed, hport, hevents, hstate⟩ := htold.entry _ he
  have hothers : ∀ other, other ≠ port →
      ((Event.stateFirst s.events).foldl (fun t ev => attending.react ev t) u).entries.get other =
        t.entries.get other := fun other hne => by
    rw [htold.others other hne, hu.entries, ByteMap.get_set_of_ne _ _ (Ne.symm hne)]
  have hconfig := htold.config.trans (hu.config.trans h.config)
  have howner := hu.owner ▸ htold.owner
  unfold Table.tell
  simp only
  rw [hperm.any_eq]
  split
  · rename_i hends
    have hothers' := fun other hne =>
      (ByteMap.get_set_of_ne _ none (Ne.symm hne)).trans (hothers other hne)
    unfold Table.remove
    rw [he', if_pos (by simp)]
    refine ⟨h.replaced port hconfig hothers' fun e hget => ?_, howner, hothers', ?_⟩
    · rw [ByteMap.get_set_self] at hget
      cases hget
    · rw [if_pos (hs.ends.1 hends)]
      unfold Table.state? Table.session?
      rw [ByteMap.get_set_self]
      rfl
  · rename_i hends
    have hdisconnected : s.state ≠ .disconnected := fun hst => hends (hs.ends.2 hst)
    refine ⟨h.replaced port hconfig hothers fun e hget => ?_, howner, hothers, ?_⟩
    · rw [he'] at hget
      cases hget
      refine ⟨hformed, hport.trans hs.localPort, hevents, Session.isWaiting_iff.2 ?_⟩
      rw [show s'.state = s.state from hstate]
      exact ⟨hs.calm, hdisconnected⟩
    · rw [if_neg hdisconnected]
      unfold Table.state? Table.session?
      rw [he']
      exact congrArg some hstate

/-- The desk is told of a connection that was reset. -/
theorem parts_tell {u : Table Desk} {serial : Nat} {s : Session} (h : Rests config t)
    (hu : Enters port serial s.dying t u) (hs : s.Resting config port) :
    Rests config (u.tell attending port serial (Event.stateFirst s.dying.events)) ∧
      Parts port s t (u.tell attending port serial (Event.stateFirst s.dying.events)) := by
  have he : u.entries.get port = some ⟨serial, s.dying.takeEvents.2⟩ := by
    rw [hu.entries, ByteMap.get_set_self]
  let noted := u.onOwner fun d => d.notify (.connection s.localPort .resetting)
  obtain ⟨d, hforward, hdismissed⟩ :=
    forwardOutbound_dying (t := noted) hs.formed he rfl
  have htell : u.tell attending port serial (Event.stateFirst s.dying.events) =
      forwardOutbound noted port := by
    rw [← hs.localPort]
    rfl
  have hentries : noted.entries.set port none = t.entries.set port none := by
    show u.entries.set port none = _
    rw [hu.entries, ByteMap.set_set]
  rw [htell, hforward, hentries]
  refine ⟨h.replaced port (hu.config.trans h.config) (fun other hne => ?_) fun e hget => ?_, rfl,
    ?_⟩
  · exact ByteMap.get_set_of_ne _ _ (Ne.symm hne)
  · rw [ByteMap.get_set_self] at hget
    cases hget
  · have howner : t.owner = u.owner := hu.owner.symm
    rw [howner]
    cases hdismissed with
    | queued room => exact .queued room
    | kept full => exact .kept full

/-- What a call that touches the connection on a port makes of a table. -/
inductive Serves (port : UInt8) (t t' : Table Desk) : Prop where
  | lasts (owner : t.owner.Attends t'.owner)
      (others : ∀ other, other ≠ port → t'.entries.get other = t.entries.get other)
  | parts {s : Session} (session : t.session? port = some s) (parted : Parts port s t t')

theorem Serves.refl (port : UInt8) (t : Table Desk) : Serves port t t :=
  .lasts (.refl _) fun _ _ => rfl

theorem Serves.others (h : Serves port t t') {other : UInt8} (hne : other ≠ port) :
    t'.entries.get other = t.entries.get other := by
  cases h with
  | lasts _ others => exact others other hne
  | parts _ parted => rw [parted.entries, ByteMap.get_set_of_ne _ _ (Ne.symm hne)]

theorem session?_of_get {e : Entry} (he : t.entries.get port = some e) :
    t.session? port = some e.session := by
  unfold Table.session?
  rw [he]
  rfl

namespace Rests

variable (h : Rests config t)

include h

theorem resting {s : Session} (hs : t.session? port = some s) : s.Resting config port := by
  unfold Table.session? at hs
  obtain ⟨e, he, rfl⟩ := Option.map_eq_some_iff.1 hs
  exact h.sessions port e he

/-- A call on a connection. -/
theorem onSession_of_get {α : Type} {e : Entry} (he : t.entries.get port = some e)
    {f : Session → α × Session} (hf : Session.Fares config port e.session (f e.session).2) :
    Rests config (t.onSession attending port f).2 ∧
      ((f e.session).2.state ≠ .resetting ∧
          Lasts port (f e.session).2.state t (t.onSession attending port f).2 ∨
        (f e.session).2 = e.session.dying ∧ Parts port e.session t (t.onSession attending port f).2) := by
  have henters : ∀ s', Enters port e.serial s' t
      { t with entries := t.entries.set port (some { e with session := s'.takeEvents.2 }) } :=
    fun _ => ⟨rfl, rfl, rfl⟩
  unfold Table.onSession
  rw [he]
  simp only
  generalize (f e.session).2 = s' at hf
  cases hf with
  | lasting untold =>
    obtain ⟨hrests, hlasts⟩ := lasts_tell h (henters s') untold
    exact ⟨hrests, .inl ⟨untold.calm, hlasts⟩⟩
  | reset =>
    obtain ⟨hrests, hparts⟩ := parts_tell h (henters _) (h.sessions port e he)
    exact ⟨hrests, .inr ⟨rfl, hparts⟩⟩

/-- A call on the connection on a port, if there is one. -/
theorem onSession {α : Type} {f : Session → α × Session}
    (hf : ∀ s, s.Resting config port → Session.Fares config port s (f s).2) :
    Rests config (t.onSession attending port f).2 ∧
      Serves port t (t.onSession attending port f).2 := by
  cases he : t.entries.get port with
  | none =>
    unfold Table.onSession
    rw [he]
    exact ⟨h, .refl port t⟩
  | some e =>
    obtain ⟨hrests, ⟨-, hlasts⟩ | ⟨-, hparts⟩⟩ :=
      h.onSession_of_get he (hf _ (h.sessions port e he))
    · exact ⟨hrests, .lasts hlasts.owner hlasts.others⟩
    · exact ⟨hrests, .parts (session?_of_get he) hparts⟩

theorem enter {s : Session} (hs : s.Untold config port) :
    Rests config (t.enter attending port s) ∧ Serves port t (t.enter attending port s) := by
  obtain ⟨hrests, hlasts⟩ := lasts_tell (u := { t with
      entries := t.entries.set port (some ⟨t.nextSerial, s.takeEvents.2⟩)
      nextSerial := t.nextSerial + 1 }) h ⟨rfl, rfl, rfl⟩ hs
  exact ⟨hrests, .lasts hlasts.owner hlasts.others⟩

theorem connect (now : Nat) (localPort remotePort channel : UInt8) (options : Options) :
    Rests config (t.connect attending now localPort remotePort channel options).2 ∧
      Serves localPort t (t.connect attending now localPort remotePort channel options).2 := by
  unfold Table.connect
  split
  · exact ⟨h, .refl _ t⟩
  split
  · exact ⟨h, .refl _ t⟩
  split
  · exact ⟨h, .refl _ t⟩
  split
  · exact ⟨h, .refl _ t⟩
  · rename_i s hs
    rw [h.config] at hs
    exact h.enter (Session.untold_of_connect hs)

theorem reject (p : Packet) (flags : Wire.Flags) :
    Rests config (t.reject attending p flags) ∧ Serves p.port t (t.reject attending p flags) :=
  ⟨⟨h.sessions, h.config⟩, .lasts (t.owner.attends_submit _) fun _ _ => rfl⟩

theorem receive (now : Nat) (p : Packet) :
    Rests config (t.receive attending now p).2 ∧
      Serves p.port t (t.receive attending now p).2 := by
  unfold Table.receive
  cases he : t.entries.get p.port with
  | some e =>
    have hsome : t.onSession attending p.port (fun s => s.receive p) =
        (some (e.session.receive p).1, (t.onSession attending p.port fun s => s.receive p).2) := by
      unfold Table.onSession
      rw [he]
    rw [hsome]
    exact h.onSession fun s hs => hs.fares_receive rfl
  | none =>
    have hnone : t.onSession attending p.port (fun s => s.receive p) = (none, t) := by
      unfold Table.onSession
      rw [he]
    rw [hnone]
    simp only
    split
    · -- the packet asks for a connection on a free port
      unfold Table.receiveOpening
      simp only
      have hdecide : attending.decideOn p.port p.header.src t = (acceptance p.port t, t) := rfl
      rw [hdecide]
      cases acceptance p.port t with
      | none => exact h.reject p _
      | some options =>
        simp only [he, Option.isSome_none, Bool.false_eq_true, if_false]
        split
        · exact ⟨h, .refl _ t⟩
        · rename_i s hs
          rw [h.config] at hs
          exact h.enter (Session.untold_of_accept hs)
    split
    · exact ⟨h, .refl _ t⟩
    · exact h.reject p _

theorem send {α : Type} (now : Nat) (port : UInt8) {ps : List Packet}
    {number : List Packet → List Packet × α} (hnumber : NumbersFragments number) (hne : ps ≠ []) :
    Rests config (t.send attending now port ps number).2 ∧
      Serves port t (t.send attending now port ps number).2 :=
  h.onSession fun _ hs => hs.fares_send now hnumber hne

theorem sendWaiting {α : Type} (now : Nat) (port : UInt8) {ps : List Packet}
    {number : List Packet → List Packet × α} (hnumber : NumbersFragments number) (hne : ps ≠ []) :
    Rests config (t.sendWaiting attending now port ps number).2 ∧
      Serves port t (t.sendWaiting attending now port ps number).2 := by
  unfold Table.sendWaiting
  split
  · exact ⟨h, .refl _ t⟩
  split
  · exact ⟨h, .refl _ t⟩
  · exact h.send now port hnumber hne

theorem passage (c : ByteMap Counters) (now : Nat) (port : UInt8) {ps : List Packet} (hne : ps ≠ []) :
    Rests config (passage attending c now port ps t).2 ∧
      Serves port t (passage attending c now port ps t).2 := by
  unfold Engine.passage
  simp only
  split
  · exact h.sendWaiting now port (numbersFragments c) hne
  · exact h.send now port (numbersFragments c) hne

section

variable (hvalid : config.Valid)

include hvalid

theorem close (now : Nat) (port : UInt8) :
    Rests config (t.close attending now port).2 ∧ Serves port t (t.close attending now port).2 :=
  h.onSession fun _ hs => hs.fares_close hvalid now

theorem reset (port : UInt8) :
    Rests config (t.reset attending port).2 ∧ Serves port t (t.reset attending port).2 :=
  h.onSession (f := fun s => ((.ok () : Except Error Unit), s.reset)) fun _ hs => hs.fares_reset hvalid

end

end Rests

end Engine

end NarrowLink
