import NarrowLink.Proofs.Engine.Runs
import NarrowLink.Proofs.Reassembly.Calls
import NarrowLink.Proofs.Session.Formed
import NarrowLink.Proofs.Table.Keeping

/-!
# What an engine keeps

The desk takes what a connection has for the transmitter, all of it, and either the transmit queue
accepts it or the connection gets it back (`forwards`).  So the reactions of the desk preserve a property
of the connections and one of the desk, if these survive the few things that happen to either
(`Supplying`, `Accepting`, `heeding`).
-/

namespace NarrowLink.Engine

open Wire
open Connection (Entry Event Options Owner Session Table)

/-! ## Forwarding -/

/-- The connection on a port hands packets over: all that are queued for the transmitter, or some of
those that end the connection. -/
inductive Hands (t : Table Desk) (port : UInt8) (ps : List Packet) : Prop where
  | all {e : Entry} (entry : t.entries.get port = some e) (perm : ps.Perm e.session.outbound.stored)
  | ending {e : Entry} (entry : t.entries.get port = some e) (resetting : e.session.state = .resetting)
      (sub : ∀ p ∈ ps, p ∈ e.session.outbound.stored)

/-- What becomes of a desk that took packets of the connection on a port, and what the transmit queue
accepts. -/
inductive Takes (t : Table Desk) (port : UInt8) (d : Desk) : Desk → List (List Packet) → Prop where
  /-- There was nothing to take, or the connection got it back. -/
  | nothing : Takes t port d d []
  | submitted {ps : List Packet} {d' : Desk} (hands : Hands t port ps)
      (accepted : d.submit ps = (.ok (), d')) :
      Takes t port d d' [(Desk.numberTransmit d.counters ps).1]
  /-- Resets that find no room are kept. -/
  | held {e : Entry} {resets : List Packet} (entry : t.entries.get port = some e)
      (resetting : e.session.state = .resetting) (sub : ∀ p ∈ resets, p ∈ e.session.outbound.stored) :
      Takes t port d { d with heldResets := d.heldResets ++ resets } []

/-- The connection on a port hands packets to the desk. -/
structure Forwards (t : Table Desk) (port : UInt8) (t' : Table Desk) (batches : List (List Packet)) :
    Prop where
  config : t'.config = t.config
  /-- The desk may have been told something meanwhile. -/
  desk : ∃ notices, Takes t port { t.owner with notices := notices } t'.owner batches
  /-- The connection has none of its packets any more, or all of them. -/
  entries : ∀ other e', t'.entries.get other = some e' → t.entries.get other = some e' ∨
    other = port ∧ ∃ e q, t.entries.get port = some e ∧ e.session.outbound.Refills q ∧
      e'.session = { e.session with outbound := q }
  /-- A connection that is not being reset stays. -/
  stays : ∀ other e, t.entries.get other = some e → e.session.state ≠ .resetting →
    (t'.entries.get other).isSome

/-- Inside its own calls, the desk does no more than note changes of state. -/
theorem foldl_listening (t : Table Desk) (events : List Event) :
    ∃ notices, events.foldl (fun t e => listening.react e t) t =
      t.onOwner fun d => { d with notices := notices } := by
  induction events generalizing t with
  | nil => exact ⟨t.owner.notices, rfl⟩
  | cons e events ih =>
    rw [List.foldl_cons]
    obtain ⟨notices, he⟩ := ih (listening.react e t)
    rw [he]
    unfold listening
    cases e <;> exact ⟨notices, rfl⟩

/-- Taking from a session in which nothing was noted. -/
theorem fetchOutbound_taken {t : Table Desk} {port : UInt8} {e : Entry} {ps : List Packet} {q : Queue}
    (he : t.entries.get port = some e) (hevents : e.session.events = [])
    (hfetch : e.session.fetchOutbound = (ps, { e.session with outbound := q })) :
    t.fetchOutbound listening port = (ps,
      { t with entries := t.entries.set port (some { e with
          session := { e.session with outbound := q } }) }) := by
  unfold Table.fetchOutbound Table.onSession
  rw [he]
  simp only
  rw [hfetch]
  simp only [Session.takeEvents, hevents]
  rfl

/-- Taking the reset that ends a connection. -/
theorem fetchOutbound_ended {t : Table Desk} {port : UInt8} {e : Entry} {ps : List Packet} {q : Queue}
    (he : t.entries.get port = some e) (hst : e.session.state = .resetting)
    (hfetch : e.session.fetchOutbound =
      (ps, { e.session with outbound := q }.moveTo .disconnected)) :
    ∃ notices, t.fetchOutbound listening port = (ps,
      { t with
        entries := (t.entries.set port (some { e with
          session := ({ e.session with outbound := q }.moveTo .disconnected).takeEvents.2 })).set port
            none
        owner := { t.owner with notices := notices } }) := by
  unfold Table.fetchOutbound Table.onSession
  rw [he]
  simp only
  rw [hfetch]
  let moved := ({ e.session with outbound := q } : Session).moveTo .disconnected
  have hdisconnect : (Event.stateFirst moved.events).any Event.isDisconnect = true := by
    have hmem : Event.stateChanged e.session.localPort e.session.remotePort .resetting .disconnected ∈
        moved.events := by
      show _ ∈ (({ e.session with outbound := q } : Session).moveTo .disconnected).events
      unfold Session.moveTo
      rw [if_neg (show _ ≠ _ from fun h => by rw [hst] at h; cases h), Session.raise_eq]
      simp only [hst]
      split
      · assumption
      · exact List.mem_append_right _ (List.mem_singleton.2 rfl)
    exact List.any_eq_true.2 ⟨_, (Event.stateFirst_perm _).mem_iff.2 hmem, rfl⟩
  obtain ⟨notices, hfold⟩ := foldl_listening
    { t with entries := t.entries.set port (some { e with session := moved.takeEvents.2 }) }
    (Event.stateFirst moved.events)
  refine ⟨notices, ?_⟩
  show (ps, Table.tell listening _ port e.serial (Event.stateFirst moved.events)) = _
  unfold Table.tell
  rw [hfold, if_pos hdisconnect]
  unfold Table.remove Table.onOwner
  simp only [ByteMap.get_set_self]
  rw [if_pos (by simp)]

theorem submit_error {d d' : Desk} {ps : List Packet} {err : Error}
    (h : d.submit ps = (.error err, d')) : d' = d := by
  unfold Desk.submit at h
  simp only at h
  split at h
  · cases h
  · exact (Prod.mk.inj h).2.symm

/-- Packets without a reset are kept apart from none. -/
theorem partition_plain {ps : List Packet} (h : ∀ p ∈ ps, p.header.flags.rst = false) :
    ps.partition (fun p => p.header.flags.rst) = ([], ps) := by
  rw [List.partition_eq_filter_filter]
  refine Prod.ext (List.filter_eq_nil_iff.2 fun p hp => ?_) (List.filter_eq_self.2 fun p hp => ?_)
  · rw [h p hp]
    exact Bool.false_ne_true
  · show (!p.header.flags.rst) = true
    rw [h p hp]
    rfl

/-- Giving back to a session in which nothing is noted. -/
theorem giveBack_taken {t : Table Desk} (port : UInt8) {e : Entry} {ps : List Packet} {q : Queue}
    (he : t.entries.get port = some e) (hevents : e.session.events = [])
    (hback : e.session.giveBack ps = { e.session with outbound := q }) :
    t.giveBack listening port ps =
      { t with entries := t.entries.set port (some { e with
          session := { e.session with outbound := q } }) } := by
  unfold Table.giveBack Table.onSession
  rw [he]
  simp only
  rw [hback]
  simp only [Session.takeEvents, hevents]
  rfl

theorem giveBack_of_none {t : Table Desk} {port : UInt8} {ps : List Packet}
    (he : t.entries.get port = none) : t.giveBack listening port ps = t := by
  unfold Table.giveBack Table.onSession
  rw [he]

variable {config : Config} {t : Table Desk} {port : UInt8}

theorem forwards_of_none (he : t.entries.get port = none) :
    forwardOutbound t port = t ∧ acceptedOn (.outboundAvailable port) t = [] := by
  have hfetch : t.fetchOutbound listening port = ([], t) := by
    unfold Table.fetchOutbound Table.onSession
    rw [he]
    rfl
  unfold forwardOutbound acceptedOn
  simp only
  rw [hfetch]
  exact ⟨rfl, rfl⟩

/-- A connection that gets another queue, with nothing else changed but the desk. -/
theorem Forwards.of_set {e : Entry} (he : t.entries.get port = some e) {q : Queue}
    (hq : e.session.outbound.Refills q) {d : Desk} {batches : List (List Packet)}
    (hd : ∃ notices, Takes t port { t.owner with notices := notices } d batches) :
    Forwards t port { t with
      entries := t.entries.set port (some { e with session := { e.session with outbound := q } })
      owner := d } batches where
  config := rfl
  desk := hd
  entries other e' hget := by
    by_cases hne : port = other
    · subst hne
      rw [ByteMap.get_set_self] at hget
      cases hget
      exact .inr ⟨rfl, e, q, he, hq, rfl⟩
    · rw [ByteMap.get_set_of_ne _ _ hne] at hget
      exact .inl hget
  stays other e₀ hget _ := by
    rw [ByteMap.get_set]
    split
    · rfl
    · rw [hget]
      rfl

/-- A connection that was being reset is gone, with nothing else changed but the desk. -/
theorem Forwards.of_removed {e : Entry} (he : t.entries.get port = some e)
    (hst : e.session.state = .resetting) {d : Desk} {batches : List (List Packet)}
    (hd : ∃ notices, Takes t port { t.owner with notices := notices } d batches) :
    Forwards t port { t with entries := t.entries.set port none, owner := d } batches where
  config := rfl
  desk := hd
  entries other e' hget := by
    rw [ByteMap.get_set] at hget
    split at hget
    · cases hget
    · exact .inl hget
  stays other e₀ hget hnot := by
    by_cases hne : port = other
    · subst hne
      rw [he] at hget
      cases hget
      exact absurd hst hnot
    · rw [ByteMap.get_set_of_ne _ _ hne, hget]
      rfl

/-- The transmit queue accepts all that a connection has for it, or nothing. -/
theorem forwards_taken {e : Entry} (he : t.entries.get port = some e)
    (hformed : e.session.Formed config) (hevents : e.session.events = []) {ps : List Packet} {q : Queue}
    (hfetch : e.session.fetchOutbound = (ps, { e.session with outbound := q }))
    (hrefills : e.session.outbound.Refills q) (hnil : q.stored = [])
    (hperm : ps.Perm e.session.outbound.stored) (hplain : ∀ p ∈ ps, p.header.flags.rst = false) :
    Forwards t port (forwardOutbound t port) (acceptedOn (.outboundAvailable port) t) := by
  have htaken := fetchOutbound_taken he hevents hfetch
  unfold forwardOutbound acceptedOn
  simp only
  rw [htaken]
  simp only
  split
  · exact .of_set he hrefills ⟨t.owner.notices, .nothing⟩
  rename_i hne
  unfold Desk.accepted
  cases hsubmit : t.owner.submit ps with
  | mk answer d =>
    cases answer with
    | ok => exact .of_set he hrefills ⟨t.owner.notices, .submitted (.all he hperm) hsubmit⟩
    | error err =>
      obtain ⟨q', hback, hq', -⟩ := hformed.giveBack_taken hrefills hnil hperm
      have hgiven := giveBack_taken port (t :=
          { t with
            entries := t.entries.set port (some { e with session := { e.session with outbound := q } })
            owner := t.owner })
        (ByteMap.get_set_self _ _ _) hevents hback
      rw [submit_error hsubmit, partition_plain hplain]
      simp only
      rw [if_neg hne, List.append_nil, hgiven, ByteMap.set_set]
      exact .of_set he hq' ⟨t.owner.notices, .nothing⟩

/-- Nothing is left of a connection that ends with a reset, and the reset is queued or kept. -/
theorem forwards_ended {e : Entry} (he : t.entries.get port = some e)
    (hst : e.session.state = .resetting) {ps : List Packet} {q : Queue}
    (hfetch : e.session.fetchOutbound = (ps, { e.session with outbound := q }.moveTo .disconnected))
    (hps : ∀ p ∈ ps, p ∈ e.session.outbound.stored) :
    Forwards t port (forwardOutbound t port) (acceptedOn (.outboundAvailable port) t) := by
  obtain ⟨notices, hended⟩ := fetchOutbound_ended he hst hfetch
  rw [ByteMap.set_set] at hended
  unfold forwardOutbound acceptedOn
  simp only
  rw [hended]
  simp only
  split
  · exact .of_removed he hst ⟨notices, .nothing⟩
  unfold Desk.accepted
  cases hsubmit : ({ t.owner with notices := notices } : Desk).submit ps with
  | mk answer d =>
    cases answer with
    | ok => exact .of_removed he hst ⟨notices, .submitted (.ending he hst hps) hsubmit⟩
    | error err =>
      rw [submit_error hsubmit]
      simp only
      rw [giveBack_of_none (ByteMap.get_set_self _ _ _), ite_self]
      refine .of_removed he hst ⟨notices, .held he hst fun p hp => hps p ?_⟩
      rw [List.partition_eq_filter_filter] at hp
      exact List.mem_of_mem_filter hp

/-- A connection hands all that it has for the transmitter to the desk, and gets it back if the transmit
queue does not accept it. -/
theorem forwards (h : ∀ e, t.entries.get port = some e →
    e.session.Formed config ∧ e.session.events = []) :
    Forwards t port (forwardOutbound t port) (acceptedOn (.outboundAvailable port) t) := by
  cases he : t.entries.get port with
  | none =>
    obtain ⟨hsame, hnothing⟩ := forwards_of_none he
    rw [hsame, hnothing]
    exact ⟨rfl, ⟨t.owner.notices, .nothing⟩, fun _ _ hget => .inl hget,
      fun _ _ hget _ => by rw [hget]; rfl⟩
  | some e =>
    obtain ⟨hformed, hevents⟩ := h e he
    rcases hformed.fetchOutbound_cases with ⟨ps, q, hfetch, hrefills, hnil, hperm, hplain⟩ |
      ⟨ps, q, hfetch, hst, hps⟩
    · exact forwards_taken he hformed hevents hfetch hrefills hnil hperm hplain
    · exact forwards_ended he hst hfetch hps

/-! ## Properties of the desk and of the connections -/

/-- A property of the connections, and one of what they hand to the desk together.  The packets that end
a connection have a property each, and may be handed over in any company. -/
structure Supplying (config : Config) (App End : Packet → Prop) (Out : List Packet → Prop)
    (P : Bool → UInt8 → Session → Prop) : Prop where
  enduring : Session.Enduring config App P
  formed : ∀ {due : Bool} {port : UInt8} {s : Session}, P due port s → s.Formed config
  hands : ∀ {due : Bool} {port : UInt8} {s : Session} {ps : List Packet}, P due port s →
    ps.Perm s.outbound.stored → Out ps
  ends : ∀ {due : Bool} {port : UInt8} {s : Session}, P due port s → s.state = .resetting →
    ∀ p ∈ s.outbound.stored, End p
  refills : ∀ {due : Bool} {port : UInt8} {s : Session} {q : Queue}, P due port s →
    s.outbound.Refills q → P due port { s with outbound := q }
  fetches : ∀ {due : Bool} {port : UInt8} {s : Session}, P due port s → s.events = [] →
    P false port s.fetchInbound.2
  rejects : ∀ (p : Packet) (flags : Flags), End (Table.rejection p flags)
  gathers : ∀ {ps : List Packet}, (∀ p ∈ ps, End p) → Out ps

/-- A property of the transmitter, the counters and what the transmit queue has accepted, and one of
reassembly, which survive what the connections do to the desk. -/
structure Accepting (Out : List Packet → Prop)
    (T : Transmitter → ByteMap Counters → List (List Packet) → Prop) (R : Reassembly → Prop) : Prop where
  submits : ∀ {x x' : Transmitter} {c : ByteMap Counters} {batches : List (List Packet)}
    {ps : List Packet}, T x c batches → Out ps →
    x.submitAll (Desk.numberTransmit c ps).1 = (.ok (), x') →
    T x' (Desk.numberTransmit c ps).2 (batches ++ [(Desk.numberTransmit c ps).1])
  appends : ∀ {r : Reassembly} (p : Packet), R r → R (r.append p)

/-- The desk and its record have the properties, and the resets that wait are packets that end
connections. -/
structure Logged.Has (End : Packet → Prop)
    (T : Transmitter → ByteMap Counters → List (List Packet) → Prop) (R : Reassembly → Prop)
    (l : Logged) : Prop where
  traffic : T l.desk.transmitter l.desk.counters l.batches
  held : ∀ p ∈ l.desk.heldResets, End p
  reassembly : R l.desk.reassembly

variable {App End : Packet → Prop} {Out : List Packet → Prop} {P : Bool → UInt8 → Session → Prop}
  {due : Option UInt8} {T : Transmitter → ByteMap Counters → List (List Packet) → Prop}
  {R : Reassembly → Prop}

/-- Packets that are queued leave the other parts of the desk as they are. -/
theorem submit_ok {d d' : Desk} {ps : List Packet} (h : d.submit ps = (.ok (), d')) :
    ∃ x, d.transmitter.submitAll (Desk.numberTransmit d.counters ps).1 = (.ok (), x) ∧
      d' = { d with transmitter := x, counters := (Desk.numberTransmit d.counters ps).2 } := by
  unfold Desk.submit at h
  simp only at h
  split at h
  · rename_i x hx
    exact ⟨x, hx, (Prod.mk.inj h).2.symm⟩
  · cases h

theorem Accepting.submit (h : Accepting Out T R) {d d' : Desk} {ps : List Packet}
    {batches : List (List Packet)} (hd : Logged.Has End T R ⟨d, batches⟩) (hps : Out ps)
    (hok : d.submit ps = (.ok (), d')) :
    Logged.Has End T R ⟨d', batches ++ [(Desk.numberTransmit d.counters ps).1]⟩ := by
  obtain ⟨x, hx, rfl⟩ := submit_ok hok
  exact ⟨h.submits hd.traffic hps hx, hd.held, hd.reassembly⟩

theorem Accepting.append_all (h : Accepting Out T R) (ps : List Packet) {r : Reassembly} (hr : R r) :
    R (ps.foldl Reassembly.append r) := by
  induction ps generalizing r with
  | nil => exact hr
  | cons p ps ih => exact ih (h.appends p hr)

theorem takes_has (hp : Supplying config App End Out P) (hd : Accepting Out T R) {t : Table Logged}
    (h : t.Keeps config (Logged.Has End T R) P due) {port : UInt8} {d d' : Desk}
    {batches more : List (List Packet)} (hhas : Logged.Has End T R ⟨d, batches⟩)
    (htakes : Takes (t.view Logged.desk) port d d' more) :
    Logged.Has End T R ⟨d', batches ++ more⟩ := by
  cases htakes with
  | nothing =>
    rw [List.append_nil]
    exact hhas
  | submitted hands hok =>
    refine hd.submit hhas ?_ hok
    cases hands with
    | all entry perm => exact hp.hands (h.sessions port _ entry).1 perm
    | ending entry resetting sub =>
      exact hp.gathers fun p hmem => hp.ends (h.sessions port _ entry).1 resetting p (sub p hmem)
  | held entry resetting sub =>
    rw [List.append_nil]
    refine ⟨hhas.traffic, fun p hmem => ?_, hhas.reassembly⟩
    rcases List.mem_append.1 hmem with hmem | hmem
    · exact hhas.held p hmem
    · exact hp.ends (h.sessions port _ entry).1 resetting p (sub p hmem)

theorem react_outbound (hp : Supplying config App End Out P) (hd : Accepting Out T R) {t : Table Logged}
    (h : t.Keeps config (Logged.Has End T R) P due) (port : UInt8) :
    (logging.react (.outboundAvailable port) t).Keeps config (Logged.Has End T R) P due := by
  have hforwards : Forwards (t.view Logged.desk) port _ _ := forwards fun e he =>
    ⟨hp.formed (h.sessions port e he).1, (h.sessions port e he).2⟩
  obtain ⟨notices, htakes⟩ := hforwards.desk
  refine ⟨hforwards.config.trans h.config, ?_, fun other e' hget => ?_⟩
  · have hnoted : Logged.Has End T R ⟨{ t.owner.desk with notices := notices }, t.owner.batches⟩ :=
      ⟨h.owner.traffic, h.owner.held, h.owner.reassembly⟩
    exact takes_has hp hd h hnoted htakes
  · rcases hforwards.entries other e' hget with hsame | ⟨rfl, e, q, he, hrefills, hs⟩
    · exact h.sessions other e' hsame
    · obtain ⟨hsession, hevents⟩ := h.sessions other e he
      rw [hs]
      exact ⟨hp.refills hsession hrefills, hevents⟩

theorem react_inbound (hp : Supplying config App End Out P) (hd : Accepting Out T R) {t : Table Logged}
    (h : t.Keeps config (Logged.Has End T R) P due) (port : UInt8) :
    (logging.react (.inboundAvailable port) t).Keeps config (Logged.Has End T R) P
      (if due = some port then none else due) := by
  have hdue : ∀ other, other ≠ port →
      decide ((if due = some port then none else due) = some other) = decide (due = some other) := by
    intro other hne
    split
    · rename_i heq
      rw [heq]
      exact (decide_eq_decide.2 (by simp [Ne.symm hne]))
    · rfl
  have hreact : logging.react (.inboundAvailable port) t =
      (forwardInbound (t.view Logged.desk) port).view fun d => ⟨d, t.owner.batches⟩ := by
    unfold logging Table.view
    simp only [acceptedOn, List.append_nil]
    rfl
  rw [hreact]
  unfold forwardInbound Table.fetchInbound Table.onSession
  cases he : (t.view Logged.desk).entries.get port with
  | none =>
    refine ⟨h.config, ?_, fun other e' hget => ?_⟩
    · exact ⟨h.owner.traffic, h.owner.held, h.owner.reassembly⟩
    · have hne : other ≠ port := by
        rintro rfl
        exact absurd (hget.symm.trans he) (by simp)
      rw [hdue other hne]
      exact h.sessions other e' hget
  | some e =>
    obtain ⟨hsession, hevents⟩ := h.sessions port e he
    have hfetched := hp.fetches hsession hevents
    obtain ⟨q, hq⟩ := Connection.fetchInbound_fields e.session
    rw [hq] at hfetched
    simp only
    rw [hq]
    simp only [Session.takeEvents, hevents]
    refine ⟨h.config, ?_, fun other e' hget => ?_⟩
    · exact ⟨h.owner.traffic, h.owner.held, hd.append_all _ h.owner.reassembly⟩
    · have hset : ((t.view Logged.desk).entries.set port (some { e with
          session := { e.session with inbound := q, events := [] } })).get other = some e' := hget
      rw [ByteMap.get_set] at hset
      split at hset
      · rename_i hport
        cases hset
        subst hport
        refine ⟨?_, rfl⟩
        have hnone : decide ((if due = some port then none else due) = some port) = false := by
          split
          · rfl
          · rename_i hne
            exact decide_eq_false hne
        rw [hnone]
        exact hp.enduring.told hfetched
      · rename_i hne
        rw [hdue other (Ne.symm hne)]
        exact h.sessions other e' hset

/-- The desk preserves what holds of itself and of its connections. -/
theorem heeding (hp : Supplying config App End Out P) (hd : Accepting Out T R) :
    logging.Heeding config (Logged.Has End T R) P where
  react := by
    intro due t e hplain h
    cases e with
    | stateChanged port remotePort old new =>
      refine ⟨h.config, ?_, h.sessions⟩
      show Logged.Has End T R ⟨t.owner.desk.notify _, t.owner.batches ++ []⟩
      rw [List.append_nil]
      exact ⟨h.owner.traffic, h.owner.held, h.owner.reassembly⟩
    | outboundAvailable port => exact react_outbound hp hd h port
    | inboundAvailable port => exact react_inbound hp hd h port
    | rejected port reply => exact absurd rfl (hplain port reply)
  reject := by
    intro t p flags h
    refine ⟨h.config, ?_, h.sessions⟩
    show Logged.Has End T R ⟨(t.owner.desk.submit [Table.rejection p flags]).2,
      t.owner.batches ++ t.owner.desk.accepted [Table.rejection p flags]⟩
    have hout : Out [Table.rejection p flags] := hp.gathers fun r hr => by
      rw [List.mem_singleton.1 hr]
      exact hp.rejects p flags
    unfold Desk.accepted
    cases hsubmit : t.owner.desk.submit [Table.rejection p flags] with
    | mk answer d =>
      cases answer with
      | ok => exact hd.submit h.owner hout hsubmit
      | error err =>
        rw [submit_error hsubmit, List.append_nil]
        exact h.owner
  decideOn _ _ _ := rfl

end NarrowLink.Engine
