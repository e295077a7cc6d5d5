import NarrowLink.Connection.Table
import NarrowLink.Proofs.Session.Lasting

/-!
# What a table keeps

`Table.Keeps` says that the owner has one property and every connection another one.  Every call on the
table preserves it, if the operations of sessions preserve the one (`Session.Enduring`) and the reactions
of the owner preserve both (`Owner.Heeding`).

The property of a connection may depend on whether the owner has yet to be told that packets in sequence
wait for it: it is due for a connection that has just taken such packets, and no longer once the
owner was told.
-/

namespace NarrowLink.Connection

open Wire

/-- A property of the sessions of a port under a configuration, which may hold in a stronger form while
the owner has nothing to take.  Every operation on a session that has it in this form preserves it. -/
structure Session.Enduring (config : Config) (App : Packet → Prop)
    (P : Bool → UInt8 → Session → Prop) : Prop where
  weakens : ∀ {port : UInt8} {s : Session} (due : Bool), P false port s → P due port s
  told : ∀ {due : Bool} {port : UInt8} {s : Session}, P due port s → P due port { s with events := [] }
  connect : ∀ {port remotePort channel : UInt8} {options : Options} {now : Nat} {s : Session},
    (Session.new config .initiator port remotePort channel options).connect now = (.ok (), s) →
    P (decide (.inboundAvailable port ∈ s.events)) port s ∧ ∀ e ∈ s.events, e.Plain
  accept : ∀ {port remotePort channel : UInt8} {options : Options} {syn : Packet} {now : Nat}
    {s : Session},
    (Session.new config .responder port remotePort channel options).accept syn now = (.ok (), s) →
    P (decide (.inboundAvailable port ∈ s.events)) port s ∧ ∀ e ∈ s.events, e.Plain
  receive : ∀ {port : UInt8} {s : Session} {p : Packet}, P false port s → s.events = [] →
    p.port = port → P (decide (.inboundAvailable port ∈ (s.receive p).2.events)) port (s.receive p).2 ∧
      ∀ e ∈ (s.receive p).2.events, e.Plain
  send : ∀ {α : Type} {port : UInt8} {s : Session} {ps : List Packet} (now : Nat)
    {number : List Packet → List Packet × α}, NumbersFragments number → ps ≠ [] →
    (∀ p ∈ ps, App p) → P false port s → s.events = [] →
    P (decide (.inboundAvailable port ∈ (s.send ps now number).2.events)) port
      (s.send ps now number).2 ∧ ∀ e ∈ (s.send ps now number).2.events, e.Plain
  close : ∀ {port : UInt8} {s : Session} (now : Nat), P false port s → s.events = [] →
    P (decide (.inboundAvailable port ∈ (s.close now).2.events)) port (s.close now).2 ∧
      ∀ e ∈ (s.close now).2.events, e.Plain
  reset : ∀ {port : UInt8} {s : Session}, P false port s → s.events = [] →
    P (decide (.inboundAvailable port ∈ s.reset.events)) port s.reset ∧
      ∀ e ∈ s.reset.events, e.Plain
  checkTimers : ∀ {port : UInt8} {s : Session} (now : Nat), P false port s → s.events = [] →
    P (decide (.inboundAvailable port ∈ (s.checkTimers now).events)) port (s.checkTimers now) ∧
      ∀ e ∈ (s.checkTimers now).events, e.Plain

/-- A property that lasts through each operation endures, if it can be told from what the owner has yet to
take once the events are forgotten. -/
theorem Session.Lasting.enduring {config : Config} {App : Packet → Prop} {P : UInt8 → Session → Prop}
    {P' : Bool → UInt8 → Session → Prop} (h : ∀ port, Session.Lasting config port App (P port))
    (weakens : ∀ {port s} due, P' false port s → P' due port s)
    (told : ∀ {due port s}, P' due port s → P' due port { s with events := [] })
    (enters : ∀ {port s}, P' false port s → P port s)
    (leaves : ∀ {port s}, P port s → P' (decide (.inboundAvailable port ∈ s.events)) port s) :
    Session.Enduring config App P' := by
  have hand := fun port => (h port).and (Session.lasting_plain config port App)
  have henter : ∀ {port : UInt8} {s : Session}, P' false port s → s.events = [] →
      (P port s ∧ ∀ e ∈ s.events, e.Plain) ∧ ¬ s.Reports := by
    intro port s hs he
    unfold Session.Reports
    rw [he]
    exact ⟨⟨enters hs, fun e hmem => absurd hmem List.not_mem_nil⟩, List.not_mem_nil⟩
  have hleave : ∀ {port : UInt8} {s : Session}, (P port s ∧ ∀ e ∈ s.events, e.Plain) →
      P' (decide (.inboundAvailable port ∈ s.events)) port s ∧ ∀ e ∈ s.events, e.Plain :=
    fun hs => ⟨leaves hs.1, hs.2⟩
  exact {
    weakens := weakens
    told := told
    connect := fun he => hleave ((hand _).connect he)
    accept := fun he => hleave ((hand _).accept he)
    receive := fun hs he hport => hleave ((hand _).receive (henter hs he).1 (henter hs he).2 hport)
    send := fun now _ hnumber hne hps hs he =>
      hleave ((hand _).send (henter hs he).1 now hnumber hne hps)
    close := fun now hs he => hleave ((hand _).close (henter hs he).1 now)
    reset := fun hs he => hleave ((hand _).reset (henter hs he).1)
    checkTimers := fun now hs he => hleave ((hand _).checkTimers (henter hs he).1 now) }

/-- What is due after an event, if it is due at a port before it. -/
def Event.settle (due : Option UInt8) : Event → Option UInt8
  | .inboundAvailable port => if due = some port then none else due
  | _ => due

theorem Event.settle_none (e : Event) : e.settle none = none := by
  cases e <;> simp [settle]

theorem Event.foldl_settle_none (es : List Event) :
    es.foldl (fun due e => e.settle due) none = none := by
  induction es with
  | nil => rfl
  | cons e es ih => rw [List.foldl_cons, settle_none, ih]

/-- An owner that is told of all events has nothing left to be told of. -/
theorem Event.foldl_settle {es : List Event} {port : UInt8} (h : .inboundAvailable port ∈ es) :
    es.foldl (fun due e => e.settle due) (some port) = none := by
  induction es with
  | nil => exact absurd h List.not_mem_nil
  | cons e es ih =>
    rw [List.foldl_cons]
    by_cases he : e = .inboundAvailable port
    · rw [he, settle, if_pos rfl, foldl_settle_none]
    · have hsame : e.settle (some port) = some port := by
        unfold settle
        split
        · rename_i other
          exact if_neg fun heq => he (by rw [Option.some.inj heq])
        · rfl
      rw [hsame]
      exact ih (List.mem_of_ne_of_mem (Ne.symm he) h)

namespace Table

variable {σ : Type}

/-- The owner has one property, and each connection another one. -/
structure Keeps (config : Config) (D : σ → Prop) (P : Bool → UInt8 → Session → Prop)
    (due : Option UInt8) (t : Table σ) : Prop where
  config : t.config = config
  owner : D t.owner
  sessions : ∀ port e, t.entries.get port = some e →
    P (decide (due = some port)) port e.session ∧ e.session.events = []

end Table

/-- An owner whose reactions preserve a property of its own and one of its connections. -/
structure Owner.Heeding {σ : Type} (o : Owner σ) (config : Config) (D : σ → Prop)
    (P : Bool → UInt8 → Session → Prop) : Prop where
  react : ∀ {due : Option UInt8} {t : Table σ} {e : Event}, e.Plain → t.Keeps config D P due →
    (o.react e t).Keeps config D P (e.settle due)
  reject : ∀ {t : Table σ} (p : Packet) (flags : Flags), t.Keeps config D P none →
    (t.reject o p flags).Keeps config D P none
  decideOn : ∀ (localPort remotePort : UInt8) (t : Table σ), (o.decideOn localPort remotePort t).2 = t

namespace Table.Keeps

variable {σ α : Type} {o : Owner σ} {config : Config} {App : Packet → Prop} {D : σ → Prop}
  {P : Bool → UInt8 → Session → Prop} {due : Option UInt8} {t : Table σ}

theorem empty {d : σ} (h : D d) : (Table.empty config d).Keeps config D P none where
  config := rfl
  owner := h
  sessions port e he := by
    simp [Table.empty] at he

theorem remove (h : t.Keeps config D P due) (port : UInt8) (serial : Nat) :
    (t.remove port serial).Keeps config D P due := by
  unfold Table.remove
  split
  · refine ⟨h.config, h.owner, fun other e he => ?_⟩
    rw [ByteMap.get_set] at he
    split at he
    · cases he
    · exact h.sessions other e he
  · exact h

/-- A session is put into a table in which nothing is due. -/
theorem set (h : t.Keeps config D P none) (he : Session.Enduring config App P) {port : UInt8}
    {s : Session} (hs : P (decide (.inboundAvailable port ∈ s.events)) port s)
    (serial nextSerial : Nat) :
    Keeps config D P (if .inboundAvailable port ∈ s.events then some port else none)
      { t with
        entries := t.entries.set port (some ⟨serial, s.takeEvents.2⟩)
        nextSerial := nextSerial } := by
  refine ⟨h.config, h.owner, fun other e hget => ?_⟩
  rw [ByteMap.get_set] at hget
  split at hget
  · rename_i hport
    cases hget
    subst hport
    refine ⟨?_, rfl⟩
    have htold : P _ port s.takeEvents.2 := he.told hs
    by_cases hdue : .inboundAvailable port ∈ s.events
    · rw [if_pos hdue]
      simpa [hdue] using htold
    · rw [if_neg hdue]
      simpa [hdue] using htold
  · obtain ⟨hother, hevents⟩ := h.sessions other e hget
    exact ⟨he.weakens _ (by simpa using hother), hevents⟩

/-- What is done for some ports in turn. -/
theorem foldl_ports (h : t.Keeps config D P none) {op : Table σ → UInt8 → Table σ}
    (hop : ∀ t port, t.Keeps config D P none → (op t port).Keeps config D P none)
    (ports : List UInt8) : (ports.foldl op t).Keeps config D P none := by
  induction ports generalizing t with
  | nil => exact h
  | cons port ports ih => exact ih (hop t port h)

section

variable (ho : o.Heeding config D P)

include ho

/-- The owner is told of all events. -/
theorem foldl_react {events : List Event} (h : t.Keeps config D P due)
    (hplain : ∀ e ∈ events, e.Plain) :
    (events.foldl (fun t e => o.react e t) t).Keeps config D P
      (events.foldl (fun due e => e.settle due) due) := by
  induction events generalizing t due with
  | nil => exact h
  | cons e events ih =>
    exact ih (ho.react (hplain e List.mem_cons_self) h)
      fun x hx => hplain x (List.mem_cons_of_mem e hx)

theorem tell {port : UInt8} {events : List Event} (hplain : ∀ e ∈ events, e.Plain)
    (h : t.Keeps config D P (if .inboundAvailable port ∈ events then some port else none))
    (serial : Nat) :
    (t.tell o port serial (Event.stateFirst events)).Keeps config D P none := by
  have hperm := Event.stateFirst_perm events
  have hplain' : ∀ e ∈ Event.stateFirst events, e.Plain := fun e he => hplain e (hperm.mem_iff.1 he)
  have hall := h.foldl_react ho hplain'
  have hsettled : (Event.stateFirst events).foldl (fun due e => e.settle due)
      (if .inboundAvailable port ∈ events then some port else none) = none := by
    split
    · rename_i hdue
      exact Event.foldl_settle (hperm.mem_iff.2 hdue)
    · exact Event.foldl_settle_none _
  rw [hsettled] at hall
  unfold Table.tell
  simp only
  split
  · exact hall.remove port serial
  · exact hall

variable (he : Session.Enduring config App P)

include he

theorem onSession (h : t.Keeps config D P none) {port : UInt8} {f : Session → α × Session}
    (hf : ∀ s, P false port s → s.events = [] →
      P (decide (.inboundAvailable port ∈ (f s).2.events)) port (f s).2 ∧
        ∀ e ∈ (f s).2.events, e.Plain) :
    (t.onSession o port f).2.Keeps config D P none := by
  unfold Table.onSession
  split
  · exact h
  · rename_i e hget
    obtain ⟨hs, hevents⟩ := h.sessions port e hget
    obtain ⟨hs', hplain⟩ := hf e.session (by simpa using hs) hevents
    exact (h.set he hs' e.serial t.nextSerial).tell ho hplain e.serial

theorem enter (h : t.Keeps config D P none) {port : UInt8} {s : Session}
    (hs : P (decide (.inboundAvailable port ∈ s.events)) port s) (hplain : ∀ e ∈ s.events, e.Plain) :
    (t.enter o port s).Keeps config D P none :=
  (h.set he hs t.nextSerial (t.nextSerial + 1)).tell ho hplain t.nextSerial

theorem connect (h : t.Keeps config D P none) (now : Nat) (localPort remotePort channel : UInt8)
    (options : Options) :
    (t.connect o now localPort remotePort channel options).2.Keeps config D P none := by
  unfold Table.connect
  split
  · exact h
  split
  · exact h
  split
  · exact h
  split
  · exact h
  · rename_i s hs
    rw [h.config] at hs
    obtain ⟨hs', hplain⟩ := he.connect hs
    exact h.enter ho he hs' hplain

theorem receive (h : t.Keeps config D P none) (now : Nat) (p : Packet) :
    (t.receive o now p).2.Keeps config D P none := by
  have harrives : ∀ s, P false p.port s → s.events = [] →
      P (decide (.inboundAvailable p.port ∈ (s.receive p).2.events)) p.port (s.receive p).2 ∧
        ∀ e ∈ (s.receive p).2.events, e.Plain :=
    fun s hs hevents => he.receive hs hevents rfl
  have hsession := h.onSession ho he harrives
  unfold Table.receive
  split
  · rename_i heq
    rwa [heq] at hsession
  rename_i t' heq
  rw [heq] at hsession
  split
  · -- the packet asks for a connection on a free port
    have hasked := ho.decideOn p.port p.header.src t'
    unfold Table.receiveOpening
    simp only
    split
    · rename_i hd
      rw [hd] at hasked
      subst hasked
      exact ho.reject p _ hsession
    rename_i hd
    rw [hd] at hasked
    subst hasked
    split
    · exact hsession.onSession ho he harrives
    split
    · exact hsession
    · rename_i s hs
      rw [hsession.config] at hs
      obtain ⟨hs', hplain⟩ := he.accept hs
      exact hsession.enter ho he hs' hplain
  split
  · exact hsession
  · exact ho.reject p _ hsession

theorem send (h : t.Keeps config D P none) (now : Nat) (port : UInt8) {ps : List Packet}
    {number : List Packet → List Packet × α} (hnumber : NumbersFragments number) (hne : ps ≠ [])
    (hps : ∀ p ∈ ps, App p) : (t.send o now port ps number).2.Keeps config D P none :=
  h.onSession ho he fun _ hs hevents => he.send now hnumber hne hps hs hevents

theorem sendWaiting (h : t.Keeps config D P none) (now : Nat) (port : UInt8) {ps : List Packet}
    {number : List Packet → List Packet × α} (hnumber : NumbersFragments number) (hne : ps ≠ [])
    (hps : ∀ p ∈ ps, App p) : (t.sendWaiting o now port ps number).2.Keeps config D P none := by
  unfold Table.sendWaiting
  split
  · exact h
  split
  · exact h
  · exact h.send ho he now port hnumber hne hps

theorem close (h : t.Keeps config D P none) (now : Nat) (port : UInt8) :
    (t.close o now port).2.Keeps config D P none :=
  h.onSession ho he fun _ hs hevents => he.close now hs hevents

theorem reset (h : t.Keeps config D P none) (port : UInt8) :
    (t.reset o port).2.Keeps config D P none :=
  h.onSession ho he (f := fun s => ((.ok () : Except Error Unit), s.reset))
    fun _ hs hevents => he.reset hs hevents

theorem resetAll (h : t.Keeps config D P none) : (t.resetAll o).Keeps config D P none :=
  h.foldl_ports (fun _ port h => h.reset ho he port) t.ports

theorem checkTimersOn (h : t.Keeps config D P none) (now : Nat) (port : UInt8) :
    (t.onSession o port fun s => ((), s.checkTimers now)).2.Keeps config D P none :=
  h.onSession ho he fun _ hs hevents => he.checkTimers now hs hevents

theorem checkTimers (h : t.Keeps config D P none) (now : Nat) :
    (t.checkTimers o now).Keeps config D P none :=
  h.foldl_ports (fun _ port h => h.checkTimersOn ho he now port) t.ports

end

end Table.Keeps

end NarrowLink.Connection
