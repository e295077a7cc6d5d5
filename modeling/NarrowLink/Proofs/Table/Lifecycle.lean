import NarrowLink.Proofs.Table.Listener

/-!
# Connections live and end as their listener is told

Whatever is asked of a table, and whatever its listener makes of it, no connection that has ended is
left in the table, and what the listener was told of each connection is the life of a connection, which
has ended exactly if the connection has been removed (`lifecycle`).  Between two requests the journal of
the listener is right about every connection and none is over (`Calm`): each call into the table keeps
it so (`Calm.apply`), also from inside the calls that tell the listener of something
(`Listener.faithful_owner`).
-/

namespace NarrowLink.Connection

open Wire Table

variable {σ : Type}

/-! ## Listeners -/

/-- Taking what waits for the transmitter raises nothing but changes of state. -/
theorem isStateChange_of_fetchOutbound {s : Session} (h : s.events = []) :
    ∀ e ∈ s.fetchOutbound.2.events, e.isStateChange = true := by
  refine fetchOutbound_keeps (P := fun s => ∀ e ∈ s.events, e.isStateChange = true)
    (fun _ h => h) (fun {s} h e he => ?_) (by simp [h])
  unfold Session.moveTo at he
  split at he
  · exact h e he
  · rcases (mem_events_raise _ _ _).1 he with he | rfl
    · exact h e he
    · rfl

namespace Listener

variable (l : Listener σ)

theorem faithful_taking : Faithful l.taking where
  notes _ _ _ := ⟨_, rfl⟩
  keeps _ _ _ _ he h := h.noting he _
  minds _ _ _ := ⟨_, rfl⟩

/-- A listener may answer by taking packets, and learns of all that comes of it. -/
theorem faithful_owner : Faithful l.owner where
  notes e t he := ⟨_, l.react_of_isStateChange he t⟩
  keeps home finished e t he h := by
    have hnoted : Honest home finished (l.note e t) := h.noting he _
    show Honest home finished (l.react e t)
    unfold react
    simp only
    split
    · split
      · exact (l.faithful_taking.onSession hnoted _ _ fun s hs => (Turning.refl hs).fetchOutbound).minding _
      · exact hnoted
    · exact hnoted
  minds _ _ _ := ⟨_, rfl⟩

/-- While it is told of changes of state, a listener that takes packets behaves as it always does. -/
theorem tell_taking (t : Table (Journal σ)) (port : UInt8) (serial : Nat) {es : List Event}
    (hes : ∀ e ∈ es, e.isStateChange = true) :
    t.tell l.taking port serial es = t.tell l.owner port serial es := by
  have hfold : es.foldl (fun t e => l.taking.react e t) t = es.foldl (fun t e => l.owner.react e t) t := by
    refine List.foldl_ext _ _ t fun u e he => ?_
    exact (l.react_of_isStateChange (hes e he) u).symm
  unfold Table.tell
  rw [hfold]

/-- A listener never has to take packets while it takes packets. -/
theorem fetchOutbound_taking {t : Table (Journal σ)} (h : t.Told) (port : UInt8) :
    t.fetchOutbound l.taking port = t.fetchOutbound l.owner port := by
  have hsame : t.onSession l.taking port Session.fetchOutbound =
      t.onSession l.owner port Session.fetchOutbound := by
    unfold Table.onSession
    cases he : t.entries.get port with
    | none => rfl
    | some e =>
      have hchange : ∀ e' ∈ e.session.fetchOutbound.2.takeEvents.1, e'.isStateChange = true := fun e' he' =>
        isStateChange_of_fetchOutbound (h port e he) e' ((Event.stateFirst_perm _).mem_iff.1 he')
      exact congrArg (Prod.mk _) (l.tell_taking _ port e.serial hchange)
  unfold Table.fetchOutbound
  rw [hsame]

end Listener

namespace Table

/-! ## Calls -/

/-- The journal is right about all connections, and none of them is over. -/
def Calm (t : Table (Journal σ)) : Prop := ∃ home, Honest home (fun _ => False) t

theorem calm_empty (config : Config) (mind : σ) : (empty config ⟨mind, []⟩ : Table (Journal σ)).Calm := by
  refine ⟨fun _ => 0, ⟨?_, ?_, fun _ _ => rfl⟩, by simp [empty]⟩
  · intro port e he
    simp [empty] at he
  · intro k hk
    exact absurd hk (Nat.not_lt_zero k)

section

variable {o : Owner (Journal σ)} (ho : Faithful o) {t : Table (Journal σ)}

include ho

theorem Calm.onSession {α : Type} (h : t.Calm) (port : UInt8) (f : Session → α × Session)
    (hf : ∀ {s}, Turning s.state s.localPort s → Turning s.state s.localPort (f s).2) :
    (t.onSession o port f).2.Calm := by
  obtain ⟨home, h⟩ := h
  exact ⟨home, ho.onSession h port f fun s hs => hf (.refl hs)⟩

theorem Calm.enter (h : t.Calm) {port : UInt8} {s : Session} (hs : Born port s)
    (hfree : t.entries.get port = none) : (t.enter o port s).Calm := by
  obtain ⟨home, h⟩ := h
  exact ho.enter h hs hfree

theorem Calm.connect (h : t.Calm) (now : Nat) (localPort remotePort channel : UInt8)
    (options : Options) : (t.connect o now localPort remotePort channel options).2.Calm := by
  unfold Table.connect
  split
  · exact h
  split
  · exact h
  split
  · exact h
  rename_i hfree
  split
  · exact h
  · rename_i s hs
    exact h.enter ho (born_of_connect hs) (by simpa using hfree)

theorem Calm.reject (h : t.Calm) (p : Packet) (flags : Flags) : (t.reject o p flags).Calm := by
  obtain ⟨home, h⟩ := h
  exact ⟨home, ho.keeps home _ _ t rfl h⟩

theorem Calm.decideOn (h : t.Calm) (localPort remotePort : UInt8) :
    (o.decideOn localPort remotePort t).2.Calm := by
  obtain ⟨home, h⟩ := h
  obtain ⟨mind, hmind⟩ := ho.minds localPort remotePort t
  rw [hmind]
  exact ⟨home, h.minding mind⟩

theorem Calm.receiveOpening (h : t.Calm) (now : Nat) (syn : Packet) :
    (t.receiveOpening o now syn).2.Calm := by
  have hasked := h.decideOn ho syn.port syn.header.src
  unfold Table.receiveOpening
  simp only
  split
  · rename_i hd
    rw [hd] at hasked
    exact hasked.reject ho syn _
  rename_i hd
  rw [hd] at hasked
  split
  · exact hasked.onSession ho syn.port _ fun ht => ht.receive syn
  rename_i hfree
  split
  · exact hasked
  · rename_i s hs
    exact hasked.enter ho (born_of_accept hs) (by simpa using hfree)

theorem Calm.receive (h : t.Calm) (now : Nat) (p : Packet) : (t.receive o now p).2.Calm := by
  have hsession := h.onSession ho p.port (fun s => s.receive p) fun ht => ht.receive p
  unfold Table.receive
  split
  · rename_i he
    rwa [he] at hsession
  rename_i t' he
  rw [he] at hsession
  split
  · exact hsession.receiveOpening ho now p
  split
  · exact hsession
  · exact hsession.reject ho p _

theorem Calm.send {α : Type} (h : t.Calm) (now : Nat) (port : UInt8) (ps : List Packet)
    (number : List Packet → List Packet × α) : (t.send o now port ps number).2.Calm :=
  h.onSession ho port _ fun ht => ht.send ps now number

theorem Calm.sendWaiting {α : Type} (h : t.Calm) (now : Nat) (port : UInt8) (ps : List Packet)
    (number : List Packet → List Packet × α) : (t.sendWaiting o now port ps number).2.Calm := by
  unfold Table.sendWaiting
  split
  · exact h
  split
  · exact h
  · exact h.send ho now port ps number

theorem Calm.reset (h : t.Calm) (port : UInt8) : (t.reset o port).2.Calm :=
  h.onSession ho port _ fun ht => ht.reset

theorem Calm.apply (h : t.Calm) (c : Call) : (t.apply o c).Calm := by
  cases c with
  | connect => exact h.connect ho _ _ _ _ _
  | receive => exact h.receive ho _ _
  | send => exact h.send ho _ _ _ _
  | sendWaiting => exact h.sendWaiting ho _ _ _ _
  | fetchOutbound port => exact h.onSession ho port Session.fetchOutbound fun ht => ht.fetchOutbound
  | giveBack port ps => exact h.onSession ho port _ fun ht => ht.giveBack ps
  | fetchInbound port => exact h.onSession ho port Session.fetchInbound fun ht => ht.fetchInbound
  | close now port => exact h.onSession ho port _ fun ht => ht.close now
  | reset port => exact h.reset ho port
  | resetAll => exact List.foldlRecOn t.ports _ h fun _ h port _ => h.reset ho port
  | checkTimers now =>
    exact List.foldlRecOn t.ports _ h fun _ h port _ => h.onSession ho port _ fun ht => ht.checkTimers now

end

variable {t : Table (Journal σ)}

/-- What a listener was told last of a connection is the state that the connection is in. -/
theorem Calm.getLast?_changesOf (h : t.Calm) {port : UInt8} {e : Entry}
    (he : t.entries.get port = some e) :
    (t.owner.changesOf e.serial).getLast?.map Change.new = some e.session.state := by
  obtain ⟨home, h⟩ := h
  exact (h.settled.resides port e he).lives.getLast?

theorem Calm.state_ne_disconnected (h : t.Calm) {port : UInt8} {e : Entry}
    (he : t.entries.get port = some e) : e.session.state ≠ .disconnected := by
  obtain ⟨home, h⟩ := h
  exact (h.settled.resides port e he).finished_iff.1

/-- What a listener was told of a connection is a life, which has ended if the connection is gone. -/
theorem Calm.lives (h : t.Calm) {k : Nat} (hk : k < t.nextSerial) :
    ∃ state, Lives (t.owner.changesOf k) state ∧
      (state = .disconnected ↔ ∀ port, t.serialOn port ≠ some k) := by
  obtain ⟨home, hhonest⟩ := h
  by_cases hgone : ∀ port, t.serialOn port ≠ some k
  · exact ⟨.disconnected, hhonest.settled.ended k hk hgone, iff_of_true rfl hgone⟩
  · obtain ⟨port, hport⟩ := not_forall.1 hgone
    obtain ⟨e, he, rfl⟩ := serialOn_eq_some_iff.1 (not_not.1 hport)
    have hstate := Calm.state_ne_disconnected ⟨home, hhonest⟩ he
    exact ⟨e.session.state, (hhonest.settled.resides port e he).lives, iff_of_false hstate hgone⟩

/-! ## Requests -/

/-- Something that is asked of a table.  It looks at the timers of all connections in ascending order of
their ports; it may as well be asked to look at them one by one, in any other order. -/
inductive Request where
  | call (c : Call)
  | checkTimers (now : Nat) (port : UInt8)

/-- The table that a request leaves behind. -/
def serve (o : Owner σ) (t : Table σ) : Request → Table σ
  | .call c => t.apply o c
  | .checkTimers now port => (t.onSession o port fun s => ((), s.checkTimers now)).2

/-- The table that requests leave behind, one after the other. -/
def serveAll (o : Owner σ) (t : Table σ) (rs : List Request) : Table σ := rs.foldl (serve o) t

theorem Calm.serveAll {o : Owner (Journal σ)} (ho : Faithful o) (h : t.Calm) (rs : List Request) :
    (t.serveAll o rs).Calm := by
  refine List.foldlRecOn rs _ h fun u hu r _ => ?_
  cases r with
  | call c => exact hu.apply ho c
  | checkTimers now port => exact hu.onSession ho port _ fun ht => ht.checkTimers now

/-- Whatever is asked of a table, and whatever its listener makes of it: no connection of the table has
ended; the changes of state of each connection that was ever entered, in the order in which the listener
learned of them, are the life of a connection, which has come to its end exactly if the connection has
been removed; and the listener learned of no other changes. -/
theorem lifecycle (l : Listener σ) (config : Config) (mind : σ) (rs : List Request) :
    let t := (empty config ⟨mind, []⟩ : Table (Journal σ)).serveAll l.owner rs
    (∀ port, t.state? port ≠ some .disconnected) ∧
      (∀ k < t.nextSerial, Life (t.owner.changesOf k) ∧
        ((t.owner.changesOf k).getLast?.map Change.new = some .disconnected ↔
          ∀ port, t.serialOn port ≠ some k)) ∧
      ∀ n ∈ t.owner.told, n.2.isStateChange = true → ∃ k < t.nextSerial, n.1 = some k := by
  intro t
  have hcalm : t.Calm := (calm_empty config mind).serveAll l.faithful_owner rs
  refine ⟨?_, ?_, ?_⟩
  · intro port hport
    obtain ⟨s, hs, hstate⟩ := Option.map_eq_some_iff.1 hport
    obtain ⟨e, he, rfl⟩ := Option.map_eq_some_iff.1 hs
    exact hcalm.state_ne_disconnected he hstate
  · intro k hk
    obtain ⟨state, hlives, hended⟩ := hcalm.lives hk
    refine ⟨hlives.life, ?_⟩
    rw [hlives.getLast?, Option.some.injEq]
    exact hended
  · obtain ⟨home, h⟩ := hcalm
    exact h.tagged

/-- A listener that takes everything at once, and accepts nobody. -/
def eager : Listener Unit where
  learn _ _ := ()
  takes _ _ := true
  keep _ _ _ := ()
  accept _ _ _ := (none, ())

example : ((empty {} ⟨(), []⟩ : Table (Journal Unit)).serveAll eager.owner
      [.call (.connect 0 7 9 0 {}), .call (.reset 7)]).owner.changesOf 0 =
    [⟨.disconnected, .connecting⟩, ⟨.connecting, .resetting⟩, ⟨.resetting, .disconnected⟩] := by
  decide +kernel

end Table

end NarrowLink.Connection
