import NarrowLink.Connection.Recorder

/-!
# What owners can make of a table

`Call` lists what can be asked of a table.  `Table.Reaches` says what becomes of a table in the hands of
an owner, whoever it is: it keeps a state of its own and calls into the table, also from inside the
calls of its own, which then may have told it anything.

Between two calls the owner has been told everything that happened (`Table.Told`), because every
session that a call puts into the table comes from `Session.takeEvents` (`Reaches.told`).
-/

namespace NarrowLink.Connection.Table

open Wire

variable {σ : Type}

/-- A call into a table. -/
inductive Call where
  | connect (now : Nat) (localPort remotePort channel : UInt8) (options : Options)
  | receive (now : Nat) (p : Packet)
  | send (now : Nat) (port : UInt8) (ps : List Packet) (number : List Packet → List Packet)
  | sendWaiting (now : Nat) (port : UInt8) (ps : List Packet) (number : List Packet → List Packet)
  | fetchOutbound (port : UInt8)
  | giveBack (port : UInt8) (ps : List Packet)
  | fetchInbound (port : UInt8)
  | close (now : Nat) (port : UInt8)
  | reset (port : UInt8)
  | resetAll
  | checkTimers (now : Nat)

/-- The table that a call leaves behind. -/
def apply (o : Owner σ) (t : Table σ) : Call → Table σ
  | .connect now localPort remotePort channel options =>
    (t.connect o now localPort remotePort channel options).2
  | .receive now p => (t.receive o now p).2
  | .send now port ps number => (t.send o now port ps fun ps => (number ps, ())).2
  | .sendWaiting now port ps number => (t.sendWaiting o now port ps fun ps => (number ps, ())).2
  | .fetchOutbound port => (t.fetchOutbound o port).2
  | .giveBack port ps => t.giveBack o port ps
  | .fetchInbound port => (t.fetchInbound o port).2
  | .close now port => (t.close o now port).2
  | .reset port => (t.reset o port).2
  | .resetAll => t.resetAll o
  | .checkTimers now => t.checkTimers o now

/-- What an owner can make of a table.  The owner that a call is made for may be another one than
before, as long as it too does nothing but call into the table. -/
inductive Reaches : Table σ → Table σ → Prop where
  | refl (t : Table σ) : Reaches t t
  | trans {t u v : Table σ} : Reaches t u → Reaches u v → Reaches t v
  | onOwner (t : Table σ) (f : σ → σ) : Reaches t (t.onOwner f)
  | call (o : Owner σ) (t : Table σ) (c : Call)
      (react : ∀ e t, Reaches t (o.react e t))
      (decideOn : ∀ localPort remotePort t, Reaches t (o.decideOn localPort remotePort t).2) :
      Reaches t (t.apply o c)

/-- The owner was told everything that happened to its connections. -/
def Told (t : Table σ) : Prop := ∀ port e, t.entries.get port = some e → e.session.events = []

theorem told_empty (config : Config) (owner : σ) : (empty config owner).Told := by
  intro port e he
  simp [empty] at he

theorem Told.set {t : Table σ} (h : t.Told) (port : UInt8) (serial nextSerial : Nat) (s : Session) :
    Told { t with
      entries := t.entries.set port (some ⟨serial, s.takeEvents.2⟩)
      nextSerial := nextSerial } := by
  intro other e he
  rw [ByteMap.get_set] at he
  split at he
  · cases he
    rfl
  · exact h other e he

theorem Told.remove {t : Table σ} (h : t.Told) (port : UInt8) (serial : Nat) :
    (t.remove port serial).Told := by
  unfold Table.remove
  split
  · intro other e he
    rw [ByteMap.get_set] at he
    split at he
    · cases he
    · exact h other e he
  · exact h

theorem Told.foldl {α : Type} {f : Table σ → α → Table σ} (hf : ∀ t a, t.Told → (f t a).Told)
    (as : List α) {t : Table σ} (h : t.Told) : (as.foldl f t).Told := by
  induction as generalizing t with
  | nil => exact h
  | cons a as ih => exact ih (hf t a h)

section

variable {o : Owner σ} (react : ∀ e t, t.Told → (o.react e t).Told) {t : Table σ}

include react

theorem Told.tell (h : t.Told) (port : UInt8) (serial : Nat) (events : List Event) :
    (t.tell o port serial events).Told := by
  have hall := h.foldl (fun t e => react e t) events
  unfold Table.tell
  simp only
  split
  · exact hall.remove port serial
  · exact hall

theorem Told.onSession {α : Type} (h : t.Told) (port : UInt8) (f : Session → α × Session) :
    (t.onSession o port f).2.Told := by
  unfold Table.onSession
  split
  · exact h
  · exact (h.set port _ t.nextSerial _).tell react port _ _

theorem Told.enter (h : t.Told) (port : UInt8) (s : Session) : (t.enter o port s).Told :=
  (h.set port t.nextSerial (t.nextSerial + 1) s).tell react port _ _

theorem Told.connect (h : t.Told) (now : Nat) (localPort remotePort channel : UInt8)
    (options : Options) : (t.connect o now localPort remotePort channel options).2.Told := by
  unfold Table.connect
  split
  · exact h
  split
  · exact h
  split
  · exact h
  split
  · exact h
  · exact h.enter react localPort _

theorem Told.reject (h : t.Told) (p : Packet) (flags : Flags) : (t.reject o p flags).Told :=
  react _ t h

theorem Told.send {α : Type} (h : t.Told) (now : Nat) (port : UInt8) (ps : List Packet)
    (number : List Packet → List Packet × α) : (t.send o now port ps number).2.Told :=
  h.onSession react port _

theorem Told.receive
    (decideOn : ∀ localPort remotePort t, t.Told → (o.decideOn localPort remotePort t).2.Told)
    (h : t.Told) (now : Nat) (p : Packet) : (t.receive o now p).2.Told := by
  have hsession := h.onSession react p.port fun s => s.receive p
  unfold Table.receive
  split
  · rename_i he
    rwa [he] at hsession
  rename_i t' he
  rw [he] at hsession
  split
  · -- the packet asks for a connection on a free port
    have hasked := decideOn p.port p.header.src t' hsession
    unfold Table.receiveOpening
    simp only
    split
    · rename_i hd
      rw [hd] at hasked
      exact hasked.reject react p _
    rename_i hd
    rw [hd] at hasked
    split
    · exact hasked.onSession react p.port _
    split
    · exact hasked
    · exact hasked.enter react p.port _
  split
  · exact hsession
  · exact hsession.reject react p _

theorem Told.apply
    (decideOn : ∀ localPort remotePort t, t.Told → (o.decideOn localPort remotePort t).2.Told)
    (h : t.Told) (c : Call) : (t.apply o c).Told := by
  cases c with
  | connect => exact h.connect react _ _ _ _ _
  | receive => exact h.receive react decideOn _ _
  | send => exact h.send react _ _ _ _
  | sendWaiting now port ps number =>
    show (t.sendWaiting o now port ps _).2.Told
    unfold Table.sendWaiting
    split
    · exact h
    split
    · exact h
    · exact h.send react _ _ _ _
  | fetchOutbound port => exact h.onSession react port Session.fetchOutbound
  | giveBack port => exact h.onSession react port _
  | fetchInbound port => exact h.onSession react port Session.fetchInbound
  | close now port => exact h.onSession react port _
  | reset port => exact h.onSession react port _
  | resetAll => exact h.foldl (fun _ port h => h.onSession react port _) t.ports
  | checkTimers => exact h.foldl (fun _ port h => h.onSession react port _) t.ports

end

/-- Whatever an owner does, between its calls nothing is left that it was not told. -/
theorem Reaches.told {t u : Table σ} (h : t.Reaches u) (ht : t.Told) : u.Told := by
  induction h with
  | refl => exact ht
  | trans _ _ ih₁ ih₂ => exact ih₂ (ih₁ ht)
  | onOwner => exact ht
  | call o t c _ _ react decideOn => exact ht.apply react decideOn c

end NarrowLink.Connection.Table

/-! ## Recorders -/

namespace NarrowLink.Connection.Recorder

open Table

theorem reaches_listening (t : Table Recorder) (c : Call) : t.Reaches (t.apply listening c) :=
  .call listening t c (fun e t => .onOwner t fun r => r.learn e) (fun _ _ t => .refl t)

theorem reaches_react (e : Event) (t : Table Recorder) : t.Reaches (react e t) := by
  have hlearn : t.Reaches (t.onOwner fun r => r.learn e) := .onOwner t _
  unfold react
  simp only
  split
  · split
    · exact (hlearn.trans (reaches_listening _ (.fetchOutbound _))).trans (.onOwner _ _)
    · exact hlearn
  · exact hlearn

theorem reaches_decideOn (localPort remotePort : UInt8) (t : Table Recorder) :
    t.Reaches (decideOn localPort remotePort t).2 := by
  have hwrite : t.Reaches (t.onOwner fun r => r.write (.asked localPort remotePort)) := .onOwner t _
  unfold decideOn
  simp only
  split
  · exact hwrite.trans (.call reacting _ (.connect 0 localPort remotePort 0 {}) reaches_react
      fun _ _ t => .refl t)
  · exact hwrite

/-- A recorder is an owner that does nothing but call into its table. -/
theorem reaches_apply (t : Table Recorder) (c : Call) : t.Reaches (t.apply owner c) :=
  .call owner t c reaches_react reaches_decideOn

end NarrowLink.Connection.Recorder
