import NarrowLink.Connection.Table

/-!
# Two owners in step

If one owner keeps all that another one keeps, and more (`Owner.Shows`), then every call on a table of
the first owner is a call on the table of the second one (`Table.view`).  So an owner that also keeps a
record of what it does can be told apart from one that does not by its record only.
-/

namespace NarrowLink.Connection

open Wire

variable {σ τ α : Type} {f : σ → τ} {o : Owner σ} {o' : Owner τ}

/-- The table with less of its owner. -/
def Table.view (f : σ → τ) (t : Table σ) : Table τ := ⟨t.config, t.entries, t.nextSerial, f t.owner⟩

/-- Seen through `f`, the first owner does what the second one does. -/
structure Owner.Shows (f : σ → τ) (o : Owner σ) (o' : Owner τ) : Prop where
  react : ∀ e t, (o.react e t).view f = o'.react e (t.view f)
  decideOn : ∀ localPort remotePort t,
    ((o.decideOn localPort remotePort t).1, (o.decideOn localPort remotePort t).2.view f) =
      o'.decideOn localPort remotePort (t.view f)

namespace Owner.Shows

open Table

theorem remove (t : Table σ) (port : UInt8) (serial : Nat) :
    (t.remove port serial).view f = (t.view f).remove port serial := by
  unfold Table.remove
  rw [apply_ite (Table.view f)]
  rfl

theorem foldl (h : Owner.Shows f o o') (events : List Event) (t : Table σ) :
    (events.foldl (fun t e => o.react e t) t).view f =
      events.foldl (fun t e => o'.react e t) (t.view f) := by
  induction events generalizing t with
  | nil => rfl
  | cons e events ih => rw [List.foldl_cons, ih, h.react, List.foldl_cons]

theorem tell (h : Owner.Shows f o o') (t : Table σ) (port : UInt8) (serial : Nat)
    (events : List Event) :
    (t.tell o port serial events).view f = (t.view f).tell o' port serial events := by
  unfold Table.tell
  simp only
  rw [apply_ite (Table.view f), remove, h.foldl]

theorem onSession (h : Owner.Shows f o o') (t : Table σ) (port : UInt8) (g : Session → α × Session) :
    Prod.map id (Table.view f) (t.onSession o port g) = (t.view f).onSession o' port g := by
  unfold Table.onSession
  have hentry : (t.view f).entries.get port = t.entries.get port := rfl
  rw [hentry]
  cases t.entries.get port with
  | none => rfl
  | some e => exact congrArg (Prod.mk _) (h.tell _ port e.serial _)

theorem enter (h : Owner.Shows f o o') (t : Table σ) (port : UInt8) (s : Session) :
    (t.enter o port s).view f = (t.view f).enter o' port s :=
  h.tell _ port t.nextSerial _

theorem orElse {missing : Error} {r : Option (Except Error α) × Table σ}
    {r' : Option (Except Error α) × Table τ} (h : Prod.map id (Table.view f) r = r') :
    Prod.map id (Table.view f) (Table.orElse missing r) = Table.orElse missing r' := by
  rw [← h]
  rfl

theorem connect (h : Owner.Shows f o o') (t : Table σ) (now : Nat)
    (localPort remotePort channel : UInt8) (options : Options) :
    Prod.map id (Table.view f) (t.connect o now localPort remotePort channel options) =
      (t.view f).connect o' now localPort remotePort channel options := by
  have hentry : (t.view f).entries.get localPort = t.entries.get localPort := rfl
  have hconfig : (t.view f).config = t.config := rfl
  unfold Table.connect
  rw [hentry, hconfig]
  split
  · rfl
  split
  · rfl
  split
  · rfl
  split
  · rfl
  · exact congrArg (Prod.mk _) (h.enter t localPort _)

theorem receiveOpening (h : Owner.Shows f o o') (t : Table σ) (now : Nat) (syn : Packet) :
    Prod.map id (Table.view f) (t.receiveOpening o now syn) =
      (t.view f).receiveOpening o' now syn := by
  have hdecide := h.decideOn syn.port syn.header.src t
  unfold Table.receiveOpening
  simp only
  rw [← hdecide]
  cases o.decideOn syn.port syn.header.src t with
  | mk answer t' =>
    cases answer with
    | none => exact congrArg (Prod.mk _) (h.react _ t')
    | some options =>
      simp only
      have hentry : (t'.view f).entries.get syn.port = t'.entries.get syn.port := rfl
      have hconfig : (t'.view f).config = t'.config := rfl
      rw [hentry, hconfig]
      split
      · exact orElse (h.onSession t' syn.port _)
      split
      · rfl
      · exact congrArg (Prod.mk _) (h.enter t' syn.port _)

theorem receive (h : Owner.Shows f o o') (t : Table σ) (now : Nat) (p : Packet) :
    Prod.map id (Table.view f) (t.receive o now p) = (t.view f).receive o' now p := by
  have hsession := h.onSession t p.port fun s => s.receive p
  unfold Table.receive
  rw [← hsession]
  cases t.onSession o p.port fun s => s.receive p with
  | mk answer t' =>
    cases answer with
    | some => rfl
    | none =>
      simp only [Prod.map, id]
      split
      · exact h.receiveOpening t' now p
      split
      · rfl
      · exact congrArg (Prod.mk _) (h.react _ t')

theorem send (h : Owner.Shows f o o') (t : Table σ) (now : Nat) (port : UInt8) (ps : List Packet)
    (number : List Packet → List Packet × α) :
    Prod.map id (Table.view f) (t.send o now port ps number) =
      (t.view f).send o' now port ps number :=
  orElse (h.onSession t port _)

theorem sendWaiting (h : Owner.Shows f o o') (t : Table σ) (now : Nat) (port : UInt8)
    (ps : List Packet) (number : List Packet → List Packet × α) :
    Prod.map id (Table.view f) (t.sendWaiting o now port ps number) =
      (t.view f).sendWaiting o' now port ps number := by
  have hsession : (t.view f).session? port = t.session? port := rfl
  unfold Table.sendWaiting
  rw [hsession]
  split
  · rfl
  split
  · rfl
  · exact h.send t now port ps number

theorem close (h : Owner.Shows f o o') (t : Table σ) (now : Nat) (port : UInt8) :
    Prod.map id (Table.view f) (t.close o now port) = (t.view f).close o' now port :=
  orElse (h.onSession t port _)

theorem reset (h : Owner.Shows f o o') (t : Table σ) (port : UInt8) :
    Prod.map id (Table.view f) (t.reset o port) = (t.view f).reset o' port :=
  orElse (h.onSession t port _)

/-- What is done for some ports in turn. -/
theorem foldl_ports (ports : List UInt8) {op : Table σ → UInt8 → Table σ}
    {op' : Table τ → UInt8 → Table τ} (hop : ∀ t port, (op t port).view f = op' (t.view f) port)
    (t : Table σ) : (ports.foldl op t).view f = ports.foldl op' (t.view f) := by
  induction ports generalizing t with
  | nil => rfl
  | cons port ports ih => rw [List.foldl_cons, ih, hop, List.foldl_cons]

theorem resetAll (h : Owner.Shows f o o') (t : Table σ) :
    (t.resetAll o).view f = (t.view f).resetAll o' := by
  unfold Table.resetAll
  refine foldl_ports t.ports (fun t port => ?_) t
  exact congrArg Prod.snd (h.reset t port)

theorem checkTimers (h : Owner.Shows f o o') (t : Table σ) (now : Nat) :
    (t.checkTimers o now).view f = (t.view f).checkTimers o' now := by
  unfold Table.checkTimers
  refine foldl_ports t.ports (fun t port => ?_) t
  exact congrArg Prod.snd (h.onSession t port fun s => ((), s.checkTimers now))

end Owner.Shows

end NarrowLink.Connection
